/-
# Update statements as values

An `UPDATE` statement is a condition on rows and an assignment, both of which may read the key
of the row. Taken as a value, a statement can be asked what it would hit before it runs, which
is what a row lock needs, and a property of statements is proved once for a whole family of
them.

A table is rewritten when no row is added or lost and a relation leads from every row to its
new value. A statement rewrites a table along every reflexive relation that holds of the rows it
hits, and rewritings compose. A measure of rows, summed over a table, goes down with a statement
that lowers it somewhere and raises it nowhere.

A transaction that stops at its first failing statement is a fold in `Option`; what each
successful statement keeps, the transaction keeps.
-/

import EntityResolution.Foundations.Tables

namespace EntityResolution.Statements

open EntityResolution.Collections EntityResolution.Tables

universe u v

variable {K : Type u} {V : Type v}

/-- `UPDATE … SET … WHERE hit`. -/
structure Update (K : Type u) (V : Type v) where
  hit : K → V → Bool
  set : K → V → V

namespace Update

/-- What the statement makes of one row. -/
def row (update : Update K V) (k : K) (old : V) : V :=
  if update.hit k old then update.set k old else old

/-- The same statement, kept to the rows that also meet `keep`. -/
def restrict (update : Update K V) (keep : K → Bool) : Update K V where
  hit k old := keep k && update.hit k old
  set := update.set

section Run

variable [LinearOrder K]

/-- Run the statement on a table. -/
def run (update : Update K V) (table : BTreeMap K V) : BTreeMap K V :=
  table.map update.row

/-- The keys of the rows that the statement would hit. -/
def matched (update : Update K V) (table : BTreeMap K V) : List K :=
  (table.filter update.hit).keys

/-- Whether the statement would hit no row. -/
def idle (update : Update K V) (table : BTreeMap K V) : Bool :=
  countWhere table update.hit == 0

@[simp] theorem getElem?_run (update : Update K V) (table : BTreeMap K V) (k : K) :
    (update.run table)[k]? = table[k]?.map (update.row k) := by
  rw [run, BTreeMap.getElem?_map_eq]

theorem getElem?_run_eq_some_iff {update : Update K V} {table : BTreeMap K V} {k : K} {new : V} :
    (update.run table)[k]? = some new ↔ ∃ old, table[k]? = some old ∧ update.row k old = new := by
  rw [getElem?_run, Option.map_eq_some_iff]

@[simp] theorem mem_run {update : Update K V} {table : BTreeMap K V} {k : K} :
    k ∈ update.run table ↔ k ∈ table :=
  Std.ExtTreeMap.mem_map

theorem mem_matched {update : Update K V} {table : BTreeMap K V} {k : K} :
    k ∈ update.matched table ↔ ∃ old, table[k]? = some old ∧ update.hit k old = true := by
  rw [matched, BTreeMap.mem_keys, BTreeMap.mem_iff_exists_getElem?]
  simp only [BTreeMap.getElem?_filter_eq, Option.filter_eq_some_iff]

theorem idle_eq_true_iff {update : Update K V} {table : BTreeMap K V} :
    update.idle table = true ↔ ∀ k old, table[k]? = some old → update.hit k old = false := by
  rw [idle, beq_iff_eq, countWhere_eq_zero_iff]

theorem exists_hit_of_idle_eq_false {update : Update K V} {table : BTreeMap K V}
    (hidle : update.idle table = false) :
    ∃ k old, table[k]? = some old ∧ update.hit k old = true := by
  by_contra hnone
  have hall : update.idle table = true := by
    rw [idle_eq_true_iff]
    intro k old hrow
    rw [← Bool.not_eq_true]
    intro hhit
    exact hnone ⟨k, old, hrow, hhit⟩
  rw [hall] at hidle
  cases hidle

end Run

end Update

section Rewriting

variable [LinearOrder K]

/-- The later table has the same keys, and every row is related to its new value. -/
structure Rewritten (related : K → V → V → Prop) (table later : BTreeMap K V) : Prop where
  forward : ∀ k old, table[k]? = some old → ∃ new, later[k]? = some new ∧ related k old new
  backward : ∀ k new, later[k]? = some new → ∃ old, table[k]? = some old ∧ related k old new

namespace Rewritten

variable {related : K → V → V → Prop} {table later final : BTreeMap K V}

theorem mono {weaker : K → V → V → Prop} (hrewritten : Rewritten related table later)
    (hweaker : ∀ k old new, related k old new → weaker k old new) :
    Rewritten weaker table later where
  forward k old hold := by
    obtain ⟨new, hnew, hrelated⟩ := hrewritten.forward k old hold
    exact ⟨new, hnew, hweaker k old new hrelated⟩
  backward k new hnew := by
    obtain ⟨old, hold, hrelated⟩ := hrewritten.backward k new hnew
    exact ⟨old, hold, hweaker k old new hrelated⟩

theorem isSome_eq (hrewritten : Rewritten related table later) (k : K) :
    (later[k]?).isSome = (table[k]?).isSome := by
  rw [Bool.eq_iff_iff, Option.isSome_iff_exists, Option.isSome_iff_exists]
  apply Iff.intro
  · intro hlater
    obtain ⟨new, hnew⟩ := hlater
    obtain ⟨old, hold, _⟩ := hrewritten.backward k new hnew
    exact ⟨old, hold⟩
  · intro hbefore
    obtain ⟨old, hold⟩ := hbefore
    obtain ⟨new, hnew, _⟩ := hrewritten.forward k old hold
    exact ⟨new, hnew⟩

end Rewritten

/-- A statement rewrites a table along a relation that holds of the rows it hits. -/
theorem Update.rewritten {related : K → V → V → Prop} (hrefl : ∀ k old, related k old old)
    {update : Update K V} {table : BTreeMap K V}
    (hhit : ∀ k old, table[k]? = some old → update.hit k old = true →
      related k old (update.set k old)) :
    Rewritten related table (update.run table) := by
  have hrow (k : K) (old : V) (hold : table[k]? = some old) :
      related k old (update.row k old) := by
    rw [Update.row]
    by_cases hmatch : update.hit k old = true
    · rw [if_pos hmatch]
      exact hhit k old hold hmatch
    · rw [if_neg hmatch]
      exact hrefl k old
  constructor
  · intro k old hold
    refine ⟨update.row k old, ?_, hrow k old hold⟩
    rw [Update.getElem?_run, hold]
    rfl
  · intro k new hnew
    rw [Update.getElem?_run_eq_some_iff] at hnew
    obtain ⟨old, hold, rfl⟩ := hnew
    exact ⟨old, hold, hrow k old hold⟩

end Rewriting

section Measures

variable [LinearOrder K] {measure : V → ℕ} {table : BTreeMap K V}

/-- The sum of a measure of rows over a table. -/
def total (measure : V → ℕ) (table : BTreeMap K V) : ℕ :=
  (table.toList.map fun entry => measure entry.2).sum

theorem total_eq_zero_iff :
    total measure table = 0 ↔
      ∀ (k : K) (row : V), table[k]? = some row → measure row = 0 := by
  rw [total, List.sum_eq_zero_iff]
  simp only [List.forall_mem_map, Prod.forall, BTreeMap.mem_toList]

/-- A measure that is bounded on the rows that meet a condition, and is nothing on the others. -/
theorem total_le_mul_countWhere {hit : K → V → Bool} {bound : ℕ}
    (hhit : ∀ (k : K) (row : V), table[k]? = some row →
      measure row ≤ if hit k row then bound else 0) :
    total measure table ≤ countWhere table hit * bound := by
  have hsum : ∀ entries : List (K × V),
      (∀ entry ∈ entries, measure entry.2 ≤ if hit entry.1 entry.2 then bound else 0) →
        (entries.map fun entry => measure entry.2).sum ≤
          (entries.filter fun entry => hit entry.1 entry.2).length * bound := by
    intro entries
    induction entries with
    | nil => intro _; simp
    | cons entry entries ih =>
        intro hentries
        have hrest := ih fun other hother => hentries other (List.mem_cons_of_mem _ hother)
        have hhere := hentries entry List.mem_cons_self
        rw [List.map_cons, List.sum_cons, List.filter_cons]
        split_ifs at hhere ⊢
        · rw [List.length_cons, Nat.succ_mul]
          omega
        · omega
  rw [total, countWhere, ← Std.ExtTreeMap.length_toList, Std.ExtTreeMap.toList_filter]
  exact hsum _ fun entry hentry => hhit entry.1 entry.2 (BTreeMap.mem_toList.mp hentry)

theorem Update.total_run_lt {update : Update K V}
    (hle : ∀ k old, table[k]? = some old → measure (update.row k old) ≤ measure old)
    (hlt : ∃ k old, table[k]? = some old ∧ measure (update.row k old) < measure old) :
    total measure (update.run table) < total measure table := by
  rw [total, Update.run, Std.ExtTreeMap.toList_map, List.map_map, total]
  obtain ⟨k, old, hrow, hless⟩ := hlt
  apply List.sum_lt_sum
  · intro entry hentry
    exact hle entry.1 entry.2 (BTreeMap.mem_toList.mp hentry)
  · exact ⟨(k, old), BTreeMap.mem_toList.mpr hrow, hless⟩

end Measures

theorem foldlM_keeps {A : Type u} {B : Type v} {body : B → A → Option B} {items : List A}
    (kept : B → Prop)
    (hbody : ∀ item ∈ items, ∀ table later, kept table → body table item = some later →
      kept later)
    {table final : B} (hstart : kept table) (hfinal : items.foldlM body table = some final) :
    kept final := by
  induction items generalizing table with
  | nil =>
      cases hfinal
      exact hstart
  | cons item items ih =>
      rw [List.foldlM_cons, Option.bind_eq_bind, Option.bind_eq_some_iff] at hfinal
      obtain ⟨later, hlater, hrest⟩ := hfinal
      have hkept := hbody item List.mem_cons_self table later hstart hlater
      apply ih _ hkept hrest
      intro other hother
      exact hbody other (List.mem_cons_of_mem _ hother)

/-- What the statement of one item establishes, and the later statements keep, holds after the
whole transaction. -/
theorem foldlM_reaches {A : Type u} {B : Type v} {body : B → A → Option B} {items : List A}
    (inv goal : B → Prop)
    (hinv : ∀ item ∈ items, ∀ table later, inv table → body table item = some later → inv later)
    (hgoal : ∀ item ∈ items, ∀ table later, goal table → body table item = some later →
      goal later)
    {item : A} (hitem : item ∈ items)
    (hhere : ∀ table later, inv table → body table item = some later → goal later)
    {table final : B} (hstart : inv table) (hfinal : items.foldlM body table = some final) :
    goal final := by
  induction items generalizing table with
  | nil => cases hitem
  | cons head items ih =>
      rw [List.foldlM_cons, Option.bind_eq_bind, Option.bind_eq_some_iff] at hfinal
      obtain ⟨later, hlater, hrest⟩ := hfinal
      have hinvLater := hinv head List.mem_cons_self table later hstart hlater
      rcases List.mem_cons.mp hitem with rfl | htail
      · apply foldlM_keeps goal _ (hhere table later hstart hlater) hrest
        intro other hother
        exact hgoal other (List.mem_cons_of_mem _ hother)
      · apply ih _ _ htail hinvLater hrest
        · intro other hother
          exact hinv other (List.mem_cons_of_mem _ hother)
        · intro other hother
          exact hgoal other (List.mem_cons_of_mem _ hother)

end EntityResolution.Statements
