/-
# Bags of rows

A query result is a list of rows read up to order, so two queries agree when one result
is a permutation of the other. The operators below are the ones a blocking query is made
of: an inner join on a condition, `SELECT DISTINCT`, and `GROUP BY key` with the least
label of each group.

Every operator commutes with a filter that only reads what it groups or joins by. That is
what makes a query over one part of the rows a part of the query over all of them, and
the last section puts the parts back together when they are the residues of a hash.
-/

import EntityResolution.Foundations.Collections

namespace EntityResolution.Relations

universe u v w

variable {α : Type u} {β : Type v} {κ : Type w}

/-- `FROM left INNER JOIN right ON on`: one row for each pair the condition holds of. -/
def innerJoin (left : List α) (right : List β) (on : α → β → Bool) : List (α × β) :=
  left.flatMap fun l => (right.filter (on l)).map (Prod.mk l)

theorem mem_innerJoin {left : List α} {right : List β} {on : α → β → Bool} {row : α × β} :
    row ∈ innerJoin left right on ↔
      row.1 ∈ left ∧ row.2 ∈ right ∧ on row.1 row.2 = true := by
  obtain ⟨l, r⟩ := row
  simp only [innerJoin, List.mem_flatMap, List.mem_map, List.mem_filter, Prod.mk.injEq]
  constructor
  · intro hrow
    obtain ⟨l', hl, r', ⟨hr, hon⟩, rfl, rfl⟩ := hrow
    exact ⟨hl, hr, hon⟩
  · intro hrow
    exact ⟨l, hrow.1, r, hrow.2, rfl, rfl⟩

theorem nodup_map_innerJoin {κ' : Type*} {left : List α} {right : List β} {on : α → β → Bool}
    {f : α → κ} {g : β → κ'} (hleft : (left.map f).Nodup) (hright : (right.map g).Nodup) :
    ((innerJoin left right on).map (Prod.map f g)).Nodup := by
  rw [innerJoin, List.map_flatMap, List.nodup_flatMap]
  constructor
  · intro l _
    rw [List.map_map]
    have hkept : ((right.filter (on l)).map g).Nodup :=
      hright.sublist (List.filter_sublist.map g)
    have hpaired := hkept.map (f := Prod.mk (f l)) fun r r' hsame => (Prod.mk.inj hsame).2
    rwa [List.map_map] at hpaired
  · have hapart : left.Pairwise fun l l' => f l ≠ f l' := List.pairwise_map.mp hleft
    apply hapart.imp
    intro l l' hne row hrow hrow'
    simp only [List.map_map, List.mem_map] at hrow hrow'
    obtain ⟨r, -, rfl⟩ := hrow
    obtain ⟨r', -, hsame⟩ := hrow'
    exact hne (Prod.mk.inj hsame).1.symm

theorem filter_innerJoin (left : List α) (right : List β) (on : α → β → Bool) (p : β → Bool) :
    (innerJoin left right on).filter (fun row => p row.2) =
      innerJoin left right fun l r => on l r && p r := by
  rw [innerJoin, innerJoin, List.filter_flatMap]
  apply List.flatMap_congr
  intro l _
  rw [List.filter_map, List.filter_filter]
  congr 1
  apply List.filter_congr
  intro r _
  exact Bool.and_comm _ _

/-- A join on a condition of each side is the product of the rows kept. -/
theorem innerJoin_and (left : List α) (right : List β) (p : α → Bool) (q : β → Bool) :
    innerJoin left right (fun l r => p l && q r) =
      (left.filter p).flatMap fun l => (right.filter q).map (Prod.mk l) := by
  induction left with
  | nil => rfl
  | cons l rest ih =>
    rw [innerJoin, List.flatMap_cons]
    change _ ++ innerJoin rest right (fun l r => p l && q r) = _
    rw [ih]
    by_cases hl : p l
    · rw [List.filter_cons_of_pos hl, List.flatMap_cons]
      simp only [hl, Bool.true_and]
    · rw [List.filter_cons_of_neg hl]
      simp [hl]

theorem filter_dedup [DecidableEq α] (rows : List α) (p : α → Bool) :
    rows.dedup.filter p = (rows.filter p).dedup := by
  induction rows with
  | nil => rfl
  | cons row rest ih =>
    by_cases hmem : row ∈ rest
    · rw [List.dedup_cons_of_mem hmem, ih]
      by_cases hrow : p row
      · rw [List.filter_cons_of_pos hrow, List.dedup_cons_of_mem]
        exact List.mem_filter.mpr ⟨hmem, hrow⟩
      · rw [List.filter_cons_of_neg hrow]
    · rw [List.dedup_cons_of_notMem hmem]
      by_cases hrow : p row
      · rw [List.filter_cons_of_pos hrow, List.filter_cons_of_pos hrow,
          List.dedup_cons_of_notMem, ih]
        intro hkept
        exact hmem (List.mem_of_mem_filter hkept)
      · rw [List.filter_cons_of_neg hrow, List.filter_cons_of_neg hrow, ih]

section Groups

variable {L : Type v} [LinearOrder L] [DecidableEq κ]

/-- `SELECT min(label), key … GROUP BY key`. -/
def groupMin (key : α → κ) (label : α → L) (rows : List α) : List (L × κ) :=
  (rows.map key).dedup.filterMap fun k =>
    ((rows.filter fun row => key row = k).map label).min?.map fun least => (least, k)

theorem mem_groupMin {key : α → κ} {label : α → L} {rows : List α} {least : L} {k : κ} :
    (least, k) ∈ groupMin key label rows ↔
      (∃ row ∈ rows, key row = k ∧ label row = least) ∧
        ∀ row ∈ rows, key row = k → least ≤ label row := by
  simp only [groupMin, List.mem_filterMap, List.mem_dedup, Option.map_eq_some_iff,
    Prod.mk.injEq, List.min?_eq_some_iff, List.mem_map, List.mem_filter, decide_eq_true_eq,
    forall_exists_index, and_imp]
  constructor
  · intro hrow
    obtain ⟨k', -, least', ⟨⟨row, ⟨hrow, hkey⟩, hlabel⟩, hle⟩, rfl, rfl⟩ := hrow
    constructor
    · exact ⟨row, hrow, hkey, hlabel⟩
    · intro other hother hsame
      exact hle _ other hother hsame rfl
  · intro hrow
    obtain ⟨⟨row, hrow, hkey, hlabel⟩, hle⟩ := hrow
    refine ⟨k, ⟨row, hrow, hkey⟩, least, ⟨⟨row, ⟨hrow, hkey⟩, hlabel⟩, ?_⟩, rfl, rfl⟩
    intro value other hother hsame hvalue
    exact hvalue ▸ hle other hother hsame

theorem nodup_map_groupMin (key : α → κ) (label : α → L) (rows : List α) :
    ((groupMin key label rows).map Prod.snd).Nodup := by
  have hsub : ((groupMin key label rows).map Prod.snd).Sublist (rows.map key).dedup := by
    rw [groupMin]
    generalize (rows.map key).dedup = keys
    induction keys with
    | nil => exact List.Sublist.refl _
    | cons k rest ih =>
      rw [List.filterMap_cons]
      cases ((rows.filter fun row => key row = k).map label).min? with
      | none => exact ih.cons k
      | some least => exact ih.cons_cons k
  exact (List.nodup_dedup _).sublist hsub

theorem filter_groupMin (key : α → κ) (label : α → L) (rows : List α) (p : κ → Bool) :
    (groupMin key label rows).filter (fun row => p row.2) =
      groupMin key label (rows.filter fun row => p (key row)) := by
  have hkeys : ((rows.filter fun row => p (key row)).map key).dedup =
      (rows.map key).dedup.filter p := by
    rw [filter_dedup, List.filter_map]
    rfl
  rw [groupMin, groupMin, hkeys]
  generalize (rows.map key).dedup = keys
  induction keys with
  | nil => rfl
  | cons k rest ih =>
    by_cases hk : p k
    · have hsame : (rows.filter fun row => p (key row)).filter (fun row => key row = k) =
          rows.filter fun row => key row = k := by
        rw [List.filter_filter]
        apply List.filter_congr
        intro row _
        by_cases hkey : key row = k
        · simp [hkey, hk]
        · simp [hkey]
      rw [List.filter_cons_of_pos hk, List.filterMap_cons, List.filterMap_cons, hsame]
      cases ((rows.filter fun row => key row = k).map label).min? with
      | none => exact ih
      | some least =>
        rw [Option.map_some, List.filter_cons_of_pos (by exact hk), ih]
    · rw [List.filter_cons_of_neg hk, List.filterMap_cons]
      cases ((rows.filter fun row => key row = k).map label).min? with
      | none => exact ih
      | some least =>
        rw [Option.map_some, List.filter_cons_of_neg (by exact hk), ih]

end Groups

section Merge

variable [DecidableEq κ] (source : List β) (target : List α) (sourceKey : β → κ) (key : α → κ)
  (update : β → α → α) (insert : β → α)

/-- `MERGE INTO target USING source ON key`, where every source row that matches no target
row is inserted. A source row is matched against the target as it was, so two source rows of
one key are both inserted. Two source rows that match one target row update it in turn, where an
engine may refuse the statement instead. -/
def mergeRows : List α :=
  (target.map fun row =>
      (source.filter fun s => sourceKey s = key row).foldl (fun row s => update s row) row) ++
    (source.filter fun s => sourceKey s ∉ target.map key).map insert

variable {source target sourceKey key update insert}

theorem foldl_update_eq {γ : Type*} {f : α → γ} (hupdate : ∀ s row, f (update s row) = f row)
    (rows : List β) (row : α) : f (rows.foldl (fun row s => update s row) row) = f row := by
  induction rows generalizing row with
  | nil => rfl
  | cons s rest ih => rw [List.foldl_cons, ih, hupdate]

theorem map_mergeRows {γ : Type*} {f : α → γ} (hupdate : ∀ s row, f (update s row) = f row) :
    (mergeRows source target sourceKey key update insert).map f =
      target.map f ++
        (source.filter fun s => sourceKey s ∉ target.map key).map fun s => f (insert s) := by
  rw [mergeRows, List.map_append, List.map_map, List.map_map]
  congr 1
  apply List.map_congr_left
  intro row _
  exact foldl_update_eq hupdate _ row

theorem nodup_map_mergeRows (hupdate : ∀ s row, key (update s row) = key row)
    (hinsert : ∀ s, key (insert s) = sourceKey s) (htarget : (target.map key).Nodup) :
    ((mergeRows source target sourceKey key update insert).map key).Nodup ↔
      ((source.filter fun s => sourceKey s ∉ target.map key).map sourceKey).Nodup := by
  rw [map_mergeRows hupdate]
  simp only [hinsert]
  rw [List.nodup_append]
  constructor
  · intro hall
    exact hall.2.1
  · intro hfresh
    refine ⟨htarget, hfresh, ?_⟩
    intro k hk k' hk' hsame
    obtain ⟨s, hs, rfl⟩ := List.mem_map.mp hk'
    have hunmatched := List.of_mem_filter hs
    rw [decide_eq_true_eq] at hunmatched
    exact hunmatched (hsame ▸ hk)

theorem filter_map_mergeRows {γ : Type*} {f : α → γ} (hupdate : ∀ s row, f (update s row) = f row)
    (hkey : ∀ s row, key (update s row) = key row) (hinsert : ∀ s, key (insert s) = sourceKey s)
    {k : κ} (hk : k ∈ target.map key) :
    ((mergeRows source target sourceKey key update insert).filter fun row => key row = k).map f =
      (target.filter fun row => key row = k).map f := by
  have hnone : ((source.filter fun s => sourceKey s ∉ target.map key).map insert).filter
      (fun row => key row = k) = [] := by
    rw [List.filter_eq_nil_iff]
    intro row hrow
    obtain ⟨s, hs, rfl⟩ := List.mem_map.mp hrow
    have hunmatched := List.of_mem_filter hs
    rw [decide_eq_true_eq] at hunmatched ⊢
    intro hsame
    rw [hinsert] at hsame
    exact hunmatched (hsame ▸ hk)
  rw [mergeRows, List.filter_append, hnone, List.append_nil, List.filter_map, List.map_map]
  have hsame : (target.filter ((fun row => decide (key row = k)) ∘ fun row =>
      (source.filter fun s => sourceKey s = key row).foldl (fun row s => update s row) row)) =
      target.filter fun row => key row = k := by
    apply List.filter_congr
    intro row _
    simp only [Function.comp_apply, foldl_update_eq hkey]
  rw [hsame]
  apply List.map_congr_left
  intro row _
  exact foldl_update_eq hupdate _ row

end Merge

/-- The rows of hash chunk `i` of `n`. -/
def residue (hash : α → ℕ) (n i : ℕ) (rows : List α) : List α :=
  rows.filter fun row => hash row % n = i

theorem flatMap_residue_perm (hash : α → ℕ) {n : ℕ} (hn : 0 < n) (rows : List α) :
    ((List.range n).flatMap fun i => residue hash n i rows).Perm rows := by
  induction rows with
  | nil => simp [residue]
  | cons row rest ih =>
    have hhome : hash row % n ∈ List.range n := List.mem_range.mpr (Nat.mod_lt _ hn)
    have hsplit : ∀ i, residue hash n i (row :: rest) =
        (if i = hash row % n then [row] else []) ++ residue hash n i rest := by
      intro i
      by_cases hi : i = hash row % n
      · simp [residue, hi]
      · have hi' : ¬ hash row % n = i := fun hsame => hi hsame.symm
        simp [residue, hi, hi']
    have hone : ((List.range n).flatMap fun i => if i = hash row % n then [row] else []) =
        [row] := by
      obtain ⟨before, after, hrange⟩ := List.append_of_mem hhome
      have hnodup : (before ++ hash row % n :: after).Nodup := hrange ▸ List.nodup_range
      rw [List.nodup_middle, List.nodup_cons, List.mem_append, not_or] at hnodup
      have hmiss : ∀ part : List ℕ, hash row % n ∉ part →
          (part.flatMap fun i => if i = hash row % n then [row] else []) = [] := by
        intro part hpart
        rw [List.flatMap_eq_nil_iff]
        intro i hi
        have hne : i ≠ hash row % n := fun hsame => hpart (hsame ▸ hi)
        rw [if_neg hne]
      rw [hrange, List.flatMap_append, List.flatMap_cons, hmiss before hnodup.1.1,
        hmiss after hnodup.1.2]
      simp
    have hcuts := List.flatMap_append_perm (List.range n)
      (fun i => if i = hash row % n then [row] else []) fun i => residue hash n i rest
    simp only [hsplit]
    apply hcuts.symm.trans
    rw [hone]
    exact ih.cons row

/-- No row is in two chunks. -/
theorem disjoint_residue (hash : α → ℕ) {n i j : ℕ} (hne : i ≠ j) (rows : List α) :
    (residue hash n i rows).Disjoint (residue hash n j rows) := by
  intro row hi hj
  have hhome : hash row % n = i := by simpa using List.of_mem_filter hi
  have haway : hash row % n = j := by simpa using List.of_mem_filter hj
  exact hne (hhome.symm.trans haway)

/-- SQL `AND`: false wins over NULL. -/
def sqlAnd : Option Bool → Option Bool → Option Bool
  | some false, _ => some false
  | _, some false => some false
  | some true, some true => some true
  | _, _ => none

theorem sqlAnd_comm (p q : Option Bool) : sqlAnd p q = sqlAnd q p := by
  rcases p with _ | _ | _ <;> rcases q with _ | _ | _ <;> rfl

theorem sqlAnd_right_comm (p q r : Option Bool) :
    sqlAnd (sqlAnd p q) r = sqlAnd (sqlAnd p r) q := by
  rcases p with _ | _ | _ <;> rcases q with _ | _ | _ <;> rcases r with _ | _ | _ <;> rfl

end EntityResolution.Relations
