/-
# Ranking by several keys

Rows are compared by one order after the other, and the first order that tells two rows apart
decides. A list that is sorted this way starts with its least row, and the least of the others is
second; neither depends on how the rows were listed.

The orders may be read by name, where a name refers to the first item that has it. An item behind
another one of its name is then never read, which changes nothing when it never decides.
-/

import Mathlib

namespace EntityResolution.Ranking

universe u v w

section Orders

variable {A : Type u} {T : Type v}

/-- The orders of the items one after the other, and a last order. -/
def lexOrder (order : T → A → A → Ordering) (last : A → A → Ordering) (items : List T) (a b : A) :
    Ordering :=
  items.foldr (fun item later => (order item a b).then later) (last a b)

/-- Transitive orders one after the other are transitive. -/
theorem transCmp_lexOrder {order : T → A → A → Ordering} {last : A → A → Ordering}
    (horder : ∀ item, Std.TransCmp (order item)) [hlast : Std.TransCmp last] (items : List T) :
    Std.TransCmp (lexOrder order last items) := by
  induction items with
  | nil => exact hlast
  | cons item items ih =>
      have hitem := horder item
      exact inferInstanceAs (Std.TransCmp (compareLex (order item) (lexOrder order last items)))

/-- Rows that are equal in the order are equal in the last one. -/
theorem eq_last_of_lexOrder {order : T → A → A → Ordering} {last : A → A → Ordering}
    {items : List T} {a b : A} (heq : lexOrder order last items a b = .eq) : last a b = .eq := by
  induction items with
  | nil => exact heq
  | cons item items ih =>
      rw [lexOrder, List.foldr_cons, Ordering.then_eq_eq] at heq
      exact ih heq.2

end Orders

section Sorted

variable {A : Type u} {cmp : A → A → Ordering} {rows rows' : List A} {first second : A}
  {rest : List A}

/-- The rows as ranked. -/
def ranking (cmp : A → A → Ordering) (rows : List A) : List A :=
  rows.insertionSort fun a b => cmp a b ≠ .gt

theorem mem_ranking {row : A} : row ∈ ranking cmp rows ↔ row ∈ rows :=
  List.mem_insertionSort _

theorem perm_ranking (cmp : A → A → Ordering) (rows : List A) : (ranking cmp rows).Perm rows :=
  List.perm_insertionSort _ rows

/-- The ranking is sorted. -/
theorem pairwise_ranking [Std.TransCmp cmp] (rows : List A) :
    (ranking cmp rows).Pairwise fun a b => cmp a b ≠ .gt := by
  have htotal : Std.Total fun a b => cmp a b ≠ .gt := by
    constructor
    intro a b
    by_cases hgt : cmp a b = .gt
    · right
      rw [Std.OrientedCmp.gt_iff_lt] at hgt
      rw [hgt]
      decide
    · exact .inl hgt
  have htrans : IsTrans A fun a b => cmp a b ≠ .gt := by
    constructor
    intro a b c hab hbc
    have hle : ∀ {x y}, cmp x y ≠ .gt ↔ (cmp x y).isLE := Ordering.isLE_iff_ne_gt.symm
    exact hle.mpr (Std.TransCmp.isLE_trans (hle.mp hab) (hle.mp hbc))
  exact List.pairwise_insertionSort _ rows

theorem lt_of_ne {a b : A} (hle : cmp a b ≠ .gt) (hne : cmp a b ≠ .eq) : cmp a b = .lt := by
  cases horder : cmp a b with
  | lt => rfl
  | eq => exact absurd horder hne
  | gt => exact absurd horder hle

theorem first_lt [Std.TransCmp cmp] (hdistinct : ∀ a ∈ rows, ∀ b ∈ rows, cmp a b = .eq → a = b)
    (hranking : ranking cmp rows = first :: rest) {other : A} (hother : other ∈ rows)
    (hne : other ≠ first) : cmp first other = .lt := by
  have hsorted : (ranking cmp rows).Pairwise fun a b => cmp a b ≠ .gt := pairwise_ranking rows
  have hfirst : first ∈ rows := mem_ranking.mp (hranking ▸ List.mem_cons_self)
  have hin : other ∈ ranking cmp rows := mem_ranking.mpr hother
  rw [hranking] at hsorted hin
  rcases List.mem_cons.mp hin with hsame | hin
  · exact absurd hsame hne
  · apply lt_of_ne ((List.pairwise_cons.mp hsorted).1 other hin)
    intro heq
    exact hne (hdistinct first hfirst other hother heq).symm

theorem second_lt [Std.TransCmp cmp] (hdistinct : ∀ a ∈ rows, ∀ b ∈ rows, cmp a b = .eq → a = b)
    (hranking : ranking cmp rows = first :: second :: rest) {other : A} (hother : other ∈ rows)
    (hne : other ≠ first) (hne' : other ≠ second) : cmp second other = .lt := by
  have hsorted : (ranking cmp rows).Pairwise fun a b => cmp a b ≠ .gt := pairwise_ranking rows
  have hsecond : second ∈ rows :=
    mem_ranking.mp (hranking ▸ List.mem_cons_of_mem _ List.mem_cons_self)
  have hin : other ∈ ranking cmp rows := mem_ranking.mpr hother
  rw [hranking] at hsorted hin
  rcases List.mem_cons.mp hin with hsame | hin
  · exact absurd hsame hne
  · rcases List.mem_cons.mp hin with hsame | hin
    · exact absurd hsame hne'
    · have hlater := (List.pairwise_cons.mp hsorted).2
      apply lt_of_ne ((List.pairwise_cons.mp hlater).1 other hin)
      intro heq
      exact hne' (hdistinct second hsecond other hother heq).symm

theorem ranking_eq_of_perm [Std.TransCmp cmp]
    (hdistinct : ∀ a ∈ rows, ∀ b ∈ rows, cmp a b = .eq → a = b) (hperm : rows.Perm rows') :
    ranking cmp rows = ranking cmp rows' := by
  have hranked : (ranking cmp rows).Perm (ranking cmp rows') :=
    (perm_ranking cmp rows).trans (hperm.trans (perm_ranking cmp rows').symm)
  apply hranked.eq_of_pairwise _ (pairwise_ranking rows) (pairwise_ranking rows')
  intro a b ha hb hab hba
  apply hdistinct a (mem_ranking.mp ha) b (hperm.mem_iff.mpr (mem_ranking.mp hb))
  by_contra hne
  have hlt := lt_of_ne hab hne
  rw [← Std.OrientedCmp.gt_iff_lt] at hlt
  exact hba hlt

end Sorted

section Names

variable {T : Type v} {K : Type w} [DecidableEq K] {name : T → K} {items before after : List T}
  {item : T}

/-- The item that a name refers to: the first one that has it. -/
def resolved (name : T → K) (items : List T) (item : T) : T :=
  (items.find? fun other => name other = name item).getD item

/-- A name refers to an earlier item, if one has it. -/
theorem resolved_mem_before (hitems : items = before ++ after)
    (hshadowed : ∃ other ∈ before, name other = name item) :
    resolved name items item ∈ before := by
  obtain ⟨other, hother, hname⟩ := hshadowed
  have hsome : (before.find? fun other => name other = name item).isSome :=
    List.find?_isSome.mpr ⟨other, hother, decide_eq_true hname⟩
  obtain ⟨first, hfirst⟩ := Option.isSome_iff_exists.mp hsome
  rw [resolved, hitems, List.find?_append, hfirst]
  exact List.mem_of_find?_eq_some hfirst

theorem resolved_eq_self (hitems : items = before ++ item :: after)
    (hown : ¬ ∃ other ∈ before, name other = name item) : resolved name items item = item := by
  have hnone : before.find? (fun other => name other = name item) = none := by
    rw [List.find?_eq_none]
    intro other hother hname
    exact hown ⟨other, hother, of_decide_eq_true hname⟩
  have hself : (item :: after).find? (fun other => name other = name item) = some item :=
    List.find?_cons_of_pos (decide_eq_true rfl)
  rw [resolved, hitems, List.find?_append, hnone, hself]
  rfl

theorem resolved_mem (hitem : item ∈ items) : resolved name items item ∈ items :=
  resolved_mem_before (List.append_nil items).symm ⟨item, hitem, rfl⟩

/-- No item behind another one of its name decides: it ties where the items before it do. -/
def NeverDecides (name : T → K) (items : List T) (tells : T → Bool) : Prop :=
  ∀ before item after, items = before ++ item :: after →
    (∃ other ∈ before, name other = name item) → (∀ other ∈ before, tells other = false) →
    tells item = false

variable {tells : T → Bool}

/-- Where the items before it tie, reading an item by name changes nothing. -/
theorem NeverDecides.resolved (hnever : NeverDecides name items tells)
    (hitems : items = before ++ item :: after) (htie : ∀ other ∈ before, tells other = false) :
    Ranking.resolved name items item = item ∨
      (tells item = false ∧ tells (Ranking.resolved name items item) = false) := by
  by_cases hshadowed : ∃ other ∈ before, name other = name item
  · right
    exact ⟨hnever before item after hitems hshadowed htie,
      htie _ (resolved_mem_before hitems hshadowed)⟩
  · exact .inl (resolved_eq_self hitems hshadowed)

/-- Orders read by name, when no item behind another one of its name decides. -/
theorem foldr_resolved (hnever : NeverDecides name items tells) {order : T → T → Ordering}
    (hties : ∀ item other, tells other = false → order item other = .eq)
    (htells : ∀ item, order item item = .eq → tells item = false) (last : Ordering) :
    items.foldr (fun item later => (order item (resolved name items item)).then later) last =
      items.foldr (fun item later => (order item item).then later) last := by
  have hsuffix : ∀ before after, items = before ++ after →
      (∀ other ∈ before, tells other = false) →
      after.foldr (fun item later => (order item (resolved name items item)).then later) last =
        after.foldr (fun item later => (order item item).then later) last := by
    intro before after
    induction after generalizing before with
    | nil =>
        intro _ _
        rfl
    | cons item after ih =>
        intro hitems htie
        have hnext : tells item = false →
            after.foldr (fun item later =>
              (order item (resolved name items item)).then later) last =
              after.foldr (fun item later => (order item item).then later) last := by
          intro hitem
          apply ih (before ++ [item])
          · rw [hitems, List.append_assoc, List.singleton_append]
          · intro other hother
            rcases List.mem_append.mp hother with hother | hother
            · exact htie other hother
            · rw [List.mem_singleton.mp hother]
              exact hitem
        rw [List.foldr_cons, List.foldr_cons]
        rcases hnever.resolved hitems htie with hself | ⟨hitem, hresolved⟩
        · rw [hself]
          by_cases heq : order item item = .eq
          · rw [hnext (htells item heq)]
          · cases horder : order item item with
            | lt => rfl
            | eq => exact absurd horder heq
            | gt => rfl
        · rw [hties _ _ hitem, hties _ _ hresolved, hnext hitem]
  exact hsuffix [] items rfl fun other hother => absurd hother List.not_mem_nil

theorem find?_resolved {N : Type u} {lists : List (N × List T)}
    (hnever : NeverDecides name (lists.flatMap Prod.snd) tells) :
    (lists.find? fun list => list.2.any fun item =>
      tells (resolved name (lists.flatMap Prod.snd) item)) =
      lists.find? fun list => list.2.any tells := by
  have hany : ∀ before part after, lists.flatMap Prod.snd = before ++ (part ++ after) →
      (∀ other ∈ before, tells other = false) →
      (part.any fun item => tells (resolved name (lists.flatMap Prod.snd) item)) =
        part.any tells := by
    intro before part after
    induction part generalizing before with
    | nil =>
        intro _ _
        rfl
    | cons item part ih =>
        intro hitems htie
        have hself : tells (resolved name (lists.flatMap Prod.snd) item) = tells item := by
          rcases hnever.resolved hitems htie with hself | ⟨hitem, hresolved⟩
          · rw [hself]
          · rw [hitem, hresolved]
        rw [List.any_cons, List.any_cons, hself]
        cases hitem : tells item with
        | true => rfl
        | false =>
            rw [Bool.false_or, Bool.false_or]
            apply ih (before ++ [item])
            · rw [hitems, List.append_assoc, List.singleton_append, List.cons_append]
            · intro other hother
              rcases List.mem_append.mp hother with hother | hother
              · exact htie other hother
              · rw [List.mem_singleton.mp hother]
                exact hitem
  have hsuffix : ∀ (before : List T) (later : List (N × List T)),
      lists.flatMap Prod.snd = before ++ later.flatMap Prod.snd →
      (∀ other ∈ before, tells other = false) →
      (later.find? fun list => list.2.any fun item =>
        tells (resolved name (lists.flatMap Prod.snd) item)) =
        later.find? fun list => list.2.any tells := by
    intro before later
    induction later generalizing before with
    | nil =>
        intro _ _
        rfl
    | cons list later ih =>
        intro hitems htie
        rw [List.flatMap_cons] at hitems
        rw [List.find?_cons, List.find?_cons, hany before list.2 _ hitems htie]
        cases htells : list.2.any tells with
        | true => rfl
        | false =>
            apply ih (before ++ list.2)
            · rw [hitems, List.append_assoc]
            · intro other hother
              rcases List.mem_append.mp hother with hother | hother
              · exact htie other hother
              · exact Bool.eq_false_iff.mpr fun htrue =>
                  Bool.false_ne_true (htells.symm.trans
                    (List.any_eq_true.mpr ⟨other, hother, htrue⟩))
  exact hsuffix [] lists rfl fun other hother => absurd hother List.not_mem_nil

theorem find?_of_first {N : Type u} {lists : List (N × List T)}
    (hitems : lists.flatMap Prod.snd = before ++ item :: after)
    (htie : ∀ other ∈ before, tells other = false) (htells : tells item = true) :
    ∃ list ∈ lists, lists.find? (fun list => list.2.any tells) = some list ∧ item ∈ list.2 := by
  have hquiet : ∀ {part : List T}, (∀ other ∈ part, tells other = false) →
      ¬ part.any tells = true := by
    intro part hpart hany
    obtain ⟨other, hother, htrue⟩ := List.any_eq_true.mp hany
    exact Bool.false_ne_true ((hpart other hother).symm.trans htrue)
  induction lists generalizing before with
  | nil => exact absurd hitems.symm (List.append_ne_nil_of_right_ne_nil _ (List.cons_ne_nil _ _))
  | cons list lists ih =>
      have hskip : (∀ other ∈ list.2, tells other = false) →
          (list :: lists).find? (fun list => list.2.any tells) =
            lists.find? fun list => list.2.any tells :=
        fun hlist => List.find?_cons_of_neg (hquiet hlist)
      rw [List.flatMap_cons] at hitems
      rcases List.append_eq_append_iff.mp hitems with ⟨part, hbefore, hlater⟩ |
        ⟨part, hlist, hlater⟩
      · have hlist : ∀ other ∈ list.2, tells other = false := by
          intro other hother
          exact htie other (hbefore ▸ List.mem_append_left _ hother)
        have hpart : ∀ other ∈ part, tells other = false := by
          intro other hother
          exact htie other (hbefore ▸ List.mem_append_right _ hother)
        obtain ⟨found, hfound, hfind, hin⟩ := ih hlater hpart
        rw [hskip hlist]
        exact ⟨found, List.mem_cons_of_mem _ hfound, hfind, hin⟩
      · cases part with
        | nil =>
            rw [List.append_nil] at hlist
            rw [List.nil_append] at hlater
            rcases @ih [] hlater.symm (fun _ hnil => absurd hnil List.not_mem_nil) with
              ⟨found, hfound, hfind, hin⟩
            rw [hskip (hlist ▸ htie)]
            exact ⟨found, List.mem_cons_of_mem _ hfound, hfind, hin⟩
        | cons first rest =>
            obtain ⟨rfl, _⟩ := List.cons.inj hlater
            have hin : item ∈ list.2 := hlist ▸ List.mem_append_right _ List.mem_cons_self
            have hany : list.2.any tells = true := List.any_eq_true.mpr ⟨item, hin, htells⟩
            exact ⟨list, List.mem_cons_self, List.find?_cons_of_pos hany, hin⟩

end Names

end EntityResolution.Ranking
