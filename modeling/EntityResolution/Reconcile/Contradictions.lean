/-
# Contradictions among the assertions

A `never` whose two records lie in one component of the `always` rules cannot be met by any
partition. The check unites the ends of the active `always` rules, files the records and the rules
of every component under its root, and reports each active `never` inside a component with them. The
finds rewrite the map between the loops, and no loop sees a difference.
-/

import EntityResolution.Foundations.LeastRoots
import EntityResolution.NeverCut.Fixpoint

namespace EntityResolution.Reconcile

open EntityResolution.Classes EntityResolution.Collections EntityResolution.LeastRoots
  EntityResolution.NeverCut

universe u w

variable {R : Type u} {I : Type w} [LinearOrder R] [LinearOrder I]

/-- `Contradiction`: a `never` inside one component of the `always` rules. -/
@[ext]
structure Contradiction (R : Type u) (I : Type w) [LinearOrder R] where
  recAKey : R
  recBKey : R
  neverAssertionId : I
  alwaysAssertionIds : List I
  component : BTreeSet R

/-- The pair of a finding. -/
def Contradiction.pair (finding : Contradiction R I) : R ×ₗ R :=
  toLex (finding.recAKey, finding.recBKey)

/-- The active `always` rules. -/
def activeAlways (assertions : List (Assertion R I)) : List (Assertion R I) :=
  (assertions.filter Assertion.active).filter fun assertion => assertion.kind = .always

/-- The ends of a rule. -/
def endsOf (assertion : Assertion R I) : R × R := (assertion.recAKey, assertion.recBKey)

/-- Every end of a rule as its own root. -/
def ownRoots (always : List (Assertion R I)) : BTreeMap R R :=
  (always.flatMap fun assertion => [assertion.recAKey, assertion.recBKey]).foldl
    (fun parent key => parent.insertIfNew key key) ∅

/-- The records of every component, by root. -/
def fileComponents (parent : BTreeMap R R) : BTreeMap R R × BTreeMap R (BTreeSet R) :=
  parent.keys.foldl (fun state key =>
    ((find state.1 key).1, BTreeMap.fileAt state.2 ((find state.1 key).2, key))) (parent, ∅)

/-- The rules of every component, by root. -/
def fileOffenders (always : List (Assertion R I)) (parent : BTreeMap R R) :
    BTreeMap R R × BTreeMap R (List I) :=
  always.foldl (fun state assertion => ((find state.1 assertion.recAKey).1,
    BTreeMap.pushAt state.2 (assertion.assertionId, (find state.1 assertion.recAKey).2)))
    (parent, ∅)

/-- The body of the last loop: report a `never` whose ends have one root. -/
def reportNever (components : BTreeMap R (BTreeSet R)) (offenders : BTreeMap R (List I))
    (state : BTreeMap R R × List (Contradiction R I)) (assertion : Assertion R I) :
    BTreeMap R R × List (Contradiction R I) :=
  if assertion.kind ≠ .never then state
  else if assertion.recAKey ∉ state.1 ∨ assertion.recBKey ∉ state.1 then state
  else
    let first := find state.1 assertion.recAKey
    let second := find first.1 assertion.recBKey
    if first.2 ≠ second.2 then (second.1, state.2)
    else
      (second.1, state.2 ++
        [{ recAKey := assertion.recAKey
           recBKey := assertion.recBKey
           neverAssertionId := assertion.assertionId
           alwaysAssertionIds := (offenders[first.2]?.getD []).insertionSort (· ≤ ·)
           component := components[first.2]?.getD ∅ }])

/-- `check_contradiction_1`: the findings, in the order of their pairs. -/
def checkContradiction1 (assertions : List (Assertion R I)) : List (Contradiction R I) :=
  let always := activeAlways assertions
  let parent := (always.map endsOf).foldl (fun parent pair => union parent pair.1 pair.2)
    (ownRoots always)
  let components := fileComponents parent
  let offenders := fileOffenders always components.1
  let found := (assertions.filter Assertion.active).foldl
    (reportNever components.2 offenders.2) (offenders.1, [])
  found.2.insertionSort fun first second => first.pair ≤ second.pair

/-- An active `always` rule joins the two records, in either direction. -/
def AlwaysJoins (assertions : List (Assertion R I)) (a b : R) : Prop :=
  ∃ assertion ∈ assertions, assertion.kind = .always ∧ assertion.active = true ∧
    (assertion.recAKey = a ∧ assertion.recBKey = b ∨
      assertion.recAKey = b ∧ assertion.recBKey = a)

/-- A path of active `always` rules joins the two records. -/
def AlwaysConnected (assertions : List (Assertion R I)) (a b : R) : Prop :=
  Relation.TransGen (AlwaysJoins assertions) a b

section Joins

variable {assertions : List (Assertion R I)} {a b : R}

omit [LinearOrder R] [LinearOrder I] in
theorem mem_activeAlways {assertion : Assertion R I} :
    assertion ∈ activeAlways assertions ↔
      assertion ∈ assertions ∧ assertion.kind = .always ∧ assertion.active = true := by
  rw [activeAlways, List.mem_filter, List.mem_filter, decide_eq_true_eq]
  tauto

omit [LinearOrder R] [LinearOrder I] in
theorem AlwaysJoins.symm (hjoins : AlwaysJoins assertions a b) : AlwaysJoins assertions b a := by
  obtain ⟨assertion, hmem, hkind, hactive, hends⟩ := hjoins
  exact ⟨assertion, hmem, hkind, hactive, hends.symm⟩

omit [LinearOrder R] [LinearOrder I] in
/-- The links of the united pairs are the joins of the rules. -/
theorem linked_endsOf : Linked ((activeAlways assertions).map endsOf) = AlwaysJoins assertions := by
  funext x y
  simp only [Linked, List.mem_map, mem_activeAlways, endsOf, Prod.mk.injEq, AlwaysJoins,
    eq_iff_iff]
  rw [← exists_or]
  apply exists_congr
  intro assertion
  tauto

omit [LinearOrder R] [LinearOrder I] in
theorem alwaysConnected_iff : AlwaysConnected assertions a b ↔
    (∃ c, AlwaysJoins assertions a c) ∧ Relation.ReflTransGen (AlwaysJoins assertions) a b := by
  apply Iff.intro
  · intro hpath
    obtain ⟨c, hjoins, _⟩ := Relation.TransGen.head'_iff.mp hpath
    exact ⟨⟨c, hjoins⟩, hpath.to_reflTransGen⟩
  · rintro ⟨⟨c, hjoins⟩, hwalk⟩
    rcases Relation.reflTransGen_iff_eq_or_transGen.mp hwalk with rfl | hpath
    · exact (Relation.TransGen.single hjoins).tail hjoins.symm
    · exact hpath

omit [LinearOrder I] in
theorem getElem?_ownRoots (always : List (Assertion R I)) (key : R) :
    (ownRoots always)[key]? =
      if key ∈ always.flatMap fun assertion => [assertion.recAKey, assertion.recBKey]
      then some key else none := by
  rw [ownRoots]
  induction (always.flatMap fun assertion => [assertion.recAKey, assertion.recBKey])
    using List.reverseRecOn with
  | nil => simp
  | append_singleton keys last ih =>
      rw [List.foldl_append, List.foldl_cons, List.foldl_nil, Std.ExtTreeMap.getElem?_insertIfNew,
        ih]
      by_cases hlast : last = key
      · subst hlast
        by_cases hmem : last ∈ keys
        · simp [hmem]
        · have hnew : last ∉ keys.foldl (fun parent key => parent.insertIfNew key key)
              (∅ : BTreeMap R R) := by
            rw [BTreeMap.mem_iff_exists_getElem?, ih, if_neg hmem]
            simp
          simp [hmem, hnew]
      · simp [hlast, Ne.symm hlast]

end Joins

/-- An active `never` whose ends a path of active `always` rules joins. -/
def Reported (assertions : List (Assertion R I)) (assertion : Assertion R I) : Prop :=
  assertion.kind = .never ∧ assertion.active = true ∧
    AlwaysConnected assertions assertion.recAKey assertion.recBKey

open Classical in
/-- What a finding says about a `never`: the `always` rules and the records of its component. -/
noncomputable def explain (assertions : List (Assertion R I)) (assertion : Assertion R I) :
    Contradiction R I where
  recAKey := assertion.recAKey
  recBKey := assertion.recBKey
  neverAssertionId := assertion.assertionId
  alwaysAssertionIds := (((activeAlways assertions).filter fun always =>
    AlwaysConnected assertions assertion.recAKey always.recAKey).map
      Assertion.assertionId).insertionSort (· ≤ ·)
  component := Std.ExtTreeSet.ofList (((activeAlways assertions).flatMap fun always =>
    [always.recAKey, always.recBKey]).filter fun record =>
      AlwaysConnected assertions assertion.recAKey record) compare

/-- The finding of a `never`, as the maps of the check give it. -/
def findingOf (components : BTreeMap R (BTreeSet R)) (offenders : BTreeMap R (List I))
    (root : R → R) (assertion : Assertion R I) : Contradiction R I where
  recAKey := assertion.recAKey
  recBKey := assertion.recBKey
  neverAssertionId := assertion.assertionId
  alwaysAssertionIds := (offenders[root assertion.recAKey]?.getD []).insertionSort (· ≤ ·)
  component := components[root assertion.recAKey]?.getD ∅

/-- The test of the last loop, on the roots. -/
def SameRoot (parent : BTreeMap R R) (root : R → R) (assertion : Assertion R I) : Prop :=
  assertion.kind = .never ∧ assertion.recAKey ∈ parent ∧ assertion.recBKey ∈ parent ∧
    root assertion.recAKey = root assertion.recBKey

section Report

variable {assertions : List (Assertion R I)} {parent : BTreeMap R R} {root : R → R}
  {components : BTreeMap R (BTreeSet R)} {offenders : BTreeMap R (List I)}

open Classical in
theorem reportNever_eq (hforest : Forest parent root) (found : List (Contradiction R I))
    (assertion : Assertion R I) :
    ∃ parent', Forest parent' root ∧ (∀ key, key ∈ parent' ↔ key ∈ parent) ∧
      reportNever components offenders (parent, found) assertion =
        (parent', found ++ if SameRoot parent root assertion
          then [findingOf components offenders root assertion] else []) := by
  rw [reportNever]
  by_cases hkind : assertion.kind = .never
  · rw [if_neg (not_not.mpr hkind)]
    by_cases hends : assertion.recAKey ∈ parent ∧ assertion.recBKey ∈ parent
    · obtain ⟨hfirst, hforest₁, hkeys₁⟩ := hforest.find_spec hends.1
      obtain ⟨hsecond, hforest₂, hkeys₂⟩ := hforest₁.find_spec ((hkeys₁ _).mpr hends.2)
      refine ⟨_, hforest₂, fun key => (hkeys₂ key).trans (hkeys₁ key), ?_⟩
      rw [if_neg (by tauto)]
      change (if (find parent assertion.recAKey).2 ≠ _ then _ else _) = _
      rw [hfirst, hsecond]
      by_cases hsame : root assertion.recAKey = root assertion.recBKey
      · rw [if_neg (not_not.mpr hsame), if_pos ⟨hkind, hends.1, hends.2, hsame⟩]
        rfl
      · rw [if_pos hsame, if_neg fun h => hsame h.2.2.2, List.append_nil]
    · refine ⟨parent, hforest, fun _ => Iff.rfl, ?_⟩
      rw [if_pos (by tauto), if_neg fun h => hends ⟨h.2.1, h.2.2.1⟩, List.append_nil]
  · refine ⟨parent, hforest, fun _ => Iff.rfl, ?_⟩
    rw [if_pos hkind, if_neg fun h => hkind h.1, List.append_nil]

open Classical in
theorem foldl_reportNever (hforest : Forest parent root) (active : List (Assertion R I))
    (found : List (Contradiction R I)) :
    (active.foldl (reportNever components offenders) (parent, found)).2 =
      found ++ (active.filter fun assertion => SameRoot parent root assertion).map
        (findingOf components offenders root) := by
  induction active generalizing parent found with
  | nil => simp
  | cons assertion active ih =>
      have hstep : ∃ parent', Forest parent' root ∧ (∀ key, key ∈ parent' ↔ key ∈ parent) ∧
          reportNever components offenders (parent, found) assertion =
            (parent', found ++ if SameRoot parent root assertion
              then [findingOf components offenders root assertion] else []) :=
        reportNever_eq hforest found assertion
      obtain ⟨parent', hforest', hkeys, hstep⟩ := hstep
      have hsame : SameRoot (I := I) parent' root = SameRoot parent root := by
        funext other
        rw [SameRoot, SameRoot, hkeys, hkeys]
      rw [List.foldl_cons, hstep, ih hforest', hsame, List.filter_cons]
      by_cases hreported : SameRoot parent root assertion
      · simp [hreported]
      · simp [hreported]

/-- The records filed under a root are the known ones that have it. -/
theorem fileComponents_spec (hforest : Forest parent root) :
    Forest (fileComponents parent).1 root ∧
      (∀ key, key ∈ (fileComponents parent).1 ↔ key ∈ parent) ∧
      ∀ place key, key ∈ (fileComponents parent).2[place]?.getD ∅ ↔
        key ∈ parent ∧ root key = place := by
  rcases hforest.foldl_find id (fun filed key place => BTreeMap.fileAt filed (place, key))
    parent.keys (fun key hkey => Std.ExtTreeMap.mem_keys.mp hkey) ∅ with
    ⟨parent', hforest', hkeys, hfold⟩
  have hfile : fileComponents parent =
      (parent', (parent.keys.map fun key => (root key, key)).foldl BTreeMap.fileAt ∅) := by
    rw [List.foldl_map]
    exact hfold
  rw [hfile]
  refine ⟨hforest', hkeys, ?_⟩
  intro place key
  rw [(BTreeMap.foldl_fileAt_spec _ _ _).2]
  simp [and_comm]

omit [LinearOrder I] in
/-- The ids filed under a root are those of the rules whose first record has it. -/
theorem fileOffenders_spec (hforest : Forest parent root) {always : List (Assertion R I)}
    (hknown : ∀ assertion ∈ always, assertion.recAKey ∈ parent) :
    Forest (fileOffenders always parent).1 root ∧
      (∀ key, key ∈ (fileOffenders always parent).1 ↔ key ∈ parent) ∧
      ∀ place, (fileOffenders always parent).2[place]?.getD [] =
        (always.filter fun assertion => root assertion.recAKey = place).map
          Assertion.assertionId := by
  rcases hforest.foldl_find Assertion.recAKey
    (fun (filed : BTreeMap R (List I)) assertion place =>
      BTreeMap.pushAt filed (assertion.assertionId, place)) always hknown ∅ with
    ⟨parent', hforest', hkeys, hfold⟩
  have hfile : fileOffenders always parent =
      (parent', (always.map fun assertion =>
        (assertion.assertionId, root assertion.recAKey)).foldl BTreeMap.pushAt ∅) := by
    rw [List.foldl_map]
    exact hfold
  rw [hfile]
  refine ⟨hforest', hkeys, ?_⟩
  intro place
  rw [BTreeMap.getElem?_foldl_pushAt, List.filter_map, List.map_map]
  split
  · simp [Function.comp_def]
  · rename_i hnone
    symm
    simp only [Std.ExtTreeMap.getElem?_empty, Option.getD_none, List.map_eq_nil_iff,
      List.filter_eq_nil_iff, decide_eq_true_eq]
    intro assertion hmem hroot
    apply hnone
    exact List.mem_map.mpr ⟨assertion, hmem, hroot⟩

omit [LinearOrder I] in
theorem mem_ownRoots {key : R} :
    key ∈ ownRoots (activeAlways assertions) ↔ ∃ other, AlwaysJoins assertions key other := by
  rw [BTreeMap.mem_iff_exists_getElem?, getElem?_ownRoots]
  simp only [Option.ite_none_right_eq_some, List.mem_flatMap, mem_activeAlways, List.mem_cons,
    List.not_mem_nil, or_false, exists_and_left, AlwaysJoins]
  apply Iff.intro
  · rintro ⟨⟨assertion, ⟨hmem, hkind, hactive⟩, hend | hend⟩, _⟩
    · exact ⟨assertion.recBKey, assertion, hmem, hkind, hactive, .inl ⟨hend.symm, rfl⟩⟩
    · exact ⟨assertion.recAKey, assertion, hmem, hkind, hactive, .inr ⟨rfl, hend.symm⟩⟩
  · rintro ⟨other, assertion, hmem, hkind, hactive, ⟨hend, _⟩ | ⟨_, hend⟩⟩
    · exact ⟨⟨assertion, ⟨hmem, hkind, hactive⟩, .inl hend.symm⟩, key, rfl⟩
    · exact ⟨⟨assertion, ⟨hmem, hkind, hactive⟩, .inr hend.symm⟩, key, rfl⟩

omit [LinearOrder I] in
theorem exists_always_roots (assertions : List (Assertion R I)) :
    ∃ root, Forest (((activeAlways assertions).map endsOf).foldl
        (fun parent pair => union parent pair.1 pair.2) (ownRoots (activeAlways assertions))) root ∧
      (∀ key, key ∈ ((activeAlways assertions).map endsOf).foldl
          (fun parent pair => union parent pair.1 pair.2) (ownRoots (activeAlways assertions)) ↔
        ∃ other, AlwaysJoins assertions key other) ∧
      ∀ a b, ((∃ other, AlwaysJoins assertions a other) ∧
        (∃ other, AlwaysJoins assertions b other) ∧ root a = root b) ↔
          AlwaysConnected assertions a b := by
  have hself : ∀ key, parentOf (ownRoots (activeAlways assertions)) key = key := by
    intro key
    rw [parentOf, getElem?_ownRoots]
    split
    · rfl
    · rfl
  have hpairs : ∀ pair ∈ (activeAlways assertions).map endsOf,
      pair.1 ∈ ownRoots (activeAlways assertions) ∧
        pair.2 ∈ ownRoots (activeAlways assertions) := by
    intro pair hpair
    rw [mem_ownRoots, mem_ownRoots, ← linked_endsOf]
    exact ⟨⟨pair.2, .inl hpair⟩, ⟨pair.1, .inr hpair⟩⟩
  obtain ⟨root, hforest, hkeys, hclasses⟩ := exists_forest_foldl_union hself hpairs
  rw [linked_endsOf] at hclasses
  refine ⟨root, hforest, fun key => (hkeys key).trans mem_ownRoots, ?_⟩
  intro a b
  apply Iff.intro
  · rintro ⟨ha, hb, hsame⟩
    exact alwaysConnected_iff.mpr
      ⟨ha, (hclasses a b (mem_ownRoots.mpr ha) (mem_ownRoots.mpr hb)).mp hsame⟩
  · intro hpath
    obtain ⟨before, _, hjoins⟩ := Relation.TransGen.tail'_iff.mp hpath
    have ha := (alwaysConnected_iff.mp hpath).1
    refine ⟨ha, ⟨before, hjoins.symm⟩, ?_⟩
    exact (hclasses a b (mem_ownRoots.mpr ha) (mem_ownRoots.mpr ⟨before, hjoins.symm⟩)).mpr
      (alwaysConnected_iff.mp hpath).2

omit [LinearOrder R] [LinearOrder I] in
theorem AlwaysConnected.mem_ends {a b : R} (hpath : AlwaysConnected assertions a b) :
    b ∈ (activeAlways assertions).flatMap fun always => [always.recAKey, always.recBKey] := by
  rcases Relation.TransGen.tail'_iff.mp hpath with ⟨before, _, assertion, hmem, hkind, hactive,
    hends⟩
  rw [List.mem_flatMap]
  refine ⟨assertion, mem_activeAlways.mpr ⟨hmem, hkind, hactive⟩, ?_⟩
  rcases hends with ⟨_, hend⟩ | ⟨hend, _⟩
  · simp [hend]
  · simp [hend]

open Classical in
theorem mem_component_explain {assertion : Assertion R I} {record : R} :
    record ∈ (explain assertions assertion).component ↔
      AlwaysConnected assertions assertion.recAKey record := by
  rw [explain, Std.ExtTreeSet.mem_ofList, List.contains_iff_mem, List.mem_filter,
    decide_eq_true_eq]
  exact and_iff_right_of_imp AlwaysConnected.mem_ends

theorem findingOf_eq_explain {assertion : Assertion R I}
    (hcomponents : ∀ place key, key ∈ components[place]?.getD ∅ ↔
      (∃ other, AlwaysJoins assertions key other) ∧ root key = place)
    (hoffenders : ∀ place, offenders[place]?.getD [] =
      ((activeAlways assertions).filter fun always => root always.recAKey = place).map
        Assertion.assertionId)
    (hclasses : ∀ a b, ((∃ other, AlwaysJoins assertions a other) ∧
      (∃ other, AlwaysJoins assertions b other) ∧ root a = root b) ↔
        AlwaysConnected assertions a b)
    (hfirst : ∃ other, AlwaysJoins assertions assertion.recAKey other) :
    findingOf components offenders root assertion = explain assertions assertion := by
  have hcomponent : components[root assertion.recAKey]?.getD ∅ =
      (explain assertions assertion).component := by
    apply Std.ExtTreeSet.ext_mem
    intro record
    rw [hcomponents, mem_component_explain, ← hclasses]
    tauto
  have hrules : (activeAlways assertions).filter (fun always =>
      decide (root always.recAKey = root assertion.recAKey)) =
      (activeAlways assertions).filter fun always =>
        @decide (AlwaysConnected assertions assertion.recAKey always.recAKey)
          (Classical.propDecidable _) := by
    apply List.filter_congr
    intro always hmem
    obtain ⟨hin, hkind, hactive⟩ := mem_activeAlways.mp hmem
    have halways : ∃ other, AlwaysJoins assertions always.recAKey other :=
      ⟨always.recBKey, always, hin, hkind, hactive, .inl ⟨rfl, rfl⟩⟩
    rw [decide_eq_decide, ← hclasses]
    tauto
  rw [findingOf, hcomponent, hoffenders, hrules]
  rfl

omit [LinearOrder I] in
theorem sameRoot_and_active_iff {assertion : Assertion R I}
    (hkeys : ∀ key, key ∈ parent ↔ ∃ other, AlwaysJoins assertions key other)
    (hclasses : ∀ a b, ((∃ other, AlwaysJoins assertions a other) ∧
      (∃ other, AlwaysJoins assertions b other) ∧ root a = root b) ↔
        AlwaysConnected assertions a b) :
    SameRoot parent root assertion ∧ assertion.active = true ↔ Reported assertions assertion := by
  rw [SameRoot, Reported, ← hclasses, hkeys, hkeys]
  tauto

open Classical in
theorem checkContradiction1_eq (assertions : List (Assertion R I)) :
    checkContradiction1 assertions =
      ((assertions.filter fun assertion => Reported assertions assertion).map
        (explain assertions)).insertionSort fun first second => first.pair ≤ second.pair := by
  obtain ⟨root, hforest, hkeys, hclasses⟩ := exists_always_roots assertions
  obtain ⟨hforest₁, hkeys₁, hcomponents⟩ := fileComponents_spec hforest
  have hknown : ∀ assertion ∈ activeAlways assertions,
      assertion.recAKey ∈ (fileComponents (((activeAlways assertions).map endsOf).foldl
        (fun parent pair => union parent pair.1 pair.2)
          (ownRoots (activeAlways assertions)))).1 := by
    intro assertion hmem
    obtain ⟨hin, hkind, hactive⟩ := mem_activeAlways.mp hmem
    rw [hkeys₁, hkeys]
    exact ⟨assertion.recBKey, assertion, hin, hkind, hactive, .inl ⟨rfl, rfl⟩⟩
  obtain ⟨hforest₂, hkeys₂, hoffenders⟩ := fileOffenders_spec hforest₁ hknown
  have hlast := fun key => (hkeys₂ key).trans ((hkeys₁ key).trans (hkeys key))
  simp only [hkeys] at hcomponents
  rw [checkContradiction1, foldl_reportNever hforest₂, List.nil_append, List.filter_filter]
  congr 1
  rw [List.filter_congr (q := fun assertion => decide (Reported assertions assertion))]
  · apply List.map_congr_left
    intro assertion hmem
    have hreported : Reported assertions assertion := by simpa using (List.mem_filter.mp hmem).2
    exact findingOf_eq_explain hcomponents hoffenders hclasses
      (alwaysConnected_iff.mp hreported.2.2).1
  · intro assertion _
    rw [Bool.eq_iff_iff, Bool.and_eq_true, decide_eq_true_eq, decide_eq_true_eq]
    exact sameRoot_and_active_iff hlast hclasses

omit [LinearOrder R] [LinearOrder I] in
theorem alwaysConnected_perm {assertions' : List (Assertion R I)}
    (hperm : assertions.Perm assertions') :
    AlwaysConnected assertions = AlwaysConnected assertions' := by
  have hjoins : AlwaysJoins assertions = AlwaysJoins assertions' := by
    funext a b
    simp only [AlwaysJoins, hperm.mem_iff]
  funext a b
  rw [AlwaysConnected, AlwaysConnected, hjoins]

omit [LinearOrder R] in
theorem insertionSort_eq_of_perm {ids ids' : List I} (hperm : ids.Perm ids') :
    ids.insertionSort (· ≤ ·) = ids'.insertionSort (· ≤ ·) :=
  (((ids.perm_insertionSort _).trans hperm).trans (ids'.perm_insertionSort _).symm).eq_of_pairwise'
    (ids.pairwise_insertionSort _) (ids'.pairwise_insertionSort _)

theorem explain_perm {assertions' : List (Assertion R I)} (hperm : assertions.Perm assertions') :
    explain assertions = explain assertions' := by
  have hconnected := alwaysConnected_perm hperm
  have halways : (activeAlways assertions).Perm (activeAlways assertions') :=
    (hperm.filter _).filter _
  funext assertion
  have hrules : ∀ always : Assertion R I,
      @decide (AlwaysConnected assertions assertion.recAKey always.recAKey)
        (Classical.propDecidable _) =
      @decide (AlwaysConnected assertions' assertion.recAKey always.recAKey)
        (Classical.propDecidable _) := by
    intro always
    rw [decide_eq_decide, hconnected]
  apply Contradiction.ext
  · rfl
  · rfl
  · rfl
  · rw [explain, explain]
    simp only [hrules]
    exact insertionSort_eq_of_perm ((halways.filter _).map _)
  · apply Std.ExtTreeSet.ext_mem
    intro record
    rw [mem_component_explain, mem_component_explain, hconnected]

theorem checkContradiction1_perm {assertions' : List (Assertion R I)}
    (hperm : assertions.Perm assertions') :
    (checkContradiction1 assertions).Perm (checkContradiction1 assertions') := by
  have hreported : Reported assertions = Reported assertions' := by
    funext assertion
    rw [Reported, Reported, alwaysConnected_perm hperm]
  rw [checkContradiction1_eq, checkContradiction1_eq]
  apply (List.perm_insertionSort _ _).trans
  apply List.Perm.trans _ (List.perm_insertionSort _ _).symm
  rw [explain_perm hperm, hreported]
  exact (hperm.filter _).map _

/-- The findings come in the order of their pairs. -/
theorem checkContradiction1_sorted (assertions : List (Assertion R I)) :
    (checkContradiction1 assertions).Pairwise fun first second => first.pair ≤ second.pair := by
  have hpairs : ((checkContradiction1 assertions).map Contradiction.pair).Pairwise (· ≤ ·) := by
    rw [checkContradiction1_eq, List.map_insertionSort _ (· ≤ ·) _ _ fun _ _ _ _ => Iff.rfl]
    exact List.pairwise_insertionSort _ _
  exact List.pairwise_map.mp hpairs

end Report

end EntityResolution.Reconcile
