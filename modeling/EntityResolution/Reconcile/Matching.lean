/-
# What the offers and acceptances decide

One fact per map of the plan. An entity offers its id to a group that holds its
first-ranked fragment, and offers it somewhere as soon as any record of it is in a
new group. A group accepts the first-ranked of its offers, and accepts one as soon
as it has any. Fresh ids go to the unclaimed groups and to the orphans, each drawing
its own.

Later modules use these facts only; none of them unfolds a loop of the plan. No fact
about ranks needs uniqueness of the minimum: a map holds one value per key, so an
entity makes one offer and a group accepts one entity whatever the ranks are.
-/

import EntityResolution.Reconcile.Plan

namespace EntityResolution.Reconcile

open EntityResolution.Collections EntityResolution.Identity

universe u

variable {R E : Type u} [LinearOrder R] [LinearOrder E]

/-- New groups as `reconcile_plan` keys them: disjoint sets under their least member. -/
structure CanonicalGroups (groups : BTreeMap R (Finset R)) : Prop where
  least : ∀ {key : R} {members : Finset R}, groups[key]? = some members →
    members.min = (key : WithTop R)
  disjoint : BTreeMap.SetsDisjoint groups

theorem CanonicalGroups.key_mem {groups : BTreeMap R (Finset R)} (hgroups : CanonicalGroups groups)
    {key : R} {members : Finset R} (hkey : groups[key]? = some members) : key ∈ members :=
  Finset.mem_of_min (hgroups.least hkey)

section Facts

variable {old : BTreeMap E (Finset R)} {groups : BTreeMap R (Finset R)}

theorem cell?_overlapMatrix {key : R} {entity : E} {fragment : Finset R} :
    BTreeMap.cell? (overlapMatrix old groups) key entity = some fragment ↔
      ∃ members before, groups[key]? = some members ∧ old[entity]? = some before ∧
        fragment = members ∩ before ∧ fragment.Nonempty := by
  simp only [BTreeMap.cell?, overlapMatrix, Std.ExtTreeMap.getElem?_map, Option.bind_map,
    Option.bind_eq_some_iff, Function.comp_apply, Std.ExtTreeMap.getElem?_filterMap',
    Option.ite_none_right_eq_some, Option.some.injEq]
  constructor
  · rintro ⟨members, hmembers, before, hbefore, hne, rfl⟩
    exact ⟨members, before, hmembers, hbefore, rfl, hne⟩
  · rintro ⟨members, before, hmembers, hbefore, rfl, hne⟩
    exact ⟨members, hmembers, before, hbefore, hne, rfl⟩

theorem exists_cell_of_mem {key : R} {entity : E} {members before : Finset R} {member : R}
    (hmembers : groups[key]? = some members) (hbefore : old[entity]? = some before)
    (hmem : member ∈ members) (hmem' : member ∈ before) :
    BTreeMap.cell? (overlapMatrix old groups) key entity = some (members ∩ before) :=
  cell?_overlapMatrix.mpr ⟨members, before, hmembers, hbefore, rfl,
    member, Finset.mem_inter.mpr ⟨hmem, hmem'⟩⟩

theorem overlap_eq_of_cell {key : R} {entity : E} {fragment : Finset R}
    (hcell : BTreeMap.cell? (overlapMatrix old groups) key entity = some fragment) :
    overlap old groups key entity = fragment := by
  simp [overlap, hcell]

theorem overlapMatrix_row {key : R} {members : Finset R} (hkey : groups[key]? = some members) :
    ∃ cells, (overlapMatrix old groups)[key]? = some cells ∧ ∀ entity fragment,
      cells[entity]? = some fragment ↔
        BTreeMap.cell? (overlapMatrix old groups) key entity = some fragment := by
  have hrow : ∃ cells, (overlapMatrix old groups)[key]? = some cells := by
    simp [overlapMatrix, hkey]
  obtain ⟨cells, hcells⟩ := hrow
  exact ⟨cells, hcells, fun entity fragment => by simp [BTreeMap.cell?, hcells]⟩

theorem cell?_fragments {key : R} {entity : E} :
    BTreeMap.cell? (fragments old groups) entity key =
      BTreeMap.cell? (overlapMatrix old groups) key entity :=
  BTreeMap.cell?_transpose _ _ _

/-- An offer goes to a group that holds a first-ranked fragment of the entity. -/
theorem offers_spec {entity : E} {key : R} (hoffer : (offers old groups)[entity]? = some key) :
    ∃ fragment, BTreeMap.cell? (overlapMatrix old groups) key entity = some fragment ∧
      ∀ other fragment', BTreeMap.cell? (overlapMatrix old groups) other entity = some fragment' →
        fragmentRank fragment ≤ fragmentRank fragment' := by
  simp only [offers, Std.ExtTreeMap.getElem?_filterMap', Option.bind_eq_some_iff,
    Option.map_eq_some_iff] at hoffer
  obtain ⟨byGroup, hrow, ⟨key', fragment⟩, hargmin, rfl⟩ := hoffer
  have hleast := List.argmin_eq_some_iff.mp hargmin
  have hcell (other : R) (fragment' : Finset R) :
      BTreeMap.cell? (overlapMatrix old groups) other entity = some fragment' ↔
        (other, fragment') ∈ byGroup.toList := by
    rw [← cell?_fragments, BTreeMap.cell?, hrow, Option.bind_some, BTreeMap.mem_toList]
  refine ⟨fragment, (hcell _ _).mpr hleast.1, fun other fragment' hother => ?_⟩
  exact hleast.2.1 (other, fragment') ((hcell _ _).mp hother)

theorem exists_offer_of_cell {key : R} {entity : E} {fragment : Finset R}
    (hcell : BTreeMap.cell? (overlapMatrix old groups) key entity = some fragment) :
    ∃ key', (offers old groups)[entity]? = some key' := by
  rw [← cell?_fragments, BTreeMap.cell?, Option.bind_eq_some_iff] at hcell
  obtain ⟨byGroup, hrow, hfragment⟩ := hcell
  have hne : byGroup.toList ≠ [] := List.ne_nil_of_mem (BTreeMap.mem_toList.mpr hfragment)
  have hargmin : ∃ best, byGroup.toList.argmin (fun fragment => fragmentRank fragment.2) =
      some best := by
    rw [← Option.ne_none_iff_exists']
    simpa using hne
  obtain ⟨best, hbest⟩ := hargmin
  exact ⟨best.1, by simp [offers, hrow, hbest]⟩

/-- An accepted entity offered to the group, and no other offer ranks before it. -/
theorem accepted_spec {key : R} {entity : E}
    (haccepted : (accepted old groups)[key]? = some entity) :
    (offers old groups)[entity]? = some key ∧
      ∀ other, (offers old groups)[other]? = some key →
        fragmentRank (overlap old groups key entity) ≤
          fragmentRank (overlap old groups key other) := by
  simp only [accepted, Std.ExtTreeMap.getElem?_filterMap', Option.bind_eq_some_iff] at haccepted
  obtain ⟨candidates, hcandidates, hargmin⟩ := haccepted
  have hleast := List.argmin_eq_some_iff.mp hargmin
  have hmem (other : E) : other ∈ candidates ↔ (offers old groups)[other]? = some key :=
    BTreeMap.mem_keysByValue hcandidates
  exact ⟨(hmem entity).mp hleast.1, fun other hother => hleast.2.1 other ((hmem other).mpr hother)⟩

theorem exists_accepted_of_offer {key : R} {entity : E}
    (hoffer : (offers old groups)[entity]? = some key) :
    ∃ claimant, (accepted old groups)[key]? = some claimant := by
  obtain ⟨candidates, hcandidates⟩ := BTreeMap.exists_keysByValue hoffer
  have hne : candidates ≠ [] := (BTreeMap.keysByValue_eq_some_iff.mp hcandidates).2
  have hargmin : ∃ best, candidates.argmin
      (fun entity => fragmentRank (overlap old groups key entity)) = some best := by
    rw [← Option.ne_none_iff_exists']
    simpa using hne
  obtain ⟨best, hbest⟩ := hargmin
  exact ⟨best, by simp [accepted, offered, hcandidates, hbest]⟩

theorem accepted_injective {first second : R} {entity : E}
    (hfirst : (accepted old groups)[first]? = some entity)
    (hsecond : (accepted old groups)[second]? = some entity) : first = second :=
  Option.some.inj ((accepted_spec hfirst).1.symm.trans (accepted_spec hsecond).1)

theorem offer_mem {entity : E} {key : R} (hoffer : (offers old groups)[entity]? = some key) :
    ∃ members before, groups[key]? = some members ∧ old[entity]? = some before ∧
      (members ∩ before).Nonempty := by
  obtain ⟨fragment, hcell, _⟩ := offers_spec hoffer
  obtain ⟨members, before, hmembers, hbefore, rfl, hne⟩ := cell?_overlapMatrix.mp hcell
  exact ⟨members, before, hmembers, hbefore, hne⟩

theorem mem_clustered {record : R} :
    record ∈ clustered groups ↔
      ∃ (key : R) (members : Finset R), groups[key]? = some members ∧ record ∈ members := by
  have hfold (entries : List (R × Finset R)) (seen : Finset R) :
      record ∈ entries.foldl (fun seen entry => seen ∪ entry.2) seen ↔
        record ∈ seen ∨ ∃ entry ∈ entries, record ∈ entry.2 := by
    induction entries generalizing seen with
    | nil => simp
    | cons first entries ih => simp [ih, Finset.mem_union, or_assoc]
  rw [clustered, hfold]
  simp

theorem mem_orphans {record : R} :
    record ∈ orphans old groups ↔
      (∃ entity, (entityOfRecord old)[record]? = some entity) ∧ record ∉ clustered groups := by
  simp [orphans, BTreeMap.mem_iff_exists_getElem?]

theorem mem_mintKeys {key : R} :
    key ∈ mintKeys old groups ↔
      ((∃ members, groups[key]? = some members) ∧ (accepted old groups)[key]? = none) ∨
        key ∈ orphans old groups := by
  rw [mintKeys, List.mem_insertionSort, List.mem_append]
  simp [BTreeMap.mem_iff_exists_getElem?]

theorem mintKeys_nodup (hgroups : CanonicalGroups groups) : (mintKeys old groups).Nodup := by
  rw [mintKeys, (List.perm_insertionSort _ _).nodup_iff, List.nodup_append]
  refine ⟨(BTreeMap.keys_nodup groups).filter _, (BTreeMap.keys_nodup _).filter _, ?_⟩
  rintro key hkey orphan horphan rfl
  -- A group's key is one of its members, so it is clustered and no orphan.
  have hgroup : key ∈ groups := by simpa using (List.mem_filter.mp hkey).1
  obtain ⟨members, hmembers⟩ := BTreeMap.mem_iff_exists_getElem?.mp hgroup
  exact (mem_orphans.mp horphan).2
    (mem_clustered.mpr ⟨key, members, hmembers, hgroups.key_mem hmembers⟩)

theorem mintKeys_pairwise_lt (hgroups : CanonicalGroups groups) :
    (mintKeys old groups).Pairwise (· < ·) := by
  have hsorted : (mintKeys old groups).Pairwise (· ≤ ·) := List.pairwise_insertionSort _ _
  exact (hsorted.and (mintKeys_nodup hgroups)).imp fun h => lt_of_le_of_ne h.1 h.2

variable {factory : IdFactory E}

theorem mintedIds_eq_some_iff (hgroups : CanonicalGroups groups) {key : R} {id : E} :
    (mintedIds old groups factory)[key]? = some id ↔
      ∃ i, (mintKeys old groups)[i]? = some key ∧ id = factory.draw i := by
  have hnodup : ((mintAll (mintKeys old groups) factory).map Prod.fst).Nodup := by
    rw [mintAll_map_fst]
    exact mintKeys_nodup hgroups
  rw [mintedIds, BTreeMap.getElem?_ofList_eq_some_iff hnodup, mem_mintAll]

theorem exists_mintedId (hgroups : CanonicalGroups groups) {key : R}
    (hkey : key ∈ mintKeys old groups) :
    ∃ id, (mintedIds old groups factory)[key]? = some id := by
  obtain ⟨i, hi⟩ := List.mem_iff_getElem?.mp hkey
  exact ⟨factory.draw i, (mintedIds_eq_some_iff hgroups).mpr ⟨i, hi, rfl⟩⟩

theorem mem_mintKeys_of_mintedId (hgroups : CanonicalGroups groups) {key : R} {id : E}
    (hid : (mintedIds old groups factory)[key]? = some id) : key ∈ mintKeys old groups := by
  obtain ⟨i, hi, _⟩ := (mintedIds_eq_some_iff hgroups).mp hid
  exact List.mem_of_getElem? hi

theorem mintedIds_injective (hgroups : CanonicalGroups groups)
    (hdistinct : Function.Injective factory.draw) {first second : R} {id : E}
    (hfirst : (mintedIds old groups factory)[first]? = some id)
    (hsecond : (mintedIds old groups factory)[second]? = some id) : first = second := by
  obtain ⟨i, hi, hdraw⟩ := (mintedIds_eq_some_iff hgroups).mp hfirst
  obtain ⟨j, hj, hdraw'⟩ := (mintedIds_eq_some_iff hgroups).mp hsecond
  obtain rfl : i = j := hdistinct (hdraw.symm.trans hdraw')
  exact Option.some.inj (hi.symm.trans hj)

/-- A fresh id is not the id of an old entity. -/
theorem mintedId_not_old (hgroups : CanonicalGroups groups)
    (hunused : ∀ i before, old[factory.draw i]? ≠ some before) {key : R} {id : E}
    (hid : (mintedIds old groups factory)[key]? = some id) (before : Finset R) :
    old[id]? ≠ some before := by
  obtain ⟨i, _, rfl⟩ := (mintedIds_eq_some_iff hgroups).mp hid
  exact hunused i before

end Facts

end EntityResolution.Reconcile
