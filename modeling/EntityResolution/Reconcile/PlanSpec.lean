/-
# What a plan contains

The plan's lists are sorted concatenations of the rows that its loops push. This
module says, once and for each list, which rows those are, so that every later result
argues about named cases instead of loop bodies. The cases carry the maps of the plan
as they were when the row was pushed.

It also settles that the loops never fail: on a partition pair every index that the
plan takes into one of its maps is present, so a plan is always returned.
-/

import EntityResolution.Reconcile.Matching

namespace EntityResolution.Reconcile

open EntityResolution.Collections EntityResolution.Identity

universe u

variable {R E H : Type u} [LinearOrder R] [LinearOrder E]

/-- A new partition as `reconcile_plan` receives it: non-empty groups, no two of which
share a record. A group may list a member more than once. -/
structure IsPartition (pNew : List (List R)) : Prop where
  nonempty : ∀ group ∈ pNew, group ≠ []
  disjoint : pNew.Pairwise List.Disjoint

omit [LinearOrder R] in
theorem IsPartition.disjoint_of_ne {pNew : List (List R)} (hnew : IsPartition pNew)
    {first second : List R} (hfirst : first ∈ pNew) (hsecond : second ∈ pNew)
    (hne : first ≠ second) : first.Disjoint second := by
  have hsymm : Std.Symm (List.Disjoint (α := R)) := ⟨fun _ _ h => h.symm⟩
  exact hnew.disjoint.forall hfirst hsecond hne

/-- An old membership: non-empty member lists, no two of which share a record. -/
structure IsMembership (pOld : BTreeMap E (List R)) : Prop where
  nonempty : ∀ (entity : E) (members : List R), pOld[entity]? = some members → members ≠ []
  disjoint : ∀ (first second : E) (left right : List R), pOld[first]? = some left →
    pOld[second]? = some right → first ≠ second → left.Disjoint right

/-- The loop over non-empty groups inserts one row per group under its least member. -/
theorem foldlM_canonicalGroups {pNew : List (List R)} (hnonempty : ∀ group ∈ pNew, group ≠ [])
    (groups : BTreeMap R (Finset R)) :
    ∃ rows : List (R × Finset R), rows.map Prod.snd = pNew.map List.toFinset ∧
      (∀ row ∈ rows, row.2.min = (row.1 : WithTop R)) ∧
      pNew.foldlM (fun (groups : BTreeMap R (Finset R)) group =>
        if hne : group.toFinset.Nonempty then
          some (groups.insert (group.toFinset.min' hne) group.toFinset)
        else none) groups = some (groups.insertMany rows) := by
  induction pNew generalizing groups with
  | nil => exact ⟨[], rfl, by simp, by simp⟩
  | cons group pNew ih =>
      have hne : group.toFinset.Nonempty := by
        simpa [List.toFinset_nonempty_iff] using hnonempty group List.mem_cons_self
      obtain ⟨rows, hsets, hleast, hrun⟩ := ih
        (fun other hother => hnonempty other (List.mem_cons_of_mem _ hother))
        (groups.insert (group.toFinset.min' hne) group.toFinset)
      refine ⟨(group.toFinset.min' hne, group.toFinset) :: rows, by simp [hsets], ?_, ?_⟩
      · intro row hrow
        rcases List.mem_cons.mp hrow with rfl | hrow
        · exact (Finset.coe_min' hne).symm
        · exact hleast row hrow
      · rw [List.foldlM_cons, dif_pos hne, Std.ExtTreeMap.insertMany_cons]
        exact hrun

/-- Canonicalising a partition keys each of its groups, as a set, by its least member. -/
theorem canonicalGroups_spec {pNew : List (List R)} (hnew : IsPartition pNew) :
    ∃ groups, canonicalGroups pNew = some groups ∧ ∀ (key : R) (members : Finset R),
      groups[key]? = some members ↔
        (∃ group ∈ pNew, group.toFinset = members) ∧ members.min = (key : WithTop R) := by
  obtain ⟨rows, hsets, hleast, hrun⟩ := foldlM_canonicalGroups hnew.nonempty ∅
  have hkeys : (rows.map Prod.fst).Nodup := by
    have hdisjoint : (rows.map Prod.snd).Pairwise Disjoint := by
      rw [hsets, List.pairwise_map]
      exact hnew.disjoint.imp fun h => List.disjoint_toFinset_iff_disjoint.mpr h
    rw [List.Nodup, List.pairwise_map]
    refine (List.pairwise_map.mp hdisjoint).imp_of_mem ?_
    intro first second hfirst hsecond hdis heq
    exact Finset.disjoint_left.mp hdis (Finset.mem_of_min (hleast first hfirst))
      (heq ▸ Finset.mem_of_min (hleast second hsecond))
  refine ⟨_, hrun, fun key members => ?_⟩
  have hset : (∃ group ∈ pNew, group.toFinset = members) ↔ members ∈ rows.map Prod.snd := by
    rw [hsets, List.mem_map]
  rw [BTreeMap.getElem?_insertMany_eq_some_iff hkeys, hset]
  constructor
  · rintro (hrow | ⟨_, habsent⟩)
    · exact ⟨List.mem_map.mpr ⟨_, hrow, rfl⟩, hleast _ hrow⟩
    · simp at habsent
  · rintro ⟨hmem, hmin⟩
    obtain ⟨⟨key', members'⟩, hrow, rfl⟩ := List.mem_map.mp hmem
    have hkey : key' = key := WithTop.coe_injective ((hleast _ hrow).symm.trans hmin)
    exact .inl (hkey ▸ hrow)

/-- The groups of a partition are canonical. -/
theorem canonicalGroups_canonical {pNew : List (List R)} (hnew : IsPartition pNew)
    {groups : BTreeMap R (Finset R)} (hgroups : ∀ (key : R) (members : Finset R),
      groups[key]? = some members ↔
        (∃ group ∈ pNew, group.toFinset = members) ∧ members.min = (key : WithTop R)) :
    CanonicalGroups groups where
  least hkey := ((hgroups _ _).mp hkey).2
  disjoint := by
    intro first second left right hleft hright hne
    obtain ⟨⟨group, hgroup, rfl⟩, hmin⟩ := (hgroups _ _).mp hleft
    obtain ⟨⟨group', hgroup', rfl⟩, hmin'⟩ := (hgroups _ _).mp hright
    have hdistinct : group ≠ group' := by
      rintro rfl
      exact hne (WithTop.coe_injective (hmin.symm.trans hmin'))
    exact List.disjoint_toFinset_iff_disjoint.mpr (hnew.disjoint_of_ne hgroup hgroup' hdistinct)

theorem oldSets_eq_some_iff {pOld : BTreeMap E (List R)} {entity : E} {before : Finset R} :
    (oldSets pOld)[entity]? = some before ↔
      ∃ members, pOld[entity]? = some members ∧ members.toFinset = before := by
  simp [oldSets]

theorem oldSets_disjoint {pOld : BTreeMap E (List R)} (hold : IsMembership pOld) :
    BTreeMap.SetsDisjoint (oldSets pOld) := by
  intro first second left right hleft hright hne
  obtain ⟨members, hmembers, rfl⟩ := oldSets_eq_some_iff.mp hleft
  obtain ⟨members', hmembers', rfl⟩ := oldSets_eq_some_iff.mp hright
  exact List.disjoint_toFinset_iff_disjoint.mpr
    (hold.disjoint first second members members' hmembers hmembers' hne)

section Cases

variable (old : BTreeMap E (Finset R)) (groups : BTreeMap R (Finset R)) (factory : IdFactory E)

/-- Where a record lands: with the holder of its group, or alone under a fresh id. -/
inductive Lands : R → E → Prop
  | grouped {key record : R} {members : Finset R} {entity : E}
      (hkey : groups[key]? = some members) (hmem : record ∈ members)
      (hholder : holder old groups factory key = some entity) : Lands record entity
  | orphan {record : R} {entity : E} (horphan : record ∈ orphans old groups)
      (hid : (mintedIds old groups factory)[record]? = some entity) : Lands record entity

/-- The transitions of a plan. -/
inductive PlansTransition : EntityTransition E → Prop
  | created {key : R} {members : Finset R} {id : E} (hkey : groups[key]? = some members)
      (hunclaimed : (accepted old groups)[key]? = none)
      (hid : (mintedIds old groups factory)[key]? = some id) :
      PlansTransition ⟨id, .active, none, true⟩
  | kept {key : R} {members before : Finset R} {entity : E} (hkey : groups[key]? = some members)
      (haccepted : (accepted old groups)[key]? = some entity)
      (hbefore : old[entity]? = some before) (hchanged : before ≠ members) :
      PlansTransition ⟨entity, .active, none, false⟩
  | retired {entity : E} {before : Finset R} (hbefore : old[entity]? = some before)
      (hoffer : (offers old groups)[entity]? = none) :
      PlansTransition ⟨entity, .retired, none, false⟩
  | merged {entity claimant : E} {key : R} (hoffer : (offers old groups)[entity]? = some key)
      (haccepted : (accepted old groups)[key]? = some claimant) (hlost : claimant ≠ entity) :
      PlansTransition ⟨entity, .merged, some claimant, false⟩
  | orphan {record : R} {id : E} (horphan : record ∈ orphans old groups)
      (hid : (mintedIds old groups factory)[record]? = some id) :
      PlansTransition ⟨id, .active, none, true⟩

/-- The events of a plan, without their digests. -/
inductive PlansEvent : E → EventType → EventDetails R E → Prop
  | created {key : R} {members : Finset R} {id : E} (hkey : groups[key]? = some members)
      (hunclaimed : (accepted old groups)[key]? = none)
      (hid : (mintedIds old groups factory)[key]? = some id) :
      PlansEvent id .created { memberKeys := members.sort }
  | memberAdded {key : R} {members : Finset R} {entity : E} (hkey : groups[key]? = some members)
      (haccepted : (accepted old groups)[key]? = some entity)
      (hjoined : joined old members ≠ []) :
      PlansEvent entity .memberAdded { memberKeys := joined old members }
  | memberRemoved {key : R} {members before : Finset R} {entity : E}
      (hkey : groups[key]? = some members)
      (haccepted : (accepted old groups)[key]? = some entity)
      (hbefore : old[entity]? = some before) (hleft : (before \ members).sort ≠ []) :
      PlansEvent entity .memberRemoved
        { memberKeys := (before \ members).sort, cause := some .recluster }
  | split {key : R} {members fragment : Finset R} {entity from_ : E}
      (hkey : groups[key]? = some members)
      (hholder : holder old groups factory key = some entity)
      (hcell : BTreeMap.cell? (overlapMatrix old groups) key from_ = some fragment)
      (helsewhere : (offers old groups)[from_]? ≠ some key) :
      PlansEvent entity .split { memberKeys := fragment.sort, splitFrom := some from_ }
  | retired {entity : E} {before : Finset R} (hbefore : old[entity]? = some before)
      (hoffer : (offers old groups)[entity]? = none) :
      PlansEvent entity .retired { memberKeys := before.sort }
  | merged {entity claimant : E} {key : R} {fragment : Finset R}
      (hoffer : (offers old groups)[entity]? = some key)
      (haccepted : (accepted old groups)[key]? = some claimant) (hlost : claimant ≠ entity)
      (hcell : BTreeMap.cell? (overlapMatrix old groups) key entity = some fragment) :
      PlansEvent entity .merged { memberKeys := fragment.sort, mergedInto := some claimant }
  | orphan {record : R} {id : E} (horphan : record ∈ orphans old groups)
      (hid : (mintedIds old groups factory)[record]? = some id) :
      PlansEvent id .created { memberKeys := [record] }

end Cases

section Bodies

variable {old : BTreeMap E (Finset R)} {groups : BTreeMap R (Finset R)}
  {digest : EventDetails R E → H} {factory : IdFactory E}

theorem exists_holder (hgroups : CanonicalGroups groups) {key : R} {members : Finset R}
    (hkey : groups[key]? = some members) :
    ∃ entity, holder old groups factory key = some entity := by
  cases haccepted : (accepted old groups)[key]? with
  | some entity => exact ⟨entity, by simp [holder, haccepted]⟩
  | none =>
      have hmint : key ∈ mintKeys old groups := mem_mintKeys.mpr (.inl ⟨⟨members, hkey⟩, haccepted⟩)
      have hfresh : ∃ id, (mintedIds old groups factory)[key]? = some id :=
        exists_mintedId hgroups hmint
      obtain ⟨id, hid⟩ := hfresh
      exact ⟨id, by simp [holder, haccepted, hid]⟩

theorem holder_of_accepted {key : R} {entity : E}
    (haccepted : (accepted old groups)[key]? = some entity) :
    holder old groups factory key = some entity := by
  simp [holder, haccepted]

theorem holder_of_unclaimed {key : R} (hunclaimed : (accepted old groups)[key]? = none) :
    holder old groups factory key = (mintedIds old groups factory)[key]? := by
  simp [holder, hunclaimed]

/-- The entity that a group accepted is an old one. -/
theorem accepted_old {key : R} {entity : E}
    (haccepted : (accepted old groups)[key]? = some entity) :
    ∃ before, old[entity]? = some before := by
  obtain ⟨_, before, _, hbefore, _⟩ := offer_mem (accepted_spec haccepted).1
  exact ⟨before, hbefore⟩

/-- The group loop's body on a group that keeps no old id. -/
theorem groupRows_of_unclaimed {key : R} {members : Finset R} {id : E}
    {cells : BTreeMap E (Finset R)} (hunclaimed : (accepted old groups)[key]? = none)
    (hid : (mintedIds old groups factory)[key]? = some id)
    (hcells : (overlapMatrix old groups)[key]? = some cells) :
    groupRows old groups digest factory key members = some
      { assignments := groupAssignments old id members
        transitions := [⟨id, .active, none, true⟩]
        events := [.new digest id .created { memberKeys := members.sort }] ++
          splitEvents old groups digest key id cells } := by
  simp [groupRows, ownRows, holder, hunclaimed, hid, hcells, createdRows]

/-- The group loop's body on a group that keeps an old id. -/
theorem groupRows_of_accepted {key : R} {members before : Finset R} {entity : E}
    {cells : BTreeMap E (Finset R)} (haccepted : (accepted old groups)[key]? = some entity)
    (hbefore : old[entity]? = some before)
    (hcells : (overlapMatrix old groups)[key]? = some cells) :
    groupRows old groups digest factory key members = some
      { assignments := groupAssignments old entity members
        transitions := (keptRows old digest entity members before).transitions
        events := (keptRows old digest entity members before).events ++
          splitEvents old groups digest key entity cells } := by
  simp [groupRows, ownRows, holder, haccepted, hbefore, hcells]

/-- The old-entity loop's body on an entity that made no offer. -/
theorem oldEntityRows_of_retired {entity : E} {before : Finset R}
    (hbefore : old[entity]? = some before) (hoffer : (offers old groups)[entity]? = none) :
    oldEntityRows old groups digest entity = some (retiredRows digest entity before) := by
  simp [oldEntityRows, hoffer, hbefore]

/-- The old-entity loop's body on an entity that keeps its id. -/
theorem oldEntityRows_of_kept {entity : E} {key : R}
    (hoffer : (offers old groups)[entity]? = some key)
    (haccepted : (accepted old groups)[key]? = some entity) :
    oldEntityRows old groups digest entity = some {} := by
  simp [oldEntityRows, hoffer, haccepted]

/-- The old-entity loop's body on an entity whose offer lost. -/
theorem oldEntityRows_of_merged {entity claimant : E} {key : R} {fragment : Finset R}
    (hoffer : (offers old groups)[entity]? = some key)
    (haccepted : (accepted old groups)[key]? = some claimant) (hlost : claimant ≠ entity)
    (hcell : BTreeMap.cell? (overlapMatrix old groups) key entity = some fragment) :
    oldEntityRows old groups digest entity = some (mergedRows digest entity claimant fragment) := by
  simp [oldEntityRows, hoffer, haccepted, hlost, hcell]

theorem orphanRows_of_minted {record : R} {id : E}
    (hid : (mintedIds old groups factory)[record]? = some id) :
    orphanRows old groups digest factory record = some
      { assignments := [⟨record, id⟩]
        transitions := [⟨id, .active, none, true⟩]
        events := [.new digest id .created { memberKeys := [record] }] } := by
  simp [orphanRows, hid]

/-- Every old entity retires, keeps its id, or loses its offer. -/
theorem oldEntity_cases (old : BTreeMap E (Finset R)) (groups : BTreeMap R (Finset R))
    (entity : E) : (offers old groups)[entity]? = none ∨
      (∃ key, (offers old groups)[entity]? = some key ∧
        (accepted old groups)[key]? = some entity) ∨
      ∃ key claimant fragment, (offers old groups)[entity]? = some key ∧
        (accepted old groups)[key]? = some claimant ∧ claimant ≠ entity ∧
        BTreeMap.cell? (overlapMatrix old groups) key entity = some fragment := by
  cases hoffer : (offers old groups)[entity]? with
  | none => exact .inl rfl
  | some key =>
      obtain ⟨claimant, haccepted⟩ := exists_accepted_of_offer hoffer
      obtain ⟨fragment, hcell, _⟩ := offers_spec hoffer
      by_cases hkept : claimant = entity
      · exact .inr (.inl ⟨key, rfl, hkept ▸ haccepted⟩)
      · exact .inr (.inr ⟨key, claimant, fragment, rfl, haccepted, hkept, hcell⟩)

/-! ## The rows of a plan -/

/-- The rows that one iteration of one of the loops pushes. -/
inductive RowOf (old : BTreeMap E (Finset R)) (groups : BTreeMap R (Finset R))
    (digest : EventDetails R E → H) (factory : IdFactory E) : PlanRows R E H → Prop
  | created {key : R} {members : Finset R} {id : E} {cells : BTreeMap E (Finset R)}
      (hkey : groups[key]? = some members) (hunclaimed : (accepted old groups)[key]? = none)
      (hid : (mintedIds old groups factory)[key]? = some id)
      (hcells : (overlapMatrix old groups)[key]? = some cells) :
      RowOf old groups digest factory
        { assignments := groupAssignments old id members
          transitions := [⟨id, .active, none, true⟩]
          events := [.new digest id .created { memberKeys := members.sort }] ++
            splitEvents old groups digest key id cells }
  | kept {key : R} {members before : Finset R} {entity : E} {cells : BTreeMap E (Finset R)}
      (hkey : groups[key]? = some members)
      (haccepted : (accepted old groups)[key]? = some entity)
      (hbefore : old[entity]? = some before)
      (hcells : (overlapMatrix old groups)[key]? = some cells) :
      RowOf old groups digest factory
        { assignments := groupAssignments old entity members
          transitions := (keptRows old digest entity members before).transitions
          events := (keptRows old digest entity members before).events ++
            splitEvents old groups digest key entity cells }
  | survives {entity : E} {key : R} (hoffer : (offers old groups)[entity]? = some key)
      (haccepted : (accepted old groups)[key]? = some entity) :
      RowOf old groups digest factory {}
  | retired {entity : E} {before : Finset R} (hbefore : old[entity]? = some before)
      (hoffer : (offers old groups)[entity]? = none) :
      RowOf old groups digest factory (retiredRows digest entity before)
  | merged {entity claimant : E} {key : R} {fragment : Finset R}
      (hoffer : (offers old groups)[entity]? = some key)
      (haccepted : (accepted old groups)[key]? = some claimant) (hlost : claimant ≠ entity)
      (hcell : BTreeMap.cell? (overlapMatrix old groups) key entity = some fragment) :
      RowOf old groups digest factory (mergedRows digest entity claimant fragment)
  | orphan {record : R} {id : E} (horphan : record ∈ orphans old groups)
      (hid : (mintedIds old groups factory)[record]? = some id) :
      RowOf old groups digest factory
        { assignments := [⟨record, id⟩]
          transitions := [⟨id, .active, none, true⟩]
          events := [.new digest id .created { memberKeys := [record] }] }

theorem exists_groupRows (hgroups : CanonicalGroups groups) {key : R} {members : Finset R}
    (hkey : groups[key]? = some members) :
    ∃ rows, groupRows old groups digest factory key members = some rows ∧
      RowOf old groups digest factory rows := by
  obtain ⟨cells, hcells, _⟩ : ∃ cells, (overlapMatrix old groups)[key]? = some cells ∧ _ :=
    overlapMatrix_row hkey
  cases haccepted : (accepted old groups)[key]? with
  | some entity =>
      obtain ⟨before, hbefore⟩ := accepted_old haccepted
      exact ⟨_, groupRows_of_accepted haccepted hbefore hcells,
        .kept hkey haccepted hbefore hcells⟩
  | none =>
      obtain ⟨id, hid⟩ : ∃ id, holder old groups factory key = some id := exists_holder hgroups hkey
      rw [holder_of_unclaimed haccepted] at hid
      exact ⟨_, groupRows_of_unclaimed haccepted hid hcells, .created hkey haccepted hid hcells⟩

theorem exists_oldEntityRows {entity : E} {before : Finset R}
    (hbefore : old[entity]? = some before) :
    ∃ rows, oldEntityRows old groups digest entity = some rows ∧
      RowOf old groups digest factory rows := by
  rcases oldEntity_cases old groups entity with hoffer | ⟨key, hoffer, haccepted⟩ |
    ⟨key, claimant, fragment, hoffer, haccepted, hlost, hcell⟩
  · exact ⟨_, oldEntityRows_of_retired hbefore hoffer, .retired hbefore hoffer⟩
  · exact ⟨_, oldEntityRows_of_kept hoffer haccepted, .survives hoffer haccepted⟩
  · exact ⟨_, oldEntityRows_of_merged hoffer haccepted hlost hcell,
      .merged hoffer haccepted hlost hcell⟩

theorem exists_orphanRows (hgroups : CanonicalGroups groups) {record : R}
    (horphan : record ∈ orphans old groups) :
    ∃ rows, orphanRows old groups digest factory record = some rows ∧
      RowOf old groups digest factory rows := by
  obtain ⟨id, hid⟩ : ∃ id, (mintedIds old groups factory)[record]? = some id :=
    exists_mintedId hgroups (mem_mintKeys.mpr (.inr horphan))
  exact ⟨_, orphanRows_of_minted hid, .orphan horphan hid⟩

theorem exists_planRows (hgroups : CanonicalGroups groups) :
    ∃ rows, planRows old groups digest factory = some rows := by
  obtain ⟨groupPart, hgroupPart⟩ : ∃ rows, groups.toList.mapM
      (fun entry => groupRows old groups digest factory entry.1 entry.2) = some rows :=
    exists_mapM_eq_some fun entry hentry =>
      (exists_groupRows hgroups (BTreeMap.mem_toList.mp hentry)).imp fun _ h => h.1
  obtain ⟨oldPart, holdPart⟩ : ∃ rows, old.keys.mapM (oldEntityRows old groups digest) =
      some rows := exists_mapM_eq_some fun entity hentity => by
    obtain ⟨before, hbefore⟩ :=
      BTreeMap.mem_iff_exists_getElem?.mp (Std.ExtTreeMap.mem_keys.mp hentity)
    exact (exists_oldEntityRows hbefore : ∃ rows, oldEntityRows old groups digest entity =
      some rows ∧ RowOf old groups digest factory rows).imp fun _ h => h.1
  obtain ⟨orphanPart, horphanPart⟩ : ∃ rows, (orphans old groups).mapM
      (orphanRows old groups digest factory) = some rows :=
    exists_mapM_eq_some fun record hrecord =>
      (exists_orphanRows hgroups hrecord).imp fun _ h => h.1
  exact ⟨groupPart ++ oldPart ++ orphanPart,
    by simp [planRows, hgroupPart, holdPart, horphanPart]⟩

theorem mem_planRows (hgroups : CanonicalGroups groups) {rows : List (PlanRows R E H)}
    (hrows : planRows old groups digest factory = some rows) {row : PlanRows R E H} :
    row ∈ rows ↔ RowOf old groups digest factory row := by
  simp only [planRows, Option.pure_def, Option.bind_eq_bind, Option.bind_eq_some_iff,
    Option.some.injEq] at hrows
  obtain ⟨groupPart, hgroupPart, oldPart, holdPart, orphanPart, horphanPart, rfl⟩ := hrows
  rw [List.mem_append, List.mem_append, mem_of_mapM_eq_some hgroupPart,
    mem_of_mapM_eq_some holdPart, mem_of_mapM_eq_some horphanPart]
  constructor
  · rintro ((⟨entry, hentry, hrow⟩ | ⟨entity, hentity, hrow⟩) | ⟨record, hrecord, hrow⟩)
    · obtain ⟨row', hrow', hcase⟩ : ∃ rows, groupRows old groups digest factory entry.1 entry.2 =
          some rows ∧ RowOf old groups digest factory rows :=
        exists_groupRows hgroups (BTreeMap.mem_toList.mp hentry)
      exact Option.some.inj (hrow'.symm.trans hrow) ▸ hcase
    · obtain ⟨before, hbefore⟩ :=
        BTreeMap.mem_iff_exists_getElem?.mp (Std.ExtTreeMap.mem_keys.mp hentity)
      obtain ⟨row', hrow', hcase⟩ : ∃ rows, oldEntityRows old groups digest entity = some rows ∧
          RowOf old groups digest factory rows := exists_oldEntityRows hbefore
      exact Option.some.inj (hrow'.symm.trans hrow) ▸ hcase
    · obtain ⟨row', hrow', hcase⟩ : ∃ rows, orphanRows old groups digest factory record =
          some rows ∧ RowOf old groups digest factory rows := exists_orphanRows hgroups hrecord
      exact Option.some.inj (hrow'.symm.trans hrow) ▸ hcase
  · intro hrow
    have hkey {entity : E} {before : Finset R} (hbefore : old[entity]? = some before) :
        entity ∈ old.keys :=
      Std.ExtTreeMap.mem_keys.mpr (BTreeMap.mem_iff_exists_getElem?.mpr ⟨before, hbefore⟩)
    cases hrow with
    | created hkey hunclaimed hid hcells =>
        exact .inl (.inl ⟨_, BTreeMap.mem_toList.mpr hkey,
          groupRows_of_unclaimed hunclaimed hid hcells⟩)
    | kept hkey haccepted hbefore hcells =>
        exact .inl (.inl ⟨_, BTreeMap.mem_toList.mpr hkey,
          groupRows_of_accepted haccepted hbefore hcells⟩)
    | survives hoffer haccepted =>
        obtain ⟨before, hbefore⟩ := accepted_old haccepted
        exact .inl (.inr ⟨_, hkey hbefore, oldEntityRows_of_kept hoffer haccepted⟩)
    | retired hbefore hoffer =>
        exact .inl (.inr ⟨_, hkey hbefore, oldEntityRows_of_retired hbefore hoffer⟩)
    | merged hoffer haccepted hlost hcell =>
        obtain ⟨_, before, _, hbefore, _⟩ := offer_mem hoffer
        exact .inl (.inr ⟨_, hkey hbefore, oldEntityRows_of_merged hoffer haccepted hlost hcell⟩)
    | orphan horphan hid => exact .inr ⟨_, horphan, orphanRows_of_minted hid⟩

theorem mem_groupAssignments {entity : E} {members : Finset R} {row : MembershipAssignment R E} :
    row ∈ groupAssignments old entity members ↔
      row.recordKey ∈ members ∧ (entityOfRecord old)[row.recordKey]? ≠ some row.entityId ∧
        row.entityId = entity := by
  obtain ⟨record, id⟩ := row
  simp only [groupAssignments, List.mem_map, List.mem_filter, Finset.mem_sort, decide_eq_true_eq,
    MembershipAssignment.mk.injEq]
  constructor
  · rintro ⟨member, ⟨hmem, hchanged⟩, rfl, rfl⟩
    exact ⟨hmem, hchanged, rfl⟩
  · rintro ⟨hmem, hchanged, rfl⟩
    exact ⟨record, ⟨hmem, hchanged⟩, rfl, rfl⟩

theorem mem_splitEvents {key : R} {entity : E} {cells : BTreeMap E (Finset R)}
    {event : PlannedEvent R E H} :
    event ∈ splitEvents old groups digest key entity cells ↔
      ∃ from_ fragment, cells[from_]? = some fragment ∧ (offers old groups)[from_]? ≠ some key ∧
        event = .new digest entity .split
          { memberKeys := fragment.sort, splitFrom := some from_ } := by
  simp only [splitEvents, List.mem_map, List.mem_filter, decide_eq_true_eq, Prod.exists,
    BTreeMap.mem_toList]
  constructor
  · rintro ⟨from_, fragment, ⟨hcell, helsewhere⟩, rfl⟩
    exact ⟨from_, fragment, hcell, helsewhere, rfl⟩
  · rintro ⟨from_, fragment, hcell, helsewhere, rfl⟩
    exact ⟨from_, fragment, ⟨hcell, helsewhere⟩, rfl⟩

theorem exists_rowOf_transition_iff {row : EntityTransition E} :
    (∃ rows, RowOf old groups digest factory rows ∧ row ∈ rows.transitions) ↔
      PlansTransition old groups factory row := by
  constructor
  · rintro ⟨_, hrow, hmem⟩
    cases hrow with
    | created hkey hunclaimed hid hcells =>
        obtain rfl := List.mem_singleton.mp hmem
        exact .created hkey hunclaimed hid
    | @kept key members before entity cells hkey haccepted hbefore hcells =>
        by_cases hchanged : before = members
        · simp [keptRows, hchanged] at hmem
        · simp only [keptRows, ne_eq, hchanged, not_false_eq_true, if_true,
            List.mem_singleton] at hmem
          subst hmem
          exact .kept hkey haccepted hbefore hchanged
    | survives hoffer haccepted => simp at hmem
    | retired hbefore hoffer =>
        obtain rfl := List.mem_singleton.mp hmem
        exact .retired hbefore hoffer
    | merged hoffer haccepted hlost hcell =>
        obtain rfl := List.mem_singleton.mp hmem
        exact .merged hoffer haccepted hlost
    | orphan horphan hid =>
        obtain rfl := List.mem_singleton.mp hmem
        exact .orphan horphan hid
  · intro hrow
    cases hrow with
    | @created key members id hkey hunclaimed hid =>
        obtain ⟨cells, hcells, _⟩ : ∃ cells, (overlapMatrix old groups)[key]? = some cells ∧ _ :=
          overlapMatrix_row hkey
        exact ⟨_, .created hkey hunclaimed hid hcells, List.mem_singleton.mpr rfl⟩
    | @kept key members before entity hkey haccepted hbefore hchanged =>
        obtain ⟨cells, hcells, _⟩ : ∃ cells, (overlapMatrix old groups)[key]? = some cells ∧ _ :=
          overlapMatrix_row hkey
        exact ⟨_, .kept hkey haccepted hbefore hcells, by simp [keptRows, hchanged]⟩
    | retired hbefore hoffer => exact ⟨_, .retired hbefore hoffer, List.mem_singleton.mpr rfl⟩
    | merged hoffer haccepted hlost =>
        obtain ⟨fragment, hcell, _⟩ := offers_spec hoffer
        exact ⟨_, .merged hoffer haccepted hlost hcell, List.mem_singleton.mpr rfl⟩
    | orphan horphan hid => exact ⟨_, .orphan horphan hid, List.mem_singleton.mpr rfl⟩

theorem mem_keptRows_events {entity : E} {members before : Finset R}
    {event : PlannedEvent R E H} :
    event ∈ (keptRows old digest entity members before).events ↔
      (joined old members ≠ [] ∧
        event = .new digest entity .memberAdded { memberKeys := joined old members }) ∨
      ((before \ members).sort ≠ [] ∧ event = .new digest entity .memberRemoved
        { memberKeys := (before \ members).sort, cause := some .recluster }) := by
  rw [keptRows, List.mem_append]
  by_cases hjoined : joined old members = [] <;> by_cases hleft : (before \ members).sort = [] <;>
    simp only [ne_eq, hjoined, hleft, not_true_eq_false, not_false_eq_true, if_true, if_false,
      List.not_mem_nil, List.mem_singleton, true_and, false_and, or_false, false_or]

/-- The events pushed by the loops are the events by case, each with the digest of its
own details. -/
theorem exists_rowOf_event_iff {event : PlannedEvent R E H} :
    (∃ rows, RowOf old groups digest factory rows ∧ event ∈ rows.events) ↔
      PlansEvent old groups factory event.entityId event.eventType event.details ∧
        event.detailsHash = digest event.details := by
  -- A row of the matrix is the row of cells that the split events walk.
  have hrowCells {key : R} {members : Finset R} (hkey : groups[key]? = some members)
      {cells : BTreeMap E (Finset R)} (hcells : (overlapMatrix old groups)[key]? = some cells)
      (entity : E) (fragment : Finset R) : cells[entity]? = some fragment ↔
        BTreeMap.cell? (overlapMatrix old groups) key entity = some fragment := by
    simp [BTreeMap.cell?, hcells]
  constructor
  · rintro ⟨_, hrow, hmem⟩
    cases hrow with
    | created hkey hunclaimed hid hcells =>
        rcases List.mem_append.mp hmem with hmem | hmem
        · obtain rfl := List.mem_singleton.mp hmem
          exact ⟨.created hkey hunclaimed hid, rfl⟩
        · obtain ⟨from_, fragment, hfragment, helsewhere, rfl⟩ := mem_splitEvents.mp hmem
          exact ⟨.split hkey ((holder_of_unclaimed hunclaimed).trans hid)
            ((hrowCells hkey hcells _ _).mp hfragment) helsewhere, rfl⟩
    | kept hkey haccepted hbefore hcells =>
        rcases List.mem_append.mp hmem with hmem | hmem
        · rcases mem_keptRows_events.mp hmem with ⟨hjoined, rfl⟩ | ⟨hleft, rfl⟩
          · exact ⟨.memberAdded hkey haccepted hjoined, rfl⟩
          · exact ⟨.memberRemoved hkey haccepted hbefore hleft, rfl⟩
        · obtain ⟨from_, fragment, hfragment, helsewhere, rfl⟩ := mem_splitEvents.mp hmem
          exact ⟨.split hkey (holder_of_accepted haccepted)
            ((hrowCells hkey hcells _ _).mp hfragment) helsewhere, rfl⟩
    | survives hoffer haccepted => simp at hmem
    | retired hbefore hoffer =>
        obtain rfl := List.mem_singleton.mp hmem
        exact ⟨.retired hbefore hoffer, rfl⟩
    | merged hoffer haccepted hlost hcell =>
        obtain rfl := List.mem_singleton.mp hmem
        exact ⟨.merged hoffer haccepted hlost hcell, rfl⟩
    | orphan horphan hid =>
        obtain rfl := List.mem_singleton.mp hmem
        exact ⟨.orphan horphan hid, rfl⟩
  · obtain ⟨id, eventType, details, hash⟩ := event
    rintro ⟨hrow, hhash⟩
    obtain rfl : hash = digest details := hhash
    have hmatrix {key : R} {members : Finset R} (hkey : groups[key]? = some members) :
        ∃ cells, (overlapMatrix old groups)[key]? = some cells :=
      (overlapMatrix_row hkey).imp fun _ h => h.1
    cases hrow with
    | created hkey hunclaimed hid =>
        obtain ⟨cells, hcells⟩ := hmatrix hkey
        exact ⟨_, .created hkey hunclaimed hid hcells,
          List.mem_append_left _ (List.mem_singleton.mpr rfl)⟩
    | memberAdded hkey haccepted hjoined =>
        obtain ⟨cells, hcells⟩ := hmatrix hkey
        obtain ⟨before, hbefore⟩ := accepted_old haccepted
        exact ⟨_, .kept hkey haccepted hbefore hcells,
          List.mem_append_left _ (mem_keptRows_events.mpr (.inl ⟨hjoined, rfl⟩))⟩
    | memberRemoved hkey haccepted hbefore hleft =>
        obtain ⟨cells, hcells⟩ := hmatrix hkey
        exact ⟨_, .kept hkey haccepted hbefore hcells,
          List.mem_append_left _ (mem_keptRows_events.mpr (.inr ⟨hleft, rfl⟩))⟩
    | @split key members fragment _ from_ hkey hholder hfragment helsewhere =>
        obtain ⟨cells, hcells⟩ := hmatrix hkey
        have hmem : PlannedEvent.new digest id .split
            { memberKeys := fragment.sort, splitFrom := some from_ } ∈
              splitEvents old groups digest key id cells :=
          mem_splitEvents.mpr
            ⟨from_, fragment, (hrowCells hkey hcells _ _).mpr hfragment, helsewhere, rfl⟩
        cases haccepted : (accepted old groups)[key]? with
        | none =>
            rw [holder_of_unclaimed haccepted] at hholder
            exact ⟨_, .created hkey haccepted hholder hcells, List.mem_append_right _ hmem⟩
        | some entity =>
            obtain ⟨before, hbefore⟩ := accepted_old haccepted
            rw [holder_of_accepted haccepted, Option.some.injEq] at hholder
            subst hholder
            exact ⟨_, .kept hkey haccepted hbefore hcells, List.mem_append_right _ hmem⟩
    | retired hbefore hoffer => exact ⟨_, .retired hbefore hoffer, List.mem_singleton.mpr rfl⟩
    | merged hoffer haccepted hlost hcell =>
        exact ⟨_, .merged hoffer haccepted hlost hcell, List.mem_singleton.mpr rfl⟩
    | orphan horphan hid => exact ⟨_, .orphan horphan hid, List.mem_singleton.mpr rfl⟩

/-! ## Rows do not collide -/

/-- The records that one iteration reassigns. -/
def PlanRows.recordKeys (rows : PlanRows R E H) : List R :=
  rows.assignments.map MembershipAssignment.recordKey

/-- The entities that one iteration moves to another status. -/
def PlanRows.entityIds (rows : PlanRows R E H) : List E :=
  rows.transitions.map EntityTransition.entityId

/-- A fresh factory for a plan: distinct ids, none of an old entity. -/
abbrev FreshFor (factory : IdFactory E) (old : BTreeMap E (Finset R)) : Prop :=
  factory.Fresh fun id => ∃ before, old[id]? = some before

theorem FreshFor.minted_not_old (hfresh : FreshFor factory old) (hgroups : CanonicalGroups groups)
    {key : R} {id : E} (hid : (mintedIds old groups factory)[key]? = some id)
    (before : Finset R) : old[id]? ≠ some before :=
  mintedId_not_old hgroups (fun i before h => hfresh.unused i ⟨before, h⟩) hid before

theorem holder_injective (hfresh : FreshFor factory old) (hgroups : CanonicalGroups groups)
    {first second : R} {entity : E} (hfirst : holder old groups factory first = some entity)
    (hsecond : holder old groups factory second = some entity) : first = second := by
  have hmixed {accepting minting : R} (haccepted : (accepted old groups)[accepting]? = some entity)
      (hid : (mintedIds old groups factory)[minting]? = some entity) : False := by
    obtain ⟨before, hbefore⟩ := accepted_old haccepted
    exact hfresh.minted_not_old hgroups hid before hbefore
  cases hleft : (accepted old groups)[first]? with
  | some claimant =>
      rw [holder_of_accepted hleft] at hfirst
      rw [hfirst] at hleft
      cases hright : (accepted old groups)[second]? with
      | some claimant' =>
          rw [holder_of_accepted hright] at hsecond
          rw [hsecond] at hright
          exact accepted_injective hleft hright
      | none =>
          rw [holder_of_unclaimed hright] at hsecond
          exact (hmixed hleft hsecond).elim
  | none =>
      rw [holder_of_unclaimed hleft] at hfirst
      cases hright : (accepted old groups)[second]? with
      | some claimant' =>
          rw [holder_of_accepted hright] at hsecond
          rw [hsecond] at hright
          exact (hmixed hright hfirst).elim
      | none =>
          rw [holder_of_unclaimed hright] at hsecond
          exact mintedIds_injective hgroups hfresh.distinct hfirst hsecond

/-- One iteration of the group loop touches records of its group and its holder only. -/
theorem groupRows_bounds {key : R} {members : Finset R} {rows : PlanRows R E H}
    (hrows : groupRows old groups digest factory key members = some rows) :
    rows.recordKeys.Nodup ∧ (∀ record ∈ rows.recordKeys, record ∈ members) ∧
      rows.entityIds.Nodup ∧
      ∀ entity ∈ rows.entityIds, holder old groups factory key = some entity := by
  simp only [groupRows, Option.pure_def, Option.bind_eq_bind, Option.bind_eq_some_iff,
    Option.some.injEq] at hrows
  obtain ⟨entityId, hholder, own, hown, cells, _, rfl⟩ := hrows
  have htransitions : own.transitions = [] ∨
      ∃ isNew, own.transitions = [⟨entityId, .active, none, isNew⟩] := by
    rw [ownRows] at hown
    split at hown
    · obtain rfl := Option.some.inj hown
      exact .inr ⟨true, rfl⟩
    · obtain ⟨before, _, rfl⟩ := Option.map_eq_some_iff.mp hown
      by_cases hchanged : before = members
      · exact .inl (by simp [keptRows, hchanged])
      · exact .inr ⟨false, by simp [keptRows, hchanged]⟩
  have hkeys : (groupAssignments old entityId members).map MembershipAssignment.recordKey =
      members.sort.filter fun member => (entityOfRecord old)[member]? ≠ some entityId := by
    simp [groupAssignments, Function.comp_def]
  refine ⟨?_, ?_, ?_, ?_⟩
  · rw [PlanRows.recordKeys, hkeys]
    exact (Finset.sort_nodup _ _).filter _
  · intro record hrecord
    rw [PlanRows.recordKeys, hkeys] at hrecord
    simpa using (List.mem_filter.mp hrecord).1
  · rcases htransitions with h | ⟨_, h⟩ <;> simp [PlanRows.entityIds, h]
  · intro entity hentity
    rcases htransitions with h | ⟨_, h⟩
    · simp [PlanRows.entityIds, h] at hentity
    · simp only [PlanRows.entityIds, h, List.map_cons, List.map_nil,
        List.mem_singleton] at hentity
      exact hentity ▸ hholder

/-- One iteration of the old-entity loop reassigns nothing and touches its own entity,
and that one only when no group accepted it. -/
theorem oldEntityRows_bounds {entity : E} {rows : PlanRows R E H} {before : Finset R}
    (hbefore : old[entity]? = some before)
    (hrows : oldEntityRows old groups digest entity = some rows) :
    rows.recordKeys = [] ∧ rows.entityIds.Nodup ∧ ∀ other ∈ rows.entityIds, other = entity ∧
      ∀ key : R, (accepted old groups)[key]? ≠ some entity := by
  rcases oldEntity_cases old groups entity with hoffer | ⟨key, hoffer, haccepted⟩ |
    ⟨key, claimant, fragment, hoffer, haccepted, hlost, hcell⟩
  · obtain rfl := Option.some.inj ((oldEntityRows_of_retired hbefore hoffer).symm.trans hrows)
    refine ⟨rfl, by simp [PlanRows.entityIds, retiredRows], fun other hother => ?_⟩
    refine ⟨by simpa [PlanRows.entityIds, retiredRows] using hother, fun key haccepted => ?_⟩
    rw [(accepted_spec haccepted).1] at hoffer
    cases hoffer
  · obtain rfl := Option.some.inj ((oldEntityRows_of_kept hoffer haccepted).symm.trans hrows)
    exact ⟨rfl, by simp [PlanRows.entityIds], by simp [PlanRows.entityIds]⟩
  · obtain rfl := Option.some.inj
      ((oldEntityRows_of_merged hoffer haccepted hlost hcell).symm.trans hrows)
    refine ⟨rfl, by simp [PlanRows.entityIds, mergedRows], fun other hother => ?_⟩
    refine ⟨by simpa [PlanRows.entityIds, mergedRows] using hother, fun key' haccepted' => ?_⟩
    -- Its one offer went to `key`, which another entity claimed.
    obtain rfl := Option.some.inj ((accepted_spec haccepted').1.symm.trans hoffer)
    exact hlost (Option.some.inj (haccepted.symm.trans haccepted'))

/-- One iteration of the orphan loop touches its record and its fresh id only. -/
theorem orphanRows_bounds {record : R} {rows : PlanRows R E H}
    (hrows : orphanRows old groups digest factory record = some rows) :
    rows.recordKeys = [record] ∧ ∃ id, (mintedIds old groups factory)[record]? = some id ∧
      rows.entityIds = [id] := by
  simp only [orphanRows, Option.pure_def, Option.bind_eq_bind, Option.bind_eq_some_iff,
    Option.some.injEq] at hrows
  obtain ⟨id, hid, rfl⟩ := hrows
  exact ⟨rfl, id, hid, rfl⟩

/-- Two iterations that reassign no record in common and move no entity in common. -/
def PlanRows.Apart (first second : PlanRows R E H) : Prop :=
  first.recordKeys.Disjoint second.recordKeys ∧ first.entityIds.Disjoint second.entityIds

/-- Two groups share no record and no holder. -/
theorem groupRows_apart (hfresh : FreshFor factory old) (hgroups : CanonicalGroups groups)
    {key key' : R} {members members' : Finset R} {rows rows' : PlanRows R E H} (hne : key ≠ key')
    (hkey : groups[key]? = some members) (hkey' : groups[key']? = some members')
    (hrows : groupRows old groups digest factory key members = some rows)
    (hrows' : groupRows old groups digest factory key' members' = some rows') :
    rows.Apart rows' := by
  constructor
  · intro record hmem hmem'
    exact hne (hgroups.disjoint.owner_unique hkey hkey' ((groupRows_bounds hrows).2.1 record hmem)
      ((groupRows_bounds hrows').2.1 record hmem'))
  · intro entity hmem hmem'
    exact hne (holder_injective hfresh hgroups ((groupRows_bounds hrows).2.2.2 entity hmem)
      ((groupRows_bounds hrows').2.2.2 entity hmem'))

/-- A group's holder was accepted or minted, a moved old entity neither. -/
theorem groupRows_oldEntityRows_apart (hfresh : FreshFor factory old)
    (hgroups : CanonicalGroups groups) {key : R} {entity : E} {members before : Finset R}
    {rows rows' : PlanRows R E H} (hbefore : old[entity]? = some before)
    (hrows : groupRows old groups digest factory key members = some rows)
    (hrows' : oldEntityRows old groups digest entity = some rows') : rows.Apart rows' := by
  obtain ⟨hrecords, _, hids⟩ := oldEntityRows_bounds hbefore hrows'
  refine ⟨by simp [hrecords], fun other hmem hmem' => ?_⟩
  obtain ⟨rfl, hnever⟩ := hids other hmem'
  have hholder := (groupRows_bounds hrows).2.2.2 other hmem
  cases haccepted : (accepted old groups)[key]? with
  | some claimant =>
      rw [holder_of_accepted haccepted] at hholder
      exact hnever key (haccepted.trans hholder)
  | none =>
      rw [holder_of_unclaimed haccepted] at hholder
      exact hfresh.minted_not_old hgroups hholder before hbefore

/-- An orphan is in no group, and no group's key is an orphan. -/
theorem groupRows_orphanRows_apart (hfresh : FreshFor factory old)
    (hgroups : CanonicalGroups groups) {key record : R} {members : Finset R}
    {rows rows' : PlanRows R E H} (hkey : groups[key]? = some members)
    (hrecord : record ∈ orphans old groups)
    (hrows : groupRows old groups digest factory key members = some rows)
    (hrows' : orphanRows old groups digest factory record = some rows') : rows.Apart rows' := by
  obtain ⟨hrecords, id, hid, hids⟩ := orphanRows_bounds hrows'
  rw [PlanRows.Apart, hrecords, hids]
  refine ⟨fun other hmem hmem' => ?_, fun other hmem hmem' => ?_⟩
  · obtain rfl := List.mem_singleton.mp hmem'
    exact (mem_orphans.mp hrecord).2 (mem_clustered.mpr
      ⟨key, members, hkey, (groupRows_bounds hrows).2.1 _ hmem⟩)
  · obtain rfl := List.mem_singleton.mp hmem'
    have hholder := (groupRows_bounds hrows).2.2.2 _ hmem
    cases haccepted : (accepted old groups)[key]? with
    | some claimant =>
        rw [holder_of_accepted haccepted] at hholder
        obtain ⟨before, hbefore⟩ := accepted_old (haccepted.trans hholder)
        exact hfresh.minted_not_old hgroups hid before hbefore
    | none =>
        rw [holder_of_unclaimed haccepted] at hholder
        obtain rfl := mintedIds_injective hgroups hfresh.distinct hholder hid
        exact (mem_orphans.mp hrecord).2 (mem_clustered.mpr
          ⟨_, members, hkey, hgroups.key_mem hkey⟩)

/-- A moved old entity is not minted. -/
theorem oldEntityRows_orphanRows_apart (hfresh : FreshFor factory old)
    (hgroups : CanonicalGroups groups) {entity : E} {record : R} {before : Finset R}
    {rows rows' : PlanRows R E H} (hbefore : old[entity]? = some before)
    (hrows : oldEntityRows old groups digest entity = some rows)
    (hrows' : orphanRows old groups digest factory record = some rows') : rows.Apart rows' := by
  obtain ⟨_, id, hid, hids⟩ := orphanRows_bounds hrows'
  obtain ⟨hempty, _, hmoved⟩ := oldEntityRows_bounds hbefore hrows
  rw [PlanRows.Apart, hids]
  refine ⟨by simp [hempty], fun other hmem hmem' => ?_⟩
  obtain rfl := List.mem_singleton.mp hmem'
  obtain rfl := (hmoved _ hmem).1
  exact hfresh.minted_not_old hgroups hid before hbefore

/-- Two old entities move apart. -/
theorem oldEntityRows_apart {first second : E} {before before' : Finset R}
    {left right : PlanRows R E H} (hne : first ≠ second) (hbefore : old[first]? = some before)
    (hbefore' : old[second]? = some before')
    (hleft : oldEntityRows old groups digest first = some left)
    (hright : oldEntityRows old groups digest second = some right) : left.Apart right := by
  obtain ⟨hrecords, _, hids⟩ := oldEntityRows_bounds hbefore hleft
  obtain ⟨_, _, hids'⟩ := oldEntityRows_bounds hbefore' hright
  exact ⟨by simp [hrecords], fun entity hmem hmem' =>
    hne ((hids entity hmem).1.symm.trans (hids' entity hmem').1)⟩

/-- Two orphans are different records and draw different ids. -/
theorem orphanRows_apart (hfresh : FreshFor factory old) (hgroups : CanonicalGroups groups)
    {first second : R} {left right : PlanRows R E H} (hne : first ≠ second)
    (hleft : orphanRows old groups digest factory first = some left)
    (hright : orphanRows old groups digest factory second = some right) : left.Apart right := by
  obtain ⟨hrecords, id, hid, hids⟩ := orphanRows_bounds hleft
  obtain ⟨hrecords', id', hid', hids'⟩ := orphanRows_bounds hright
  refine ⟨by simpa [hrecords, hrecords'] using hne.symm, ?_⟩
  rw [hids, hids']
  intro entity hmem hmem'
  obtain rfl := List.mem_singleton.mp hmem
  obtain rfl := List.mem_singleton.mp hmem'
  exact hne (mintedIds_injective hgroups hfresh.distinct hid hid')

/-- No two iterations reassign one record or move one entity. -/
theorem planRows_disjoint (hfresh : FreshFor factory old) (hgroups : CanonicalGroups groups)
    {rows : List (PlanRows R E H)} (hrows : planRows old groups digest factory = some rows) :
    (∀ row ∈ rows, row.recordKeys.Nodup ∧ row.entityIds.Nodup) ∧
      rows.Pairwise PlanRows.Apart := by
  simp only [planRows, Option.pure_def, Option.bind_eq_bind, Option.bind_eq_some_iff,
    Option.some.injEq] at hrows
  obtain ⟨groupPart, hgroupPart, oldPart, holdPart, orphanPart, horphanPart, rfl⟩ := hrows
  -- Where each part's rows come from, with the bounds of their loop bodies.
  have hgroup {row : PlanRows R E H} (hrow : row ∈ groupPart) : ∃ (key : R) (members : Finset R),
      groups[key]? = some members ∧ groupRows old groups digest factory key members = some row := by
    obtain ⟨entry, hentry, hbody⟩ := (mem_of_mapM_eq_some hgroupPart).mp hrow
    exact ⟨entry.1, entry.2, BTreeMap.mem_toList.mp hentry, hbody⟩
  have hold {row : PlanRows R E H} (hrow : row ∈ oldPart) : ∃ (entity : E) (before : Finset R),
      old[entity]? = some before ∧ oldEntityRows old groups digest entity = some row := by
    obtain ⟨entity, hentity, hbody⟩ := (mem_of_mapM_eq_some holdPart).mp hrow
    obtain ⟨before, hbefore⟩ :=
      BTreeMap.mem_iff_exists_getElem?.mp (Std.ExtTreeMap.mem_keys.mp hentity)
    exact ⟨entity, before, hbefore, hbody⟩
  have horphan {row : PlanRows R E H} (hrow : row ∈ orphanPart) : ∃ record,
      record ∈ orphans old groups ∧ orphanRows old groups digest factory record = some row := by
    obtain ⟨record, hrecord, hbody⟩ := (mem_of_mapM_eq_some horphanPart).mp hrow
    exact ⟨record, hrecord, hbody⟩
  constructor
  · intro row hrow
    rcases List.mem_append.mp hrow with hrow | hrow
    · rcases List.mem_append.mp hrow with hrow | hrow
      · obtain ⟨key, members, _, hbody⟩ := hgroup hrow
        exact ⟨(groupRows_bounds hbody).1, (groupRows_bounds hbody).2.2.1⟩
      · obtain ⟨entity, before, hbefore, hbody⟩ := hold hrow
        obtain ⟨hrecords, hids, _⟩ := oldEntityRows_bounds hbefore hbody
        exact ⟨by simp [hrecords], hids⟩
    · obtain ⟨record, _, hbody⟩ := horphan hrow
      obtain ⟨hrecords, id, _, hids⟩ := orphanRows_bounds hbody
      exact ⟨by simp [hrecords], by simp [hids]⟩
  · refine List.pairwise_append.mpr ⟨List.pairwise_append.mpr ⟨?_, ?_, ?_⟩, ?_, ?_⟩
    · refine pairwise_of_mapM_eq_some hgroupPart (BTreeMap.toList_pairwise_lt groups) ?_
      intro first second left right hfirst hsecond hlt hleft hright
      exact groupRows_apart hfresh hgroups (ne_of_lt hlt) (BTreeMap.mem_toList.mp hfirst)
        (BTreeMap.mem_toList.mp hsecond) hleft hright
    · refine pairwise_of_mapM_eq_some holdPart (BTreeMap.keys_nodup old) ?_
      intro first second left right hfirst hsecond hne hleft hright
      obtain ⟨before, hbefore⟩ :=
        BTreeMap.mem_iff_exists_getElem?.mp (Std.ExtTreeMap.mem_keys.mp hfirst)
      obtain ⟨before', hbefore'⟩ :=
        BTreeMap.mem_iff_exists_getElem?.mp (Std.ExtTreeMap.mem_keys.mp hsecond)
      exact oldEntityRows_apart hne hbefore hbefore' hleft hright
    · intro first hfirst second hsecond
      obtain ⟨key, members, _, hleft⟩ := hgroup hfirst
      obtain ⟨entity, before, hbefore, hright⟩ := hold hsecond
      exact groupRows_oldEntityRows_apart hfresh hgroups hbefore hleft hright
    · have hnodup : (orphans old groups).Nodup := (BTreeMap.keys_nodup _).filter _
      refine pairwise_of_mapM_eq_some horphanPart hnodup ?_
      intro first second left right _ _ hne hleft hright
      exact orphanRows_apart hfresh hgroups hne hleft hright
    · intro first hfirst second hsecond
      obtain ⟨record, hrecord, hright⟩ := horphan hsecond
      rcases List.mem_append.mp hfirst with hfirst | hfirst
      · obtain ⟨key, members, hkey, hleft⟩ := hgroup hfirst
        exact groupRows_orphanRows_apart hfresh hgroups hkey hrecord hleft hright
      · obtain ⟨entity, before, hbefore, hleft⟩ := hold hfirst
        exact oldEntityRows_orphanRows_apart hfresh hgroups hbefore hleft hright

end Bodies

end EntityResolution.Reconcile
