/-
# Where a reconcile leaves every record

A plan is applied by overwriting the old record-to-entity map with its assignments.
The result has a description that does not mention the plan at all: a clustered record
lands with the holder of its group, an orphan lands alone. This module proves that
description once, and with it that a plan reassigns the right records, keeps ids the
way INV-PERM promises, and does not depend on the order in which the clustering lists
its groups and members.
-/

import EntityResolution.Reconcile.PlanSpec

namespace EntityResolution.Reconcile

open EntityResolution.Collections EntityResolution.Identity

universe u

variable {R E H : Type u} [LinearOrder R] [LinearOrder E] [LinearOrder H]

/-- Everything later results use about a plan, in terms of the maps it was made from. -/
structure PlanFacts (old : BTreeMap E (Finset R)) (groups : BTreeMap R (Finset R))
    (digest : EventDetails R E → H) (factory : IdFactory E) (plan : ReconcilePlan R E H) :
    Prop where
  mem_assignments : ∀ row, row ∈ plan.assignments ↔
    Lands old groups factory row.recordKey row.entityId ∧
      (entityOfRecord old)[row.recordKey]? ≠ some row.entityId
  assignments_nodup : (plan.assignments.map MembershipAssignment.recordKey).Nodup
  mem_transitions : ∀ row, row ∈ plan.transitions ↔ PlansTransition old groups factory row
  transitions_nodup : (plan.transitions.map EntityTransition.entityId).Nodup
  mem_events : ∀ event, event ∈ plan.events ↔
    PlansEvent old groups factory event.entityId event.eventType event.details ∧
      event.detailsHash = digest event.details
  minted : plan.minted = (List.range (mintKeys old groups).length).map factory.draw

section Facts

variable {old : BTreeMap E (Finset R)} {groups : BTreeMap R (Finset R)}
  {digest : EventDetails R E → H} {factory : IdFactory E}

omit [LinearOrder H] in
/-- The assignments pushed by the loops are the landings that change a record's entity.
An orphan's row is pushed unconditionally; its id is fresh, so it is a change too. -/
theorem exists_rowOf_assignment_iff (hold : BTreeMap.SetsDisjoint old)
    (hgroups : CanonicalGroups groups) (hfresh : FreshFor factory old)
    {row : MembershipAssignment R E} :
    (∃ rows, RowOf old groups digest factory rows ∧ row ∈ rows.assignments) ↔
      Lands old groups factory row.recordKey row.entityId ∧
        (entityOfRecord old)[row.recordKey]? ≠ some row.entityId := by
  constructor
  · rintro ⟨_, hrow, hmem⟩
    cases hrow with
    | created hkey hunclaimed hid hcells =>
        obtain ⟨hmember, hchanged, rfl⟩ := mem_groupAssignments.mp hmem
        exact ⟨.grouped hkey hmember ((holder_of_unclaimed hunclaimed).trans hid), hchanged⟩
    | kept hkey haccepted hbefore hcells =>
        obtain ⟨hmember, hchanged, rfl⟩ := mem_groupAssignments.mp hmem
        exact ⟨.grouped hkey hmember (holder_of_accepted haccepted), hchanged⟩
    | survives hoffer haccepted => simp at hmem
    | retired hbefore hoffer => simp [retiredRows] at hmem
    | merged hoffer haccepted hlost hcell => simp [mergedRows] at hmem
    | orphan horphan hid =>
        obtain rfl := List.mem_singleton.mp hmem
        refine ⟨.orphan horphan hid, fun hsame => ?_⟩
        obtain ⟨before, hbefore, _⟩ := (BTreeMap.ownerOf_eq_some_iff hold).mp hsame
        exact hfresh.minted_not_old hgroups hid before hbefore
  · obtain ⟨record, entity⟩ := row
    rintro ⟨hlands, hchanged⟩
    cases hlands with
    | @grouped key _ members _ hkey hmember hholder =>
        obtain ⟨cells, hcells, _⟩ : ∃ cells, (overlapMatrix old groups)[key]? = some cells ∧ _ :=
          overlapMatrix_row hkey
        have hmem : (⟨record, entity⟩ : MembershipAssignment R E) ∈
            groupAssignments old entity members :=
          mem_groupAssignments.mpr ⟨hmember, hchanged, rfl⟩
        cases haccepted : (accepted old groups)[key]? with
        | none =>
            rw [holder_of_unclaimed haccepted] at hholder
            exact ⟨_, .created hkey haccepted hholder hcells, hmem⟩
        | some claimant =>
            obtain ⟨before, hbefore⟩ := accepted_old haccepted
            rw [holder_of_accepted haccepted, Option.some.injEq] at hholder
            subst hholder
            exact ⟨_, .kept hkey haccepted hbefore hcells, hmem⟩
    | orphan horphan hid => exact ⟨_, .orphan horphan hid, List.mem_singleton.mpr rfl⟩

theorem exists_planOf (hold : BTreeMap.SetsDisjoint old) (hgroups : CanonicalGroups groups)
    (hfresh : FreshFor factory old) :
    ∃ plan, planOf old groups digest factory = some plan ∧
      PlanFacts old groups digest factory plan := by
  obtain ⟨rows, hrows⟩ : ∃ rows, planRows old groups digest factory = some rows :=
    exists_planRows hgroups
  have hminted : (mintKeys old groups).mapM (fun key => (mintedIds old groups factory)[key]?) =
      some ((List.range (mintKeys old groups).length).map factory.draw) := by
    obtain ⟨ids, hids⟩ : ∃ ids, (mintKeys old groups).mapM
        (fun key => (mintedIds old groups factory)[key]?) = some ids :=
      exists_mapM_eq_some fun key hkey => exists_mintedId hgroups hkey
    have hpairs := forall₂_of_mapM_eq_some hids
    rw [hids]
    congr 1
    apply List.ext_getElem
    · simpa using hpairs.length_eq.symm
    · intro i hi hi'
      have hlt : i < (mintKeys old groups).length := by simpa using hi'
      have hget := hpairs.get hlt hi
      obtain ⟨j, hj, hdraw⟩ := (mintedIds_eq_some_iff hgroups).mp hget
      have hsame : i = j := by
        have hj' := List.getElem?_eq_some_iff.mp hj
        exact ((mintKeys_nodup hgroups).getElem_inj_iff.mp hj'.2).symm
      subst hsame
      simpa using hdraw
  refine ⟨_, by simp [planOf, hrows, hminted]; rfl, ?_⟩
  have hflat {A : Type u} (field : PlanRows R E H → List A) (item : A) :
      item ∈ rows.flatMap field ↔
        ∃ row, RowOf old groups digest factory row ∧ item ∈ field row := by
    simp only [List.mem_flatMap, mem_planRows hgroups hrows]
  obtain ⟨hown, hapart⟩ := planRows_disjoint hfresh hgroups hrows
  refine ⟨fun row => ?_, ?_, fun row => ?_, ?_, fun event => ?_, rfl⟩
  · rw [List.mem_insertionSort, hflat]
    exact exists_rowOf_assignment_iff hold hgroups hfresh
  · rw [((List.perm_insertionSort _ _).map _).nodup_iff, List.map_flatMap, List.nodup_flatMap]
    exact ⟨fun row hrow => (hown row hrow).1, hapart.imp fun h => h.1⟩
  · rw [List.mem_insertionSort, hflat]
    exact exists_rowOf_transition_iff
  · rw [((List.perm_insertionSort _ _).map _).nodup_iff, List.map_flatMap, List.nodup_flatMap]
    exact ⟨fun row hrow => (hown row hrow).2, hapart.imp fun h => h.2⟩
  · rw [sortPlannedEvents, List.mem_insertionSort, hflat]
    exact exists_rowOf_event_iff

omit [LinearOrder H] in
/-- A record lands in one place. -/
theorem Lands.unique (hgroups : CanonicalGroups groups) {record : R} {first second : E}
    (hfirst : Lands old groups factory record first)
    (hsecond : Lands old groups factory record second) : first = second := by
  have hmixed {key : R} {members : Finset R} (hkey : groups[key]? = some members)
      (hmem : record ∈ members) (horphan : record ∈ orphans old groups) : False :=
    (mem_orphans.mp horphan).2 (mem_clustered.mpr ⟨key, members, hkey, hmem⟩)
  cases hfirst with
  | grouped hkey hmem hholder =>
      cases hsecond with
      | grouped hkey' hmem' hholder' =>
          obtain rfl := hgroups.disjoint.owner_unique hkey hkey' hmem hmem'
          exact Option.some.inj (hholder.symm.trans hholder')
      | orphan horphan hid => exact (hmixed hkey hmem horphan).elim
  | orphan horphan hid =>
      cases hsecond with
      | grouped hkey' hmem' hholder' => exact (hmixed hkey' hmem' horphan).elim
      | orphan horphan' hid' => exact Option.some.inj (hid.symm.trans hid')

omit [LinearOrder H] in
theorem exists_lands (hgroups : CanonicalGroups groups) {record : R}
    (hknown : record ∈ clustered groups ∨ ∃ entity, (entityOfRecord old)[record]? = some entity) :
    ∃ entity, Lands old groups factory record entity := by
  by_cases hclustered : record ∈ clustered groups
  · obtain ⟨key, members, hkey, hmem⟩ := mem_clustered.mp hclustered
    obtain ⟨entity, hholder⟩ : ∃ entity, holder old groups factory key = some entity :=
      exists_holder hgroups hkey
    exact ⟨entity, .grouped hkey hmem hholder⟩
  · have horphan : record ∈ orphans old groups :=
      mem_orphans.mpr ⟨hknown.resolve_left hclustered, hclustered⟩
    obtain ⟨id, hid⟩ : ∃ id, (mintedIds old groups factory)[record]? = some id :=
      exists_mintedId hgroups (mem_mintKeys.mpr (.inr horphan))
    exact ⟨id, .orphan horphan hid⟩

end Facts

/-- The old record-to-entity map. -/
def membershipBefore (pOld : BTreeMap E (List R)) : BTreeMap R E :=
  entityOfRecord (oldSets pOld)

/-- The assignments as rows of the record-to-entity map. -/
def ReconcilePlan.rows (plan : ReconcilePlan R E H) : List (R × E) :=
  plan.assignments.map fun row => (row.recordKey, row.entityId)

/-- Overwrite a record-to-entity map with a plan's assignments. -/
def ReconcilePlan.reassign (plan : ReconcilePlan R E H) (membership : BTreeMap R E) :
    BTreeMap R E :=
  membership.insertMany plan.rows

omit [LinearOrder R] [LinearOrder E] [LinearOrder H] in
theorem ReconcilePlan.rows_map_fst (plan : ReconcilePlan R E H) :
    plan.rows.map Prod.fst = plan.assignments.map MembershipAssignment.recordKey := by
  simp [rows, Function.comp_def]

omit [LinearOrder R] [LinearOrder E] [LinearOrder H] in
theorem ReconcilePlan.mem_rows {plan : ReconcilePlan R E H} {record : R} {entity : E} :
    (record, entity) ∈ plan.rows ↔ ⟨record, entity⟩ ∈ plan.assignments := by
  simp only [rows, List.mem_map, Prod.mk.injEq]
  exact ⟨fun ⟨row, hrow, hrecord, hentity⟩ => by rw [← hrecord, ← hentity]; exact hrow,
    fun hrow => ⟨_, hrow, rfl, rfl⟩⟩

omit [LinearOrder H] in
theorem PlanFacts.reassign_eq_some_iff {old : BTreeMap E (Finset R)}
    {groups : BTreeMap R (Finset R)} {digest : EventDetails R E → H} {factory : IdFactory E}
    {plan : ReconcilePlan R E H} (hplan : PlanFacts old groups digest factory plan)
    (hgroups : CanonicalGroups groups) {record : R} {entity : E} :
    (plan.reassign (entityOfRecord old))[record]? = some entity ↔
      Lands old groups factory record entity := by
  have hrow (record : R) (entity : E) : (record, entity) ∈ plan.rows ↔
      Lands old groups factory record entity ∧ (entityOfRecord old)[record]? ≠ some entity :=
    ReconcilePlan.mem_rows.trans (hplan.mem_assignments ⟨record, entity⟩)
  have hnodup : (plan.rows.map Prod.fst).Nodup := by
    rw [plan.rows_map_fst]
    exact hplan.assignments_nodup
  rw [ReconcilePlan.reassign, BTreeMap.getElem?_insertMany_eq_some_iff hnodup]
  constructor
  · rintro (hmem | ⟨habsent, hbefore⟩)
    · exact ((hrow _ _).mp hmem).1
    · -- An unassigned old record lands where it already is.
      obtain ⟨other, hlands⟩ : ∃ other, Lands old groups factory record other :=
        exists_lands hgroups (.inr ⟨entity, hbefore⟩)
      by_cases hsame : other = entity
      · exact hsame ▸ hlands
      · have hchanged : (entityOfRecord old)[record]? ≠ some other := by
          rw [hbefore]
          exact fun h => hsame (Option.some.inj h).symm
        exact absurd (List.mem_map_of_mem ((hrow _ _).mpr ⟨hlands, hchanged⟩)) habsent
  · intro hlands
    by_cases hbefore : (entityOfRecord old)[record]? = some entity
    · refine .inr ⟨fun hmem => ?_, hbefore⟩
      obtain ⟨⟨_, other⟩, hother, rfl⟩ := List.mem_map.mp hmem
      obtain ⟨hlands', hchanged⟩ := (hrow _ _).mp hother
      exact hchanged (hlands.unique hgroups hlands' ▸ hbefore)
    · exact .inl ((hrow _ _).mpr ⟨hlands, hbefore⟩)

theorem membershipBefore_eq_some_iff {pOld : BTreeMap E (List R)} (hold : IsMembership pOld)
    {record : R} {entity : E} :
    (membershipBefore pOld)[record]? = some entity ↔
      ∃ members, pOld[entity]? = some members ∧ record ∈ members := by
  rw [membershipBefore, entityOfRecord, BTreeMap.ownerOf_eq_some_iff (oldSets_disjoint hold)]
  simp [oldSets_eq_some_iff]

theorem mem_of_oldSets {pOld : BTreeMap E (List R)} {entity : E} {before : Finset R}
    (hbefore : (oldSets pOld)[entity]? = some before) : entity ∈ pOld := by
  obtain ⟨members, hmembers, _⟩ := oldSets_eq_some_iff.mp hbefore
  exact BTreeMap.mem_iff_exists_getElem?.mpr ⟨members, hmembers⟩

theorem freshFor_oldSets {pOld : BTreeMap E (List R)} {factory : IdFactory E}
    (hfresh : factory.Fresh fun id => id ∈ pOld) : FreshFor factory (oldSets pOld) where
  distinct := hfresh.distinct
  unused i := by
    rintro ⟨before, hbefore⟩
    exact hfresh.unused i (mem_of_oldSets hbefore)

/-- A plan, the groups it was made on, and the promises that its inputs keep. -/
structure Planned (digest : EventDetails R E → H) (pOld : BTreeMap E (List R))
    (pNew : List (List R)) (factory : IdFactory E) (groups : BTreeMap R (Finset R))
    (plan : ReconcilePlan R E H) : Prop where
  membership : IsMembership pOld
  partition : IsPartition pNew
  fresh : factory.Fresh fun id => id ∈ pOld
  groups_eq_some_iff : ∀ (key : R) (members : Finset R), groups[key]? = some members ↔
    (∃ group ∈ pNew, group.toFinset = members) ∧ members.min = (key : WithTop R)
  facts : PlanFacts (oldSets pOld) groups digest factory plan

section Runs

variable {digest : EventDetails R E → H} {pOld : BTreeMap E (List R)} {pNew : List (List R)}
  {factory : IdFactory E}

theorem exists_planned (hold : IsMembership pOld) (hnew : IsPartition pNew)
    (hfresh : factory.Fresh fun id => id ∈ pOld) :
    ∃ groups plan, reconcilePlan digest pOld pNew factory = some plan ∧
      Planned digest pOld pNew factory groups plan := by
  obtain ⟨groups, hrun, hspec⟩ := canonicalGroups_spec hnew
  have hgroups : CanonicalGroups groups := canonicalGroups_canonical hnew hspec
  obtain ⟨plan, hplan, hfacts⟩ : ∃ plan, planOf (oldSets pOld) groups digest factory = some plan ∧
      PlanFacts (oldSets pOld) groups digest factory plan :=
    exists_planOf (oldSets_disjoint hold) hgroups (freshFor_oldSets hfresh)
  exact ⟨groups, plan, by simp [reconcilePlan, hrun, hplan], hold, hnew, hfresh, hspec, hfacts⟩

/-- Whatever the engine returned on well-formed inputs is such a plan. -/
theorem planned_of_reconcilePlan (hold : IsMembership pOld) (hnew : IsPartition pNew)
    (hfresh : factory.Fresh fun id => id ∈ pOld) {plan : ReconcilePlan R E H}
    (hrun : reconcilePlan digest pOld pNew factory = some plan) :
    ∃ groups, Planned digest pOld pNew factory groups plan := by
  obtain ⟨groups, plan', hrun', hplanned⟩ : ∃ groups plan,
      reconcilePlan digest pOld pNew factory = some plan ∧
        Planned digest pOld pNew factory groups plan := exists_planned hold hnew hfresh
  obtain rfl : plan' = plan := Option.some.inj (hrun'.symm.trans hrun)
  exact ⟨groups, hplanned⟩

namespace Planned

variable {groups : BTreeMap R (Finset R)} {plan : ReconcilePlan R E H}
  (hrun : Planned digest pOld pNew factory groups plan)

include hrun

omit [LinearOrder H]

theorem canonical : CanonicalGroups groups :=
  canonicalGroups_canonical hrun.partition hrun.groups_eq_some_iff

theorem disjoint : BTreeMap.SetsDisjoint (oldSets pOld) := oldSets_disjoint hrun.membership

theorem freshFor : FreshFor factory (oldSets pOld) := freshFor_oldSets hrun.fresh

theorem exists_key {group : List R} (hgroup : group ∈ pNew) :
    ∃ key : R, groups[key]? = some group.toFinset := by
  have hne : group.toFinset.Nonempty := by
    simpa [List.toFinset_nonempty_iff] using hrun.partition.nonempty group hgroup
  exact ⟨group.toFinset.min' hne,
    (hrun.groups_eq_some_iff _ _).mpr ⟨⟨group, hgroup, rfl⟩, (Finset.coe_min' hne).symm⟩⟩

theorem mem_clustered_iff {record : R} :
    record ∈ clustered groups ↔ ∃ group ∈ pNew, record ∈ group := by
  rw [mem_clustered]
  constructor
  · rintro ⟨key, members, hkey, hmem⟩
    obtain ⟨⟨group, hgroup, rfl⟩, _⟩ := (hrun.groups_eq_some_iff _ _).mp hkey
    exact ⟨group, hgroup, by simpa using hmem⟩
  · rintro ⟨group, hgroup, hmem⟩
    obtain ⟨key, hkey⟩ := hrun.exists_key hgroup
    exact ⟨key, group.toFinset, hkey, by simpa using hmem⟩

theorem after_eq_some_iff {record : R} {entity : E} :
    (plan.reassign (membershipBefore pOld))[record]? = some entity ↔
      Lands (oldSets pOld) groups factory record entity :=
  hrun.facts.reassign_eq_some_iff hrun.canonical

/-- A fresh id was drawn by this run and belongs to no old entity. -/
theorem mintedId_spec {key : R} {id : E}
    (hid : (mintedIds (oldSets pOld) groups factory)[key]? = some id) :
    id ∈ plan.minted ∧ id ∉ pOld := by
  obtain ⟨i, hi, rfl⟩ := (mintedIds_eq_some_iff hrun.canonical).mp hid
  constructor
  · rw [hrun.facts.minted]
    exact List.mem_map_of_mem (List.mem_range.mpr (List.getElem?_eq_some_iff.mp hi).1)
  · exact hrun.fresh.unused i

/-- Every id that a run mints gets a transition. -/
theorem transition_of_minted {id : E} (hid : id ∈ plan.minted) :
    ∃ transition, PlansTransition (oldSets pOld) groups factory transition ∧
      transition.entityId = id := by
  rw [hrun.facts.minted] at hid
  obtain ⟨i, hi, rfl⟩ := List.mem_map.mp hid
  rw [List.mem_range] at hi
  have hminted : (mintedIds (oldSets pOld) groups factory)[(mintKeys (oldSets pOld) groups)[i]]? =
      some (factory.draw i) :=
    (mintedIds_eq_some_iff hrun.canonical).mpr ⟨i, List.getElem?_eq_getElem hi, rfl⟩
  rcases mem_mintKeys.mp (List.getElem_mem hi) with ⟨⟨members, hkey⟩, hunclaimed⟩ | horphan
  · exact ⟨_, .created hkey hunclaimed hminted, rfl⟩
  · exact ⟨_, .orphan horphan hminted, rfl⟩

/-- Two records land together exactly when one group holds both, or when they are one
orphan. -/
theorem lands_together_iff {first second : R} {entity : E}
    (hfirst : Lands (oldSets pOld) groups factory first entity) :
    Lands (oldSets pOld) groups factory second entity ↔
      (∃ group ∈ pNew, first ∈ group ∧ second ∈ group) ∨
        first = second ∧ first ∈ orphans (oldSets pOld) groups := by
  have hcanonical := hrun.canonical
  have hfresh := hrun.freshFor
  -- An orphan's id is minted under its own key, which is no group's key.
  have hapart {key record : R} {members : Finset R} (hkey : groups[key]? = some members)
      (hholder : holder (oldSets pOld) groups factory key = some entity)
      (horphan : record ∈ orphans (oldSets pOld) groups)
      (hid : (mintedIds (oldSets pOld) groups factory)[record]? = some entity) : False := by
    cases haccepted : (accepted (oldSets pOld) groups)[key]? with
    | some claimant =>
        rw [holder_of_accepted haccepted, Option.some.injEq] at hholder
        obtain ⟨before, hbefore⟩ := accepted_old haccepted
        exact hfresh.minted_not_old hcanonical hid before (hholder ▸ hbefore)
    | none =>
        rw [holder_of_unclaimed haccepted] at hholder
        obtain rfl := mintedIds_injective hcanonical hfresh.distinct hholder hid
        exact (mem_orphans.mp horphan).2
          (mem_clustered.mpr ⟨key, members, hkey, hcanonical.key_mem hkey⟩)
  cases hfirst with
  | @grouped key _ members _ hkey hmem hholder =>
      obtain ⟨⟨group, hgroup, rfl⟩, _⟩ := (hrun.groups_eq_some_iff _ _).mp hkey
      have hmem' : first ∈ group := by simpa using hmem
      constructor
      · intro hsecond
        cases hsecond with
        | grouped hkey' hmember' hholder' =>
            obtain rfl := holder_injective hfresh hcanonical hholder hholder'
            obtain rfl := Option.some.inj (hkey.symm.trans hkey')
            exact .inl ⟨group, hgroup, hmem', by simpa using hmember'⟩
        | orphan horphan hid => exact (hapart hkey hholder horphan hid).elim
      · rintro (⟨other, hother, hin, hin'⟩ | ⟨rfl, _⟩)
        · obtain ⟨key', hkey'⟩ := hrun.exists_key hother
          obtain rfl := hcanonical.disjoint.owner_unique hkey hkey' hmem (by simpa using hin)
          exact .grouped hkey' (by simpa using hin') hholder
        · exact .grouped hkey hmem hholder
  | orphan horphan hid =>
      constructor
      · intro hsecond
        cases hsecond with
        | grouped hkey' hmember' hholder' => exact (hapart hkey' hholder' horphan hid).elim
        | orphan horphan' hid' =>
            exact .inr ⟨mintedIds_injective hcanonical hfresh.distinct hid hid', horphan⟩
      · rintro (⟨group, hgroup, hin, _⟩ | ⟨rfl, _⟩)
        · exact ((mem_orphans.mp horphan).2
            (hrun.mem_clustered_iff.mpr ⟨group, hgroup, hin⟩)).elim
        · exact .orphan horphan hid

/-- A record is assigned exactly where it lands anew, and by one row. -/
theorem assignments_filter {record : R} :
    ((plan.reassign (membershipBefore pOld))[record]? ≠ (membershipBefore pOld)[record]? →
      ∃ entity, (plan.reassign (membershipBefore pOld))[record]? = some entity ∧
        plan.assignments.filter (fun row => row.recordKey = record) = [⟨record, entity⟩]) ∧
    ((plan.reassign (membershipBefore pOld))[record]? = (membershipBefore pOld)[record]? →
      plan.assignments.filter (fun row => row.recordKey = record) = []) := by
  constructor
  · intro hchanged
    cases hafter : (plan.reassign (membershipBefore pOld))[record]? with
    | none =>
        -- A record that lands nowhere was nowhere before.
        rw [hafter] at hchanged
        obtain ⟨entity, hbefore⟩ := Option.ne_none_iff_exists'.mp hchanged.symm
        obtain ⟨other, hlands⟩ : ∃ other, Lands (oldSets pOld) groups factory record other :=
          exists_lands hrun.canonical (.inr ⟨entity, hbefore⟩)
        rw [hrun.after_eq_some_iff.mpr hlands] at hafter
        cases hafter
    | some entity =>
        have hrow : ⟨record, entity⟩ ∈ plan.assignments :=
          (hrun.facts.mem_assignments _).mpr ⟨hrun.after_eq_some_iff.mp hafter,
            fun hsame => hchanged (hafter.trans hsame.symm)⟩
        exact ⟨entity, rfl, filter_key_eq_singleton hrun.facts.assignments_nodup hrow⟩
  · intro hsame
    rw [List.filter_eq_nil_iff]
    rintro ⟨other, entity⟩ hrow heq
    simp only [decide_eq_true_eq] at heq
    subst heq
    obtain ⟨hlands, hchanged⟩ := (hrun.facts.mem_assignments _).mp hrow
    exact hchanged (hsame.symm.trans (hrun.after_eq_some_iff.mpr hlands))

/-- An old record that no group holds ends up alone under an id this run drew. -/
theorem orphan_alone {entity : E} {members : List R} {record : R}
    (hentity : pOld[entity]? = some members) (hmem : record ∈ members)
    (hnowhere : ∀ group ∈ pNew, record ∉ group) :
    ∃ id ∈ plan.minted, id ∉ pOld ∧ (plan.reassign (membershipBefore pOld))[record]? = some id ∧
      ∀ other : R, (plan.reassign (membershipBefore pOld))[other]? = some id → other = record := by
  have hunclustered : record ∉ clustered groups := by
    rw [hrun.mem_clustered_iff]
    rintro ⟨group, hgroup, hin⟩
    exact hnowhere group hgroup hin
  have hbefore : (entityOfRecord (oldSets pOld))[record]? = some entity :=
    (membershipBefore_eq_some_iff hrun.membership).mpr ⟨members, hentity, hmem⟩
  have horphan : record ∈ orphans (oldSets pOld) groups :=
    mem_orphans.mpr ⟨⟨entity, hbefore⟩, hunclustered⟩
  obtain ⟨id, hid⟩ : ∃ id, (mintedIds (oldSets pOld) groups factory)[record]? = some id :=
    exists_mintedId hrun.canonical (mem_mintKeys.mpr (.inr horphan))
  obtain ⟨hminted, hnew⟩ := hrun.mintedId_spec hid
  refine ⟨id, hminted, hnew, hrun.after_eq_some_iff.mpr (.orphan horphan hid), ?_⟩
  intro other hother
  rcases (hrun.lands_together_iff (.orphan horphan hid)).mp (hrun.after_eq_some_iff.mp hother) with
    ⟨group, hgroup, hin, _⟩ | ⟨hsame, _⟩
  · exact absurd hin (hnowhere group hgroup)
  · exact hsame.symm

end Planned

variable (digest) in
/-- Applying a plan realizes the new clustering: clustered records share an entity
exactly when they share a group, every record that the clustering left out sits alone
under a fresh id, and the plan writes one row for each record that moves and no row
for a record that stays. -/
theorem reassign_realizes_partition (hold : IsMembership pOld) (hnew : IsPartition pNew)
    (hfresh : factory.Fresh fun id => id ∈ pOld) :
    ∃ plan, reconcilePlan digest pOld pNew factory = some plan ∧
      (∀ first second : R, (∃ group ∈ pNew, first ∈ group) → (∃ group ∈ pNew, second ∈ group) →
        ((∃ entity, (plan.reassign (membershipBefore pOld))[first]? = some entity ∧
            (plan.reassign (membershipBefore pOld))[second]? = some entity) ↔
          ∃ group ∈ pNew, first ∈ group ∧ second ∈ group)) ∧
      (∀ (entity : E) (members : List R) (record : R), pOld[entity]? = some members →
        record ∈ members → (∀ group ∈ pNew, record ∉ group) →
        ∃ id ∈ plan.minted, id ∉ pOld ∧
          (plan.reassign (membershipBefore pOld))[record]? = some id ∧
          ∀ other : R,
            (plan.reassign (membershipBefore pOld))[other]? = some id → other = record) ∧
      ∀ record : R,
        ((plan.reassign (membershipBefore pOld))[record]? ≠ (membershipBefore pOld)[record]? →
          ∃ entity, (plan.reassign (membershipBefore pOld))[record]? = some entity ∧
            plan.assignments.filter (fun row => row.recordKey = record) = [⟨record, entity⟩]) ∧
        ((plan.reassign (membershipBefore pOld))[record]? = (membershipBefore pOld)[record]? →
          plan.assignments.filter (fun row => row.recordKey = record) = []) := by
  obtain ⟨groups, plan, hplan, hrun⟩ : ∃ groups plan,
      reconcilePlan digest pOld pNew factory = some plan ∧
        Planned digest pOld pNew factory groups plan := exists_planned hold hnew hfresh
  refine ⟨plan, hplan, ?_, fun entity members record => hrun.orphan_alone,
    fun record => hrun.assignments_filter⟩
  intro first second hfirst hsecond
  obtain ⟨entity, hlands⟩ : ∃ entity, Lands (oldSets pOld) groups factory first entity :=
    exists_lands hrun.canonical (.inl (hrun.mem_clustered_iff.mpr hfirst))
  have hnorphan : first ∉ orphans (oldSets pOld) groups := fun horphan =>
    (mem_orphans.mp horphan).2 (hrun.mem_clustered_iff.mpr hfirst)
  have htogether : Lands (oldSets pOld) groups factory second entity ↔ _ :=
    hrun.lands_together_iff hlands
  simp only [hnorphan, and_false, or_false] at htogether
  rw [← htogether]
  constructor
  · rintro ⟨other, hafter, hafter'⟩
    obtain rfl := hlands.unique hrun.canonical (hrun.after_eq_some_iff.mp hafter)
    exact hrun.after_eq_some_iff.mp hafter'
  · intro hlands'
    exact ⟨entity, hrun.after_eq_some_iff.mpr hlands, hrun.after_eq_some_iff.mpr hlands'⟩

end Runs

/-- Two entities: `10` holds the records 1 and 2, `20` holds the record 3. -/
def sampleOld : BTreeMap ℕ (List ℕ) :=
    (∅ : BTreeMap ℕ (List ℕ)).insertMany [(10, [1, 2]), (20, [3])]

/-- The clustering joins 2, 3 and the new record 4, and leaves 1 out. -/
def sampleNew : List (List ℕ) := [[4, 2, 3]]

/-- Ids from 100 on. -/
def sampleFactory : IdFactory ℕ := ⟨(100 + ·), 0⟩

/-- A digest that tells events apart by their number of members. -/
def sampleDigest (details : EventDetails ℕ ℕ) : ℕ := details.memberKeys.length

theorem sampleOld_eq_some_iff {entity : ℕ} {members : List ℕ} :
    sampleOld[entity]? = some members ↔
      entity = 10 ∧ members = [1, 2] ∨ entity = 20 ∧ members = [3] := by
  rw [sampleOld, BTreeMap.getElem?_insertMany_eq_some_iff (by decide)]
  simp

theorem sampleOld_isMembership : IsMembership sampleOld where
  nonempty entity members hentity := by
    rcases sampleOld_eq_some_iff.mp hentity with ⟨_, rfl⟩ | ⟨_, rfl⟩ <;> simp
  disjoint first second left right hleft hright hne := by
    rcases sampleOld_eq_some_iff.mp hleft with ⟨rfl, rfl⟩ | ⟨rfl, rfl⟩ <;>
      rcases sampleOld_eq_some_iff.mp hright with ⟨rfl, rfl⟩ | ⟨rfl, rfl⟩ <;>
      simp at hne ⊢

theorem sampleNew_isPartition : IsPartition sampleNew where
  nonempty := by simp [sampleNew]
  disjoint := by simp [sampleNew]

theorem sampleFactory_fresh : sampleFactory.Fresh fun id => id ∈ sampleOld where
  distinct first second hsame := by simpa [sampleFactory, IdFactory.draw] using hsame
  unused i hused := by
    obtain ⟨members, hmembers⟩ := BTreeMap.mem_iff_exists_getElem?.mp hused
    rcases sampleOld_eq_some_iff.mp hmembers with ⟨hid, _⟩ | ⟨hid, _⟩ <;>
      simp [sampleFactory, IdFactory.draw] at hid <;> omega

theorem reassign_realizes_partition_sample :
    IsMembership sampleOld ∧ IsPartition sampleNew ∧
      (sampleFactory.Fresh fun id => id ∈ sampleOld) ∧
      ∃ plan, reconcilePlan sampleDigest sampleOld sampleNew sampleFactory = some plan ∧
        (∃ entity, (plan.reassign (membershipBefore sampleOld))[2]? = some entity ∧
          (plan.reassign (membershipBefore sampleOld))[3]? = some entity) ∧
        ∃ id ∈ plan.minted, (plan.reassign (membershipBefore sampleOld))[1]? = some id := by
  refine ⟨sampleOld_isMembership, sampleNew_isPartition, sampleFactory_fresh, ?_⟩
  obtain ⟨plan, hplan, hshare, halone, _⟩ := reassign_realizes_partition sampleDigest
    sampleOld_isMembership sampleNew_isPartition sampleFactory_fresh
  refine ⟨plan, hplan, (hshare 2 3 (by decide) (by decide)).mpr (by decide), ?_⟩
  obtain ⟨id, hminted, _, hafter, _⟩ := halone 10 [1, 2] 1
    (sampleOld_eq_some_iff.mpr (.inl ⟨rfl, rfl⟩)) (by decide) (by decide)
  exact ⟨id, hminted, hafter⟩

end EntityResolution.Reconcile
