/-
# When a second run has nothing to do

A run plans on what the previous run wrote. If the membership already groups the corpus the
way the clustering does, the plan is empty and only the pruning is sent. Two kinds of record
keep that from happening. A suppressed record that is still in the corpus is placed nowhere
by the clustering, and the orphan rule gives it a new entity on every run. A record that is
outside the corpus comes back as the end of an edge, is assigned, and is pruned again.
-/

import EntityResolution.Reconcile.Membership

namespace EntityResolution.Reconcile

open EntityResolution.Collections EntityResolution.Identity EntityResolution.NeverCut
open EntityResolution.Tables

universe v w x y

variable {R H : Type} {P : Type v} {C : Type w} {V : Type x} {A : Type y} [LinearOrder R]
  [LinearOrder P] [One P] [DecidableEq V]

/-- The lake that a run leaves. -/
def afterRun [LinearOrder H] (digest : EventDetails R V7Id → H) (input : ReconcileInput R P C V A)
    (stamp : RunStamp) (lake : Lake R H) : Except ReconcileError (Lake R H) :=
  (runReconcile digest input stamp lake).map (commit lake)

/-- The run mints no id, sends nothing but the pruning, and leaves every table as it is. -/
def Settled [LinearOrder H] (digest : EventDetails R V7Id → H) (input : ReconcileInput R P C V A)
    (stamp : RunStamp) (lake : Lake R H) : Prop :=
  ∃ plan, runPlan digest input stamp lake = .ok plan ∧ plan.minted = [] ∧
    statementsOf digest input stamp lake plan = [.absentFromCorpus input.corpus.keys] ∧
    commit lake (statementsOf digest input stamp lake plan) = lake

/-- No edge that the `never` rules and the never-cut leave has an end outside the corpus. -/
def ReconcileInput.EdgesInCorpus (input : ReconcileInput R P C V A) : Prop :=
  ∀ result, input.neverCut = .ok result → ∀ edge ∈ input.clusteringEdges result,
    edge.left ∈ input.corpus ∧ edge.right ∈ input.corpus

section Placed

variable {input : ReconcileInput R P C V A} {result : CutResult R P (RuleId R A)} {record : R}

omit [LinearOrder P] in
/-- No record that the clustering knows is suppressed. -/
theorem ReconcileInput.unsuppressed_of_known
    (hknown : Known input.nodes (input.clusteringEdges result) record) :
    record ∉ input.suppressed := by
  rcases known_iff.mp hknown with hnode | ⟨edge, hedge, hend⟩
  · exact (ReconcileInput.mem_nodes.mp hnode).2
  · have hproposed := (ReconcileInput.mem_keptEdges.mp (List.mem_filter.mp hedge).1).1
    have hunsuppressed := ReconcileInput.proposedEdges_unsuppressed hproposed
    rcases hend with rfl | rfl
    · exact hunsuppressed.1
    · exact hunsuppressed.2

theorem ReconcileInput.edgesInCorpus_iff (hresult : input.neverCut = .ok result) :
    input.EdgesInCorpus ↔
      ∀ record, Known input.nodes (input.clusteringEdges result) record →
        record ∈ input.corpus := by
  apply Iff.intro
  · intro hedges record hknown
    rcases known_iff.mp hknown with hnode | ⟨edge, hedge, hend⟩
    · exact (ReconcileInput.mem_nodes.mp hnode).1
    · rcases hend with rfl | rfl
      · exact (hedges result hresult edge hedge).1
      · exact (hedges result hresult edge hedge).2
  · intro hknown other hother edge hedge
    cases hresult.symm.trans hother
    exact ⟨hknown _ (known_iff.mpr (.inr ⟨edge, hedge, .inl rfl⟩)),
      hknown _ (known_iff.mpr (.inr ⟨edge, hedge, .inr rfl⟩))⟩

variable {digest : EventDetails R V7Id → H} {stamp : RunStamp} {lake : Lake R H}
  {groups : BTreeMap R (Finset R)} {plan : ReconcilePlan R V7Id H}

theorem RunPlanned.mem_clustered_iff
    (hrun : RunPlanned digest input stamp lake result groups plan) :
    record ∈ clustered groups ↔ Known input.nodes (input.clusteringEdges result) record := by
  rw [hrun.planned.mem_clustered_iff, ReconcileInput.exists_group_iff_known]

omit [LinearOrder P] [One P] [DecidableEq V] in
/-- The record-to-entity map that a run is planned on. -/
theorem entityOfRecord_registry {id : V7Id} :
    (entityOfRecord (oldSets (lake.registry input.corpus.keys).pOld))[record]? = some id ↔
      record ∈ input.corpus ∧ lake.entityOf record = some id := by
  have hbefore := (lake.registry input.corpus.keys).membershipBefore_pOld
  rw [membershipBefore] at hbefore
  rw [hbefore]
  show (priorMembership input.corpus.keys lake)[record]? = some id ↔ _
  rw [getElem?_priorMembership]
  split
  · rename_i hmem
    simp [BTreeMap.mem_keys.mp hmem]
  · rename_i hmem
    rw [BTreeMap.mem_keys] at hmem
    simp [hmem]

theorem RunPlanned.mem_orphans_iff
    (hrun : RunPlanned digest input stamp lake result groups plan) :
    record ∈ orphans (oldSets (lake.registry input.corpus.keys).pOld) groups ↔
      record ∈ input.corpus ∧ record ∈ input.suppressed ∧
        ∃ id, lake.entityOf record = some id := by
  rw [mem_orphans, hrun.mem_clustered_iff]
  simp only [entityOfRecord_registry]
  apply Iff.intro
  · intro h
    obtain ⟨⟨id, hcorpus, hid⟩, hunknown⟩ := h
    refine ⟨hcorpus, ?_, id, hid⟩
    by_contra hunsuppressed
    exact hunknown (.inl (ReconcileInput.mem_nodes.mpr ⟨hcorpus, hunsuppressed⟩))
  · intro h
    obtain ⟨hcorpus, hsuppressed, id, hid⟩ := h
    exact ⟨⟨id, hcorpus, hid⟩, fun hknown =>
      ReconcileInput.unsuppressed_of_known hknown hsuppressed⟩

end Placed

/-- The membership already is the clustering: exactly the records of its groups have a row,
all of them in the corpus, and two of them share an entity exactly when they share a group. -/
structure InPlace (input : ReconcileInput R P C V A) (result : CutResult R P (RuleId R A))
    (lake : Lake R H) : Prop where
  in_corpus : ∀ {record : R} {id : V7Id}, lake.entityOf record = some id → record ∈ input.corpus
  covered : ∀ record, (∃ id, lake.entityOf record = some id) ↔
    ∃ group ∈ input.partitionOf result, record ∈ group
  together : ∀ {first second : R} {id : V7Id}, lake.entityOf first = some id →
    (lake.entityOf second = some id ↔
      ∃ group ∈ input.partitionOf result, first ∈ group ∧ second ∈ group)

section InPlace

variable {digest : EventDetails R V7Id → H} {input : ReconcileInput R P C V A} {stamp : RunStamp}
  {lake : Lake R H} {result : CutResult R P (RuleId R A)} {groups : BTreeMap R (Finset R)}
  {plan : ReconcilePlan R V7Id H}

omit [LinearOrder P] in
/-- The sets of records that the entities hold are the groups. -/
theorem InPlace.setEqual (hplace : InPlace input result lake) (members : Finset R) :
    (∃ (id : V7Id) (before : List R), (lake.registry input.corpus.keys).pOld[id]? = some before ∧
      before.toFinset = members) ↔
        ∃ group ∈ input.partitionOf result, group.toFinset = members := by
  have hheld {id : V7Id} {before : List R}
      (hbefore : (lake.registry input.corpus.keys).pOld[id]? = some before) (record : R) :
      record ∈ before ↔ lake.entityOf record = some id := by
    refine (BTreeMap.mem_keysByValue hbefore).trans ?_
    show (priorMembership input.corpus.keys lake)[record]? = some id ↔ _
    apply Iff.intro
    · intro hprior
      exact (entityOf_of_priorMembership hprior).2
    · intro hid
      rw [getElem?_priorMembership, if_pos (BTreeMap.mem_keys.mpr (hplace.in_corpus hid)), hid]
  -- A group that shares one record with an entity has the same records.
  have hsame {id : V7Id} {before group : List R} {record : R}
      (hbefore : (lake.registry input.corpus.keys).pOld[id]? = some before)
      (hgroup : group ∈ input.partitionOf result) (hin : record ∈ before) (hin' : record ∈ group) :
      before.toFinset = group.toFinset := by
    ext other
    rw [List.mem_toFinset, List.mem_toFinset, hheld hbefore,
      hplace.together ((hheld hbefore record).mp hin)]
    apply Iff.intro
    · intro h
      obtain ⟨group', hgroup', hrecord, hother⟩ := h
      have hone : group = group' := by
        by_contra hne
        exact (groups_isPartition _).disjoint_of_ne hgroup hgroup' hne hin' hrecord
      rwa [hone]
    · intro hother
      exact ⟨group, hgroup, hin', hother⟩
  apply Iff.intro
  · intro h
    obtain ⟨id, before, hbefore, rfl⟩ := h
    obtain ⟨record, hin⟩ := List.exists_mem_of_ne_nil before
      ((Registry.pOld_isMembership _).nonempty id before hbefore)
    obtain ⟨group, hgroup, hin'⟩ := (hplace.covered record).mp ⟨id, (hheld hbefore record).mp hin⟩
    exact ⟨group, hgroup, (hsame hbefore hgroup hin hin').symm⟩
  · intro h
    obtain ⟨group, hgroup, rfl⟩ := h
    rcases List.exists_mem_of_ne_nil group ((groups_isPartition _).nonempty group hgroup) with
      ⟨record, hin'⟩
    obtain ⟨id, hid⟩ := (hplace.covered record).mpr ⟨group, hgroup, hin'⟩
    have hprior : (priorMembership input.corpus.keys lake)[record]? = some id := by
      rw [getElem?_priorMembership, if_pos (BTreeMap.mem_keys.mpr (hplace.in_corpus hid)), hid]
    obtain ⟨before, hbefore⟩ := BTreeMap.exists_keysByValue hprior
    exact ⟨id, before, hbefore, hsame hbefore hgroup ((hheld hbefore record).mpr hid) hin'⟩

omit [LinearOrder P] [One P] [DecidableEq V] in
theorem absentFromCorpus_eq_self
    (hcorpus : ∀ {record : R} {id : V7Id}, lake.entityOf record = some id → record ∈ input.corpus) :
    absentFromCorpus input.corpus.keys lake = lake := by
  have hrows : deleteWhere lake.membership (fun record _ => !input.corpus.keys.contains record) =
      lake.membership := by
    apply Std.ExtTreeMap.ext_getElem?
    intro record
    rw [getElem?_deleteWhere]
    cases hrow : lake.membership[record]? with
    | none => rfl
    | some row =>
        have hmem : record ∈ input.corpus :=
          hcorpus (Option.map_eq_some_iff.mpr ⟨row, hrow, rfl⟩)
        simp [hmem]
  rw [absentFromCorpus, hrows]

theorem Lake.Sound.orphanedLive_eq_nil (hsound : lake.Sound) : orphanedLive lake = [] := by
  apply List.eq_nil_iff_forall_not_mem.mpr
  intro id hid
  obtain ⟨⟨row, hrow, hactive⟩, hnone⟩ := mem_orphanedLive.mp hid
  obtain ⟨record, hrecord⟩ := hsound.active_member hrow hactive
  exact hnone record hrecord

omit [LinearOrder P] [One P] [DecidableEq V] in
theorem departed_eq_some_iff {corpus : List R} {id : V7Id} {members : List R}
    (hmembers : (departed corpus lake)[id]? = some members) :
    members ≠ [] ∧ ∀ record, record ∈ members ↔ record ∉ corpus ∧
      lake.entityOf record = some id := by
  refine ⟨(BTreeMap.keysByValue_eq_some_iff.mp hmembers).2, ?_⟩
  intro record
  rw [BTreeMap.mem_keysByValue hmembers, BTreeMap.getElem?_map_eq, BTreeMap.getElem?_filter_eq,
    Lake.entityOf]
  cases lake.membership[record]? <;> by_cases hmem : record ∈ corpus <;> simp [hmem]

omit [LinearOrder P] [One P] [DecidableEq V] in
theorem departedEvents_eq_nil
    (hcorpus : ∀ {record : R} {id : V7Id}, lake.entityOf record = some id → record ∈ input.corpus) :
    departedEvents digest input lake = [] := by
  apply List.map_eq_nil_iff.mpr
  apply List.eq_nil_iff_forall_not_mem.mpr
  intro entry hentry
  obtain ⟨hne, hmem⟩ := departed_eq_some_iff (BTreeMap.mem_toList.mp hentry)
  obtain ⟨record, hrecord⟩ := List.exists_mem_of_ne_nil _ hne
  obtain ⟨hoff, hid⟩ := (hmem record).mp hrecord
  exact hoff (BTreeMap.mem_keys.mpr (hcorpus hid))

omit [LinearOrder P] [One P] [DecidableEq V] in
/-- An empty plan on a membership inside the corpus sends the pruning only. -/
theorem Lake.Sound.quiet [LinearOrder H] (hsound : lake.Sound)
    (hcorpus : ∀ {record : R} {id : V7Id}, lake.entityOf record = some id → record ∈ input.corpus)
    (hempty : plan.isEmpty = true) :
    statementsOf digest input stamp lake plan = [.absentFromCorpus input.corpus.keys] ∧
      commit lake (statementsOf digest input stamp lake plan) = lake := by
  simp only [ReconcilePlan.isEmpty, Bool.and_eq_true, List.isEmpty_iff] at hempty
  obtain ⟨⟨hassignments, htransitions⟩, hevents⟩ := hempty
  have hpruned : commit lake [.absentFromCorpus input.corpus.keys] = lake :=
    absentFromCorpus_eq_self hcorpus
  have hplan : planStatements input stamp plan = [.absentFromCorpus input.corpus.keys] := by
    simp [planStatements, hassignments, htransitions]
  have hstatements : statementsOf digest input stamp lake plan =
      [.absentFromCorpus input.corpus.keys] := by
    simp only [statementsOf, hplan, hpruned, hsound.orphanedLive_eq_nil]
    simp [retireStatements, eventStatements, runEvents, retiredEvents,
      departedEvents_eq_nil hcorpus, hevents, sortPlannedEvents]
  rw [hstatements]
  exact ⟨rfl, hpruned⟩

/-- On a membership that is in place the plan is empty. -/
theorem InPlace.empty (hplace : InPlace input result lake)
    (hrun : RunPlanned digest input stamp lake result groups plan) :
    plan.isEmpty = true ∧ plan.minted = [] :=
  hrun.planned.empty_of_setEqual hplace.setEqual

/-- Whether the membership that a run was planned on is in place, by where the plan lands its
records. -/
theorem RunPlanned.inPlace_of_silent
    (hrun : RunPlanned digest input stamp lake result groups plan)
    (hcorpus : ∀ {record : R} {id : V7Id}, lake.entityOf record = some id → record ∈ input.corpus)
    (hassignments : plan.assignments = []) (hminted : plan.minted = []) :
    InPlace input result lake := by
  have hlands (record : R) (id : V7Id) :
      Lands (oldSets (lake.registry input.corpus.keys).pOld) groups
        (deterministicV7Factory stamp.runAt lake.entities.size) record id ↔
          lake.entityOf record = some id := by
    rw [← hrun.planned.membership_eq_some_iff, Registry.apply, ReconcilePlan.reassign,
      ReconcilePlan.rows, hassignments]
    show (priorMembership input.corpus.keys lake)[record]? = some id ↔ _
    rw [getElem?_priorMembership]
    split
    · rfl
    · rename_i hoff
      exact ⟨fun h => absurd h (by simp), fun h => absurd (BTreeMap.mem_keys.mpr (hcorpus h)) hoff⟩
  have hgrouped {record : R} (hclustered : record ∈ clustered groups) :
      ∃ id, lake.entityOf record = some id := by
    have hexists : ∃ id, Lands (oldSets (lake.registry input.corpus.keys).pOld) groups
        (deterministicV7Factory stamp.runAt lake.entities.size) record id :=
      exists_lands hrun.planned.canonical (.inl hclustered)
    obtain ⟨id, hid⟩ := hexists
    exact ⟨id, (hlands record id).mp hid⟩
  have horphans (record : R) :
      record ∉ orphans (oldSets (lake.registry input.corpus.keys).pOld) groups := by
    intro horphan
    obtain ⟨id, hid⟩ := exists_mintedId hrun.planned.canonical (mem_mintKeys.mpr (.inr horphan))
    have hmem := (hrun.planned.mintedId_spec hid).1
    rw [hminted] at hmem
    cases hmem
  refine ⟨hcorpus, ?_, ?_⟩
  · intro record
    rw [← hrun.planned.mem_clustered_iff]
    refine ⟨?_, hgrouped⟩
    intro h
    obtain ⟨id, hid⟩ := h
    cases (hlands record id).mpr hid with
    | grouped hkey hmem _ => exact mem_clustered.mpr ⟨_, _, hkey, hmem⟩
    | orphan horphan _ => exact absurd horphan (horphans record)
  · intro first second id hfirst
    rw [← hlands, hrun.planned.lands_together_iff ((hlands first id).mpr hfirst)]
    simp [horphans first]

variable [LinearOrder H]

theorem Lake.Sound.settled_iff (hsound : lake.Sound) (hresult : input.neverCut = .ok result) :
    Settled digest input stamp lake ↔ InPlace input result lake := by
  apply Iff.intro
  · intro h
    obtain ⟨plan, hplan, hminted, hstatements, hsame⟩ := h
    obtain ⟨result', groups, hrun⟩ := hsound.exists_runPlanned hplan
    cases hresult.symm.trans hrun.neverCut
    apply hrun.inPlace_of_silent _ _ hminted
    · intro record id hid
      rw [← hsame, entityOf_after] at hid
      exact (hrun.entityOf_written.mp hid).1
    · by_contra hassignments
      simp [statementsOf, planStatements, hassignments] at hstatements
  · intro hplace
    have hfresh : (deterministicV7Factory stamp.runAt lake.entities.size).Fresh
        fun id => id ∈ (lake.registry input.corpus.keys).pOld :=
      deterministicV7Factory_fresh fun _ hid => hsound.below (hsound.mem_of_pOld hid)
    have hexists : ∃ groups plan, reconcilePlan digest (lake.registry input.corpus.keys).pOld
        (input.partitionOf result) (deterministicV7Factory stamp.runAt lake.entities.size) =
          some plan ∧ Planned digest (lake.registry input.corpus.keys).pOld
            (input.partitionOf result)
            (deterministicV7Factory stamp.runAt lake.entities.size) groups plan :=
      exists_planned (Registry.pOld_isMembership _) (groups_isPartition _) hfresh
    obtain ⟨groups, plan, hplan, hplanned⟩ := hexists
    obtain ⟨hempty, hminted⟩ := hplace.empty ⟨hresult, hplanned⟩
    refine ⟨plan, ?_, hminted, hsound.quiet hplace.in_corpus hempty⟩
    have hread : reconcilePlan digest (pOld input.corpus.keys lake) (input.partitionOf result)
        (deterministicV7Factory stamp.runAt lake.entities.size) = some plan := hplan
    simp [runPlan, hresult, hread, hminted]

/-- What a run leaves is in place exactly when no orphan was minted and no record came back
from outside the corpus. -/
theorem RunPlanned.inPlace_after_iff
    (hrun : RunPlanned digest input stamp lake result groups plan) :
    InPlace input result (commit lake (statementsOf digest input stamp lake plan)) ↔
      (∀ record ∈ input.corpus, record ∈ input.suppressed → lake.membership[record]? = none) ∧
        input.EdgesInCorpus := by
  have hafter (record : R) (id : V7Id) :
      (commit lake (statementsOf digest input stamp lake plan)).entityOf record = some id ↔
        record ∈ input.corpus ∧ Lands (oldSets (lake.registry input.corpus.keys).pOld) groups
          (deterministicV7Factory stamp.runAt lake.entities.size) record id := by
    rw [entityOf_after]
    exact hrun.entityOf_written
  have hexists {record : R} (hknown : record ∈ clustered groups ∨
      ∃ id, (entityOfRecord (oldSets (lake.registry input.corpus.keys).pOld))[record]? = some id) :
      ∃ id, Lands (oldSets (lake.registry input.corpus.keys).pOld) groups
        (deterministicV7Factory stamp.runAt lake.entities.size) record id :=
    exists_lands hrun.planned.canonical hknown
  rw [ReconcileInput.edgesInCorpus_iff hrun.neverCut]
  apply Iff.intro
  · intro hplace
    apply And.intro
    · intro record hcorpus hsuppressed
      cases hrow : lake.membership[record]? with
      | none => rfl
      | some row =>
          have hid : lake.entityOf record = some row.entityId :=
            Option.map_eq_some_iff.mpr ⟨row, hrow, rfl⟩
          obtain ⟨id, hlands⟩ := hexists (.inr ⟨_, entityOfRecord_registry.mpr ⟨hcorpus, hid⟩⟩)
          have hplaced := (hplace.covered record).mp ⟨id, (hafter record id).mpr ⟨hcorpus, hlands⟩⟩
          rw [ReconcileInput.exists_group_iff_known] at hplaced
          exact absurd hsuppressed (ReconcileInput.unsuppressed_of_known hplaced)
    · intro record hknown
      rcases (hplace.covered record).mpr (ReconcileInput.exists_group_iff_known.mpr hknown) with
        ⟨id, hid⟩
      exact hplace.in_corpus hid
  · intro h
    obtain ⟨hsuppressed, hknown⟩ := h
    have horphans (record : R) :
        record ∉ orphans (oldSets (lake.registry input.corpus.keys).pOld) groups := by
      intro horphan
      obtain ⟨hcorpus, hin, id, hid⟩ := hrun.mem_orphans_iff.mp horphan
      simp [Lake.entityOf, hsuppressed record hcorpus hin] at hid
    refine ⟨fun hid => ((hafter _ _).mp hid).1, ?_, ?_⟩
    · intro record
      rw [← hrun.planned.mem_clustered_iff]
      apply Iff.intro
      · intro h
        obtain ⟨id, hid⟩ := h
        cases ((hafter record id).mp hid).2 with
        | grouped hkey hmem _ => exact mem_clustered.mpr ⟨_, _, hkey, hmem⟩
        | orphan horphan _ => exact absurd horphan (horphans record)
      · intro hclustered
        obtain ⟨id, hlands⟩ := hexists (.inl hclustered)
        exact ⟨id, (hafter record id).mpr
          ⟨hknown record (hrun.mem_clustered_iff.mp hclustered), hlands⟩⟩
    · intro first second id hfirst
      rw [hafter, hrun.planned.lands_together_iff ((hafter first id).mp hfirst).2]
      simp only [horphans first, and_false, or_false, and_iff_right_iff_imp]
      intro h
      obtain ⟨group, hgroup, _, hsecond⟩ := h
      exact hknown second (ReconcileInput.exists_group_iff_known.mp ⟨group, hgroup, hsecond⟩)

/-- A second run has nothing to do exactly when no suppressed record of the corpus had an
entity before the first, and no edge that survives the rules leaves the corpus. -/
theorem second_run_settled_iff (hsound : lake.Sound)
    (hplan : runPlan digest input stamp lake = .ok plan) (later : RunStamp) :
    Settled digest input later (commit lake (statementsOf digest input stamp lake plan)) ↔
      (∀ record ∈ input.corpus, record ∈ input.suppressed → lake.membership[record]? = none) ∧
        input.EdgesInCorpus := by
  obtain ⟨result, groups, hrun⟩ := hsound.exists_runPlanned hplan
  rw [(hsound.after hrun).settled_iff hrun.neverCut, hrun.inPlace_after_iff]

end InPlace

theorem second_run_settled_iff_sample : ∃ plan,
    runPlan sampleRunDigest sampleVeto ⟨"first", 7⟩ .fresh = .ok plan ∧
      Settled sampleRunDigest sampleVeto ⟨"second", 8⟩
        (commit .fresh (statementsOf sampleRunDigest sampleVeto ⟨"first", 7⟩ .fresh plan)) := by
  have hcompletes : (runPlan sampleRunDigest sampleVeto ⟨"first", 7⟩ .fresh).toOption.isSome =
      true := by
    decide +kernel
  cases hplan : runPlan sampleRunDigest sampleVeto ⟨"first", 7⟩ .fresh with
  | error error => simp [hplan, Except.toOption] at hcompletes
  | ok plan =>
      refine ⟨plan, rfl, (second_run_settled_iff sound_fresh hplan _).mpr ⟨?_, ?_⟩⟩
      · intro record _ hsuppressed
        simp [sampleVeto] at hsuppressed
      · intro result hresult edge hedge
        have hedges : ∀ edge ∈ sampleVeto.keptEdges,
            edge.left ∈ sampleVeto.corpus ∧ edge.right ∈ sampleVeto.corpus := by
          decide +kernel
        exact hedges edge (List.mem_filter.mp hedge).1

/-- One record and no rules. -/
def sampleAlone (suppressed : Finset ℕ) : ReconcileInput ℕ ℕ Unit ℕ ℕ where
  constraints := {}
  cutProtectProbability := 1
  maxIterations := 50
  corpus := Std.ExtTreeMap.ofList [(1, fun _ => none)] compare
  scores := []
  assertions := []
  suppressed
  protectedRecords := ∅
  scores_ordered := no_scores_ordered
  assertions_ordered := by simp
  assertions_active := by simp

/-- A record is resolved, then suppressed, and then changes its entity with every run. -/
theorem suppressed_record_moves : ∃ lake first second : Lake ℕ ℕ,
    afterRun sampleRunDigest (sampleAlone ∅) ⟨"first", 1⟩ .fresh = .ok lake ∧
    afterRun sampleRunDigest (sampleAlone {1}) ⟨"second", 2⟩ lake = .ok first ∧
    afterRun sampleRunDigest (sampleAlone {1}) ⟨"third", 3⟩ first = .ok second ∧
    1 ∈ (sampleAlone {1}).corpus ∧ first.entityOf 1 = some ⟨2, 1⟩ ∧
    second.entityOf 1 = some ⟨3, 2⟩ ∧
    ¬ Settled sampleRunDigest (sampleAlone {1}) ⟨"third", 3⟩ first := by
  have hruns : ((afterRun sampleRunDigest (sampleAlone ∅) ⟨"first", 1⟩ .fresh).toOption.bind
      fun lake => (afterRun sampleRunDigest (sampleAlone {1}) ⟨"second", 2⟩ lake).toOption.bind
        fun first => (afterRun sampleRunDigest (sampleAlone {1}) ⟨"third", 3⟩ first).toOption.map
          fun second => (first.entityOf 1, second.entityOf 1)) =
        some (some ⟨2, 1⟩, some ⟨3, 2⟩) := by
    decide +kernel
  have hcorpus : 1 ∈ (sampleAlone {1}).corpus := by decide +kernel
  cases hlake : afterRun sampleRunDigest (sampleAlone ∅) ⟨"first", 1⟩ .fresh with
  | error error => simp [hlake, Except.toOption] at hruns
  | ok lake =>
      cases hfirst : afterRun sampleRunDigest (sampleAlone {1}) ⟨"second", 2⟩ lake with
      | error error => simp [hlake, hfirst, Except.toOption] at hruns
      | ok first =>
          cases hsecond : afterRun sampleRunDigest (sampleAlone {1}) ⟨"third", 3⟩ first with
          | error error => simp [hlake, hfirst, hsecond, Except.toOption] at hruns
          | ok second =>
              simp only [hlake, hfirst, hsecond, Except.toOption, Option.bind_some, Option.map_some,
                Option.some.injEq, Prod.mk.injEq] at hruns
              refine ⟨lake, first, second, rfl, hfirst, hsecond, hcorpus, hruns.1, hruns.2, ?_⟩
              intro h
              obtain ⟨plan, hplan, _, _, hsame⟩ := h
              simp only [afterRun, runReconcile, hplan, Except.map] at hsecond
              rw [hsame] at hsecond
              cases hsecond
              cases hruns.1.symm.trans hruns.2

end EntityResolution.Reconcile
