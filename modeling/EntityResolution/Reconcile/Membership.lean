/-
# The membership after a run

What a completed run leaves in the lake, in the terms of its plan. The membership of the
corpus is where the plan lands every record; nothing else has a membership row. The entity
rows are those of the plan, with the entities that ended up empty retired.

A run continues the mint counter past the number of entity rows. Every id in the table was
minted below that number, and every id a run mints gets a row, so no id is minted twice,
whatever the clocks of the runs say.
-/

import EntityResolution.Reconcile.Lake
import EntityResolution.Reconcile.Rules

namespace EntityResolution.Reconcile

open EntityResolution.Collections EntityResolution.Identity EntityResolution.NeverCut
open EntityResolution.Tables

universe v w x y

variable {R H : Type} {P : Type v} {C : Type w} {V : Type x} {A : Type y} [LinearOrder R]

/-- The entity of every record. -/
def Lake.entityOf (lake : Lake R H) (record : R) : Option V7Id :=
  lake.membership[record]?.map MembershipRow.entityId

/-- Status and redirect of an entity row. -/
def ResolvedEntity.row (entity : ResolvedEntity) : EntityRow V7Id :=
  ⟨entity.status, entity.mergedInto⟩

/-- Status and redirect of every entity. -/
def Lake.rowOf (lake : Lake R H) (id : V7Id) : Option (EntityRow V7Id) :=
  lake.entities[id]?.map ResolvedEntity.row

section Statements

variable {lake : Lake R H} {stamp : RunStamp} {record : R} {id : V7Id}

theorem entityOf_upsertMembership {rows : List (MembershipAssignment R V7Id)}
    (hnodup : (rows.map MembershipAssignment.recordKey).Nodup) :
    (upsertMembership rows stamp lake).entityOf record = some id ↔
      ⟨record, id⟩ ∈ rows ∨
        record ∉ rows.map MembershipAssignment.recordKey ∧ lake.entityOf record = some id := by
  have hkeys : (rows.map fun row => (row.recordKey, row.entityId)).map Prod.fst =
      rows.map MembershipAssignment.recordKey := by
    rw [List.map_map]
    rfl
  refine (map_mergeInto_eq_some_iff (fun entityId => entityId) (fun _ _ => rfl) (fun _ => rfl)
    (by rwa [hkeys]) lake.membership).trans ?_
  rw [hkeys]
  apply or_congr_left
  apply Iff.intro
  · intro h
    obtain ⟨entityId, hmem, rfl⟩ := h
    obtain ⟨row, hrow, hsame⟩ := List.mem_map.mp hmem
    cases hsame
    exact hrow
  · intro hrow
    exact ⟨id, List.mem_map.mpr ⟨_, hrow, rfl⟩, rfl⟩

theorem entityOf_absentFromCorpus {corpus : List R} :
    (absentFromCorpus corpus lake).entityOf record =
      if record ∈ corpus then lake.entityOf record else none := by
  rw [Lake.entityOf, absentFromCorpus, getElem?_deleteWhere, Lake.entityOf]
  cases lake.membership[record]? <;> by_cases hmem : record ∈ corpus <;> simp [hmem]

theorem rowOf_upsertEntities {rows : List (V7Id × EntityRow V7Id)}
    (hnodup : (rows.map Prod.fst).Nodup) {row : EntityRow V7Id} :
    (upsertEntities rows stamp lake).rowOf id = some row ↔
      (id, row) ∈ rows ∨ id ∉ rows.map Prod.fst ∧ lake.rowOf id = some row := by
  refine (map_mergeInto_eq_some_iff (fun source => source) (fun _ _ => rfl) (fun _ => rfl)
    hnodup lake.entities).trans ?_
  simp only [exists_eq_right]
  rfl

theorem commit_append (lake : Lake R H) (first second : List (Statement R H)) :
    commit lake (first ++ second) = commit (commit lake first) second :=
  List.foldl_append

theorem upsertMembership_nil : upsertMembership [] stamp lake = lake := by
  rw [upsertMembership, List.map_nil, mergeInto_nil]

theorem upsertEntities_nil : upsertEntities [] stamp lake = lake := by
  rw [upsertEntities, mergeInto_nil]

/-- The events appended by a run change no other table. -/
theorem commit_eventStatements (events : List (PlannedEvent R V7Id H)) (lake : Lake R H) :
    commit lake (eventStatements stamp events) = { lake with
      events := lake.events ++ events.zipIdx.map fun entry =>
        ⟨entry.2, stamp.runId, entry.1, stamp.runAt⟩ } := by
  rw [eventStatements]
  generalize events.zipIdx = entries
  induction entries generalizing lake with
  | nil => simp [commit]
  | cons entry entries ih =>
      rw [List.map_cons, List.map_cons]
      refine (ih (appendEvent _ lake)).trans ?_
      simp [appendEvent]

end Statements

/-- What every completed run leaves: records belong to active entities, active entities have
records, and every id was minted below the number of entity rows. -/
structure Lake.Sound (lake : Lake R H) : Prop where
  member_active : ∀ {record : R} {id : V7Id}, lake.entityOf record = some id →
    lake.rowOf id = some ⟨.active, none⟩
  active_member : ∀ {id : V7Id} {row : EntityRow V7Id}, lake.rowOf id = some row →
    row.status = .active → ∃ record, lake.entityOf record = some id
  below : ∀ {id : V7Id}, id ∈ lake.entities → id.counter < lake.entities.size

/-- The registry a run is planned on: the records of the corpus, and every entity. -/
def Lake.registry (corpus : List R) (lake : Lake R H) : Registry R V7Id :=
  ⟨priorMembership corpus lake, lake.entities.map fun _ entity => entity.row⟩

theorem sound_fresh : (Lake.fresh : Lake R H).Sound where
  member_active h := by simp [Lake.entityOf, Lake.fresh] at h
  active_member h := by simp [Lake.rowOf, Lake.fresh] at h
  below h := by simp [Lake.fresh] at h

section Planning

variable {lake : Lake R H} {corpus : List R} {record : R} {id : V7Id}

theorem mem_entities_iff : id ∈ lake.entities ↔ ∃ row, lake.rowOf id = some row := by
  rw [BTreeMap.mem_iff_exists_getElem?, Lake.rowOf]
  cases lake.entities[id]? <;> simp

theorem getElem?_priorMembership :
    (priorMembership corpus lake)[record]? =
      if record ∈ corpus then lake.entityOf record else none := by
  rw [priorMembership, Std.ExtTreeMap.getElem?_map, BTreeMap.getElem?_filter_eq, Lake.entityOf]
  cases lake.membership[record]? <;> by_cases hmem : record ∈ corpus <;> simp [hmem]

theorem entityOf_of_priorMembership (hprior : (priorMembership corpus lake)[record]? = some id) :
    record ∈ corpus ∧ lake.entityOf record = some id := by
  rw [getElem?_priorMembership] at hprior
  split at hprior
  · rename_i hmem
    exact ⟨hmem, hprior⟩
  · cases hprior

theorem registry_entities : (lake.registry corpus).entities[id]? = lake.rowOf id :=
  BTreeMap.getElem?_map_eq lake.entities _ id

/-- The mint of a run is fresh for every entity of a sound lake. -/
theorem Lake.Sound.fresh (hsound : lake.Sound) (unixTsMs : ℕ) :
    (deterministicV7Factory unixTsMs lake.entities.size).Fresh fun id => id ∈ lake.entities :=
  deterministicV7Factory_fresh fun _ hid => hsound.below hid

theorem Lake.Sound.member_active_registry (hsound : lake.Sound)
    (hmember : (lake.registry corpus).membership[record]? = some id) :
    (lake.registry corpus).entities[id]? = some ⟨.active, none⟩ := by
  rw [registry_entities]
  exact hsound.member_active (entityOf_of_priorMembership hmember).2

theorem Lake.Sound.mem_of_pOld (hsound : lake.Sound)
    (hid : id ∈ (lake.registry corpus).pOld) : id ∈ lake.entities := by
  obtain ⟨members, hmembers⟩ := BTreeMap.mem_iff_exists_getElem?.mp hid
  have hbefore : (oldSets (lake.registry corpus).pOld)[id]? = some members.toFinset :=
    oldSets_eq_some_iff.mpr ⟨members, hmembers, rfl⟩
  obtain ⟨record, hrecord⟩ := Registry.exists_record_of_oldSets hbefore
  rw [mem_entities_iff, ← registry_entities]
  exact ⟨_, hsound.member_active_registry hrecord⟩

end Planning

section Run

variable [LinearOrder P] [One P] [DecidableEq V]
  {digest : EventDetails R V7Id → H} {input : ReconcileInput R P C V A} {stamp : RunStamp}
  {lake : Lake R H} {plan : ReconcilePlan R V7Id H}

/-- What a completed run was planned on. -/
structure RunPlanned (digest : EventDetails R V7Id → H) (input : ReconcileInput R P C V A)
    (stamp : RunStamp) (lake : Lake R H) (result : CutResult R P (RuleId R A))
    (groups : BTreeMap R (Finset R)) (plan : ReconcilePlan R V7Id H) : Prop where
  neverCut : input.neverCut = .ok result
  planned : Planned digest (lake.registry input.corpus.keys).pOld (input.partitionOf result)
    (deterministicV7Factory stamp.runAt lake.entities.size) groups plan

theorem Lake.Sound.exists_runPlanned [LinearOrder H] (hsound : lake.Sound)
    (hplan : runPlan digest input stamp lake = .ok plan) :
    ∃ result groups, RunPlanned digest input stamp lake result groups plan := by
  rw [runPlan] at hplan
  cases hresult : input.neverCut with
  | error error => simp [hresult] at hplan
  | ok result =>
      simp only [hresult] at hplan
      split at hplan
      · cases hplan
      · rename_i planned hrun
        split at hplan
        · cases hplan
          have hfresh : (deterministicV7Factory stamp.runAt lake.entities.size).Fresh
              fun id => id ∈ (lake.registry input.corpus.keys).pOld :=
            deterministicV7Factory_fresh fun _ hid => hsound.below (hsound.mem_of_pOld hid)
          obtain ⟨groups, hplanned⟩ := planned_of_reconcilePlan (Registry.pOld_isMembership _)
            (groups_isPartition _) hfresh hrun
          exact ⟨result, groups, hresult, hplanned⟩
        · cases hplan

/-- The tables after the statements that write the plan. -/
def written (input : ReconcileInput R P C V A) (stamp : RunStamp) (lake : Lake R H)
    (plan : ReconcilePlan R V7Id H) : Lake R H :=
  upsertEntities (plan.transitions.map fun transition => (transition.entityId, transition.row))
    stamp (absentFromCorpus input.corpus.keys (upsertMembership plan.assignments stamp lake))

omit [LinearOrder P] [One P] [DecidableEq V] in
theorem commit_planStatements :
    commit lake (planStatements input stamp plan) = written input stamp lake plan := by
  have hfirst : commit lake
      (if plan.assignments = [] then [] else [.upsertMembership plan.assignments stamp]) =
      upsertMembership plan.assignments stamp lake := by
    split
    · rename_i hnil
      rw [hnil, upsertMembership_nil]
      rfl
    · rfl
  rw [planStatements, commit_append, commit_append, hfirst, written]
  split
  · rename_i hnil
    rw [hnil, List.map_nil, upsertEntities_nil]
    rfl
  · rfl

theorem commit_retireStatements (orphaned : List V7Id) :
    commit lake (retireStatements stamp orphaned) =
      upsertEntities (orphaned.map fun id => (id, ⟨.retired, none⟩)) stamp lake := by
  rw [retireStatements]
  split
  · rename_i hnil
    rw [hnil, List.map_nil, upsertEntities_nil]
    rfl
  · rfl

omit [LinearOrder P] [One P] [DecidableEq V] in
/-- The tables after a completed run. -/
theorem commit_statementsOf [LinearOrder H] :
    commit lake (statementsOf digest input stamp lake plan) =
      { upsertEntities ((orphanedLive (written input stamp lake plan)).map
          fun id => (id, ⟨.retired, none⟩)) stamp (written input stamp lake plan) with
        events := lake.events ++ (runEvents digest input lake plan
          (orphanedLive (written input stamp lake plan))).zipIdx.map fun entry =>
            ⟨entry.2, stamp.runId, entry.1, stamp.runAt⟩ } := by
  simp only [statementsOf]
  rw [commit_append, commit_append, commit_planStatements, commit_retireStatements,
    commit_eventStatements]
  rfl

section Tables

variable {result : CutResult R P (RuleId R A)} {groups : BTreeMap R (Finset R)} {record : R}
  {id : V7Id}

/-- After the plan, the membership is where the plan lands the records of the corpus. -/
theorem RunPlanned.entityOf_written
    (hrun : RunPlanned digest input stamp lake result groups plan) :
    (written input stamp lake plan).entityOf record = some id ↔ record ∈ input.corpus ∧
      Lands (oldSets (lake.registry input.corpus.keys).pOld) groups
        (deterministicV7Factory stamp.runAt lake.entities.size) record id := by
  have hpruned : (written input stamp lake plan).entityOf record =
      if record ∈ input.corpus.keys then
        (upsertMembership plan.assignments stamp lake).entityOf record else none :=
    entityOf_absentFromCorpus
  rw [hpruned, ← hrun.planned.membership_eq_some_iff, Registry.apply, ReconcilePlan.reassign,
    BTreeMap.getElem?_insertMany_eq_some_iff
      (by rw [plan.rows_map_fst]; exact hrun.planned.facts.assignments_nodup),
    plan.rows_map_fst]
  split
  · rename_i hmem
    have hprior : (lake.registry input.corpus.keys).membership[record]? = lake.entityOf record := by
      show (priorMembership input.corpus.keys lake)[record]? = _
      rw [getElem?_priorMembership, if_pos hmem]
    rw [entityOf_upsertMembership hrun.planned.facts.assignments_nodup, hprior]
    simp [ReconcilePlan.mem_rows, BTreeMap.mem_keys.mp hmem]
  · rename_i hmem
    rw [BTreeMap.mem_keys] at hmem
    simp [hmem]

theorem RunPlanned.exists_member (hrun : RunPlanned digest input stamp lake result groups plan)
    (hcorpus : record ∈ input.corpus) (hunsuppressed : record ∉ input.suppressed) :
    ∃ id, (written input stamp lake plan).entityOf record = some id := by
  have hclustered : record ∈ clustered groups := by
    rw [hrun.planned.mem_clustered_iff, ReconcileInput.exists_group_iff_known]
    exact .inl (ReconcileInput.mem_nodes.mpr ⟨hcorpus, hunsuppressed⟩)
  have hlands : ∃ id, Lands (oldSets (lake.registry input.corpus.keys).pOld) groups
      (deterministicV7Factory stamp.runAt lake.entities.size) record id :=
    exists_lands hrun.planned.canonical (.inl hclustered)
  obtain ⟨id, hid⟩ := hlands
  exact ⟨id, hrun.entityOf_written.mpr ⟨hcorpus, hid⟩⟩

/-- After the plan, the entity rows are those of the plan. -/
theorem RunPlanned.rowOf_written
    (hrun : RunPlanned digest input stamp lake result groups plan) :
    (written input stamp lake plan).rowOf id =
      ((lake.registry input.corpus.keys).apply plan).entities[id]? := by
  have hkeys : (plan.transitions.map fun transition =>
      (transition.entityId, transition.row)).map Prod.fst =
        plan.transitions.map EntityTransition.entityId := by
    simp [Function.comp_def]
  have hnodup : ((plan.transitions.map fun transition =>
      (transition.entityId, transition.row)).map Prod.fst).Nodup := by
    rw [hkeys]
    exact hrun.planned.facts.transitions_nodup
  ext row
  rw [Registry.apply, BTreeMap.getElem?_insertMany_eq_some_iff hnodup, registry_entities]
  exact rowOf_upsertEntities hnodup

omit [LinearOrder P] [One P] [DecidableEq V] in
theorem mem_orphanedLive : id ∈ orphanedLive lake ↔
    (∃ row, lake.rowOf id = some row ∧ row.status = .active) ∧
      ∀ record, lake.entityOf record ≠ some id := by
  have hfiltered : id ∈ orphanedLive lake ↔ ∃ row, (lake.entities.filter fun id row =>
      row.status = .active && lake.membership.toList.all fun entry => entry.2.entityId ≠ id)[id]? =
        some row := by
    rw [orphanedLive, BTreeMap.mem_keys, BTreeMap.mem_iff_exists_getElem?]
  have hmembers : (lake.membership.toList.all fun entry => entry.2.entityId ≠ id) = true ↔
      ∀ record, lake.entityOf record ≠ some id := by
    simp only [List.all_eq_true, Prod.forall, BTreeMap.mem_toList, decide_eq_true_iff,
      Lake.entityOf, ne_eq, Option.map_eq_some_iff, not_exists, not_and]
  rw [hfiltered, BTreeMap.getElem?_filter_eq, ← hmembers, Lake.rowOf]
  cases lake.entities[id]? <;> simp [Option.filter, ResolvedEntity.row, and_comm]

theorem RunPlanned.minted_nodup
    (hrun : RunPlanned digest input stamp lake result groups plan) : plan.minted.Nodup := by
  rw [hrun.planned.facts.minted]
  exact List.nodup_range.map hrun.planned.fresh.distinct

/-- The ids that a run mints were never minted before. -/
theorem RunPlanned.minted_new (hsound : lake.Sound)
    (hrun : RunPlanned digest input stamp lake result groups plan) (hid : id ∈ plan.minted) :
    id ∉ lake.entities := by
  rw [hrun.planned.facts.minted] at hid
  obtain ⟨i, _, rfl⟩ := List.mem_map.mp hid
  exact (hsound.fresh stamp.runAt).unused i

section After

variable [LinearOrder H]

omit [LinearOrder P] [One P] [DecidableEq V] in
theorem entityOf_after : (commit lake (statementsOf digest input stamp lake plan)).entityOf record =
    (written input stamp lake plan).entityOf record := by
  rw [commit_statementsOf]
  rfl

omit [LinearOrder P] [One P] [DecidableEq V] in
theorem rowOf_after : (commit lake (statementsOf digest input stamp lake plan)).rowOf id =
    if id ∈ orphanedLive (written input stamp lake plan) then some ⟨.retired, none⟩
    else (written input stamp lake plan).rowOf id := by
  have hkeys (orphaned : List V7Id) : (orphaned.map fun id =>
      (id, (⟨.retired, none⟩ : EntityRow V7Id))).map Prod.fst = orphaned := by
    simp [Function.comp_def]
  ext row
  rw [commit_statementsOf]
  refine (rowOf_upsertEntities (by rw [hkeys]; exact BTreeMap.keys_nodup _)).trans ?_
  rw [hkeys]
  by_cases hmem : id ∈ orphanedLive (written input stamp lake plan) <;> simp [hmem, eq_comm]

theorem RunPlanned.mem_entities_after (hsound : lake.Sound)
    (hrun : RunPlanned digest input stamp lake result groups plan) :
    id ∈ (commit lake (statementsOf digest input stamp lake plan)).entities ↔
      id ∈ lake.entities ∨ id ∈ plan.minted := by
  have hwritten : id ∈ (commit lake (statementsOf digest input stamp lake plan)).entities ↔
      ∃ row, ((lake.registry input.corpus.keys).apply plan).entities[id]? = some row := by
    rw [mem_entities_iff, rowOf_after, ← hrun.rowOf_written]
    split
    · rename_i horphaned
      obtain ⟨row, hrow, _⟩ := (mem_orphanedLive.mp horphaned).1
      exact ⟨fun _ => ⟨row, hrow⟩, fun _ => ⟨_, rfl⟩⟩
    · rfl
  rw [hwritten]
  apply Iff.intro
  · intro h
    obtain ⟨row, hrow⟩ := h
    rcases hrun.planned.entities_eq_some_iff.mp hrow with
      ⟨transition, htransition, rfl, _⟩ | ⟨_, hold⟩
    · rcases htransition.entity_origin with ⟨before, hbefore⟩ | ⟨key, hid⟩
      · exact .inl (hsound.mem_of_pOld (mem_of_oldSets hbefore))
      · exact .inr (hrun.planned.mintedId_spec hid).1
    · rw [registry_entities] at hold
      exact .inl (mem_entities_iff.mpr ⟨row, hold⟩)
  · intro h
    by_cases htouched : ∃ transition,
        PlansTransition (oldSets (lake.registry input.corpus.keys).pOld) groups
          (deterministicV7Factory stamp.runAt lake.entities.size) transition ∧
          transition.entityId = id
    · obtain ⟨transition, htransition, rfl⟩ := htouched
      exact ⟨_, hrun.planned.entities_of_transition htransition⟩
    · rcases h with hold | hminted
      · obtain ⟨row, hrow⟩ := mem_entities_iff.mp hold
        rw [← registry_entities] at hrow
        exact ⟨row, hrun.planned.entities_eq_some_iff.mpr (.inr
          ⟨fun transition htransition hsame => htouched ⟨transition, htransition, hsame⟩, hrow⟩)⟩
      · exact absurd (hrun.planned.transition_of_minted hminted) htouched

theorem RunPlanned.size_le (hsound : lake.Sound)
    (hrun : RunPlanned digest input stamp lake result groups plan) :
    lake.entities.size + plan.minted.length ≤
      (commit lake (statementsOf digest input stamp lake plan)).entities.size := by
  have hnodup : (lake.entities.keys ++ plan.minted).Nodup := by
    rw [List.nodup_append]
    refine ⟨BTreeMap.keys_nodup _, hrun.minted_nodup, ?_⟩
    intro old hold new hnew hsame
    exact hrun.minted_new hsound hnew (hsame ▸ BTreeMap.mem_keys.mp hold)
  have hsubset : lake.entities.keys ++ plan.minted ⊆
      (commit lake (statementsOf digest input stamp lake plan)).entities.keys := by
    intro id hid
    rw [BTreeMap.mem_keys, hrun.mem_entities_after hsound]
    rcases List.mem_append.mp hid with hold | hnew
    · exact .inl (BTreeMap.mem_keys.mp hold)
    · exact .inr hnew
  have hlength := (List.subperm_of_subset hnodup hsubset).length_le
  rwa [List.length_append, Std.ExtTreeMap.length_keys, Std.ExtTreeMap.length_keys] at hlength

/-- The step lemma: a completed run leaves a sound lake. -/
theorem Lake.Sound.after (hsound : lake.Sound)
    (hrun : RunPlanned digest input stamp lake result groups plan) :
    (commit lake (statementsOf digest input stamp lake plan)).Sound where
  member_active {record id} hmember := by
    rw [entityOf_after] at hmember
    have hlive : id ∉ orphanedLive (written input stamp lake plan) := fun horphaned =>
      (mem_orphanedLive.mp horphaned).2 record hmember
    rw [rowOf_after, if_neg hlive, hrun.rowOf_written]
    exact hrun.planned.active_of_lands hsound.member_active_registry
      (hrun.entityOf_written.mp hmember).2
  active_member {id row} hrow hactive := by
    rw [rowOf_after] at hrow
    split at hrow
    · cases hrow
      cases hactive
    · rename_i hlive
      rw [mem_orphanedLive] at hlive
      by_contra hnone
      apply hlive
      refine ⟨⟨row, hrow, hactive⟩, ?_⟩
      intro record hmember
      exact hnone ⟨record, entityOf_after.trans hmember⟩
  below {id} hid := by
    have hsize := hrun.size_le hsound
    rcases (hrun.mem_entities_after hsound).mp hid with hold | hnew
    · have := hsound.below hold
      omega
    · rw [hrun.planned.facts.minted] at hnew hsize
      obtain ⟨i, hi, rfl⟩ := List.mem_map.mp hnew
      rw [List.mem_range] at hi
      rw [List.length_map, List.length_range] at hsize
      have hcounter : ((deterministicV7Factory stamp.runAt lake.entities.size).draw i).counter =
          lake.entities.size + i := rfl
      omega

end After

end Tables

end Run

/-- The lakes that completed runs make out of the empty one, whatever each of them reads and
whatever its stamp, with every id that was minted on the way. -/
inductive RunHistory (P : Type v) (C : Type w) (V : Type x) (A : Type y) [LinearOrder H]
    [LinearOrder P] [One P] [DecidableEq V] (digest : EventDetails R V7Id → H) :
    Lake R H → List V7Id → Prop
  | start : RunHistory P C V A digest .fresh []
  | run {lake : Lake R H} {minted : List V7Id} {input : ReconcileInput R P C V A}
      {stamp : RunStamp} {plan : ReconcilePlan R V7Id H}
      (hhistory : RunHistory P C V A digest lake minted)
      (hplan : runPlan digest input stamp lake = .ok plan) :
      RunHistory P C V A digest (commit lake (statementsOf digest input stamp lake plan))
        (minted ++ plan.minted)

section Histories

variable [LinearOrder H] [LinearOrder P] [One P] [DecidableEq V]
  {digest : EventDetails R V7Id → H} {lake : Lake R H} {minted : List V7Id}

/-- The run lemma: every lake of a history is sound and has a row for every minted id. -/
theorem RunHistory.sound (hhistory : RunHistory P C V A digest lake minted) :
    lake.Sound ∧ ∀ id ∈ minted, id ∈ lake.entities := by
  induction hhistory with
  | start => exact ⟨sound_fresh, fun id hid => absurd hid (List.not_mem_nil)⟩
  | run _ hplan ih =>
      obtain ⟨result, groups, hrun⟩ := ih.1.exists_runPlanned hplan
      refine ⟨ih.1.after hrun, ?_⟩
      intro id hid
      rw [hrun.mem_entities_after ih.1]
      rcases List.mem_append.mp hid with hold | hnew
      · exact .inl (ih.2 id hold)
      · exact .inr hnew

/-- After every run of a history the membership covers the unsuppressed corpus and nothing
outside the corpus, the active entities are those that have records, and the run minted no id
a second time. -/
theorem membership_after_run (hhistory : RunHistory P C V A digest lake minted)
    {input : ReconcileInput R P C V A} {stamp : RunStamp} {plan : ReconcilePlan R V7Id H}
    (hplan : runPlan digest input stamp lake = .ok plan) {after : Lake R H}
    (hafter : after = commit lake (statementsOf digest input stamp lake plan)) :
    (∀ record ∈ input.corpus, record ∉ input.suppressed →
      ∃ row, after.membership[record]? = some row) ∧
    (∀ record, record ∉ input.corpus → after.membership[record]? = none) ∧
    (∀ (id : V7Id) (entity : ResolvedEntity), after.entities[id]? = some entity →
      (entity.status = .active ↔
        ∃ (record : R) (row : MembershipRow), after.membership[record]? = some row ∧
          row.entityId = id)) ∧
    (∀ (record : R) (row : MembershipRow), after.membership[record]? = some row →
      ∃ entity, after.entities[row.entityId]? = some entity ∧ entity.status = .active) ∧
    plan.minted.Nodup ∧ ∀ id ∈ plan.minted, id ∉ minted := by
  obtain ⟨hsound, hminted⟩ := hhistory.sound
  obtain ⟨result, groups, hrun⟩ := hsound.exists_runPlanned hplan
  have hafterSound : after.Sound := hafter ▸ hsound.after hrun
  have hentityOf (record : R) (id : V7Id) : after.entityOf record = some id ↔
      ∃ row, after.membership[record]? = some row ∧ row.entityId = id := Option.map_eq_some_iff
  have hrowOf (id : V7Id) (entity : ResolvedEntity) (hentity : after.entities[id]? = some entity) :
      after.rowOf id = some entity.row := Option.map_eq_some_iff.mpr ⟨entity, hentity, rfl⟩
  have hactive (record : R) (row : MembershipRow) (hrow : after.membership[record]? = some row) :
      ∃ entity, after.entities[row.entityId]? = some entity ∧ entity.status = .active := by
    have hmember := hafterSound.member_active ((hentityOf record row.entityId).mpr ⟨row, hrow, rfl⟩)
    obtain ⟨entity, hentity, hsame⟩ := Option.map_eq_some_iff.mp hmember
    exact ⟨entity, hentity, congrArg EntityRow.status hsame⟩
  refine ⟨?_, ?_, ?_, hactive, hrun.minted_nodup, ?_⟩
  · intro record hcorpus hunsuppressed
    obtain ⟨id, hid⟩ := hrun.exists_member hcorpus hunsuppressed
    have hmember : after.entityOf record = some id := by
      rw [hafter, entityOf_after, hid]
    obtain ⟨row, hrow, _⟩ := (hentityOf record id).mp hmember
    exact ⟨row, hrow⟩
  · intro record hcorpus
    apply Option.eq_none_iff_forall_ne_some.mpr
    intro row hrow
    have hmember := (hentityOf record row.entityId).mpr ⟨row, hrow, rfl⟩
    rw [hafter, entityOf_after] at hmember
    exact hcorpus (hrun.entityOf_written.mp hmember).1
  · intro id entity hentity
    apply Iff.intro
    · intro hstatus
      obtain ⟨record, hrecord⟩ := hafterSound.active_member (hrowOf id entity hentity) hstatus
      exact ⟨record, (hentityOf record id).mp hrecord⟩
    · intro h
      obtain ⟨record, row, hrow, rfl⟩ := h
      obtain ⟨other, hother, hstatus⟩ := hactive record row hrow
      cases hentity.symm.trans hother
      exact hstatus
  · intro id hid hearlier
    exact hrun.minted_new hsound hid (hminted id hearlier)

end Histories

/-- A digest that tells events apart by their number of members. -/
def sampleRunDigest (details : EventDetails ℕ V7Id) : ℕ := details.memberKeys.length

theorem membership_after_run_sample : ∃ plan,
    runPlan sampleRunDigest sampleVeto ⟨"first", 7⟩ .fresh = .ok plan ∧
      ∃ row, (commit .fresh (statementsOf sampleRunDigest sampleVeto ⟨"first", 7⟩ .fresh
        plan)).membership[1]? = some row := by
  have hcompletes : (runPlan sampleRunDigest sampleVeto ⟨"first", 7⟩ .fresh).toOption.isSome =
      true := by
    decide +kernel
  cases hplan : runPlan sampleRunDigest sampleVeto ⟨"first", 7⟩ .fresh with
  | error error => simp [hplan, Except.toOption] at hcompletes
  | ok plan =>
      have hcorpus : 1 ∈ sampleVeto.corpus := by decide +kernel
      have hunsuppressed : 1 ∉ sampleVeto.suppressed := by decide
      exact ⟨plan, rfl, (membership_after_run .start hplan rfl).1 1 hcorpus hunsuppressed⟩

end EntityResolution.Reconcile
