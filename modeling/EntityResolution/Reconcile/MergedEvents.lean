/-
# What the ledger says of merged entities

A `merged` event is recorded on the entity that lost its records, and names the claimant in its
details. Over any history of runs an entity with a `merged` event of its own has the status
`merged`: it is never active again.
-/

import EntityResolution.Reconcile.Crash

namespace EntityResolution.Reconcile

open EntityResolution.Collections EntityResolution.Identity EntityResolution.NeverCut

universe v w x y

variable {R H : Type} {P : Type v} {C : Type w} {V : Type x} {A : Type y} [LinearOrder R]
  [LinearOrder H] [LinearOrder P] [One P] [DecidableEq V]

/-- The lakes of run histories, with the records of the corpus of the last run. -/
inductive CorpusHistory (P : Type v) (C : Type w) (V : Type x) (A : Type y) [LinearOrder P]
    [One P] [DecidableEq V] (digest : EventDetails R V7Id → H) : Lake R H → List R → Prop
  | start : CorpusHistory P C V A digest .fresh []
  | run {lake : Lake R H} {minted : List V7Id} {input : ReconcileInput R P C V A}
      {stamp : RunStamp} {plan : ReconcilePlan R V7Id H}
      (hhistory : RunHistory P C V A digest lake minted)
      (hplan : runPlan digest input stamp lake = .ok plan) :
      CorpusHistory P C V A digest (commit lake (statementsOf digest input stamp lake plan))
        input.corpus.keys

section Step

variable {digest : EventDetails R V7Id → H} {input : ReconcileInput R P C V A} {stamp : RunStamp}
  {lake : Lake R H} {plan : ReconcilePlan R V7Id H} {result : CutResult R P (RuleId R A)}
  {groups : BTreeMap R (Finset R)}

omit [LinearOrder P] [One P] [DecidableEq V] in
theorem mem_events_after {row : LedgerEvent R H} :
    row ∈ (commit lake (statementsOf digest input stamp lake plan)).events →
      row ∈ lake.events ∨ row.event ∈ runEvents digest input lake plan
        (orphanedLive (written input stamp lake plan)) := by
  rw [commit_statementsOf]
  intro hrow
  rcases List.mem_append.mp hrow with hold | hnew
  · exact Or.inl hold
  · obtain ⟨entry, hentry, rfl⟩ := List.mem_map.mp hnew
    have hevent : entry.1 ∈ (runEvents digest input lake plan
        (orphanedLive (written input stamp lake plan))).zipIdx.map Prod.fst :=
      List.mem_map_of_mem hentry
    rw [List.zipIdx_map_fst] at hevent
    exact Or.inr hevent

omit [LinearOrder H] in
/-- A run leaves the row of a merged entity alone. -/
theorem RunPlanned.rowOf_written_of_merged (hsound : lake.Sound)
    (hrun : RunPlanned digest input stamp lake result groups plan) {id : V7Id}
    {row : EntityRow V7Id} (hrow : lake.rowOf id = some row) (hstatus : row.status = .merged) :
    (written input stamp lake plan).rowOf id = some row := by
  rw [hrun.rowOf_written, hrun.planned.entities_eq_some_iff]
  refine Or.inr ⟨?_, registry_entities.trans hrow⟩
  rintro transition htransition rfl
  rcases htransition.entity_origin with ⟨before, hbefore⟩ | ⟨key, hid⟩
  · obtain ⟨record, hrecord⟩ := Registry.exists_record_of_oldSets hbefore
    have hactive := hsound.member_active_registry hrecord
    rw [registry_entities, hrow] at hactive
    rw [Option.some.inj hactive] at hstatus
    cases hstatus
  · exact hrun.minted_new hsound (hrun.planned.mintedId_spec hid).1
      (mem_entities_iff.mpr ⟨row, hrow⟩)

omit [LinearOrder H] in
/-- A planned merge leaves its entity merged. -/
theorem RunPlanned.rowOf_written_of_event
    (hrun : RunPlanned digest input stamp lake result groups plan)
    {event : PlannedEvent R V7Id H} (hevent : event ∈ plan.events)
    (htype : event.eventType = .merged) :
    ∃ claimant, (written input stamp lake plan).rowOf event.entityId =
      some ⟨.merged, some claimant⟩ := by
  have hplanned := ((hrun.planned.facts.mem_events event).mp hevent).1
  rw [htype] at hplanned
  generalize event.details = details at hplanned
  cases hplanned with
  | @merged _ claimant _ _ hoffer haccepted hlost _ =>
      refine ⟨claimant, ?_⟩
      rw [hrun.rowOf_written]
      exact hrun.planned.entities_of_transition (.merged hoffer haccepted hlost)

end Step

/-- The entity of a `merged` event is merged. -/
theorem RunHistory.merged_of_event {digest : EventDetails R V7Id → H} {lake : Lake R H}
    {minted : List V7Id} (hhistory : RunHistory P C V A digest lake minted)
    {row : LedgerEvent R H} (hrow : row ∈ lake.events) (htype : row.event.eventType = .merged) :
    ∃ entity, lake.rowOf row.event.entityId = some entity ∧ entity.status = .merged := by
  induction hhistory with
  | start => exact absurd hrow List.not_mem_nil
  | @run lake minted input stamp plan hhistory hplan ih =>
      have hsound := hhistory.sound.1
      obtain ⟨result, groups, hrun⟩ := hsound.exists_runPlanned hplan
      have hwritten : ∃ entity, (written input stamp lake plan).rowOf row.event.entityId =
          some entity ∧ entity.status = .merged := by
        rcases mem_events_after hrow with hold | hnew
        · obtain ⟨entity, hentity, hstatus⟩ := ih hold
          exact ⟨entity, hrun.rowOf_written_of_merged hsound hentity hstatus, hstatus⟩
        · rcases mem_runEvents.mp hnew with hplanned | hdeparted | hretired
          · obtain ⟨claimant, hentity⟩ := hrun.rowOf_written_of_event hplanned htype
            exact ⟨_, hentity, rfl⟩
          · rw [departedEvents_type hdeparted] at htype
            cases htype
          · obtain ⟨id, _, hevent⟩ := List.mem_map.mp hretired
            rw [← hevent] at htype
            cases htype
      obtain ⟨entity, hentity, hstatus⟩ := hwritten
      refine ⟨entity, ?_, hstatus⟩
      rw [rowOf_after, if_neg, hentity]
      intro horphaned
      obtain ⟨other, hother, hactive⟩ := (mem_orphanedLive.mp horphaned).1
      rw [hentity] at hother
      rw [← Option.some.inj hother, hstatus] at hactive
      cases hactive

/-- A lake of a history is sound, and its members are of the corpus of the last run. -/
theorem CorpusHistory.sound {digest : EventDetails R V7Id → H} {lake : Lake R H} {corpus : List R}
    (hhistory : CorpusHistory P C V A digest lake corpus) :
    (∃ minted, RunHistory P C V A digest lake minted) ∧
      ∀ record, record ∈ lake.membership → record ∈ corpus := by
  cases hhistory with
  | start => exact ⟨⟨[], .start⟩, fun record hrecord => absurd hrecord (by simp [Lake.fresh])⟩
  | run hhistory hplan =>
      refine ⟨⟨_, hhistory.run hplan⟩, ?_⟩
      intro record hrecord
      by_contra hcorpus
      obtain ⟨row, hrow⟩ := BTreeMap.mem_iff_exists_getElem?.mp hrecord
      have hnone := (membership_after_run hhistory hplan rfl).2.1 record
        (fun hmem => hcorpus (BTreeMap.mem_keys.mpr hmem))
      rw [hnone] at hrow
      cases hrow

end EntityResolution.Reconcile
