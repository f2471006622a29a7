/-
# A run that is cut and started again

A run sends its tables first and its events last, one by one, and a run that is started again
plans on whatever the cut left. Once the tables are written the second attempt finds nothing
to do, so the events that were not yet appended are lost; before that, it finds records that
already point to entities without a row, or records that left the corpus a second time. An
attempt therefore makes good for every cut only when there was nothing to write at all.
-/

import EntityResolution.Reconcile.Settled

namespace EntityResolution.Reconcile

open EntityResolution.Collections EntityResolution.Identity EntityResolution.NeverCut
open EntityResolution.Tables

universe u v w x y

section Plans

variable {R E H : Type u} [LinearOrder R] [LinearOrder E] {digest : EventDetails R E → H}
  {pOld : BTreeMap E (List R)} {pNew : List (List R)} {factory : IdFactory E}
  {groups : BTreeMap R (Finset R)} {plan : ReconcilePlan R E H}

theorem Planned.mem_events_new (hrun : Planned digest pOld pNew factory groups plan) {entity : E}
    {eventType : EventType} {details : EventDetails R E} :
    .new digest entity eventType details ∈ plan.events ↔
      PlansEvent (oldSets pOld) groups factory entity eventType details := by
  rw [hrun.facts.mem_events]
  exact and_iff_left rfl

theorem Planned.entityOfRecord_iff (hrun : Planned digest pOld pNew factory groups plan)
    {record : R} {entity : E} : (entityOfRecord (oldSets pOld))[record]? = some entity ↔
      ∃ before, (oldSets pOld)[entity]? = some before ∧ record ∈ before :=
  BTreeMap.ownerOf_eq_some_iff hrun.disjoint

theorem Planned.not_mintedId (hrun : Planned digest pOld pNew factory groups plan)
    (hminted : plan.minted = []) (key : R) (id : E) :
    (mintedIds (oldSets pOld) groups factory)[key]? ≠ some id := by
  intro hid
  have hmem := (hrun.mintedId_spec hid).1
  rw [hminted] at hmem
  cases hmem

theorem PlansEvent.exists_added {old : BTreeMap E (Finset R)} {entity : E}
    {details : EventDetails R E}
    (hevent : PlansEvent old groups factory entity .memberAdded details) :
    ∃ record ∈ details.memberKeys, record ∈ clustered groups := by
  cases hevent with
  | memberAdded hkey haccepted hjoined =>
      obtain ⟨record, hrecord⟩ := List.exists_mem_of_ne_nil _ hjoined
      have hmem := (Finset.mem_sort _).mp (List.mem_filter.mp hrecord).1
      exact ⟨record, hrecord, mem_clustered.mpr ⟨_, _, hkey, hmem⟩⟩

/-- A plan without events assigns no record and mints no id. -/
theorem Planned.silent_of_no_events (hrun : Planned digest pOld pNew factory groups plan)
    (hnone : plan.events = []) : plan.assignments = [] ∧ plan.minted = [] := by
  have hevent (entity : E) (eventType : EventType) (details : EventDetails R E) :
      ¬ PlansEvent (oldSets pOld) groups factory entity eventType details := by
    rw [← hrun.mem_events_new, hnone]
    exact List.not_mem_nil
  have hkeys : mintKeys (oldSets pOld) groups = [] := by
    apply List.eq_nil_iff_forall_not_mem.mpr
    intro key hkey
    obtain ⟨id, hid⟩ := exists_mintedId hrun.canonical hkey
    rcases mem_mintKeys.mp hkey with ⟨⟨members, hmembers⟩, hunclaimed⟩ | horphan
    · exact hevent _ _ _ (.created hmembers hunclaimed hid)
    · exact hevent _ _ _ (.orphan horphan hid)
  have hminted : plan.minted = [] := by
    rw [hrun.facts.minted, hkeys]
    rfl
  refine ⟨?_, hminted⟩
  apply List.eq_nil_iff_forall_not_mem.mpr
  intro row hrow
  obtain ⟨hlands, hchanged⟩ := (hrun.facts.mem_assignments row).mp hrow
  cases hlands with
  | orphan horphan hid => exact hrun.not_mintedId hminted _ _ hid
  | @grouped key _ members _ hkey hmem hholder =>
      cases haccepted : (accepted (oldSets pOld) groups)[key]? with
      | none =>
          rw [holder_of_unclaimed haccepted] at hholder
          exact hrun.not_mintedId hminted _ _ hholder
      | some claimant =>
          rw [holder_of_accepted haccepted] at hholder
          cases hholder
          -- A record without an entity was announced as added, one of another entity as
          -- merged or split.
          cases hbefore : (entityOfRecord (oldSets pOld))[row.recordKey]? with
          | none =>
              apply hevent _ _ _ (.memberAdded hkey haccepted _)
              apply List.ne_nil_of_mem (a := row.recordKey)
              simp [joined, hmem, BTreeMap.mem_iff_exists_getElem?, hbefore]
          | some other =>
              obtain ⟨before, hold, hin⟩ := hrun.entityOfRecord_iff.mp hbefore
              have hcell := exists_cell_of_mem hkey hold hmem hin
              have hother : row.entityId ≠ other := by
                intro hsame
                exact hchanged (hsame ▸ hbefore)
              by_cases hoffer : (offers (oldSets pOld) groups)[other]? = some key
              · exact hevent _ _ _ (.merged hoffer haccepted hother hcell)
              · exact hevent _ _ _ (.split hkey (holder_of_accepted haccepted) hcell hoffer)

/-- When every entity is one group's records, as far as it goes, and nothing is minted, the
only events are of records that no entity held. -/
theorem Planned.added_of_nested (hrun : Planned digest pOld pNew factory groups plan)
    (hminted : plan.minted = [])
    (hclustered : ∀ {record : R} {entity : E},
      (entityOfRecord (oldSets pOld))[record]? = some entity → record ∈ clustered groups)
    (hnested : ∀ {first second key : R} {entity : E} {members : Finset R},
      groups[key]? = some members → first ∈ members →
      (entityOfRecord (oldSets pOld))[first]? = some entity →
      ((entityOfRecord (oldSets pOld))[second]? = some entity → second ∈ members) ∧
      ∀ other, second ∈ members → (entityOfRecord (oldSets pOld))[second]? = some other →
        other = entity)
    {entity : E} {eventType : EventType} {details : EventDetails R E}
    (hevent : PlansEvent (oldSets pOld) groups factory entity eventType details) :
    eventType = .memberAdded ∧ ∃ (key : R) (members : Finset R), groups[key]? = some members ∧
      details.memberKeys = joined (oldSets pOld) members := by
  have howner {record : R} {entity : E} {before : Finset R}
      (hbefore : (oldSets pOld)[entity]? = some before) (hmem : record ∈ before) :
      (entityOfRecord (oldSets pOld))[record]? = some entity :=
    hrun.entityOfRecord_iff.mpr ⟨before, hbefore, hmem⟩
  cases hevent with
  | created hkey hunclaimed hid => exact absurd hid (hrun.not_mintedId hminted _ _)
  | orphan horphan hid => exact absurd hid (hrun.not_mintedId hminted _ _)
  | memberAdded hkey haccepted hjoined => exact ⟨rfl, _, _, hkey, rfl⟩
  | memberRemoved hkey haccepted hbefore hleft =>
      rcases offer_mem (accepted_spec haccepted).1 with
        ⟨members, before, hkey', hbefore', shared, hin⟩
      cases hkey.symm.trans hkey'
      cases hbefore.symm.trans hbefore'
      obtain ⟨hshared, hshared'⟩ := Finset.mem_inter.mp hin
      obtain ⟨gone, hgone⟩ := List.exists_mem_of_ne_nil _ hleft
      obtain ⟨hheld, hout⟩ := Finset.mem_sdiff.mp ((Finset.mem_sort _).mp hgone)
      exact absurd ((hnested hkey hshared (howner hbefore hshared')).1 (howner hbefore hheld)) hout
  | split hkey hholder hcell helsewhere =>
      obtain ⟨members, before, hkey', hbefore, rfl, shared, hin⟩ := cell?_overlapMatrix.mp hcell
      obtain ⟨hshared, hshared'⟩ := Finset.mem_inter.mp hin
      obtain ⟨other, hoffer⟩ := exists_offer_of_cell hcell
      obtain ⟨members', before', hother, hbefore'', record, hin'⟩ := offer_mem hoffer
      cases hbefore.symm.trans hbefore''
      obtain ⟨hrecord, hrecord'⟩ := Finset.mem_inter.mp hin'
      have hboth := (hnested hkey' hshared (howner hbefore hshared')).1 (howner hbefore hrecord')
      have hsame := hrun.canonical.disjoint.owner_unique hother hkey' hrecord hboth
      exact absurd (hsame ▸ hoffer) helsewhere
  | retired hbefore hoffer =>
      obtain ⟨members, hmembers, rfl⟩ := oldSets_eq_some_iff.mp hbefore
      obtain ⟨record, hin⟩ := List.exists_mem_of_ne_nil _ (hrun.membership.nonempty _ _ hmembers)
      have hin' : record ∈ members.toFinset := by simpa using hin
      obtain ⟨key, group, hkey, hmem⟩ := mem_clustered.mp (hclustered (howner hbefore hin'))
      obtain ⟨other, hother⟩ := exists_offer_of_cell (exists_cell_of_mem hkey hbefore hmem hin')
      cases hoffer.symm.trans hother
  | merged hoffer haccepted hlost hcell =>
      obtain ⟨members, before, hkey, hbefore, record, hin⟩ := offer_mem hoffer
      rcases offer_mem (accepted_spec haccepted).1 with
        ⟨members', before', hkey', hbefore', other, hin'⟩
      cases hkey.symm.trans hkey'
      obtain ⟨hrecord, hheld⟩ := Finset.mem_inter.mp hin
      obtain ⟨hother, hheld'⟩ := Finset.mem_inter.mp hin'
      exact absurd ((hnested hkey hrecord (howner hbefore hheld)).2 _ hother
        (howner hbefore' hheld'))
        hlost

end Plans

variable {R H : Type} {P : Type v} {C : Type w} {V : Type x} {A : Type y} [LinearOrder R]
  [LinearOrder P] [One P] [DecidableEq V]

/-- What a ledger row says, without the position that its id is derived from. -/
def LedgerEvent.content (row : LedgerEvent R H) : String × PlannedEvent R V7Id H × ℕ :=
  (row.runId, row.event, row.occurredAt)

/-- The same membership, the same entity rows and, up to event ids, the same events. -/
structure SameOutcome (again full : Lake R H) : Prop where
  membership : again.membership = full.membership
  entities : again.entities = full.entities
  events : (again.events.map LedgerEvent.content).Perm (full.events.map LedgerEvent.content)

/-- Wherever the run is cut, starting it again completes and leaves what the run would have
left uncut. -/
def Recovers [LinearOrder H] (digest : EventDetails R V7Id → H) (input : ReconcileInput R P C V A)
    (stamp : RunStamp) (lake : Lake R H) (plan : ReconcilePlan R V7Id H) : Prop :=
  ∀ k, ∃ again, afterRun digest input stamp
      (commit lake ((statementsOf digest input stamp lake plan).take k)) = .ok again ∧
    SameOutcome again (commit lake (statementsOf digest input stamp lake plan))

section Ledger

variable [LinearOrder H] {digest : EventDetails R V7Id → H} {input : ReconcileInput R P C V A}
  {stamp : RunStamp} {lake again : Lake R H} {plan : ReconcilePlan R V7Id H}

theorem exists_plan_of_afterRun (hagain : afterRun digest input stamp lake = .ok again) :
    ∃ plan, runPlan digest input stamp lake = .ok plan ∧
      again = commit lake (statementsOf digest input stamp lake plan) := by
  cases hplan : runPlan digest input stamp lake with
  | error error => simp [afterRun, runReconcile, hplan, Except.map] at hagain
  | ok plan =>
      simp only [afterRun, runReconcile, hplan, Except.map, Except.ok.injEq] at hagain
      exact ⟨plan, rfl, hagain.symm⟩

omit [LinearOrder P] [One P] [DecidableEq V] in
theorem mem_runEvents {orphaned : List V7Id} {event : PlannedEvent R V7Id H} :
    event ∈ runEvents digest input lake plan orphaned ↔ event ∈ plan.events ∨
      event ∈ departedEvents digest input lake ∨
      event ∈ retiredEvents digest input lake orphaned := by
  rw [runEvents, sortPlannedEvents, List.mem_insertionSort, List.mem_append,
    List.mem_append, or_assoc]

omit [LinearOrder P] [One P] [DecidableEq V] in
/-- A run adds what it says to the ledger. -/
theorem contents_after :
    (commit lake (statementsOf digest input stamp lake plan)).events.map LedgerEvent.content =
      lake.events.map LedgerEvent.content ++
        (runEvents digest input lake plan (orphanedLive (written input stamp lake plan))).map
          fun event => (stamp.runId, event, stamp.runAt) := by
  generalize hevents : runEvents digest input lake plan
    (orphanedLive (written input stamp lake plan)) = events
  have hcontents : (events.zipIdx.map fun entry =>
      (⟨entry.2, stamp.runId, entry.1, stamp.runAt⟩ : LedgerEvent R H)).map LedgerEvent.content =
        (events.zipIdx.map Prod.fst).map fun event => (stamp.runId, event, stamp.runAt) := by
    rw [List.map_map, List.map_map]
    rfl
  rw [commit_statementsOf, hevents, List.map_append, hcontents, List.zipIdx_map_fst]

omit [LinearOrder P] [One P] [DecidableEq V] [LinearOrder H] in
theorem exists_departedEvent {record : R} {id : V7Id} (hoff : record ∉ input.corpus)
    (hid : lake.entityOf record = some id) :
    ∃ event ∈ departedEvents digest input lake, event.eventType = .memberRemoved := by
  obtain ⟨row, hrow, hsame⟩ := Option.map_eq_some_iff.mp hid
  have hgone : ((lake.membership.filter fun record _ => !input.corpus.keys.contains record).map
      fun _ row => row.entityId)[record]? = some id := by
    rw [BTreeMap.getElem?_map_eq, BTreeMap.getElem?_filter_eq, hrow]
    simp [hoff, hsame]
  obtain ⟨members, hmembers⟩ := BTreeMap.exists_keysByValue hgone
  exact ⟨_, List.mem_map.mpr ⟨(id, members), BTreeMap.mem_toList.mpr hmembers, rfl⟩, rfl⟩

omit [LinearOrder H] [LinearOrder P] [One P] [DecidableEq V] in
theorem departedEvents_type {event : PlannedEvent R V7Id H}
    (hevent : event ∈ departedEvents digest input lake) : event.eventType = .memberRemoved := by
  obtain ⟨_, _, rfl⟩ := List.mem_map.mp hevent
  rfl

omit [LinearOrder H] in
theorem Lake.Sound.withEvents (hsound : lake.Sound) (events : List (LedgerEvent R H)) :
    ({ lake with events } : Lake R H).Sound :=
  ⟨hsound.member_active, hsound.active_member, hsound.below⟩

omit [LinearOrder P] [One P] [DecidableEq V] in
theorem exists_take_tables : ∃ k,
    commit lake ((statementsOf digest input stamp lake plan).take k) =
      { commit lake (statementsOf digest input stamp lake plan) with events := lake.events } := by
  have hsplit : statementsOf digest input stamp lake plan =
      (planStatements input stamp plan ++
        retireStatements stamp (orphanedLive (written input stamp lake plan))) ++
      eventStatements stamp (runEvents digest input lake plan
        (orphanedLive (written input stamp lake plan))) := by
    simp only [statementsOf, commit_planStatements]
  refine ⟨(planStatements input stamp plan ++
    retireStatements stamp (orphanedLive (written input stamp lake plan))).length, ?_⟩
  rw [commit_statementsOf, hsplit, List.take_left, commit_append, commit_planStatements,
    commit_retireStatements]
  rfl

end Ledger

/-! ## The second attempt on complete tables -/

section Attempt

variable [LinearOrder H] {digest : EventDetails R V7Id → H} {input : ReconcileInput R P C V A}
  {stamp : RunStamp} {lake tables : Lake R H} {result : CutResult R P (RuleId R A)}
  {groups groups' : BTreeMap R (Finset R)} {plan plan' : ReconcilePlan R V7Id H}

omit [LinearOrder H] in
/-- A second attempt that mints nothing says only that records outside the corpus were added. -/
theorem RunPlanned.added_outside
    (hrun : RunPlanned digest input stamp lake result groups plan)
    (hagain : RunPlanned digest input stamp tables result groups' plan')
    (htables : ∀ (record : R) (id : V7Id), tables.entityOf record = some id ↔
      record ∈ input.corpus ∧ Lands (oldSets (lake.registry input.corpus.keys).pOld) groups
        (deterministicV7Factory stamp.runAt lake.entities.size) record id)
    (hminted : plan'.minted = []) {event : PlannedEvent R V7Id H} (hevent : event ∈ plan'.events) :
    event.eventType = .memberAdded ∧
      ∀ record ∈ event.details.memberKeys, record ∉ input.corpus := by
  have hheld {record : R} {id : V7Id} :
      (entityOfRecord (oldSets (tables.registry input.corpus.keys).pOld))[record]? = some id ↔
        record ∈ input.corpus ∧ Lands (oldSets (lake.registry input.corpus.keys).pOld) groups
          (deterministicV7Factory stamp.runAt lake.entities.size) record id := by
    rw [entityOfRecord_registry, htables]
    exact and_self_left
  have hclustered {record : R} {id : V7Id} (hid :
      (entityOfRecord (oldSets (tables.registry input.corpus.keys).pOld))[record]? = some id) :
      record ∈ clustered groups' := by
    by_contra hnowhere
    have horphan : record ∈ orphans (oldSets (tables.registry input.corpus.keys).pOld) groups' :=
      mem_orphans.mpr ⟨⟨id, hid⟩, hnowhere⟩
    rcases exists_mintedId hagain.planned.canonical (mem_mintKeys.mpr (.inr horphan)) with
      ⟨fresh, hfresh⟩
    exact hagain.planned.not_mintedId hminted record fresh hfresh
  -- The entities of the tables are the groups, as far as the corpus goes.
  have hnested {first second key : R} {id : V7Id} {members : Finset R}
      (hkey : groups'[key]? = some members) (hfirst : first ∈ members)
      (hid : (entityOfRecord (oldSets
        (tables.registry input.corpus.keys).pOld))[first]? = some id) :
      ((entityOfRecord (oldSets (tables.registry input.corpus.keys).pOld))[second]? = some id →
        second ∈ members) ∧
      ∀ other, second ∈ members →
        (entityOfRecord (oldSets (tables.registry input.corpus.keys).pOld))[second]? = some other →
          other = id := by
    obtain ⟨group, hgroup, rfl⟩ := ((hagain.planned.groups_eq_some_iff key members).mp hkey).1
    rw [List.mem_toFinset] at hfirst
    have htogether (record : R) : Lands (oldSets (lake.registry input.corpus.keys).pOld) groups
        (deterministicV7Factory stamp.runAt lake.entities.size) record id ↔ _ :=
      hrun.planned.lands_together_iff (hheld.mp hid).2
    apply And.intro
    · intro hsecond
      rw [List.mem_toFinset]
      rcases (htogether second).mp (hheld.mp hsecond).2 with ⟨group', hgroup', hin, hin'⟩ | ⟨rfl, _⟩
      · have hone : group = group' := by
          by_contra hne
          exact hrun.planned.partition.disjoint_of_ne hgroup hgroup' hne hfirst hin
        rwa [hone]
      · exact hfirst
    · intro other hsecond hother
      rw [List.mem_toFinset] at hsecond
      have hlands := (htogether second).mpr (.inl ⟨group, hgroup, hfirst, hsecond⟩)
      exact (hheld.mp hother).2.unique hrun.planned.canonical hlands
  obtain ⟨htype, key, members, hkey, hkeys⟩ :=
    hagain.planned.added_of_nested hminted hclustered hnested
      ((hagain.planned.facts.mem_events event).mp hevent).1
  refine ⟨htype, ?_⟩
  intro record hrecord hcorpus
  rw [hkeys, joined, List.mem_filter, Finset.mem_sort, decide_eq_true_iff] at hrecord
  have hknown : record ∈ clustered groups := by
    rw [hrun.mem_clustered_iff, ← hagain.mem_clustered_iff]
    exact mem_clustered.mpr ⟨key, members, hkey, hrecord.1⟩
  have hlands : ∃ id, Lands (oldSets (lake.registry input.corpus.keys).pOld) groups
      (deterministicV7Factory stamp.runAt lake.entities.size) record id :=
    exists_lands hrun.planned.canonical (.inl hknown)
  obtain ⟨id, hid⟩ := hlands
  exact hrecord.2 (BTreeMap.mem_iff_exists_getElem?.mpr ⟨id, hheld.mpr ⟨hcorpus, hid⟩⟩)

/-- A second attempt that leaves the entity rows as they are mints and retires nothing. -/
theorem RunPlanned.nothing_new (hsound : tables.Sound)
    (hagain : RunPlanned digest input stamp tables result groups' plan')
    (hsame : (commit tables (statementsOf digest input stamp tables plan')).entities =
      tables.entities) :
    plan'.minted = [] ∧ orphanedLive (written input stamp tables plan') = [] := by
  have hminted : plan'.minted = [] := by
    have hsize := hagain.size_le hsound
    rw [hsame] at hsize
    exact List.length_eq_zero_iff.mp (by omega)
  refine ⟨hminted, ?_⟩
  apply List.eq_nil_iff_forall_not_mem.mpr
  intro id hid
  have hretired : tables.rowOf id = some ⟨.retired, none⟩ := by
    have hrow : (commit tables (statementsOf digest input stamp tables plan')).rowOf id =
        some ⟨.retired, none⟩ := by
      rw [rowOf_after, if_pos hid]
    rwa [Lake.rowOf, hsame] at hrow
  obtain ⟨row, hrow, hactive⟩ := (mem_orphanedLive.mp hid).1
  rw [hagain.rowOf_written] at hrow
  rcases hagain.planned.entities_eq_some_iff.mp hrow with
    ⟨transition, htransition, rfl, _⟩ | ⟨_, hold⟩
  · rcases htransition.entity_origin with ⟨before, hbefore⟩ | ⟨key, hfresh⟩
    · obtain ⟨record, hrecord⟩ := Registry.exists_record_of_oldSets hbefore
      have hlive := hsound.member_active_registry hrecord
      rw [registry_entities] at hlive
      cases hretired.symm.trans hlive
    · exact hagain.planned.not_mintedId hminted key _ hfresh
  · rw [registry_entities] at hold
    cases hretired.symm.trans hold
    cases hactive

/-- What the second attempt says after a cut before the events, the run says uncut. -/
theorem Recovers.said (hrecovers : Recovers digest input stamp lake plan) {k : ℕ} {cut : Lake R H}
    (hcut : commit lake ((statementsOf digest input stamp lake plan).take k) = cut)
    (hevents : cut.events = lake.events) :
    ∃ plan', runPlan digest input stamp cut = .ok plan' ∧
      SameOutcome (commit cut (statementsOf digest input stamp cut plan'))
        (commit lake (statementsOf digest input stamp lake plan)) ∧
      ∀ event, event ∈ runEvents digest input cut plan'
        (orphanedLive (written input stamp cut plan')) ↔
        event ∈ runEvents digest input lake plan
          (orphanedLive (written input stamp lake plan)) := by
  obtain ⟨again, hagain, houtcome⟩ := hrecovers k
  rw [hcut] at hagain
  obtain ⟨plan', hplan', rfl⟩ := exists_plan_of_afterRun hagain
  refine ⟨plan', hplan', houtcome, ?_⟩
  intro event
  have hperm := houtcome.events
  rw [contents_after, contents_after, hevents, List.perm_append_left_iff] at hperm
  have hinjective : Function.Injective fun event : PlannedEvent R V7Id H =>
      (stamp.runId, event, stamp.runAt) := by
    intro first second hsame
    exact congrArg (fun content => content.2.1) hsame
  rw [← List.mem_map_of_injective hinjective, hperm.mem_iff, List.mem_map_of_injective hinjective]

/-- If every cut can be made good, the run says only that records outside the corpus were
added: cut it where every table is written and no event is. -/
theorem RunPlanned.added_of_recovers (hsound : lake.Sound)
    (hrun : RunPlanned digest input stamp lake result groups plan)
    (hrecovers : Recovers digest input stamp lake plan) {event : PlannedEvent R V7Id H}
    (hevent : event ∈ runEvents digest input lake plan
      (orphanedLive (written input stamp lake plan))) :
    event.eventType = .memberAdded ∧ ∀ record ∈ event.details.memberKeys,
      record ∉ input.corpus := by
  have hcut : ∃ k, commit lake ((statementsOf digest input stamp lake plan).take k) =
      { commit lake (statementsOf digest input stamp lake plan) with events := lake.events } :=
    exists_take_tables
  obtain ⟨k, hcut⟩ := hcut
  have htables : ({ commit lake (statementsOf digest input stamp lake plan) with
      events := lake.events } : Lake R H).Sound := (hsound.after hrun).withEvents _
  obtain ⟨plan', hplan', houtcome, hsaid⟩ := hrecovers.said hcut rfl
  obtain ⟨result', groups', hagain⟩ := htables.exists_runPlanned hplan'
  cases hrun.neverCut.symm.trans hagain.neverCut
  obtain ⟨hminted, horphaned⟩ := hagain.nothing_new htables houtcome.entities
  have hmember (record : R) (id : V7Id) :
      ({ commit lake (statementsOf digest input stamp lake plan) with
        events := lake.events } : Lake R H).entityOf record = some id ↔
      record ∈ input.corpus ∧ Lands (oldSets (lake.registry input.corpus.keys).pOld) groups
        (deterministicV7Factory stamp.runAt lake.entities.size) record id := by
    rw [← hrun.entityOf_written, ← entityOf_after]
    rfl
  have hdeparted : departedEvents digest input
      { commit lake (statementsOf digest input stamp lake plan) with events := lake.events } = [] :=
    departedEvents_eq_nil fun hid => ((hmember _ _).mp hid).1
  have hevent' := (hsaid event).mpr hevent
  rw [mem_runEvents, hdeparted, horphaned] at hevent'
  rcases hevent' with hplanned | hnone | hnone
  · exact hrun.added_outside hagain hmember hminted hplanned
  · cases hnone
  · cases hnone

/-- If every cut can be made good, the groups stay inside the corpus: cut after the first
statement, a record that it brought in from outside departs again. -/
theorem RunPlanned.inside_of_recovers (hsound : lake.Sound)
    (hrun : RunPlanned digest input stamp lake result groups plan)
    (hrecovers : Recovers digest input stamp lake plan) {record : R}
    (hclustered : record ∈ clustered groups) : record ∈ input.corpus := by
  by_contra hoff
  have hexists : ∃ id, Lands (oldSets (lake.registry input.corpus.keys).pOld) groups
      (deterministicV7Factory stamp.runAt lake.entities.size) record id :=
    exists_lands hrun.planned.canonical (.inl hclustered)
  obtain ⟨id, hlands⟩ := hexists
  have hassigned : ⟨record, id⟩ ∈ plan.assignments := by
    refine (hrun.planned.facts.mem_assignments ⟨record, id⟩).mpr ⟨hlands, ?_⟩
    intro hid
    exact hoff (entityOfRecord_registry.mp hid).1
  have hcut : commit lake ((statementsOf digest input stamp lake plan).take 1) =
      upsertMembership plan.assignments stamp lake := by
    simp [statementsOf, planStatements, List.ne_nil_of_mem hassigned, commit, Statement.exec]
  obtain ⟨plan', _, _, hsaid⟩ := hrecovers.said hcut rfl
  have hmoved : (upsertMembership plan.assignments stamp lake).entityOf record = some id :=
    (entityOf_upsertMembership hrun.planned.facts.assignments_nodup).mpr (.inl hassigned)
  have hgone : ∃ event ∈ departedEvents digest input
      (upsertMembership plan.assignments stamp lake), event.eventType = .memberRemoved :=
    exists_departedEvent hoff hmoved
  obtain ⟨event, hevent, htype⟩ := hgone
  have hother := (hrun.added_of_recovers hsound hrecovers
    ((hsaid event).mp (mem_runEvents.mpr (.inr (.inl hevent))))).1
  rw [htype] at hother
  cases hother

/-- A run whose every cut can be made good has only the pruning to send. -/
theorem RunPlanned.inPlace_of_recovers (hsound : lake.Sound)
    (hrun : RunPlanned digest input stamp lake result groups plan)
    (hrecovers : Recovers digest input stamp lake plan) : InPlace input result lake := by
  -- Nothing departed, so every row is of a record in the corpus.
  have hcorpus {record : R} {id : V7Id} (hid : lake.entityOf record = some id) :
      record ∈ input.corpus := by
    by_contra hoff
    have hgone : ∃ event ∈ departedEvents digest input lake, event.eventType = .memberRemoved :=
      exists_departedEvent hoff hid
    obtain ⟨event, hevent, htype⟩ := hgone
    have hother := (hrun.added_of_recovers hsound hrecovers
      (mem_runEvents.mpr (.inr (.inl hevent)))).1
    rw [htype] at hother
    cases hother
  -- What was added is outside the corpus and inside a group, so nothing was.
  have hevents : plan.events = [] := by
    apply List.eq_nil_iff_forall_not_mem.mpr
    intro event hevent
    rcases hrun.added_of_recovers hsound hrecovers (mem_runEvents.mpr (.inl hevent)) with
      ⟨htype, hkeys⟩
    have hplans := ((hrun.planned.facts.mem_events event).mp hevent).1
    rw [htype] at hplans
    obtain ⟨record, hrecord, hclustered⟩ := hplans.exists_added
    exact hkeys record hrecord (hrun.inside_of_recovers hsound hrecovers hclustered)
  obtain ⟨hassignments, hminted⟩ := hrun.planned.silent_of_no_events hevents
  exact hrun.inPlace_of_silent hcorpus hassignments hminted

/-- On a membership that is in place every cut leaves the lake as it was. -/
theorem InPlace.recovers (hsound : lake.Sound) (hplace : InPlace input result lake)
    (hrun : RunPlanned digest input stamp lake result groups plan)
    (hplan : runPlan digest input stamp lake = .ok plan) :
    Recovers digest input stamp lake plan := by
  intro k
  have hquiet : statementsOf digest input stamp lake plan =
      [.absentFromCorpus input.corpus.keys] ∧
        commit lake (statementsOf digest input stamp lake plan) = lake :=
    hsound.quiet hplace.in_corpus (hplace.empty hrun).1
  have hcut : commit lake ((statementsOf digest input stamp lake plan).take k) = lake := by
    cases k with
    | zero => rfl
    | succ k =>
        rw [List.take_of_length_le (by rw [hquiet.1]; simp), hquiet.2]
  refine ⟨commit lake (statementsOf digest input stamp lake plan), ?_, rfl, rfl, .rfl⟩
  rw [hcut, afterRun, runReconcile, hplan]
  rfl

/-- Every cut of a run can be made good exactly when the membership was in place
before it. -/
theorem crash_recovers_iff (hsound : lake.Sound)
    (hplan : runPlan digest input stamp lake = .ok plan) :
    Recovers digest input stamp lake plan ↔
      ∃ result, input.neverCut = .ok result ∧ InPlace input result lake := by
  obtain ⟨result, groups, hrun⟩ := hsound.exists_runPlanned hplan
  apply Iff.intro
  · intro hrecovers
    exact ⟨result, hrun.neverCut, hrun.inPlace_of_recovers hsound hrecovers⟩
  · intro h
    obtain ⟨other, hother, hplace⟩ := h
    cases hrun.neverCut.symm.trans hother
    exact hplace.recovers hsound hrun hplan

end Attempt

theorem crash_recovers_iff_sample : ∃ plan,
    runPlan sampleRunDigest (sampleAlone {1}) ⟨"first", 1⟩ .fresh = .ok plan ∧
      Recovers sampleRunDigest (sampleAlone {1}) ⟨"first", 1⟩ .fresh plan := by
  have hcompletes : (runPlan sampleRunDigest (sampleAlone {1}) ⟨"first", 1⟩
    .fresh).toOption.isSome =
      true := by
    decide +kernel
  have hresult : (sampleAlone {1}).neverCut = .ok {} := by decide +kernel
  have hpartition : (sampleAlone {1}).partitionOf {} = [] := by decide +kernel
  cases hplan : runPlan sampleRunDigest (sampleAlone {1}) ⟨"first", 1⟩ .fresh with
  | error error => simp [hplan, Except.toOption] at hcompletes
  | ok plan =>
      refine ⟨plan, rfl, (crash_recovers_iff sound_fresh hplan).mpr ⟨{}, hresult, ?_, ?_, ?_⟩⟩
      · intro record id hid
        simp [Lake.entityOf, Lake.fresh] at hid
      · intro record
        simp [hpartition, Lake.entityOf, Lake.fresh]
      · intro first second id hid
        simp [Lake.entityOf, Lake.fresh] at hid

/-- The run that resolves a first record, cut before its only event: the second attempt has
nothing to do, and the entity is never announced. -/
theorem crash_loses_created : ∃ (plan : ReconcilePlan ℕ V7Id ℕ) (again : Lake ℕ ℕ),
    runPlan sampleRunDigest (sampleAlone ∅) ⟨"first", 1⟩ .fresh = .ok plan ∧
    afterRun sampleRunDigest (sampleAlone ∅) ⟨"first", 1⟩
      (commit .fresh ((statementsOf sampleRunDigest (sampleAlone ∅) ⟨"first", 1⟩ .fresh plan).take
        3)) = .ok again ∧
    again.events = [] ∧
    (commit .fresh (statementsOf sampleRunDigest (sampleAlone ∅) ⟨"first", 1⟩ .fresh
      plan)).events.map (fun row => row.event.eventType) = [.created] ∧
    ¬ Recovers sampleRunDigest (sampleAlone ∅) ⟨"first", 1⟩ .fresh plan := by
  have hruns : ((runPlan sampleRunDigest (sampleAlone ∅) ⟨"first", 1⟩ .fresh).toOption.bind
      fun plan => (afterRun sampleRunDigest (sampleAlone ∅) ⟨"first", 1⟩
        (commit .fresh ((statementsOf sampleRunDigest (sampleAlone ∅) ⟨"first", 1⟩ .fresh
          plan).take 3))).toOption.map fun again => (again.events,
            (commit .fresh (statementsOf sampleRunDigest (sampleAlone ∅) ⟨"first", 1⟩ .fresh
              plan)).events.map fun row => row.event.eventType)) = some ([], [.created]) := by
    decide +kernel
  cases hplan : runPlan sampleRunDigest (sampleAlone ∅) ⟨"first", 1⟩ .fresh with
  | error error => simp [hplan, Except.toOption] at hruns
  | ok plan =>
      cases hagain : afterRun sampleRunDigest (sampleAlone ∅) ⟨"first", 1⟩
          (commit .fresh ((statementsOf sampleRunDigest (sampleAlone ∅) ⟨"first", 1⟩ .fresh
            plan).take 3)) with
      | error error => simp [hplan, hagain, Except.toOption] at hruns
      | ok again =>
          simp only [hplan, hagain, Except.toOption, Option.bind_some, Option.map_some,
            Option.some.injEq, Prod.mk.injEq] at hruns
          refine ⟨plan, again, rfl, hagain, hruns.1, hruns.2, ?_⟩
          intro hrecovers
          obtain ⟨other, hother, houtcome⟩ := hrecovers 3
          cases hagain.symm.trans hother
          have hlength := houtcome.events.length_eq
          have hsaid := congrArg List.length hruns.2
          simp [hruns.1] at hlength hsaid
          omega

end EntityResolution.Reconcile
