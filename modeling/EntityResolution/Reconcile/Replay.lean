/-
# Replaying the ledger

The events of a run tell the whole story of its membership changes. Arrivals are
reported by four branches of the plan: the group loop reports the members of a created
group, the newcomers of a kept group and the fragments split off other entities; the
old-entity loop reports the fragment that a merged entity brings to the claimant; the
orphan loop reports every orphan. Together they name each reassigned record with one
destination, and folding them over the old membership gives the new one.
-/

import EntityResolution.Reconcile.Permanence

namespace EntityResolution.Reconcile

open EntityResolution.Collections EntityResolution.Identity

universe u

variable {R E H : Type u}

/-- The entity at which an event's members arrive, if it reports an arrival. -/
def PlannedEvent.destination (event : PlannedEvent R E H) : Option E :=
  match event.eventType with
  | .created | .memberAdded | .split => some event.entityId
  | .merged => event.details.mergedInto
  | .memberRemoved | .retired => none

/-- The event reports that a record arrives at an entity. -/
def PlannedEvent.Arrives (event : PlannedEvent R E H) (record : R) (entity : E) : Prop :=
  record ∈ event.details.memberKeys ∧ event.destination = some entity

variable [LinearOrder R] [LinearOrder E] [LinearOrder H]

/-- Replay one event: arriving members are put under their destination, and leaving
members are taken out unless another event has moved them already. -/
def replayEvent (membership : BTreeMap R E) (event : PlannedEvent R E H) : BTreeMap R E :=
  match event.destination with
  | some entity =>
      membership.insertMany (event.details.memberKeys.map fun member => (member, entity))
  | none => membership.filter fun record entity =>
      ¬ (record ∈ event.details.memberKeys ∧ entity = event.entityId)

section Arrivals

variable {old : BTreeMap E (Finset R)} {groups : BTreeMap R (Finset R)} {factory : IdFactory E}

omit [LinearOrder H] in
/-- Where an event says that a record arrives, the record lands, and it was not there. -/
theorem PlansEvent.lands (hold : BTreeMap.SetsDisjoint old) (hgroups : CanonicalGroups groups)
    (hfresh : FreshFor factory old) {event : PlannedEvent R E H}
    (hevent : PlansEvent old groups factory event.entityId event.eventType event.details)
    {record : R} {entity : E} (harrives : event.Arrives record entity) :
    Lands old groups factory record entity ∧ (entityOfRecord old)[record]? ≠ some entity := by
  obtain ⟨from_, eventType, details, hash⟩ := event
  obtain ⟨hmem, hdestination⟩ := harrives
  have hminted {key : R} {id : E} (hid : (mintedIds old groups factory)[key]? = some id) :
      (entityOfRecord old)[record]? ≠ some id := by
    intro hbefore
    obtain ⟨before, hbefore, _⟩ := (BTreeMap.ownerOf_eq_some_iff hold).mp hbefore
    exact hfresh.minted_not_old hgroups hid before hbefore
  have howner {owner : E} {before : Finset R} (hbefore : old[owner]? = some before)
      (hrecord : record ∈ before) : (entityOfRecord old)[record]? = some owner :=
    (BTreeMap.ownerOf_eq_some_iff hold).mpr ⟨before, hbefore, hrecord⟩
  cases hevent with
  | created hkey hunclaimed hid =>
      obtain rfl := Option.some.inj hdestination
      exact ⟨.grouped hkey ((Finset.mem_sort _).mp hmem)
        ((holder_of_unclaimed hunclaimed).trans hid), hminted hid⟩
  | memberAdded hkey haccepted hjoined =>
      obtain rfl := Option.some.inj hdestination
      obtain ⟨hin, hnew⟩ := List.mem_filter.mp hmem
      refine ⟨.grouped hkey ((Finset.mem_sort _).mp hin) (holder_of_accepted haccepted), ?_⟩
      intro hbefore
      have hknown : record ∈ entityOfRecord old :=
        BTreeMap.mem_iff_exists_getElem?.mpr ⟨_, hbefore⟩
      simp [hknown] at hnew
  | memberRemoved hkey haccepted hbefore hleft => cases hdestination
  | @split key members fragment _ source hkey hholder hcell helsewhere =>
      obtain rfl := Option.some.inj hdestination
      obtain ⟨_, before, hmembers, hbefore, rfl, _⟩ := cell?_overlapMatrix.mp hcell
      obtain ⟨hin, hin'⟩ := Finset.mem_inter.mp ((Finset.mem_sort _).mp hmem)
      refine ⟨.grouped hmembers hin hholder, ?_⟩
      rw [howner hbefore hin']
      intro hsame
      obtain rfl := Option.some.inj hsame
      -- The holder of the group is not the entity that split: its offer went elsewhere.
      cases haccepted : (accepted old groups)[key]? with
      | some claimant =>
          rw [holder_of_accepted haccepted] at hholder
          exact helsewhere (accepted_spec (haccepted.trans hholder)).1
      | none =>
          rw [holder_of_unclaimed haccepted] at hholder
          exact hfresh.minted_not_old hgroups hholder before hbefore
  | retired hbefore hoffer => cases hdestination
  | merged hoffer haccepted hlost hcell =>
      obtain rfl := Option.some.inj hdestination
      obtain ⟨_, before, hmembers, hbefore, rfl, _⟩ := cell?_overlapMatrix.mp hcell
      obtain ⟨hin, hin'⟩ := Finset.mem_inter.mp ((Finset.mem_sort _).mp hmem)
      refine ⟨.grouped hmembers hin (holder_of_accepted haccepted), ?_⟩
      rw [howner hbefore hin']
      exact fun hsame => hlost (Option.some.inj hsame).symm
  | orphan horphan hid =>
      obtain rfl := Option.some.inj hdestination
      obtain rfl := List.mem_singleton.mp hmem
      exact ⟨.orphan horphan hid, hminted hid⟩

omit [LinearOrder H] in
theorem Lands.exists_arrival (hold : BTreeMap.SetsDisjoint old) {record : R} {entity : E}
    (hlands : Lands old groups factory record entity)
    (hchanged : (entityOfRecord old)[record]? ≠ some entity) (hash : EventDetails R E → H) :
    ∃ event : PlannedEvent R E H,
      PlansEvent old groups factory event.entityId event.eventType event.details ∧
        event.detailsHash = hash event.details ∧ event.Arrives record entity := by
  cases hlands with
  | @grouped key _ members _ hkey hmem hholder =>
      have hsort : record ∈ members.sort := (Finset.mem_sort _).mpr hmem
      cases haccepted : (accepted old groups)[key]? with
      | none =>
          have hid := (holder_of_unclaimed haccepted).symm.trans hholder
          exact ⟨.new hash entity .created _, .created hkey haccepted hid, rfl, hsort, rfl⟩
      | some claimant =>
          obtain rfl : claimant = entity :=
            Option.some.inj ((holder_of_accepted haccepted).symm.trans hholder)
          cases hbefore : (entityOfRecord old)[record]? with
          | none =>
              -- A newcomer to the corpus.
              have hnew : record ∈ joined old members := by
                rw [joined, List.mem_filter]
                refine ⟨hsort, decide_eq_true fun hknown => ?_⟩
                obtain ⟨owner, howner⟩ := BTreeMap.mem_iff_exists_getElem?.mp hknown
                rw [hbefore] at howner
                cases howner
              exact ⟨.new hash claimant .memberAdded _,
                .memberAdded hkey haccepted (List.ne_nil_of_mem hnew), rfl, hnew, rfl⟩
          | some owner =>
              rw [hbefore] at hchanged
              obtain ⟨before, howner, hin⟩ := (BTreeMap.ownerOf_eq_some_iff hold).mp hbefore
              have hcell := exists_cell_of_mem hkey howner hmem hin
              have hfragment : record ∈ (members ∩ before).sort :=
                (Finset.mem_sort _).mpr (Finset.mem_inter.mpr ⟨hmem, hin⟩)
              by_cases hoffer : (offers old groups)[owner]? = some key
              · exact ⟨.new hash owner .merged _, .merged hoffer haccepted
                  (fun h => hchanged (congrArg some h.symm)) hcell, rfl, hfragment, rfl⟩
              · exact ⟨.new hash claimant .split _, .split hkey hholder hcell hoffer, rfl,
                  hfragment, rfl⟩
  | orphan horphan hid =>
      exact ⟨.new hash entity .created _, .orphan horphan hid, rfl, List.mem_singleton.mpr rfl, rfl⟩

omit [LinearOrder H] in
theorem PlansEvent.not_lands (hgroups : CanonicalGroups groups) (hfresh : FreshFor factory old)
    {event : PlannedEvent R E H}
    (hevent : PlansEvent old groups factory event.entityId event.eventType event.details)
    (hleaves : event.destination = none) {record : R} (hmem : record ∈ event.details.memberKeys) :
    ¬ Lands old groups factory record event.entityId := by
  obtain ⟨entity, eventType, details, hash⟩ := event
  intro hlands
  -- The entity is an old one, so the record landed in a group that accepted it.
  have hkept (hexists : ∃ before, old[entity]? = some before) : ∃ (key : R) (members : Finset R),
      groups[key]? = some members ∧ record ∈ members ∧
        (accepted old groups)[key]? = some entity := by
    obtain ⟨before, hbefore⟩ := hexists
    cases hlands with
    | @grouped key _ members _ hkey hin hholder =>
        cases haccepted : (accepted old groups)[key]? with
        | some claimant =>
            rw [holder_of_accepted haccepted] at hholder
            exact ⟨key, members, hkey, hin, haccepted.trans hholder⟩
        | none =>
            rw [holder_of_unclaimed haccepted] at hholder
            exact absurd hbefore (hfresh.minted_not_old hgroups hholder before)
    | orphan horphan hid => exact absurd hbefore (hfresh.minted_not_old hgroups hid before)
  cases hevent with
  | memberRemoved hkey haccepted hbefore hleft =>
      obtain ⟨key', members', hkey', hin, haccepted'⟩ := hkept ⟨_, hbefore⟩
      obtain rfl := accepted_injective haccepted' haccepted
      obtain rfl := Option.some.inj (hkey'.symm.trans hkey)
      exact (Finset.mem_sdiff.mp ((Finset.mem_sort _).mp hmem)).2 hin
  | retired hbefore hoffer =>
      obtain ⟨key', members', hkey', hin, haccepted'⟩ := hkept ⟨_, hbefore⟩
      rw [(accepted_spec haccepted').1] at hoffer
      cases hoffer
  | created => cases hleaves
  | memberAdded => cases hleaves
  | split => cases hleaves
  | merged => cases hleaves
  | orphan => cases hleaves

end Arrivals

section Replay

variable {event : PlannedEvent R E H} {membership : BTreeMap R E} {record : R} {entity : E}

omit [LinearOrder H]

theorem getElem?_replayEvent_of_arrives (harrives : event.Arrives record entity) :
    (replayEvent membership event)[record]? = some entity := by
  obtain ⟨hmem, hdestination⟩ := harrives
  simp only [replayEvent, hdestination]
  rw [BTreeMap.getElem?_insertMany_const, if_pos hmem]

/-- An event that brings the record nowhere else, and does not report its leaving, keeps
the record where it is. -/
theorem getElem?_replayEvent_keeps (hat : membership[record]? = some entity)
    (harrives : ∀ other, event.Arrives record other → other = entity)
    (hleaves : event.destination = none → record ∈ event.details.memberKeys →
      event.entityId ≠ entity) :
    (replayEvent membership event)[record]? = some entity := by
  by_cases hmem : record ∈ event.details.memberKeys
  · cases hdestination : event.destination with
    | some other =>
        obtain rfl := harrives other ⟨hmem, hdestination⟩
        exact getElem?_replayEvent_of_arrives ⟨hmem, hdestination⟩
    | none =>
        have hother : entity ≠ event.entityId := fun h => hleaves hdestination hmem h.symm
        simp only [replayEvent, hdestination]
        simp [hat, hother]
  · cases hdestination : event.destination with
    | some other =>
        simp only [replayEvent, hdestination]
        rw [BTreeMap.getElem?_insertMany_const, if_neg hmem, hat]
    | none =>
        simp only [replayEvent, hdestination]
        simp [hat, hmem]

theorem getElem?_replayEvent_eq_none (hat : membership[record]? = none)
    (harrives : ∀ other, ¬ event.Arrives record other) :
    (replayEvent membership event)[record]? = none := by
  cases hdestination : event.destination with
  | some other =>
      have hmem : record ∉ event.details.memberKeys := fun hmem =>
        harrives other ⟨hmem, hdestination⟩
      simp only [replayEvent, hdestination]
      rw [BTreeMap.getElem?_insertMany_const, if_neg hmem, hat]
  | none =>
      simp only [replayEvent, hdestination]
      simp [hat]

end Replay

section Runs

variable {digest : EventDetails R E → H} {pOld : BTreeMap E (List R)} {pNew : List (List R)}
  {factory : IdFactory E}

namespace Planned

variable {groups : BTreeMap R (Finset R)} {plan : ReconcilePlan R E H}
  (hrun : Planned digest pOld pNew factory groups plan)

include hrun

omit [LinearOrder H]

theorem mem_assignments_iff_arrives {record : R} {entity : E} :
    ⟨record, entity⟩ ∈ plan.assignments ↔ ∃ event ∈ plan.events, event.Arrives record entity := by
  rw [hrun.facts.mem_assignments]
  constructor
  · rintro ⟨hlands, hchanged⟩
    obtain ⟨event, hevent, hhash, harrives⟩ := hlands.exists_arrival hrun.disjoint hchanged digest
    exact ⟨event, (hrun.facts.mem_events event).mpr ⟨hevent, hhash⟩, harrives⟩
  · rintro ⟨event, hmem, harrives⟩
    exact ((hrun.facts.mem_events event).mp hmem).1.lands hrun.disjoint hrun.canonical
      hrun.freshFor harrives

theorem lands_of_arrives {event : PlannedEvent R E H} (hevent : event ∈ plan.events) {record : R}
    {entity : E} (harrives : event.Arrives record entity) :
    Lands (oldSets pOld) groups factory record entity :=
  ((hrun.facts.mem_assignments _).mp
    (hrun.mem_assignments_iff_arrives.mpr ⟨event, hevent, harrives⟩)).1

theorem replayEvent_keeps {record : R} {entity : E}
    (hlands : Lands (oldSets pOld) groups factory record entity) {event : PlannedEvent R E H}
    (hevent : event ∈ plan.events) (membership : BTreeMap R E)
    (hat : membership[record]? = some entity) :
    (replayEvent membership event)[record]? = some entity := by
  apply getElem?_replayEvent_keeps hat
  · intro other harrives
    exact (hrun.lands_of_arrives hevent harrives).unique hrun.canonical hlands
  · rintro hdestination hmem rfl
    exact ((hrun.facts.mem_events event).mp hevent).1.not_lands hrun.canonical hrun.freshFor
      hdestination hmem hlands

theorem foldl_replayEvent :
    plan.events.foldl replayEvent (membershipBefore pOld) =
      plan.reassign (membershipBefore pOld) := by
  apply Std.ExtTreeMap.ext_getElem?
  intro record
  cases hafter : (plan.reassign (membershipBefore pOld))[record]? with
  | some entity =>
      have hlands := hrun.after_eq_some_iff.mp hafter
      have hkeep (event : PlannedEvent R E H) (hevent : event ∈ plan.events) :=
        hrun.replayEvent_keeps hlands hevent
      by_cases hbefore : (entityOfRecord (oldSets pOld))[record]? = some entity
      · exact foldl_keeps (fun membership => membership[record]? = some entity)
          hkeep _ hbefore
      · obtain ⟨event, hevent, harrives⟩ := hrun.mem_assignments_iff_arrives.mp
          ((hrun.facts.mem_assignments _).mpr ⟨hlands, hbefore⟩)
        exact foldl_reaches (fun membership => membership[record]? = some entity)
          hkeep hevent (fun membership => getElem?_replayEvent_of_arrives harrives) _
  | none =>
      have hnowhere (entity : E) : ¬ Lands (oldSets pOld) groups factory record entity := by
        intro hlands
        rw [hrun.after_eq_some_iff.mpr hlands] at hafter
        cases hafter
      have hbefore : (membershipBefore pOld)[record]? = none := by
        apply Option.eq_none_iff_forall_ne_some.mpr
        intro entity hbefore
        obtain ⟨other, hlands⟩ : ∃ other, Lands (oldSets pOld) groups factory record other :=
          exists_lands hrun.canonical (.inr ⟨entity, hbefore⟩)
        exact hnowhere other hlands
      apply foldl_keeps (fun membership => membership[record]? = none) _ _ hbefore
      intro event hevent membership hat
      apply getElem?_replayEvent_eq_none hat
      exact fun other harrives => hnowhere other (hrun.lands_of_arrives hevent harrives)

theorem mem_sdiff_iff {entity : E} {members group : List R} {key : R}
    (hentity : pOld[entity]? = some members) (hkey : groups[key]? = some group.toFinset)
    (haccepted : (accepted (oldSets pOld) groups)[key]? = some entity) {record : R} :
    record ∈ members.toFinset \ group.toFinset ↔
      record ∈ members ∧ ∃ other, other ≠ entity ∧ ⟨record, other⟩ ∈ plan.assignments := by
  have hbefore (hrecord : record ∈ members) :
      (entityOfRecord (oldSets pOld))[record]? = some entity :=
    (membershipBefore_eq_some_iff hrun.membership).mpr ⟨members, hentity, hrecord⟩
  rw [Finset.mem_sdiff, List.mem_toFinset]
  apply and_congr_right
  intro hrecord
  constructor
  · intro hout
    obtain ⟨other, hlands⟩ : ∃ other, Lands (oldSets pOld) groups factory record other :=
      exists_lands hrun.canonical (.inr ⟨entity, hbefore hrecord⟩)
    have hother : other ≠ entity := by
      rintro rfl
      cases hlands with
      | grouped hkey' hin hholder =>
          obtain rfl := holder_injective hrun.freshFor hrun.canonical hholder
            (holder_of_accepted haccepted)
          obtain rfl := Option.some.inj (hkey.symm.trans hkey')
          exact hout hin
      | orphan horphan hid =>
          exact (hrun.mintedId_spec hid).2 (BTreeMap.mem_iff_exists_getElem?.mpr ⟨_, hentity⟩)
    refine ⟨other, hother, (hrun.facts.mem_assignments _).mpr ⟨hlands, ?_⟩⟩
    rw [hbefore hrecord]
    exact fun h => hother (Option.some.inj h).symm
  · rintro ⟨other, hother, hrow⟩ hin
    exact hother (((hrun.facts.mem_assignments _).mp hrow).1.unique hrun.canonical
      (.grouped hkey hin (holder_of_accepted haccepted)))

theorem memberRemoved_iff {entity : E} {members group : List R}
    (hentity : pOld[entity]? = some members) (hgroup : group ∈ pNew)
    (hkeeps : KeepsId pOld (plan.reassign (membershipBefore pOld)) entity group)
    {event : PlannedEvent R E H} :
    event ∈ plan.events ∧ event.entityId = entity ∧ event.eventType = .memberRemoved ↔
      ∃ record ∈ members.toFinset \ group.toFinset, event = .new digest entity .memberRemoved
        { memberKeys := (members.toFinset \ group.toFinset).sort, cause := some .recluster } := by
  obtain ⟨key, hkey⟩ := hrun.exists_key hgroup
  have haccepted := (hrun.keepsId_iff hkey).mp hkeeps
  have hbefore : (oldSets pOld)[entity]? = some members.toFinset :=
    oldSets_eq_some_iff.mpr ⟨members, hentity, rfl⟩
  obtain ⟨id, eventType, details, hash⟩ := event
  constructor
  · rintro ⟨hmem, rfl, rfl⟩
    obtain ⟨hevent, hhash⟩ := (hrun.facts.mem_events _).mp hmem
    simp only at hevent hhash
    subst hhash
    cases hevent with
    | memberRemoved hkey' haccepted' hbefore' hleft =>
        obtain rfl := accepted_injective haccepted' haccepted
        obtain rfl := Option.some.inj (hkey'.symm.trans hkey)
        obtain rfl := Option.some.inj (hbefore'.symm.trans hbefore)
        obtain ⟨record, hrecord⟩ := List.exists_mem_of_ne_nil _ hleft
        exact ⟨record, (Finset.mem_sort _).mp hrecord, rfl⟩
  · rintro ⟨record, hrecord, heq⟩
    rw [heq]
    have hleft : (members.toFinset \ group.toFinset).sort ≠ [] :=
      List.ne_nil_of_mem ((Finset.mem_sort _).mpr hrecord)
    exact ⟨(hrun.facts.mem_events _).mpr ⟨.memberRemoved hkey haccepted hbefore hleft, rfl⟩,
      rfl, rfl⟩

end Planned

variable (digest) in
/-- The events determine the membership change. A record is assigned to an entity exactly
when an arrival there names it; all arrivals that name a record agree; the removals
reported of an entity that keeps its id are its old members that are assigned elsewhere,
with no such event when there are none; and folding the events over the old membership
reproduces the new one. -/
theorem ledger_replay (hold : IsMembership pOld) (hnew : IsPartition pNew)
    (hfresh : factory.Fresh fun id => id ∈ pOld) :
    ∃ plan, reconcilePlan digest pOld pNew factory = some plan ∧
      (∀ (record : R) (entity : E), ⟨record, entity⟩ ∈ plan.assignments ↔
        ∃ event ∈ plan.events, event.Arrives record entity) ∧
      (∀ first ∈ plan.events, ∀ second ∈ plan.events, ∀ (record : R) (left right : E),
        first.Arrives record left → second.Arrives record right → left = right) ∧
      (∀ (entity : E) (members group : List R), pOld[entity]? = some members → group ∈ pNew →
        KeepsId pOld (plan.reassign (membershipBefore pOld)) entity group →
        (∀ event ∈ plan.events, event.entityId = entity → event.eventType = .memberRemoved →
          ∀ record : R, record ∈ event.details.memberKeys ↔
            record ∈ members ∧ ∃ other, other ≠ entity ∧ ⟨record, other⟩ ∈ plan.assignments) ∧
        (∀ first ∈ plan.events, ∀ second ∈ plan.events,
          first.entityId = entity → first.eventType = .memberRemoved →
          second.entityId = entity → second.eventType = .memberRemoved → first = second) ∧
        ((∃ event ∈ plan.events, event.entityId = entity ∧ event.eventType = .memberRemoved) ↔
          ∃ record ∈ members, ∃ other, other ≠ entity ∧ ⟨record, other⟩ ∈ plan.assignments)) ∧
      plan.events.foldl replayEvent (membershipBefore pOld) =
        plan.reassign (membershipBefore pOld) := by
  obtain ⟨groups, plan, hplan, hrun⟩ : ∃ groups plan,
      reconcilePlan digest pOld pNew factory = some plan ∧
        Planned digest pOld pNew factory groups plan := exists_planned hold hnew hfresh
  refine ⟨plan, hplan, fun record entity => hrun.mem_assignments_iff_arrives, ?_, ?_,
    hrun.foldl_replayEvent⟩
  · intro first hfirst second hsecond record left right hleft hright
    exact (hrun.lands_of_arrives hfirst hleft).unique hrun.canonical
      (hrun.lands_of_arrives hsecond hright)
  · intro entity members group hentity hgroup hkeeps
    obtain ⟨key, hkey⟩ := hrun.exists_key hgroup
    have hleavers {record : R} : record ∈ members.toFinset \ group.toFinset ↔ _ :=
      hrun.mem_sdiff_iff hentity hkey ((hrun.keepsId_iff hkey).mp hkeeps)
    have hremoved {event : PlannedEvent R E H} : event ∈ plan.events ∧ _ ∧ _ ↔ _ :=
      hrun.memberRemoved_iff hentity hgroup hkeeps
    refine ⟨?_, ?_, ?_⟩
    · intro event hevent hid htype record
      obtain ⟨_, _, rfl⟩ := hremoved.mp ⟨hevent, hid, htype⟩
      exact (Finset.mem_sort _).trans hleavers
    · intro first hfirst second hsecond hid htype hid' htype'
      obtain ⟨_, _, rfl⟩ := hremoved.mp ⟨hfirst, hid, htype⟩
      obtain ⟨_, _, rfl⟩ := hremoved.mp ⟨hsecond, hid', htype'⟩
      rfl
    · constructor
      · rintro ⟨event, hevent⟩
        obtain ⟨record, hrecord, _⟩ := hremoved.mp hevent
        obtain ⟨hmem, hother⟩ := hleavers.mp hrecord
        exact ⟨record, hmem, hother⟩
      · rintro ⟨record, hmem, hother⟩
        exact ⟨_, hremoved.mpr ⟨record, hleavers.mpr ⟨hmem, hother⟩, rfl⟩⟩

end Runs

theorem ledger_replay_sample :
    IsMembership sampleOld ∧ IsPartition sampleNew ∧
      (sampleFactory.Fresh fun id => id ∈ sampleOld) ∧
      ∃ plan, reconcilePlan sampleDigest sampleOld sampleNew sampleFactory = some plan ∧
        plan.events.foldl replayEvent (membershipBefore sampleOld) =
          plan.reassign (membershipBefore sampleOld) := by
  refine ⟨sampleOld_isMembership, sampleNew_isPartition, sampleFactory_fresh, ?_⟩
  obtain ⟨plan, hplan, _, _, _, hfold⟩ :=
    ledger_replay sampleDigest sampleOld_isMembership sampleNew_isPartition sampleFactory_fresh
  exact ⟨plan, hplan, hfold⟩

end EntityResolution.Reconcile
