/-
# The INV-PERM offer and acceptance plan

`reconcile_plan` compares the prior membership with a new clustering and decides
what a reconcile would write: changed membership rows, entity transitions, and the
events of the ledger. Every old entity offers its id to the group that holds its
largest fragment; every group keeps the best offer that it received; every other
group, and every record that the clustering placed nowhere, is given a freshly
minted id.

This module is the plan as the engine computes it, loop by loop. A computation in
`Option` is `none` exactly where the engine would panic: an empty group, or an
index into a map that lacks the key. The digest of an event's details is a
parameter, because it is SHA-256 over the canonical JSON and only its order among
equal event types and entities is read here.
-/

import EntityResolution.Identity.Ids

namespace EntityResolution.Reconcile

open EntityResolution.Collections EntityResolution.Identity

universe u

/-- The event types of the entity ledger. -/
inductive EventType
  | created
  | memberAdded
  | memberRemoved
  | merged
  | split
  | retired
  deriving DecidableEq

/-- `PLANNED_EVENT_ORDER`: the order in which a run's events are emitted. -/
def plannedEventOrder : List EventType :=
  [.created, .memberAdded, .memberRemoved, .merged, .split, .retired]

/-- `event_rank`: the position of an event type in the emission order. -/
def eventRank (eventType : EventType) : ℕ := plannedEventOrder.idxOf eventType

/-- The status of an entity row. -/
inductive Status
  | active
  | merged
  | retired
  deriving DecidableEq

/-- `member_removed.cause`: the new partition placed the member elsewhere, or the
member left the corpus. -/
inductive RemovalCause
  | recluster
  | departed
  deriving DecidableEq

/-- The JSON object of an event: `member_keys`, and the one key beside it that the
event type calls for. -/
structure EventDetails (R E : Type u) where
  memberKeys : List R
  cause : Option RemovalCause := none
  splitFrom : Option E := none
  mergedInto : Option E := none
  deriving DecidableEq

/-- `PlannedEvent`: one `entity_events` row the plan would emit. -/
structure PlannedEvent (R E H : Type u) where
  entityId : E
  eventType : EventType
  details : EventDetails R E
  detailsHash : H
  deriving DecidableEq

/-- `PlannedEvent::new`: the digest is computed from the details it stands beside. -/
def PlannedEvent.new {R E H : Type u} (digest : EventDetails R E → H)
    (entityId : E) (eventType : EventType) (details : EventDetails R E) : PlannedEvent R E H :=
  ⟨entityId, eventType, details, digest details⟩

/-- `MembershipAssignment`: one `entity_membership` row the plan would write. -/
structure MembershipAssignment (R E : Type u) where
  recordKey : R
  entityId : E
  deriving DecidableEq

/-- `EntityTransition`: one `entities` row the plan would insert or update. -/
structure EntityTransition (E : Type u) where
  entityId : E
  status : Status
  mergedInto : Option E
  isNew : Bool
  deriving DecidableEq

/-- `ReconcilePlan`: what a reconcile would write. -/
structure ReconcilePlan (R E H : Type u) where
  assignments : List (MembershipAssignment R E)
  transitions : List (EntityTransition E)
  events : List (PlannedEvent R E H)
  minted : List E

/-- `ReconcilePlan::is_empty`. -/
def ReconcilePlan.isEmpty {R E H : Type u} (plan : ReconcilePlan R E H) :
    Bool :=
  plan.assignments.isEmpty && plan.transitions.isEmpty && plan.events.isEmpty

/-- The rows that one iteration of one of the plan's loops pushes. -/
structure PlanRows (R E H : Type u) where
  assignments : List (MembershipAssignment R E) := []
  transitions : List (EntityTransition E) := []
  events : List (PlannedEvent R E H) := []

variable {R E H : Type u} [LinearOrder R] [LinearOrder E] [LinearOrder H]

/-- The key of the emission order: event type, then entity id, then digest. -/
def PlannedEvent.orderKey (event : PlannedEvent R E H) : ℕ ×ₗ E ×ₗ H :=
  toLex (eventRank event.eventType, toLex (event.entityId, event.detailsHash))

/-- `sort_planned_events`: a stable sort by the emission order. -/
def sortPlannedEvents (events : List (PlannedEvent R E H)) : List (PlannedEvent R E H) :=
  events.insertionSort fun first second => first.orderKey ≤ second.orderKey

/-- Where a fragment stands among its competitors: `(-member_count, min member)`. -/
def FragmentRank (R : Type u) : Type u := ℤ ×ₗ WithTop R

instance : LinearOrder (FragmentRank R) :=
  @Prod.Lex.instLinearOrder ℤ (WithTop R) Int.instLinearOrder inferInstance

/-- `fragment_rank`: larger fragments first, then the smaller least member. The
engine ranks non-empty fragments only. -/
def fragmentRank (members : Finset R) : FragmentRank R :=
  toLex (-(members.card : ℤ), members.min)

/-- The new groups as sets, keyed by their least member. -/
def canonicalGroups (pNew : List (List R)) : Option (BTreeMap R (Finset R)) :=
  pNew.foldlM (fun (groups : BTreeMap R (Finset R)) group =>
    if hne : group.toFinset.Nonempty then
      some (groups.insert (group.toFinset.min' hne) group.toFinset)
    else none) ∅

section Matching

variable (old : BTreeMap E (Finset R)) (groups : BTreeMap R (Finset R))

/-- The overlap matrix: for every group its non-empty intersections with the old
entities. -/
def overlapMatrix : BTreeMap R (BTreeMap E (Finset R)) :=
  groups.map fun _ members => old.filterMap fun _ entityMembers =>
    if (members ∩ entityMembers).Nonempty then some (members ∩ entityMembers) else none

/-- Every entity's fragments, keyed by the group that holds them. -/
def fragments : BTreeMap E (BTreeMap R (Finset R)) :=
  BTreeMap.transpose (overlapMatrix old groups)

/-- Each entity offers its id to the group holding its first-ranked fragment. A row
of `fragments` is never empty, so every row makes an offer. -/
def offers : BTreeMap E R :=
  (fragments old groups).filterMap fun _ byGroup =>
    (byGroup.toList.argmin fun fragment => fragmentRank fragment.2).map Prod.fst

/-- The entities that offered their id to each group. -/
def offered : BTreeMap R (List E) := BTreeMap.keysByValue (offers old groups)

/-- `matrix[key][entity]`. -/
def overlap (key : R) (entity : E) : Finset R :=
  (BTreeMap.cell? (overlapMatrix old groups) key entity).getD ∅

/-- Each group that received offers keeps the entity with the first-ranked overlap. -/
def accepted : BTreeMap R E :=
  (offered old groups).filterMap fun key candidates =>
    candidates.argmin fun entity => fragmentRank (overlap old groups key entity)

/-- The prior entity of every record. -/
def entityOfRecord : BTreeMap R E := BTreeMap.ownerOf old

/-- Every record that some new group contains. -/
def clustered : Finset R := groups.toList.foldl (fun seen entry => seen ∪ entry.2) ∅

/-- Prior records that the clustering placed nowhere, in ascending order. -/
def orphans : List R := (entityOfRecord old).keys.filter fun member => member ∉ clustered groups

/-- What needs a fresh id: the unclaimed groups, by least member, and the orphans,
in one ascending order. -/
def mintKeys : List R :=
  (groups.keys.filter (fun key => key ∉ accepted old groups) ++ orphans old groups).insertionSort
    (· ≤ ·)

/-- The fresh ids, drawn in the order of `mintKeys`. -/
def mintedIds (factory : IdFactory E) : BTreeMap R E :=
  Std.ExtTreeMap.ofList (mintAll (mintKeys old groups) factory) compare

/-- The entity that holds a group after the run. -/
def holder (factory : IdFactory E) (key : R) : Option E :=
  match (accepted old groups)[key]? with
  | some entity => some entity
  | none => (mintedIds old groups factory)[key]?

variable (digest : EventDetails R E → H) (factory : IdFactory E)

/-- A membership row for every member whose entity changes. -/
def groupAssignments (entityId : E) (members : Finset R) : List (MembershipAssignment R E) :=
  (members.sort.filter fun member => (entityOfRecord old)[member]? ≠ some entityId).map
    fun member => ⟨member, entityId⟩

/-- The rows of a group that keeps no old id. -/
def createdRows (entityId : E) (members : Finset R) : PlanRows R E H where
  transitions := [⟨entityId, .active, none, true⟩]
  events := [.new digest entityId .created { memberKeys := members.sort }]

/-- The members of a kept group that no old entity held. -/
def joined (members : Finset R) : List R :=
  members.sort.filter fun member => member ∉ entityOfRecord old

/-- The rows of a group that keeps the id of an entity with the given old members. -/
def keptRows (entityId : E) (members before : Finset R) : PlanRows R E H where
  transitions := if before ≠ members then [⟨entityId, .active, none, false⟩] else []
  events :=
    (if joined old members ≠ [] then
      [.new digest entityId .memberAdded { memberKeys := joined old members }] else []) ++
    (if (before \ members).sort ≠ [] then
      [.new digest entityId .memberRemoved
        { memberKeys := (before \ members).sort, cause := some .recluster }] else [])

/-- One split event for every entity that left a fragment in this group while its
own offer went elsewhere. -/
def splitEvents (key : R) (entityId : E) (cells : BTreeMap E (Finset R)) :
    List (PlannedEvent R E H) :=
  (cells.toList.filter fun cell => (offers old groups)[cell.1]? ≠ some key).map fun cell =>
    .new digest entityId .split { memberKeys := cell.2.sort, splitFrom := some cell.1 }

/-- The rows about a group's own entity, by whether the group keeps an old id. -/
def ownRows (key : R) (entityId : E) (members : Finset R) : Option (PlanRows R E H) :=
  match (accepted old groups)[key]? with
  | none => some (createdRows digest entityId members)
  | some kept => old[kept]?.map (keptRows old digest entityId members)

/-- The body of the group loop. -/
def groupRows (key : R) (members : Finset R) : Option (PlanRows R E H) := do
  let entityId ← holder old groups factory key
  let own ← ownRows old groups digest key entityId members
  let cells ← (overlapMatrix old groups)[key]?
  return {
    assignments := groupAssignments old entityId members
    transitions := own.transitions
    events := own.events ++ splitEvents old groups digest key entityId cells }

/-- The rows of an entity none of whose records is in a new group. -/
def retiredRows (entityId : E) (members : Finset R) : PlanRows R E H where
  transitions := [⟨entityId, .retired, none, false⟩]
  events := [.new digest entityId .retired { memberKeys := members.sort }]

/-- The rows of an entity whose offer lost to the claimant. -/
def mergedRows (entityId claimant : E) (fragment : Finset R) : PlanRows R E H where
  transitions := [⟨entityId, .merged, some claimant, false⟩]
  events :=
    [.new digest entityId .merged { memberKeys := fragment.sort, mergedInto := some claimant }]

/-- The body of the old-entity loop. -/
def oldEntityRows (entityId : E) : Option (PlanRows R E H) :=
  match (offers old groups)[entityId]? with
  | none => old[entityId]?.map (retiredRows digest entityId)
  | some offeredTo => do
      let claimant ← (accepted old groups)[offeredTo]?
      if claimant = entityId then return {}
      else
        let fragment ← BTreeMap.cell? (overlapMatrix old groups) offeredTo entityId
        return mergedRows digest entityId claimant fragment

/-- The body of the orphan loop. -/
def orphanRows (orphan : R) : Option (PlanRows R E H) := do
  let entityId ← (mintedIds old groups factory)[orphan]?
  return {
    assignments := [⟨orphan, entityId⟩]
    transitions := [⟨entityId, .active, none, true⟩]
    events := [.new digest entityId .created { memberKeys := [orphan] }] }

/-- Every loop's rows, in the order the loops run. -/
def planRows : Option (List (PlanRows R E H)) := do
  let groupPart ← groups.toList.mapM fun entry =>
    groupRows old groups digest factory entry.1 entry.2
  let oldPart ← old.keys.mapM (oldEntityRows old groups digest)
  let orphanPart ← (orphans old groups).mapM (orphanRows old groups digest factory)
  return groupPart ++ oldPart ++ orphanPart

/-- `reconcile_plan` after both sides have been canonicalised. -/
def planOf : Option (ReconcilePlan R E H) := do
  let rows ← planRows old groups digest factory
  let minted ← (mintKeys old groups).mapM fun key => (mintedIds old groups factory)[key]?
  return {
    assignments := (rows.flatMap PlanRows.assignments).insertionSort
      fun first second => first.recordKey ≤ second.recordKey
    transitions := (rows.flatMap PlanRows.transitions).insertionSort
      fun first second => first.entityId ≤ second.entityId
    events := sortPlannedEvents (rows.flatMap PlanRows.events)
    minted := minted }

end Matching

/-- The old membership as sets. -/
def oldSets (pOld : BTreeMap E (List R)) : BTreeMap E (Finset R) :=
  pOld.map fun _ members => members.toFinset

/-- `reconcile_plan`: apply INV-PERM to a partition pair. -/
def reconcilePlan (digest : EventDetails R E → H) (pOld : BTreeMap E (List R))
    (pNew : List (List R)) (factory : IdFactory E) : Option (ReconcilePlan R E H) := do
  let groups ← canonicalGroups pNew
  planOf (oldSets pOld) groups digest factory

end EntityResolution.Reconcile
