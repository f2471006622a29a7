/-
# The reconcile tables and what a run writes

A reconcile run writes three tables. `entity_membership` says which entity every record
belongs to, `entities` holds the lifecycle of every entity ever minted, and `entity_events` is
the ledger that subscribers read. The run plans against the membership of the records that are
still in the corpus, and then sends its statements one by one: the changed membership rows,
the pruning of the records that left the corpus, the entity transitions, the retirement of the
entities the pruning emptied, and every event.

Record keys identify membership rows: the natural key of a row is the record key, cut at its
first colon. Event ids are derived from the run id and the position, and the two timestamps
of an event row equal `occurred_at`; neither is kept here. Timestamps are milliseconds.
The rows that an escalation adds to `review_queue` are left out.
-/

import EntityResolution.Foundations.Tables
import EntityResolution.Reconcile.Clustering
import EntityResolution.Reconcile.History

namespace EntityResolution.Reconcile

open EntityResolution.Collections EntityResolution.Identity EntityResolution.NeverCut
open EntityResolution.Tables

universe v w x y

variable {R H : Type} {P : Type v} {C : Type w} {V : Type x} {A : Type y}

/-- The run id and the logical time a run stamps its rows with. -/
structure RunStamp where
  runId : String
  runAt : ℕ
  deriving DecidableEq

/-- A row of `entity_membership` under its record key. -/
structure MembershipRow where
  entityId : V7Id
  assignedAt : ℕ
  runId : String
  createdAt : ℕ
  updatedAt : ℕ
  deriving DecidableEq

/-- A row of `entities` under its id. -/
structure ResolvedEntity where
  status : Status
  mergedInto : Option V7Id
  createdAt : ℕ
  updatedAt : ℕ
  createdRunId : String
  updatedRunId : String
  deriving DecidableEq

/-- A row of `entity_events`. -/
structure LedgerEvent (R H : Type) where
  seq : ℕ
  runId : String
  event : PlannedEvent R V7Id H
  occurredAt : ℕ
  deriving DecidableEq

/-- The tables of the reconcile stage. -/
structure Lake (R H : Type) [LinearOrder R] where
  membership : BTreeMap R MembershipRow
  entities : BTreeMap V7Id ResolvedEntity
  events : List (LedgerEvent R H)

variable [LinearOrder R]

/-- The lake before the first run. -/
def Lake.fresh : Lake R H := ⟨∅, ∅, []⟩

/-- One statement of a run, as it is sent to the lake. -/
inductive Statement (R H : Type) [LinearOrder R]
  | upsertMembership (rows : List (MembershipAssignment R V7Id)) (stamp : RunStamp)
  | absentFromCorpus (corpus : List R)
  | upsertEntities (rows : List (V7Id × EntityRow V7Id)) (stamp : RunStamp)
  | appendEvent (row : LedgerEvent R H)

/-- `entity_membership/update/upsert_from_src`. -/
def upsertMembership (rows : List (MembershipAssignment R V7Id)) (stamp : RunStamp)
    (lake : Lake R H) : Lake R H :=
  { lake with
    membership := mergeInto lake.membership
      (Std.ExtTreeMap.ofList (rows.map fun row => (row.recordKey, row.entityId)) compare)
      (fun entityId row =>
        { row with
          entityId
          assignedAt := stamp.runAt
          runId := stamp.runId
          updatedAt := stamp.runAt })
      fun entityId => ⟨entityId, stamp.runAt, stamp.runId, stamp.runAt, stamp.runAt⟩ }

/-- `entity_membership/delete/absent_from_corpus`. -/
def absentFromCorpus (corpus : List R) (lake : Lake R H) : Lake R H :=
  { lake with membership := deleteWhere lake.membership fun record _ => !corpus.contains record }

/-- `resolved_entity/update/upsert_from_src`. -/
def upsertEntities (rows : List (V7Id × EntityRow V7Id)) (stamp : RunStamp) (lake : Lake R H) :
    Lake R H :=
  { lake with
    entities := mergeInto lake.entities (Std.ExtTreeMap.ofList rows compare)
      (fun source row =>
        { row with
          status := source.status
          mergedInto := source.mergedInto
          updatedAt := stamp.runAt
          updatedRunId := stamp.runId })
      fun source =>
        ⟨source.status, source.mergedInto, stamp.runAt, stamp.runAt, stamp.runId, stamp.runId⟩ }

/-- `entity_event/create/append`. -/
def appendEvent (row : LedgerEvent R H) (lake : Lake R H) : Lake R H :=
  { lake with events := lake.events ++ [row] }

/-- What a statement does to the lake when it commits. -/
def Statement.exec (lake : Lake R H) : Statement R H → Lake R H
  | .upsertMembership rows stamp => Reconcile.upsertMembership rows stamp lake
  | .absentFromCorpus corpus => Reconcile.absentFromCorpus corpus lake
  | .upsertEntities rows stamp => Reconcile.upsertEntities rows stamp lake
  | .appendEvent row => Reconcile.appendEvent row lake

/-- Commit a sequence of statements, one after the other. -/
def commit (lake : Lake R H) (statements : List (Statement R H)) : Lake R H :=
  statements.foldl Statement.exec lake

/-- The membership of the records in the corpus: what the run is planned on. -/
def priorMembership (corpus : List R) (lake : Lake R H) : BTreeMap R V7Id :=
  (lake.membership.filter fun record _ => corpus.contains record).map fun _ row => row.entityId

/-- `p_old`: every entity's records that are in the corpus. -/
def pOld (corpus : List R) (lake : Lake R H) : BTreeMap V7Id (List R) :=
  BTreeMap.keysByValue (priorMembership corpus lake)

/-- `departed`: every entity's records that left the corpus. -/
def departed (corpus : List R) (lake : Lake R H) : BTreeMap V7Id (List R) :=
  BTreeMap.keysByValue ((lake.membership.filter fun record _ => !corpus.contains record).map
    fun _ row => row.entityId)

/-- `orphaned_live`: the active entities that no membership row names, by id. -/
def orphanedLive (lake : Lake R H) : List V7Id :=
  (lake.entities.filter fun id row =>
    row.status = .active && lake.membership.toList.all fun entry => entry.2.entityId ≠ id).keys

/-- What stops a run before its first statement: the never-cut fails, or a panic in the plan
or in the mint. -/
inductive ReconcileError
  | neverCut (error : NeverCutError)
  | panic
  deriving DecidableEq

section Run

variable [LinearOrder H] [LinearOrder P] [One P] [DecidableEq V]
  (digest : EventDetails R V7Id → H) (input : ReconcileInput R P C V A) (stamp : RunStamp)
  (lake : Lake R H)

/-- The plan of a run. The mint counter continues past every entity row. -/
def runPlan : Except ReconcileError (ReconcilePlan R V7Id H) :=
  match input.neverCut with
  | .error error => .error (.neverCut error)
  | .ok result =>
      match reconcilePlan digest (pOld input.corpus.keys lake) (input.partitionOf result)
          (deterministicV7Factory stamp.runAt lake.entities.size) with
      | none => .error .panic
      | some plan =>
          if plan.minted = [] ∨ lake.entities.size + plan.minted.length ≤ counterBound then
            .ok plan
          else .error .panic

/-- The statements before the retirement is read. -/
def planStatements (plan : ReconcilePlan R V7Id H) : List (Statement R H) :=
  (if plan.assignments = [] then [] else [.upsertMembership plan.assignments stamp]) ++
  [.absentFromCorpus input.corpus.keys] ++
  (if plan.transitions = [] then []
    else [.upsertEntities
      (plan.transitions.map fun transition => (transition.entityId, transition.row)) stamp])

/-- A departure for every entity that lost records to the corpus. -/
def departedEvents : List (PlannedEvent R V7Id H) :=
  (departed input.corpus.keys lake).toList.map fun entry =>
    .new digest entry.1 .memberRemoved
      { memberKeys := entry.2.insertionSort (· ≤ ·), cause := some .departed }

/-- A retirement for every entity that was emptied, with the records that just left it. -/
def retiredEvents (orphaned : List V7Id) : List (PlannedEvent R V7Id H) :=
  orphaned.map fun id =>
    .new digest id .retired
      { memberKeys := ((departed input.corpus.keys lake)[id]?.getD []).insertionSort (· ≤ ·) }

/-- The events of a run, in the ledger's order. -/
def runEvents (plan : ReconcilePlan R V7Id H) (orphaned : List V7Id) :
    List (PlannedEvent R V7Id H) :=
  sortPlannedEvents
    (plan.events ++ departedEvents digest input lake ++ retiredEvents digest input lake orphaned)

/-- The statement that retires the emptied entities. -/
def retireStatements (orphaned : List V7Id) : List (Statement R H) :=
  if orphaned = [] then []
  else [.upsertEntities (orphaned.map fun id => (id, ⟨.retired, none⟩)) stamp]

/-- The statements that append a run's events. -/
def eventStatements (events : List (PlannedEvent R V7Id H)) : List (Statement R H) :=
  events.zipIdx.map fun entry => .appendEvent ⟨entry.2, stamp.runId, entry.1, stamp.runAt⟩

/-- Everything a run sends after its plan. -/
def statementsOf (plan : ReconcilePlan R V7Id H) : List (Statement R H) :=
  let written := commit lake (planStatements input stamp plan)
  let orphaned := orphanedLive written
  planStatements input stamp plan ++ retireStatements stamp orphaned ++
    eventStatements stamp (runEvents digest input lake plan orphaned)

/-- `run_reconcile`: the statements that a run sends from a given lake, in order. -/
def runReconcile : Except ReconcileError (List (Statement R H)) :=
  (runPlan digest input stamp lake).map (statementsOf digest input stamp lake)

end Run

end EntityResolution.Reconcile
