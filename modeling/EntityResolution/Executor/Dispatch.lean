/-
# The job queue and its dispatchers

Any number of dispatchers claim jobs from one table. A claim is one statement under an advisory
lock; what the dispatcher does next depends on the kind of the job. An executor kind is planned and
left to the executor's passes. Every other kind is run by the dispatcher itself: its legacy arm
plans the job through the reporter or marks it running, runs it, and at the end marks it again or
lets `fail_or_retry` decide. The plan and the executor's settle look at the state of the job. The
marks of an arm, and the API's cancel of such a kind, do not.

The columns `dataset_id` and `max_attempts` are set when a job is enqueued and never written again,
so they are functions of the job.
-/

import EntityResolution.Executor.RowSteps

namespace EntityResolution.Executor

open EntityResolution.Collections EntityResolution.Statements EntityResolution.Tables

universe u v w x

variable {J : Type u} {T : Type v} {V : Type w} {D : Type x}

/-- `state IN ('dispatching', 'running', 'canceling')`: the job holds the writer lock. -/
def JobState.isActive (state : JobState) : Bool :=
  state == .dispatching || state == .running || state == .canceling

/-- The `NOT EXISTS` of `claim.sql`: the other job keeps this one from being claimed. -/
def blocks [DecidableEq D] (datasetOf : J → Option D) (job : J) (row : Job J V) (other : J)
    (otherRow : Job J V) : Bool :=
  otherRow.state.isActive &&
    ((datasetOf job).isSome &&
        (datasetOf other == datasetOf job ||
          otherRow.orgId == row.orgId && (datasetOf other).isNone) ||
      (datasetOf job).isNone && otherRow.orgId == row.orgId)

/-- Both jobs would stand in one of the partial unique indexes `jobs_one_active_per_dataset` and
`jobs_one_active_org_level`. -/
def sharesIndex [DecidableEq D] (datasetOf : J → Option D) (job : J) (row : Job J V) (other : J)
    (otherRow : Job J V) : Bool :=
  (datasetOf job).isSome && datasetOf other == datasetOf job ||
    (datasetOf job).isNone && (datasetOf other).isNone && otherRow.orgId == row.orgId

/-- `mark.sql`, which has no condition on the state. -/
def markJob [LinearOrder J] (job : J) (state : JobState) : Update J (Job J V) :=
  onJob job (fun _ => true) fun row =>
    { row with
      state := state
      errorClass := if state = .succeeded then none else row.errorClass
      errorDetail := if state = .succeeded then none else row.errorDetail }

/-- `fail_or_retry.sql` of a job; `retries` is `$retryable AND attempt < max_attempts`. -/
def failOrRetryJob [LinearOrder J] (job : J) (retries : Bool) (attempt : ℕ) (now : ℤ)
    (errorClass errorDetail : String) : Update J (Job J V) :=
  onJob job (fun _ => true) fun row =>
    { row with
      state := if retries then .queued else .failed
      notBefore := if retries then some (now + (min 300 (5 * 2 ^ (attempt - 1)) : ℕ))
        else row.notBefore
      errorClass := some errorClass
      errorDetail := some (truncateDetail errorDetail) }

/-- Where a legacy arm stands with its job. -/
inductive ArmPhase
  | claimed
  | running
  deriving DecidableEq

/-- A legacy arm: a dispatcher that runs a claimed job itself. -/
structure Arm (J : Type u) where
  job : J
  phase : ArmPhase
  deriving DecidableEq

/-- What an arm does at its end. -/
inductive ArmEnd
  /-- The run succeeded: `mark` it so. -/
  | succeeded
  /-- The organisation, the dataset or the model registry could not be read: `mark` it failed. -/
  | failed
  /-- The run failed: `fail_or_retry`. -/
  | failOrRetry (retryable : Bool) (now : ℤ) (errorClass errorDetail : String)

/-- Who claims a job. -/
inductive Claimant
  | executor
  | legacyArm
  deriving DecidableEq

section Tables

variable [LinearOrder J] [LinearOrder T]

/-- The control plane, how often each job was claimed, and the arms that hold a job. -/
structure Queue (J : Type u) (T : Type v) (V : Type w) [LinearOrder J] [LinearOrder T] where
  plane : ControlPlane J T V
  attempt : J → ℕ
  arms : List (Arm J)

/-- The queue before the first job. -/
def Queue.fresh : Queue J T V where
  plane := ControlPlane.fresh
  attempt _ := 0
  arms := []

/-- The steps of the dispatchers, of the API and of the pods. -/
inductive QueueAction (J : Type u) (T : Type v) (V : Type w)
  /-- `claim.sql`; `cap` is the cap of each organisation in force, and the default otherwise. -/
  | claim (claimant : Claimant) (cap : String → ℕ) (now : ℤ)
  /-- The reporter of an arm plans the job. -/
  | planReported (job : J)
  /-- An arm without a planned job marks it running. -/
  | markRunning (job : J)
  | endArm (job : J) (ending : ArmEnd)
  /-- The dispatcher of an arm dies. -/
  | crash (arm : Arm J)
  /-- The API's cancel of a job that is not of an executor kind: `mark` it canceled. -/
  | cancelMarked (job : J)
  /-- Any other statement. -/
  | plane (action : Action J T V)

/-- Run a job statement, unless the job row is locked. -/
def ControlPlane.runJob (plane : ControlPlane J T V) (job : J) (update : Update J (Job J V)) :
    ControlPlane J T V :=
  if plane.jobLocked job then plane else plane.withJobs (update.run plane.ledger.jobs)

section Step

variable [DecidableEq D] (datasetOf : J → Option D)

/-- The jobs of an organisation that are active. -/
def activeOf (jobs : JobTable J V) (orgId : String) : ℕ :=
  countWhere jobs fun _ row => row.orgId == orgId && row.state.isActive

/-- The condition of the select in `claim.sql`. -/
def jobClaimable (jobs : JobTable J V) (cap : String → ℕ) (now : ℤ) (job : J) (row : Job J V) :
    Bool :=
  row.state == .queued && due row.notBefore now &&
    countWhere jobs (blocks datasetOf job row) == 0 &&
    decide (activeOf jobs row.orgId < cap row.orgId)

/-- Keep the job of the higher priority, and of two with the same the one that came first. -/
def keepHigher (best : Option (J × Job J V)) (entry : J × Job J V) : Option (J × Job J V) :=
  match best with
  | none => some entry
  | some kept => if kept.2.priority < entry.2.priority then some entry else best

/-- The job that `claim.sql` picks: `ORDER BY priority DESC, id`, locked rows skipped. -/
def pickJob (plane : ControlPlane J T V) (cap : String → ℕ) (now : ℤ) : Option J :=
  ((plane.ledger.jobs.toList.filter fun entry =>
    jobClaimable datasetOf plane.ledger.jobs cap now entry.1 entry.2 &&
      !plane.jobLocked entry.1).foldl keepHigher none).map Prod.fst

/-- Making the job active would violate one of the partial unique indexes. -/
def clashes (jobs : JobTable J V) (job : J) : Bool :=
  (jobs[job]?).any fun row =>
    countWhere jobs (fun other otherRow =>
      decide (other ≠ job) && otherRow.state.isActive &&
        sharesIndex datasetOf job row other otherRow) != 0

/-- A claim: the picked job is dispatched and its attempt counted, unless an index refuses. -/
def Queue.claim (queue : Queue J T V) (claimant : Claimant) (cap : String → ℕ) (now : ℤ) :
    Queue J T V :=
  match pickJob datasetOf queue.plane cap now with
  | none => queue
  | some job =>
      if clashes datasetOf queue.plane.ledger.jobs job then queue
      else
        { plane := queue.plane.withJobs ((claimJob job now).run queue.plane.ledger.jobs)
          attempt := Function.update queue.attempt job (queue.attempt job + 1)
          arms :=
            match claimant with
            | .executor => queue.arms
            | .legacyArm => ⟨job, .claimed⟩ :: queue.arms }

/-- The statement with which an arm ends. -/
def ArmEnd.update (maxAttempts : J → ℕ) (attempt : J → ℕ) (job : J) :
    ArmEnd → Update J (Job J V)
  | .succeeded => markJob job .succeeded
  | .failed => markJob job .failed
  | .failOrRetry retryable now errorClass errorDetail =>
      failOrRetryJob job (retryable && decide (attempt job < maxAttempts job)) (attempt job) now
        errorClass errorDetail

/-- The claims of the control plane alone, which `claim.sql` replaces. -/
def Action.isClaim : Action J T V → Bool
  | .job (.claim ..) => true
  | _ => false

variable (maxAttempts : J → ℕ) (render : T → String) (dagFor : J → Dag T)

/-- One step. What waits for a lock, or does not apply, changes nothing. -/
def Queue.step (queue : Queue J T V) : QueueAction J T V → Queue J T V
  | .claim claimant cap now => queue.claim datasetOf claimant cap now
  | .planReported job =>
      if queue.arms.contains ⟨job, .claimed⟩ &&
          (queue.plane.ledger.jobs[job]?).any (·.state == .dispatching) &&
          !queue.plane.jobLocked job then
        { queue with
          plane :=
            { queue.plane with ledger := Executor.plan (dagFor job) job queue.plane.ledger }
          arms := ⟨job, .running⟩ :: queue.arms.erase ⟨job, .claimed⟩ }
      else queue
  | .markRunning job =>
      if queue.arms.contains ⟨job, .claimed⟩ && !queue.plane.jobLocked job then
        if clashes datasetOf queue.plane.ledger.jobs job then
          -- the error stops the dispatcher
          { queue with arms := queue.arms.erase ⟨job, .claimed⟩ }
        else
          { queue with
            plane := queue.plane.runJob job (markJob job .running)
            arms := ⟨job, .running⟩ :: queue.arms.erase ⟨job, .claimed⟩ }
      else queue
  | .endArm job ending =>
      if queue.arms.contains ⟨job, .running⟩ && !queue.plane.jobLocked job then
        { queue with
          plane := queue.plane.runJob job (ending.update maxAttempts queue.attempt job)
          arms := queue.arms.erase ⟨job, .running⟩ }
      else queue
  | .crash arm => { queue with arms := queue.arms.erase arm }
  | .cancelMarked job => { queue with plane := queue.plane.runJob job (markJob job .canceled) }
  | .plane action =>
      if action.isClaim then queue
      else { queue with plane := queue.plane.step render dagFor action }

end Step

end Tables

end EntityResolution.Executor
