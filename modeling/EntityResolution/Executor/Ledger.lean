/-
# The task ledger and its statements

`task_instances` holds one row for every try of every task of every job; the current try of a
task has `live = TRUE`, and archived tries stay as history. `jobs` holds the state of every job
and the number of clears it has seen. Every write of the executor, of the pods' reports and of
the operator's clears is one of the guarded statements below, each under its own name.

The id of a row is a pure function of its job, task and try number, so those three are the key;
a Kubernetes Job name is a function of the row and the launch count. A row's organisation is its
job's, so a statement that names a job needs no further organisation filter. Times are seconds.
Of the columns, the image digest, the trace context, the token hash, the node name, the lake
snapshots, the counters and the timestamps that no condition reads are left out.
-/

import EntityResolution.Foundations.Statements
import EntityResolution.Executor.Readiness

namespace EntityResolution.Executor

open EntityResolution.Collections EntityResolution.Statements EntityResolution.Tables

universe u v w

variable {J : Type u} {T : Type v} {V : Type w}

/-- One try of one task of one job. -/
@[ext] structure AttemptId (J : Type u) (T : Type v) where
  job : J
  task : T
  tryNumber : ℕ

/-- The key of the try after this one. -/
def AttemptId.next (id : AttemptId J T) : AttemptId J T :=
  ⟨id.job, id.task, id.tryNumber + 1⟩

/-- Keys are ordered by job, task and try number. -/
def AttemptId.position (id : AttemptId J T) : J ×ₗ T ×ₗ ℕ :=
  toLex (id.job, toLex (id.task, id.tryNumber))

theorem AttemptId.position_injective :
    Function.Injective (AttemptId.position : AttemptId J T → J ×ₗ T ×ₗ ℕ) := by
  intro first second hsame
  simp only [AttemptId.position, EmbeddingLike.apply_eq_iff_eq, Prod.mk.injEq] at hsame
  ext
  · exact hsame.1
  · exact hsame.2.1
  · exact hsame.2.2

instance [LinearOrder J] [LinearOrder T] : LinearOrder (AttemptId J T) :=
  LinearOrder.lift' AttemptId.position AttemptId.position_injective

instance AttemptId.transCmp_compare (J : Type u) (T : Type v) [LinearOrder J] [LinearOrder T] :
    Std.TransCmp (compare : AttemptId J T → AttemptId J T → Ordering) :=
  Collections.transCmp_compare (AttemptId J T)

/-- The name of a Kubernetes Job: the in-process reporter's `inproc`, or the name that a launch
derives from its row and its count. -/
inductive JobName (J : Type u) (T : Type v)
  | inproc
  | launch (job : J) (task : T) (tryNumber : ℕ) (launches : ℤ)
  deriving DecidableEq

/-- Why a row stopped being live. -/
inductive ArchivedReason
  | retry
  | cleared
  | restarted
  deriving DecidableEq

/-- The flavour of a success. -/
inductive Outcome
  | done
  | noOp
  deriving DecidableEq

/-- A work order: the outputs of the upstream tasks by position, the parameters of the job, and
for a teardown task the states of the others. -/
structure WorkInput (T : Type v) (V : Type w) where
  pins : List (Option V)
  params : V
  leaves : Option (List (T × TaskState))

/-- A row of `task_instances` under its key. -/
structure TaskInstance (J : Type u) (T : Type v) (V : Type w) where
  live : Bool
  archivedReason : Option ArchivedReason
  kind : NodeKind
  state : TaskState
  seq : ℕ
  teardown : Bool
  segment : Option String
  resourceClass : Option ResourceClass
  nextResourceClass : Option ResourceClass
  escalatedFrom : Option ResourceClass
  maxTries : ℤ
  launches : ℤ
  maxLaunches : ℤ
  notBefore : Option ℤ
  input : Option (WorkInput T V)
  output : Option V
  outcome : Option Outcome
  exitCode : Option ℤ
  terminationReason : Option String
  errorClass : Option String
  errorDetail : Option String
  ownerEpoch : Option String
  k8sJobName : Option (JobName J T)
  podName : Option String
  podUid : Option String

/-- The states of a job. -/
inductive JobState
  | queued
  | dispatching
  | running
  | canceling
  | succeeded
  | failed
  | canceled
  deriving DecidableEq

/-- A row of `jobs` under its id; a NULL `clear_number` counts as zero. -/
structure Job (J : Type u) (V : Type w) where
  orgId : String
  priority : ℤ
  params : V
  state : JobState
  runId : Option J
  resourceClass : Option ResourceClass
  clearNumber : ℕ
  notBefore : Option ℤ
  errorClass : Option String
  errorDetail : Option String

section Tables

variable [LinearOrder J] [LinearOrder T]

/-- The table `task_instances`. -/
abbrev TaskTable (J : Type u) (T : Type v) (V : Type w) [LinearOrder J] [LinearOrder T] :=
  BTreeMap (AttemptId J T) (TaskInstance J T V)

/-- The table `jobs`. -/
abbrev JobTable (J : Type u) (V : Type w) [LinearOrder J] := BTreeMap J (Job J V)

/-- The two tables. -/
structure Ledger (J : Type u) (T : Type v) (V : Type w) [LinearOrder J] [LinearOrder T] where
  jobs : JobTable J V
  tasks : TaskTable J T V

/-- `by_job`: the rows of one job. -/
def byJob (tasks : TaskTable J T V) (job : J) : TaskTable J T V :=
  tasks.filter fun id _ => id.job = job

/-- The live row of a task. -/
def liveRow (tasks : TaskTable J T V) (job : J) (task : T) :
    Option (AttemptId J T × TaskInstance J T V) :=
  tasks.toList.find? fun entry => entry.1.job = job && entry.1.task = task && entry.2.live

/-- The output of the live row of a task. -/
def liveOutput (tasks : TaskTable J T V) (job : J) (task : T) : Option V :=
  (liveRow tasks job task).bind fun entry => entry.2.output

/-- The number of clears a job has seen. -/
def clearNumber (jobs : JobTable J V) (job : J) : Option ℕ :=
  (jobs[job]?).map Job.clearNumber

/-- The job runs, or is being canceled and the row is a teardown row. -/
def jobAllows (jobs : JobTable J V) (id : AttemptId J T) (row : TaskInstance J T V) : Bool :=
  (jobs[id.job]?).any fun job =>
    job.state == .running || job.state == .canceling && row.teardown

theorem liveRow_some {tasks : TaskTable J T V} {job : J} {task : T}
    {entry : AttemptId J T × TaskInstance J T V} (hentry : liveRow tasks job task = some entry) :
    tasks[entry.1]? = some entry.2 ∧ entry.1.job = job ∧ entry.1.task = task ∧
      entry.2.live = true := by
  have hmem := BTreeMap.mem_toList.mp (List.mem_of_find?_eq_some hentry)
  have hfound := List.find?_some hentry
  simp only [Bool.and_eq_true, decide_eq_true_eq] at hfound
  exact ⟨hmem, hfound.1.1, hfound.1.2, hfound.2⟩

theorem liveRow_eq_none_iff {tasks : TaskTable J T V} {job : J} {task : T} :
    liveRow tasks job task = none ↔
      ∀ number row, tasks[(⟨job, task, number⟩ : AttemptId J T)]? = some row →
        row.live = false := by
  rw [liveRow, List.find?_eq_none]
  apply Iff.intro
  · intro hnone number row hrow
    have hmiss := hnone (⟨job, task, number⟩, row) (BTreeMap.mem_toList.mpr hrow)
    simpa using hmiss
  · intro hdead entry hmem hfound
    simp only [Bool.and_eq_true, decide_eq_true_eq] at hfound
    have hrow := BTreeMap.mem_toList.mp hmem
    have hkey : entry.1 = ⟨job, task, entry.1.tryNumber⟩ := by
      ext
      · exact hfound.1.1
      · exact hfound.1.2
      · rfl
    rw [hkey] at hrow
    rw [hdead _ _ hrow] at hfound
    cases hfound.2

end Tables

/-- The rows of a task update. -/
abbrev TaskUpdate (J : Type u) (T : Type v) (V : Type w) :=
  Update (AttemptId J T) (TaskInstance J T V)

/-- `state IN ('queued', 'running')`: the row has been claimed. -/
def TaskState.isClaimed (state : TaskState) : Bool :=
  state == .queued || state == .running

/-- `state IN ('none', 'scheduled', 'up_for_retry')`: the row waits for a verdict or a claim. -/
def TaskState.isWaiting (state : TaskState) : Bool :=
  state == .none || state == .scheduled || state == .upForRetry

/-- `state IN ('scheduled', 'up_for_retry')`: the row waits for a claim. -/
def TaskState.isClaimable (state : TaskState) : Bool :=
  state == .scheduled || state == .upForRetry

section Statements

variable [LinearOrder J] [LinearOrder T]

/-- `WHERE id = $id AND live IS TRUE AND …`. -/
def onLive (id : AttemptId J T) (condition : TaskInstance J T V → Bool)
    (set : TaskInstance J T V → TaskInstance J T V) : TaskUpdate J T V where
  hit k row := k = id && row.live && condition row
  set _ row := set row

/-- `WHERE job_id = $job_id AND live IS TRUE AND …`. -/
def onLiveOf (job : J) (condition : T → TaskInstance J T V → Bool)
    (set : AttemptId J T → TaskInstance J T V → TaskInstance J T V) : TaskUpdate J T V where
  hit k row := k.job = job && row.live && condition k.task row
  set := set

/-- `start.sql`: the pod of the current launch reports. -/
def start (id : AttemptId J T) (k8sJobName : JobName J T) (podName podUid : String) :
    TaskUpdate J T V :=
  onLive id (fun row => row.state == .queued && row.k8sJobName == some k8sJobName) fun row =>
    { row with state := .running, podName := some podName, podUid := some podUid }

/-- `finish.sql`. -/
def finish (id : AttemptId J T) (podUid : String) (skipped : Bool) (outcome : Outcome)
    (output : Option V) (exitCode : Option ℤ) : TaskUpdate J T V :=
  onLive id (fun row => row.state == .running && row.podUid == some podUid) fun row =>
    { row with
      state := if skipped then .skipped else .succeeded
      outcome := some outcome
      output := output
      exitCode := exitCode }

/-- `finish_control.sql`. -/
def finishControl (id : AttemptId J T) (ownerEpoch : String) (skipped : Bool)
    (outcome : Outcome) (output : Option V) : TaskUpdate J T V :=
  onLive id
    (fun row => row.state == .running && row.kind == .control &&
      row.ownerEpoch == some ownerEpoch)
    fun row =>
      { row with
        state := if skipped then .skipped else .succeeded
        outcome := some outcome
        output := output }

/-- `note_interruption.sql`: a reason with no state change. -/
def noteInterruption (id : AttemptId J T) (podUid terminationReason : String) :
    TaskUpdate J T V :=
  onLive id
    (fun row => (row.state == .running || row.state == .restarting || row.state == .canceling) &&
      row.podUid == some podUid)
    fun row => { row with terminationReason := some terminationReason }

/-- `record_evidence.sql`, the one statement that also hits archived rows. -/
def recordEvidence (id : AttemptId J T) (podUid : String) (k8sJobName : JobName J T)
    (exitCode : Option ℤ) (terminationReason : Option String) : TaskUpdate J T V where
  hit k row := k = id && row.podUid == some podUid && row.k8sJobName == some k8sJobName &&
    (row.state == .succeeded || row.state == .skipped)
  set _ row := { row with exitCode := exitCode, terminationReason := terminationReason }

/-- `requeue_launch.sql`: give the launch back on the infrastructure budget. -/
def requeueLaunch (id : AttemptId J T) (k8sJobName : JobName J T) (now waitSecs : ℤ)
    (terminationReason : Option String) : TaskUpdate J T V :=
  onLive id
    (fun row => row.state.isClaimed && row.k8sJobName == some k8sJobName &&
      decide (row.launches < row.maxLaunches))
    fun row =>
      { row with
        state := .scheduled
        k8sJobName := none
        podName := none
        podUid := none
        notBefore := some (now + waitSecs)
        terminationReason := terminationReason }

/-- `capacity_wait.sql`: give the launch back and refund it. -/
def capacityWait (id : AttemptId J T) (k8sJobName : JobName J T) (now waitSecs : ℤ)
    (terminationReason : Option String) : TaskUpdate J T V :=
  onLive id
    (fun row => row.state == .queued && row.k8sJobName == some k8sJobName &&
      decide (0 < row.launches))
    fun row =>
      { row with
        state := .scheduled
        launches := row.launches - 1
        k8sJobName := none
        podName := none
        podUid := none
        notBefore := some (now + waitSecs)
        terminationReason := terminationReason }

/-- `cancel_pending.sql`. -/
def cancelPending (job : J) : TaskUpdate J T V :=
  onLiveOf job (fun _ row => row.state.isWaiting && !row.teardown) fun _ row =>
    { row with state := .canceled }

/-- `cancel_live.sql`. -/
def cancelLive (job : J) : TaskUpdate J T V :=
  onLiveOf job (fun _ row => (row.state.isClaimed || row.state == .restarting) && !row.teardown)
    fun _ row => { row with state := .canceling }

/-- `settle_canceled.sql`. -/
def settleCanceled (id : AttemptId J T) (k8sJobName : Option (JobName J T))
    (exitCode : Option ℤ) (terminationReason : Option String) : TaskUpdate J T V :=
  onLive id (fun row => row.state == .canceling && row.k8sJobName == k8sJobName) fun row =>
    { row with
      state := .canceled
      exitCode := exitCode
      terminationReason := terminationReason }

/-- `adopt.sql`: a new process takes over every claimed row. -/
def adopt (ownerEpoch : String) : TaskUpdate J T V where
  hit _ row := row.live &&
    (row.state.isClaimed || row.state == .restarting || row.state == .canceling)
  set _ row := { row with ownerEpoch := some ownerEpoch }

/-! ## Claims -/

/-- `not_before IS NULL OR not_before <= now()`. -/
def due (notBefore : Option ℤ) (now : ℤ) : Bool :=
  notBefore.all fun deadline => decide (deadline ≤ now)

/-- The organisation of a job. -/
def orgOf (jobs : JobTable J V) (job : J) : Option String :=
  (jobs[job]?).map Job.orgId

/-- The rows that hold a pod: the predicate of the index `task_instances_one_pod_per_dataset`. -/
def TaskInstance.holdsPod (row : TaskInstance J T V) : Bool :=
  row.live && row.kind == .pod &&
    (row.state.isClaimed || row.state == .restarting || row.state == .canceling)

/-- The condition of the select in `claim_control.sql`. -/
def controlClaimable (ledger : Ledger J T V) (now : ℤ) (id : AttemptId J T)
    (row : TaskInstance J T V) : Bool :=
  row.live && row.kind == .control && row.state.isClaimable && due row.notBefore now &&
    jobAllows ledger.jobs id row

/-- The condition of the select in `claim_launch.sql`: a due pod row of a running job, no other
pod in its organisation, and room under the cap. -/
def launchClaimable (ledger : Ledger J T V) (now : ℤ) (inFlightCap : ℕ) (id : AttemptId J T)
    (row : TaskInstance J T V) : Bool :=
  row.live && row.kind == .pod && row.state.isClaimable && due row.notBefore now &&
    jobAllows ledger.jobs id row &&
    (countWhere ledger.tasks fun k other =>
      orgOf ledger.jobs k.job == orgOf ledger.jobs id.job && other.holdsPod) == 0 &&
    decide ((countWhere ledger.tasks fun _ other =>
      other.live && other.kind == .pod && other.state.isClaimed &&
        other.k8sJobName != some .inproc) < inFlightCap)

/-- The priority of a job. -/
def priorityOf (jobs : JobTable J V) (job : J) : ℤ :=
  ((jobs[job]?).map Job.priority).getD 0

/-- `ORDER BY priority DESC, job, seq`: the first row comes before the second. -/
def claimedBefore (jobs : JobTable J V) (first second : AttemptId J T × TaskInstance J T V) :
    Bool :=
  decide (priorityOf jobs second.1.job < priorityOf jobs first.1.job) ||
    priorityOf jobs second.1.job == priorityOf jobs first.1.job &&
      decide (toLex (first.1.job, first.2.seq) < toLex (second.1.job, second.2.seq))

/-- Keep the row that comes first in claim order. -/
def keepFirst (jobs : JobTable J V) (best : Option (AttemptId J T × TaskInstance J T V))
    (entry : AttemptId J T × TaskInstance J T V) :
    Option (AttemptId J T × TaskInstance J T V) :=
  match best with
  | none => some entry
  | some kept => if claimedBefore jobs entry kept then some entry else best

omit [LinearOrder T] in
theorem mem_of_foldl_keepFirst {jobs : JobTable J V}
    {entries : List (AttemptId J T × TaskInstance J T V)}
    {best : Option (AttemptId J T × TaskInstance J T V)}
    {entry : AttemptId J T × TaskInstance J T V}
    (hentry : entries.foldl (keepFirst jobs) best = some entry) :
    entry ∈ entries ∨ best = some entry := by
  apply mem_of_foldl_choose _ hentry
  intro best head
  cases best with
  | none => exact .inl rfl
  | some kept =>
      rw [keepFirst]
      split
      · exact .inl rfl
      · exact .inr rfl

/-- The first row in claim order that meets the condition; locked rows are skipped. -/
def pickClaim (ledger : Ledger J T V) (locked : AttemptId J T → Bool)
    (claimable : AttemptId J T → TaskInstance J T V → Bool) : Option (AttemptId J T) :=
  ((ledger.tasks.toList.filter fun entry => claimable entry.1 entry.2 && !locked entry.1).foldl
    (keepFirst ledger.jobs) none).map Prod.fst

theorem pickClaim_some {ledger : Ledger J T V} {locked : AttemptId J T → Bool}
    {claimable : AttemptId J T → TaskInstance J T V → Bool} {id : AttemptId J T}
    (hpick : pickClaim ledger locked claimable = some id) :
    locked id = false ∧ ∃ row, ledger.tasks[id]? = some row ∧ claimable id row = true := by
  rw [pickClaim, Option.map_eq_some_iff] at hpick
  obtain ⟨entry, hentry, rfl⟩ := hpick
  have hmem : entry ∈ ledger.tasks.toList.filter fun entry =>
      claimable entry.1 entry.2 && !locked entry.1 := by
    rcases mem_of_foldl_keepFirst hentry with hmem | hnone
    · exact hmem
    · cases hnone
  rw [List.mem_filter] at hmem
  simp only [Bool.and_eq_true, Bool.not_eq_true'] at hmem
  exact ⟨hmem.2.2, entry.2, BTreeMap.mem_toList.mp hmem.1, hmem.2.1⟩

/-- The update of `claim_launch.sql`, for the row its select picked. -/
def claimLaunch (id : AttemptId J T) (ownerEpoch : String) (k8sJobName : Option (JobName J T)) :
    TaskUpdate J T V where
  hit k _ := k = id
  set k row :=
    { row with
      state := .queued
      ownerEpoch := some ownerEpoch
      launches := row.launches + 1
      k8sJobName :=
        some (k8sJobName.getD (.launch k.job k.task k.tryNumber (row.launches + 1))) }

/-- The update of `claim_control.sql`, for the row its select picked. -/
def claimControl (id : AttemptId J T) (ownerEpoch : String) : TaskUpdate J T V where
  hit k _ := k = id
  set _ row := { row with state := .running, ownerEpoch := some ownerEpoch }

/-- `mark_scheduled.sql`: the verdict with the whole work order, fenced by the clear number. -/
def markScheduled (jobs : JobTable J V) (id : AttemptId J T) (input : WorkInput T V)
    (number : ℕ) : TaskUpdate J T V :=
  onLive id (fun row => row.state == .none && clearNumber jobs id.job == some number) fun row =>
    { row with state := .scheduled, input := some input }

/-- `propagate.sql`, fenced the same way. -/
def propagate (jobs : JobTable J V) (id : AttemptId J T) (state : TaskState) (number : ℕ) :
    TaskUpdate J T V :=
  onLive id (fun row => row.state == .none && clearNumber jobs id.job == some number) fun row =>
    { row with state := state }

/-- The second half of a hand-off, composed by the finish handler. -/
structure AdvanceArgs (J : Type u) (T : Type v) (V : Type w) where
  nextTaskInstanceId : AttemptId J T
  jobId : J
  segment : String
  resourceClass : ResourceClass
  clearNumber : ℕ
  input : WorkInput T V

/-- `advance_segment.sql`: the next member of a segment runs in the pod of the finished one. -/
def advanceSegment (jobs : JobTable J V) (args : AdvanceArgs J T V)
    (done : TaskInstance J T V) (podUid : String) : TaskUpdate J T V :=
  onLive args.nextTaskInstanceId
    (fun row => row.kind == .pod && row.state == .none &&
      decide (args.nextTaskInstanceId.job = args.jobId) &&
      row.segment == some args.segment && row.resourceClass == some args.resourceClass &&
      clearNumber jobs args.nextTaskInstanceId.job == some args.clearNumber)
    fun row =>
      { row with
        state := .running
        k8sJobName := done.k8sJobName
        ownerEpoch := done.ownerEpoch
        podName := done.podName
        podUid := some podUid
        input := some args.input
        launches := 1 }

/-- The terminal state that a failure reports. -/
inductive FailureState
  | failed
  | timedOut
  | skipped
  deriving DecidableEq

/-- The failure as a task state. -/
def FailureState.toTaskState : FailureState → TaskState
  | .failed => .failed
  | .timedOut => .timedOut
  | .skipped => .skipped

/-- Everything `fail_or_retry` needs to decide and record; the backoff is base and cap. -/
structure TaskFailure (J : Type u) (T : Type v) where
  terminalState : FailureState
  retryable : Bool
  escalate : Bool
  exitCode : Option ℤ
  terminationReason : Option String
  errorClass : Option String
  errorDetail : Option String
  k8sJobName : Option (JobName J T)
  backoff : ℕ × ℕ

/-- Error texts are cut to 2000 characters. -/
def truncateDetail (detail : String) : String :=
  String.ofList (detail.toList.take 2000)

/-- `$retryable AND try_number <= max_tries`: the failure is retried. -/
def retries (failure : TaskFailure J T) (id : AttemptId J T) (row : TaskInstance J T V) : Bool :=
  failure.retryable && decide ((id.tryNumber : ℤ) ≤ row.maxTries)

/-- `archive_try.sql`: the row ends in a failure, and is archived when the failure is retried. -/
def archiveTry (jobs : JobTable J V) (id : AttemptId J T) (failure : TaskFailure J T) :
    TaskUpdate J T V where
  hit k row := k = id && row.live && row.state.isClaimed && row.k8sJobName == failure.k8sJobName &&
    jobAllows jobs k row
  set k row :=
    { row with
      state := failure.terminalState.toTaskState
      live := !retries failure k row
      archivedReason := if retries failure k row then some .retry else row.archivedReason
      exitCode := failure.exitCode
      terminationReason := failure.terminationReason
      errorClass := failure.errorClass
      errorDetail := failure.errorDetail.map truncateDetail }

/-- `restart_cleared.sql`. -/
def restartCleared (job : J) (taskIds : List T) (resourceClass : Option ResourceClass) :
    TaskUpdate J T V :=
  onLiveOf job (fun task row => row.state.isClaimed && decide (task ∈ taskIds)) fun _ row =>
    { row with state := .restarting, nextResourceClass := resourceClass }

/-- `archive_cleared.sql`: every terminal state. -/
def archiveCleared (job : J) (taskIds : List T) : TaskUpdate J T V :=
  onLiveOf job (fun task row => row.state.isTerminal && decide (task ∈ taskIds)) fun _ row =>
    { row with live := false, archivedReason := some .cleared }

/-- `reset_pending.sql`: no try was consumed, so the row stays and loses its pins. -/
def resetPending (job : J) (taskIds : List T) (retries : ℤ)
    (resourceClass : Option ResourceClass) : TaskUpdate J T V :=
  onLiveOf job (fun task row => row.state.isWaiting && decide (task ∈ taskIds)) fun id row =>
    { row with
      state := .none
      input := none
      notBefore := none
      maxTries := (id.tryNumber : ℤ) - 1 + retries
      resourceClass := resourceClass.or row.resourceClass }

/-- `archive_restarted.sql`: the old pod of a cleared row is gone. -/
def archiveRestarted (id : AttemptId J T) (k8sJobName : Option (JobName J T))
    (exitCode : Option ℤ) (terminationReason : Option String) : TaskUpdate J T V :=
  onLive id (fun row => row.state == .restarting && row.k8sJobName == k8sJobName) fun row =>
    { row with
      state := .failed
      live := false
      archivedReason := some .restarted
      exitCode := exitCode
      terminationReason := terminationReason }

/-- A row as an insert leaves it before the columns it names. -/
def TaskInstance.fresh (kind : NodeKind) (seq : ℕ) (teardown : Bool) (maxTries maxLaunches : ℤ) :
    TaskInstance J T V where
  live := true
  archivedReason := none
  kind := kind
  state := .none
  seq := seq
  teardown := teardown
  segment := none
  resourceClass := none
  nextResourceClass := none
  escalatedFrom := none
  maxTries := maxTries
  launches := 0
  maxLaunches := maxLaunches
  notBefore := none
  input := none
  output := none
  outcome := none
  exitCode := none
  terminationReason := none
  errorClass := none
  errorDetail := none
  ownerEpoch := none
  k8sJobName := none
  podName := none
  podUid := none

/-- An insert under the unique key; `none` when the key is taken. -/
def insertRow (tasks : TaskTable J T V) (id : AttemptId J T) (row : TaskInstance J T V) :
    Option (TaskTable J T V) :=
  if tasks.contains id then none else some (tasks.insert id row)

/-- `INSERT … SELECT … WHERE id = $id AND live IS NULL AND archived_reason IN (…) AND NOT EXISTS
(a live row of the task)`: nothing is inserted when the select is empty, and the statement fails
when the successor exists. -/
def insertSuccessor (tasks : TaskTable J T V) (id : AttemptId J T)
    (reasons : List ArchivedReason)
    (successor : TaskInstance J T V → TaskInstance J T V) : Option (TaskTable J T V) :=
  match tasks[id]? with
  | none => some tasks
  | some row =>
      if !row.live && row.archivedReason.any (reasons.contains ·) &&
          (liveRow tasks id.job id.task).isNone then
        insertRow tasks id.next (successor row)
      else some tasks

/-- The backoff before the next try: `least(cap, base * 2^(try - 1))`. -/
def backoffDelay (backoff : ℕ × ℕ) (tryNumber : ℕ) : ℕ :=
  min backoff.2 (backoff.1 * 2 ^ (tryNumber - 1))

/-- `insert_retry_try.sql`; `hash` is Postgres' `hashtext` of the attempt key. -/
def insertRetryTry (tasks : TaskTable J T V) (id : AttemptId J T) (escalate : Bool)
    (backoff : ℕ × ℕ) (now hash : ℤ) : Option (TaskTable J T V) :=
  insertSuccessor tasks id [.retry] fun row =>
    { TaskInstance.fresh row.kind row.seq row.teardown row.maxTries row.maxLaunches with
      state := .upForRetry
      segment := if escalate then none else row.segment
      resourceClass :=
        if escalate then row.resourceClass.map ResourceClass.escalated else row.resourceClass
      escalatedFrom := if escalate then row.resourceClass else none
      notBefore := some (now + backoffDelay backoff id.tryNumber +
        hash.natAbs % backoffDelay backoff id.tryNumber)
      input := row.input }

/-- `insert_cleared_try.sql`: the successor of a cleared or restarted row, with no pins. -/
def insertClearedTry (tasks : TaskTable J T V) (id : AttemptId J T)
    (resourceClass : Option ResourceClass) (retries : ℤ) : Option (TaskTable J T V) :=
  insertSuccessor tasks id [.cleared, .restarted] fun row =>
    { TaskInstance.fresh row.kind row.seq row.teardown (id.tryNumber + retries)
        row.maxLaunches with
      segment := row.segment
      resourceClass := (resourceClass.or row.nextResourceClass).or row.resourceClass }

/-- `enqueue.sql`. -/
def enqueue (jobs : JobTable J V) (job : J) (orgId : String) (priority : ℤ) (params : V)
    (resourceClass : Option ResourceClass) : JobTable J V :=
  if jobs.contains job then jobs
  else
    jobs.insert job
      { orgId := orgId
        priority := priority
        params := params
        state := .queued
        runId := none
        resourceClass := resourceClass
        clearNumber := 0
        notBefore := none
        errorClass := none
        errorDetail := none }

/-- `WHERE id = $job_id AND …`. -/
def onJob (job : J) (condition : Job J V → Bool) (set : Job J V → Job J V) :
    Update J (Job J V) where
  hit k row := k = job && condition row
  set _ row := set row

/-- `claim.sql`, for the job its select picked. -/
def claimJob (job : J) (now : ℤ) : Update J (Job J V) :=
  onJob job (fun row => row.state == .queued && due row.notBefore now) fun row =>
    { row with state := .dispatching }

/-- `job/update/plan.sql`. -/
def planJob (job : J) : Update J (Job J V) :=
  onJob job (fun row => row.state == .dispatching) fun row =>
    { row with state := .running, runId := some job }

/-- `refuse_plan.sql`. -/
def refusePlan (job : J) (errorClass errorDetail : String) : Update J (Job J V) :=
  onJob job (fun row => row.state == .dispatching) fun row =>
    { row with
      state := .failed
      errorClass := some errorClass
      errorDetail := some (truncateDetail errorDetail) }

/-- `cancel.sql`. -/
def cancelJob (job : J) : Update J (Job J V) :=
  onJob job
    (fun row => row.state == .queued || row.state == .dispatching || row.state == .running)
    fun row => { row with state := if row.state = .queued then .canceled else .canceling }

/-- `resume.sql`. -/
def resumeJob (job : J) (now : ℤ) : Update J (Job J V) :=
  onJob job (fun row => row.state == .failed || row.state == .canceled) fun row =>
    { row with state := .queued, notBefore := some now }

/-- `settle.sql`. -/
def settleJob (job : J) (state : JobState) (errorClass errorDetail : Option String) :
    Update J (Job J V) :=
  onJob job (fun row => row.state == .running || row.state == .canceling) fun row =>
    { row with
      state := state
      errorClass := if state = .succeeded then none else errorClass.or row.errorClass
      errorDetail := if state = .succeeded then none else errorDetail.or row.errorDetail }

/-- `reopen.sql`: the clear number goes up, and a finished job is queued again. -/
def reopen (job : J) (now : ℤ) : Update J (Job J V) :=
  onJob job (fun _ => true) fun row =>
    { row with
      clearNumber := row.clearNumber + 1
      state :=
        if row.state = .succeeded || row.state = .failed || row.state = .canceled then .queued
        else row.state
      errorClass := none
      errorDetail := none
      notBefore := some now }

end Statements

end EntityResolution.Executor
