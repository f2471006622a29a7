/-
# Transactions and the control plane

The decisions that are more than one statement run in one transaction each: planning, failing
or retrying a try, a readiness pass, a clear, and the hand-off of a fused segment. Around them,
the control plane is a step function on the two tables and on what its sessions hold in memory.

The executor is one sequential process. It holds a pass with the rows it read under the lock of
the job row, and between the two statements of a completed restart it holds the row it has just
archived; when it stops, what it holds is gone. The handlers of the API and of the pods' reports
run beside it. A clear is stepped statement by statement, because each of its statements reads
what was committed when it started: the rows it has matched stay locked, and its writes take
effect at its commit. A statement that waits for a lock does nothing yet; a claim skips locked
rows. Statements outside a transaction commit at once, in any order.
-/

import EntityResolution.Executor.Ledger

namespace EntityResolution.Executor

open EntityResolution.Collections EntityResolution.Statements

universe u v w

variable {J : Type u} {T : Type v} {V : Type w} [LinearOrder J] [LinearOrder T]

/-- `DEFAULT_MAX_LAUNCHES`. -/
def defaultMaxLaunches : ℤ := 3

/-- The class a planned row runs at: none for a control task, the author's, the job's, or `M`. -/
def plannedClass (job : Job J V) (node : Node T) : Option ResourceClass :=
  match node.kind with
  | .control => none
  | .pod =>
      match node.policy.classRule with
      | .fixed resourceClass => some resourceClass
      | .fromRun => some (job.resourceClass.getD .M)

/-- The first try of a node. -/
def plannedRow (job : Job J V) (entry : Node T × ℕ) : TaskInstance J T V :=
  { TaskInstance.fresh entry.1.kind entry.2 entry.1.teardown entry.1.policy.retries
      defaultMaxLaunches with
    segment := entry.1.policy.segment
    resourceClass := plannedClass job entry.1 }

/-- `task_instance/create/plan.sql`: insert the first try of a node, unless it exists. -/
def planNode (jobId : J) (job : Job J V) (tasks : TaskTable J T V) (entry : Node T × ℕ) :
    TaskTable J T V :=
  if tasks.contains ⟨jobId, entry.1.taskId, 1⟩ then tasks
  else tasks.insert ⟨jobId, entry.1.taskId, 1⟩ (plannedRow job entry)

/-- `plan`: one row for every node, and the job from `dispatching` to `running`; nothing when the
job left `dispatching`. -/
def plan (dag : Dag T) (jobId : J) (ledger : Ledger J T V) : Ledger J T V :=
  match ledger.jobs[jobId]? with
  | none => ledger
  | some job =>
      if (planJob jobId).hit jobId job then
        { jobs := (planJob jobId).run ledger.jobs
          tasks := dag.nodes.zipIdx.foldl (planNode jobId job) ledger.tasks }
      else ledger

/-- `fail_or_retry_task`: archive the try, and insert its successor when it is retried. -/
def failOrRetryTask (ledger : Ledger J T V) (id : AttemptId J T) (failure : TaskFailure J T)
    (now hash : ℤ) : TaskTable J T V :=
  let archive := archiveTry ledger.jobs id failure
  match ledger.tasks[id]? with
  | none => ledger.tasks
  | some row =>
      if archive.hit id row then
        if retries failure id row then
          -- a taken key fails the transaction
          (insertRetryTry (archive.run ledger.tasks) id failure.escalate failure.backoff now
            hash).getD ledger.tasks
        else archive.run ledger.tasks
      else ledger.tasks

/-- What a session read of a job: the clear number, and the rows of the job. -/
structure Snapshot (J : Type u) (T : Type v) (V : Type w) [LinearOrder J] [LinearOrder T] where
  job : J
  clearNumber : ℕ
  params : V
  rows : TaskTable J T V

/-- Read a job and its rows. -/
def readJob (ledger : Ledger J T V) (jobId : J) : Option (Snapshot J T V) :=
  (ledger.jobs[jobId]?).map fun job =>
    { job := jobId
      clearNumber := job.clearNumber
      params := job.params
      rows := byJob ledger.tasks jobId }

/-- `compose_input`: the positional upstream pins, the job's parameters, and the states of the
other tasks for a teardown. -/
def composeInput (dag : Dag T) (node : Node T) (snapshot : Snapshot J T V) : WorkInput T V where
  pins := (dag.upstreamTasks node).map (liveOutput snapshot.rows snapshot.job)
  params := snapshot.params
  leaves :=
    if node.teardown then
      some ((dag.nodes.filter fun other => !other.teardown).filterMap fun other =>
        (liveRow snapshot.rows snapshot.job other.taskId).map fun entry =>
          (other.taskId, entry.2.state))
    else none

/-- The live states by node; a node without a live row reads as `none`. -/
def liveStates (dag : Dag T) (snapshot : Snapshot J T V) : List TaskState :=
  dag.nodes.map fun node =>
    ((liveRow snapshot.rows snapshot.job node.taskId).map fun entry => entry.2.state).getD .none

/-- The statement that records one action on the row of its node. -/
def verdictUpdate (jobs : JobTable J V) (dag : Dag T) (snapshot : Snapshot J T V) (node : Node T)
    (id : AttemptId J T) : PassAction → TaskUpdate J T V
  | .schedule => markScheduled jobs id (composeInput dag node snapshot) snapshot.clearNumber
  | .propagate state => propagate jobs id state snapshot.clearNumber

/-- Record one action: a node without a live row is passed over, and a verdict that updates no
row rolls the whole pass back. -/
def recordVerdict (jobs : JobTable J V) (dag : Dag T) (snapshot : Snapshot J T V)
    (tasks : TaskTable J T V) (action : ℕ × PassAction) : Option (TaskTable J T V) :=
  match dag.nodes[action.1]? with
  | none => some tasks
  | some node =>
      match liveRow snapshot.rows snapshot.job node.taskId with
      | none => some tasks
      | some entry =>
          let update := verdictUpdate jobs dag snapshot node entry.1 action.2
          if update.idle tasks then none else some (update.run tasks)

/-- The states after the recorded actions. -/
def effectiveStates (dag : Dag T) (snapshot : Snapshot J T V) (states : List TaskState)
    (action : ℕ × PassAction) : List TaskState :=
  match dag.nodes[action.1]? with
  | none => states
  | some node =>
      if (liveRow snapshot.rows snapshot.job node.taskId).isSome then
        match action.2 with
        | .schedule => states.set action.1 .scheduled
        | .propagate state => states.set action.1 state
      else states

/-- The states that the verdicts of a pass leave of its job. -/
def passStates (dag : Dag T) (snapshot : Snapshot J T V) : List TaskState :=
  (pass dag (liveStates dag snapshot)).foldl (effectiveStates dag snapshot)
    (liveStates dag snapshot)

/-- The text of a task state. -/
def TaskState.asStr : TaskState → String
  | .none => "none"
  | .scheduled => "scheduled"
  | .queued => "queued"
  | .running => "running"
  | .upForRetry => "up_for_retry"
  | .restarting => "restarting"
  | .canceling => "canceling"
  | .succeeded => "succeeded"
  | .skipped => "skipped"
  | .failed => "failed"
  | .timedOut => "timed_out"
  | .upstreamFailed => "upstream_failed"
  | .upstreamSkipped => "upstream_skipped"
  | .canceled => "canceled"

/-- `failure_text`: the class and detail of the first failure-like node that has a live row. -/
def failureText (render : T → String) (dag : Dag T) (snapshot : Snapshot J T V)
    (states : List TaskState) : Option String × Option String :=
  let failing := dag.nodes.zipIdx.filterMap fun entry =>
    if (stateAt states entry.2).stateClass = .failureLike then
      (liveRow snapshot.rows snapshot.job entry.1.taskId).map fun found =>
        (entry.1.taskId, found.2)
    else none
  match failing.head? with
  | none => (none, none)
  | some (task, row) =>
      (row.errorClass.or (some "internal"),
        row.errorDetail.or (some ("task '" ++ render task ++ "' " ++ row.state.asStr)))

/-- The job update with which a pass settles its job, if it does. -/
def settlement (render : T → String) (dag : Dag T) (snapshot : Snapshot J T V)
    (states : List TaskState) : Option (Update J (Job J V)) :=
  match settle dag states with
  | .notYet => none
  | .settled outcome =>
      let text := failureText render dag snapshot states
      let state : JobState :=
        match outcome with
        | .failed => .failed
        | .canceled => .canceled
        | _ => .succeeded
      some (settleJob snapshot.job state text.1 text.2)
  | .deadlock idx =>
      let task := ((dag.nodes[idx]?).map fun node => render node.taskId).getD ""
      some (settleJob snapshot.job .failed (some "internal")
        (some ("task '" ++ task ++
          "' is pending with every upstream terminal — a scheduler bug " ++
          "(Airflow's deadlock branch)")))

/-- `readiness_for` after its reads: record the actions of the pass and settle the job from the
pass's own verdicts. -/
def readinessFor (render : T → String) (dag : Dag T) (snapshot : Snapshot J T V)
    (ledger : Ledger J T V) : Ledger J T V :=
  match (pass dag (liveStates dag snapshot)).foldlM (recordVerdict ledger.jobs dag snapshot)
    ledger.tasks with
  | none => ledger
  | some tasks =>
      { jobs :=
          match settlement render dag snapshot (passStates dag snapshot) with
          | none => ledger.jobs
          | some update => update.run ledger.jobs
        tasks := tasks }

/-- A clear between its first statement and its commit: its parameters, the rows that
`restart_cleared` matched, and the rows that `archive_cleared` matched once it has run. -/
structure OpenClear (J : Type u) (T : Type v) where
  taskIds : List T
  retries : ℤ
  resourceClass : Option ResourceClass
  restarted : List (AttemptId J T)
  archived : Option (List (AttemptId J T))

/-- The rows an open clear has written, and so locked. -/
def OpenClear.locks (clear : OpenClear J T) (id : AttemptId J T) : Bool :=
  clear.restarted.contains id || (clear.archived.getD []).contains id

/-- The three statements of the clear, kept to the rows they matched, and the inserts between
them. `none` when an insert fails. -/
def clearTasks (job : J) (clear : OpenClear J T) (archived : List (AttemptId J T))
    (tasks : TaskTable J T V) : Option (TaskTable J T V) :=
  let restart := (restartCleared job clear.taskIds clear.resourceClass).restrict
    (clear.restarted.contains ·)
  let archive := (archiveCleared job clear.taskIds).restrict (archived.contains ·)
  let restarted := restart.run tasks
  let rotated := (archive.matched restarted).foldlM
    (fun table id => insertClearedTry table id clear.resourceClass clear.retries)
    (archive.run restarted)
  rotated.map (resetPending job clear.taskIds clear.retries clear.resourceClass).run

/-- `finish_and_advance`: finish one member of a segment, and when that updated its row, start
the next one in the same pod. -/
def finishAndAdvance (ledger : Ledger J T V) (finishedId : AttemptId J T) (podUid : String)
    (skipped : Bool) (outcome : Outcome) (output : Option V) (exitCode : Option ℤ)
    (next : Option (AdvanceArgs J T V)) : TaskTable J T V :=
  let finished := finish finishedId podUid skipped outcome output exitCode
  match ledger.tasks[finishedId]?, next with
  | some row, some args =>
      if finished.hit finishedId row then
        (advanceSegment ledger.jobs args (finished.set finishedId row) podUid).run
          (finished.run ledger.tasks)
      else ledger.tasks
  | _, _ => finished.run ledger.tasks

/-- What the executor holds in memory between two of its statements. -/
inductive ExecutorPhase (J : Type u) (T : Type v) (V : Type w) [LinearOrder J] [LinearOrder T]
  | idle
  /-- A readiness pass, under the lock of the job row. -/
  | inPass (snapshot : Snapshot J T V)
  /-- `archive_restarted` has run; `insert_cleared_try` of the same row comes next. -/
  | restarted (id : AttemptId J T)

/-- The tables, the executor, the open clears by job, and what finish handlers have read. -/
structure ControlPlane (J : Type u) (T : Type v) (V : Type w) [LinearOrder J]
    [LinearOrder T] where
  ledger : Ledger J T V
  executor : ExecutorPhase J T V
  clears : BTreeMap J (OpenClear J T)
  orders : List (Snapshot J T V)

/-- The control plane before the first job. -/
def ControlPlane.fresh : ControlPlane J T V where
  ledger := { jobs := ∅, tasks := ∅ }
  executor := .idle
  clears := ∅
  orders := []

namespace ControlPlane

/-- The job row is locked by an open clear or by the pass of the executor. -/
def jobLocked (plane : ControlPlane J T V) (job : J) : Bool :=
  plane.clears.contains job ||
    match plane.executor with
    | .inPass snapshot => decide (snapshot.job = job)
    | _ => false

/-- The row is locked by an open clear of its job. -/
def rowLocked (plane : ControlPlane J T V) (id : AttemptId J T) : Bool :=
  (plane.clears[id.job]?).any (·.locks id)

/-- The plane with other tasks. -/
def withTasks (plane : ControlPlane J T V) (tasks : TaskTable J T V) : ControlPlane J T V :=
  { plane with ledger := { plane.ledger with tasks := tasks } }

/-- The plane with other jobs. -/
def withJobs (plane : ControlPlane J T V) (jobs : JobTable J V) : ControlPlane J T V :=
  { plane with ledger := { plane.ledger with jobs := jobs } }

/-- Run a task statement unless it hits a locked row. -/
def runTask (plane : ControlPlane J T V) (update : TaskUpdate J T V) : ControlPlane J T V :=
  if (update.matched plane.ledger.tasks).any plane.rowLocked then plane
  else plane.withTasks (update.run plane.ledger.tasks)

end ControlPlane

/-- The single statements that write `jobs`. -/
inductive JobStatement (J : Type u) (V : Type w)
  | enqueue (job : J) (orgId : String) (priority : ℤ) (params : V)
      (resourceClass : Option ResourceClass)
  | claim (job : J) (now : ℤ)
  | refusePlan (job : J) (errorClass errorDetail : String)
  | cancel (job : J)
  | resume (job : J) (now : ℤ)

/-- The single statements that write `task_instances`, claims apart: what pods report, what the
watch and the sweeps record, and the cancel sweep. -/
inductive TaskStatement (J : Type u) (T : Type v) (V : Type w)
  | start (id : AttemptId J T) (k8sJobName : JobName J T) (podName podUid : String)
  | finish (id : AttemptId J T) (podUid : String) (skipped : Bool) (outcome : Outcome)
      (output : Option V) (exitCode : Option ℤ)
  | finishControl (id : AttemptId J T) (ownerEpoch : String) (skipped : Bool)
      (outcome : Outcome) (output : Option V)
  | noteInterruption (id : AttemptId J T) (podUid terminationReason : String)
  | recordEvidence (id : AttemptId J T) (podUid : String) (k8sJobName : JobName J T)
      (exitCode : Option ℤ) (terminationReason : Option String)
  | requeueLaunch (id : AttemptId J T) (k8sJobName : JobName J T) (now waitSecs : ℤ)
      (terminationReason : Option String)
  | capacityWait (id : AttemptId J T) (k8sJobName : JobName J T) (now waitSecs : ℤ)
      (terminationReason : Option String)
  | cancelPending (job : J)
  | cancelLive (job : J)
  | settleCanceled (id : AttemptId J T) (k8sJobName : Option (JobName J T))
      (exitCode : Option ℤ) (terminationReason : Option String)
  | adopt (ownerEpoch : String)

/-- The update of a task statement. -/
def TaskStatement.update : TaskStatement J T V → TaskUpdate J T V
  | .start id name podName podUid => Executor.start id name podName podUid
  | .finish id podUid skipped outcome output exitCode =>
      Executor.finish id podUid skipped outcome output exitCode
  | .finishControl id epoch skipped outcome output =>
      Executor.finishControl id epoch skipped outcome output
  | .noteInterruption id podUid reason => Executor.noteInterruption id podUid reason
  | .recordEvidence id podUid name exitCode reason =>
      Executor.recordEvidence id podUid name exitCode reason
  | .requeueLaunch id name now waitSecs reason =>
      Executor.requeueLaunch id name now waitSecs reason
  | .capacityWait id name now waitSecs reason => Executor.capacityWait id name now waitSecs reason
  | .cancelPending job => Executor.cancelPending job
  | .cancelLive job => Executor.cancelLive job
  | .settleCanceled id name exitCode reason => Executor.settleCanceled id name exitCode reason
  | .adopt epoch => Executor.adopt epoch

/-- The cancel sweep runs its statements for jobs that are canceling. -/
def TaskStatement.issued (jobs : JobTable J V) : TaskStatement J T V → Bool
  | .cancelPending job | .cancelLive job => (jobs[job]?).any fun row => row.state == .canceling
  | _ => true

/-- The job that a job statement writes. -/
def JobStatement.job : JobStatement J V → J
  | .enqueue job .. | .claim job _ | .refusePlan job .. | .cancel job | .resume job _ => job

/-- Run a job statement. -/
def JobStatement.run (jobs : JobTable J V) : JobStatement J V → JobTable J V
  | .enqueue job orgId priority params resourceClass =>
      Executor.enqueue jobs job orgId priority params resourceClass
  | .claim job now => (claimJob job now).run jobs
  | .refusePlan job errorClass errorDetail =>
      (Executor.refusePlan job errorClass errorDetail).run jobs
  | .cancel job => (cancelJob job).run jobs
  | .resume job now => (resumeJob job now).run jobs

/-- One step of the control plane. -/
inductive Action (J : Type u) (T : Type v) (V : Type w)
  | job (statement : JobStatement J V)
  | task (statement : TaskStatement J T V)
  | claimLaunch (ownerEpoch : String) (k8sJobName : Option (JobName J T)) (now : ℤ)
      (inFlightCap : ℕ)
  | claimControl (ownerEpoch : String) (now : ℤ)
  | plan (job : J)
  | failOrRetry (id : AttemptId J T) (failure : TaskFailure J T) (now hash : ℤ)
  | openPass (job : J)
  | commitPass
  | archiveRestarted (id : AttemptId J T) (k8sJobName : Option (JobName J T))
      (exitCode : Option ℤ) (terminationReason : Option String)
  | insertClearedTry
  /-- The executor process stops, and the next one starts with nothing in memory; also an insert
  of a completed restart that fails, since its error is ignored. -/
  | stop
  | openClear (job : J) (taskIds : List T) (retries : ℤ) (resourceClass : Option ResourceClass)
  | archiveCleared (job : J)
  | commitClear (job : J) (now : ℤ)
  | abortClear (job : J)
  | readOrder (job : J)
  | handOff (finishedId : AttemptId J T) (podUid : String) (skipped : Bool) (outcome : Outcome)
      (output : Option V) (exitCode : Option ℤ) (next : Option (AdvanceArgs J T V))

/-- Run the update of a claim for the row that its select picks. -/
def ControlPlane.claim (plane : ControlPlane J T V)
    (claimable : AttemptId J T → TaskInstance J T V → Bool)
    (update : AttemptId J T → TaskUpdate J T V) : ControlPlane J T V :=
  match pickClaim plane.ledger plane.rowLocked claimable with
  | none => plane
  | some id => plane.withTasks ((update id).run plane.ledger.tasks)

/-- What an action of the executor does when the executor is free for it. -/
def ControlPlane.whenIdle (plane : ControlPlane J T V) (next : ControlPlane J T V) :
    ControlPlane J T V :=
  match plane.executor with
  | .idle => next
  | _ => plane

section Step

variable (render : T → String) (dagFor : J → Dag T)

/-- What the executor does when it opens a pass: lock the job and read its rows. -/
def ControlPlane.openPass (plane : ControlPlane J T V) (job : J) : ControlPlane J T V :=
  if plane.jobLocked job then plane
  else
    match plane.ledger.jobs[job]?, readJob plane.ledger job with
    | some row, some snapshot =>
        if row.state = .running || row.state = .canceling then
          { plane with executor := .inPass snapshot }
        else plane
    | _, _ => plane

/-- What the executor does when a completed restart archives its row. -/
def ControlPlane.archiveRestarted (plane : ControlPlane J T V) (id : AttemptId J T)
    (k8sJobName : Option (JobName J T)) (exitCode : Option ℤ)
    (terminationReason : Option String) : ControlPlane J T V :=
  let update := Executor.archiveRestarted id k8sJobName exitCode terminationReason
  if plane.rowLocked id || update.idle plane.ledger.tasks then plane
  else
    { plane.withTasks (update.run plane.ledger.tasks) with executor := .restarted id }

/-- The handler opens a clear: lock the job, refuse a canceling one, and mark the claimed rows. -/
def ControlPlane.openClear (plane : ControlPlane J T V) (job : J) (taskIds : List T)
    (retries : ℤ) (resourceClass : Option ResourceClass) : ControlPlane J T V :=
  if plane.jobLocked job then plane
  else
    match plane.ledger.jobs[job]? with
    | none => plane
    | some row =>
        if row.state = .canceling then plane
        else
          { plane with
            clears := plane.clears.insert job
              { taskIds := taskIds
                retries := retries
                resourceClass := resourceClass
                restarted := (restartCleared job taskIds resourceClass).matched plane.ledger.tasks
                archived := none } }

/-- `archive_cleared` of an open clear matches the terminal rows. -/
def ControlPlane.archiveCleared (plane : ControlPlane J T V) (job : J) : ControlPlane J T V :=
  match plane.clears[job]? with
  | some clear =>
      if clear.archived.isSome then plane
      else
        { plane with
          clears := plane.clears.insert job
            { clear with
              archived :=
                some ((Executor.archiveCleared job clear.taskIds).matched plane.ledger.tasks) } }
  | none => plane

/-- The rest of the clear: reset the waiting rows, reopen the job, and commit. -/
def ControlPlane.commitClear (plane : ControlPlane J T V) (job : J) (now : ℤ) :
    ControlPlane J T V :=
  match plane.clears[job]? with
  | none => plane
  | some clear =>
      match clear.archived with
      | none => plane
      | some archived =>
          match clearTasks job clear archived plane.ledger.tasks with
          | none => { plane with clears := plane.clears.erase job }
          | some tasks =>
              { plane with
                ledger := { jobs := (reopen job now).run plane.ledger.jobs, tasks := tasks }
                clears := plane.clears.erase job }

/-- The job row that a hand-off locks. -/
def handOffLocked (plane : ControlPlane J T V) (finishedId : AttemptId J T)
    (next : Option (AdvanceArgs J T V)) : Bool :=
  next.any (fun args => plane.jobLocked args.jobId || plane.rowLocked args.nextTaskInstanceId) ||
    plane.rowLocked finishedId

/-- One step. An action that is refused, or that waits for a lock, changes nothing. -/
def ControlPlane.step (plane : ControlPlane J T V) : Action J T V → ControlPlane J T V
  | .job statement =>
      if plane.jobLocked statement.job then plane
      else plane.withJobs (statement.run plane.ledger.jobs)
  | .task statement =>
      if statement.issued plane.ledger.jobs then plane.runTask statement.update else plane
  | .claimLaunch ownerEpoch k8sJobName now inFlightCap =>
      plane.claim (launchClaimable plane.ledger now inFlightCap) fun id =>
        Executor.claimLaunch id ownerEpoch k8sJobName
  | .claimControl ownerEpoch now =>
      plane.claim (controlClaimable plane.ledger now) fun id =>
        Executor.claimControl id ownerEpoch
  | .plan job =>
      if plane.jobLocked job then plane
      else plane.whenIdle { plane with ledger := Executor.plan (dagFor job) job plane.ledger }
  | .failOrRetry id failure now hash =>
      if plane.rowLocked id then plane
      else plane.withTasks (failOrRetryTask plane.ledger id failure now hash)
  | .openPass job => plane.whenIdle (plane.openPass job)
  | .commitPass =>
      match plane.executor with
      | .inPass snapshot =>
          { plane with
            ledger := readinessFor render (dagFor snapshot.job) snapshot plane.ledger
            executor := .idle }
      | _ => plane
  | .archiveRestarted id k8sJobName exitCode terminationReason =>
      plane.whenIdle (plane.archiveRestarted id k8sJobName exitCode terminationReason)
  | .insertClearedTry =>
      match plane.executor with
      | .restarted id =>
          { plane.withTasks
              ((Executor.insertClearedTry plane.ledger.tasks id none 2).getD
                plane.ledger.tasks) with executor := .idle }
      | _ => plane
  | .stop => { plane with executor := .idle }
  | .openClear job taskIds retries resourceClass =>
      plane.openClear job taskIds retries resourceClass
  | .archiveCleared job => plane.archiveCleared job
  | .commitClear job now => plane.commitClear job now
  | .abortClear job => { plane with clears := plane.clears.erase job }
  | .readOrder job =>
      match readJob plane.ledger job with
      | none => plane
      | some snapshot => { plane with orders := snapshot :: plane.orders }
  | .handOff finishedId podUid skipped outcome output exitCode next =>
      if handOffLocked plane finishedId next then plane
      else
        plane.withTasks
          (finishAndAdvance plane.ledger finishedId podUid skipped outcome output exitCode next)

end Step

end EntityResolution.Executor
