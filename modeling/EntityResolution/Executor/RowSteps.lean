/-
# What one step can do to one row

`TaskChange` lists the tables a step can leave. Read at one key, the list says how a row can
change and which rows can appear: `RowChange` and `RowInsert`. At most one statement of a step
touches a given row. A pass records one verdict a row, a hand-off does not start the row it
finishes, and the three statements of a clear look for different states.

A clear that commits is listed by its whole effect on the row, so that a row which it leaves
alone is known not to match.
-/

import EntityResolution.Executor.Archived

namespace EntityResolution.Executor

open EntityResolution.Collections EntityResolution.Statements

universe u v w

variable {J : Type u} {T : Type v} {V : Type w} [LinearOrder J] [LinearOrder T]

omit [LinearOrder J] [LinearOrder T] in
/-- The try after a retried failure. -/
def retryTry (id : AttemptId J T) (escalate : Bool) (backoff : ℕ × ℕ) (now hash : ℤ)
    (row : TaskInstance J T V) : TaskInstance J T V :=
  { TaskInstance.fresh row.kind row.seq row.teardown row.maxTries row.maxLaunches with
    state := .upForRetry
    segment := if escalate then none else row.segment
    resourceClass :=
      if escalate then row.resourceClass.map ResourceClass.escalated else row.resourceClass
    escalatedFrom := if escalate then row.resourceClass else none
    notBefore := some (now + backoffDelay backoff id.tryNumber +
      hash.natAbs % backoffDelay backoff id.tryNumber)
    input := row.input }

omit [LinearOrder J] [LinearOrder T] in
/-- The try after a cleared or restarted one. -/
def clearedTry (id : AttemptId J T) (resourceClass : Option ResourceClass) (retries : ℤ)
    (row : TaskInstance J T V) : TaskInstance J T V :=
  { TaskInstance.fresh row.kind row.seq row.teardown (id.tryNumber + retries) row.maxLaunches with
    segment := row.segment
    resourceClass := (resourceClass.or row.nextResourceClass).or row.resourceClass }

theorem insertRetryTry_eq (tasks : TaskTable J T V) (id : AttemptId J T) (escalate : Bool)
    (backoff : ℕ × ℕ) (now hash : ℤ) :
    insertRetryTry tasks id escalate backoff now hash =
      insertSuccessor tasks id [.retry] (retryTry id escalate backoff now hash) :=
  rfl

theorem insertClearedTry_eq (tasks : TaskTable J T V) (id : AttemptId J T)
    (resourceClass : Option ResourceClass) (retries : ℤ) :
    insertClearedTry tasks id resourceClass retries =
      insertSuccessor tasks id [.cleared, .restarted] (clearedTry id resourceClass retries) :=
  rfl

theorem insertRetryTry_eq_some {jobs : JobTable J V} {tasks : TaskTable J T V}
    {id : AttemptId J T} {failure : TaskFailure J T} {row : TaskInstance J T V}
    (hnumbered : AllNumbered tasks) (hrow : tasks[id]? = some row)
    (hhit : (archiveTry jobs id failure).hit id row = true)
    (hretries : retries failure id row = true) (now hash : ℤ) :
    insertRetryTry ((archiveTry jobs id failure).run tasks) id failure.escalate failure.backoff now
        hash =
      some (((archiveTry jobs id failure).run tasks).insert id.next
        (retryTry id failure.escalate failure.backoff now hash row)) := by
  have hlive : row.live = true := by
    simp only [archiveTry, Bool.and_eq_true] at hhit
    exact hhit.1.1.1.2
  have harchived : ((archiveTry jobs id failure).run tasks)[id]? =
      some ((archiveTry jobs id failure).set id row) := by
    rw [Update.getElem?_run, hrow, Option.map_some, Update.row, if_pos hhit]
  have hdead : ((archiveTry jobs id failure).set id row).live = false := by
    simp [archiveTry, hretries]
  have hreason : ((archiveTry jobs id failure).set id row).archivedReason = some .retry := by
    simp [archiveTry, hretries]
  have hnone : liveRow ((archiveTry jobs id failure).run tasks) id.job id.task = none := by
    rw [liveRow_eq_none_iff]
    intro number new hnew
    obtain ⟨old, hold, rfl⟩ := Update.getElem?_run_eq_some_iff.mp hnew
    rw [Update.row]
    split
    · next hmatch =>
        have hkey := archiveTry_only hmatch
        rw [hkey] at hold ⊢
        rw [hrow, Option.some.injEq] at hold
        exact hold ▸ hdead
    · next hmiss =>
        rw [← Bool.not_eq_true]
        intro holdLive
        obtain ⟨hsame, rfl⟩ := hnumbered.live_unique hold holdLive hrow hlive rfl rfl
        exact hmiss (hsame ▸ hhit)
  have hfree : ((archiveTry jobs id failure).run tasks).contains id.next = false := by
    obtain ⟨n, hn⟩ := hnumbered id.job id.task
    have hnext : tasks[id.next]? = none := hn.next_eq_none hrow hlive
    rw [Std.ExtTreeMap.contains_eq_isSome_getElem?, Update.getElem?_run, hnext]
    rfl
  rw [insertRetryTry_eq, insertSuccessor, harchived]
  simp only [hdead, hreason, hnone, insertRow, hfree]
  rfl

/-- What a clear does to a row: mark it restarting, archive it, or reset it. -/
def clearRow (job : J) (clear : OpenClear J T) (archived : List (AttemptId J T))
    (id : AttemptId J T) (row : TaskInstance J T V) : TaskInstance J T V :=
  if clear.restarted.contains id &&
      (restartCleared job clear.taskIds clear.resourceClass).hit id row then
    (restartCleared job clear.taskIds clear.resourceClass).set id row
  else if archived.contains id && (archiveCleared job clear.taskIds).hit id row then
    (archiveCleared job clear.taskIds).set id row
  else (resetPending job clear.taskIds clear.retries clear.resourceClass).row id row

theorem clearRow_eq (job : J) (clear : OpenClear J T) (archived : List (AttemptId J T))
    (id : AttemptId J T) (row : TaskInstance J T V) :
    (resetPending job clear.taskIds clear.retries clear.resourceClass).row id
        (((archiveCleared job clear.taskIds).restrict (archived.contains ·)).row id
          (((restartCleared job clear.taskIds clear.resourceClass).restrict
            (clear.restarted.contains ·)).row id row)) =
      clearRow job clear archived id row := by
  rw [clearRow]
  split
  · next hrestart =>
      -- a restarting row is neither terminal nor waiting
      have hrow : ((restartCleared job clear.taskIds clear.resourceClass).restrict
          (clear.restarted.contains ·)).row id row =
            (restartCleared job clear.taskIds clear.resourceClass).set id row :=
        if_pos hrestart
      rw [hrow]
      simp [Update.row, Update.restrict, archiveCleared, resetPending, restartCleared, onLiveOf,
        TaskState.isTerminal, TaskState.stateClass, TaskState.isWaiting]
  · next hkept =>
      have hrow : ((restartCleared job clear.taskIds clear.resourceClass).restrict
          (clear.restarted.contains ·)).row id row = row := if_neg hkept
      rw [hrow]
      split
      · next harchive =>
          have hrow' : ((archiveCleared job clear.taskIds).restrict (archived.contains ·)).row id
              row = (archiveCleared job clear.taskIds).set id row := if_pos harchive
          rw [hrow']
          simp [Update.row, archiveCleared, resetPending, onLiveOf]
      · next hmiss =>
          have hrow' : ((archiveCleared job clear.taskIds).restrict (archived.contains ·)).row id
              row = row := if_neg hmiss
          rw [hrow']

/-- The successors that a clear inserts are what its reset would make of them. -/
theorem resetPending_clearedTry (job : J) (taskIds : List T) (retries : ℤ)
    (resourceClass : Option ResourceClass) (id : AttemptId J T) (row : TaskInstance J T V) :
    (resetPending job taskIds retries resourceClass).row id.next
        (clearedTry id resourceClass retries row) = clearedTry id resourceClass retries row := by
  have hclass : resourceClass.or ((resourceClass.or row.nextResourceClass).or
      row.resourceClass) = (resourceClass.or row.nextResourceClass).or row.resourceClass := by
    cases resourceClass <;> rfl
  rw [Update.row]
  split
  · simp [resetPending, onLiveOf, clearedTry, TaskInstance.fresh, AttemptId.next, hclass]
  · rfl

/-- A table that holds the changed rows of another one, and the successors of the rows that a
clear archives. -/
structure ClearedTo (job : J) (clear : OpenClear J T) (archived : List (AttemptId J T))
    (change : AttemptId J T → TaskInstance J T V → TaskInstance J T V)
    (tasks later : TaskTable J T V) : Prop where
  rows : ∀ (id : AttemptId J T) row, tasks[id]? = some row → later[id]? = some (change id row)
  added : ∀ (id : AttemptId J T) new, later[id]? = some new → tasks[id]? = none →
    ∃ (prev : AttemptId J T) (row : TaskInstance J T V), id = prev.next ∧
      tasks[prev]? = some row ∧ prev ∈ archived ∧
      (archiveCleared job clear.taskIds).hit prev row = true ∧
      new = clearedTry prev clear.resourceClass clear.retries row

/-- A row that a clear archives is not one that it marked restarting. -/
theorem restartCleared_row_of_archived {job : J} {clear : OpenClear J T}
    {archived : List (AttemptId J T)} {id : AttemptId J T} {row : TaskInstance J T V}
    (hhit : ((archiveCleared job clear.taskIds).restrict (archived.contains ·)).hit id
      (((restartCleared job clear.taskIds clear.resourceClass).restrict
        (clear.restarted.contains ·)).row id row) = true) :
    ((restartCleared job clear.taskIds clear.resourceClass).restrict
        (clear.restarted.contains ·)).row id row = row ∧
      id ∈ archived ∧ (archiveCleared job clear.taskIds).hit id row = true := by
  have hkept : ((restartCleared job clear.taskIds clear.resourceClass).restrict
      (clear.restarted.contains ·)).row id row = row := by
    rw [Update.row]
    split
    · next hrestart =>
        rw [Update.row, if_pos hrestart] at hhit
        simp [Update.restrict, archiveCleared, restartCleared, onLiveOf, TaskState.isTerminal,
          TaskState.stateClass] at hhit
    · rfl
  rw [hkept] at hhit
  simp only [Update.restrict, Bool.and_eq_true, List.contains_iff_mem] at hhit
  exact ⟨hkept, hhit⟩

/-- Archiving the cleared rows and inserting their successors. -/
theorem clearedTo_rotate {job : J} {clear : OpenClear J T} {archived : List (AttemptId J T)}
    {tasks rotated : TaskTable J T V}
    (hrotated : ((((archiveCleared job clear.taskIds).restrict (archived.contains ·)).matched
        (((restartCleared job clear.taskIds clear.resourceClass).restrict
          (clear.restarted.contains ·)).run tasks)).foldlM
      (fun table id => insertClearedTry table id clear.resourceClass clear.retries)
      (((archiveCleared job clear.taskIds).restrict (archived.contains ·)).run
        (((restartCleared job clear.taskIds clear.resourceClass).restrict
          (clear.restarted.contains ·)).run tasks))) = some rotated) :
    ClearedTo job clear archived
      (fun id row => ((archiveCleared job clear.taskIds).restrict (archived.contains ·)).row id
        (((restartCleared job clear.taskIds clear.resourceClass).restrict
          (clear.restarted.contains ·)).row id row)) tasks rotated := by
  apply foldlM_keeps (ClearedTo job clear archived _ tasks) _ _ hrotated
  · intro prev hprev table next hkept hnext
    constructor
    · intro id row hrow
      exact getElem?_of_insertSuccessor hnext (hkept.rows id row hrow)
    · intro id new hnew hnone
      rw [insertClearedTry_eq] at hnext
      rcases insertSuccessor_cases hnext with rfl | ⟨row, hrow, _, _, _, _, rfl⟩
      · exact hkept.added id new hnew hnone
      · rw [BTreeMap.getElem?_insert_eq_ite] at hnew
        split at hnew
        · next hsame =>
            cases hnew
            obtain ⟨mid, hmid, hhit⟩ := Update.mem_matched.mp hprev
            obtain ⟨old, hold, rfl⟩ := Update.getElem?_run_eq_some_iff.mp hmid
            obtain ⟨hunmarked, hmem, hhit'⟩ := restartCleared_row_of_archived hhit
            refine ⟨prev, old, hsame.symm, hold, hmem, hhit', ?_⟩
            rw [hkept.rows prev old hold, Option.some.injEq] at hrow
            subst hrow
            -- of the row it follows, the successor reads only columns that archiving keeps
            rw [hunmarked] at hhit ⊢
            rw [Update.row, if_pos hhit]
            rfl
        · exact hkept.added id new hnew hnone
  · constructor
    · intro id row hrow
      rw [Update.getElem?_run, Update.getElem?_run, hrow]
      rfl
    · intro id new hnew hnone
      rw [Update.getElem?_run, Update.getElem?_run, hnone] at hnew
      cases hnew

theorem restartCleared_hit {job : J} {taskIds : List T} {resourceClass : Option ResourceClass}
    {id : AttemptId J T} {row : TaskInstance J T V} :
    (restartCleared job taskIds resourceClass).hit id row = true ↔
      id.job = job ∧ row.live = true ∧ row.state.isClaimed = true ∧ id.task ∈ taskIds := by
  rw [restartCleared, onLiveOf_hit]
  simp only [Bool.and_eq_true, decide_eq_true_eq]

theorem archiveCleared_hit {job : J} {taskIds : List T} {id : AttemptId J T}
    {row : TaskInstance J T V} :
    (archiveCleared job taskIds).hit id row = true ↔
      id.job = job ∧ row.live = true ∧ row.state.isTerminal = true ∧ id.task ∈ taskIds := by
  rw [archiveCleared, onLiveOf_hit]
  simp only [Bool.and_eq_true, decide_eq_true_eq]

theorem resetPending_hit {job : J} {taskIds : List T} {retries : ℤ}
    {resourceClass : Option ResourceClass} {id : AttemptId J T} {row : TaskInstance J T V} :
    (resetPending job taskIds retries resourceClass).hit id row = true ↔
      id.job = job ∧ row.live = true ∧ row.state.isWaiting = true ∧ id.task ∈ taskIds := by
  rw [resetPending, onLiveOf_hit]
  simp only [Bool.and_eq_true, decide_eq_true_eq]

/-- A clear marks a row restarting, archives it, resets it, or finds no reason to touch it. -/
theorem clearRow_cases (job : J) (clear : OpenClear J T) (archived : List (AttemptId J T))
    (id : AttemptId J T) (row : TaskInstance J T V) :
    (id ∈ clear.restarted ∧ (restartCleared job clear.taskIds clear.resourceClass).hit id row =
        true ∧
      clearRow job clear archived id row =
        (restartCleared job clear.taskIds clear.resourceClass).set id row) ∨
    (id ∈ archived ∧ (archiveCleared job clear.taskIds).hit id row = true ∧
      clearRow job clear archived id row = (archiveCleared job clear.taskIds).set id row) ∨
    ((resetPending job clear.taskIds clear.retries clear.resourceClass).hit id row = true ∧
      clearRow job clear archived id row =
        (resetPending job clear.taskIds clear.retries clear.resourceClass).set id row) ∨
    (clearRow job clear archived id row = row ∧
      (id ∈ clear.restarted →
        (restartCleared job clear.taskIds clear.resourceClass).hit id row = false) ∧
      (id ∈ archived → (archiveCleared job clear.taskIds).hit id row = false) ∧
      (resetPending job clear.taskIds clear.retries clear.resourceClass).hit id row = false) := by
  rw [clearRow]
  split
  · next hrestart =>
      simp only [Bool.and_eq_true, List.contains_iff_mem] at hrestart
      exact .inl ⟨hrestart.1, hrestart.2, rfl⟩
  · next hkept =>
      simp only [Bool.and_eq_true, List.contains_iff_mem, not_and, Bool.not_eq_true] at hkept
      right
      split
      · next harchive =>
          simp only [Bool.and_eq_true, List.contains_iff_mem] at harchive
          exact .inl ⟨harchive.1, harchive.2, rfl⟩
      · next hleft =>
          simp only [Bool.and_eq_true, List.contains_iff_mem, not_and, Bool.not_eq_true] at hleft
          right
          rw [Update.row]
          split
          · next hreset => exact .inl ⟨hreset, rfl⟩
          · next hmiss => exact .inr ⟨rfl, hkept, hleft, by simpa using hmiss⟩

/-- A clear leaves the rows of other jobs and of tasks it does not name alone. -/
theorem clearRow_of_unnamed {job : J} {clear : OpenClear J T} {archived : List (AttemptId J T)}
    {id : AttemptId J T} {row : TaskInstance J T V}
    (hother : ¬ (id.job = job ∧ id.task ∈ clear.taskIds)) :
    clearRow job clear archived id row = row := by
  rcases clearRow_cases job clear archived id row with
    ⟨_, hhit, _⟩ | ⟨_, hhit, _⟩ | ⟨hhit, _⟩ | ⟨hsame, _⟩
  · obtain ⟨hjob, _, _, htask⟩ := restartCleared_hit.mp hhit
    exact absurd ⟨hjob, htask⟩ hother
  · obtain ⟨hjob, _, _, htask⟩ := archiveCleared_hit.mp hhit
    exact absurd ⟨hjob, htask⟩ hother
  · obtain ⟨hjob, _, _, htask⟩ := resetPending_hit.mp hhit
    exact absurd ⟨hjob, htask⟩ hother
  · exact hsame

/-- A clear that commits changes every row by `clearRow`, and adds the successors of the rows it
archives. -/
theorem clearTasks_spec {job : J} {clear : OpenClear J T} {archived : List (AttemptId J T)}
    {tasks later : TaskTable J T V} (hlater : clearTasks job clear archived tasks = some later) :
    ClearedTo job clear archived (clearRow job clear archived) tasks later := by
  rw [clearTasks, Option.map_eq_some_iff] at hlater
  obtain ⟨rotated, hrotated, rfl⟩ := hlater
  have hrotate := clearedTo_rotate hrotated
  constructor
  · intro id row hrow
    rw [Update.getElem?_run, hrotate.rows id row hrow, Option.map_some]
    exact congrArg some (clearRow_eq job clear archived id row)
  · intro id new hnew hnone
    obtain ⟨mid, hmid, rfl⟩ := Update.getElem?_run_eq_some_iff.mp hnew
    obtain ⟨prev, row, rfl, hrow, hmem, hhit, rfl⟩ := hrotate.added id mid hmid hnone
    exact ⟨prev, row, rfl, hrow, hmem, hhit, resetPending_clearedTry _ _ _ _ _ _⟩

/-- The action commits an open clear. -/
def ClearCommits (plane : ControlPlane J T V) : Action J T V → Prop
  | .commitClear job _ =>
      ∃ clear archived later, plane.clears[job]? = some clear ∧ clear.archived = some archived ∧
        clearTasks job clear archived plane.ledger.tasks = some later
  | _ => False

/-! ## The changes of one row -/

section Change

variable (dagFor : J → Dag T)

/-- How a step can change a row. -/
inductive RowChange (plane : ControlPlane J T V) :
    Action J T V → AttemptId J T → TaskInstance J T V → TaskInstance J T V → Prop
  | same (action : Action J T V) (id : AttemptId J T) (row : TaskInstance J T V)
      (hcommit : ¬ ClearCommits plane action) : RowChange plane action id row row
  | statement (statement : TaskStatement J T V) (id : AttemptId J T) (row : TaskInstance J T V)
      (hissued : statement.issued plane.ledger.jobs = true) (hfree : plane.rowLocked id = false)
      (hhit : statement.update.hit id row = true) :
      RowChange plane (.task statement) id row (statement.update.set id row)
  | claimLaunch (ownerEpoch : String) (k8sJobName : Option (JobName J T)) (now : ℤ)
      (inFlightCap : ℕ) (id : AttemptId J T) (row : TaskInstance J T V)
      (hclaimable : launchClaimable plane.ledger now inFlightCap id row = true)
      (hfree : plane.rowLocked id = false)
      (hpick : pickClaim plane.ledger plane.rowLocked
        (launchClaimable plane.ledger now inFlightCap) = some id) :
      RowChange plane (.claimLaunch ownerEpoch k8sJobName now inFlightCap) id row
        ((Executor.claimLaunch id ownerEpoch k8sJobName).set id row)
  | claimControl (ownerEpoch : String) (now : ℤ) (id : AttemptId J T) (row : TaskInstance J T V)
      (hclaimable : controlClaimable plane.ledger now id row = true)
      (hfree : plane.rowLocked id = false)
      (hpick : pickClaim plane.ledger plane.rowLocked (controlClaimable plane.ledger now) =
        some id) :
      RowChange plane (.claimControl ownerEpoch now) id row
        ((Executor.claimControl id ownerEpoch).set id row)
  | archiveTry (id : AttemptId J T) (failure : TaskFailure J T) (now hash : ℤ)
      (row : TaskInstance J T V)
      (hhit : (archiveTry plane.ledger.jobs id failure).hit id row = true)
      (hfree : plane.rowLocked id = false) :
      RowChange plane (.failOrRetry id failure now hash) id row
        ((Executor.archiveTry plane.ledger.jobs id failure).set id row)
  | verdict (snapshot : Snapshot J T V) (action : ℕ × PassAction) (node : Node T)
      (id : AttemptId J T) (read row : TaskInstance J T V)
      (hexecutor : plane.executor = .inPass snapshot)
      (haction : action ∈ Executor.pass (dagFor snapshot.job)
        (liveStates (dagFor snapshot.job) snapshot))
      (hnode : (dagFor snapshot.job).nodes[action.1]? = some node)
      (hread : liveRow snapshot.rows snapshot.job node.taskId = some (id, read))
      (hhit : (verdictUpdate plane.ledger.jobs (dagFor snapshot.job) snapshot node id
        action.2).hit id row = true) :
      RowChange plane .commitPass id row
        ((verdictUpdate plane.ledger.jobs (dagFor snapshot.job) snapshot node id action.2).set id
          row)
  | archiveRestarted (id : AttemptId J T) (k8sJobName : Option (JobName J T))
      (exitCode : Option ℤ) (terminationReason : Option String) (row : TaskInstance J T V)
      (harchives : ArchivesRestarted plane
        (.archiveRestarted id k8sJobName exitCode terminationReason))
      (hhit : (Executor.archiveRestarted id k8sJobName exitCode terminationReason).hit id row =
        true) :
      RowChange plane (.archiveRestarted id k8sJobName exitCode terminationReason) id row
        ((Executor.archiveRestarted id k8sJobName exitCode terminationReason).set id row)
  | clear (job : J) (now : ℤ) (clear : OpenClear J T) (archived : List (AttemptId J T))
      (id : AttemptId J T) (row : TaskInstance J T V) (hclear : plane.clears[job]? = some clear)
      (harchived : clear.archived = some archived)
      (hcommit : ClearCommits plane (.commitClear job now)) :
      RowChange plane (.commitClear job now) id row (clearRow job clear archived id row)
  | finish (podUid : String) (skipped : Bool) (outcome : Outcome) (output : Option V)
      (exitCode : Option ℤ) (next : Option (AdvanceArgs J T V)) (id : AttemptId J T)
      (row : TaskInstance J T V) (hfree : handOffLocked plane id next = false)
      (hhit : (Executor.finish id podUid skipped outcome output exitCode).hit id row = true) :
      RowChange plane (.handOff id podUid skipped outcome output exitCode next) id row
        ((Executor.finish id podUid skipped outcome output exitCode).set id row)
  | advance (finishedId : AttemptId J T) (podUid : String) (skipped : Bool) (outcome : Outcome)
      (output : Option V) (exitCode : Option ℤ) (args : AdvanceArgs J T V)
      (done : TaskInstance J T V) (id : AttemptId J T) (row : TaskInstance J T V)
      (hfree : handOffLocked plane finishedId (some args) = false)
      (hdone : plane.ledger.tasks[finishedId]? = some done)
      (hfinish : (Executor.finish finishedId podUid skipped outcome output exitCode).hit
        finishedId done = true)
      (hhit : (advanceSegment plane.ledger.jobs args
        ((Executor.finish finishedId podUid skipped outcome output exitCode).set finishedId done)
        podUid).hit id row = true) :
      RowChange plane (.handOff finishedId podUid skipped outcome output exitCode (some args)) id
        row
        ((advanceSegment plane.ledger.jobs args
          ((Executor.finish finishedId podUid skipped outcome output exitCode).set finishedId
            done) podUid).set id row)

/-- Which rows a step can add. -/
inductive RowInsert (plane : ControlPlane J T V) :
    Action J T V → AttemptId J T → TaskInstance J T V → Prop
  | plan (job : J) (row : Job J V) (entry : Node T × ℕ)
      (hrow : plane.ledger.jobs[job]? = some row) (hstate : row.state = .dispatching)
      (hentry : entry ∈ (dagFor job).nodes.zipIdx) :
      RowInsert plane (.plan job) ⟨job, entry.1.taskId, 1⟩ (plannedRow row entry)
  | retry (id : AttemptId J T) (failure : TaskFailure J T) (now hash : ℤ)
      (row : TaskInstance J T V) (hrow : plane.ledger.tasks[id]? = some row)
      (hhit : (Executor.archiveTry plane.ledger.jobs id failure).hit id row = true)
      (hretries : retries failure id row = true) :
      RowInsert plane (.failOrRetry id failure now hash) id.next
        (retryTry id failure.escalate failure.backoff now hash row)
  | restarted (id : AttemptId J T) (row : TaskInstance J T V)
      (hexecutor : plane.executor = .restarted id) (hrow : plane.ledger.tasks[id]? = some row)
      (hdead : row.live = false) :
      RowInsert plane .insertClearedTry id.next (clearedTry id none 2 row)
  | cleared (job : J) (now : ℤ) (clear : OpenClear J T) (archived : List (AttemptId J T))
      (id : AttemptId J T) (row : TaskInstance J T V) (hclear : plane.clears[job]? = some clear)
      (harchived : clear.archived = some archived) (hrow : plane.ledger.tasks[id]? = some row)
      (hmem : id ∈ archived)
      (hhit : (archiveCleared job clear.taskIds).hit id row = true)
      (hcommit : ClearCommits plane (.commitClear job now)) :
      RowInsert plane (.commitClear job now) id.next
        (clearedTry id clear.resourceClass clear.retries row)

end Change

/-- What the table after a step holds under a key: a row that was there, changed, or an added
one. -/
def RowStep (dagFor : J → Dag T) (plane : ControlPlane J T V) (action : Action J T V)
    (id : AttemptId J T) (new : TaskInstance J T V) : Prop :=
  (∃ old, plane.ledger.tasks[id]? = some old ∧ RowChange dagFor plane action id old new) ∨
    plane.ledger.tasks[id]? = none ∧ RowInsert dagFor plane action id new

variable {dagFor : J → Dag T} {plane : ControlPlane J T V}

theorem RowStep.of_same {action : Action J T V} (hcommit : ¬ ClearCommits plane action)
    {id : AttemptId J T} {row : TaskInstance J T V} (hrow : plane.ledger.tasks[id]? = some row) :
    RowStep dagFor plane action id row :=
  .inl ⟨row, hrow, .same action id row hcommit⟩

/-- A statement of the step changes the rows it hits. -/
theorem RowStep.of_run {action : Action J T V} (hcommit : ¬ ClearCommits plane action)
    {update : TaskUpdate J T V}
    (hhit : ∀ (id : AttemptId J T) row, plane.ledger.tasks[id]? = some row →
      update.hit id row = true → RowChange dagFor plane action id row (update.set id row))
    {id : AttemptId J T} {new : TaskInstance J T V}
    (hnew : (update.run plane.ledger.tasks)[id]? = some new) :
    RowStep dagFor plane action id new := by
  obtain ⟨old, hold, rfl⟩ := Update.getElem?_run_eq_some_iff.mp hnew
  refine .inl ⟨old, hold, ?_⟩
  rw [Update.row]
  split
  · next hmatch => exact hhit id old hold hmatch
  · exact .same action id old hcommit

/-- One recorded verdict sets the row of its node to a state other than `none`. -/
theorem recordVerdict_cases {jobs : JobTable J V} {dag : Dag T} {snapshot : Snapshot J T V}
    {tasks later : TaskTable J T V} {action : ℕ × PassAction}
    (hlater : recordVerdict jobs dag snapshot tasks action = some later) :
    later = tasks ∨
      ∃ node id read, dag.nodes[action.1]? = some node ∧
        liveRow snapshot.rows snapshot.job node.taskId = some (id, read) ∧
        later = (verdictUpdate jobs dag snapshot node id action.2).run tasks := by
  rw [recordVerdict] at hlater
  split at hlater
  · cases hlater
    exact .inl rfl
  · next node hnode =>
      split at hlater
      · cases hlater
        exact .inl rfl
      · next entry hentry =>
          dsimp only at hlater
          split at hlater
          · cases hlater
          · cases hlater
            exact .inr ⟨node, entry.1, entry.2, hnode, hentry, rfl⟩

omit [LinearOrder T] in
/-- A pass propagates the states that its rules demand. -/
theorem isPropagated_of_mem_pass {dag : Dag T} {states : List TaskState} {idx : ℕ}
    {state : TaskState} (haction : (idx, PassAction.propagate state) ∈ pass dag states) :
    state.isPropagated = true := by
  obtain ⟨earlier, later, hsplit⟩ := List.append_of_mem haction
  obtain ⟨_, _, hpropagated⟩ := allJustified_pass dag states earlier _ later hsplit
  exact hpropagated

theorem verdictUpdate_hit {jobs : JobTable J V} {dag : Dag T} {snapshot : Snapshot J T V}
    {node : Node T} {id k : AttemptId J T} {action : PassAction} {row : TaskInstance J T V} :
    (verdictUpdate jobs dag snapshot node id action).hit k row = true ↔
      k = id ∧ row.live = true ∧ row.state = .none ∧
        clearNumber jobs id.job = some snapshot.clearNumber := by
  cases action <;>
    simp only [verdictUpdate, markScheduled, propagate, onLive_hit, Bool.and_eq_true, beq_iff_eq]

/-- A verdict of a pass leads out of the state `none`. -/
theorem verdictUpdate_state {jobs : JobTable J V} {dag : Dag T} {snapshot : Snapshot J T V}
    {states : List TaskState} {node : Node T} {id k : AttemptId J T} {action : ℕ × PassAction}
    {row : TaskInstance J T V} (haction : action ∈ pass dag states) :
    ((verdictUpdate jobs dag snapshot node id action.2).set k row).state ≠ .none := by
  obtain ⟨idx, decision⟩ := action
  cases decision with
  | schedule => exact TaskState.noConfusion
  | propagate state =>
      intro hnone
      have hpropagated := isPropagated_of_mem_pass haction
      have hstate : state = .none := hnone
      rw [hstate] at hpropagated
      cases hpropagated

/-- A pass that commits changes a row by at most one verdict. -/
theorem rowStep_pass {snapshot : Snapshot J T V} {later : TaskTable J T V}
    (hexecutor : plane.executor = .inPass snapshot)
    (hlater : (pass (dagFor snapshot.job) (liveStates (dagFor snapshot.job) snapshot)).foldlM
      (recordVerdict plane.ledger.jobs (dagFor snapshot.job) snapshot) plane.ledger.tasks =
        some later)
    {id : AttemptId J T} {new : TaskInstance J T V} (hnew : later[id]? = some new) :
    RowStep dagFor plane .commitPass id new := by
  have hrows : ∃ old, plane.ledger.tasks[id]? = some old ∧
      (new = old ∨ new.state ≠ .none ∧ RowChange dagFor plane .commitPass id old new) := by
    apply foldlM_keeps (fun table : TaskTable J T V => ∀ new, table[id]? = some new →
      ∃ old, plane.ledger.tasks[id]? = some old ∧
        (new = old ∨ new.state ≠ .none ∧ RowChange dagFor plane .commitPass id old new))
      _ _ hlater new hnew
    · intro action haction table next hkept hnext new hnew
      rcases recordVerdict_cases hnext with rfl | ⟨node, key, read, hnode, hread, rfl⟩
      · exact hkept new hnew
      · obtain ⟨mid, hmid, rfl⟩ := Update.getElem?_run_eq_some_iff.mp hnew
        obtain ⟨old, hold, hchange⟩ := hkept mid hmid
        refine ⟨old, hold, ?_⟩
        rw [Update.row]
        split
        · next hhit =>
            obtain ⟨rfl, _, hnone, _⟩ := verdictUpdate_hit.mp hhit
            rcases hchange with rfl | ⟨hdecided, _⟩
            · right
              exact ⟨verdictUpdate_state haction,
                .verdict snapshot action node id read mid hexecutor haction hnode hread hhit⟩
            · exact absurd hnone hdecided
        · exact hchange
    · intro row hrow
      exact ⟨row, hrow, .inl rfl⟩
  obtain ⟨old, hold, hchange⟩ := hrows
  refine .inl ⟨old, hold, ?_⟩
  rcases hchange with rfl | ⟨_, hchange⟩
  · exact .same _ _ _ not_false
  · exact hchange

/-- A retried failure archives its row and adds the next try. -/
theorem rowStep_retry {id : AttemptId J T} {failure : TaskFailure J T} {now hash : ℤ}
    {row : TaskInstance J T V} {later : TaskTable J T V}
    (hrow : plane.ledger.tasks[id]? = some row)
    (hhit : (archiveTry plane.ledger.jobs id failure).hit id row = true)
    (hretries : retries failure id row = true) (hfree : plane.rowLocked id = false)
    (hlater : insertRetryTry ((archiveTry plane.ledger.jobs id failure).run plane.ledger.tasks)
      id failure.escalate failure.backoff now hash = some later)
    {k : AttemptId J T} {new : TaskInstance J T V} (hnew : later[k]? = some new) :
    RowStep dagFor plane (.failOrRetry id failure now hash) k new := by
  have harchive : ∀ new, ((archiveTry plane.ledger.jobs id failure).run
      plane.ledger.tasks)[k]? = some new →
      RowStep dagFor plane (.failOrRetry id failure now hash) k new := by
    intro new hnew
    apply RowStep.of_run (by exact not_false) _ hnew
    intro k row _ hmatch
    cases archiveTry_only hmatch
    exact .archiveTry id failure now hash row hmatch hfree
  rw [insertRetryTry_eq] at hlater
  rcases insertSuccessor_cases hlater with rfl | ⟨old, hold, _, _, _, habsent, rfl⟩
  · exact harchive new hnew
  · rw [BTreeMap.getElem?_insert_eq_ite] at hnew
    split at hnew
    · next hsame =>
        cases hnew
        cases hsame
        right
        rw [Update.getElem?_run, Option.map_eq_none_iff] at habsent
        refine ⟨habsent, ?_⟩
        rw [Update.getElem?_run, hrow, Option.map_some, Option.some.injEq, Update.row,
          if_pos hhit] at hold
        subst hold
        exact .retry id failure now hash row hrow hhit hretries
    · exact harchive new hnew

/-- A clear that commits. -/
theorem rowStep_clear {job : J} {now : ℤ} {clear : OpenClear J T}
    {archived : List (AttemptId J T)} {later : TaskTable J T V}
    (hclear : plane.clears[job]? = some clear) (harchived : clear.archived = some archived)
    (hlater : clearTasks job clear archived plane.ledger.tasks = some later)
    {id : AttemptId J T} {new : TaskInstance J T V} (hnew : later[id]? = some new) :
    RowStep dagFor plane (.commitClear job now) id new := by
  have hcleared := clearTasks_spec hlater
  have hcommit : ClearCommits plane (.commitClear job now) :=
    ⟨clear, archived, later, hclear, harchived, hlater⟩
  cases hrow : plane.ledger.tasks[id]? with
  | some row =>
      rw [hcleared.rows id row hrow, Option.some.injEq] at hnew
      subst hnew
      exact .inl ⟨row, hrow, .clear job now clear archived id row hclear harchived hcommit⟩
  | none =>
      obtain ⟨prev, row, rfl, hprev, hmem, hhit, rfl⟩ := hcleared.added id new hnew hrow
      exact .inr ⟨hrow, .cleared job now clear archived prev row hclear harchived hprev hmem hhit
        hcommit⟩

/-- The second half of a completed restart. -/
theorem rowStep_insertClearedTry {id : AttemptId J T} {later : TaskTable J T V}
    (hexecutor : plane.executor = .restarted id)
    (hlater : insertClearedTry plane.ledger.tasks id none 2 = some later)
    {k : AttemptId J T} {new : TaskInstance J T V} (hnew : later[k]? = some new) :
    RowStep dagFor plane .insertClearedTry k new := by
  rw [insertClearedTry_eq] at hlater
  rcases insertSuccessor_cases hlater with rfl | ⟨row, hrow, hdead, _, _, habsent, rfl⟩
  · exact .of_same (by exact not_false) hnew
  · rw [BTreeMap.getElem?_insert_eq_ite] at hnew
    split at hnew
    · next hsame =>
        cases hnew
        cases hsame
        exact .inr ⟨habsent, .restarted id row hexecutor hrow hdead⟩
    · exact .of_same (by exact not_false) hnew

/-- A hand-off finishes one row and starts another one. -/
theorem rowStep_advance {finishedId : AttemptId J T} {podUid : String} {skipped : Bool}
    {outcome : Outcome} {output : Option V} {exitCode : Option ℤ} {args : AdvanceArgs J T V}
    {done : TaskInstance J T V} (hfree : handOffLocked plane finishedId (some args) = false)
    (hdone : plane.ledger.tasks[finishedId]? = some done)
    (hfinish : (finish finishedId podUid skipped outcome output exitCode).hit finishedId done =
      true)
    {id : AttemptId J T} {new : TaskInstance J T V}
    (hnew : ((advanceSegment plane.ledger.jobs args
        ((finish finishedId podUid skipped outcome output exitCode).set finishedId done)
        podUid).run ((finish finishedId podUid skipped outcome output exitCode).run
          plane.ledger.tasks))[id]? = some new) :
    RowStep dagFor plane (.handOff finishedId podUid skipped outcome output exitCode (some args))
      id new := by
  obtain ⟨mid, hmid, rfl⟩ := Update.getElem?_run_eq_some_iff.mp hnew
  obtain ⟨old, hold, rfl⟩ := Update.getElem?_run_eq_some_iff.mp hmid
  refine .inl ⟨old, hold, ?_⟩
  by_cases hend : (finish finishedId podUid skipped outcome output exitCode).hit id old = true
  · -- the finished row is terminal, so it is not started
    have hsame := (onLive_hit.mp hend).1
    subst hsame
    rw [Update.row, Update.row, if_pos hend, if_neg]
    · exact .finish podUid skipped outcome output exitCode (some args) id old hfree hend
    · intro hstart
      have hcondition := (onLive_hit.mp hstart).2.2
      simp only [Bool.and_eq_true, beq_iff_eq] at hcondition
      have hnone := hcondition.1.1.1.1.2
      rw [finish, onLive] at hnone
      dsimp only at hnone
      split at hnone <;> cases hnone
  · rw [Update.row, Update.row, if_neg hend]
    split
    · next hstart =>
        exact .advance finishedId podUid skipped outcome output exitCode args done id old hfree
          hdone hfinish hstart
    · exact .same _ _ _ not_false

/-- A commit of a clear leaves the rows alone, or applies the clear. -/
theorem commitClear_cases (render : T → String) (dagFor : J → Dag T) (plane : ControlPlane J T V)
    (job : J) (now : ℤ) :
    ((plane.step render dagFor (.commitClear job now)).ledger = plane.ledger ∧
      ¬ ClearCommits plane (.commitClear job now)) ∨
    ∃ clear archived later, plane.clears[job]? = some clear ∧ clear.archived = some archived ∧
      clearTasks job clear archived plane.ledger.tasks = some later ∧
      (plane.step render dagFor (.commitClear job now)).ledger =
        { jobs := (reopen job now).run plane.ledger.jobs, tasks := later } := by
  rw [ControlPlane.step, ControlPlane.commitClear]
  split
  · next hclear =>
      refine .inl ⟨rfl, ?_⟩
      intro hcommits
      obtain ⟨_, _, _, hopen, _⟩ := hcommits
      rw [hclear] at hopen
      cases hopen
  · next clear hclear =>
      split
      · next harchived =>
          refine .inl ⟨rfl, ?_⟩
          intro hcommits
          obtain ⟨_, _, _, hopen, hsome, _⟩ := hcommits
          rw [hclear, Option.some.injEq] at hopen
          rw [← hopen, harchived] at hsome
          cases hsome
      · next archived harchived =>
          split
          · next hfails =>
              refine .inl ⟨rfl, ?_⟩
              intro hcommits
              obtain ⟨_, _, later, hopen, hsome, hlater⟩ := hcommits
              rw [hclear, Option.some.injEq] at hopen
              subst hopen
              rw [harchived, Option.some.injEq] at hsome
              subst hsome
              rw [hfails] at hlater
              cases hlater
          · next later hlater =>
              exact .inr ⟨clear, archived, later, hclear, harchived, hlater, rfl⟩

variable {render : T → String}

/-- Every row after a step was changed by it in a listed way, or added by it. -/
theorem rowStep (plane : ControlPlane J T V) (action : Action J T V) {id : AttemptId J T}
    {new : TaskInstance J T V}
    (hnew : (plane.step render dagFor action).ledger.tasks[id]? = some new) :
    RowStep dagFor plane action id new := by
  have hchange : TaskChange dagFor plane action (plane.step render dagFor action).ledger.tasks :=
    taskChange_step plane action
  generalize htasks : (plane.step render dagFor action).ledger.tasks = later at hnew hchange
  cases hchange with
  | same =>
      by_cases hcommit : ClearCommits plane action
      · cases action with
        | commitClear job now =>
            rcases commitClear_cases render dagFor plane job now with
              ⟨_, hnot⟩ | ⟨clear, archived, later, hclear, harchived, hlater, hstep⟩
            · exact absurd hcommit hnot
            · rw [hstep] at htasks
              rw [← htasks] at hnew
              exact rowStep_clear hclear harchived hlater hnew
        | _ => cases hcommit
      · exact .of_same hcommit hnew
  | statement statement hissued hfree =>
      apply RowStep.of_run (by exact not_false) _ hnew
      intro k row hrow hhit
      have hmatched := Update.mem_matched.mpr ⟨row, hrow, hhit⟩
      exact .statement statement k row hissued (hfree k hmatched) hhit
  | claimLaunch ownerEpoch k8sJobName now inFlightCap picked row hrow hclaimable hfree hpick =>
      apply RowStep.of_run (by exact not_false) _ hnew
      intro k other hother hhit
      cases claimLaunch_only hhit
      rw [hrow, Option.some.injEq] at hother
      subst hother
      exact .claimLaunch ownerEpoch k8sJobName now inFlightCap picked row hclaimable hfree hpick
  | claimControl ownerEpoch now picked row hrow hclaimable hfree hpick =>
      apply RowStep.of_run (by exact not_false) _ hnew
      intro k other hother hhit
      cases claimControl_only hhit
      rw [hrow, Option.some.injEq] at hother
      subst hother
      exact .claimControl ownerEpoch now picked row hclaimable hfree hpick
  | plan job row hrow hstate =>
      have hplan := planNodes_spec job row (dagFor job).nodes.zipIdx plane.ledger.tasks
      rcases hplan.2.1 id new hnew with hold | ⟨habsent, entry, hentry, rfl, rfl⟩
      · exact .of_same (by exact not_false) hold
      · exact .inr ⟨habsent, .plan job row entry hrow hstate hentry⟩
  | fail failed failure now hash row hrow hhit hkept hfree =>
      apply RowStep.of_run (by exact not_false) _ hnew
      intro k other _ hmatch
      cases archiveTry_only hmatch
      exact .archiveTry failed failure now hash other hmatch hfree
  | retry failed failure now hash row later hrow hhit hretries hfree hlater =>
      exact rowStep_retry hrow hhit hretries hfree hlater hnew
  | pass snapshot later hexecutor hlater => exact rowStep_pass hexecutor hlater hnew
  | archiveRestarted archived k8sJobName exitCode terminationReason harchives =>
      apply RowStep.of_run (by exact not_false) _ hnew
      intro k other _ hmatch
      cases (archiveRestarted_hit.mp hmatch).1
      exact .archiveRestarted archived k8sJobName exitCode terminationReason other harchives hmatch
  | insertClearedTry held later hexecutor hlater =>
      exact rowStep_insertClearedTry hexecutor hlater hnew
  | clear job now clear archived later hclear harchived hlater =>
      exact rowStep_clear hclear harchived hlater hnew
  | finish finishedId podUid skipped outcome output exitCode next hfree =>
      apply RowStep.of_run (by exact not_false) _ hnew
      intro k other _ hmatch
      cases (onLive_hit.mp hmatch).1
      exact .finish podUid skipped outcome output exitCode next finishedId other hfree hmatch
  | advance finishedId podUid skipped outcome output exitCode args done hfree hdone hfinish =>
      exact rowStep_advance hfree hdone hfinish hnew

theorem exists_of_getElem? (render : T → String) (dagFor : J → Dag T) (plane : ControlPlane J T V)
    (action : Action J T V) (hnumbered : AllNumbered plane.ledger.tasks) {id : AttemptId J T}
    {row : TaskInstance J T V} (hrow : plane.ledger.tasks[id]? = some row) :
    ∃ new, (plane.step render dagFor action).ledger.tasks[id]? = some new := by
  rw [← BTreeMap.mem_iff_exists_getElem?]
  have hmem : id ∈ plane.ledger.tasks := BTreeMap.mem_iff_exists_getElem?.mpr ⟨row, hrow⟩
  by_cases harchives : ArchivesRestarted plane action
  · exact (keepsTries_of_archivesRestarted harchives).1.kept id hmem
  · by_cases hplan : ∃ job, action = .plan job
    · obtain ⟨job, rfl⟩ := hplan
      rcases plan_cases render dagFor plane job with hstep | ⟨jobRow, _, _, _, _, hstep⟩
      · rw [hstep]
        exact hmem
      · rw [hstep, BTreeMap.mem_iff_exists_getElem?]
        exact ⟨row, (planNodes_spec job jobRow (dagFor job).nodes.zipIdx _).1 id row hrow⟩
    · have hother (job : J) : action ≠ .plan job := fun hsame => hplan ⟨job, hsame⟩
      exact (carriesTries_step hnumbered hother harchives).kept id hmem

/-! ## What a change keeps -/

/-- The row that a claim takes. -/
def ControlPlane.picked (plane : ControlPlane J T V) : Action J T V → Option (AttemptId J T)
  | .claimLaunch _ _ now inFlightCap =>
      pickClaim plane.ledger plane.rowLocked (launchClaimable plane.ledger now inFlightCap)
  | .claimControl _ now =>
      pickClaim plane.ledger plane.rowLocked (controlClaimable plane.ledger now)
  | _ => none

/-- The row waits or has been claimed. -/
def TaskState.isRunnable (state : TaskState) : Bool :=
  state.isWaiting || state.isClaimed

/-- A change that neither revives a row nor gives it another budget. -/
structure Continues (old new : TaskInstance J T V) : Prop where
  live : new.live = true → old.live = true
  maxTries : new.maxTries = old.maxTries
  runnable : new.state.isRunnable = true → old.state.isRunnable = true
  restarting : new.state = .restarting → old.state = .restarting

omit [LinearOrder J] [LinearOrder T] in
theorem Continues.refl (row : TaskInstance J T V) : Continues row row where
  live hlive := hlive
  maxTries := rfl
  runnable hrunnable := hrunnable
  restarting hstate := hstate

theorem TaskState.isWaiting_of_isClaimable {state : TaskState}
    (hstate : state.isClaimable = true) : state.isWaiting = true := by
  cases state <;> first | rfl | cases hstate

theorem TaskState.isRunnable_of_isClaimable {state : TaskState}
    (hstate : state.isClaimable = true) : state.isRunnable = true := by
  rw [TaskState.isRunnable, TaskState.isWaiting_of_isClaimable hstate, Bool.true_or]

theorem TaskState.isRunnable_of_isClaimed {state : TaskState} (hstate : state.isClaimed = true) :
    state.isRunnable = true := by
  rw [TaskState.isRunnable, hstate, Bool.or_true]

omit [LinearOrder J] [LinearOrder T] in
/-- A runnable row may go on to any state but `restarting`. -/
theorem Continues.of_runnable {old new : TaskInstance J T V}
    (hlive : new.live = true → old.live = true) (hmax : new.maxTries = old.maxTries)
    (hrunnable : old.state.isRunnable = true)
    (hstate : new.state ≠ .restarting) : Continues old new where
  live := hlive
  maxTries := hmax
  runnable _ := hrunnable
  restarting hsame := absurd hsame hstate

omit [LinearOrder J] [LinearOrder T] in
/-- A row may end, or be canceled. -/
theorem Continues.of_ended {old new : TaskInstance J T V}
    (hlive : new.live = true → old.live = true) (hmax : new.maxTries = old.maxTries)
    (hrunnable : new.state.isRunnable = false)
    (hstate : new.state ≠ .restarting) : Continues old new where
  live := hlive
  maxTries := hmax
  runnable hsame := by
    rw [hrunnable] at hsame
    cases hsame
  restarting hsame := absurd hsame hstate

theorem Continues.statement {statement : TaskStatement J T V} {id : AttemptId J T}
    {row : TaskInstance J T V} (hhit : statement.update.hit id row = true) :
    Continues row (statement.update.set id row) := by
  have hlive : (statement.update.set id row).live = true → row.live = true := by
    rw [(TaskStatement.quiet hhit).live]
    exact fun hlive => hlive
  cases statement with
  | start | requeueLaunch | capacityWait =>
      have hcondition := (onLive_hit.mp hhit).2.2
      apply Continues.of_runnable hlive rfl _ TaskState.noConfusion
      apply TaskState.isRunnable_of_isClaimed
      cases hstate : row.state <;> simp_all [TaskState.isClaimed]
  | finish _ _ skipped | finishControl _ _ skipped =>
      apply Continues.of_ended hlive rfl
      · cases skipped <;> rfl
      · cases skipped <;> exact TaskState.noConfusion
  | noteInterruption | recordEvidence | adopt =>
      exact ⟨hlive, rfl, fun hrunnable => hrunnable, fun hstate => hstate⟩
  | cancelPending | cancelLive | settleCanceled =>
      exact Continues.of_ended hlive rfl rfl TaskState.noConfusion

/-- Every change outside a clear continues the row. -/
theorem RowChange.continues {action : Action J T V} {id : AttemptId J T}
    {old new : TaskInstance J T V} (hchange : RowChange dagFor plane action id old new)
    (hcommit : ¬ ClearCommits plane action) : Continues old new := by
  cases hchange with
  | same => exact Continues.refl _
  | statement statement _ _ _ _ hhit => exact Continues.statement hhit
  | claimLaunch ownerEpoch k8sJobName now inFlightCap id row hclaimable =>
      simp only [launchClaimable, Bool.and_eq_true] at hclaimable
      have hrunnable := TaskState.isRunnable_of_isClaimable hclaimable.1.1.1.1.2
      exact Continues.of_runnable (fun hlive => hlive) rfl hrunnable TaskState.noConfusion
  | claimControl ownerEpoch now id row hclaimable =>
      simp only [controlClaimable, Bool.and_eq_true] at hclaimable
      have hrunnable := TaskState.isRunnable_of_isClaimable hclaimable.1.1.2
      exact Continues.of_runnable (fun hlive => hlive) rfl hrunnable TaskState.noConfusion
  | archiveTry id failure now hash row hhit =>
      have hlive : old.live = true := by
        simp only [Executor.archiveTry, Bool.and_eq_true] at hhit
        exact hhit.1.1.1.2
      apply Continues.of_ended (fun _ => hlive)
      · rfl
      · show failure.terminalState.toTaskState.isRunnable = false
        cases failure.terminalState <;> rfl
      · show failure.terminalState.toTaskState ≠ .restarting
        cases failure.terminalState <;> exact TaskState.noConfusion
  | verdict snapshot action node id read row hexecutor haction hnode hread hhit =>
      obtain ⟨_, hlive, hnone, _⟩ := verdictUpdate_hit.mp hhit
      have hmax : ((verdictUpdate plane.ledger.jobs (dagFor snapshot.job) snapshot node id
          action.2).set id old).maxTries = old.maxTries := by
        cases action.2 <;> rfl
      apply Continues.of_runnable (fun _ => hlive) hmax
      · rw [hnone]
        rfl
      · obtain ⟨idx, decision⟩ := action
        cases decision with
        | schedule => exact TaskState.noConfusion
        | propagate state =>
            have hpropagated := isPropagated_of_mem_pass haction
            show state ≠ .restarting
            cases state <;> first | exact TaskState.noConfusion | cases hpropagated
  | archiveRestarted id k8sJobName exitCode terminationReason row harchives hhit =>
      exact Continues.of_ended (fun _ => (archiveRestarted_hit.mp hhit).2.1) rfl rfl
        TaskState.noConfusion
  | clear job now clear archived id row hclear harchived hcommits => exact absurd hcommits hcommit
  | finish podUid skipped =>
      apply Continues.of_ended
      · exact fun hlive => hlive
      · rfl
      · cases skipped <;> rfl
      · cases skipped <;> exact TaskState.noConfusion
  | advance finishedId podUid skipped outcome output exitCode args done id row hfree hdone hfinish
      hhit =>
      have hcondition := (onLive_hit.mp hhit).2.2
      simp only [Bool.and_eq_true, beq_iff_eq] at hcondition
      have hrunnable : old.state.isRunnable = true := by
        rw [hcondition.1.1.1.1.2]
        rfl
      exact Continues.of_runnable (fun hlive => hlive) rfl hrunnable TaskState.noConfusion

/-- A row is claimed by a claim or by a hand-off, and the hand-off needs the lock of the job. -/
theorem RowChange.claimed {action : Action J T V} {id : AttemptId J T}
    {old new : TaskInstance J T V} (hchange : RowChange dagFor plane action id old new)
    (hclaimed : new.state.isClaimed = true) :
    old.state.isClaimed = true ∨ plane.picked action = some id ∨
      plane.jobLocked id.job = false := by
  cases hchange with
  | same => exact .inl hclaimed
  | statement statement _ _ _ _ hhit => exact .inl ((TaskStatement.quiet hhit).claimed hclaimed)
  | claimLaunch _ _ _ _ _ _ _ _ hpick => exact .inr (.inl hpick)
  | claimControl _ _ _ _ _ _ hpick => exact .inr (.inl hpick)
  | archiveTry id failure =>
      have hstate : failure.terminalState.toTaskState.isClaimed = true := hclaimed
      cases hfailure : failure.terminalState <;> rw [hfailure] at hstate <;> cases hstate
  | verdict snapshot action node id read row hexecutor haction =>
      obtain ⟨idx, decision⟩ := action
      cases decision with
      | schedule => cases hclaimed
      | propagate state =>
          have hpropagated := isPropagated_of_mem_pass haction
          have hstate : state.isClaimed = true := hclaimed
          have hpinned := TaskState.isPinned_of_isClaimed hstate
          rw [TaskState.isPinned_of_isPropagated hpropagated] at hpinned
          cases hpinned
  | archiveRestarted => cases hclaimed
  | clear job now clear archived =>
      rcases clearRow_cases job clear archived id old with
        ⟨_, _, hrow⟩ | ⟨_, hhit, hrow⟩ | ⟨_, hrow⟩ | ⟨hrow, _⟩
      · rw [hrow] at hclaimed
        cases hclaimed
      · rw [hrow] at hclaimed
        exact .inl hclaimed
      · rw [hrow] at hclaimed
        cases hclaimed
      · rw [hrow] at hclaimed
        exact .inl hclaimed
  | finish podUid skipped => cases skipped <;> cases hclaimed
  | advance finishedId podUid skipped outcome output exitCode args done id row hfree hdone hfinish
      hhit =>
      obtain ⟨rfl, _, hcondition⟩ := onLive_hit.mp hhit
      simp only [Bool.and_eq_true, decide_eq_true_eq] at hcondition
      rw [handOffLocked, Option.any_some] at hfree
      simp only [Bool.or_eq_false_iff] at hfree
      rw [hcondition.1.1.1.2]
      exact .inr (.inr hfree.1.1)

end EntityResolution.Executor
