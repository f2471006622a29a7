/-
# Write-ahead states

A clear marks a claimed row `restarting`, and the cancel sweep marks one `canceling`, before the
Job of the row is revoked. What leads out of these two states is the end of a pod: the watch and
the resync walk the pod rows that have a Kubernetes Job. A control row, and a pod row of the
in-process reporter, have none.

A control task runs in the dispatcher's own process, between the commit of `claim_control` and the
statement that ends it. A process that starts adopts every claimed row, but it executes only what
it claims, and `claim_control` takes waiting rows only.

The dispatcher is one process at a time. Beside the control plane its state is the epochs of the
running process, whether it has adopted the rows, and the control body that it executes.
-/

import EntityResolution.Executor.Reporter
import EntityResolution.Executor.RowSteps

namespace EntityResolution.Executor

open EntityResolution.Collections EntityResolution.Runs EntityResolution.Statements

universe u v w

variable {J : Type u} {T : Type v} {V : Type w}

/-- A Kubernetes Job stands behind the row: it is a pod row, and its Job name is not the reporter's
`inproc`. -/
def TaskInstance.hasJob (row : TaskInstance J T V) : Bool :=
  row.kind == .pod &&
    match row.k8sJobName with
    | some (.launch ..) => true
    | _ => false

/-- The row waits for the end of a pod. -/
def TaskState.isMarked (state : TaskState) : Bool :=
  state == .restarting || state == .canceling

/-- A control body is executing. -/
def TaskInstance.runsControl (row : TaskInstance J T V) : Bool :=
  row.live && row.kind == .control && row.state == .running

section Process

variable [LinearOrder J] [LinearOrder T]

/-- The control plane, and the dispatcher process that runs beside it. `body` is the row of the
control task that the process executes, and the epoch with which it will finish the row. -/
structure Dispatcher (J : Type u) (T : Type v) (V : Type w) [LinearOrder J] [LinearOrder T] where
  plane : ControlPlane J T V
  epoch : String
  reporterEpoch : String
  adopted : Bool
  body : Option (AttemptId J T × String)

/-- A dispatcher that has just started on empty tables. -/
def Dispatcher.fresh : Dispatcher J T V where
  plane := ControlPlane.fresh
  epoch := ""
  reporterEpoch := ""
  adopted := false
  body := none

/-- The steps of the dispatcher, of the API and of the pods. -/
inductive DispatcherAction (J : Type u) (T : Type v) (V : Type w)
  /-- The process dies, and the next one has new epochs and an empty memory. -/
  | restart (epoch reporterEpoch : String)
  /-- `Executor::adopt`, the first thing that `run_loop` does. -/
  | adopt
  /-- `control_pass` claims a row and starts its body. -/
  | controlPass (now : ℤ)
  /-- The reporter claims for the row that it reports, whose body the legacy arm runs. -/
  | controlReported (id : AttemptId J T) (now : ℤ)
  /-- The body returned: `finish_control`. -/
  | bodySucceeded (skipped : Bool) (outcome : Outcome) (output : Option V)
  /-- The body failed: `fail_or_retry`, with no Job name. -/
  | bodyFailed (failure : TaskFailure J T) (now hash : ℤ)
  /-- The reporter's `mark_scheduled`. -/
  | markScheduled (id : AttemptId J T) (input : WorkInput T V) (number : ℕ)
  /-- The reporter's `start`. -/
  | startInproc (id : AttemptId J T) (podUid : String)
  /-- A row that the reporter's `settle` propagates. -/
  | settleRow (id : AttemptId J T) (state : TaskState) (number : ℕ)
  /-- Any other statement of any party. -/
  | shared (action : Action J T V)

/-- The steps that only the dispatcher makes, and that are listed on their own. -/
def Action.isOwn : Action J T V → Bool
  | .claimControl .. | .task (.adopt _) | .task (.finishControl ..) => true
  | _ => false

/-- A failure as a control body reports it: with no Job name. -/
def TaskFailure.control (failure : TaskFailure J T) : TaskFailure J T :=
  { failure with k8sJobName := none }

/-- The statement would wait for a locked row. -/
def ControlPlane.waits (plane : ControlPlane J T V) (update : TaskUpdate J T V) : Bool :=
  (update.matched plane.ledger.tasks).any plane.rowLocked

/-- The process may report a control row: it executes nothing, or this very row. -/
def Dispatcher.mayReport (dispatcher : Dispatcher J T V) (id : AttemptId J T) : Bool :=
  dispatcher.adopted && dispatcher.body.all (· == (id, dispatcher.reporterEpoch))

section Step

variable (render : T → String) (dagFor : J → Dag T)

/-- One step. What waits for a lock, or does not apply, changes nothing. -/
def Dispatcher.step (dispatcher : Dispatcher J T V) :
    DispatcherAction J T V → Dispatcher J T V
  | .restart epoch reporterEpoch =>
      { plane := dispatcher.plane.step render dagFor .stop
        epoch := epoch
        reporterEpoch := reporterEpoch
        adopted := false
        body := none }
  | .adopt =>
      if dispatcher.adopted || dispatcher.plane.waits (Executor.adopt dispatcher.epoch) then
        dispatcher
      else
        { dispatcher with
          plane := dispatcher.plane.runTask (Executor.adopt dispatcher.epoch)
          adopted := true }
  | .controlPass now =>
      if dispatcher.adopted && dispatcher.body.isNone then
        { dispatcher with
          plane := dispatcher.plane.step render dagFor (.claimControl dispatcher.epoch now)
          body := (dispatcher.plane.picked (.claimControl dispatcher.epoch now)).map fun id =>
            (id, dispatcher.epoch) }
      else dispatcher
  | .controlReported id now =>
      if dispatcher.mayReport id then
        { dispatcher with
          plane := dispatcher.plane.step render dagFor
            (.claimControl dispatcher.reporterEpoch now)
          body := some (id, dispatcher.reporterEpoch) }
      else dispatcher
  | .bodySucceeded skipped outcome output =>
      match dispatcher.body with
      | none => dispatcher
      | some (id, epoch) =>
          let update := Executor.finishControl id epoch skipped outcome output
          if dispatcher.plane.waits update then dispatcher
          else { dispatcher with plane := dispatcher.plane.runTask update, body := none }
  | .bodyFailed failure now hash =>
      match dispatcher.body with
      | none => dispatcher
      | some (id, _) =>
          if dispatcher.plane.rowLocked id then dispatcher
          else
            { dispatcher with
              plane := dispatcher.plane.step render dagFor
                (.failOrRetry id failure.control now hash)
              body := none }
  | .markScheduled id input number =>
      { dispatcher with
        plane := dispatcher.plane.runTask
          (Executor.markScheduled dispatcher.plane.ledger.jobs id input number) }
  | .startInproc id podUid =>
      { dispatcher with plane := dispatcher.plane.runTask (Executor.startInproc id podUid) }
  | .settleRow id state number =>
      if state.isPropagated then
        { dispatcher with
          plane := dispatcher.plane.runTask
            (propagate dispatcher.plane.ledger.jobs id state number) }
      else dispatcher
  | .shared action =>
      if action.isOwn then dispatcher
      else { dispatcher with plane := dispatcher.plane.step render dagFor action }

end Step

/-- The process executes the control body of the row. -/
def Dispatcher.executes (dispatcher : Dispatcher J T V) (id : AttemptId J T) : Prop :=
  ∃ epoch, dispatcher.body = some (id, epoch)

/-- Every marked row has a Job whose end settles it. -/
def MarkedHaveJobs (tasks : TaskTable J T V) : Prop :=
  ∀ (id : AttemptId J T) row, tasks[id]? = some row → row.live = true →
    row.state.isMarked = true → row.hasJob = true

/-- Every running control row is executed by the process, or can be claimed again. -/
def Dispatcher.RunningExecuted (dispatcher : Dispatcher J T V) : Prop :=
  ∀ (id : AttemptId J T) row, dispatcher.plane.ledger.tasks[id]? = some row →
    row.runsControl = true →
    dispatcher.executes id ∨ ∃ now, controlClaimable dispatcher.plane.ledger now id row = true

/-- Nothing hangs: something settles every marked row, and once the process has adopted the rows,
something ends every running control row. -/
structure Dispatcher.NothingHangs (dispatcher : Dispatcher J T V) : Prop where
  marked : MarkedHaveJobs dispatcher.plane.ledger.tasks
  running : dispatcher.adopted = true → dispatcher.RunningExecuted

/-- The rows that an action marks: those that `restart_cleared` of a committed clear hits, and
those that `cancel_live` hits. -/
def Marks (plane : ControlPlane J T V) (action : Action J T V) (id : AttemptId J T)
    (row : TaskInstance J T V) : Prop :=
  match action with
  | .commitClear job _ =>
      ClearCommits plane action ∧ ∃ clear, plane.clears[job]? = some clear ∧
        id ∈ clear.restarted ∧
        (restartCleared job clear.taskIds clear.resourceClass).hit id row = true
  | .task (.cancelLive job) =>
      (TaskStatement.cancelLive job : TaskStatement J T V).issued plane.ledger.jobs = true ∧
        plane.waits (cancelLive job) = false ∧ (cancelLive job).hit id row = true
  | _ => False

/-- When a step leaves nothing hanging: a marked row has a Job, an adopting process finds no
control row that an earlier process left running, the reporter's claim takes the row that it
reports, and `archive_try` accepts a failed body, so its job has not been canceled meanwhile. -/
def LeavesNothingHanging (dispatcher : Dispatcher J T V) : DispatcherAction J T V → Prop
  | .shared action =>
      ∀ (id : AttemptId J T) row, dispatcher.plane.ledger.tasks[id]? = some row →
        Marks dispatcher.plane action id row → row.hasJob = true
  | .adopt =>
      dispatcher.adopted = true ∨ dispatcher.plane.waits (Executor.adopt dispatcher.epoch) = true ∨
        ∀ (id : AttemptId J T) row, dispatcher.plane.ledger.tasks[id]? = some row →
          row.runsControl = false
  | .controlReported id now =>
      dispatcher.mayReport id = true →
        ∀ other, dispatcher.plane.picked (.claimControl dispatcher.reporterEpoch now) =
          some other → other = id
  | .bodyFailed _ _ _ =>
      ∀ id epoch row, dispatcher.body = some (id, epoch) →
        dispatcher.plane.rowLocked id = false →
        dispatcher.plane.ledger.tasks[id]? = some row → row.runsControl = true →
        jobAllows dispatcher.plane.ledger.jobs id row = true
  | _ => True

section Rows

variable {render : T → String} {dagFor : J → Dag T} {plane : ControlPlane J T V}

/-- A task statement changes the rows it hits, unless it waits. -/
theorem runTask_cases {update : TaskUpdate J T V} {id : AttemptId J T} {new : TaskInstance J T V}
    (hnew : (plane.runTask update).ledger.tasks[id]? = some new) :
    ∃ old, plane.ledger.tasks[id]? = some old ∧
      (new = old ∨
        plane.waits update = false ∧ update.hit id old = true ∧ new = update.set id old) := by
  rw [ControlPlane.runTask] at hnew
  split at hnew
  · exact ⟨new, hnew, .inl rfl⟩
  · next hwaits =>
      obtain ⟨old, hold, rfl⟩ := Update.getElem?_run_eq_some_iff.mp hnew
      refine ⟨old, hold, ?_⟩
      rw [Update.row]
      split
      · next hhit => exact .inr ⟨Bool.eq_false_iff.mpr hwaits, hhit, rfl⟩
      · exact .inl rfl

theorem getElem?_runTask {update : TaskUpdate J T V} {id : AttemptId J T}
    {row : TaskInstance J T V} (hfree : plane.waits update = false)
    (hrow : plane.ledger.tasks[id]? = some row) :
    (plane.runTask update).ledger.tasks[id]? = some (update.row id row) := by
  rw [ControlPlane.runTask]
  rw [ControlPlane.waits] at hfree
  rw [hfree]
  exact Update.getElem?_run_eq_some_iff.mpr ⟨row, hrow, rfl⟩

/-- If the row is marked now, it was marked before, with the same Job. -/
def WasMarked (old new : TaskInstance J T V) : Prop :=
  new.live = true → new.state.isMarked = true →
    old.live = true ∧ old.state.isMarked = true ∧ new.hasJob = old.hasJob

omit [LinearOrder J] [LinearOrder T] in
theorem WasMarked.of_unmarked {old new : TaskInstance J T V}
    (hstate : new.state.isMarked = false) : WasMarked old new := by
  intro _ hmarked
  rw [hstate] at hmarked
  cases hmarked

omit [LinearOrder J] [LinearOrder T] in
theorem WasMarked.of_same {old new : TaskInstance J T V} (hlive : new.live = old.live)
    (hstate : new.state = old.state) (hjob : new.hasJob = old.hasJob) : WasMarked old new := by
  intro hnew hmarked
  rw [hlive] at hnew
  rw [hstate] at hmarked
  exact ⟨hnew, hmarked, hjob⟩

/-- Of the task statements, `cancel_live` marks rows. -/
theorem TaskStatement.wasMarked {statement : TaskStatement J T V} {id : AttemptId J T}
    {row : TaskInstance J T V} (hcancel : ∀ job, statement ≠ .cancelLive job) :
    WasMarked row (statement.update.set id row) := by
  cases statement with
  | finish _ _ skipped | finishControl _ _ skipped =>
      apply WasMarked.of_unmarked
      cases skipped <;> rfl
  | start | requeueLaunch | capacityWait | cancelPending | settleCanceled =>
      exact WasMarked.of_unmarked rfl
  | noteInterruption | recordEvidence | adopt => exact WasMarked.of_same rfl rfl rfl
  | cancelLive job => exact absurd rfl (hcancel job)

/-- A verdict of a pass marks no row. -/
theorem isMarked_of_isPropagated {state : TaskState} (hstate : state.isPropagated = true) :
    state.isMarked = false := by
  cases state <;> first | rfl | cases hstate

theorem isMarked_toTaskState (state : FailureState) : state.toTaskState.isMarked = false := by
  cases state <;> rfl

/-- Outside clears and cancels, a change marks no row. -/
theorem RowChange.wasMarked {action : Action J T V} {id : AttemptId J T}
    {old new : TaskInstance J T V} (hchange : RowChange dagFor plane action id old new)
    (hcancel : ∀ job, action ≠ .task (.cancelLive job))
    (hcommit : ¬ ClearCommits plane action) : WasMarked old new := by
  cases hchange with
  | same => exact WasMarked.of_same rfl rfl rfl
  | statement statement =>
      apply TaskStatement.wasMarked
      intro job hsame
      exact hcancel job (hsame ▸ rfl)
  | claimLaunch | claimControl | archiveRestarted | advance => exact WasMarked.of_unmarked rfl
  | archiveTry id failure => exact WasMarked.of_unmarked (isMarked_toTaskState _)
  | verdict snapshot action node id read row hexecutor haction =>
      obtain ⟨idx, decision⟩ := action
      cases decision with
      | schedule => exact WasMarked.of_unmarked rfl
      | propagate state =>
          exact WasMarked.of_unmarked (isMarked_of_isPropagated (isPropagated_of_mem_pass haction))
  | clear job now clear archived id row hclear harchived hcommits => exact absurd hcommits hcommit
  | finish podUid skipped =>
      apply WasMarked.of_unmarked
      cases skipped <;> rfl

/-- An added row is not marked. -/
theorem RowInsert.unmarked {action : Action J T V} {id : AttemptId J T}
    {new : TaskInstance J T V} (hinsert : RowInsert dagFor plane action id new) :
    new.state.isMarked = false := by
  cases hinsert <;> rfl

/-- The step of `cancel_live`. -/
theorem marked_cancelLive (job : J) {id : AttemptId J T} {new : TaskInstance J T V}
    (hnew : (plane.step render dagFor (.task (.cancelLive job))).ledger.tasks[id]? = some new)
    (hlive : new.live = true) (hmarked : new.state.isMarked = true) :
    ∃ old, plane.ledger.tasks[id]? = some old ∧ new.hasJob = old.hasJob ∧
      (old.live = true ∧ old.state.isMarked = true ∨
        Marks plane (.task (.cancelLive job)) id old) := by
  rw [ControlPlane.step] at hnew
  split at hnew
  · next hissued =>
      obtain ⟨old, hold, hsame | ⟨hfree, hhit, hset⟩⟩ := runTask_cases hnew
      · subst hsame
        exact ⟨new, hold, rfl, .inl ⟨hlive, hmarked⟩⟩
      · subst hset
        exact ⟨old, hold, rfl, .inr ⟨hissued, hfree, hhit⟩⟩
  · exact ⟨new, hnew, rfl, .inl ⟨hlive, hmarked⟩⟩

/-- A row that is marked after a step was marked before it, or the step marked it. -/
theorem marked_step (action : Action J T V) {id : AttemptId J T} {new : TaskInstance J T V}
    (hnew : (plane.step render dagFor action).ledger.tasks[id]? = some new)
    (hlive : new.live = true) (hmarked : new.state.isMarked = true) :
    ∃ old, plane.ledger.tasks[id]? = some old ∧ new.hasJob = old.hasJob ∧
      (old.live = true ∧ old.state.isMarked = true ∨ Marks plane action id old) := by
  by_cases hcancel : ∃ job, action = .task (.cancelLive job)
  · obtain ⟨job, rfl⟩ := hcancel
    exact marked_cancelLive job hnew hlive hmarked
  have hother (job : J) : action ≠ .task (.cancelLive job) := fun hsame => hcancel ⟨job, hsame⟩
  rcases rowStep plane action hnew with ⟨old, hold, hchange⟩ | ⟨_, hinsert⟩
  · refine ⟨old, hold, ?_⟩
    by_cases hcommit : ClearCommits plane action
    · cases hchange with
      | clear job now clear archived id row hclear =>
          rcases clearRow_cases job clear archived id old with
            ⟨hmem, hhit, hrow⟩ | ⟨_, _, hrow⟩ | ⟨_, hrow⟩ | ⟨hrow, _⟩
          · rw [hrow]
            exact ⟨rfl, .inr ⟨hcommit, clear, hclear, hmem, hhit⟩⟩
          · rw [hrow] at hlive
            cases hlive
          · rw [hrow] at hmarked
            cases hmarked
          · rw [hrow] at hlive hmarked ⊢
            exact ⟨rfl, .inl ⟨hlive, hmarked⟩⟩
      | same _ _ _ hnot => exact absurd hcommit hnot
      | _ => cases hcommit
    · obtain ⟨holdLive, holdMarked, hjob⟩ := hchange.wasMarked hother hcommit hlive hmarked
      exact ⟨hjob, .inl ⟨holdLive, holdMarked⟩⟩
  · rw [hinsert.unmarked] at hmarked
    cases hmarked

/-- What a step marks is marked after it. -/
theorem marks_step (render : T → String) (dagFor : J → Dag T) {action : Action J T V}
    {id : AttemptId J T} {row : TaskInstance J T V}
    (hrow : plane.ledger.tasks[id]? = some row) (hmarks : Marks plane action id row) :
    ∃ new, (plane.step render dagFor action).ledger.tasks[id]? = some new ∧ new.live = true ∧
      new.state.isMarked = true ∧ new.hasJob = row.hasJob := by
  unfold Marks at hmarks
  split at hmarks
  · next job now =>
      obtain ⟨hcommit, clear, hclear, hmem, hhit⟩ := hmarks
      rcases commitClear_cases render dagFor plane job now with
        ⟨_, hnot⟩ | ⟨other, archived, later, hopen, _, hlater, hstep⟩
      · exact absurd hcommit hnot
      · rw [hclear, Option.some.injEq] at hopen
        subst hopen
        have hset : clearRow job clear archived id row =
            (restartCleared job clear.taskIds clear.resourceClass).set id row := by
          rw [clearRow, if_pos]
          rw [Bool.and_eq_true]
          exact ⟨List.contains_iff_mem.mpr hmem, hhit⟩
        refine ⟨clearRow job clear archived id row, ?_, ?_⟩
        · rw [hstep]
          exact (clearTasks_spec hlater).rows id row hrow
        · rw [hset]
          exact ⟨(restartCleared_hit.mp hhit).2.1, rfl, rfl⟩
  · next job =>
      obtain ⟨hissued, hfree, hhit⟩ := hmarks
      refine ⟨(cancelLive job).set id row, ?_, ?_, rfl, rfl⟩
      · rw [ControlPlane.step, if_pos hissued]
        rw [TaskStatement.update, getElem?_runTask hfree hrow, Update.row]
        exact congrArg some (if_pos hhit)
      · exact (onLiveOf_hit.mp hhit).2.1
  · exact hmarks.elim

/-- What holds of a control row: it is never queued, and has no Job name. -/
def TaskInstance.IsPlain (row : TaskInstance J T V) : Prop :=
  row.kind = .control → row.state ≠ .queued ∧ row.k8sJobName = none

omit [LinearOrder J] [LinearOrder T] in
theorem runsControl_iff {row : TaskInstance J T V} :
    row.runsControl = true ↔ row.live = true ∧ row.kind = .control ∧ row.state = .running := by
  rw [TaskInstance.runsControl, Bool.and_eq_true, Bool.and_eq_true, beq_iff_eq, beq_iff_eq,
    and_assoc]

theorem TaskStatement.isPlain {statement : TaskStatement J T V} {id : AttemptId J T}
    {row : TaskInstance J T V} (hplain : row.IsPlain) : (statement.update.set id row).IsPlain := by
  cases statement with
  | finish _ _ skipped | finishControl _ _ skipped =>
      intro hkind
      refine ⟨?_, (hplain hkind).2⟩
      cases skipped <;> exact TaskState.noConfusion
  | start | cancelPending | cancelLive | settleCanceled =>
      intro hkind
      exact ⟨TaskState.noConfusion, (hplain hkind).2⟩
  | requeueLaunch | capacityWait =>
      intro _
      exact ⟨TaskState.noConfusion, rfl⟩
  | noteInterruption | recordEvidence | adopt => exact hplain

/-- Control rows stay plain. -/
theorem RowChange.isPlain {action : Action J T V} {id : AttemptId J T}
    {old new : TaskInstance J T V} (hchange : RowChange dagFor plane action id old new)
    (hplain : old.IsPlain) : new.IsPlain := by
  cases hchange with
  | same => exact hplain
  | statement statement => exact TaskStatement.isPlain hplain
  | claimLaunch ownerEpoch k8sJobName now inFlightCap id row hclaimable =>
      intro hkind
      simp only [launchClaimable, Bool.and_eq_true, beq_iff_eq] at hclaimable
      rw [show old.kind = .control from hkind] at hclaimable
      cases hclaimable.1.1.1.1.1.2
  | claimControl | archiveRestarted =>
      intro hkind
      exact ⟨TaskState.noConfusion, (hplain hkind).2⟩
  | archiveTry id failure =>
      intro hkind
      refine ⟨?_, (hplain hkind).2⟩
      show failure.terminalState.toTaskState ≠ .queued
      cases failure.terminalState <;> exact TaskState.noConfusion
  | verdict snapshot action node id read row hexecutor haction =>
      obtain ⟨idx, decision⟩ := action
      cases decision with
      | schedule =>
          intro hkind
          exact ⟨TaskState.noConfusion, (hplain hkind).2⟩
      | propagate state =>
          have hpropagated := isPropagated_of_mem_pass haction
          intro hkind
          refine ⟨?_, (hplain hkind).2⟩
          show state ≠ .queued
          cases state <;> first | exact TaskState.noConfusion | cases hpropagated
  | clear job now clear archived =>
      rcases clearRow_cases job clear archived id old with
        ⟨_, _, hrow⟩ | ⟨_, _, hrow⟩ | ⟨_, hrow⟩ | ⟨hrow, _⟩
      · rw [hrow]
        intro hkind
        exact ⟨TaskState.noConfusion, (hplain hkind).2⟩
      · rw [hrow]
        exact hplain
      · rw [hrow]
        intro hkind
        exact ⟨TaskState.noConfusion, (hplain hkind).2⟩
      · rw [hrow]
        exact hplain
  | finish podUid skipped =>
      intro hkind
      refine ⟨?_, (hplain hkind).2⟩
      cases skipped <;> exact TaskState.noConfusion
  | advance finishedId podUid skipped outcome output exitCode args done id row hfree hdone hfinish
      hhit =>
      intro hkind
      have hcondition := (onLive_hit.mp hhit).2.2
      simp only [Bool.and_eq_true, beq_iff_eq] at hcondition
      rw [show old.kind = .control from hkind] at hcondition
      cases hcondition.1.1.1.1.1

theorem RowInsert.isPlain {action : Action J T V} {id : AttemptId J T}
    {new : TaskInstance J T V} (hinsert : RowInsert dagFor plane action id new) :
    new.IsPlain := by
  cases hinsert <;> exact fun _ => ⟨TaskState.noConfusion, rfl⟩

theorem RowInsert.runsControl {action : Action J T V} {id : AttemptId J T}
    {new : TaskInstance J T V} (hinsert : RowInsert dagFor plane action id new) :
    new.runsControl = false := by
  rw [← Bool.not_eq_true, runsControl_iff]
  intro hruns
  cases hinsert <;> cases hruns.2.2

/-- If the row runs a control body now, it ran one before, under the same epoch. -/
def RanControl (old new : TaskInstance J T V) : Prop :=
  new.runsControl = true → old.runsControl = true ∧ new.ownerEpoch = old.ownerEpoch

omit [LinearOrder J] [LinearOrder T] in
theorem RanControl.of_state {old new : TaskInstance J T V} (hstate : new.state ≠ .running) :
    RanControl old new := by
  intro hruns
  exact absurd (runsControl_iff.mp hruns).2.2 hstate

theorem TaskStatement.ranControl {statement : TaskStatement J T V} {id : AttemptId J T}
    {row : TaskInstance J T V} (hplain : row.IsPlain)
    (hadopt : ∀ epoch, statement ≠ .adopt epoch) (hhit : statement.update.hit id row = true) :
    RanControl row (statement.update.set id row) := by
  cases statement with
  | start =>
      intro hruns
      have hqueued := (onLive_hit.mp hhit).2.2
      simp only [Bool.and_eq_true, beq_iff_eq] at hqueued
      exact absurd hqueued.1 (hplain (runsControl_iff.mp hruns).2.1).1
  | finish _ _ skipped | finishControl _ _ skipped =>
      apply RanControl.of_state
      cases skipped <;> exact TaskState.noConfusion
  | cancelPending | cancelLive | settleCanceled | requeueLaunch | capacityWait =>
      exact RanControl.of_state TaskState.noConfusion
  | noteInterruption | recordEvidence => exact fun hruns => ⟨hruns, rfl⟩
  | adopt epoch => exact absurd rfl (hadopt epoch)

/-- Outside control claims and adoption, no change starts a control body. -/
theorem RowChange.ranControl {action : Action J T V} {id : AttemptId J T}
    {old new : TaskInstance J T V} (hchange : RowChange dagFor plane action id old new)
    (hplain : old.IsPlain) (hclaim : ∀ epoch now, action ≠ .claimControl epoch now)
    (hadopt : ∀ epoch, action ≠ .task (.adopt epoch)) : RanControl old new := by
  cases hchange with
  | same => exact fun hruns => ⟨hruns, rfl⟩
  | statement statement _ _ _ _ hhit =>
      apply TaskStatement.ranControl hplain _ hhit
      intro epoch hsame
      exact hadopt epoch (hsame ▸ rfl)
  | claimLaunch | archiveRestarted => exact RanControl.of_state TaskState.noConfusion
  | claimControl epoch now => exact absurd rfl (hclaim epoch now)
  | archiveTry id failure =>
      apply RanControl.of_state
      show failure.terminalState.toTaskState ≠ .running
      cases failure.terminalState <;> exact TaskState.noConfusion
  | verdict snapshot action node id read row hexecutor haction =>
      obtain ⟨idx, decision⟩ := action
      cases decision with
      | schedule => exact RanControl.of_state TaskState.noConfusion
      | propagate state =>
          have hpropagated := isPropagated_of_mem_pass haction
          apply RanControl.of_state
          show state ≠ .running
          cases state <;> first | exact TaskState.noConfusion | cases hpropagated
  | clear job now clear archived =>
      rcases clearRow_cases job clear archived id old with
        ⟨_, _, hrow⟩ | ⟨_, _, hrow⟩ | ⟨_, hrow⟩ | ⟨hrow, _⟩
      · rw [hrow]
        exact RanControl.of_state TaskState.noConfusion
      · rw [hrow]
        intro hruns
        cases (runsControl_iff.mp hruns).1
      · rw [hrow]
        exact RanControl.of_state TaskState.noConfusion
      · rw [hrow]
        exact fun hruns => ⟨hruns, rfl⟩
  | finish podUid skipped =>
      apply RanControl.of_state
      cases skipped <;> exact TaskState.noConfusion
  | advance finishedId podUid skipped outcome output exitCode args done id row hfree hdone hfinish
      hhit =>
      intro hruns
      have hcondition := (onLive_hit.mp hhit).2.2
      simp only [Bool.and_eq_true, beq_iff_eq] at hcondition
      rw [show old.kind = .control from (runsControl_iff.mp hruns).2.1] at hcondition
      cases hcondition.1.1.1.1.1

end Rows

/-! ## Runs of the dispatcher -/

section Runs

variable {render : T → String} {dagFor : J → Dag T} {dispatcher : Dispatcher J T V}

/-- What holds of every state: the tries are sound, control rows are plain, a process executes
nothing before it has adopted the rows, and it finishes its body under the epoch of the row. -/
structure Dispatcher.Sound (dagFor : J → Dag T) (dispatcher : Dispatcher J T V) : Prop where
  tries : TriesSound dagFor dispatcher.plane.ledger
  plain : ∀ (id : AttemptId J T) row, dispatcher.plane.ledger.tasks[id]? = some row → row.IsPlain
  idle : dispatcher.adopted = false → dispatcher.body = none
  epoch : ∀ id epoch row, dispatcher.body = some (id, epoch) →
    dispatcher.plane.ledger.tasks[id]? = some row → row.runsControl = true →
    row.ownerEpoch = some epoch

/-- A running control row is not claimable, so the process executes it. -/
theorem Dispatcher.NothingHangs.executes (hhangs : dispatcher.NothingHangs)
    (hadopted : dispatcher.adopted = true) {id : AttemptId J T} {row : TaskInstance J T V}
    (hrow : dispatcher.plane.ledger.tasks[id]? = some row) (hruns : row.runsControl = true) :
    ∃ epoch, dispatcher.body = some (id, epoch) := by
  rcases hhangs.running hadopted id row hrow hruns with hexecutes | ⟨now, hclaimable⟩
  · exact hexecutes
  · simp only [controlClaimable, Bool.and_eq_true] at hclaimable
    rw [(runsControl_iff.mp hruns).2.2] at hclaimable
    cases hclaimable.1.1.2

/-- A statement that marks no row, and keeps control rows plain. -/
structure Harmless (update : TaskUpdate J T V) : Prop where
  live : ∀ id row, (update.set id row).live = row.live
  plain : ∀ id row, row.IsPlain → (update.set id row).IsPlain
  marked : ∀ id row, WasMarked row (update.set id row)

/-- A harmless statement that leaves no control row running that it hits. -/
structure Idles (update : TaskUpdate J T V) : Prop extends Harmless update where
  control : ∀ id row, update.hit id row = true → row.IsPlain →
    (update.set id row).runsControl = false

omit [LinearOrder J] [LinearOrder T] in
theorem runsControl_of_state {row : TaskInstance J T V} (hstate : row.state ≠ .running) :
    row.runsControl = false := by
  rw [← Bool.not_eq_true, runsControl_iff]
  intro hruns
  exact hstate hruns.2.2

omit [LinearOrder J] [LinearOrder T] in
theorem harmless_adopt (ownerEpoch : String) :
    Harmless (adopt ownerEpoch : TaskUpdate J T V) where
  live _ _ := rfl
  plain _ _ hplain := hplain
  marked _ _ := WasMarked.of_same rfl rfl rfl

theorem idles_markScheduled (jobs : JobTable J V) (id : AttemptId J T) (input : WorkInput T V)
    (number : ℕ) : Idles (markScheduled jobs id input number) where
  live _ _ := rfl
  plain _ _ hplain := fun hkind => ⟨TaskState.noConfusion, (hplain hkind).2⟩
  marked _ _ := WasMarked.of_unmarked rfl
  control _ _ _ _ := runsControl_of_state TaskState.noConfusion

theorem idles_startInproc (id : AttemptId J T) (podUid : String) :
    Idles (startInproc id podUid : TaskUpdate J T V) where
  live _ _ := rfl
  plain _ _ hplain := fun hkind => ⟨TaskState.noConfusion, (hplain hkind).2⟩
  marked _ _ := WasMarked.of_unmarked rfl
  control _ row hhit hplain := by
    rw [← Bool.not_eq_true, runsControl_iff]
    intro hruns
    have hqueued := (onLive_hit.mp hhit).2.2
    simp only [Bool.and_eq_true, beq_iff_eq] at hqueued
    exact (hplain hruns.2.1).1 hqueued.1

theorem idles_propagate (jobs : JobTable J V) (id : AttemptId J T) {state : TaskState}
    (number : ℕ) (hstate : state.isPropagated = true) :
    Idles (propagate jobs id state number) where
  live _ _ := rfl
  plain _ _ hplain := by
    intro hkind
    refine ⟨?_, (hplain hkind).2⟩
    show state ≠ .queued
    cases state <;> first | exact TaskState.noConfusion | cases hstate
  marked _ _ := WasMarked.of_unmarked (isMarked_of_isPropagated hstate)
  control _ _ _ _ := by
    apply runsControl_of_state
    show state ≠ .running
    cases state <;> first | exact TaskState.noConfusion | cases hstate

theorem idles_finishControl (id : AttemptId J T) (ownerEpoch : String) (skipped : Bool)
    (outcome : Outcome) (output : Option V) :
    Idles (finishControl id ownerEpoch skipped outcome output) where
  live _ _ := rfl
  plain _ _ hplain := by
    intro hkind
    refine ⟨?_, (hplain hkind).2⟩
    cases skipped <;> exact TaskState.noConfusion
  marked _ _ := by
    apply WasMarked.of_unmarked
    cases skipped <;> rfl
  control _ _ _ _ := by
    apply runsControl_of_state
    cases skipped <;> exact TaskState.noConfusion

section Statement

variable {plane : ControlPlane J T V} {update : TaskUpdate J T V}

theorem Harmless.tries (hharmless : Harmless update) (hsound : TriesSound dagFor plane.ledger) :
    TriesSound dagFor (plane.runTask update).ledger := by
  rw [ControlPlane.runTask]
  split
  · exact hsound
  · have hcarried : CarriesTries plane.ledger.tasks (update.run plane.ledger.tasks) := by
      apply carriesTries_run
      intro id row _ _
      exact hharmless.live id row
    refine hsound.keeps ?_ hcarried.toKeepsTries
    intro job
    rfl

theorem Harmless.isPlain (hharmless : Harmless update)
    (hplain : ∀ (id : AttemptId J T) row, plane.ledger.tasks[id]? = some row → row.IsPlain)
    {id : AttemptId J T} {new : TaskInstance J T V}
    (hnew : (plane.runTask update).ledger.tasks[id]? = some new) : new.IsPlain := by
  obtain ⟨old, hold, hsame | ⟨_, _, hset⟩⟩ := runTask_cases hnew
  · rw [hsame]
    exact hplain id old hold
  · rw [hset]
    exact hharmless.plain id old (hplain id old hold)

theorem Harmless.markedHaveJobs (hharmless : Harmless update)
    (hjobs : MarkedHaveJobs plane.ledger.tasks) :
    MarkedHaveJobs (plane.runTask update).ledger.tasks := by
  intro id new hnew hlive hmarked
  obtain ⟨old, hold, hsame | ⟨_, _, hset⟩⟩ := runTask_cases hnew
  · subst hsame
    exact hjobs id new hold hlive hmarked
  · subst hset
    obtain ⟨holdLive, holdMarked, hjob⟩ := hharmless.marked id old hlive hmarked
    rw [hjob]
    exact hjobs id old hold holdLive holdMarked

/-- After an idling statement, a running control row is one that the statement left alone. -/
theorem Idles.unchanged (hidles : Idles update)
    (hplain : ∀ (id : AttemptId J T) row, plane.ledger.tasks[id]? = some row → row.IsPlain)
    {id : AttemptId J T} {new : TaskInstance J T V}
    (hnew : (plane.runTask update).ledger.tasks[id]? = some new)
    (hruns : new.runsControl = true) : plane.ledger.tasks[id]? = some new := by
  obtain ⟨old, hold, hsame | ⟨_, hhit, hset⟩⟩ := runTask_cases hnew
  · rw [hsame]
    exact hold
  · rw [hset, hidles.control id old hhit (hplain id old hold)] at hruns
    cases hruns

end Statement

/-- A reporter's statement leaves nothing hanging. -/
theorem Idles.nothingHangs {update : TaskUpdate J T V} (hidles : Idles update)
    (hsound : dispatcher.Sound dagFor) (hhangs : dispatcher.NothingHangs) :
    Dispatcher.NothingHangs
      { dispatcher with plane := dispatcher.plane.runTask update } where
  marked := hidles.markedHaveJobs hhangs.marked
  running hadopted _ _ hrow hruns :=
    .inl (hhangs.executes hadopted (hidles.unchanged hsound.plain hrow hruns) hruns)

omit [LinearOrder J] [LinearOrder T] in
theorem ne_claimControl_of_isOwn {action : Action J T V} (hown : action.isOwn = false)
    (epoch : String) (now : ℤ) : action ≠ .claimControl epoch now := by
  intro hsame
  rw [hsame] at hown
  cases hown

omit [LinearOrder J] [LinearOrder T] in
theorem ne_adopt_of_isOwn {action : Action J T V} (hown : action.isOwn = false)
    (epoch : String) : action ≠ .task (.adopt epoch) := by
  intro hsame
  rw [hsame] at hown
  cases hown

/-- What a step of the plane leaves running was running before, under the same epoch. -/
theorem ranControl_step (render : T → String) (hsound : dispatcher.Sound dagFor)
    {action : Action J T V}
    (hclaim : ∀ epoch now, action ≠ .claimControl epoch now)
    (hadopt : ∀ epoch, action ≠ .task (.adopt epoch)) {id : AttemptId J T}
    {new : TaskInstance J T V}
    (hnew : (dispatcher.plane.step render dagFor action).ledger.tasks[id]? = some new)
    (hruns : new.runsControl = true) :
    ∃ old, dispatcher.plane.ledger.tasks[id]? = some old ∧ old.runsControl = true ∧
      new.ownerEpoch = old.ownerEpoch := by
  rcases rowStep dispatcher.plane action hnew with ⟨old, hold, hchange⟩ | ⟨_, hinsert⟩
  · obtain ⟨hran, hepoch⟩ := hchange.ranControl (hsound.plain id old hold) hclaim hadopt hruns
    exact ⟨old, hold, hran, hepoch⟩
  · rw [hinsert.runsControl] at hruns
    cases hruns

/-- What a control claim leaves running was running before, or is the row it picked. -/
theorem claimControl_step (render : T → String) (dagFor : J → Dag T)
    {plane : ControlPlane J T V} {epoch : String} {now : ℤ} {id : AttemptId J T}
    {new : TaskInstance J T V}
    (hnew : (plane.step render dagFor (.claimControl epoch now)).ledger.tasks[id]? = some new)
    (hruns : new.runsControl = true) :
    plane.ledger.tasks[id]? = some new ∨
      plane.picked (.claimControl epoch now) = some id ∧ new.ownerEpoch = some epoch := by
  rcases rowStep plane (.claimControl epoch now) hnew with ⟨old, hold, hchange⟩ | ⟨_, hinsert⟩
  · cases hchange with
    | same => exact .inl hold
    | claimControl _ _ _ _ _ _ hpick => exact .inr ⟨hpick, rfl⟩
  · rw [hinsert.runsControl] at hruns
    cases hruns

/-- Statements other than clears and cancels keep the marked rows. -/
theorem markedHaveJobs_step {plane : ControlPlane J T V} {action : Action J T V}
    (hjobs : MarkedHaveJobs plane.ledger.tasks)
    (hmarks : ∀ (id : AttemptId J T) row, plane.ledger.tasks[id]? = some row →
      Marks plane action id row → row.hasJob = true) :
    MarkedHaveJobs (plane.step render dagFor action).ledger.tasks := by
  intro id new hnew hlive hmarked
  obtain ⟨old, hold, hjob, ⟨holdLive, holdMarked⟩ | hmark⟩ := marked_step action hnew hlive hmarked
  · rw [hjob]
    exact hjobs id old hold holdLive holdMarked
  · rw [hjob]
    exact hmarks id old hold hmark

/-- An accepted failure ends the row. -/
theorem failOrRetry_accepted {plane : ControlPlane J T V} (hsound : TriesSound dagFor plane.ledger)
    {id : AttemptId J T} {failure : TaskFailure J T} {now hash : ℤ} {row new : TaskInstance J T V}
    (hfree : plane.rowLocked id = false) (hrow : plane.ledger.tasks[id]? = some row)
    (hhit : (archiveTry plane.ledger.jobs id failure).hit id row = true)
    (hnew : (plane.step render dagFor (.failOrRetry id failure now hash)).ledger.tasks[id]? =
      some new) : new.runsControl = false := by
  have hended : ((archiveTry plane.ledger.jobs id failure).set id row).runsControl = false := by
    apply runsControl_of_state
    show failure.terminalState.toTaskState ≠ .running
    cases failure.terminalState <;> exact TaskState.noConfusion
  have harchived : ((archiveTry plane.ledger.jobs id failure).run plane.ledger.tasks)[id]? =
      some ((archiveTry plane.ledger.jobs id failure).set id row) := by
    rw [Update.getElem?_run, hrow, Option.map_some, Update.row, if_pos hhit]
  have hstep : (plane.step render dagFor (.failOrRetry id failure now hash)).ledger.tasks =
      failOrRetryTask plane.ledger id failure now hash := by
    rw [ControlPlane.step, hfree]
    rfl
  rw [hstep, failOrRetryTask, hrow] at hnew
  simp only [hhit, if_true] at hnew
  split at hnew
  · next hretries =>
      rw [insertRetryTry_eq_some hsound.numbered hrow hhit hretries, Option.getD_some,
        BTreeMap.getElem?_insert_eq_ite, if_neg, harchived, Option.some.injEq] at hnew
      · rw [← hnew]
        exact hended
      · intro hsame
        exact absurd (congrArg AttemptId.tryNumber hsame) (Nat.succ_ne_self id.tryNumber)
  · rw [harchived, Option.some.injEq] at hnew
    rw [← hnew]
    exact hended

/-- A refused failure changes nothing. -/
theorem failOrRetry_refused {plane : ControlPlane J T V} {id : AttemptId J T}
    {failure : TaskFailure J T} {now hash : ℤ} {row : TaskInstance J T V}
    (hrow : plane.ledger.tasks[id]? = some row)
    (hmiss : (archiveTry plane.ledger.jobs id failure).hit id row = false) :
    (plane.step render dagFor (.failOrRetry id failure now hash)).ledger.tasks =
      plane.ledger.tasks := by
  rw [ControlPlane.step]
  split
  · rfl
  · show failOrRetryTask plane.ledger id failure now hash = plane.ledger.tasks
    rw [failOrRetryTask, hrow]
    simp only [hmiss]
    rfl

/-- `archive_try` accepts the failure of a control body when the job allows the row. -/
theorem archiveTry_control {jobs : JobTable J V} {id : AttemptId J T} {failure : TaskFailure J T}
    {row : TaskInstance J T V} (hplain : row.IsPlain) (hruns : row.runsControl = true) :
    (archiveTry jobs id failure.control).hit id row = jobAllows jobs id row := by
  obtain ⟨hlive, hkind, hstate⟩ := runsControl_iff.mp hruns
  simp [archiveTry, TaskFailure.control, hlive, hstate, (hplain hkind).2, TaskState.isClaimed]

theorem nothingHangs_bodyFailed (hsound : dispatcher.Sound dagFor)
    (hhangs : dispatcher.NothingHangs) (failure : TaskFailure J T) (now hash : ℤ) :
    (dispatcher.step render dagFor (.bodyFailed failure now hash)).NothingHangs ↔
      LeavesNothingHanging dispatcher (.bodyFailed failure now hash) := by
  rw [Dispatcher.step, LeavesNothingHanging]
  cases hbody : dispatcher.body with
  | none => exact iff_of_true hhangs fun _ _ _ hsome => nomatch hsome
  | some entry =>
      obtain ⟨id, epoch⟩ := entry
      dsimp only
      split
      · next hlocked =>
          apply iff_of_true hhangs
          intro other _ _ hsame hfree
          cases hsame
          rw [hlocked] at hfree
          cases hfree
      · next hfree =>
          rw [Bool.not_eq_true] at hfree
          have hadopted : dispatcher.adopted = true := by
            rw [← Bool.not_eq_false]
            intro hnot
            rw [hsound.idle hnot] at hbody
            cases hbody
          have hmarked : MarkedHaveJobs (dispatcher.plane.step render dagFor
              (.failOrRetry id failure.control now hash)).ledger.tasks :=
            markedHaveJobs_step hhangs.marked fun _ _ _ hmark => hmark.elim
          apply Iff.intro
          · intro hlater other _ row hsame _ hrow hruns
            cases hsame
            rw [← Bool.not_eq_false]
            intro hrefused
            rw [← archiveTry_control (hsound.plain id row hrow) hruns] at hrefused
            have hkept : (dispatcher.plane.step render dagFor
                (.failOrRetry id failure.control now hash)).ledger.tasks[id]? = some row := by
              rw [failOrRetry_refused hrow hrefused]
              exact hrow
            obtain ⟨_, hexecutes⟩ := hlater.executes hadopted hkept hruns
            cases hexecutes
          · intro haccepts
            refine ⟨hmarked, ?_⟩
            intro _ k new hnew hruns
            change (dispatcher.plane.step render dagFor
              (.failOrRetry id failure.control now hash)).ledger.tasks[k]? = some new at hnew
            obtain ⟨old, hold, hran, _⟩ := ranControl_step render hsound
              (ne_claimControl_of_isOwn rfl) (ne_adopt_of_isOwn rfl) hnew hruns
            obtain ⟨_, hexecutes⟩ := hhangs.executes hadopted hold hran
            rw [hbody] at hexecutes
            cases hexecutes
            have hhit : (archiveTry dispatcher.plane.ledger.jobs id failure.control).hit id old =
                true := by
              rw [archiveTry_control (hsound.plain id old hold) hran]
              exact haccepts id epoch old rfl hfree hold hran
            rw [failOrRetry_accepted hsound.tries hfree hold hhit hnew] at hruns
            cases hruns

theorem nothingHangs_adopt (hsound : dispatcher.Sound dagFor)
    (hhangs : dispatcher.NothingHangs) :
    (dispatcher.step render dagFor .adopt).NothingHangs ↔
      LeavesNothingHanging dispatcher .adopt := by
  rw [Dispatcher.step, LeavesNothingHanging]
  split
  · next hrefused =>
      rw [Bool.or_eq_true] at hrefused
      apply iff_of_true hhangs
      rcases hrefused with hadopted | hwaits
      · exact .inl hadopted
      · exact .inr (.inl hwaits)
  · next hadopts =>
      simp only [Bool.or_eq_true, not_or, Bool.not_eq_true] at hadopts
      obtain ⟨hadopted, hfree⟩ := hadopts
      apply Iff.intro
      · intro hlater
        right; right
        intro id row hrow
        rw [← Bool.not_eq_true]
        intro hruns
        have hnew := getElem?_runTask hfree hrow
        have hkept : ((Executor.adopt dispatcher.epoch).row id row).runsControl = true := by
          rw [Update.row]
          split
          · exact hruns
          · exact hruns
        obtain ⟨_, hexecutes⟩ := hlater.executes rfl hnew hkept
        rw [show dispatcher.body = none from hsound.idle hadopted] at hexecutes
        cases hexecutes
      · intro hnone
        rcases hnone with htrue | htrue | hnone
        · rw [hadopted] at htrue
          cases htrue
        · rw [hfree] at htrue
          cases htrue
        · refine ⟨(harmless_adopt dispatcher.epoch).markedHaveJobs hhangs.marked, ?_⟩
          intro _ id new hnew hruns
          obtain ⟨old, hold, hsame | ⟨_, _, hset⟩⟩ := runTask_cases hnew
          · rw [hsame, hnone id old hold] at hruns
            cases hruns
          · subst hset
            have hran : old.runsControl = true := hruns
            rw [hnone id old hold] at hran
            cases hran

/-- A control claim of the executor executes what it takes. -/
theorem nothingHangs_controlPass (hhangs : dispatcher.NothingHangs) (now : ℤ) :
    (dispatcher.step render dagFor (.controlPass now)).NothingHangs := by
  rw [Dispatcher.step]
  split
  · next hidle =>
      rw [Bool.and_eq_true, Option.isNone_iff_eq_none] at hidle
      constructor
      · exact markedHaveJobs_step hhangs.marked fun _ _ _ hmark => hmark.elim
      · intro _ id new hnew hruns
        rcases claimControl_step render dagFor hnew hruns with hold | ⟨hpick, _⟩
        · obtain ⟨_, hexecutes⟩ := hhangs.executes hidle.1 hold hruns
          rw [hidle.2] at hexecutes
          cases hexecutes
        · exact .inl ⟨dispatcher.epoch, by rw [hpick]; rfl⟩
  · exact hhangs

/-- The row that a control claim picks runs after it. -/
theorem runsControl_of_picked (render : T → String) (dagFor : J → Dag T)
    {plane : ControlPlane J T V} {epoch : String} {now : ℤ} {id : AttemptId J T}
    (hpick : plane.picked (.claimControl epoch now) = some id) :
    ∃ new, (plane.step render dagFor (.claimControl epoch now)).ledger.tasks[id]? = some new ∧
      new.runsControl = true := by
  have hselected : pickClaim plane.ledger plane.rowLocked (controlClaimable plane.ledger now) =
      some id := hpick
  obtain ⟨_, row, hrow, hclaimable⟩ := pickClaim_some hselected
  simp only [controlClaimable, Bool.and_eq_true, beq_iff_eq] at hclaimable
  refine ⟨(claimControl id epoch).set id row, ?_, ?_⟩
  · rw [ControlPlane.step, ControlPlane.claim, hselected]
    apply Update.getElem?_run_eq_some_iff.mpr
    refine ⟨row, hrow, ?_⟩
    rw [Update.row, if_pos]
    exact decide_eq_true rfl
  · exact runsControl_iff.mpr ⟨hclaimable.1.1.1.1, hclaimable.1.1.1.2, rfl⟩

theorem nothingHangs_controlReported (hhangs : dispatcher.NothingHangs) (id : AttemptId J T)
    (now : ℤ) :
    (dispatcher.step render dagFor (.controlReported id now)).NothingHangs ↔
      LeavesNothingHanging dispatcher (.controlReported id now) := by
  rw [Dispatcher.step, LeavesNothingHanging]
  split
  · next hmay =>
      have hadopted : dispatcher.adopted = true ∧
          dispatcher.body.all (· == (id, dispatcher.reporterEpoch)) = true := by
        rw [Dispatcher.mayReport, Bool.and_eq_true] at hmay
        exact hmay
      apply Iff.intro
      · intro hlater _ other hpick
        obtain ⟨new, hnew, hruns⟩ := runsControl_of_picked render dagFor hpick
        obtain ⟨_, hexecutes⟩ := hlater.executes hadopted.1 hnew hruns
        cases hexecutes
        rfl
      · intro htakes
        constructor
        · exact markedHaveJobs_step hhangs.marked fun _ _ _ hmark => hmark.elim
        · intro _ other new hnew hruns
          rcases claimControl_step render dagFor hnew hruns with hold | ⟨hpick, _⟩
          · obtain ⟨epoch, hexecutes⟩ := hhangs.executes hadopted.1 hold hruns
            have hsame := hadopted.2
            rw [hexecutes, Option.all_some, beq_iff_eq, Prod.mk.injEq] at hsame
            exact .inl ⟨dispatcher.reporterEpoch, by rw [hsame.1]⟩
          · exact .inl ⟨dispatcher.reporterEpoch, by rw [htakes hmay other hpick]⟩
  · next hmay => exact iff_of_true hhangs fun hmay' => absurd hmay' hmay

/-- A body that returned ends its row. -/
theorem nothingHangs_bodySucceeded (hsound : dispatcher.Sound dagFor)
    (hhangs : dispatcher.NothingHangs) (skipped : Bool) (outcome : Outcome) (output : Option V) :
    (dispatcher.step render dagFor (.bodySucceeded skipped outcome output)).NothingHangs := by
  rw [Dispatcher.step]
  cases hbody : dispatcher.body with
  | none => exact hhangs
  | some entry =>
      obtain ⟨id, epoch⟩ := entry
      dsimp only
      split
      · exact hhangs
      · next hfree =>
          rw [Bool.not_eq_true] at hfree
          have hidles := idles_finishControl id epoch skipped outcome output
          refine ⟨hidles.markedHaveJobs hhangs.marked, ?_⟩
          intro hadopted other new hnew hruns
          have hold := hidles.unchanged hsound.plain hnew hruns
          obtain ⟨_, hexecutes⟩ := hhangs.executes hadopted hold hruns
          rw [hbody] at hexecutes
          cases hexecutes
          -- the statement hits the row of the body, so it does not stay
          obtain ⟨hlive, hkind, hstate⟩ := runsControl_iff.mp hruns
          have hepoch := hsound.epoch id epoch new hbody hold hruns
          have hhit : (finishControl id epoch skipped outcome output).hit id new = true := by
            simp [finishControl, onLive, hlive, hkind, hstate, hepoch]
          change (dispatcher.plane.runTask (finishControl id epoch skipped outcome
            output)).ledger.tasks[id]? = some new at hnew
          rw [getElem?_runTask hfree hold, Update.row, if_pos hhit, Option.some.injEq] at hnew
          have hended := hidles.control id new hhit (hsound.plain id new hold)
          rw [hnew, hruns] at hended
          cases hended

theorem not_marks_of_isOwn {action : Action J T V} (hown : action.isOwn = true)
    {plane : ControlPlane J T V} {id : AttemptId J T} {row : TaskInstance J T V} :
    ¬ Marks plane action id row := by
  intro hmark
  unfold Marks at hmark
  split at hmark
  · cases hown
  · cases hown
  · exact hmark

theorem nothingHangs_shared (hsound : dispatcher.Sound dagFor)
    (hhangs : dispatcher.NothingHangs) (action : Action J T V) :
    (dispatcher.step render dagFor (.shared action)).NothingHangs ↔
      LeavesNothingHanging dispatcher (.shared action) := by
  rw [Dispatcher.step, LeavesNothingHanging]
  split
  · next hown => exact iff_of_true hhangs fun _ _ _ hmark => absurd hmark (not_marks_of_isOwn hown)
  · next hown =>
      rw [Bool.not_eq_true] at hown
      apply Iff.intro
      · intro hlater id row hrow hmark
        obtain ⟨new, hnew, hlive, hmarked, hjob⟩ := marks_step render dagFor hrow hmark
        rw [← hjob]
        exact hlater.marked id new hnew hlive hmarked
      · intro hmarks
        refine ⟨markedHaveJobs_step hhangs.marked hmarks, ?_⟩
        intro hadopted id new hnew hruns
        obtain ⟨old, hold, hran, _⟩ := ranControl_step render hsound
          (ne_claimControl_of_isOwn hown) (ne_adopt_of_isOwn hown) hnew hruns
        exact .inl (hhangs.executes hadopted hold hran)

/-- From a sound state in which nothing hangs, a step leaves nothing hanging exactly when it meets
the condition. -/
theorem nothingHangs_step_iff (hsound : dispatcher.Sound dagFor)
    (hhangs : dispatcher.NothingHangs) (action : DispatcherAction J T V) :
    (dispatcher.step render dagFor action).NothingHangs ↔
      LeavesNothingHanging dispatcher action := by
  cases action with
  | restart epoch reporterEpoch =>
      apply iff_of_true _ trivial
      constructor
      · exact hhangs.marked
      · intro hadopted
        cases hadopted
  | adopt => exact nothingHangs_adopt hsound hhangs
  | controlPass now => exact iff_of_true (nothingHangs_controlPass hhangs now) trivial
  | controlReported id now => exact nothingHangs_controlReported hhangs id now
  | bodySucceeded skipped outcome output =>
      exact iff_of_true (nothingHangs_bodySucceeded hsound hhangs skipped outcome output) trivial
  | bodyFailed failure now hash => exact nothingHangs_bodyFailed hsound hhangs failure now hash
  | markScheduled id input number =>
      exact iff_of_true ((idles_markScheduled _ id input number).nothingHangs hsound hhangs) trivial
  | startInproc id podUid =>
      exact iff_of_true ((idles_startInproc id podUid).nothingHangs hsound hhangs) trivial
  | settleRow id state number =>
      apply iff_of_true _ trivial
      rw [Dispatcher.step]
      split
      · next hstate => exact (idles_propagate _ id number hstate).nothingHangs hsound hhangs
      · exact hhangs
  | shared action => exact nothingHangs_shared hsound hhangs action

/-- A step of the plane keeps control rows plain. -/
theorem isPlain_step (render : T → String) (dagFor : J → Dag T) {plane : ControlPlane J T V}
    (hplain : ∀ (id : AttemptId J T) row, plane.ledger.tasks[id]? = some row → row.IsPlain)
    {action : Action J T V} {id : AttemptId J T} {new : TaskInstance J T V}
    (hnew : (plane.step render dagFor action).ledger.tasks[id]? = some new) : new.IsPlain := by
  rcases rowStep plane action hnew with ⟨old, hold, hchange⟩ | ⟨_, hinsert⟩
  · exact hchange.isPlain (hplain id old hold)
  · exact hinsert.isPlain

/-- A reporter's statement keeps the dispatcher sound. -/
theorem Idles.sound {update : TaskUpdate J T V} (hidles : Idles update)
    (hsound : dispatcher.Sound dagFor) :
    Dispatcher.Sound dagFor { dispatcher with plane := dispatcher.plane.runTask update } where
  tries := hidles.tries hsound.tries
  plain _ _ hnew := hidles.isPlain hsound.plain hnew
  idle := hsound.idle
  epoch id epoch row hbody hnew hruns :=
    hsound.epoch id epoch row hbody (hidles.unchanged hsound.plain hnew hruns) hruns

/-- A process that executes nothing is sound when its plane is. -/
theorem Dispatcher.Sound.of_idle (htries : TriesSound dagFor dispatcher.plane.ledger)
    (hplain : ∀ (id : AttemptId J T) row, dispatcher.plane.ledger.tasks[id]? = some row →
      row.IsPlain)
    (hbody : dispatcher.body = none) : dispatcher.Sound dagFor where
  tries := htries
  plain := hplain
  idle _ := hbody
  epoch _ _ _ hsome := by
    rw [hbody] at hsome
    cases hsome

/-- A control claim of an idle process executes a row under the epoch that the claim sets. -/
theorem Dispatcher.Sound.controlPass (hsound : dispatcher.Sound dagFor)
    (hhangs : dispatcher.NothingHangs) (now : ℤ) :
    (dispatcher.step render dagFor (.controlPass now)).Sound dagFor := by
  rw [Dispatcher.step]
  split
  · next hidle =>
      rw [Bool.and_eq_true, Option.isNone_iff_eq_none] at hidle
      constructor
      · exact hsound.tries.step _
      · exact fun _ _ hnew => isPlain_step render dagFor hsound.plain hnew
      · intro hnot
        rw [show dispatcher.adopted = false from hnot] at hidle
        cases hidle.1
      · intro id epoch row hbody hnew hruns
        obtain ⟨picked, _, hsame⟩ := Option.map_eq_some_iff.mp hbody
        rcases claimControl_step render dagFor hnew hruns with hold | ⟨_, hepoch⟩
        · obtain ⟨_, hexecutes⟩ := hhangs.executes hidle.1 hold hruns
          rw [hidle.2] at hexecutes
          cases hexecutes
        · rw [hepoch]
          exact congrArg some (congrArg Prod.snd hsame)
  · exact hsound

/-- So does a control claim of the reporter. -/
theorem Dispatcher.Sound.controlReported (hsound : dispatcher.Sound dagFor)
    (hhangs : dispatcher.NothingHangs) (id : AttemptId J T) (now : ℤ) :
    (dispatcher.step render dagFor (.controlReported id now)).Sound dagFor := by
  rw [Dispatcher.step]
  split
  · next hmay =>
      rw [Dispatcher.mayReport, Bool.and_eq_true] at hmay
      constructor
      · exact hsound.tries.step _
      · exact fun _ _ hnew => isPlain_step render dagFor hsound.plain hnew
      · intro hnot
        rw [show dispatcher.adopted = false from hnot] at hmay
        cases hmay.1
      · intro other epoch row hbody hnew hruns
        rw [Option.some.injEq, Prod.mk.injEq] at hbody
        rcases claimControl_step render dagFor hnew hruns with hold | ⟨_, hepoch⟩
        · obtain ⟨before, hexecutes⟩ := hhangs.executes hmay.1 hold hruns
          have hsame := hmay.2
          rw [hexecutes, Option.all_some, beq_iff_eq, Prod.mk.injEq] at hsame
          rw [hsound.epoch other before row hexecutes hold hruns, hsame.2, hbody.2]
        · rw [hepoch, hbody.2]
  · exact hsound

/-- Every step that starts where nothing hangs keeps the dispatcher sound. -/
theorem Dispatcher.Sound.step (hsound : dispatcher.Sound dagFor)
    (hhangs : dispatcher.NothingHangs) (action : DispatcherAction J T V) :
    (dispatcher.step render dagFor action).Sound dagFor := by
  cases action with
  | restart epoch reporterEpoch => exact Dispatcher.Sound.of_idle hsound.tries hsound.plain rfl
  | adopt =>
      rw [Dispatcher.step]
      split
      · exact hsound
      · next hadopts =>
          simp only [Bool.or_eq_true, not_or, Bool.not_eq_true] at hadopts
          have hharmless : Harmless (Executor.adopt dispatcher.epoch : TaskUpdate J T V) :=
            harmless_adopt dispatcher.epoch
          apply Dispatcher.Sound.of_idle
          · exact hharmless.tries hsound.tries
          · exact fun _ _ hnew => hharmless.isPlain hsound.plain hnew
          · exact hsound.idle hadopts.1
  | controlPass now => exact hsound.controlPass hhangs now
  | controlReported id now => exact hsound.controlReported hhangs id now
  | bodySucceeded skipped outcome output =>
      rw [Dispatcher.step]
      split
      · exact hsound
      · next id epoch _ =>
          dsimp only
          split
          · exact hsound
          · have hidles : Idles (finishControl id epoch skipped outcome output) :=
              idles_finishControl id epoch skipped outcome output
            apply Dispatcher.Sound.of_idle
            · exact hidles.tries hsound.tries
            · exact fun _ _ hnew => hidles.isPlain hsound.plain hnew
            · rfl
  | bodyFailed failure now hash =>
      rw [Dispatcher.step]
      split
      · exact hsound
      · split
        · exact hsound
        · apply Dispatcher.Sound.of_idle
          · exact hsound.tries.step _
          · exact fun _ _ hnew => isPlain_step render dagFor hsound.plain hnew
          · rfl
  | markScheduled id input number => exact (idles_markScheduled _ id input number).sound hsound
  | startInproc id podUid => exact (idles_startInproc id podUid).sound hsound
  | settleRow id state number =>
      rw [Dispatcher.step]
      split
      · next hstate => exact (idles_propagate _ id number hstate).sound hsound
      · exact hsound
  | shared action =>
      rw [Dispatcher.step]
      split
      · exact hsound
      · next hown =>
          rw [Bool.not_eq_true] at hown
          constructor
          · exact hsound.tries.step action
          · exact fun _ _ hnew => isPlain_step render dagFor hsound.plain hnew
          · exact hsound.idle
          · intro id epoch row hbody hnew hruns
            obtain ⟨old, hold, hran, hepoch⟩ := ranControl_step render hsound
              (ne_claimControl_of_isOwn hown) (ne_adopt_of_isOwn hown) hnew hruns
            rw [hepoch]
            exact hsound.epoch id epoch old hbody hold hran

theorem Dispatcher.sound_fresh : (Dispatcher.fresh : Dispatcher J T V).Sound dagFor where
  tries := triesSound_fresh
  plain id row hrow := by
    simp [Dispatcher.fresh, ControlPlane.fresh] at hrow
  idle _ := rfl
  epoch _ _ _ hbody := nomatch hbody

theorem Dispatcher.nothingHangs_fresh : (Dispatcher.fresh : Dispatcher J T V).NothingHangs where
  marked id row hrow := by
    simp [Dispatcher.fresh, ControlPlane.fresh] at hrow
  running hadopted := nomatch hadopted

/-- Over every run of the dispatcher, the API and the pods, nothing hangs in any state exactly when
every step meets the condition. -/
theorem nothing_hangs_iff (render : T → String) (dagFor : J → Dag T)
    (actions : List (DispatcherAction J T V)) :
    AfterEach (Dispatcher.step render dagFor) (fun _ dispatcher => dispatcher.NothingHangs)
        Dispatcher.fresh actions ↔
      Along (Dispatcher.step render dagFor) LeavesNothingHanging Dispatcher.fresh actions := by
  apply afterEach_iff_along fun dispatcher : Dispatcher J T V =>
    dispatcher.Sound dagFor ∧ dispatcher.NothingHangs
  · intro action _ dispatcher hinv
    exact nothingHangs_step_iff hinv.1 hinv.2 action
  · intro action _ dispatcher hinv hpost
    exact ⟨hinv.1.step hinv.2 action, hpost⟩
  · exact ⟨Dispatcher.sound_fresh, Dispatcher.nothingHangs_fresh⟩

end Runs

end Process

/-- A graph of one control task. -/
def singleControl : Dag ℕ where
  nodes :=
    [{ taskId := 0
       kind := .control
       inputNames := []
       writesLake := false
       triggerRule := .allSucceeded
       teardown := false
       policy := { retries := 2, classRule := .fromRun, escalateOnOom := false, segment := none }
       upstream := [] }]
  upstream_lt := by decide
  nodup := by decide

/-- A job is planned and its task scheduled. -/
def scheduledJob : List (DispatcherAction ℕ ℕ ℕ) :=
  [.restart "first" "reporter", .adopt, .shared (.job (.enqueue 0 "org" 0 0 none)),
    .shared (.job (.claim 0 0)), .shared (.plan 0), .shared (.openPass 0), .shared .commitPass]

/-- The dispatcher dies while a control body executes, and the next one adopts the row. -/
def orphanedControl : List (DispatcherAction ℕ ℕ ℕ) :=
  scheduledJob ++ [.controlPass 0, .restart "second" "reporter", .adopt]

/-- The task is cleared while the reporter runs it under `inproc`. -/
def clearedInproc : List (DispatcherAction ℕ ℕ ℕ) :=
  scheduledJob ++
    [.shared (.claimLaunch "reporter" (some .inproc) 0 1000000), .startInproc ⟨0, 0, 1⟩ "reporter",
      .shared (.openClear 0 [0] 2 none), .shared (.archiveCleared 0), .shared (.commitClear 0 0)]

/-- After the first run nothing executes the running control row, and after the second one no pod
stands behind the restarting row. -/
theorem orphanedControl_hangs :
    ¬ AfterEach (Dispatcher.step (fun _ => "task") fun _ => singleControl)
        (fun _ dispatcher => dispatcher.NothingHangs) Dispatcher.fresh orphanedControl ∧
      ¬ AfterEach (Dispatcher.step (fun _ => "task") fun _ => singleTask)
        (fun _ dispatcher => dispatcher.NothingHangs) Dispatcher.fresh clearedInproc := by
  constructor
  · intro hrun
    have hlast := hrun.final Dispatcher.nothingHangs_fresh
    have hadopted : (orphanedControl.foldl (Dispatcher.step (fun _ => "task")
        fun _ => singleControl) Dispatcher.fresh).adopted = true := by decide +kernel
    have hbody : (orphanedControl.foldl (Dispatcher.step (fun _ => "task")
        fun _ => singleControl) Dispatcher.fresh).body.isNone = true := by decide +kernel
    have hrow : ((orphanedControl.foldl (Dispatcher.step (fun _ => "task")
        fun _ => singleControl) Dispatcher.fresh).plane.ledger.tasks[
          (⟨0, 0, 1⟩ : AttemptId ℕ ℕ)]?).map TaskInstance.runsControl = some true := by
      decide +kernel
    generalize orphanedControl.foldl _ _ = last at hlast hadopted hbody hrow
    obtain ⟨row, hrow, hruns⟩ := Option.map_eq_some_iff.mp hrow
    obtain ⟨_, hexecutes⟩ := hlast.executes hadopted hrow hruns
    rw [hexecutes] at hbody
    cases hbody
  · intro hrun
    have hlast := hrun.final Dispatcher.nothingHangs_fresh
    have hrow : ((clearedInproc.foldl (Dispatcher.step (fun _ => "task")
        fun _ => singleTask) Dispatcher.fresh).plane.ledger.tasks[
          (⟨0, 0, 1⟩ : AttemptId ℕ ℕ)]?).map (fun row => (row.live, row.state, row.hasJob)) =
            some (true, .restarting, false) := by
      decide +kernel
    generalize clearedInproc.foldl _ _ = last at hlast hrow
    obtain ⟨row, hrow, hcolumns⟩ := Option.map_eq_some_iff.mp hrow
    simp only [Prod.mk.injEq] at hcolumns
    have hjob := hlast.marked _ row hrow hcolumns.1 (by rw [hcolumns.2.1]; rfl)
    rw [hcolumns.2.2] at hjob
    cases hjob

end EntityResolution.Executor
