/-
# Launch fencing

A launch of a row has a Job name, derived from the attempt and the launch count, and once its pod
has started, the uid of that pod. A row holds a launch from the claim until it ends, is archived
or gives the launch back. From then on the messages of that launch's pods are stale: a start under
its Job name, a heartbeat or a finish under its pod uid must not find the row.

The guards alone do not say so; they compare with what the row holds now. That a stale name never
comes back rests on the launch count, which a claim increments and a requeue keeps. A capacity
wait refunds the launch, and the next claim derives the same name again, so for a refunded launch
the fence lasts until the next claim of the row.
-/

import EntityResolution.Executor.RowSteps

namespace EntityResolution.Executor

open EntityResolution.Collections EntityResolution.Runs EntityResolution.Statements

universe u v w

variable {J : Type u} {T : Type v} {V : Type w} [LinearOrder J] [LinearOrder T]

/-- `heartbeat.sql`; the columns it sets are not modelled. -/
def heartbeat (id : AttemptId J T) (podUid : String) : TaskUpdate J T V :=
  onLive id (fun row => row.state == .running && row.podUid == some podUid) fun row => row

/-- A launch of a row, with the pod that started for it; a refunded launch was given back by a
capacity wait. -/
structure Launch (J : Type u) (T : Type v) where
  id : AttemptId J T
  k8sJobName : JobName J T
  podUid : Option String
  refunded : Bool

/-- The states in which a row holds its launch. -/
def TaskState.holdsLaunch (state : TaskState) : Bool :=
  state.isClaimed || state == .restarting || state == .canceling

/-- The Job name of the launch that a row holds. -/
def TaskInstance.heldJobName (row : TaskInstance J T V) : Option (JobName J T) :=
  if row.live && row.state.holdsLaunch then row.k8sJobName else none

/-- The action is a capacity wait of the row. -/
def Action.refunds (action : Action J T V) (id : AttemptId J T) : Bool :=
  match action with
  | .task (.capacityWait waiting ..) => waiting = id
  | _ => false

/-- The launches that rows of the first table hold, and not those of the second one. -/
def released (action : Action J T V) (before after : TaskTable J T V) : List (Launch J T) :=
  before.toList.filterMap fun entry =>
    entry.2.heldJobName.bind fun name =>
      if (after[entry.1]?).bind TaskInstance.heldJobName = some name then none
      else
        some
          { id := entry.1
            k8sJobName := name
            podUid := entry.2.podUid
            refunded := action.refunds entry.1 }

/-- The control plane with the launches that are over. -/
structure Fence (J : Type u) (T : Type v) (V : Type w) [LinearOrder J] [LinearOrder T] where
  plane : ControlPlane J T V
  past : List (Launch J T)

namespace Fence

/-- The control plane before the first job. -/
def fresh : Fence J T V where
  plane := ControlPlane.fresh
  past := []

/-- One step; the claim of a row takes a refunded launch up again. -/
def step (render : T → String) (dagFor : J → Dag T) (fence : Fence J T V)
    (action : Action J T V) : Fence J T V :=
  let later := fence.plane.step render dagFor action
  { plane := later
    past :=
      released action fence.plane.ledger.tasks later.ledger.tasks ++
        fence.past.filter fun launch =>
          !(launch.refunded && decide (fence.plane.picked action = some launch.id)) }

/-- No message of a launch that is over finds the row. -/
def Holds (fence : Fence J T V) : Prop :=
  ∀ launch ∈ fence.past, launch.k8sJobName ≠ .inproc → ∀ row : TaskInstance J T V,
    fence.plane.ledger.tasks[launch.id]? = some row →
    (∀ podName podUid,
      (start launch.id launch.k8sJobName podName podUid).hit launch.id row = false) ∧
    ∀ podUid, launch.podUid = some podUid →
      (heartbeat launch.id podUid).hit launch.id row = false ∧
      ∀ skipped outcome output exitCode,
        (finish launch.id podUid skipped outcome output exitCode).hit launch.id row = false

end Fence

/-- The action is one of the steps of a launch. A pod reports the Job name of its own launch, and a
claim lets the statement derive the name, unless it is the in-process reporter's. -/
def LaunchStep (jobNameOf : String → JobName J T) : Action J T V → Prop
  | .task (.start _ k8sJobName _ podUid) => jobNameOf podUid = k8sJobName
  | .claimLaunch _ k8sJobName _ _ => k8sJobName = none ∨ k8sJobName = some .inproc
  | .handOff _ _ _ _ _ _ next => next = none
  | _ => True

/-- The row is archived or in a terminal state. -/
def TaskInstance.isEnded (row : TaskInstance J T V) : Bool :=
  !row.live || row.state.isTerminal

/-- The action commits a clear that names the task of the row. -/
def Clears (plane : ControlPlane J T V) (action : Action J T V) (id : AttemptId J T) : Prop :=
  ∃ now clear, action = .commitClear id.job now ∧ plane.clears[id.job]? = some clear ∧
    id.task ∈ clear.taskIds

/-- A change of an ended row touches its standing only where a clear archives it. -/
structure KeepsEnd (plane : ControlPlane J T V) (action : Action J T V) (id : AttemptId J T)
    (old new : TaskInstance J T V) : Prop where
  state : new.state = old.state
  output : new.output = old.output
  outcome : new.outcome = old.outcome
  live : new.live = old.live ∨ new.live = false ∧ Clears plane action id

theorem KeepsEnd.isEnded {plane : ControlPlane J T V} {action : Action J T V}
    {id : AttemptId J T} {old new : TaskInstance J T V}
    (hkeeps : KeepsEnd plane action id old new)
    (hended : old.isEnded = true) : new.isEnded = true := by
  rw [TaskInstance.isEnded, Bool.or_eq_true, Bool.not_eq_true'] at hended ⊢
  rcases hended with hdead | hterminal
  · left
    rcases hkeeps.live with hsame | ⟨harchived, _⟩
    · exact hsame.trans hdead
    · exact harchived
  · right
    rw [hkeeps.state]
    exact hterminal

variable {dagFor : J → Dag T} {plane : ControlPlane J T V} {action : Action J T V}

omit [LinearOrder J] [LinearOrder T] in
theorem not_isEnded {row : TaskInstance J T V} (hlive : row.live = true)
    (hpending : row.state.isTerminal = false) : row.isEnded = false := by
  rw [TaskInstance.isEnded, hlive, hpending]
  rfl

theorem KeepsEnd.statement {statement : TaskStatement J T V} {id : AttemptId J T}
    {row : TaskInstance J T V} (hhit : statement.update.hit id row = true)
    (hended : row.isEnded = true) :
    KeepsEnd plane action id row (statement.update.set id row) := by
  have hpending (hlive : row.live = true) (hstate : row.state.isTerminal = false) :
      KeepsEnd plane action id row (statement.update.set id row) := by
    rw [not_isEnded hlive hstate] at hended
    cases hended
  cases statement with
  | start | finish | finishControl | capacityWait | settleCanceled =>
      obtain ⟨_, hlive, hcondition⟩ := onLive_hit.mp hhit
      simp only [Bool.and_eq_true, beq_iff_eq] at hcondition
      apply hpending hlive
      simp [hcondition, TaskState.isTerminal, TaskState.stateClass]
  | noteInterruption | recordEvidence | adopt => exact ⟨rfl, rfl, rfl, .inl rfl⟩
  | requeueLaunch =>
      obtain ⟨_, hlive, hcondition⟩ := onLive_hit.mp hhit
      simp only [Bool.and_eq_true] at hcondition
      exact hpending hlive (TaskState.isTerminal_of_isClaimed hcondition.1.1)
  | cancelPending =>
      simp only [TaskStatement.update, Executor.cancelPending, onLiveOf_hit,
        Bool.and_eq_true] at hhit
      exact hpending hhit.2.1 (TaskState.isTerminal_of_isWaiting hhit.2.2.1)
  | cancelLive =>
      simp only [TaskStatement.update, Executor.cancelLive, onLiveOf_hit, Bool.and_eq_true,
        Bool.or_eq_true, beq_iff_eq] at hhit
      obtain ⟨_, hlive, hstate, _⟩ := hhit
      apply hpending hlive
      rcases hstate with hclaimed | hrestarting
      · exact TaskState.isTerminal_of_isClaimed hclaimed
      · rw [hrestarting]
        rfl

/-- Every change of an ended row keeps its end. -/
theorem RowChange.keepsEnd {id : AttemptId J T} {old new : TaskInstance J T V}
    (hchange : RowChange dagFor plane action id old new) (hended : old.isEnded = true) :
    KeepsEnd plane action id old new := by
  have hpending (hlive : old.live = true) (hstate : old.state.isTerminal = false) :
      KeepsEnd plane action id old new := by
    rw [not_isEnded hlive hstate] at hended
    cases hended
  cases hchange with
  | same => exact ⟨rfl, rfl, rfl, .inl rfl⟩
  | statement statement _ _ _ _ hhit => exact KeepsEnd.statement hhit hended
  | claimLaunch _ _ _ _ _ _ hclaimable =>
      simp only [launchClaimable, Bool.and_eq_true] at hclaimable
      exact hpending hclaimable.1.1.1.1.1.1
        (TaskState.isTerminal_of_isClaimable hclaimable.1.1.1.1.2)
  | claimControl _ _ _ _ hclaimable =>
      simp only [controlClaimable, Bool.and_eq_true] at hclaimable
      exact hpending hclaimable.1.1.1.1 (TaskState.isTerminal_of_isClaimable hclaimable.1.1.2)
  | archiveTry _ _ _ _ _ hhit =>
      simp only [Executor.archiveTry, Bool.and_eq_true] at hhit
      exact hpending hhit.1.1.1.2 (TaskState.isTerminal_of_isClaimed hhit.1.1.2)
  | verdict _ _ _ _ _ _ _ _ _ _ hhit =>
      obtain ⟨_, hlive, hnone, _⟩ := verdictUpdate_hit.mp hhit
      apply hpending hlive
      rw [hnone]
      rfl
  | archiveRestarted _ _ _ _ _ _ hhit =>
      obtain ⟨_, hlive, hstate, _⟩ := archiveRestarted_hit.mp hhit
      apply hpending hlive
      rw [hstate]
      rfl
  | clear job now clear archived _ _ hclear =>
      rcases clearRow_cases job clear archived id old with
        ⟨_, hhit, _⟩ | ⟨_, hhit, hrow⟩ | ⟨hhit, _⟩ | ⟨hrow, _⟩
      · obtain ⟨_, hlive, hclaimed, _⟩ := restartCleared_hit.mp hhit
        exact hpending hlive (TaskState.isTerminal_of_isClaimed hclaimed)
      · rw [hrow]
        obtain ⟨rfl, _, _, htask⟩ := archiveCleared_hit.mp hhit
        exact ⟨rfl, rfl, rfl, .inr ⟨rfl, now, clear, rfl, hclear, htask⟩⟩
      · obtain ⟨_, hlive, hwaiting, _⟩ := resetPending_hit.mp hhit
        exact hpending hlive (TaskState.isTerminal_of_isWaiting hwaiting)
      · rw [hrow]
        exact ⟨rfl, rfl, rfl, .inl rfl⟩
  | finish _ _ _ _ _ _ _ _ _ hhit | advance _ _ _ _ _ _ _ _ _ _ _ _ _ hhit =>
      obtain ⟨_, hlive, hcondition⟩ := onLive_hit.mp hhit
      simp only [Bool.and_eq_true, beq_iff_eq] at hcondition
      apply hpending hlive
      simp [hcondition, TaskState.isTerminal, TaskState.stateClass]

/-- A row between two launches names none, and a row names its launch by its count and its pod. -/
structure LaunchNamed (jobNameOf : String → JobName J T) (row : TaskInstance J T V) : Prop where
  waiting : row.state.isWaiting = true → row.k8sJobName = none ∧ row.podUid = none
  queued : row.state = .queued → row.podUid = none
  count : ∀ job task number launches,
    row.k8sJobName = some (.launch job task number launches) → launches = row.launches
  uid : ∀ podUid, row.podUid = some podUid → row.k8sJobName = some (jobNameOf podUid)
  control : row.kind = .control → row.k8sJobName = none

namespace LaunchNamed

variable {jobNameOf : String → JobName J T} {old new row : TaskInstance J T V}

omit [LinearOrder J] [LinearOrder T] in
theorem of_same (hnamed : LaunchNamed jobNameOf old) (hname : new.k8sJobName = old.k8sJobName)
    (huid : new.podUid = old.podUid) (hlaunches : new.launches = old.launches)
    (hkind : new.kind = old.kind)
    (hwaiting : new.state.isWaiting = true → old.state.isWaiting = true)
    (hqueued : new.state = .queued → old.state = .queued) : LaunchNamed jobNameOf new where
  waiting hnew := by
    rw [hname, huid]
    exact hnamed.waiting (hwaiting hnew)
  queued hnew := by
    rw [huid]
    exact hnamed.queued (hqueued hnew)
  count job task number launches hsome := by
    rw [hname] at hsome
    rw [hlaunches]
    exact hnamed.count job task number launches hsome
  uid podUid hsome := by
    rw [huid] at hsome
    rw [hname]
    exact hnamed.uid podUid hsome
  control hcontrol := by
    rw [hkind] at hcontrol
    rw [hname]
    exact hnamed.control hcontrol

omit [LinearOrder J] [LinearOrder T] in
/-- A change to a state that neither waits nor is queued. -/
theorem of_busy (hnamed : LaunchNamed jobNameOf old) (hname : new.k8sJobName = old.k8sJobName)
    (huid : new.podUid = old.podUid) (hlaunches : new.launches = old.launches)
    (hkind : new.kind = old.kind)
    (hbusy : (new.state.isWaiting || new.state == .queued) = false) :
    LaunchNamed jobNameOf new := by
  rw [Bool.or_eq_false_iff, beq_eq_false_iff_ne] at hbusy
  apply hnamed.of_same hname huid hlaunches hkind
  · intro hwaiting
    rw [hbusy.1] at hwaiting
    cases hwaiting
  · intro hqueued
    exact absurd hqueued hbusy.2

omit [LinearOrder J] [LinearOrder T] in
theorem of_none (hname : row.k8sJobName = none) (huid : row.podUid = none) :
    LaunchNamed jobNameOf row where
  waiting _ := ⟨hname, huid⟩
  queued _ := huid
  count job task number launches hsome := by
    rw [hname] at hsome
    cases hsome
  uid podUid hsome := by
    rw [huid] at hsome
    cases hsome
  control _ := hname

theorem statement {statement : TaskStatement J T V} {id : AttemptId J T}
    (hnamed : LaunchNamed jobNameOf row)
    (hstep : LaunchStep jobNameOf (.task statement : Action J T V))
    (hhit : statement.update.hit id row = true) :
    LaunchNamed jobNameOf (statement.update.set id row) := by
  cases statement with
  | start started name podName podUid =>
      have hcondition := (onLive_hit.mp hhit).2.2
      simp only [Bool.and_eq_true, beq_iff_eq] at hcondition
      constructor
      · exact nofun
      · exact nofun
      · exact hnamed.count
      · intro reported hreported
        cases hreported
        rw [show jobNameOf podUid = name from hstep]
        exact hcondition.2
      · exact hnamed.control
  | requeueLaunch | capacityWait => exact of_none rfl rfl
  | finish _ _ skipped | finishControl _ _ skipped =>
      apply hnamed.of_same
      · rfl
      · rfl
      · rfl
      · rfl
      · intro hwaiting
        cases skipped <;> cases hwaiting
      · intro hqueued
        cases skipped <;> cases hqueued
  | noteInterruption | recordEvidence | adopt =>
      exact hnamed.of_same rfl rfl rfl rfl (fun hwaiting => hwaiting) fun hqueued => hqueued
  | cancelPending | cancelLive | settleCanceled => exact hnamed.of_busy rfl rfl rfl rfl rfl

theorem clearRow {job : J} {clear : OpenClear J T} {archived : List (AttemptId J T)}
    {id : AttemptId J T} (hnamed : LaunchNamed jobNameOf row) :
    LaunchNamed jobNameOf (clearRow job clear archived id row) := by
  rcases clearRow_cases job clear archived id row with
    ⟨_, _, hrow⟩ | ⟨_, _, hrow⟩ | ⟨hhit, hrow⟩ | ⟨hrow, _⟩
  · rw [hrow]
    exact hnamed.of_busy rfl rfl rfl rfl rfl
  · rw [hrow]
    exact hnamed.of_same rfl rfl rfl rfl (fun hwaiting => hwaiting) fun hqueued => hqueued
  · rw [hrow]
    have hwaiting := (resetPending_hit.mp hhit).2.2.1
    apply hnamed.of_same
    · rfl
    · rfl
    · rfl
    · rfl
    · exact fun _ => hwaiting
    · intro hqueued
      cases hqueued
  · rw [hrow]
    exact hnamed

/-- Every change of a row by a step of a launch. -/
theorem change {id : AttemptId J T} (hnamed : LaunchNamed jobNameOf old)
    (hstep : LaunchStep jobNameOf action) (hchange : RowChange dagFor plane action id old new) :
    LaunchNamed jobNameOf new := by
  cases hchange with
  | same => exact hnamed
  | statement statement _ _ _ _ hhit => exact hnamed.statement hstep hhit
  | claimLaunch ownerEpoch k8sJobName now inFlightCap _ _ hclaimable =>
      simp only [launchClaimable, Bool.and_eq_true, beq_iff_eq] at hclaimable
      have hwaiting := TaskState.isWaiting_of_isClaimable hclaimable.1.1.1.1.2
      have huid := (hnamed.waiting hwaiting).2
      constructor
      · intro hlater
        cases hlater
      · intro _
        exact huid
      · intro job task number launches hsome
        have hname : k8sJobName.getD (.launch id.job id.task id.tryNumber (old.launches + 1)) =
            .launch job task number launches := Option.some.inj hsome
        rcases hstep with rfl | rfl
        · cases hname
          rfl
        · cases hname
      · intro podUid hsome
        have hsome' : old.podUid = some podUid := hsome
        rw [huid] at hsome'
        cases hsome'
      · intro hcontrol
        have hkind : old.kind = .control := hcontrol
        rw [hclaimable.1.1.1.1.1.2] at hkind
        cases hkind
  | claimControl => exact hnamed.of_busy rfl rfl rfl rfl rfl
  | archiveTry _ failure =>
      have hended (state : FailureState) :
          (state.toTaskState.isWaiting || state.toTaskState == .queued) = false := by
        cases state <;> rfl
      exact hnamed.of_busy rfl rfl rfl rfl (hended failure.terminalState)
  | verdict snapshot decided node _ read _ _ haction _ _ hhit =>
      obtain ⟨_, _, hnone, _⟩ := verdictUpdate_hit.mp hhit
      have hwaiting : old.state.isWaiting = true := by
        rw [hnone]
        rfl
      obtain ⟨idx, decision⟩ := decided
      cases decision with
      | schedule =>
          apply hnamed.of_same
          · rfl
          · rfl
          · rfl
          · rfl
          · exact fun _ => hwaiting
          · intro hqueued
            cases hqueued
      | propagate state =>
          apply hnamed.of_same
          · rfl
          · rfl
          · rfl
          · rfl
          · exact fun _ => hwaiting
          · intro hqueued
            have hpropagated := isPropagated_of_mem_pass haction
            have hstate : state = .queued := hqueued
            rw [hstate] at hpropagated
            cases hpropagated
  | archiveRestarted => exact hnamed.of_busy rfl rfl rfl rfl rfl
  | clear => exact hnamed.clearRow
  | finish _ skipped =>
      apply hnamed.of_same
      · rfl
      · rfl
      · rfl
      · rfl
      · intro hwaiting
        cases skipped <;> cases hwaiting
      · intro hqueued
        cases skipped <;> cases hqueued
  | advance => cases hstep

end LaunchNamed

/-- Every added row is without a launch. -/
theorem RowInsert.launchNamed {jobNameOf : String → JobName J T} {id : AttemptId J T}
    {new : TaskInstance J T V} (hinsert : RowInsert dagFor plane action id new) :
    LaunchNamed jobNameOf new := by
  cases hinsert with
  | plan | retry | restarted | cleared => exact LaunchNamed.of_none rfl rfl

/-! ## Launches that are over -/

/-- How a row stands to a launch that it no longer holds: it has ended, or it waits for a later
launch, or it has been launched again. -/
structure Stale (jobNameOf : String → JobName J T) (launch : Launch J T)
    (row : TaskInstance J T V) : Prop where
  uid : ∀ podUid, launch.podUid = some podUid → jobNameOf podUid = launch.k8sJobName
  kind : row.kind = .pod
  later : ∀ job task number launches, launch.k8sJobName = .launch job task number launches →
    row.isEnded = true ∨
      row.state.isWaiting = true ∧ (launch.refunded = true ∨ launches ≤ row.launches) ∨
      launch.refunded = false ∧ launches < row.launches

theorem TaskState.isWaiting_eq_false {state : TaskState} (hstate : state.isClaimed = true) :
    state.isWaiting = false := by
  cases state <;> first | rfl | cases hstate

/-- How a change moves the launch count of a row. -/
structure Counts (plane : ControlPlane J T V) (action : Action J T V) (id : AttemptId J T)
    (old new : TaskInstance J T V) : Prop where
  kind : new.kind = old.kind
  /-- The count stays, and a waiting pod row goes on waiting or ends; or a claim takes a waiting
  row and counts up; or a capacity wait counts down. -/
  count : (new.launches = old.launches ∧
      (old.state.isWaiting = true → new.state.isWaiting = true ∨ new.isEnded = true ∨
        old.kind = .control)) ∨
    (new.launches = old.launches + 1 ∧ old.state.isWaiting = true ∧
      plane.picked action = some id) ∨
    (new.launches = old.launches - 1 ∧ old.state.isWaiting = false ∧ new.state.isWaiting = true)

/-- A change of a row that does not wait, or that keeps its state, keeps the count. -/
theorem Counts.of_busy {id : AttemptId J T} {old new : TaskInstance J T V}
    (hkind : new.kind = old.kind) (hlaunches : new.launches = old.launches)
    (hbusy : old.state.isWaiting = true → new.state.isWaiting = true ∨ new.isEnded = true) :
    Counts plane action id old new where
  kind := hkind
  count := by
    refine .inl ⟨hlaunches, fun hwaiting => ?_⟩
    rcases hbusy hwaiting with hnew | hended
    · exact .inl hnew
    · exact .inr (.inl hended)

theorem Counts.statement {statement : TaskStatement J T V} {id : AttemptId J T}
    {row : TaskInstance J T V} (hhit : statement.update.hit id row = true) :
    Counts plane action id row (statement.update.set id row) := by
  cases statement with
  | start | finish | finishControl | settleCanceled =>
      have hcondition := (onLive_hit.mp hhit).2.2
      simp only [Bool.and_eq_true, beq_iff_eq] at hcondition
      apply Counts.of_busy
      · rfl
      · rfl
      · intro hwaiting
        simp [hcondition, TaskState.isWaiting] at hwaiting
  | noteInterruption | recordEvidence | adopt => exact Counts.of_busy rfl rfl .inl
  | requeueLaunch => exact Counts.of_busy rfl rfl fun _ => .inl rfl
  | capacityWait =>
      have hcondition := (onLive_hit.mp hhit).2.2
      simp only [Bool.and_eq_true, beq_iff_eq] at hcondition
      refine ⟨rfl, .inr (.inr ⟨rfl, ?_, rfl⟩)⟩
      rw [hcondition.1.1]
      rfl
  | cancelPending =>
      apply Counts.of_busy
      · rfl
      · rfl
      · intro _
        right
        exact Bool.or_true _
  | cancelLive =>
      simp only [TaskStatement.update, Executor.cancelLive, onLiveOf_hit, Bool.and_eq_true,
        Bool.or_eq_true, beq_iff_eq] at hhit
      obtain ⟨_, _, hstate, _⟩ := hhit
      apply Counts.of_busy
      · rfl
      · rfl
      · intro hwaiting
        cases hold : row.state <;> simp_all [TaskState.isClaimed, TaskState.isWaiting]

/-- Every change of a row by a step of a launch. -/
theorem RowChange.counts {jobNameOf : String → JobName J T} {id : AttemptId J T}
    {old new : TaskInstance J T V} (hstep : LaunchStep jobNameOf action)
    (hchange : RowChange dagFor plane action id old new) : Counts plane action id old new := by
  cases hchange with
  | same => exact Counts.of_busy rfl rfl .inl
  | statement statement _ _ _ _ hhit => exact Counts.statement hhit
  | claimLaunch _ _ _ _ _ _ hclaimable _ hpick =>
      simp only [launchClaimable, Bool.and_eq_true] at hclaimable
      have hwaiting := TaskState.isWaiting_of_isClaimable hclaimable.1.1.1.1.2
      exact ⟨rfl, .inr (.inl ⟨rfl, hwaiting, hpick⟩)⟩
  | claimControl _ _ _ _ hclaimable =>
      simp only [controlClaimable, Bool.and_eq_true, beq_iff_eq] at hclaimable
      exact ⟨rfl, .inl ⟨rfl, fun _ => .inr (.inr hclaimable.1.1.1.2)⟩⟩
  | archiveTry _ failure =>
      apply Counts.of_busy
      · rfl
      · rfl
      · intro _
        right
        have hterminal : failure.terminalState.toTaskState.isTerminal = true := by
          cases failure.terminalState <;> rfl
        show (_ || failure.terminalState.toTaskState.isTerminal) = true
        rw [hterminal, Bool.or_true]
  | verdict snapshot decided node _ read _ _ haction _ _ hhit =>
      obtain ⟨idx, decision⟩ := decided
      cases decision with
      | schedule => exact Counts.of_busy rfl rfl fun _ => .inl rfl
      | propagate state =>
          apply Counts.of_busy
          · rfl
          · rfl
          · intro _
            right
            have hterminal := TaskState.isTerminal_of_isPropagated
              (isPropagated_of_mem_pass haction)
            show (_ || state.isTerminal) = true
            rw [hterminal, Bool.or_true]
  | archiveRestarted => exact Counts.of_busy rfl rfl fun _ => .inr rfl
  | clear job now clear archived =>
      rcases clearRow_cases job clear archived id old with
        ⟨_, hhit, hrow⟩ | ⟨_, _, hrow⟩ | ⟨_, hrow⟩ | ⟨hrow, _⟩
      · rw [hrow]
        obtain ⟨_, _, hclaimed, _⟩ := restartCleared_hit.mp hhit
        apply Counts.of_busy
        · rfl
        · rfl
        · intro hwaiting
          rw [TaskState.isWaiting_eq_false hclaimed] at hwaiting
          cases hwaiting
      · rw [hrow]
        exact Counts.of_busy rfl rfl fun _ => .inr rfl
      · rw [hrow]
        exact Counts.of_busy rfl rfl fun _ => .inl rfl
      · rw [hrow]
        exact Counts.of_busy rfl rfl .inl
  | finish _ _ _ _ _ _ _ _ _ hhit =>
      have hcondition := (onLive_hit.mp hhit).2.2
      simp only [Bool.and_eq_true, beq_iff_eq] at hcondition
      apply Counts.of_busy
      · rfl
      · rfl
      · intro hwaiting
        simp [hcondition, TaskState.isWaiting] at hwaiting
  | advance => cases hstep

/-- A launch that is over stays over while its row changes, until a claim takes a refunded launch
up again. -/
theorem Stale.change {jobNameOf : String → JobName J T} {launch : Launch J T}
    {old new : TaskInstance J T V} (hstale : Stale jobNameOf launch old)
    (hstep : LaunchStep jobNameOf action)
    (hkept : (launch.refunded && decide (plane.picked action = some launch.id)) = false)
    (hchange : RowChange dagFor plane action launch.id old new) : Stale jobNameOf launch new := by
  have hcounts := hchange.counts hstep
  refine ⟨hstale.uid, hcounts.kind.trans hstale.kind, ?_⟩
  intro job task number launches hname
  rcases hstale.later job task number launches hname with hended | ⟨hwaiting, hlater⟩ |
    ⟨hfinal, hlt⟩
  · exact .inl ((hchange.keepsEnd hended).isEnded hended)
  · rcases hcounts.count with ⟨hsame, hstays⟩ | ⟨hup, _, hpicked⟩ | ⟨_, hbusy, _⟩
    · rcases hstays hwaiting with hnew | hended | hcontrol
      · exact .inr (.inl ⟨hnew, hlater.imp_right fun hle => hsame ▸ hle⟩)
      · exact .inl hended
      · rw [hstale.kind] at hcontrol
        cases hcontrol
    · rw [hpicked, decide_eq_true rfl, Bool.and_true] at hkept
      rcases hlater with hrefunded | hle
      · rw [hkept] at hrefunded
        cases hrefunded
      · exact .inr (.inr ⟨hkept, by omega⟩)
    · rw [hwaiting] at hbusy
      cases hbusy
  · rcases hcounts.count with ⟨hsame, _⟩ | ⟨hup, _⟩ | ⟨hdown, _, hnew⟩
    · exact .inr (.inr ⟨hfinal, hsame ▸ hlt⟩)
    · exact .inr (.inr ⟨hfinal, by omega⟩)
    · exact .inr (.inl ⟨hnew, .inr (by omega)⟩)

omit [LinearOrder J] [LinearOrder T] in
theorem heldJobName_eq_some_iff {row : TaskInstance J T V} {name : JobName J T} :
    row.heldJobName = some name ↔
      row.live = true ∧ row.state.holdsLaunch = true ∧ row.k8sJobName = some name := by
  rw [TaskInstance.heldJobName]
  split
  · next hholds =>
      simp only [Bool.and_eq_true] at hholds
      simp only [hholds, true_and]
  · next hmiss =>
      simp only [Bool.and_eq_true] at hmiss
      simp only [reduceCtorEq, false_iff]
      intro hheld
      exact hmiss ⟨hheld.1, hheld.2.1⟩

/-- What becomes of a row whose launch is over: it has ended, or it waits for a later launch. -/
def GivesBack (action : Action J T V) (id : AttemptId J T) (old new : TaskInstance J T V) : Prop :=
  new.isEnded = true ∨
    new.state.isWaiting = true ∧ (action.refunds id = true ∨ new.launches = old.launches)

section Release

variable {id : AttemptId J T} {old new : TaskInstance J T V} {name : JobName J T}

/-- A row that keeps its name in a state that holds its launch releases nothing. -/
theorem GivesBack.of_held (hheld : old.heldJobName = some name)
    (hreleased : new.heldJobName ≠ some name) (hlive : new.live = old.live)
    (hname : new.k8sJobName = old.k8sJobName) (hholds : new.state.holdsLaunch = true) :
    GivesBack action id old new := by
  obtain ⟨holdLive, _, holdName⟩ := heldJobName_eq_some_iff.mp hheld
  apply absurd _ hreleased
  rw [heldJobName_eq_some_iff]
  exact ⟨hlive.trans holdLive, hholds, hname.trans holdName⟩

omit [LinearOrder J] [LinearOrder T] in
theorem not_holdsLaunch_of_isWaiting {state : TaskState} (hwaiting : state.isWaiting = true) :
    state.holdsLaunch = false := by
  cases state <;> first | rfl | cases hwaiting

/-- A row that holds a launch neither waits nor has ended. -/
theorem GivesBack.of_not_holds (hheld : old.heldJobName = some name)
    (hnot : old.state.holdsLaunch = false) : GivesBack action id old new := by
  have hholds := (heldJobName_eq_some_iff.mp hheld).2.1
  rw [hnot] at hholds
  cases hholds

theorem GivesBack.of_terminal (hterminal : new.state.isTerminal = true) :
    GivesBack action id old new := by
  left
  rw [TaskInstance.isEnded, hterminal, Bool.or_true]

theorem GivesBack.statement {statement : TaskStatement J T V} {id : AttemptId J T}
    {row : TaskInstance J T V} (hhit : statement.update.hit id row = true)
    (hheld : row.heldJobName = some name)
    (hreleased : (statement.update.set id row).heldJobName ≠ some name) :
    GivesBack (.task statement) id row (statement.update.set id row) := by
  cases statement with
  | start => exact GivesBack.of_held hheld hreleased rfl rfl rfl
  | finish _ _ skipped | finishControl _ _ skipped =>
      apply GivesBack.of_terminal
      cases skipped <;> rfl
  | noteInterruption | recordEvidence | adopt =>
      have hholds := (heldJobName_eq_some_iff.mp hheld).2.1
      exact GivesBack.of_held hheld hreleased rfl rfl hholds
  | requeueLaunch => exact .inr ⟨rfl, .inr rfl⟩
  | capacityWait waiting =>
      cases (onLive_hit.mp hhit).1
      exact .inr ⟨rfl, .inl (decide_eq_true rfl)⟩
  | cancelPending | settleCanceled => exact GivesBack.of_terminal rfl
  | cancelLive => exact GivesBack.of_held hheld hreleased rfl rfl rfl

/-- A change that ends the hold of a launch ends the row, or gives the launch back. -/
theorem RowChange.givesBack {jobNameOf : String → JobName J T}
    (hstep : LaunchStep jobNameOf action) (hchange : RowChange dagFor plane action id old new)
    (hheld : old.heldJobName = some name) (hreleased : new.heldJobName ≠ some name) :
    GivesBack action id old new := by
  cases hchange with
  | same => exact absurd hheld hreleased
  | statement statement _ _ _ _ hhit => exact GivesBack.statement hhit hheld hreleased
  | claimLaunch _ _ _ _ _ _ hclaimable =>
      simp only [launchClaimable, Bool.and_eq_true] at hclaimable
      have hwaiting := TaskState.isWaiting_of_isClaimable hclaimable.1.1.1.1.2
      exact GivesBack.of_not_holds hheld (not_holdsLaunch_of_isWaiting hwaiting)
  | claimControl _ _ _ _ hclaimable =>
      simp only [controlClaimable, Bool.and_eq_true] at hclaimable
      have hwaiting := TaskState.isWaiting_of_isClaimable hclaimable.1.1.2
      exact GivesBack.of_not_holds hheld (not_holdsLaunch_of_isWaiting hwaiting)
  | archiveTry _ failure =>
      apply GivesBack.of_terminal
      show failure.terminalState.toTaskState.isTerminal = true
      cases failure.terminalState <;> rfl
  | verdict _ _ _ _ _ _ _ _ _ _ hhit =>
      obtain ⟨_, _, hnone, _⟩ := verdictUpdate_hit.mp hhit
      apply GivesBack.of_not_holds hheld
      rw [hnone]
      rfl
  | archiveRestarted => exact .inl rfl
  | clear job now clear archived =>
      rcases clearRow_cases job clear archived id old with
        ⟨_, _, hrow⟩ | ⟨_, _, hrow⟩ | ⟨hhit, _⟩ | ⟨hrow, _⟩
      · rw [hrow] at hreleased ⊢
        exact GivesBack.of_held hheld hreleased rfl rfl rfl
      · rw [hrow]
        exact .inl rfl
      · have hwaiting := (resetPending_hit.mp hhit).2.2.1
        exact GivesBack.of_not_holds hheld (not_holdsLaunch_of_isWaiting hwaiting)
      · rw [hrow] at hreleased
        exact absurd hheld hreleased
  | finish _ skipped =>
      apply GivesBack.of_terminal
      cases skipped <;> rfl
  | advance => cases hstep

end Release

theorem mem_released {before after : TaskTable J T V} {launch : Launch J T} :
    launch ∈ released action before after ↔
      ∃ row name, before[launch.id]? = some row ∧ row.heldJobName = some name ∧
        (after[launch.id]?).bind TaskInstance.heldJobName ≠ some name ∧
        launch = ⟨launch.id, name, row.podUid, action.refunds launch.id⟩ := by
  rw [released, List.mem_filterMap]
  apply Iff.intro
  · intro hmem
    obtain ⟨⟨id, row⟩, hentry, hlaunch⟩ := hmem
    rw [Option.bind_eq_some_iff] at hlaunch
    obtain ⟨name, hheld, hlaunch⟩ := hlaunch
    split at hlaunch
    · cases hlaunch
    · next hgone =>
        cases hlaunch
        exact ⟨row, name, BTreeMap.mem_toList.mp hentry, hheld, hgone, rfl⟩
  · intro hlaunch
    obtain ⟨row, name, hrow, hheld, hgone, hsame⟩ := hlaunch
    refine ⟨(launch.id, row), BTreeMap.mem_toList.mpr hrow, ?_⟩
    rw [Option.bind_eq_some_iff]
    refine ⟨name, hheld, ?_⟩
    rw [if_neg hgone, ← hsame]

/-! ## The invariant -/

/-- What holds in every state of a run of launch steps. -/
structure FenceSound (jobNameOf : String → JobName J T) (dagFor : J → Dag T)
    (fence : Fence J T V) : Prop where
  tries : TriesSound dagFor fence.plane.ledger
  rows : ∀ (id : AttemptId J T) row, fence.plane.ledger.tasks[id]? = some row →
    LaunchNamed jobNameOf row
  past : ∀ launch ∈ fence.past, ∃ row, fence.plane.ledger.tasks[launch.id]? = some row ∧
    Stale jobNameOf launch row

theorem fenceSound_fresh (jobNameOf : String → JobName J T) (dagFor : J → Dag T) :
    FenceSound jobNameOf dagFor (Fence.fresh : Fence J T V) where
  tries := triesSound_fresh
  rows id row hrow := by simp [Fence.fresh, ControlPlane.fresh] at hrow
  past launch hlaunch := by cases hlaunch

section Step

variable {render : T → String} {jobNameOf : String → JobName J T} {fence : Fence J T V}

/-- A launch that the step ends is over. -/
theorem FenceSound.released (hsound : FenceSound jobNameOf dagFor fence)
    (hstep : LaunchStep jobNameOf action) {launch : Launch J T}
    (hlaunch : launch ∈ released action fence.plane.ledger.tasks
      (fence.plane.step render dagFor action).ledger.tasks) :
    ∃ row, (fence.plane.step render dagFor action).ledger.tasks[launch.id]? = some row ∧
      Stale jobNameOf launch row := by
  obtain ⟨old, name, hold, hheld, hgone, hlaunch⟩ := mem_released.mp hlaunch
  obtain ⟨new, hnew⟩ := exists_of_getElem? render dagFor fence.plane action
    hsound.tries.numbered hold
  refine ⟨new, hnew, ?_⟩
  rcases rowStep fence.plane action hnew with ⟨row, hrow, hchange⟩ | ⟨hnone, _⟩
  · rw [hold, Option.some.injEq] at hrow
    subst hrow
    rw [hnew, Option.bind_some] at hgone
    have hnamed := hsound.rows launch.id old hold
    obtain ⟨_, _, hname⟩ := heldJobName_eq_some_iff.mp hheld
    have hcounts := hchange.counts hstep
    rw [hlaunch]
    constructor
    · intro podUid huid
      have hsame := hnamed.uid podUid huid
      rw [hname, Option.some.injEq] at hsame
      exact hsame.symm
    · rw [hcounts.kind]
      cases hkind : old.kind with
      | pod => rfl
      | control =>
          rw [hnamed.control hkind] at hname
          cases hname
    · rintro job task number launches rfl
      rcases hchange.givesBack hstep hheld hgone with hended | ⟨hwaiting, hrefunds | hsame⟩
      · exact .inl hended
      · exact .inr (.inl ⟨hwaiting, .inl hrefunds⟩)
      · have hcount := hnamed.count job task number launches hname
        exact .inr (.inl ⟨hwaiting, .inr (by omega)⟩)
  · rw [hold] at hnone
    cases hnone

/-- The step lemma. -/
theorem FenceSound.step (hsound : FenceSound jobNameOf dagFor fence)
    (hstep : LaunchStep jobNameOf action) :
    FenceSound jobNameOf dagFor (fence.step render dagFor action) where
  tries := hsound.tries.step action
  rows id new hnew := by
    rcases rowStep fence.plane action hnew with ⟨old, hold, hchange⟩ | ⟨_, hinsert⟩
    · exact (hsound.rows id old hold).change hstep hchange
    · exact hinsert.launchNamed
  past launch hlaunch := by
    rw [Fence.step, List.mem_append, List.mem_filter] at hlaunch
    rcases hlaunch with hreleased | ⟨hpast, hkept⟩
    · exact hsound.released hstep hreleased
    · obtain ⟨old, hold, hstale⟩ := hsound.past launch hpast
      obtain ⟨new, hnew⟩ := exists_of_getElem? render dagFor fence.plane action
        hsound.tries.numbered hold
      refine ⟨new, hnew, ?_⟩
      rw [Bool.not_eq_true'] at hkept
      rcases rowStep fence.plane action hnew with ⟨row, hrow, hchange⟩ | ⟨hnone, _⟩
      · rw [hold, Option.some.injEq] at hrow
        subst hrow
        exact hstale.change hstep hkept hchange
      · rw [hold] at hnone
        cases hnone

omit [LinearOrder J] [LinearOrder T] in
theorem Stale.not_named {launch : Launch J T} {row : TaskInstance J T V}
    (hstale : Stale jobNameOf launch row) (hnamed : LaunchNamed jobNameOf row)
    (hjob : launch.k8sJobName ≠ .inproc) (hlive : row.live = true)
    (hclaimed : row.state.isClaimed = true) : row.k8sJobName ≠ some launch.k8sJobName := by
  intro hname
  cases hlaunch : launch.k8sJobName with
  | inproc => exact hjob hlaunch
  | launch job task number launches =>
      rw [hlaunch] at hname
      have hcount := hnamed.count job task number launches hname
      rcases hstale.later job task number launches hlaunch with hended | ⟨hwaiting, _⟩ | ⟨_, hlt⟩
      · rw [not_isEnded hlive (TaskState.isTerminal_of_isClaimed hclaimed)] at hended
        cases hended
      · rw [TaskState.isWaiting_eq_false hclaimed] at hwaiting
        cases hwaiting
      · omega

theorem FenceSound.holds (hsound : FenceSound jobNameOf dagFor fence) : fence.Holds := by
  intro launch hlaunch hjob row hrow
  obtain ⟨found, hfound, hstale⟩ := hsound.past launch hlaunch
  rw [hrow, Option.some.injEq] at hfound
  subst hfound
  have hnamed := hsound.rows launch.id row hrow
  have hrunning (podUid : String) (huid : launch.podUid = some podUid) (hlive : row.live = true)
      (hstate : row.state = .running) (hsame : row.podUid = some podUid) : False := by
    apply hstale.not_named hnamed hjob hlive
    · rw [hstate]
      rfl
    · rw [hnamed.uid podUid hsame, hstale.uid podUid huid]
  apply And.intro
  · intro podName podUid
    rw [← Bool.not_eq_true]
    intro hhit
    obtain ⟨_, hlive, hcondition⟩ := onLive_hit.mp hhit
    simp only [Bool.and_eq_true, beq_iff_eq] at hcondition
    apply hstale.not_named hnamed hjob hlive _ hcondition.2
    rw [hcondition.1]
    rfl
  · intro podUid huid
    apply And.intro
    · rw [← Bool.not_eq_true]
      intro hhit
      obtain ⟨_, hlive, hcondition⟩ := onLive_hit.mp hhit
      simp only [Bool.and_eq_true, beq_iff_eq] at hcondition
      exact hrunning podUid huid hlive hcondition.1 hcondition.2
    · intro skipped outcome output exitCode
      rw [← Bool.not_eq_true]
      intro hhit
      obtain ⟨_, hlive, hcondition⟩ := onLive_hit.mp hhit
      simp only [Bool.and_eq_true, beq_iff_eq] at hcondition
      exact hrunning podUid huid hlive hcondition.1 hcondition.2

/-- A live terminal row keeps its state, output and outcome unless the step clears its task. -/
def KeepsTerminal (render : T → String) (dagFor : J → Dag T) (fence : Fence J T V)
    (action : Action J T V) : Prop :=
  ∀ (id : AttemptId J T) row, fence.plane.ledger.tasks[id]? = some row → row.live = true →
    row.state.isTerminal = true → ¬ Clears fence.plane action id →
    ∃ new, (fence.step render dagFor action).plane.ledger.tasks[id]? = some new ∧
      new.live = true ∧ new.state = row.state ∧ new.output = row.output ∧
      new.outcome = row.outcome

theorem FenceSound.keepsTerminal (hsound : FenceSound jobNameOf dagFor fence)
    (action : Action J T V) : KeepsTerminal render dagFor fence action := by
  intro id row hrow hlive hterminal hclears
  have hended : row.isEnded = true := by
    rw [TaskInstance.isEnded, hterminal, Bool.or_true]
  obtain ⟨new, hnew⟩ := exists_of_getElem? render dagFor fence.plane action
    hsound.tries.numbered hrow
  refine ⟨new, hnew, ?_⟩
  rcases rowStep fence.plane action hnew with ⟨old, hold, hchange⟩ | ⟨hnone, _⟩
  · rw [hrow, Option.some.injEq] at hold
    subst hold
    have hkeeps := hchange.keepsEnd hended
    rcases hkeeps.live with hsame | ⟨_, hcleared⟩
    · exact ⟨hsame.trans hlive, hkeeps.state, hkeeps.output, hkeeps.outcome⟩
    · exact absurd hcleared hclears
  · rw [hrow] at hnone
    cases hnone

end Step

/-- In every run of launch steps, no message of a launch that is over finds its row, and a live
terminal row changes its state, output or outcome only through a clear of its task. -/
theorem launches_fenced (render : T → String) (dagFor : J → Dag T)
    (jobNameOf : String → JobName J T) {actions : List (Action J T V)}
    (hsteps : ∀ action ∈ actions, LaunchStep jobNameOf action) :
    AfterEach (Fence.step render dagFor) (fun _ fence => fence.Holds) Fence.fresh actions ∧
      Along (Fence.step render dagFor) (KeepsTerminal render dagFor) Fence.fresh actions := by
  have hrun : Along (Fence.step render dagFor) (fun _ action => LaunchStep jobNameOf action)
      Fence.fresh actions := along_of_forall hsteps
  have hinv (fence : Fence J T V) (action : Action J T V)
      (hsound : FenceSound jobNameOf dagFor fence) (hstep : LaunchStep jobNameOf action) :
      FenceSound jobNameOf dagFor (fence.step render dagFor action) :=
    hsound.step hstep
  apply And.intro
  · apply afterEach_of_along _ hinv _ (fenceSound_fresh jobNameOf dagFor) hrun
    intro _ fence hsound
    exact hsound.holds
  · apply along_of_along _ hinv _ (fenceSound_fresh jobNameOf dagFor) hrun
    intro fence action hsound _
    exact hsound.keepsTerminal action

/-- The Job name of the launch that a pod was started for. -/
def podJobName (podUid : String) : JobName ℕ ℕ :=
  if podUid = "second" then .launch 0 0 1 2 else .launch 0 0 1 1

/-- A launch starts and is requeued, the next one starts, and the pod of the first one finishes
before the pod of the second one does. -/
def requeuedRun : List (Action ℕ ℕ ℕ) :=
  [.job (.enqueue 0 "org" 0 0 none), .job (.claim 0 0), .plan 0, .openPass 0, .commitPass,
    .claimLaunch "epoch" none 0 1, .task (.start ⟨0, 0, 1⟩ (.launch 0 0 1 1) "pod" "first"),
    .task (.requeueLaunch ⟨0, 0, 1⟩ (.launch 0 0 1 1) 0 30 none),
    .claimLaunch "epoch" none 60 1, .task (.start ⟨0, 0, 1⟩ (.launch 0 0 1 2) "pod" "second"),
    .task (.finish ⟨0, 0, 1⟩ "first" false .done (some 1) (some 0)),
    .task (.finish ⟨0, 0, 1⟩ "second" false .done (some 2) (some 0))]

theorem launches_fenced_requeuedRun :
    (requeuedRun.foldl (Fence.step (fun _ => "task") fun _ => singleTask)
        Fence.fresh).past.map Launch.podUid = [some "second", some "first"] ∧
      liveOutput (requeuedRun.foldl (Fence.step (fun _ => "task") fun _ => singleTask)
        Fence.fresh).plane.ledger.tasks 0 0 = some 2 ∧
      AfterEach (Fence.step (fun _ => "task") fun _ => singleTask) (fun _ fence => fence.Holds)
        Fence.fresh requeuedRun := by
  refine ⟨by decide +kernel, by decide +kernel, ?_⟩
  apply (launches_fenced (fun _ => "task") (fun _ => singleTask) podJobName _).1
  simp [requeuedRun, LaunchStep, podJobName]

/-- A launch is refused for capacity, and the row is claimed again. -/
def waitedRun : List (Action ℕ ℕ ℕ) :=
  [.job (.enqueue 0 "org" 0 0 none), .job (.claim 0 0), .plan 0, .openPass 0, .commitPass,
    .claimLaunch "epoch" none 0 1,
    .task (.capacityWait ⟨0, 0, 1⟩ (.launch 0 0 1 1) 0 30 (some "quota")),
    .claimLaunch "epoch" none 60 1]

/-- The capacity wait gives the first launch back, and a start under its Job name changes the row
after the next claim, which derives the same name. -/
theorem waitedRun_reuses_name :
    (((waitedRun.take 7).foldl (Fence.step (fun _ => "task") fun _ => singleTask)
        Fence.fresh).past.map Launch.k8sJobName = [.launch 0 0 1 1]) ∧
      ((waitedRun.foldl (Fence.step (fun _ => "task") fun _ => singleTask)
        Fence.fresh).plane.ledger.tasks[(⟨0, 0, 1⟩ : AttemptId ℕ ℕ)]?).map TaskInstance.state =
          some .queued ∧
      (((waitedRun ++ [Action.task (.start ⟨0, 0, 1⟩ (.launch 0 0 1 1) "pod" "first")]).foldl
        (Fence.step (fun _ => "task") fun _ => singleTask)
        Fence.fresh).plane.ledger.tasks[(⟨0, 0, 1⟩ : AttemptId ℕ ℕ)]?).map TaskInstance.podUid =
          some (some "first") := by
  decide +kernel

end EntityResolution.Executor
