/-
# Launch and try budgets

A row counts its launches against `max_launches`: a launch is given back only while one is left,
so a waiting row always has one left, and the claim need not check.

A task counts its tries against `max_tries`, which planning sets to the retries of the node's
policy. A clear starts the count anew. After it, the first try of a task is the live row itself
where the row was reset, and the next one where the row was archived or marked restarting; the
budget then is `retries` tries after the first. Clears take their `retries` from the request,
and a completed restart always grants two, so the budget is the policy's only where these are.
-/

import EntityResolution.Executor.RowSteps

namespace EntityResolution.Executor

open EntityResolution.Collections EntityResolution.Histories EntityResolution.Runs
open EntityResolution.Statements EntityResolution.Tables

universe u v w

variable {J : Type u} {T : Type v} {V : Type w} [LinearOrder J] [LinearOrder T]

/-- The launches of a row are within its budget, and a waiting row has one left. -/
structure LaunchesSound (row : TaskInstance J T V) : Prop where
  one_le : 1 ≤ row.maxLaunches
  nonneg : 0 ≤ row.launches
  le_max : row.launches ≤ row.maxLaunches
  left : row.state.isWaiting = true → row.launches < row.maxLaunches

omit [LinearOrder J] [LinearOrder T] in
/-- A change that keeps the counts and does not lead to a waiting state from another one. -/
theorem LaunchesSound.of_same {old new : TaskInstance J T V} (hsound : LaunchesSound old)
    (hmax : new.maxLaunches = old.maxLaunches) (hlaunches : new.launches = old.launches)
    (hwaiting : new.state.isWaiting = true → old.state.isWaiting = true) :
    LaunchesSound new where
  one_le := hmax ▸ hsound.one_le
  nonneg := hlaunches ▸ hsound.nonneg
  le_max := by
    rw [hlaunches, hmax]
    exact hsound.le_max
  left hnew := by
    rw [hlaunches, hmax]
    exact hsound.left (hwaiting hnew)

omit [LinearOrder J] [LinearOrder T] in
/-- A change that keeps the counts and leads to a state that does not wait. -/
theorem LaunchesSound.of_busy {old new : TaskInstance J T V} (hsound : LaunchesSound old)
    (hmax : new.maxLaunches = old.maxLaunches) (hlaunches : new.launches = old.launches)
    (hbusy : new.state.isWaiting = false) : LaunchesSound new := by
  apply hsound.of_same hmax hlaunches
  intro hwaiting
  rw [hbusy] at hwaiting
  cases hwaiting

omit [LinearOrder J] [LinearOrder T] in
/-- A fresh row has not been launched. -/
theorem LaunchesSound.of_fresh {row : TaskInstance J T V} (hmax : 1 ≤ row.maxLaunches)
    (hlaunches : row.launches = 0) : LaunchesSound row where
  one_le := hmax
  nonneg := by omega
  le_max := by omega
  left _ := by omega

theorem LaunchesSound.statement {statement : TaskStatement J T V} {id : AttemptId J T}
    {row : TaskInstance J T V} (hsound : LaunchesSound row)
    (hhit : statement.update.hit id row = true) :
    LaunchesSound (statement.update.set id row) := by
  cases statement with
  | start | settleCanceled | cancelPending | cancelLive =>
      exact hsound.of_busy rfl rfl rfl
  | finish _ _ skipped | finishControl _ _ skipped =>
      apply hsound.of_same
      · rfl
      · rfl
      · intro hwaiting
        cases skipped <;> cases hwaiting
  | noteInterruption | recordEvidence | adopt =>
      exact hsound.of_same rfl rfl fun hwaiting => hwaiting
  | requeueLaunch =>
      -- the launch is given back only while one is left
      have hcondition := (onLive_hit.mp hhit).2.2
      simp only [Bool.and_eq_true, decide_eq_true_eq] at hcondition
      exact ⟨hsound.one_le, hsound.nonneg, hsound.le_max, fun _ => hcondition.2⟩
  | capacityWait =>
      have hcondition := (onLive_hit.mp hhit).2.2
      simp only [Bool.and_eq_true, decide_eq_true_eq] at hcondition
      have hle := hsound.le_max
      have hone := hsound.one_le
      constructor
      · exact hsound.one_le
      · show 0 ≤ row.launches - 1
        omega
      · show row.launches - 1 ≤ row.maxLaunches
        omega
      · intro _
        show row.launches - 1 < row.maxLaunches
        omega

theorem LaunchesSound.clearRow {job : J} {clear : OpenClear J T} {archived : List (AttemptId J T)}
    {id : AttemptId J T} {row : TaskInstance J T V} (hsound : LaunchesSound row) :
    LaunchesSound (clearRow job clear archived id row) := by
  rw [Executor.clearRow]
  split
  · exact hsound.of_busy rfl rfl rfl
  · split
    · exact hsound.of_same rfl rfl (fun hwaiting => hwaiting)
    · rw [Update.row]
      split
      · next hhit =>
          apply hsound.of_same
          · rfl
          · rfl
          · intro _
            have hcondition := (onLiveOf_hit.mp hhit).2.2
            simp only [Bool.and_eq_true] at hcondition
            exact hcondition.1
      · exact hsound

variable {render : T → String} {dagFor : J → Dag T}

/-- Every change of a row keeps its launches within the budget. -/
theorem LaunchesSound.change {plane : ControlPlane J T V} {action : Action J T V}
    {id : AttemptId J T} {old new : TaskInstance J T V} (hsound : LaunchesSound old)
    (hchange : RowChange dagFor plane action id old new) : LaunchesSound new := by
  cases hchange with
  | same => exact hsound
  | statement statement _ _ _ _ hhit => exact hsound.statement hhit
  | claimLaunch ownerEpoch k8sJobName now inFlightCap id row hclaimable =>
      -- the claim takes the launch that a waiting row has left
      simp only [launchClaimable, Bool.and_eq_true] at hclaimable
      have hleft := hsound.left (TaskState.isWaiting_of_isClaimable hclaimable.1.1.1.1.2)
      have hnonneg := hsound.nonneg
      constructor
      · exact hsound.one_le
      · show 0 ≤ old.launches + 1
        omega
      · show old.launches + 1 ≤ old.maxLaunches
        omega
      · intro hwaiting
        cases hwaiting
  | claimControl => exact hsound.of_busy rfl rfl rfl
  | archiveTry id failure =>
      have hended (state : FailureState) : state.toTaskState.isWaiting = false := by
        cases state <;> rfl
      exact hsound.of_busy rfl rfl (hended failure.terminalState)
  | verdict snapshot action node id read row hexecutor haction hnode hread hhit =>
      obtain ⟨_, _, hnone, _⟩ := verdictUpdate_hit.mp hhit
      have hwaiting : old.state.isWaiting = true := by rw [hnone]; rfl
      obtain ⟨idx, decision⟩ := action
      cases decision <;> exact hsound.of_same rfl rfl fun _ => hwaiting
  | archiveRestarted => exact hsound.of_busy rfl rfl rfl
  | clear => exact hsound.clearRow
  | finish _ skipped =>
      apply hsound.of_same
      · rfl
      · rfl
      · intro hwaiting
        cases skipped <;> cases hwaiting
  | advance =>
      constructor
      · exact hsound.one_le
      · exact zero_le_one
      · exact hsound.one_le
      · intro hwaiting
        cases hwaiting

/-- Every added row has its launches within the budget. -/
theorem LaunchesSound.insert {plane : ControlPlane J T V} {action : Action J T V}
    {id : AttemptId J T} {new : TaskInstance J T V}
    (hrows : ∀ (id : AttemptId J T) row, plane.ledger.tasks[id]? = some row → LaunchesSound row)
    (hinsert : RowInsert dagFor plane action id new) : LaunchesSound new := by
  cases hinsert with
  | plan => exact LaunchesSound.of_fresh (show (1 : ℤ) ≤ 3 by decide) rfl
  | retry prev failure now hash row hrow => exact LaunchesSound.of_fresh (hrows _ _ hrow).one_le rfl
  | restarted prev row _ hrow => exact LaunchesSound.of_fresh (hrows _ _ hrow).one_le rfl
  | cleared _ _ _ _ prev row _ _ hrow => exact LaunchesSound.of_fresh (hrows _ _ hrow).one_le rfl

/-- The step lemma. -/
theorem launchesSound_step {plane : ControlPlane J T V} {action : Action J T V}
    (hrows : ∀ (id : AttemptId J T) row, plane.ledger.tasks[id]? = some row → LaunchesSound row)
    {id : AttemptId J T} {new : TaskInstance J T V}
    (hnew : (plane.step render dagFor action).ledger.tasks[id]? = some new) :
    LaunchesSound new := by
  rcases rowStep plane action hnew with ⟨old, hold, hchange⟩ | ⟨_, hinsert⟩
  · exact (hrows id old hold).change hchange
  · exact LaunchesSound.insert hrows hinsert

/-- The retries that the policy of a task's node grants. -/
def Dag.retriesOf (dag : Dag T) (task : T) : ℕ :=
  ((dag.nodes.find? fun node => decide (node.taskId = task)).map
    fun node => node.policy.retries).getD 0

theorem Dag.retriesOf_eq {dag : Dag T} {node : Node T} (hnode : node ∈ dag.nodes) :
    dag.retriesOf node.taskId = node.policy.retries := by
  rw [Dag.retriesOf]
  cases hfound : dag.nodes.find? fun other => decide (other.taskId = node.taskId) with
  | none =>
      rw [List.find?_eq_none] at hfound
      exact absurd (decide_eq_true rfl) (hfound node hnode)
  | some other =>
      have hsame := List.find?_some hfound
      rw [decide_eq_true_eq] at hsame
      rw [Dag.node_unique (List.mem_of_find?_eq_some hfound) hnode hsame]
      rfl

/-- The control plane, with the number of the first try of every task since the last clear that
includes it. -/
structure Tracked (J : Type u) (T : Type v) (V : Type w) [LinearOrder J] [LinearOrder T] where
  plane : ControlPlane J T V
  starts : J → T → ℕ

/-- The clear of a job that its commit applies, with the rows it leaves. -/
def ControlPlane.committed (plane : ControlPlane J T V) (job : J) :
    Option (OpenClear J T × TaskTable J T V) :=
  plane.clears[job]?.bind fun clear => clear.archived.bind fun archived =>
    (clearTasks job clear archived plane.ledger.tasks).map fun later => (clear, later)

/-- The first try of a task after a clear: the live row, or the one that will follow it. -/
def firstAfter (tasks : TaskTable J T V) (job : J) (task : T) : Option ℕ :=
  (liveRow tasks job task).map fun entry =>
    if entry.2.state = .restarting then entry.1.tryNumber + 1 else entry.1.tryNumber

namespace Tracked

/-- The control plane before the first job, every task before its first clear. -/
def fresh : Tracked J T V where
  plane := ControlPlane.fresh
  starts _ _ := 1

/-- What a step does to the first tries. -/
def startsAfter (tracked : Tracked J T V) : Action J T V → J → T → ℕ
  | .commitClear job _ =>
      match tracked.plane.committed job with
      | none => tracked.starts
      | some (clear, later) => fun j task =>
          if j = job ∧ task ∈ clear.taskIds then
            (firstAfter later j task).getD (tracked.starts j task)
          else tracked.starts j task
  | _ => tracked.starts

/-- One step. -/
def step (render : T → String) (dagFor : J → Dag T) (tracked : Tracked J T V)
    (action : Action J T V) : Tracked J T V where
  plane := tracked.plane.step render dagFor action
  starts := tracked.startsAfter action

/-- The number of tries of a task since the last clear that includes it. -/
def triesSince (tracked : Tracked J T V) (job : J) (task : T) : ℕ :=
  countWhere tracked.plane.ledger.tasks fun id _ =>
    decide (id.job = job) && decide (id.task = task) &&
      decide (tracked.starts job task ≤ id.tryNumber)

end Tracked

/-- The action grants the tasks it concerns the retries of their policies. -/
structure GrantsBudget (dagFor : J → Dag T) (plane : ControlPlane J T V)
    (action : Action J T V) : Prop where
  /-- A clear that commits grants a row that it archives or resets its node's retries. -/
  cleared : ∀ (job : J) (now : ℤ) (clear : OpenClear J T), action = .commitClear job now →
    plane.clears[job]? = some clear →
    ∀ (id : AttemptId J T) row, plane.ledger.tasks[id]? = some row → id.job = job →
      id.task ∈ clear.taskIds → row.live = true →
      row.state.isWaiting = true ∨ row.state.isTerminal = true →
      clear.retries = (dagFor job).retriesOf id.task
  /-- A completed restart is of a node with two retries. -/
  restarted : action = .insertClearedTry → ∀ id, plane.executor = .restarted id →
    (dagFor id.job).retriesOf id.task = 2
  /-- A claim takes no row of a task that an open clear names, except a row whose budget is what
  the clear would make it. -/
  claimed : ∀ (id : AttemptId J T) row (clear : OpenClear J T), plane.picked action = some id →
    plane.ledger.tasks[id]? = some row → plane.clears[id.job]? = some clear →
    id.task ∈ clear.taskIds →
    row.maxTries = (id.tryNumber : ℤ) - 1 + (dagFor id.job).retriesOf id.task

/-- What holds in every state of a run that grants the policies' budgets. -/
structure Budgeted (dagFor : J → Dag T) (tracked : Tracked J T V) : Prop where
  tries : TriesSound dagFor tracked.plane.ledger
  dead : HeldDead tracked.plane
  within : ∀ (id : AttemptId J T) row, tracked.plane.ledger.tasks[id]? = some row →
    id.tryNumber ≤ tracked.starts id.job id.task + (dagFor id.job).retriesOf id.task
  /-- The budget of a row that can still fail counts from the first try. -/
  budget : ∀ (id : AttemptId J T) row, tracked.plane.ledger.tasks[id]? = some row →
    row.live = true → row.state.isRunnable = true →
    tracked.starts id.job id.task ≤ id.tryNumber ∧
      row.maxTries = (tracked.starts id.job id.task : ℤ) - 1 +
        (dagFor id.job).retriesOf id.task
  /-- The first try of a task that is being restarted is the one to come. -/
  restarting : ∀ (id : AttemptId J T) row, tracked.plane.ledger.tasks[id]? = some row →
    row.live = true → row.state = .restarting →
    tracked.starts id.job id.task = id.tryNumber + 1
  held : ∀ id, tracked.plane.executor = .restarted id →
    tracked.starts id.job id.task = id.tryNumber + 1
  /-- An open clear will mark the claimed rows it names, or has no need to. -/
  marked : ∀ (job : J) (clear : OpenClear J T), tracked.plane.clears[job]? = some clear →
    ∀ (id : AttemptId J T) row, tracked.plane.ledger.tasks[id]? = some row → id.job = job →
      id.task ∈ clear.taskIds → row.live = true → row.state.isClaimed = true →
      id ∈ clear.restarted ∨
        row.maxTries = (id.tryNumber : ℤ) - 1 + (dagFor id.job).retriesOf id.task
  unplanned : ∀ (job : J) (task : T),
    (∀ number, tracked.plane.ledger.tasks[(⟨job, task, number⟩ : AttemptId J T)]? = none) →
      tracked.starts job task = 1

theorem budgeted_fresh (dagFor : J → Dag T) : Budgeted dagFor (Tracked.fresh : Tracked J T V) where
  tries := triesSound_fresh
  dead _ hexecutor := by cases hexecutor
  within id row hrow := by simp [Tracked.fresh, ControlPlane.fresh] at hrow
  budget id row hrow := by simp [Tracked.fresh, ControlPlane.fresh] at hrow
  restarting id row hrow := by simp [Tracked.fresh, ControlPlane.fresh] at hrow
  held id hexecutor := by cases hexecutor
  marked job clear hclear := by simp [Tracked.fresh, ControlPlane.fresh] at hclear
  unplanned _ _ _ := rfl

theorem firstAfter_eq {tasks : TaskTable J T V} (hnumbered : AllNumbered tasks)
    {id : AttemptId J T} {row : TaskInstance J T V} (hrow : tasks[id]? = some row)
    (hlive : row.live = true) :
    firstAfter tasks id.job id.task =
      some (if row.state = .restarting then id.tryNumber + 1 else id.tryNumber) := by
  rw [firstAfter, hnumbered.liveRow_eq hrow hlive]
  rfl

/-- No try of a task has a larger number than its live row. -/
theorem AllNumbered.le_live {tasks : TaskTable J T V} (hnumbered : AllNumbered tasks)
    {id : AttemptId J T} {row : TaskInstance J T V} (hrow : tasks[id]? = some row)
    {entry : AttemptId J T × TaskInstance J T V}
    (hentry : liveRow tasks id.job id.task = some entry) : id.tryNumber ≤ entry.1.tryNumber := by
  obtain ⟨hlast, hjob, htask, hlive⟩ := liveRow_some hentry
  obtain ⟨n, hn⟩ := hnumbered id.job id.task
  have hlast' : tries tasks id.job id.task entry.1.tryNumber = some entry.2 := by
    rw [tries, ← hjob, ← htask]
    exact hlast
  rw [hn.live_last _ _ hlast' hlive]
  exact (hn.le_of_some (show tries tasks id.job id.task id.tryNumber = some row from hrow)).2

section Step

variable {tracked : Tracked J T V} {action : Action J T V}

theorem committed_eq_none_iff {plane : ControlPlane J T V} {job : J} {now : ℤ} :
    plane.committed job = none ↔ ¬ ClearCommits plane (.commitClear job now) := by
  rw [Option.eq_none_iff_forall_ne_some]
  apply Iff.intro
  · intro hnone hcommits
    obtain ⟨clear, archived, later, hclear, harchived, hlater⟩ := hcommits
    apply hnone (clear, later)
    rw [ControlPlane.committed, hclear, Option.bind_some, harchived, Option.bind_some, hlater]
    rfl
  · intro hnot result hresult
    simp only [ControlPlane.committed, Option.bind_eq_some_iff, Option.map_eq_some_iff] at hresult
    obtain ⟨clear, hclear, archived, harchived, later, hlater, _⟩ := hresult
    exact hnot ⟨clear, archived, later, hclear, harchived, hlater⟩

/-- Only a clear that commits moves the first tries. -/
theorem startsAfter_of_not_commits (hcommit : ¬ ClearCommits tracked.plane action) :
    tracked.startsAfter action = tracked.starts := by
  cases action with
  | commitClear job now =>
      rw [Tracked.startsAfter, committed_eq_none_iff.mpr hcommit]
  | _ => rfl

/-- A row of the task that a plan starts. -/
theorem Budgeted.starts_of_planned (hbudgeted : Budgeted dagFor tracked) {job : J} {task : T}
    (habsent : tracked.plane.ledger.tasks[(⟨job, task, 1⟩ : AttemptId J T)]? = none) :
    tracked.starts job task = 1 := by
  apply hbudgeted.unplanned
  intro number
  obtain ⟨n, hn⟩ := hbudgeted.tries.numbered job task
  cases hrow : tracked.plane.ledger.tasks[(⟨job, task, number⟩ : AttemptId J T)]? with
  | none => rfl
  | some row =>
      have hbounds := hn.le_of_some
        (show Executor.tries tracked.plane.ledger.tasks job task number =
        some row from hrow)
      have hfirst := (hn.isSome_iff 1).mpr ⟨le_rfl, hbounds.1.trans hbounds.2⟩
      rw [Executor.tries, habsent] at hfirst
      cases hfirst

/-! ### Steps outside a clear -/

/-- An added row follows its task's budget. -/
theorem Budgeted.insert (hbudgeted : Budgeted dagFor tracked)
    (hgrants : GrantsBudget dagFor tracked.plane action)
    (hcommit : ¬ ClearCommits tracked.plane action) {id : AttemptId J T}
    {new : TaskInstance J T V} (habsent : tracked.plane.ledger.tasks[id]? = none)
    (hinsert : RowInsert dagFor tracked.plane action id new) :
    tracked.starts id.job id.task ≤ id.tryNumber ∧
      id.tryNumber ≤ tracked.starts id.job id.task + (dagFor id.job).retriesOf id.task ∧
      new.maxTries = (tracked.starts id.job id.task : ℤ) - 1 +
        (dagFor id.job).retriesOf id.task := by
  cases hinsert with
  | plan job row entry hrow hstate hentry =>
      have hstarts := hbudgeted.starts_of_planned habsent
      have hnode := Dag.retriesOf_eq (List.fst_mem_of_mem_zipIdx hentry)
      simp only [hstarts, hnode, plannedRow, TaskInstance.fresh]
      omega
  | retry prev failure now hash row hrow hhit hretries =>
      simp only [archiveTry, Bool.and_eq_true] at hhit
      have hrunnable := TaskState.isRunnable_of_isClaimed hhit.1.1.2
      obtain ⟨hle, hmax⟩ := hbudgeted.budget prev row hrow hhit.1.1.1.2 hrunnable
      simp only [retries, Bool.and_eq_true, decide_eq_true_eq] at hretries
      simp only [AttemptId.next, retryTry, TaskInstance.fresh]
      omega
  | restarted prev row hexecutor hrow hdead =>
      have hstarts := hbudgeted.held prev hexecutor
      have hretries := hgrants.restarted rfl prev hexecutor
      simp only [AttemptId.next, clearedTry, TaskInstance.fresh]
      omega
  | cleared job now clear archived prev row _ _ _ _ _ hcommits => exact absurd hcommits hcommit

/-- The rows that a step adds wait. -/
theorem RowInsert.state {plane : ControlPlane J T V} {id : AttemptId J T}
    {new : TaskInstance J T V} (hinsert : RowInsert dagFor plane action id new) :
    new.state = .none ∨ new.state = .upForRetry := by
  cases hinsert with
  | retry => exact .inr rfl
  | plan | restarted | cleared => exact .inl rfl

/-- A step outside a clear keeps the rows of open clears marked. -/
theorem Budgeted.marked_step (hbudgeted : Budgeted dagFor tracked)
    (hgrants : GrantsBudget dagFor tracked.plane action)
    (hcommit : ¬ ClearCommits tracked.plane action) {job : J} {clear : OpenClear J T}
    (hclear : (tracked.plane.step render dagFor action).clears[job]? = some clear)
    {id : AttemptId J T} {row : TaskInstance J T V}
    (hrow : (tracked.plane.step render dagFor action).ledger.tasks[id]? = some row)
    (hjob : id.job = job) (htask : id.task ∈ clear.taskIds) (hlive : row.live = true)
    (hclaimed : row.state.isClaimed = true) :
    id ∈ clear.restarted ∨
      row.maxTries = (id.tryNumber : ℤ) - 1 + (dagFor id.job).retriesOf id.task := by
  subst hjob
  rcases rowStep tracked.plane action hrow with ⟨old, hold, hchange⟩ | ⟨_, hinsert⟩
  · have hcontinues := hchange.continues hcommit
    -- a row that is claimed under an open clear is one that the guard looks at
    have hkept (before : OpenClear J T) (hopen : tracked.plane.clears[id.job]? = some before)
        (htasks : before.taskIds = clear.taskIds) (hsame : before.restarted = clear.restarted) :
        id ∈ clear.restarted ∨
          row.maxTries = (id.tryNumber : ℤ) - 1 + (dagFor id.job).retriesOf id.task := by
      rw [hcontinues.maxTries, ← hsame]
      rw [← htasks] at htask
      rcases hchange.claimed hclaimed with holdClaimed | hpicked | hfree
      · exact hbudgeted.marked id.job before hopen id old hold rfl htask (hcontinues.live hlive)
          holdClaimed
      · exact .inr (hgrants.claimed id old before hpicked hold hopen htask)
      · rw [ControlPlane.jobLocked, Std.ExtTreeMap.contains_eq_isSome_getElem?, hopen] at hfree
        cases hfree
    have hopened := clearChange_step tracked.plane action hclear
    cases hopened with
    | kept _ _ hopen => exact hkept clear hopen rfl rfl
    | opened taskIds retries resourceClass jobRow hfree hjobRow hstate =>
        left
        have hsame : row = old := by
          have htasks : (tracked.plane.step render dagFor
              (.openClear id.job taskIds retries resourceClass)).ledger.tasks =
                tracked.plane.ledger.tasks := by
            rw [ControlPlane.step, ControlPlane.openClear]
            split
            · rfl
            · split
              · rfl
              · split <;> rfl
          rw [htasks, hold, Option.some.injEq] at hrow
          exact hrow.symm
        subst hsame
        exact Update.mem_matched.mpr ⟨row, hold, restartCleared_hit.mpr
          ⟨rfl, hlive, hclaimed, htask⟩⟩
    | archived before hopen => exact hkept before hopen rfl rfl
  · rcases hinsert.state with hstate | hstate
    · rw [hstate] at hclaimed
      cases hclaimed
    · rw [hstate] at hclaimed
      cases hclaimed

/-- A step outside a clear keeps the budgets. -/
theorem Budgeted.step_of_not_commits (hbudgeted : Budgeted dagFor tracked)
    (hgrants : GrantsBudget dagFor tracked.plane action)
    (hcommit : ¬ ClearCommits tracked.plane action) :
    Budgeted dagFor (tracked.step render dagFor action) where
  tries := hbudgeted.tries.step action
  dead := hbudgeted.dead.step hbudgeted.tries.numbered
  within id new hnew := by
    rw [Tracked.step, startsAfter_of_not_commits hcommit]
    rcases rowStep tracked.plane action hnew with ⟨old, hold, _⟩ | ⟨habsent, hinsert⟩
    · exact hbudgeted.within id old hold
    · exact (hbudgeted.insert hgrants hcommit habsent hinsert).2.1
  budget id new hnew hlive hrunnable := by
    rw [Tracked.step, startsAfter_of_not_commits hcommit]
    rcases rowStep tracked.plane action hnew with ⟨old, hold, hchange⟩ | ⟨habsent, hinsert⟩
    · have hcontinues := hchange.continues hcommit
      rw [hcontinues.maxTries]
      exact hbudgeted.budget id old hold (hcontinues.live hlive) (hcontinues.runnable hrunnable)
    · obtain ⟨hle, _, hmax⟩ := hbudgeted.insert hgrants hcommit habsent hinsert
      exact ⟨hle, hmax⟩
  restarting id new hnew hlive hstate := by
    rw [Tracked.step, startsAfter_of_not_commits hcommit]
    rcases rowStep tracked.plane action hnew with ⟨old, hold, hchange⟩ | ⟨_, hinsert⟩
    · have hcontinues := hchange.continues hcommit
      exact hbudgeted.restarting id old hold (hcontinues.live hlive) (hcontinues.restarting hstate)
    · rcases hinsert.state with hadded | hadded <;> rw [hadded] at hstate <;> cases hstate
  held id hexecutor := by
    rw [Tracked.step, startsAfter_of_not_commits hcommit]
    have hlater : (tracked.plane.step render dagFor action).executor = .restarted id := hexecutor
    cases restarted_of_step hlater with
    | inl hheld => exact hbudgeted.held id hheld.1
    | inr harchived =>
        obtain ⟨_, _, _, rfl, harchives⟩ := harchived
        obtain ⟨_, _, row, hrow, hlive, hstate, _⟩ := harchives
        exact hbudgeted.restarting id row hrow hlive hstate
  marked job clear hclear id row hrow hjob htask hlive hclaimed :=
    hbudgeted.marked_step hgrants hcommit hclear hrow hjob htask hlive hclaimed
  unplanned job task hnone := by
    rw [Tracked.step, startsAfter_of_not_commits hcommit]
    apply hbudgeted.unplanned
    intro number
    cases hrow : tracked.plane.ledger.tasks[(⟨job, task, number⟩ : AttemptId J T)]? with
    | none => rfl
    | some row =>
        obtain ⟨new, hnew⟩ := exists_of_getElem? render dagFor tracked.plane action
          hbudgeted.tries.numbered hrow
        have hgone := hnone number
        rw [show (tracked.step render dagFor action).plane.ledger.tasks[_]? = some new from hnew]
          at hgone
        cases hgone

/-- The first tries after a clear that commits. -/
theorem startsAfter_commitClear (now : ℤ) {job : J} {clear : OpenClear J T}
    {archived : List (AttemptId J T)} {later : TaskTable J T V}
    (hclear : tracked.plane.clears[job]? = some clear) (harchived : clear.archived = some archived)
    (hlater : clearTasks job clear archived tracked.plane.ledger.tasks = some later) (j : J)
    (task : T) :
    tracked.startsAfter (.commitClear job now) j task =
      if j = job ∧ task ∈ clear.taskIds then
        (firstAfter later j task).getD (tracked.starts j task)
      else tracked.starts j task := by
  have hcommitted : tracked.plane.committed job = some (clear, later) := by
    rw [ControlPlane.committed, hclear, Option.bind_some, harchived, Option.bind_some, hlater]
    rfl
  rw [Tracked.startsAfter, hcommitted]

/-- What a clear leaves under a key. -/
theorem ClearedTo.cases {job : J} {clear : OpenClear J T} {archived : List (AttemptId J T)}
    {change : AttemptId J T → TaskInstance J T V → TaskInstance J T V}
    {tasks later : TaskTable J T V} (hcleared : ClearedTo job clear archived change tasks later)
    {id : AttemptId J T} {new : TaskInstance J T V} (hnew : later[id]? = some new) :
    (∃ old, tasks[id]? = some old ∧ new = change id old) ∨
      ∃ (prev : AttemptId J T) (row : TaskInstance J T V), id = prev.next ∧
        tasks[prev]? = some row ∧ (archiveCleared job clear.taskIds).hit prev row = true ∧
        new = clearedTry prev clear.resourceClass clear.retries row := by
  cases hold : tasks[id]? with
  | some old =>
      rw [hcleared.rows id old hold, Option.some.injEq] at hnew
      exact .inl ⟨old, rfl, hnew.symm⟩
  | none =>
      obtain ⟨prev, row, hid, hrow, _, hhit, hsame⟩ := hcleared.added id new hnew hold
      exact .inr ⟨prev, row, hid, hrow, hhit, hsame⟩

/-- The budget of a row after a clear that commits, for a task that the clear names. -/
theorem Budgeted.cleared_row (hbudgeted : Budgeted dagFor tracked) {job : J} {now : ℤ}
    (hgrants : GrantsBudget dagFor tracked.plane (.commitClear job now)) {clear : OpenClear J T}
    {archived : List (AttemptId J T)} (hclear : tracked.plane.clears[job]? = some clear)
    {id : AttemptId J T} {old : TaskInstance J T V}
    (hold : tracked.plane.ledger.tasks[id]? = some old) (hjob : id.job = job)
    (htask : id.task ∈ clear.taskIds)
    (hlive : (clearRow job clear archived id old).live = true)
    (hrunnable : (clearRow job clear archived id old).state.isRunnable = true) :
    (clearRow job clear archived id old).maxTries =
      (id.tryNumber : ℤ) - 1 + (dagFor id.job).retriesOf id.task := by
  subst hjob
  rcases clearRow_cases id.job clear archived id old with
    ⟨_, _, hrow⟩ | ⟨_, _, hrow⟩ | ⟨hhit, hrow⟩ | ⟨hrow, hunmarked, _, hmiss⟩
  · rw [hrow] at hrunnable
    cases hrunnable
  · rw [hrow] at hlive
    cases hlive
  · obtain ⟨_, holdLive, hwaiting, _⟩ := resetPending_hit.mp hhit
    have hretries := hgrants.cleared id.job now clear rfl hclear id old hold rfl htask holdLive
      (.inl hwaiting)
    rw [hrow]
    show (id.tryNumber : ℤ) - 1 + clear.retries = _
    rw [hretries]
  · rw [hrow] at hlive hrunnable ⊢
    rw [TaskState.isRunnable, Bool.or_eq_true] at hrunnable
    rcases hrunnable with hwaiting | hclaimed
    · rw [resetPending_hit.mpr ⟨rfl, hlive, hwaiting, htask⟩] at hmiss
      cases hmiss
    · rcases hbudgeted.marked id.job clear hclear id old hold rfl htask hlive hclaimed with
        hmarked | hbudget
      · have hhit := hunmarked hmarked
        rw [restartCleared_hit.mpr ⟨rfl, hlive, hclaimed, htask⟩] at hhit
        cases hhit
      · exact hbudget

/-- A clear leaves the rows that it does not name as they were. -/
theorem ClearedTo.unnamed {job : J} {clear : OpenClear J T} {archived : List (AttemptId J T)}
    {tasks later : TaskTable J T V}
    (hcleared : ClearedTo job clear archived (clearRow job clear archived) tasks later)
    {id : AttemptId J T} {new : TaskInstance J T V} (hnew : later[id]? = some new)
    (hother : ¬ (id.job = job ∧ id.task ∈ clear.taskIds)) : tasks[id]? = some new := by
  rcases hcleared.cases hnew with ⟨old, hold, rfl⟩ | ⟨prev, row, rfl, _, hhit, _⟩
  · rw [clearRow_of_unnamed hother]
    exact hold
  · obtain ⟨hjob, _, _, htask⟩ := archiveCleared_hit.mp hhit
    exact absurd ⟨hjob, htask⟩ hother

/-- A commit leaves the executor alone. -/
theorem executor_commitClear (plane : ControlPlane J T V) (job : J) (now : ℤ) :
    (plane.step render dagFor (.commitClear job now)).executor = plane.executor := by
  rw [ControlPlane.step, ControlPlane.commitClear]
  split
  · rfl
  · split
    · rfl
    · split <;> rfl

section Commit

variable {job : J} {now : ℤ} {clear : OpenClear J T} {archived : List (AttemptId J T)}
variable {later : TaskTable J T V}

/-- The tries after a clear that commits are within the new budget. -/
theorem Budgeted.within_commitClear (hbudgeted : Budgeted dagFor tracked) (now : ℤ)
    (hclear : tracked.plane.clears[job]? = some clear) (harchived : clear.archived = some archived)
    (hlater : clearTasks job clear archived tracked.plane.ledger.tasks = some later)
    (hnumbered : AllNumbered later) {id : AttemptId J T} {new : TaskInstance J T V}
    (hnew : later[id]? = some new) :
    id.tryNumber ≤ tracked.startsAfter (.commitClear job now) id.job id.task +
      (dagFor id.job).retriesOf id.task := by
  have hcleared := clearTasks_spec hlater
  rw [startsAfter_commitClear now hclear harchived hlater]
  split
  · cases hfound : liveRow later id.job id.task with
    | some entry =>
        have hle := hnumbered.le_live hnew hfound
        rw [firstAfter, hfound, Option.map_some, Option.getD_some]
        split <;> omega
    | none =>
        rw [firstAfter, hfound, Option.map_none, Option.getD_none]
        rcases hcleared.cases hnew with ⟨old, hold, _⟩ | ⟨prev, row, rfl, _, _, rfl⟩
        · exact hbudgeted.within id old hold
        · -- the successor of an archived row is live
          rw [hnumbered.liveRow_eq hnew rfl] at hfound
          cases hfound
  · next hother => exact hbudgeted.within id new (hcleared.unnamed hnew hother)

/-- The budgets after a clear that commits. -/
theorem Budgeted.budget_commitClear (hbudgeted : Budgeted dagFor tracked)
    (hgrants : GrantsBudget dagFor tracked.plane (.commitClear job now))
    (hclear : tracked.plane.clears[job]? = some clear) (harchived : clear.archived = some archived)
    (hlater : clearTasks job clear archived tracked.plane.ledger.tasks = some later)
    (hnumbered : AllNumbered later) {id : AttemptId J T} {new : TaskInstance J T V}
    (hnew : later[id]? = some new) (hlive : new.live = true)
    (hrunnable : new.state.isRunnable = true) :
    tracked.startsAfter (.commitClear job now) id.job id.task ≤ id.tryNumber ∧
      new.maxTries = (tracked.startsAfter (.commitClear job now) id.job id.task : ℤ) - 1 +
        (dagFor id.job).retriesOf id.task := by
  have hcleared := clearTasks_spec hlater
  rw [startsAfter_commitClear now hclear harchived hlater]
  split
  · next hnamed =>
      have hstate : new.state ≠ .restarting := by
        intro hstate
        rw [hstate] at hrunnable
        cases hrunnable
      rw [firstAfter_eq hnumbered hnew hlive, if_neg hstate, Option.getD_some]
      apply And.intro le_rfl
      rcases hcleared.cases hnew with ⟨old, hold, rfl⟩ | ⟨prev, row, rfl, hrow, hhit, rfl⟩
      · exact hbudgeted.cleared_row hgrants hclear hold hnamed.1 hnamed.2 hlive hrunnable
      · obtain ⟨hjob, hrowLive, hterminal, htask⟩ := archiveCleared_hit.mp hhit
        have hretries := hgrants.cleared job now clear rfl hclear prev row hrow hjob htask hrowLive
          (.inr hterminal)
        rw [← hjob] at hretries
        simp only [AttemptId.next, clearedTry, TaskInstance.fresh, hretries]
        omega
  · next hother => exact hbudgeted.budget id new (hcleared.unnamed hnew hother) hlive hrunnable

/-- A clear that commits keeps the marks of the other open clears. -/
theorem Budgeted.marked_commitClear (hbudgeted : Budgeted dagFor tracked)
    (hclear : tracked.plane.clears[job]? = some clear) (harchived : clear.archived = some archived)
    (hlater : clearTasks job clear archived tracked.plane.ledger.tasks = some later) {other : J}
    {open' : OpenClear J T}
    (hopen : (tracked.plane.step render dagFor (.commitClear job now)).clears[other]? = some open')
    {id : AttemptId J T} {row : TaskInstance J T V} (hrow : later[id]? = some row)
    (hjob : id.job = other) (htask : id.task ∈ open'.taskIds) (hlive : row.live = true)
    (hclaimed : row.state.isClaimed = true) :
    id ∈ open'.restarted ∨
      row.maxTries = (id.tryNumber : ℤ) - 1 + (dagFor id.job).retriesOf id.task := by
  have hkept := clearChange_step tracked.plane (.commitClear job now) hopen
  cases hkept with
  | kept _ _ hbefore hcommit =>
      have hne : other ≠ job := by
        rintro rfl
        rw [hclear, Option.some.injEq] at hbefore
        subst hbefore
        rw [hcommit now rfl] at harchived
        cases harchived
      apply hbudgeted.marked other open' hbefore id row _ hjob htask hlive hclaimed
      apply (clearTasks_spec hlater).unnamed hrow
      intro hnamed
      exact hne (hjob.symm.trans hnamed.1)

/-- A task without rows after a clear that commits had none before. -/
theorem Budgeted.unplanned_commitClear (hbudgeted : Budgeted dagFor tracked) (now : ℤ)
    (hclear : tracked.plane.clears[job]? = some clear) (harchived : clear.archived = some archived)
    (hlater : clearTasks job clear archived tracked.plane.ledger.tasks = some later) {j : J}
    {task : T} (hnone : ∀ number, later[(⟨j, task, number⟩ : AttemptId J T)]? = none) :
    tracked.startsAfter (.commitClear job now) j task = 1 := by
  have hdead : liveRow later j task = none := by
    rw [liveRow_eq_none_iff]
    intro number row hrow
    rw [hnone number] at hrow
    cases hrow
  rw [startsAfter_commitClear now hclear harchived hlater, firstAfter, hdead, Option.map_none,
    Option.getD_none, ite_self]
  apply hbudgeted.unplanned
  intro number
  cases hrow : tracked.plane.ledger.tasks[(⟨j, task, number⟩ : AttemptId J T)]? with
  | none => rfl
  | some row =>
      have hgone := hnone number
      rw [(clearTasks_spec hlater).rows _ row hrow] at hgone
      cases hgone

/-- A clear that commits keeps the budgets. -/
theorem Budgeted.step_commitClear (hbudgeted : Budgeted dagFor tracked)
    (hgrants : GrantsBudget dagFor tracked.plane (.commitClear job now))
    (hclear : tracked.plane.clears[job]? = some clear) (harchived : clear.archived = some archived)
    (hlater : clearTasks job clear archived tracked.plane.ledger.tasks = some later)
    (htasks : (tracked.plane.step render dagFor (.commitClear job now)).ledger.tasks = later) :
    Budgeted dagFor (tracked.step render dagFor (.commitClear job now)) := by
  have hsound : TriesSound dagFor
      (tracked.plane.step render dagFor (.commitClear job now)).ledger :=
    hbudgeted.tries.step (.commitClear job now)
  have hdead : HeldDead (tracked.plane.step render dagFor (.commitClear job now)) :=
    hbudgeted.dead.step hbudgeted.tries.numbered
  have hnumbered : AllNumbered later := htasks ▸ hsound.numbered
  have hstarts (j : J) (task : T) :
      (tracked.step render dagFor (.commitClear job now)).starts j task =
        if j = job ∧ task ∈ clear.taskIds then
          (firstAfter later j task).getD (tracked.starts j task)
        else tracked.starts j task :=
    startsAfter_commitClear now hclear harchived hlater j task
  constructor
  · exact hsound
  · exact hdead
  · intro id new hnew
    rw [Tracked.step, htasks] at hnew
    exact hbudgeted.within_commitClear now hclear harchived hlater hnumbered hnew
  · intro id new hnew hlive hrunnable
    rw [Tracked.step, htasks] at hnew
    exact hbudgeted.budget_commitClear hgrants hclear harchived hlater hnumbered hnew
      hlive hrunnable
  · intro id new hnew hlive hstate
    rw [Tracked.step, htasks] at hnew
    rw [hstarts]
    split
    · rw [firstAfter_eq hnumbered hnew hlive, if_pos hstate, Option.getD_some]
    · next hother =>
        have hold := (clearTasks_spec hlater).unnamed hnew hother
        exact hbudgeted.restarting id new hold hlive hstate
  · intro id hexecutor
    have hnone := not_hasLive_iff.mp (hdead id hexecutor).2.2
    rw [htasks] at hnone
    rw [Tracked.step, executor_commitClear] at hexecutor
    rw [hstarts, firstAfter, hnone, Option.map_none, Option.getD_none, ite_self]
    exact hbudgeted.held id hexecutor
  · intro other open' hopen id row hrow hjob htask hlive hclaimed
    rw [Tracked.step, htasks] at hrow
    have hstill : (tracked.plane.step render dagFor (.commitClear job now)).clears[other]? =
        some open' := hopen
    exact hbudgeted.marked_commitClear hclear harchived hlater hstill hrow hjob htask hlive hclaimed
  · intro j task hnone
    rw [Tracked.step, htasks] at hnone
    exact hbudgeted.unplanned_commitClear now hclear harchived hlater hnone

end Commit

/-- The step lemma. -/
theorem Budgeted.step (hbudgeted : Budgeted dagFor tracked)
    (hgrants : GrantsBudget dagFor tracked.plane action) :
    Budgeted dagFor (tracked.step render dagFor action) := by
  by_cases hcommit : ClearCommits tracked.plane action
  · cases action with
    | commitClear job now =>
        rcases commitClear_cases render dagFor tracked.plane job now with
          ⟨_, hnot⟩ | ⟨clear, archived, later, hclear, harchived, hlater, hledger⟩
        · exact absurd hcommit hnot
        · exact hbudgeted.step_commitClear hgrants hclear harchived hlater
            (congrArg Ledger.tasks hledger)
    | _ => cases hcommit
  · exact hbudgeted.step_of_not_commits hgrants hcommit

end Step

/-! ### The results -/

theorem Budgeted.triesSince_le {tracked : Tracked J T V} (hbudgeted : Budgeted dagFor tracked)
    (job : J) (task : T) : tracked.triesSince job task ≤ (dagFor job).retriesOf task + 1 := by
  rw [Tracked.triesSince, countWhere, ← Std.ExtTreeMap.length_keys]
  generalize hkeys : (tracked.plane.ledger.tasks.filter fun id _ =>
    decide (id.job = job) && decide (id.task = task) &&
      decide (tracked.starts job task ≤ id.tryNumber)).keys = keys
  have hmem (id : AttemptId J T) (hid : id ∈ keys) :
      id.job = job ∧ id.task = task ∧ tracked.starts job task ≤ id.tryNumber ∧
        id.tryNumber ≤ tracked.starts job task + (dagFor job).retriesOf task := by
    rw [← hkeys, BTreeMap.mem_keys, BTreeMap.mem_iff_exists_getElem?] at hid
    obtain ⟨row, hrow⟩ := hid
    rw [BTreeMap.getElem?_filter_eq, Option.filter_eq_some_iff] at hrow
    simp only [Bool.and_eq_true, decide_eq_true_eq] at hrow
    obtain ⟨hrow, ⟨rfl, rfl⟩, hstarts⟩ := hrow
    exact ⟨rfl, rfl, hstarts, hbudgeted.within id row hrow⟩
  have hnodup : (keys.map AttemptId.tryNumber).Nodup := by
    rw [List.nodup_map_iff_inj_on]
    · intro first hfirst second hsecond hnumber
      ext
      · exact (hmem first hfirst).1.trans (hmem second hsecond).1.symm
      · exact (hmem first hfirst).2.1.trans (hmem second hsecond).2.1.symm
      · exact hnumber
    · rw [← hkeys]
      exact BTreeMap.keys_nodup _
  have hsubset : (keys.map AttemptId.tryNumber).toFinset ⊆
      Finset.Icc (tracked.starts job task)
        (tracked.starts job task + (dagFor job).retriesOf task) := by
    intro number hnumber
    rw [List.mem_toFinset, List.mem_map] at hnumber
    obtain ⟨id, hid, rfl⟩ := hnumber
    rw [Finset.mem_Icc]
    exact (hmem id hid).2.2
  have hcard := Finset.card_le_card hsubset
  rw [List.toFinset_card_of_nodup hnodup, List.length_map, Nat.card_Icc] at hcard
  omega

/-- A retryable failure that finds its row ends the task if the retries since the last clear are
spent, and otherwise leaves a next try. -/
def EndsWhenSpent (render : T → String) (dagFor : J → Dag T) (tracked : Tracked J T V)
    (action : Action J T V) : Prop :=
  ∀ (id : AttemptId J T) (failure : TaskFailure J T) (now hash : ℤ) (row : TaskInstance J T V),
    action = .failOrRetry id failure now hash → tracked.plane.rowLocked id = false →
    tracked.plane.ledger.tasks[id]? = some row →
    (archiveTry tracked.plane.ledger.jobs id failure).hit id row = true →
    failure.retryable = true →
    if id.tryNumber = tracked.starts id.job id.task + (dagFor id.job).retriesOf id.task then
      ∃ new, (tracked.step render dagFor action).plane.ledger.tasks[id]? = some new ∧
        new.live = true ∧ new.state = failure.terminalState.toTaskState
    else
      ∃ next, (tracked.step render dagFor action).plane.ledger.tasks[id.next]? = some next ∧
        next.live = true ∧ next.state = .upForRetry

theorem Budgeted.endsWhenSpent {tracked : Tracked J T V} (hbudgeted : Budgeted dagFor tracked)
    (action : Action J T V) : EndsWhenSpent render dagFor tracked action := by
  rintro id failure now hash row rfl hfree hrow hhit hretryable
  have hcondition := hhit
  simp only [archiveTry, Bool.and_eq_true] at hcondition
  have hwithin := hbudgeted.within id row hrow
  obtain ⟨_, hmax⟩ := hbudgeted.budget id row hrow hcondition.1.1.1.2
    (TaskState.isRunnable_of_isClaimed hcondition.1.1.2)
  have hstep : (tracked.step render dagFor (.failOrRetry id failure now hash)).plane.ledger.tasks =
      failOrRetryTask tracked.plane.ledger id failure now hash := by
    rw [Tracked.step, ControlPlane.step, hfree]
    rfl
  rw [hstep, failOrRetryTask, hrow]
  dsimp only
  rw [if_pos hhit]
  split
  · next hspent =>
      have hkept : retries failure id row = false := by
        rw [retries, hretryable, Bool.true_and, decide_eq_false_iff_not, hmax]
        omega
      rw [hkept]
      refine ⟨_, Update.getElem?_run_eq_some_iff.mpr ⟨row, hrow, rfl⟩, ?_, ?_⟩
      · rw [Update.row, if_pos hhit]
        simp [archiveTry, hkept]
      · rw [Update.row, if_pos hhit]
        rfl
  · next hleft =>
      have hretries : retries failure id row = true := by
        rw [retries, hretryable, Bool.true_and, decide_eq_true_eq, hmax]
        omega
      rw [if_pos hretries,
        insertRetryTry_eq_some hbudgeted.tries.numbered hrow hhit hretries now hash]
      refine ⟨retryTry id failure.escalate failure.backoff now hash row, ?_, rfl, rfl⟩
      rw [Option.getD_some, BTreeMap.getElem?_insert_eq_ite, if_pos rfl]

/-- In every run whose clears and completed restarts grant the retries of the policies, and whose
claims keep off the rows that an open clear is about to take, every row is launched within its
budget, a task has at most `retries + 1` tries between two clears that include it, and a retryable
failure ends the task exactly when they are spent. -/
theorem budgets_hold (render : T → String) (dagFor : J → Dag T) {actions : List (Action J T V)}
    (hrun : Along (Tracked.step render dagFor)
      (fun tracked action => GrantsBudget dagFor tracked.plane action) Tracked.fresh actions) :
    AfterEach (Tracked.step render dagFor)
        (fun _ tracked =>
          (∀ (id : AttemptId J T) row, tracked.plane.ledger.tasks[id]? = some row →
            0 ≤ row.launches ∧ row.launches ≤ row.maxLaunches) ∧
          ∀ job task, tracked.triesSince job task ≤ (dagFor job).retriesOf task + 1)
        Tracked.fresh actions ∧
      Along (Tracked.step render dagFor) (EndsWhenSpent render dagFor) Tracked.fresh actions := by
  have hinv (tracked : Tracked J T V) (action : Action J T V)
      (hsound : Budgeted dagFor tracked ∧
        ∀ (id : AttemptId J T) row, tracked.plane.ledger.tasks[id]? = some row →
          LaunchesSound row)
      (hgrants : GrantsBudget dagFor tracked.plane action) :
      Budgeted dagFor (tracked.step render dagFor action) ∧
        ∀ (id : AttemptId J T) row,
          (tracked.step render dagFor action).plane.ledger.tasks[id]? = some row →
            LaunchesSound row :=
    ⟨hsound.1.step hgrants, fun id row hrow => launchesSound_step hsound.2 hrow⟩
  have hstart : Budgeted dagFor (Tracked.fresh : Tracked J T V) ∧
      ∀ (id : AttemptId J T) row, (Tracked.fresh : Tracked J T V).plane.ledger.tasks[id]? =
        some row → LaunchesSound row := by
    apply And.intro (budgeted_fresh dagFor)
    intro id row hrow
    simp [Tracked.fresh, ControlPlane.fresh] at hrow
  apply And.intro
  · apply afterEach_of_along _ hinv _ hstart hrun
    intro _ tracked hsound
    apply And.intro
    · intro id row hrow
      exact ⟨(hsound.2 id row hrow).nonneg, (hsound.2 id row hrow).le_max⟩
    · exact hsound.1.triesSince_le
  · apply along_of_along _ hinv _ hstart hrun
    intro tracked action hsound _
    exact hsound.1.endsWhenSpent action

/-- A run without clears and completed restarts leaves the budgets of planning alone. -/
theorem along_grantsBudget (render : T → String) (dagFor : J → Dag T)
    {actions : List (Action J T V)}
    (hactions : ∀ action ∈ actions, action.writesClears = false ∧ action ≠ .insertClearedTry)
    {tracked : Tracked J T V} (hclears : tracked.plane.clears = ∅) :
    Along (Tracked.step render dagFor)
      (fun tracked action => GrantsBudget dagFor tracked.plane action) tracked actions := by
  induction actions generalizing tracked with
  | nil => trivial
  | cons action actions ih =>
      obtain ⟨hwrites, hinsert⟩ := hactions action List.mem_cons_self
      constructor
      · constructor
        · rintro job now clear rfl
          cases hwrites
        · intro hsame
          exact absurd hsame hinsert
        · intro id row clear _ _ hopen
          rw [hclears] at hopen
          simp at hopen
      · apply ih
        · intro other hother
          exact hactions other (List.mem_cons_of_mem _ hother)
        · exact (clears_step tracked.plane hwrites).trans hclears

/-- A retryable failure of the first launch of a pod. -/
def infraFailure (tryNumber : ℕ) : TaskFailure ℕ ℕ where
  terminalState := .failed
  retryable := true
  escalate := false
  exitCode := some 1
  terminationReason := some "Error"
  errorClass := some "internal"
  errorDetail := none
  k8sJobName := some (.launch 0 0 tryNumber 1)
  backoff := (5, 60)

/-- A job of one task is planned, launched, and fails for the first time. -/
def failedOnce : List (Action ℕ ℕ ℕ) :=
  [.job (.enqueue 0 "org" 0 0 none), .job (.claim 0 0), .plan 0, .openPass 0, .commitPass,
    .claimLaunch "epoch" none 0 1, .failOrRetry ⟨0, 0, 1⟩ (infraFailure 1) 0 0]

theorem budgets_hold_failedOnce :
    (liveRow (failedOnce.foldl (Tracked.step (fun _ => "task") fun _ => singleTask)
        Tracked.fresh).plane.ledger.tasks 0 0).map (fun entry => entry.1.tryNumber) = some 2 ∧
      AfterEach (Tracked.step (fun _ => "task") fun _ => singleTask)
        (fun _ tracked =>
          (∀ (id : AttemptId ℕ ℕ) row, tracked.plane.ledger.tasks[id]? = some row →
            0 ≤ row.launches ∧ row.launches ≤ row.maxLaunches) ∧
          ∀ job task, tracked.triesSince job task ≤ singleTask.retriesOf task + 1)
        Tracked.fresh failedOnce := by
  apply And.intro (by decide +kernel)
  apply (budgets_hold (fun _ => "task") (fun _ => singleTask) _).1
  apply along_grantsBudget
  · simp [failedOnce, Action.writesClears]
  · rfl

/-- A job of one task succeeds, the task is cleared with the `retries` that a request without a
body stands for, and its next pod fails. -/
def clearedByDefault : List (Action ℕ ℕ ℕ) :=
  [.job (.enqueue 0 "org" 0 0 none), .job (.claim 0 0), .plan 0, .openPass 0, .commitPass,
    .claimLaunch "epoch" none 0 1, .task (.start ⟨0, 0, 1⟩ (.launch 0 0 1 1) "pod" "uid"),
    .task (.finish ⟨0, 0, 1⟩ "uid" false .done (some 7) (some 0)), .openPass 0, .commitPass,
    .openClear 0 [0] 0 none, .archiveCleared 0, .commitClear 0 0, .job (.claim 0 0), .plan 0,
    .openPass 0, .commitPass, .claimLaunch "epoch" none 0 1]

/-- Its first retryable failure after the clear ends the task, with two retries unspent. -/
theorem clearedByDefault_gives_up :
    ¬ Along (Tracked.step (fun _ => "task") fun _ => singleTask)
      (EndsWhenSpent (fun _ => "task") fun _ => singleTask) Tracked.fresh
      (clearedByDefault ++ [.failOrRetry ⟨0, 0, 2⟩ (infraFailure 2) 0 0]) := by
  intro hrun
  have hends := hrun.last
  have hfree : (clearedByDefault.foldl (Tracked.step (fun _ => "task") fun _ => singleTask)
      Tracked.fresh).plane.rowLocked ⟨0, 0, 2⟩ = false := by decide +kernel
  have hleft : ¬ 2 = (clearedByDefault.foldl (Tracked.step (fun _ => "task") fun _ => singleTask)
      Tracked.fresh).starts 0 0 + singleTask.retriesOf 0 := by decide +kernel
  have hhit : ((clearedByDefault.foldl (Tracked.step (fun _ => "task") fun _ => singleTask)
      Tracked.fresh).plane.ledger.tasks[(⟨0, 0, 2⟩ : AttemptId ℕ ℕ)]?).any
        ((archiveTry (clearedByDefault.foldl (Tracked.step (fun _ => "task") fun _ => singleTask)
          Tracked.fresh).plane.ledger.jobs ⟨0, 0, 2⟩ (infraFailure 2)).hit ⟨0, 0, 2⟩) = true := by
    decide +kernel
  have hnone : (((clearedByDefault.foldl (Tracked.step (fun _ => "task") fun _ => singleTask)
      Tracked.fresh).step (fun _ => "task") (fun _ => singleTask)
        (.failOrRetry ⟨0, 0, 2⟩ (infraFailure 2) 0 0)).plane.ledger.tasks[
          (⟨0, 0, 2⟩ : AttemptId ℕ ℕ).next]?).isNone = true := by decide +kernel
  generalize clearedByDefault.foldl (Tracked.step (fun _ => "task") fun _ => singleTask)
    Tracked.fresh = before at hends hfree hleft hhit hnone
  rw [Option.any_eq_true] at hhit
  obtain ⟨row, hrow, hhit⟩ := hhit
  have hretried := hends ⟨0, 0, 2⟩ (infraFailure 2) 0 0 row rfl hfree hrow hhit rfl
  rw [if_neg hleft] at hretried
  obtain ⟨next, hnext, _⟩ := hretried
  -- no third try follows
  rw [hnext] at hnone
  cases hnone

end EntityResolution.Executor
