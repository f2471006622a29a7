/-
# When a pass settles a job as deadlocked

A pass reads a task without a live row as pending, and passes over its verdict. After its own
actions, a pending node with every upstream terminal is therefore a node without a live row, and
the settle check reports a deadlock there.

A job that is running or being canceled has been planned, and every planned task has its live
row, with two exceptions: a cancel that reaches a job between its claim and its planning, which
makes the planning do nothing, and a completed restart whose second half is lost. Without them no
pass ends in a deadlock.
-/

import EntityResolution.Executor.Archived
import EntityResolution.Executor.Sweep

namespace EntityResolution.Executor

open EntityResolution.Collections EntityResolution.Histories EntityResolution.Runs
open EntityResolution.Statements

universe u v w

variable {J : Type u} {T : Type v} {V : Type w} [LinearOrder J] [LinearOrder T]

/-- The open pass of the executor settles its job through the deadlock branch. -/
def ControlPlane.deadlocks (dagFor : J → Dag T) (plane : ControlPlane J T V) : Bool :=
  match plane.executor with
  | .inPass snapshot =>
      match settle (dagFor snapshot.job) (passStates (dagFor snapshot.job) snapshot) with
      | .deadlock _ => true
      | _ => false
  | _ => false

/-- Every task of the graph has a live row in the snapshot. -/
def ReadsAllLive (dag : Dag T) (snapshot : Snapshot J T V) : Prop :=
  ∀ task ∈ dag.taskIds, (liveRow snapshot.rows snapshot.job task).isSome = true

omit [LinearOrder T] in
theorem exists_node_of_mem_pass {dag : Dag T} {states : List TaskState} {action : ℕ × PassAction}
    (haction : action ∈ pass dag states) : ∃ node, dag.nodes[action.1]? = some node := by
  obtain ⟨earlier, later, hsplit⟩ := List.append_of_mem haction
  obtain ⟨node, hnode, _⟩ := allJustified_pass dag states earlier action later hsplit
  exact ⟨node, hnode⟩

/-- When every task has a live row, the pass settles from the states its actions leave. -/
theorem passStates_eq_sweep {dag : Dag T} {snapshot : Snapshot J T V}
    (hlive : ReadsAllLive dag snapshot) :
    passStates dag snapshot = sweep dag (liveStates dag snapshot) := by
  apply List.foldl_ext
  intro states action haction
  obtain ⟨node, hnode⟩ := exists_node_of_mem_pass haction
  have hrow := hlive node.taskId (List.mem_map_of_mem (List.mem_of_getElem? hnode))
  rw [effectiveStates, hnode]
  dsimp only
  rw [if_pos hrow]
  rfl

/-- A pass that finds every task's live row does not report a deadlock. -/
theorem settle_ne_deadlock {dag : Dag T} {snapshot : Snapshot J T V}
    (hlive : ReadsAllLive dag snapshot) (idx : ℕ) :
    settle dag (passStates dag snapshot) ≠ .deadlock idx := by
  rw [passStates_eq_sweep hlive]
  exact settle_sweep_ne_deadlock (by rw [liveStates, List.length_map]) idx

theorem isSome_liveRow_byJob {tasks : TaskTable J T V} {job : J} {task : T}
    (halive : HasLive tasks job task) : (liveRow (byJob tasks job) job task).isSome = true := by
  rw [Option.isSome_iff_ne_none]
  intro hnone
  obtain ⟨number, row, hrow, hlive⟩ := halive
  have hkept : (byJob tasks job)[(⟨job, task, number⟩ : AttemptId J T)]? = some row := by
    rw [byJob, BTreeMap.getElem?_filter_eq, show tasks[_]? = some row from hrow]
    simp
  rw [liveRow_eq_none_iff.mp hnone number row hkept] at hlive
  cases hlive

/-- The action cancels a job that is claimed and was never planned. -/
def CancelsUnplanned (plane : ControlPlane J T V) : Action J T V → Prop
  | .job (.cancel job) =>
      plane.jobLocked job = false ∧
        ∃ row, plane.ledger.jobs[job]? = some row ∧ row.state = .dispatching ∧ row.runId = none
  | _ => False

/-- The executor stops between the two statements of a completed restart. -/
def LosesRestart (plane : ControlPlane J T V) : Action J T V → Prop
  | .stop => ∃ id, plane.executor = .restarted id
  | _ => False

/-- A job that is running or being canceled has been planned. -/
def RunningPlanned (jobs : JobTable J V) : Prop :=
  ∀ (job : J) (row : Job J V), jobs[job]? = some row →
    row.state = .running ∨ row.state = .canceling → row.runId.isSome = true

omit [LinearOrder T] in
theorem RunningPlanned.run {jobs : JobTable J V} (hplanned : RunningPlanned jobs)
    {update : Update J (Job J V)}
    (hset : ∀ job row, jobs[job]? = some row → update.hit job row = true →
      (update.set job row).state = .running ∨ (update.set job row).state = .canceling →
      (update.set job row).runId.isSome = true) : RunningPlanned (update.run jobs) := by
  intro job new hnew hstate
  obtain ⟨old, hold, rfl⟩ := Update.getElem?_run_eq_some_iff.mp hnew
  rw [Update.row] at hstate ⊢
  split at hstate
  · next hhit =>
      rw [if_pos hhit]
      exact hset job old hold hhit hstate
  · next hmiss =>
      rw [if_neg hmiss]
      exact hplanned job old hold hstate

variable {render : T → String} {dagFor : J → Dag T}

theorem JobChange.runningPlanned {plane : ControlPlane J T V} {action : Action J T V}
    {later : JobTable J V} (hchange : JobChange render dagFor plane action later)
    (hplanned : RunningPlanned plane.ledger.jobs) (hcancel : ¬ CancelsUnplanned plane action) :
    RunningPlanned later := by
  cases hchange with
  | same => exact hplanned
  | statement statement hfree =>
      cases statement with
      | enqueue enqueued orgId priority params resourceClass =>
          intro job row hrow hstate
          rw [JobStatement.run, enqueue] at hrow
          split at hrow
          · exact hplanned job row hrow hstate
          · rw [BTreeMap.getElem?_insert_eq_ite] at hrow
            split at hrow
            · cases hrow
              rcases hstate with hstate | hstate <;> cases hstate
            · exact hplanned job row hrow hstate
      | cancel canceled =>
          apply hplanned.run
          intro job row hrow hhit hstate
          simp only [cancelJob, onJob, Bool.and_eq_true, decide_eq_true_eq, Bool.or_eq_true,
            beq_iff_eq] at hhit hstate ⊢
          obtain ⟨rfl, (hqueued | hdispatching) | hrunning⟩ := hhit
          · simp [hqueued] at hstate
          · by_contra hnone
            apply hcancel
            exact ⟨hfree, row, hrow, hdispatching, by simpa using hnone⟩
          · exact hplanned job row hrow (.inl hrunning)
      | claim | refusePlan | resume =>
          apply hplanned.run
          intro job row hrow hhit hstate
          rcases hstate with hstate | hstate <;> cases hstate
  | plan planned =>
      apply hplanned.run
      intro job row hrow hhit hstate
      rfl
  | settle snapshot effective update hexecutor hupdate =>
      obtain ⟨state, errorClass, errorDetail, rfl⟩ := settlement_eq_some hupdate
      apply hplanned.run
      intro job row hrow hhit _
      simp only [settleJob, onJob, Bool.and_eq_true, Bool.or_eq_true, beq_iff_eq] at hhit
      exact hplanned job row hrow hhit.2
  | reopen reopened now clear hclear =>
      apply hplanned.run
      intro job row hrow _ hstate
      apply hplanned job row hrow
      simp only [Executor.reopen, onJob] at hstate
      split at hstate
      · rcases hstate with hstate | hstate <;> cases hstate
      · exact hstate

/-- What holds in every state of a run in which neither goes wrong. -/
structure Complete (dagFor : J → Dag T) (plane : ControlPlane J T V) : Prop where
  tries : TriesSound dagFor plane.ledger
  planned : RunningPlanned plane.ledger.jobs
  /-- Every planned task has a live row, or the executor is about to insert it. -/
  alive : ∀ job task, Planned dagFor plane.ledger.jobs job task →
    HasLive plane.ledger.tasks job task ∨ ∃ number, plane.executor = .restarted ⟨job, task, number⟩
  /-- The row that the executor has archived is the last of its task. -/
  held : ∀ id, plane.executor = .restarted id →
    (∃ row, plane.ledger.tasks[id]? = some row ∧ row.live = false ∧
      row.archivedReason = some .restarted) ∧
    plane.ledger.tasks[id.next]? = none ∧ ¬ HasLive plane.ledger.tasks id.job id.task
  read : ∀ snapshot, plane.executor = .inPass snapshot →
    ReadsAllLive (dagFor snapshot.job) snapshot

theorem complete_fresh : Complete dagFor (ControlPlane.fresh : ControlPlane J T V) where
  tries := triesSound_fresh
  planned job row hrow := by simp [ControlPlane.fresh] at hrow
  alive job task hplanned := by simp [Planned, isPlanned, ControlPlane.fresh] at hplanned
  held id hexecutor := by cases hexecutor
  read snapshot hexecutor := by cases hexecutor

/-- The second half of a completed restart gives the task its live row. -/
theorem hasLive_insertClearedTry {tasks : TaskTable J T V} {id : AttemptId J T}
    {row : TaskInstance J T V} (hrow : tasks[id]? = some row) (hdead : row.live = false)
    (hreason : row.archivedReason = some .restarted) (hnext : tasks[id.next]? = none)
    (hnone : ¬ HasLive tasks id.job id.task) :
    HasLive ((insertClearedTry tasks id none 2).getD tasks) id.job id.task := by
  cases hinsert : insertClearedTry tasks id none 2 with
  | some later => exact exists_live_of_insertSuccessor hinsert hrow hdead hreason (by simp) rfl
  | none =>
      -- the key is free and the select finds its row, so the insert cannot fail
      have hfree : tasks.contains id.next = false := by
        rw [Std.ExtTreeMap.contains_eq_isSome_getElem?, hnext]
        rfl
      rw [insertClearedTry, insertSuccessor, hrow] at hinsert
      simp [hdead, hreason, not_hasLive_iff.mp hnone, insertRow, hfree] at hinsert

section Step

variable {plane : ControlPlane J T V} {action : Action J T V}

/-- The step keeps the row that the executor holds between two statements. -/
theorem Complete.held_step (hcomplete : Complete dagFor plane) :
    HeldDead (plane.step render dagFor action) := by
  have hheld : HeldDead plane := hcomplete.held
  exact hheld.step hcomplete.tries.numbered

/-- A task that has a live row keeps one, unless the executor archives it to restart it. -/
theorem Complete.alive_of_hasLive (hcomplete : Complete dagFor plane)
    (hplan : ∀ planned, action ≠ .plan planned) {job : J} {task : T}
    (halive : HasLive plane.ledger.tasks job task) :
    HasLive (plane.step render dagFor action).ledger.tasks job task ∨
      ∃ number, (plane.step render dagFor action).executor = .restarted ⟨job, task, number⟩ := by
  by_cases harchives : ArchivesRestarted plane action
  · cases action with
    | archiveRestarted id k8sJobName exitCode terminationReason =>
        rcases archiveRestarted_cases render dagFor plane id k8sJobName exitCode
          terminationReason with ⟨_, hnot⟩ | ⟨_, hstep⟩
        · exact absurd harchives hnot
        · rw [hstep]
          by_cases hline : id.job = job ∧ id.task = task
          · obtain ⟨rfl, rfl⟩ := hline
            exact .inr ⟨id.tryNumber, rfl⟩
          · left
            obtain ⟨number, row, hrow, hlive⟩ := halive
            refine ⟨number, row, ?_, hlive⟩
            have hrow' : plane.ledger.tasks[(⟨job, task, number⟩ : AttemptId J T)]? = some row :=
              hrow
            apply Update.getElem?_run_eq_some_iff.mpr
            refine ⟨row, hrow', ?_⟩
            rw [Update.row, if_neg]
            intro hhit
            cases (archiveRestarted_hit.mp hhit).1
            exact hline ⟨rfl, rfl⟩
    | _ => cases harchives
  · exact .inl ((carriesTries_step hcomplete.tries.numbered hplan harchives).alive
      hcomplete.tries.numbered job task halive)

/-- A task whose row the executor has archived is still held, or gets its live row. -/
theorem Complete.alive_of_held (hcomplete : Complete dagFor plane)
    (hrestart : ¬ LosesRestart plane action) {id : AttemptId J T}
    (hheld : plane.executor = .restarted id) :
    HasLive (plane.step render dagFor action).ledger.tasks id.job id.task ∨
      ∃ number, (plane.step render dagFor action).executor =
        .restarted ⟨id.job, id.task, number⟩ := by
  have hchange : ExecutorChange plane action (plane.step render dagFor action).executor :=
    executorChange_step plane action
  generalize hphase : (plane.step render dagFor action).executor = phase at hchange ⊢
  cases hchange with
  | same => exact .inr ⟨id.tryNumber, hheld⟩
  | stop => exact absurd ⟨id, hheld⟩ hrestart
  | commitPass snapshot hexecutor =>
      rw [hheld] at hexecutor
      cases hexecutor
  | insertClearedTry other hexecutor =>
      left
      obtain ⟨⟨row, hrow, hdead, hreason⟩, hnext, hnone⟩ := hcomplete.held id hheld
      rw [ControlPlane.step, hheld]
      exact hasLive_insertClearedTry hrow hdead hreason hnext hnone
  | openPass job row snapshot hexecutor =>
      rw [hheld] at hexecutor
      cases hexecutor
  | archiveRestarted other k8sJobName exitCode terminationReason harchives =>
      have hidle := harchives.1
      rw [hheld] at hidle
      cases hidle

/-- The step keeps the live rows of the planned tasks. -/
theorem Complete.alive_step (hcomplete : Complete dagFor plane)
    (hrestart : ¬ LosesRestart plane action) {job : J} {task : T}
    (hplanned : Planned dagFor (plane.step render dagFor action).ledger.jobs job task) :
    HasLive (plane.step render dagFor action).ledger.tasks job task ∨
      ∃ number, (plane.step render dagFor action).executor = .restarted ⟨job, task, number⟩ := by
  by_cases hplan : ∃ planned, action = .plan planned
  · obtain ⟨planned, rfl⟩ := hplan
    rcases plan_cases render dagFor plane planned with hstep | ⟨row, hrow, hstate, hidle, _, hstep⟩
    · rw [hstep] at hplanned ⊢
      exact hcomplete.alive job task hplanned
    · rw [hstep] at hplanned ⊢
      obtain ⟨_, hnew, hkept⟩ := hcomplete.tries.plan hrow hstate
      left
      rcases hnew job task hplanned with hbefore | halive
      · rcases hcomplete.alive job task hbefore with halive | ⟨_, hheld⟩
        · exact hkept job task halive
        · rw [hidle] at hheld
          cases hheld
      · exact halive
  · have hother (planned : J) : action ≠ .plan planned := fun hsame => hplan ⟨planned, hsame⟩
    rw [Planned, isPlanned_step hother] at hplanned
    rcases hcomplete.alive job task hplanned with halive | ⟨number, hheld⟩
    · exact hcomplete.alive_of_hasLive hother halive
    · exact hcomplete.alive_of_held hrestart hheld

/-- A pass that opens finds the live row of every task. -/
theorem Complete.read_step (hcomplete : Complete dagFor plane) {snapshot : Snapshot J T V}
    (hexecutor : (plane.step render dagFor action).executor = .inPass snapshot) :
    ReadsAllLive (dagFor snapshot.job) snapshot := by
  cases inPass_of_step hexecutor with
  | inl hopen => exact hcomplete.read snapshot hopen
  | inr hopens =>
      obtain ⟨job, row, rfl, hidle, hrow, hstate, hread⟩ := hopens
      rw [readJob, hrow, Option.map_some, Option.some.injEq] at hread
      subst hread
      intro task htask
      apply isSome_liveRow_byJob
      have hplanned : Planned dagFor plane.ledger.jobs job task := by
        refine ⟨?_, htask⟩
        rw [isPlanned, hrow]
        exact hcomplete.planned job row hrow hstate
      rcases hcomplete.alive job task hplanned with halive | ⟨_, hheld⟩
      · exact halive
      · rw [hidle] at hheld
        cases hheld

/-- The step lemma. -/
theorem Complete.step (hcomplete : Complete dagFor plane)
    (hcancel : ¬ CancelsUnplanned plane action) (hrestart : ¬ LosesRestart plane action) :
    Complete dagFor (plane.step render dagFor action) where
  tries := hcomplete.tries.step action
  planned := (jobChange_step plane action).runningPlanned hcomplete.planned hcancel
  alive _ _ hplanned := hcomplete.alive_step hrestart hplanned
  held := hcomplete.held_step
  read _ hexecutor := hcomplete.read_step hexecutor

theorem Complete.deadlocks_eq_false (hcomplete : Complete dagFor plane) :
    plane.deadlocks dagFor = false := by
  rw [ControlPlane.deadlocks]
  split
  · next snapshot hexecutor =>
      split
      · next idx hdeadlock =>
          exact absurd hdeadlock (settle_ne_deadlock (hcomplete.read snapshot hexecutor) idx)
      · rfl
  · rfl

/-- A cancel of a job without rows cancels it at once. -/
theorem Complete.canceled_of_unplanned (hcomplete : Complete dagFor plane) {job : J}
    (hcancel : ¬ CancelsUnplanned plane (.job (.cancel job))) {row : Job J V}
    (hfree : plane.jobLocked job = false) (hrow : plane.ledger.jobs[job]? = some row)
    (hunplanned : row.runId = none) (hhit : (cancelJob job).hit job row = true) :
    ((cancelJob job).set job row).state = .canceled := by
  simp only [cancelJob, onJob, Bool.and_eq_true, Bool.or_eq_true, beq_iff_eq] at hhit ⊢
  rcases hhit.2 with (hqueued | hdispatching) | hrunning
  · rw [if_pos hqueued]
  · exact absurd ⟨hfree, row, hrow, hdispatching, hunplanned⟩ hcancel
  · have hplanned := hcomplete.planned job row hrow (.inl hrunning)
    rw [hunplanned] at hplanned
    cases hplanned

end Step

/-- In every run in which no cancel reaches a claimed job before its planning and no completed
restart loses its second half, no pass ends in a deadlock, and a cancel of a job that has no rows
yet cancels it at once. -/
theorem no_deadlock (render : T → String) (dagFor : J → Dag T) {actions : List (Action J T V)}
    (hrun : Along (ControlPlane.step render dagFor)
      (fun plane action => ¬ CancelsUnplanned plane action ∧ ¬ LosesRestart plane action)
      ControlPlane.fresh actions) :
    AfterEach (ControlPlane.step render dagFor)
        (fun _ plane => plane.deadlocks dagFor = false) ControlPlane.fresh actions ∧
      Along (ControlPlane.step render dagFor)
        (fun plane action => ∀ job row, action = .job (.cancel job) →
          plane.jobLocked job = false → plane.ledger.jobs[job]? = some row →
          row.runId = none → (cancelJob job).hit job row = true →
          ((plane.step render dagFor action).ledger.jobs[job]?).map Job.state = some .canceled)
        ControlPlane.fresh actions := by
  have hinv (plane : ControlPlane J T V) (action : Action J T V) (hcomplete : Complete dagFor plane)
      (hguard : ¬ CancelsUnplanned plane action ∧ ¬ LosesRestart plane action) :
      Complete dagFor (plane.step render dagFor action) :=
    hcomplete.step hguard.1 hguard.2
  apply And.intro
  · apply afterEach_of_along (Complete dagFor) hinv _ complete_fresh hrun
    intro _ plane hcomplete
    exact hcomplete.deadlocks_eq_false
  · apply along_of_along (Complete dagFor) hinv _ complete_fresh hrun
    intro plane action hcomplete hguard job row hcancels hfree hrow hunplanned hhit
    subst hcancels
    have hstate := hcomplete.canceled_of_unplanned hguard.1 hfree hrow hunplanned hhit
    rw [ControlPlane.step, JobStatement.job, hfree]
    change (((cancelJob job).run plane.ledger.jobs)[job]?).map Job.state = some .canceled
    rw [Update.getElem?_run, hrow, Option.map_some, Option.map_some, Update.row, if_pos hhit,
      hstate]

/-- A job of one task is canceled after its planning. -/
def canceledRun : List (Action ℕ ℕ ℕ) :=
  [.job (.enqueue 0 "org" 0 0 none), .job (.claim 0 0), .plan 0, .job (.cancel 0), .openPass 0]

theorem no_deadlock_canceledRun :
    ((canceledRun.foldl (ControlPlane.step (fun _ => "task") fun _ => singleTask)
        ControlPlane.fresh).ledger.jobs[0]?).map Job.state = some .canceling ∧
      AfterEach (ControlPlane.step (fun _ => "task") fun _ => singleTask)
        (fun _ plane => plane.deadlocks (fun _ => singleTask) = false) ControlPlane.fresh
        canceledRun := by
  refine ⟨by decide +kernel, (no_deadlock (fun _ => "task") (fun _ => singleTask) ?_).1⟩
  refine ⟨⟨nofun, nofun⟩, ⟨nofun, nofun⟩, ⟨nofun, nofun⟩, ⟨?_, nofun⟩, ⟨nofun, nofun⟩, trivial⟩
  intro hcancels
  obtain ⟨_, row, hrow, hstate, _⟩ := hcancels
  have hrunning : ((((canceledRun.take 3).foldl (ControlPlane.step (fun _ => "task")
      fun _ => singleTask) ControlPlane.fresh).ledger.jobs[0]?).map Job.state) =
        some .running := by decide +kernel
  rw [show ((canceledRun.take 3).foldl (ControlPlane.step (fun _ => "task") fun _ => singleTask)
    ControlPlane.fresh).ledger.jobs[0]? = some row from hrow, Option.map_some, hstate] at hrunning
  cases hrunning

/-- A job of one task is canceled between its claim and its planning. -/
def canceledClaim : List (Action ℕ ℕ ℕ) :=
  [.job (.enqueue 0 "org" 0 0 none), .job (.claim 0 0), .job (.cancel 0), .plan 0, .openPass 0]

/-- Its pass ends in a deadlock, and the job is failed instead of canceled. -/
theorem canceledClaim_deadlocks :
    (canceledClaim.foldl (ControlPlane.step (fun _ => "task") fun _ => singleTask)
        ControlPlane.fresh).deadlocks (fun _ => singleTask) = true ∧
      (((canceledClaim ++ [Action.commitPass]).foldl (ControlPlane.step (fun _ => "task")
        fun _ => singleTask) ControlPlane.fresh).ledger.jobs[0]?).map Job.state =
          some .failed := by
  decide +kernel

end EntityResolution.Executor
