/-
# Archived rows

An archived row is history: no step changes more of it than the exit code and the reason that a
late report adds as evidence. And a task without a live row stays so: the inserts follow a row
that was live when their transaction began, except for planning and for the second half of a
completed restart.
-/

import EntityResolution.Executor.Tries

namespace EntityResolution.Executor

open EntityResolution.Collections EntityResolution.Histories EntityResolution.Statements

universe u v w

variable {J : Type u} {T : Type v} {V : Type w} [LinearOrder J] [LinearOrder T]

/-- The row with other evidence of how its pod ended. -/
def TaskInstance.withEvidence (row : TaskInstance J T V) (exitCode : Option ℤ)
    (terminationReason : Option String) : TaskInstance J T V :=
  { row with exitCode := exitCode, terminationReason := terminationReason }

/-- Archived rows keep everything but their evidence, and a task without a live row gets no new
row. -/
structure KeepsDead (tasks later : TaskTable J T V) : Prop where
  row : ∀ (id : AttemptId J T) row, tasks[id]? = some row → row.live = false →
    ∃ exitCode reason, later[id]? = some (row.withEvidence exitCode reason)
  line : ∀ id : AttemptId J T, ¬ HasLive tasks id.job id.task → tasks[id]? = none →
    later[id]? = none

namespace KeepsDead

variable {tasks later final : TaskTable J T V}

theorem refl (tasks : TaskTable J T V) : KeepsDead tasks tasks where
  row _ row hrow _ := ⟨row.exitCode, row.terminationReason, hrow⟩
  line _ _ hnone := hnone

theorem not_hasLive (hkeeps : KeepsDead tasks later) {job : J} {task : T}
    (hdead : ¬ HasLive tasks job task) : ¬ HasLive later job task := by
  intro halive
  obtain ⟨number, new, hnew, hlive⟩ := halive
  have hnew' : later[(⟨job, task, number⟩ : AttemptId J T)]? = some new := hnew
  cases hrow : tasks[(⟨job, task, number⟩ : AttemptId J T)]? with
  | none =>
      rw [hkeeps.line _ hdead hrow] at hnew'
      cases hnew'
  | some old =>
      have hold : old.live = false := by
        rw [← Bool.not_eq_true]
        intro holdLive
        exact hdead ⟨number, old, hrow, holdLive⟩
      obtain ⟨exitCode, reason, hkept⟩ := hkeeps.row _ old hrow hold
      rw [hkept] at hnew'
      cases hnew'
      rw [TaskInstance.withEvidence, hold] at hlive
      cases hlive

theorem trans (hfirst : KeepsDead tasks later) (hsecond : KeepsDead later final) :
    KeepsDead tasks final where
  row id row hrow hdead := by
    obtain ⟨exitCode, reason, hmid⟩ := hfirst.row id row hrow hdead
    obtain ⟨exitCode', reason', hfinal⟩ := hsecond.row id _ hmid hdead
    exact ⟨exitCode', reason', hfinal⟩
  line id hdead hnone := hsecond.line id (hfirst.not_hasLive hdead) (hfirst.line id hdead hnone)

/-- Inserting the successor of a row whose task had a live row. -/
theorem insertSuccessor (hkeeps : KeepsDead tasks later) {id : AttemptId J T}
    {reasons : List ArchivedReason} {successor : TaskInstance J T V → TaskInstance J T V}
    (halive : HasLive tasks id.job id.task)
    (hfinal : Executor.insertSuccessor later id reasons successor = some final) :
    KeepsDead tasks final where
  row k row hrow hdead := by
    obtain ⟨exitCode, reason, hmid⟩ := hkeeps.row k row hrow hdead
    exact ⟨exitCode, reason, getElem?_of_insertSuccessor hfinal hmid⟩
  line k hdead hnone := by
    have hmid := hkeeps.line k hdead hnone
    rcases insertSuccessor_cases hfinal with rfl | ⟨_, _, _, _, _, _, rfl⟩
    · exact hmid
    · rw [BTreeMap.getElem?_insert_eq_ite, if_neg]
      · exact hmid
      · intro hsame
        apply hdead
        rw [← hsame]
        exact halive

end KeepsDead

/-- A statement that changes only live rows, or only evidence, keeps the archived rows. -/
theorem keepsDead_run {tasks : TaskTable J T V} {update : TaskUpdate J T V}
    (hhit : ∀ id row, update.hit id row = true → row.live = true ∨
      ∃ exitCode reason, update.set id row = row.withEvidence exitCode reason) :
    KeepsDead tasks (update.run tasks) where
  row id row hrow hdead := by
    rw [Update.getElem?_run, hrow, Option.map_some, Update.row]
    split
    · next hmatch =>
        rcases hhit id row hmatch with hlive | ⟨exitCode, reason, hset⟩
        · rw [hdead] at hlive
          cases hlive
        · exact ⟨exitCode, reason, congrArg some hset⟩
    · exact ⟨row.exitCode, row.terminationReason, rfl⟩
  line id _ hnone := by
    rw [Update.getElem?_run, hnone]
    rfl

theorem keepsDead_onLive {tasks : TaskTable J T V} (id : AttemptId J T)
    (condition : TaskInstance J T V → Bool) (set : TaskInstance J T V → TaskInstance J T V) :
    KeepsDead tasks ((onLive id condition set).run tasks) := by
  apply keepsDead_run
  intro k row hhit
  exact .inl (onLive_hit.mp hhit).2.1

theorem keepsDead_onLiveOf {tasks : TaskTable J T V} (job : J)
    (condition : T → TaskInstance J T V → Bool)
    (set : AttemptId J T → TaskInstance J T V → TaskInstance J T V) :
    KeepsDead tasks ((onLiveOf job condition set).run tasks) := by
  apply keepsDead_run
  intro k row hhit
  exact .inl (onLiveOf_hit.mp hhit).2.1

theorem keepsDead_statement (statement : TaskStatement J T V) {tasks : TaskTable J T V} :
    KeepsDead tasks (statement.update.run tasks) := by
  cases statement with
  | recordEvidence id podUid k8sJobName exitCode terminationReason =>
      apply keepsDead_run
      intro k row _
      exact .inr ⟨exitCode, terminationReason, rfl⟩
  | adopt ownerEpoch =>
      apply keepsDead_run
      intro k row hhit
      simp only [TaskStatement.update, adopt, Bool.and_eq_true] at hhit
      exact .inl hhit.1
  | cancelPending job =>
      rw [TaskStatement.update, cancelPending]
      exact keepsDead_onLiveOf job _ _
  | cancelLive job =>
      rw [TaskStatement.update, cancelLive]
      exact keepsDead_onLiveOf job _ _
  | start id | finish id | finishControl id | noteInterruption id | requeueLaunch id
  | capacityWait id | settleCanceled id => exact keepsDead_onLive id _ _

theorem keepsDead_recordVerdicts {jobs : JobTable J V} {dag : Dag T}
    {snapshot : Snapshot J T V} {actions : List (ℕ × PassAction)} {tasks later : TaskTable J T V}
    (hlater : actions.foldlM (recordVerdict jobs dag snapshot) tasks = some later) :
    KeepsDead tasks later := by
  apply foldlM_keeps (KeepsDead tasks) _ (KeepsDead.refl tasks) hlater
  intro action _ table next hkeeps hnext
  apply hkeeps.trans
  rw [recordVerdict] at hnext
  split at hnext
  · cases hnext
    exact KeepsDead.refl _
  · split at hnext
    · cases hnext
      exact KeepsDead.refl _
    · dsimp only at hnext
      split at hnext
      · cases hnext
      · cases hnext
        cases action.2 <;> exact keepsDead_onLive _ _ _

/-- A clear archives live rows only, and inserts their successors. -/
theorem keepsDead_clearTasks {job : J} {clear : OpenClear J T} {archived : List (AttemptId J T)}
    {tasks later : TaskTable J T V} (hlater : clearTasks job clear archived tasks = some later) :
    KeepsDead tasks later := by
  rw [clearTasks, Option.map_eq_some_iff] at hlater
  obtain ⟨rotated, hrotated, rfl⟩ := hlater
  have hrestrict (update : TaskUpdate J T V) (keep : AttemptId J T → Bool)
      (hhit : ∀ id row, update.hit id row = true → row.live = true) (table : TaskTable J T V) :
      KeepsDead table ((update.restrict keep).run table) := by
    apply keepsDead_run
    intro id row hmatch
    simp only [Update.restrict, Bool.and_eq_true] at hmatch
    exact .inl (hhit id row hmatch.2)
  have hrestart := hrestrict (restartCleared job clear.taskIds clear.resourceClass)
    (clear.restarted.contains ·) (fun _ _ hhit => (onLiveOf_hit.mp hhit).2.1) tasks
  have harchive := hrestrict (Executor.archiveCleared job clear.taskIds) (archived.contains ·)
    (fun _ _ hhit => (onLiveOf_hit.mp hhit).2.1)
    (((restartCleared job clear.taskIds clear.resourceClass).restrict
      (clear.restarted.contains ·)).run tasks)
  have hinserts : KeepsDead tasks rotated := by
    apply foldlM_keeps (KeepsDead tasks) _ (hrestart.trans harchive) hrotated
    intro id hid table next hkeeps hnext
    refine hkeeps.insertSuccessor ?_ hnext
    -- the row that is archived was live before the clear
    obtain ⟨mid, hmid, hhit⟩ := Update.mem_matched.mp hid
    obtain ⟨old, hold, rfl⟩ := Update.getElem?_run_eq_some_iff.mp hmid
    simp only [Update.restrict, Bool.and_eq_true] at hhit
    have hlive := (onLiveOf_hit.mp hhit.2).2.1
    refine ⟨id.tryNumber, old, hold, ?_⟩
    rw [Update.row] at hlive
    split at hlive <;> exact hlive
  exact hinserts.trans (keepsDead_onLiveOf _ _ _)

/-- A claim changes the live row it picked. -/
theorem keepsDead_claim {tasks : TaskTable J T V} {id : AttemptId J T}
    {row : TaskInstance J T V} {update : TaskUpdate J T V} (hrow : tasks[id]? = some row)
    (hlive : row.live = true) (honly : ∀ k other, update.hit k other = true → k = id) :
    KeepsDead tasks (update.run tasks) where
  row k other hother hdead := by
    rw [Update.getElem?_run, hother, Option.map_some, Update.row, if_neg]
    · exact ⟨other.exitCode, other.terminationReason, rfl⟩
    · intro hhit
      cases honly k other hhit
      rw [hrow] at hother
      cases hother
      rw [hdead] at hlive
      cases hlive
  line k _ hnone := by
    rw [Update.getElem?_run, hnone]
    rfl

variable {dagFor : J → Dag T}

/-- Every change but planning and the second half of a completed restart keeps the archived rows
and the tasks without a live row. -/
theorem TaskChange.keepsDead {plane : ControlPlane J T V} {action : Action J T V}
    {later : TaskTable J T V} (hchange : TaskChange dagFor plane action later)
    (hplan : ∀ job, action ≠ .plan job) (hinsert : action ≠ .insertClearedTry) :
    KeepsDead plane.ledger.tasks later := by
  cases hchange with
  | same => exact KeepsDead.refl _
  | statement statement => exact keepsDead_statement statement
  | claimLaunch ownerEpoch k8sJobName now inFlightCap id row hrow hclaimable =>
      simp only [launchClaimable, Bool.and_eq_true] at hclaimable
      exact keepsDead_claim hrow hclaimable.1.1.1.1.1.1 fun _ _ => claimLaunch_only
  | claimControl ownerEpoch now id row hrow hclaimable =>
      simp only [controlClaimable, Bool.and_eq_true] at hclaimable
      exact keepsDead_claim hrow hclaimable.1.1.1.1 fun _ _ => claimControl_only
  | plan job => exact absurd rfl (hplan job)
  | fail id failure now hash row hrow hhit =>
      apply keepsDead_run
      intro k other hmatch
      simp only [archiveTry, Bool.and_eq_true] at hmatch
      exact .inl hmatch.1.1.1.2
  | retry id failure now hash row later hrow hhit hretries _ hlater =>
      have harchive : KeepsDead plane.ledger.tasks
          ((archiveTry plane.ledger.jobs id failure).run plane.ledger.tasks) := by
        apply keepsDead_run
        intro k other hmatch
        simp only [archiveTry, Bool.and_eq_true] at hmatch
        exact .inl hmatch.1.1.1.2
      refine harchive.insertSuccessor ?_ hlater
      simp only [archiveTry, Bool.and_eq_true] at hhit
      exact hasLive_of_getElem? hrow hhit.1.1.1.2
  | pass snapshot later _ hlater => exact keepsDead_recordVerdicts hlater
  | archiveRestarted => exact keepsDead_onLive _ _ _
  | insertClearedTry => exact absurd rfl hinsert
  | clear job now clear archived later _ _ hlater => exact keepsDead_clearTasks hlater
  | finish => exact keepsDead_onLive _ _ _
  | advance => exact (keepsDead_onLive _ _ _).trans (keepsDead_onLive _ _ _)

/-- The row that the executor has archived to restart it is the last of its task, and the task has
no live row. -/
def HeldDead (plane : ControlPlane J T V) : Prop :=
  ∀ id, plane.executor = .restarted id →
    (∃ row, plane.ledger.tasks[id]? = some row ∧ row.live = false ∧
      row.archivedReason = some .restarted) ∧
    plane.ledger.tasks[id.next]? = none ∧ ¬ HasLive plane.ledger.tasks id.job id.task

/-- The step keeps the row that the executor holds between two statements. -/
theorem HeldDead.step {render : T → String} {plane : ControlPlane J T V} {action : Action J T V}
    (hheld : HeldDead plane) (hnumbered : AllNumbered plane.ledger.tasks) :
    HeldDead (plane.step render dagFor action) := by
  intro id hexecutor
  have htasks : TaskChange dagFor plane action (plane.step render dagFor action).ledger.tasks :=
    taskChange_step plane action
  cases restarted_of_step hexecutor with
  | inl hkeeps =>
      obtain ⟨hbefore, hinsert⟩ := hkeeps
      obtain ⟨⟨row, hrow, hdead, hreason⟩, hnext, hnone⟩ := hheld id hbefore
      by_cases hplan : ∃ job, action = .plan job
      · -- planning waits for the executor to be idle
        obtain ⟨job, rfl⟩ := hplan
        rcases plan_cases render dagFor plane job with hstep | ⟨_, _, _, hidle, _⟩
        · rw [hstep]
          exact hheld id hbefore
        · rw [hidle] at hbefore
          cases hbefore
      · have hkeeps := htasks.keepsDead (fun job hsame => hplan ⟨job, hsame⟩)
          (fun hsame => hinsert hsame)
        obtain ⟨exitCode, reason, hkept⟩ := hkeeps.row id row hrow hdead
        exact ⟨⟨_, hkept, hdead, hreason⟩, hkeeps.line id.next hnone hnext,
          hkeeps.not_hasLive hnone⟩
  | inr harchived =>
      obtain ⟨k8sJobName, exitCode, terminationReason, rfl, harchives⟩ := harchived
      rcases archiveRestarted_cases render dagFor plane id k8sJobName exitCode
        terminationReason with ⟨_, hnot⟩ | ⟨_, hstep⟩
      · exact absurd harchives hnot
      · rw [hstep]
        obtain ⟨_, _, row, hrow, hcondition⟩ := harchives
        have hhit : (archiveRestarted id k8sJobName exitCode terminationReason).hit id row =
            true := archiveRestarted_hit.mpr ⟨rfl, hcondition⟩
        refine ⟨⟨_, Update.getElem?_run_eq_some_iff.mpr ⟨row, hrow, rfl⟩, ?_, ?_⟩, ?_, ?_⟩
        · rw [Update.row, if_pos hhit]
          rfl
        · rw [Update.row, if_pos hhit]
          rfl
        · have hnext : plane.ledger.tasks[id.next]? = none := by
            obtain ⟨n, hn⟩ := hnumbered id.job id.task
            exact hn.next_eq_none hrow hcondition.1
          change ((archiveRestarted id k8sJobName exitCode terminationReason).run
            plane.ledger.tasks)[id.next]? = none
          rw [Update.getElem?_run, hnext]
          rfl
        · exact not_hasLive_archiveRestarted hnumbered hrow hcondition

end EntityResolution.Executor
