/-
# What one step can do

The step function of the control plane is inverted once. `TaskChange` lists the tables of task
rows that an action can leave, each with the conditions under which the step gets there, and
`JobChange` does the same for the table of jobs. Every invariant of the rows is then a case
analysis over these lists, and never unfolds the step function again.
-/

import EntityResolution.Executor.Changes

namespace EntityResolution.Executor

open EntityResolution.Collections EntityResolution.Statements

universe u v w

variable {J : Type u} {T : Type v} {V : Type w} [LinearOrder J] [LinearOrder T]

/-- The action archives a restarting row. -/
def ArchivesRestarted (plane : ControlPlane J T V) : Action J T V → Prop
  | .archiveRestarted id k8sJobName _ _ =>
      plane.executor = .idle ∧ plane.rowLocked id = false ∧
        ∃ row, plane.ledger.tasks[id]? = some row ∧ row.live = true ∧ row.state = .restarting ∧
          row.k8sJobName = k8sJobName
  | _ => False

theorem archiveRestarted_hit {id k : AttemptId J T} {k8sJobName : Option (JobName J T)}
    {exitCode : Option ℤ} {terminationReason : Option String} {row : TaskInstance J T V} :
    (archiveRestarted id k8sJobName exitCode terminationReason).hit k row = true ↔
      k = id ∧ row.live = true ∧ row.state = .restarting ∧ row.k8sJobName = k8sJobName := by
  rw [archiveRestarted, onLive_hit]
  simp only [Bool.and_eq_true, beq_iff_eq]

section Step

variable (render : T → String) (dagFor : J → Dag T)

/-- What the executor's first statement of a completed restart does. -/
theorem archiveRestarted_cases (plane : ControlPlane J T V) (id : AttemptId J T)
    (k8sJobName : Option (JobName J T)) (exitCode : Option ℤ)
    (terminationReason : Option String) :
    (plane.step render dagFor (.archiveRestarted id k8sJobName exitCode terminationReason) =
        plane ∧
      ¬ ArchivesRestarted plane (.archiveRestarted id k8sJobName exitCode terminationReason)) ∨
    (ArchivesRestarted plane (.archiveRestarted id k8sJobName exitCode terminationReason) ∧
      plane.step render dagFor (.archiveRestarted id k8sJobName exitCode terminationReason) =
        { plane.withTasks ((archiveRestarted id k8sJobName exitCode terminationReason).run
            plane.ledger.tasks) with executor := .restarted id }) := by
  rw [ControlPlane.step, ControlPlane.whenIdle]
  cases hexecutor : plane.executor with
  | inPass | restarted =>
      refine .inl ⟨rfl, ?_⟩
      intro harchives
      rw [ArchivesRestarted, hexecutor] at harchives
      cases harchives.1
  | idle =>
      dsimp only
      rw [ControlPlane.archiveRestarted]
      split
      · next hstuck =>
          refine .inl ⟨rfl, ?_⟩
          intro harchives
          obtain ⟨_, hfree, row, hrow, hcondition⟩ := harchives
          rw [hfree, Bool.false_or, Update.idle_eq_true_iff] at hstuck
          have hmiss := hstuck id row hrow
          rw [archiveRestarted_hit.mpr ⟨rfl, hcondition⟩] at hmiss
          cases hmiss
      · next hruns =>
          simp only [Bool.or_eq_true, not_or, Bool.not_eq_true] at hruns
          refine .inr ⟨⟨hexecutor, hruns.1, ?_⟩, rfl⟩
          obtain ⟨k, row, hrow, hhit⟩ := Update.exists_hit_of_idle_eq_false hruns.2
          obtain ⟨rfl, hcondition⟩ := archiveRestarted_hit.mp hhit
          exact ⟨row, hrow, hcondition⟩

/-- What planning does: nothing, or it adds the missing first tries of the graph and marks the
job as planned. -/
theorem plan_cases (plane : ControlPlane J T V) (job : J) :
    plane.step render dagFor (.plan job) = plane ∨
      ∃ row, plane.ledger.jobs[job]? = some row ∧ row.state = .dispatching ∧
        plane.executor = .idle ∧ plane.jobLocked job = false ∧
        plane.step render dagFor (.plan job) =
          { plane with
            ledger :=
              { jobs := (planJob job).run plane.ledger.jobs
                tasks := (dagFor job).nodes.zipIdx.foldl (planNode job row)
                  plane.ledger.tasks } } := by
  rw [ControlPlane.step]
  split
  · exact .inl rfl
  · next hfree =>
      rw [ControlPlane.whenIdle]
      cases hexecutor : plane.executor with
      | inPass | restarted => exact .inl rfl
      | idle =>
          dsimp only
          rw [Executor.plan]
          split
          · exact .inl (by cases plane; cases hexecutor; rfl)
          · next row hrow =>
              split
              · next hhit =>
                  refine .inr ⟨row, hrow, ?_, rfl, by simpa using hfree, rfl⟩
                  simpa [planJob, onJob] using hhit
              · exact .inl (by cases plane; cases hexecutor; rfl)

/-- The tables of task rows that an action can leave. -/
inductive TaskChange (plane : ControlPlane J T V) : Action J T V → TaskTable J T V → Prop
  | same (action : Action J T V) : TaskChange plane action plane.ledger.tasks
  | statement (statement : TaskStatement J T V)
      (hissued : statement.issued plane.ledger.jobs = true)
      (hfree : ∀ id ∈ statement.update.matched plane.ledger.tasks, plane.rowLocked id = false) :
      TaskChange plane (.task statement) (statement.update.run plane.ledger.tasks)
  | claimLaunch (ownerEpoch : String) (k8sJobName : Option (JobName J T)) (now : ℤ)
      (inFlightCap : ℕ) (id : AttemptId J T) (row : TaskInstance J T V)
      (hrow : plane.ledger.tasks[id]? = some row)
      (hclaimable : launchClaimable plane.ledger now inFlightCap id row = true)
      (hfree : plane.rowLocked id = false)
      (hpick : pickClaim plane.ledger plane.rowLocked
        (launchClaimable plane.ledger now inFlightCap) = some id) :
      TaskChange plane (.claimLaunch ownerEpoch k8sJobName now inFlightCap)
        ((Executor.claimLaunch id ownerEpoch k8sJobName).run plane.ledger.tasks)
  | claimControl (ownerEpoch : String) (now : ℤ) (id : AttemptId J T) (row : TaskInstance J T V)
      (hrow : plane.ledger.tasks[id]? = some row)
      (hclaimable : controlClaimable plane.ledger now id row = true)
      (hfree : plane.rowLocked id = false)
      (hpick : pickClaim plane.ledger plane.rowLocked (controlClaimable plane.ledger now) =
        some id) :
      TaskChange plane (.claimControl ownerEpoch now)
        ((Executor.claimControl id ownerEpoch).run plane.ledger.tasks)
  | plan (job : J) (row : Job J V) (hrow : plane.ledger.jobs[job]? = some row)
      (hstate : row.state = .dispatching) :
      TaskChange plane (.plan job)
        ((dagFor job).nodes.zipIdx.foldl (planNode job row) plane.ledger.tasks)
  | fail (id : AttemptId J T) (failure : TaskFailure J T) (now hash : ℤ)
      (row : TaskInstance J T V) (hrow : plane.ledger.tasks[id]? = some row)
      (hhit : (archiveTry plane.ledger.jobs id failure).hit id row = true)
      (hkept : retries failure id row = false) (hfree : plane.rowLocked id = false) :
      TaskChange plane (.failOrRetry id failure now hash)
        ((archiveTry plane.ledger.jobs id failure).run plane.ledger.tasks)
  | retry (id : AttemptId J T) (failure : TaskFailure J T) (now hash : ℤ)
      (row : TaskInstance J T V) (later : TaskTable J T V)
      (hrow : plane.ledger.tasks[id]? = some row)
      (hhit : (archiveTry plane.ledger.jobs id failure).hit id row = true)
      (hretries : retries failure id row = true) (hfree : plane.rowLocked id = false)
      (hlater : insertRetryTry ((archiveTry plane.ledger.jobs id failure).run plane.ledger.tasks)
        id failure.escalate failure.backoff now hash = some later) :
      TaskChange plane (.failOrRetry id failure now hash) later
  | pass (snapshot : Snapshot J T V) (later : TaskTable J T V)
      (hexecutor : plane.executor = .inPass snapshot)
      (hlater : (Executor.pass (dagFor snapshot.job)
          (liveStates (dagFor snapshot.job) snapshot)).foldlM
        (recordVerdict plane.ledger.jobs (dagFor snapshot.job) snapshot) plane.ledger.tasks =
          some later) :
      TaskChange plane .commitPass later
  | archiveRestarted (id : AttemptId J T) (k8sJobName : Option (JobName J T))
      (exitCode : Option ℤ) (terminationReason : Option String)
      (harchives : ArchivesRestarted plane
        (.archiveRestarted id k8sJobName exitCode terminationReason)) :
      TaskChange plane (.archiveRestarted id k8sJobName exitCode terminationReason)
        ((Executor.archiveRestarted id k8sJobName exitCode terminationReason).run
          plane.ledger.tasks)
  | insertClearedTry (id : AttemptId J T) (later : TaskTable J T V)
      (hexecutor : plane.executor = .restarted id)
      (hlater : Executor.insertClearedTry plane.ledger.tasks id none 2 = some later) :
      TaskChange plane .insertClearedTry later
  | clear (job : J) (now : ℤ) (clear : OpenClear J T) (archived : List (AttemptId J T))
      (later : TaskTable J T V) (hclear : plane.clears[job]? = some clear)
      (harchived : clear.archived = some archived)
      (hlater : clearTasks job clear archived plane.ledger.tasks = some later) :
      TaskChange plane (.commitClear job now) later
  | finish (finishedId : AttemptId J T) (podUid : String) (skipped : Bool) (outcome : Outcome)
      (output : Option V) (exitCode : Option ℤ) (next : Option (AdvanceArgs J T V))
      (hfree : handOffLocked plane finishedId next = false) :
      TaskChange plane (.handOff finishedId podUid skipped outcome output exitCode next)
        ((Executor.finish finishedId podUid skipped outcome output exitCode).run
          plane.ledger.tasks)
  | advance (finishedId : AttemptId J T) (podUid : String) (skipped : Bool) (outcome : Outcome)
      (output : Option V) (exitCode : Option ℤ) (args : AdvanceArgs J T V)
      (row : TaskInstance J T V) (hfree : handOffLocked plane finishedId (some args) = false)
      (hrow : plane.ledger.tasks[finishedId]? = some row)
      (hhit : (Executor.finish finishedId podUid skipped outcome output exitCode).hit finishedId
        row = true) :
      TaskChange plane (.handOff finishedId podUid skipped outcome output exitCode (some args))
        ((advanceSegment plane.ledger.jobs args
            ((Executor.finish finishedId podUid skipped outcome output exitCode).set finishedId
              row) podUid).run
          ((Executor.finish finishedId podUid skipped outcome output exitCode).run
            plane.ledger.tasks))

variable {dagFor}

/-- Failing or retrying a try is one of the two changes, or nothing. -/
theorem taskChange_failOrRetry {plane : ControlPlane J T V} {id : AttemptId J T}
    {failure : TaskFailure J T} {now hash : ℤ} (hfree : plane.rowLocked id = false) :
    TaskChange dagFor plane (.failOrRetry id failure now hash)
      (failOrRetryTask plane.ledger id failure now hash) := by
  rw [failOrRetryTask]
  cases hrow : plane.ledger.tasks[id]? with
  | none => exact .same _
  | some row =>
      dsimp only
      split
      · next hhit =>
          split
          · next hretries =>
              cases hlater : insertRetryTry ((archiveTry plane.ledger.jobs id failure).run
                  plane.ledger.tasks) id failure.escalate failure.backoff now hash with
              | none => exact .same _
              | some later =>
                  exact .retry id failure now hash row later hrow hhit hretries hfree hlater
          · next hkept =>
              exact .fail id failure now hash row hrow hhit (by simpa using hkept) hfree
      · exact .same _

/-- A hand-off finishes its row and may start the next one, or does nothing. -/
theorem taskChange_handOff {plane : ControlPlane J T V} {finishedId : AttemptId J T}
    {podUid : String} {skipped : Bool} {outcome : Outcome} {output : Option V}
    {exitCode : Option ℤ} {next : Option (AdvanceArgs J T V)}
    (hfree : handOffLocked plane finishedId next = false) :
    TaskChange dagFor plane (.handOff finishedId podUid skipped outcome output exitCode next)
      (finishAndAdvance plane.ledger finishedId podUid skipped outcome output exitCode next) := by
  unfold finishAndAdvance
  dsimp only
  split
  · next row args hrow =>
      split
      · next hhit =>
          exact .advance finishedId podUid skipped outcome output exitCode args row hfree hrow hhit
      · exact .same _
  · exact .finish finishedId podUid skipped outcome output exitCode _ hfree

variable {render}

/-- Every step leaves one of the listed tables. -/
theorem taskChange_step (plane : ControlPlane J T V) (action : Action J T V) :
    TaskChange dagFor plane action (plane.step render dagFor action).ledger.tasks := by
  cases action with
  | job statement =>
      rw [ControlPlane.step]
      split <;> exact .same _
  | task statement =>
      rw [ControlPlane.step]
      split
      · next hissued =>
          rw [ControlPlane.runTask]
          split
          · exact .same _
          · next hfree =>
              apply TaskChange.statement statement hissued
              intro id hid
              rw [List.any_eq_true] at hfree
              simpa using fun hlocked => hfree ⟨id, hid, hlocked⟩
      · exact .same _
  | claimLaunch ownerEpoch k8sJobName now inFlightCap =>
      rw [ControlPlane.step, ControlPlane.claim]
      split
      · exact .same _
      · next id hpick =>
          obtain ⟨hfree, row, hrow, hclaimable⟩ := pickClaim_some hpick
          exact .claimLaunch ownerEpoch k8sJobName now inFlightCap id row hrow
            hclaimable hfree hpick
  | claimControl ownerEpoch now =>
      rw [ControlPlane.step, ControlPlane.claim]
      split
      · exact .same _
      · next id hpick =>
          obtain ⟨hfree, row, hrow, hclaimable⟩ := pickClaim_some hpick
          exact .claimControl ownerEpoch now id row hrow hclaimable hfree hpick
  | plan job =>
      rcases plan_cases render dagFor plane job with hstep | ⟨row, hrow, hstate, _, _, hstep⟩
      · rw [hstep]
        exact .same _
      · rw [hstep]
        exact .plan job row hrow hstate
  | failOrRetry id failure now hash =>
      rw [ControlPlane.step]
      split
      · exact .same _
      · next hfree => exact taskChange_failOrRetry (by simpa using hfree)
  | openPass job =>
      rw [ControlPlane.step, ControlPlane.whenIdle]
      split
      · rw [ControlPlane.openPass]
        split
        · exact .same _
        · split
          · split <;> exact .same _
          · exact .same _
      · exact .same _
  | commitPass =>
      rw [ControlPlane.step]
      split
      · next snapshot hexecutor =>
          dsimp only
          rw [readinessFor]
          split
          · exact .same _
          · next later hlater => exact .pass snapshot later hexecutor hlater
      · exact .same _
  | archiveRestarted id k8sJobName exitCode terminationReason =>
      rcases archiveRestarted_cases render dagFor plane id k8sJobName exitCode
        terminationReason with ⟨hstep, _⟩ | ⟨harchives, hstep⟩
      · rw [hstep]
        exact .same _
      · rw [hstep]
        exact .archiveRestarted id k8sJobName exitCode terminationReason harchives
  | insertClearedTry =>
      rw [ControlPlane.step]
      split
      · next id hexecutor =>
          cases hlater : Executor.insertClearedTry plane.ledger.tasks id none 2 with
          | none => exact .same _
          | some later => exact .insertClearedTry id later hexecutor hlater
      · exact .same _
  | stop => exact .same _
  | openClear job taskIds retries resourceClass =>
      rw [ControlPlane.step, ControlPlane.openClear]
      split
      · exact .same _
      · split
        · exact .same _
        · split <;> exact .same _
  | archiveCleared job =>
      rw [ControlPlane.step, ControlPlane.archiveCleared]
      split
      · split <;> exact .same _
      · exact .same _
  | commitClear job now =>
      rw [ControlPlane.step, ControlPlane.commitClear]
      split
      · exact .same _
      · next clear hclear =>
          split
          · exact .same _
          · next archived harchived =>
              split
              · exact .same _
              · next later hlater =>
                  exact .clear job now clear archived later hclear harchived hlater
  | abortClear job => exact .same _
  | readOrder job =>
      rw [ControlPlane.step]
      split <;> exact .same _
  | handOff finishedId podUid skipped outcome output exitCode next =>
      rw [ControlPlane.step]
      split
      · exact .same _
      · next hfree => exact taskChange_handOff (by simpa using hfree)

/-! ## The jobs -/

theorem settlement_eq_some {dag : Dag T} {snapshot : Snapshot J T V} {states : List TaskState}
    {update : Update J (Job J V)} (hupdate : settlement render dag snapshot states = some update) :
    ∃ state errorClass errorDetail,
      update = settleJob snapshot.job state errorClass errorDetail := by
  rw [settlement] at hupdate
  split at hupdate
  · cases hupdate
  · cases hupdate
    exact ⟨_, _, _, rfl⟩
  · cases hupdate
    exact ⟨_, _, _, rfl⟩

/-- The tables of jobs that an action can leave. -/
inductive JobChange (render : T → String) (dagFor : J → Dag T) (plane : ControlPlane J T V) :
    Action J T V → JobTable J V → Prop
  | same (action : Action J T V) : JobChange render dagFor plane action plane.ledger.jobs
  | statement (statement : JobStatement J V) (hfree : plane.jobLocked statement.job = false) :
      JobChange render dagFor plane (.job statement) (statement.run plane.ledger.jobs)
  | plan (job : J) (row : Job J V) (hrow : plane.ledger.jobs[job]? = some row)
      (hstate : row.state = .dispatching) :
      JobChange render dagFor plane (.plan job) ((planJob job).run plane.ledger.jobs)
  | settle (snapshot : Snapshot J T V) (effective : List TaskState) (update : Update J (Job J V))
      (hexecutor : plane.executor = .inPass snapshot)
      (hupdate : settlement render (dagFor snapshot.job) snapshot effective = some update) :
      JobChange render dagFor plane .commitPass (update.run plane.ledger.jobs)
  | reopen (job : J) (now : ℤ) (clear : OpenClear J T) (hclear : plane.clears[job]? = some clear) :
      JobChange render dagFor plane (.commitClear job now)
        ((Executor.reopen job now).run plane.ledger.jobs)

/-- Every step leaves one of the listed tables. -/
theorem jobChange_step (plane : ControlPlane J T V) (action : Action J T V) :
    JobChange render dagFor plane action (plane.step render dagFor action).ledger.jobs := by
  cases action with
  | job statement =>
      rw [ControlPlane.step]
      split
      · exact .same _
      · next hfree => exact .statement statement (by simpa using hfree)
  | task statement =>
      rw [ControlPlane.step]
      split
      · rw [ControlPlane.runTask]
        split <;> exact .same _
      · exact .same _
  | claimLaunch | claimControl =>
      rw [ControlPlane.step, ControlPlane.claim]
      split <;> exact .same _
  | plan job =>
      rcases plan_cases render dagFor plane job with hstep | ⟨row, hrow, hstate, _, _, hstep⟩
      · rw [hstep]
        exact .same _
      · rw [hstep]
        exact .plan job row hrow hstate
  | failOrRetry | readOrder | handOff =>
      rw [ControlPlane.step]
      split <;> exact .same _
  | openPass =>
      rw [ControlPlane.step, ControlPlane.whenIdle]
      split
      · rw [ControlPlane.openPass]
        split
        · exact .same _
        · split
          · split <;> exact .same _
          · exact .same _
      · exact .same _
  | commitPass =>
      rw [ControlPlane.step]
      split
      · next snapshot hexecutor =>
          dsimp only
          rw [readinessFor]
          split
          · exact .same _
          · dsimp only
            split
            · exact .same _
            · next update hupdate => exact .settle snapshot _ update hexecutor hupdate
      · exact .same _
  | archiveRestarted id k8sJobName exitCode terminationReason =>
      rcases archiveRestarted_cases render dagFor plane id k8sJobName exitCode
        terminationReason with ⟨hstep, _⟩ | ⟨_, hstep⟩
      · rw [hstep]
        exact .same _
      · rw [hstep]
        exact .same _
  | insertClearedTry =>
      rw [ControlPlane.step]
      split <;> exact .same _
  | stop | abortClear => exact .same _
  | openClear =>
      rw [ControlPlane.step, ControlPlane.openClear]
      split
      · exact .same _
      · split
        · exact .same _
        · split <;> exact .same _
  | archiveCleared =>
      rw [ControlPlane.step, ControlPlane.archiveCleared]
      split
      · split <;> exact .same _
      · exact .same _
  | commitClear job now =>
      rw [ControlPlane.step, ControlPlane.commitClear]
      split
      · exact .same _
      · next clear hclear =>
          split
          · exact .same _
          · split
            · exact .same _
            · exact .reopen job now clear hclear

/-- What the clear of a job can be after an action, while it stays open. -/
inductive ClearChange (plane : ControlPlane J T V) (job : J) :
    Action J T V → OpenClear J T → Prop
  | kept (action : Action J T V) (clear : OpenClear J T) (hclear : plane.clears[job]? = some clear)
      (hcommit : ∀ now, action = .commitClear job now → clear.archived = none) :
      ClearChange plane job action clear
  | opened (taskIds : List T) (retries : ℤ) (resourceClass : Option ResourceClass)
      (row : Job J V) (hfree : plane.jobLocked job = false)
      (hrow : plane.ledger.jobs[job]? = some row) (hstate : row.state ≠ .canceling) :
      ClearChange plane job (.openClear job taskIds retries resourceClass)
        { taskIds := taskIds
          retries := retries
          resourceClass := resourceClass
          restarted := (restartCleared job taskIds resourceClass).matched plane.ledger.tasks
          archived := none }
  | archived (clear : OpenClear J T) (hclear : plane.clears[job]? = some clear)
      (hnone : clear.archived = none) :
      ClearChange plane job (.archiveCleared job)
        { clear with
          archived :=
            some ((Executor.archiveCleared job clear.taskIds).matched plane.ledger.tasks) }

/-- The actions that open a clear, move it on or close it. -/
def Action.writesClears : Action J T V → Bool
  | .openClear .. | .archiveCleared _ | .commitClear .. | .abortClear _ => true
  | _ => false

/-- The other actions leave the open clears as they are. -/
theorem clears_step (plane : ControlPlane J T V) {action : Action J T V}
    (hother : action.writesClears = false) :
    (plane.step render dagFor action).clears = plane.clears := by
  cases action with
  | job | failOrRetry | readOrder | handOff | commitPass | insertClearedTry =>
      rw [ControlPlane.step]
      split <;> rfl
  | task =>
      rw [ControlPlane.step]
      split
      · rw [ControlPlane.runTask]
        split <;> rfl
      · rfl
  | claimLaunch | claimControl =>
      rw [ControlPlane.step, ControlPlane.claim]
      split <;> rfl
  | plan planned =>
      rcases plan_cases render dagFor plane planned with hstep | ⟨_, _, _, _, _, hstep⟩
      · rw [hstep]
      · rw [hstep]
  | openPass opened =>
      rw [ControlPlane.step, ControlPlane.whenIdle]
      split
      · rw [ControlPlane.openPass]
        split
        · rfl
        · split
          · split <;> rfl
          · rfl
      · rfl
  | archiveRestarted id k8sJobName exitCode terminationReason =>
      rcases archiveRestarted_cases render dagFor plane id k8sJobName exitCode
        terminationReason with ⟨hstep, _⟩ | ⟨_, hstep⟩
      · rw [hstep]
      · rw [hstep]
        rfl
  | stop => rfl
  | openClear | archiveCleared | commitClear | abortClear => cases hother

/-- Every clear that is open after a step was open before, or was opened by the step. -/
theorem clearChange_step (plane : ControlPlane J T V) (action : Action J T V) {job : J}
    {clear : OpenClear J T}
    (hclear : (plane.step render dagFor action).clears[job]? = some clear) :
    ClearChange plane job action clear := by
  by_cases hwrites : action.writesClears = false
  · rw [clears_step plane hwrites] at hclear
    apply ClearChange.kept action clear hclear
    intro now hsame
    rw [hsame] at hwrites
    cases hwrites
  cases action with
  | openClear opened taskIds retries resourceClass =>
      rw [ControlPlane.step, ControlPlane.openClear] at hclear
      split at hclear
      · exact .kept _ _ hclear fun _ => nofun
      · next hfree =>
          split at hclear
          · exact .kept _ _ hclear fun _ => nofun
          · next row hrow =>
              split at hclear
              · exact .kept _ _ hclear fun _ => nofun
              · next hstate =>
                  dsimp only at hclear
                  rw [BTreeMap.getElem?_insert_eq_ite] at hclear
                  split at hclear
                  · next hsame =>
                      cases hclear
                      subst hsame
                      exact .opened taskIds retries resourceClass row (by simpa using hfree) hrow
                        hstate
                  · exact .kept _ _ hclear fun _ => nofun
  | archiveCleared cleared =>
      rw [ControlPlane.step, ControlPlane.archiveCleared] at hclear
      split at hclear
      · next old hold =>
          split at hclear
          · exact .kept _ _ hclear fun _ => nofun
          · next hnone =>
              dsimp only at hclear
              rw [BTreeMap.getElem?_insert_eq_ite] at hclear
              split at hclear
              · next hsame =>
                  cases hclear
                  subst hsame
                  exact .archived old hold (by simpa using hnone)
              · exact .kept _ _ hclear fun _ => nofun
      · exact .kept _ _ hclear fun _ => nofun
  | commitClear committed now =>
      rw [ControlPlane.step, ControlPlane.commitClear] at hclear
      split at hclear
      · next hnone =>
          apply ClearChange.kept _ _ hclear
          intro now hsame
          cases hsame
          rw [hnone] at hclear
          cases hclear
      · next old hold =>
          split at hclear
          · next hnone =>
              apply ClearChange.kept _ _ hclear
              intro now hsame
              cases hsame
              rw [hold, Option.some.injEq] at hclear
              rw [← hclear]
              exact hnone
          · -- the clear of the committed job is closed, the others stay
            have hkept : (plane.clears.erase committed)[job]? = some clear := by
              split at hclear <;> exact hclear
            rw [Std.ExtTreeMap.getElem?_erase] at hkept
            split at hkept
            · cases hkept
            · next hother =>
                apply ClearChange.kept _ _ hkept
                intro now hsame
                cases hsame
                simp at hother
  | abortClear aborted =>
      have hkept : (plane.clears.erase aborted)[job]? = some clear := hclear
      rw [Std.ExtTreeMap.getElem?_erase] at hkept
      split at hkept
      · cases hkept
      · exact .kept _ _ hkept fun _ => nofun
  | _ => exact absurd rfl hwrites

/-! ## The executor -/

/-- What the executor can hold after an action. -/
inductive ExecutorChange (plane : ControlPlane J T V) :
    Action J T V → ExecutorPhase J T V → Prop
  | same (action : Action J T V)
      (hinsert : action = .insertClearedTry → ∀ id, plane.executor ≠ .restarted id) :
      ExecutorChange plane action plane.executor
  | stop : ExecutorChange plane .stop .idle
  | commitPass (snapshot : Snapshot J T V) (hexecutor : plane.executor = .inPass snapshot) :
      ExecutorChange plane .commitPass .idle
  | insertClearedTry (id : AttemptId J T) (hexecutor : plane.executor = .restarted id) :
      ExecutorChange plane .insertClearedTry .idle
  | openPass (job : J) (row : Job J V) (snapshot : Snapshot J T V)
      (hexecutor : plane.executor = .idle) (hrow : plane.ledger.jobs[job]? = some row)
      (hstate : row.state = .running ∨ row.state = .canceling)
      (hread : readJob plane.ledger job = some snapshot) :
      ExecutorChange plane (.openPass job) (.inPass snapshot)
  | archiveRestarted (id : AttemptId J T) (k8sJobName : Option (JobName J T))
      (exitCode : Option ℤ) (terminationReason : Option String)
      (harchives : ArchivesRestarted plane
        (.archiveRestarted id k8sJobName exitCode terminationReason)) :
      ExecutorChange plane (.archiveRestarted id k8sJobName exitCode terminationReason)
        (.restarted id)

/-- Every step leaves the executor in one of the listed phases. -/
theorem executorChange_step (plane : ControlPlane J T V) (action : Action J T V) :
    ExecutorChange plane action (plane.step render dagFor action).executor := by
  cases action with
  | job | failOrRetry | readOrder | handOff =>
      rw [ControlPlane.step]
      split <;> exact .same _ nofun
  | task =>
      rw [ControlPlane.step]
      split
      · rw [ControlPlane.runTask]
        split <;> exact .same _ nofun
      · exact .same _ nofun
  | claimLaunch | claimControl =>
      rw [ControlPlane.step, ControlPlane.claim]
      split <;> exact .same _ nofun
  | plan job =>
      rcases plan_cases render dagFor plane job with hstep | ⟨_, _, _, _, _, hstep⟩
      · rw [hstep]
        exact .same _ nofun
      · rw [hstep]
        exact .same _ nofun
  | openPass job =>
      rw [ControlPlane.step, ControlPlane.whenIdle]
      split
      · next hexecutor =>
          rw [ControlPlane.openPass]
          split
          · exact .same _ nofun
          · split
            · next row snapshot hrow hread =>
                split
                · next hstate =>
                    simp only [Bool.or_eq_true, decide_eq_true_eq] at hstate
                    exact .openPass job row snapshot hexecutor hrow hstate hread
                · exact .same _ nofun
            · exact .same _ nofun
      · exact .same _ nofun
  | commitPass =>
      rw [ControlPlane.step]
      split
      · next snapshot hexecutor => exact .commitPass snapshot hexecutor
      · exact .same _ nofun
  | archiveRestarted id k8sJobName exitCode terminationReason =>
      rcases archiveRestarted_cases render dagFor plane id k8sJobName exitCode
        terminationReason with ⟨hstep, _⟩ | ⟨harchives, hstep⟩
      · rw [hstep]
        exact .same _ nofun
      · rw [hstep]
        exact .archiveRestarted id k8sJobName exitCode terminationReason harchives
  | insertClearedTry =>
      rw [ControlPlane.step]
      split
      · next id hexecutor => exact .insertClearedTry id hexecutor
      · next hother => exact .same _ fun _ id hexecutor => hother id hexecutor
  | stop => exact .stop
  | openClear =>
      rw [ControlPlane.step, ControlPlane.openClear]
      split
      · exact .same _ nofun
      · split
        · exact .same _ nofun
        · split <;> exact .same _ nofun
  | archiveCleared =>
      rw [ControlPlane.step, ControlPlane.archiveCleared]
      split
      · split <;> exact .same _ nofun
      · exact .same _ nofun
  | commitClear =>
      rw [ControlPlane.step, ControlPlane.commitClear]
      split
      · exact .same _ nofun
      · split
        · exact .same _ nofun
        · split <;> exact .same _ nofun
  | abortClear => exact .same _ nofun

/-- The executor is in a pass that was open, or that the step opens. -/
theorem inPass_of_step {plane : ControlPlane J T V} {action : Action J T V}
    {snapshot : Snapshot J T V}
    (hexecutor : (plane.step render dagFor action).executor = .inPass snapshot) :
    plane.executor = .inPass snapshot ∨
      ∃ job row, action = .openPass job ∧ plane.executor = .idle ∧
        plane.ledger.jobs[job]? = some row ∧ (row.state = .running ∨ row.state = .canceling) ∧
        readJob plane.ledger job = some snapshot := by
  have hchange : ExecutorChange plane action (plane.step render dagFor action).executor :=
    executorChange_step plane action
  rw [hexecutor] at hchange
  generalize hphase : (ExecutorPhase.inPass snapshot : ExecutorPhase J T V) = phase at hchange
  cases hchange with
  | same => exact .inl rfl
  | openPass job row opened hidle hrow hstate hread =>
      cases hphase
      exact .inr ⟨job, row, rfl, hidle, hrow, hstate, hread⟩
  | stop | commitPass | insertClearedTry | archiveRestarted => cases hphase

/-- The executor holds a row that it held, or that the step archives. -/
theorem restarted_of_step {plane : ControlPlane J T V} {action : Action J T V}
    {id : AttemptId J T}
    (hexecutor : (plane.step render dagFor action).executor = .restarted id) :
    plane.executor = .restarted id ∧ action ≠ .insertClearedTry ∨
      ∃ k8sJobName exitCode terminationReason,
        action = .archiveRestarted id k8sJobName exitCode terminationReason ∧
          ArchivesRestarted plane action := by
  have hchange : ExecutorChange plane action (plane.step render dagFor action).executor :=
    executorChange_step plane action
  rw [hexecutor] at hchange
  generalize hphase : (ExecutorPhase.restarted id : ExecutorPhase J T V) = phase at hchange
  cases hchange with
  | same _ hinsert => exact .inl ⟨rfl, fun hsame => hinsert hsame id hphase.symm⟩
  | archiveRestarted archived k8sJobName exitCode terminationReason harchives =>
      cases hphase
      exact .inr ⟨k8sJobName, exitCode, terminationReason, rfl, harchives⟩
  | stop | commitPass | insertClearedTry | openPass => cases hphase

end Step

end EntityResolution.Executor
