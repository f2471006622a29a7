/-
# Accepted cancels

A cancel is accepted when `cancel.sql` moves the job: a queued job is canceled at once, and a
dispatching or running one is canceling until its run has stopped. From then on, unless the job is
cleared, it should be canceling, canceled or failed.

The guarded statements respect that. Three others do not look for a cancel: an arm's `mark`, an
arm's `fail_or_retry` that retries, and the settle of a readiness pass, whose guard admits a
canceling job and whose outcome is read off the leaves of the graph. `resume` requeues a canceled
job on purpose.
-/

import EntityResolution.Executor.WriterLock

namespace EntityResolution.Executor

open EntityResolution.Collections EntityResolution.Runs EntityResolution.Statements
  EntityResolution.Tables

universe u v w x

variable {J : Type u} {T : Type v} {V : Type w} {D : Type x}

/-- The job is being canceled, or ended without success. -/
def JobState.isStopped (state : JobState) : Bool :=
  state == .canceling || state == .canceled || state == .failed

section Cancels

variable [LinearOrder J] [LinearOrder T]

/-- The queue, and the jobs whose cancel was accepted and that were not cleared since. -/
structure Cancels (J : Type u) (T : Type v) (V : Type w) [LinearOrder J] [LinearOrder T] where
  queue : Queue J T V
  canceled : J → Bool

/-- Nothing canceled in an empty queue. -/
def Cancels.fresh : Cancels J T V where
  queue := Queue.fresh
  canceled _ := false

/-- `cancel.sql` would move the job. -/
def cancelAccepted (plane : ControlPlane J T V) (job : J) : Bool :=
  !plane.jobLocked job && (plane.ledger.jobs[job]?).any ((cancelJob job).hit job)

/-- The open clear of the job would commit. -/
def clearCommits (plane : ControlPlane J T V) (job : J) : Bool :=
  (plane.clears[job]?).any fun clear =>
    clear.archived.any fun archived =>
      (clearTasks job clear archived plane.ledger.tasks).isSome

/-- The pass records all of its verdicts. -/
def passRecords (jobs : JobTable J V) (tasks : TaskTable J T V) (dag : Dag T)
    (snapshot : Snapshot J T V) : Bool :=
  ((pass dag (liveStates dag snapshot)).foldlM (recordVerdict jobs dag snapshot) tasks).isSome

section Step

variable [DecidableEq D] (datasetOf : J → Option D) (maxAttempts : J → ℕ) (render : T → String)
  (dagFor : J → Dag T)

/-- One step, with the accepted cancels. -/
def Cancels.step (cancels : Cancels J T V) (action : QueueAction J T V) : Cancels J T V where
  queue := cancels.queue.step datasetOf maxAttempts render dagFor action
  canceled :=
    match action with
    | .plane (.job (.cancel job)) =>
        if cancelAccepted cancels.queue.plane job then Function.update cancels.canceled job true
        else cancels.canceled
    | .plane (.commitClear job _) =>
        if clearCommits cancels.queue.plane job then Function.update cancels.canceled job false
        else cancels.canceled
    | _ => cancels.canceled

/-- Every accepted cancel stands. -/
def CancelsStand (jobs : JobTable J V) (canceled : J → Bool) : Prop :=
  ∀ job, canceled job = true → ∃ row, jobs[job]? = some row ∧ row.state.isStopped = true

/-- When a step leaves the accepted cancels standing: no arm marks a canceled job running or
succeeded or retries it, it is not resumed, and no pass finds the job canceling when every leaf of
its graph has succeeded or was skipped. -/
def LeavesCanceled (cancels : Cancels J T V) : QueueAction J T V → Prop
  | .markRunning job =>
      ⟨job, .claimed⟩ ∈ cancels.queue.arms → cancels.queue.plane.jobLocked job = false →
        clashes datasetOf cancels.queue.plane.ledger.jobs job = false →
        cancels.canceled job = false
  | .endArm job .succeeded =>
      ⟨job, .running⟩ ∈ cancels.queue.arms → cancels.queue.plane.jobLocked job = false →
        cancels.canceled job = false
  | .endArm job (.failOrRetry retryable _ _ _) =>
      ⟨job, .running⟩ ∈ cancels.queue.arms → cancels.queue.plane.jobLocked job = false →
        retryable = true → cancels.queue.attempt job < maxAttempts job →
        cancels.canceled job = false
  | .plane (.job (.resume job _)) =>
      cancels.queue.plane.jobLocked job = false →
        (∀ row, cancels.queue.plane.ledger.jobs[job]? = some row →
          row.state = .failed ∨ row.state = .canceled) →
        cancels.canceled job = false
  | .plane .commitPass =>
      ∀ snapshot row, cancels.queue.plane.executor = .inPass snapshot →
        cancels.queue.plane.ledger.jobs[snapshot.job]? = some row → row.state = .canceling →
        passRecords cancels.queue.plane.ledger.jobs cancels.queue.plane.ledger.tasks
          (dagFor snapshot.job) snapshot = true →
        settle (dagFor snapshot.job) (passStates (dagFor snapshot.job) snapshot) =
          .settled .succeeded →
        cancels.canceled snapshot.job = false
  | _ => True

end Step

section Keeps

variable {canceled : J → Bool}

omit [LinearOrder T]

theorem JobState.isStopped_iff {state : JobState} :
    state.isStopped = true ↔ state = .canceling ∨ state = .canceled ∨ state = .failed := by
  cases state <;> simp [JobState.isStopped]

/-- A job statement that takes no stopped job out of the stopped states. -/
theorem CancelsStand.run {jobs : JobTable J V} (hstand : CancelsStand jobs canceled)
    {update : Update J (Job J V)}
    (hset : ∀ job row, update.hit job row = true → row.state.isStopped = true →
      (update.set job row).state.isStopped = true) :
    CancelsStand (update.run jobs) canceled := by
  intro job hcanceled
  obtain ⟨row, hrow, hstopped⟩ := hstand job hcanceled
  refine ⟨update.row job row, Update.getElem?_run_eq_some_iff.mpr ⟨row, hrow, rfl⟩, ?_⟩
  rw [Update.row]
  split
  · next hhit => exact hset job row hhit hstopped
  · exact hstopped

/-- A statement that moves one job to a state that is not stopped keeps the cancels standing
exactly when no cancel of that job was accepted. -/
theorem cancelsStand_overwrite {jobs : JobTable J V} (hstand : CancelsStand jobs canceled)
    {job : J} {condition : Job J V → Bool} {set : Job J V → Job J V}
    (hcondition : ∀ row, jobs[job]? = some row → row.state.isStopped = true →
      condition row = true)
    (hset : ∀ row, (set row).state.isStopped = false) :
    CancelsStand ((onJob job condition set).run jobs) canceled ↔ canceled job = false := by
  apply Iff.intro
  · intro hlater
    rw [← Bool.not_eq_true]
    intro hcanceled
    obtain ⟨row, hrow, hstopped⟩ := hstand job hcanceled
    obtain ⟨new, hnew, hstoppedNew⟩ := hlater job hcanceled
    rw [getElem?_onJob_self hrow (hcondition row hrow hstopped), Option.some.injEq] at hnew
    rw [← hnew, hset row] at hstoppedNew
    cases hstoppedNew
  · intro hnot other hcanceled
    have hne : other ≠ job := by
      rintro rfl
      rw [hnot] at hcanceled
      cases hcanceled
    rw [getElem?_onJob_of_ne hne]
    exact hstand other hcanceled

/-- A job statement whose condition no stopped job meets. -/
theorem CancelsStand.run_onJob {jobs : JobTable J V} (hstand : CancelsStand jobs canceled)
    {job : J} {condition : Job J V → Bool} {set : Job J V → Job J V}
    (hcondition : ∀ row, row.state.isStopped = true → condition row = false) :
    CancelsStand ((onJob job condition set).run jobs) canceled := by
  apply hstand.run
  intro k row hhit hstopped
  have hmet := (onJob_hit.mp hhit).2
  rw [hcondition row hstopped] at hmet
  cases hmet

theorem CancelsStand.plan {jobs : JobTable J V} (hstand : CancelsStand jobs canceled) (job : J) :
    CancelsStand ((planJob job).run jobs) canceled := by
  apply hstand.run_onJob
  intro row hstopped
  cases hstate : row.state <;> simp_all [JobState.isStopped]

/-- No single statement but `resume` takes a job out of the stopped states. -/
theorem CancelsStand.statement {jobs : JobTable J V} (hstand : CancelsStand jobs canceled)
    (statement : JobStatement J V) (hresume : ∀ job now, statement ≠ .resume job now) :
    CancelsStand (statement.run jobs) canceled := by
  cases statement with
  | enqueue job orgId priority params resourceClass =>
      intro other hcanceled
      obtain ⟨row, hrow, hstopped⟩ := hstand other hcanceled
      refine ⟨row, ?_, hstopped⟩
      rw [JobStatement.run, enqueue]
      split
      · exact hrow
      · next habsent =>
          rw [BTreeMap.getElem?_insert_eq_ite, if_neg]
          · exact hrow
          · rintro rfl
            apply habsent
            rw [Std.ExtTreeMap.contains_eq_isSome_getElem?, hrow]
            rfl
  | claim job now =>
      apply hstand.run_onJob
      intro row hstopped
      cases hstate : row.state <;> simp_all [JobState.isStopped]
  | refusePlan job errorClass errorDetail =>
      apply hstand.run_onJob
      intro row hstopped
      cases hstate : row.state <;> simp_all [JobState.isStopped]
  | cancel job =>
      apply hstand.run_onJob
      intro row hstopped
      cases hstate : row.state <;> simp_all [JobState.isStopped]
  | resume job now => exact absurd rfl (hresume job now)

end Keeps

section Settle

variable {render : T → String} {dag : Dag T}

omit [LinearOrder J] [LinearOrder T] in
theorem settle_settled {states : List TaskState} {outcome : TaskState}
    (hsettle : settle dag states = .settled outcome) :
    outcome = .failed ∨ outcome = .canceled ∨ outcome = .succeeded := by
  rw [settle] at hsettle
  split at hsettle
  · split at hsettle <;> cases hsettle
  · dsimp only at hsettle
    split at hsettle
    · cases hsettle
      exact .inl rfl
    · split at hsettle
      · cases hsettle
        exact .inr (.inl rfl)
      · cases hsettle
        exact .inr (.inr rfl)

/-- A settlement writes a failure, a cancel, or the success of all leaves. -/
theorem settlement_cases {snapshot : Snapshot J T V} {states : List TaskState}
    {update : Update J (Job J V)}
    (hupdate : settlement render dag snapshot states = some update) :
    ∃ state errorClass errorDetail,
      update = settleJob snapshot.job state errorClass errorDetail ∧
        (state.isStopped = true ∧ settle dag states ≠ .settled .succeeded ∨
          state = .succeeded ∧ settle dag states = .settled .succeeded) := by
  rw [settlement] at hupdate
  split at hupdate
  · cases hupdate
  · next outcome hsettle =>
      cases hupdate
      refine ⟨_, _, _, rfl, ?_⟩
      rcases settle_settled hsettle with rfl | rfl | rfl
      · left
        rw [hsettle]
        exact ⟨rfl, by decide⟩
      · left
        rw [hsettle]
        exact ⟨rfl, by decide⟩
      · exact .inr ⟨rfl, hsettle⟩
  · next idx hsettle =>
      cases hupdate
      refine ⟨_, _, _, rfl, .inl ⟨rfl, ?_⟩⟩
      rw [hsettle]
      exact SettleVerdict.noConfusion

/-- The jobs after a pass. -/
theorem readinessFor_jobs (snapshot : Snapshot J T V) (ledger : Ledger J T V) :
    (readinessFor render dag snapshot ledger).jobs =
      if passRecords ledger.jobs ledger.tasks dag snapshot then
        match settlement render dag snapshot (passStates dag snapshot) with
        | none => ledger.jobs
        | some update => update.run ledger.jobs
      else ledger.jobs := by
  rw [readinessFor, passRecords]
  split
  · next hnone =>
      rw [hnone]
      rfl
  · next tasks hsome =>
      rw [hsome]
      rfl

end Settle

/-! ## Runs -/

section Runs

variable [DecidableEq D] {datasetOf : J → Option D} {maxAttempts : J → ℕ} {render : T → String}
  {dagFor : J → Dag T} {cancels : Cancels J T V}

/-- What stays of the accepted cancels after a step. -/
def Stands (datasetOf : J → Option D) (maxAttempts : J → ℕ) (render : T → String)
    (dagFor : J → Dag T) (cancels : Cancels J T V) (action : QueueAction J T V) : Prop :=
  CancelsStand (cancels.step datasetOf maxAttempts render dagFor action).queue.plane.ledger.jobs
    (cancels.step datasetOf maxAttempts render dagFor action).canceled

/-- A job statement waits for the row, or runs. -/
theorem runJob_jobs {plane : ControlPlane J T V} {job : J} (update : Update J (Job J V))
    (hfree : plane.jobLocked job = false) :
    (plane.runJob job update).ledger.jobs = update.run plane.ledger.jobs := by
  rw [ControlPlane.runJob, hfree]
  rfl

theorem stands_markRunning (hstand : CancelsStand cancels.queue.plane.ledger.jobs cancels.canceled)
    (job : J) :
    Stands datasetOf maxAttempts render dagFor cancels (.markRunning job) ↔
      LeavesCanceled datasetOf maxAttempts dagFor cancels (.markRunning job) := by
  change CancelsStand (cancels.queue.step datasetOf maxAttempts render dagFor
    (.markRunning job)).plane.ledger.jobs cancels.canceled ↔ _
  rw [Queue.step, LeavesCanceled]
  split
  · next happlies =>
      simp only [Bool.and_eq_true, List.contains_iff_mem, Bool.not_eq_true'] at happlies
      obtain ⟨hmem, hfree⟩ := happlies
      split
      · next hclash =>
          apply iff_of_true hstand
          intro _ _ hnoClash
          rw [hclash] at hnoClash
          cases hnoClash
      · next hclash =>
          rw [Bool.not_eq_true] at hclash
          dsimp only
          rw [runJob_jobs _ hfree, markJob, cancelsStand_overwrite hstand (fun _ _ _ => rfl)
            fun _ => rfl]
          exact ⟨fun hnot _ _ _ => hnot, fun hleaves => hleaves hmem hfree hclash⟩
  · next hrefused =>
      apply iff_of_true hstand
      intro hmem hfree
      apply absurd _ hrefused
      rw [hfree, List.contains_iff_mem.mpr hmem]
      rfl

theorem stands_endArm (hstand : CancelsStand cancels.queue.plane.ledger.jobs cancels.canceled)
    (job : J) (ending : ArmEnd) :
    Stands datasetOf maxAttempts render dagFor cancels (.endArm job ending) ↔
      LeavesCanceled datasetOf maxAttempts dagFor cancels (.endArm job ending) := by
  change CancelsStand (cancels.queue.step datasetOf maxAttempts render dagFor
    (.endArm job ending)).plane.ledger.jobs cancels.canceled ↔ _
  rw [Queue.step]
  split
  · next happlies =>
      simp only [Bool.and_eq_true, List.contains_iff_mem, Bool.not_eq_true'] at happlies
      obtain ⟨hmem, hfree⟩ := happlies
      dsimp only
      rw [runJob_jobs _ hfree]
      cases ending with
      | succeeded =>
          rw [LeavesCanceled, ArmEnd.update, markJob, cancelsStand_overwrite hstand
            (fun _ _ _ => rfl) fun _ => rfl]
          exact ⟨fun hnot _ _ => hnot, fun hleaves => hleaves hmem hfree⟩
      | failed => exact iff_of_true (hstand.run fun _ _ _ _ => rfl) trivial
      | failOrRetry retryable now errorClass errorDetail =>
          rw [LeavesCanceled, ArmEnd.update]
          by_cases hretries :
              (retryable && decide (cancels.queue.attempt job < maxAttempts job)) = true
          · rw [failOrRetryJob, hretries, cancelsStand_overwrite hstand (fun _ _ _ => rfl)
              fun _ => rfl]
            rw [Bool.and_eq_true, decide_eq_true_eq] at hretries
            exact ⟨fun hnot _ _ _ _ => hnot,
              fun hleaves => hleaves hmem hfree hretries.1 hretries.2⟩
          · apply iff_of_true
            · apply hstand.run
              intro k row _ _
              rw [Bool.not_eq_true] at hretries
              simp [failOrRetryJob, onJob, hretries, JobState.isStopped]
            · intro _ _ hretryable hattempts
              apply absurd _ hretries
              rw [hretryable, Bool.true_and, decide_eq_true_eq]
              exact hattempts
  · next hrefused =>
      apply iff_of_true hstand
      have hnot : ⟨job, .running⟩ ∈ cancels.queue.arms →
          cancels.queue.plane.jobLocked job = false → False := by
        intro hmem hfree
        apply hrefused
        rw [hfree, List.contains_iff_mem.mpr hmem]
        rfl
      cases ending with
      | succeeded => exact fun hmem hfree => (hnot hmem hfree).elim
      | failed => trivial
      | failOrRetry => exact fun hmem hfree => (hnot hmem hfree).elim

theorem stands_resume (hstand : CancelsStand cancels.queue.plane.ledger.jobs cancels.canceled)
    (job : J) (now : ℤ) :
    Stands datasetOf maxAttempts render dagFor cancels (.plane (.job (.resume job now))) ↔
      LeavesCanceled datasetOf maxAttempts dagFor cancels (.plane (.job (.resume job now))) := by
  rw [LeavesCanceled]
  change CancelsStand (cancels.queue.plane.step render dagFor
    (.job (.resume job now))).ledger.jobs cancels.canceled ↔ _
  rw [ControlPlane.step]
  split
  · next hlocked =>
      apply iff_of_true hstand
      intro hfree
      rw [show cancels.queue.plane.jobLocked job = true from hlocked] at hfree
      cases hfree
  · next hfree =>
      have hfree : cancels.queue.plane.jobLocked job = false := Bool.eq_false_iff.mpr hfree
      change CancelsStand ((resumeJob job now).run cancels.queue.plane.ledger.jobs)
        cancels.canceled ↔ _
      by_cases hresumes : ∀ row, cancels.queue.plane.ledger.jobs[job]? = some row →
          row.state = .failed ∨ row.state = .canceled
      · rw [resumeJob, cancelsStand_overwrite hstand _ fun _ => rfl]
        · exact ⟨fun hnot _ _ => hnot, fun hleaves => hleaves hfree hresumes⟩
        · intro row hrow _
          rcases hresumes row hrow with hstate | hstate
          · rw [hstate]
            rfl
          · rw [hstate]
            rfl
      · apply iff_of_true
        · intro other hcanceled
          obtain ⟨row, hrow, hstopped⟩ := hstand other hcanceled
          by_cases hne : other = job
          · subst hne
            refine ⟨row, ?_, hstopped⟩
            rw [Update.getElem?_run, hrow, Option.map_some, Update.row, if_neg]
            intro hhit
            apply hresumes
            intro same hsame
            rw [hrow, Option.some.injEq] at hsame
            subst hsame
            simpa using (onJob_hit.mp hhit).2
          · refine ⟨row, ?_, hstopped⟩
            rw [resumeJob, getElem?_onJob_of_ne hne]
            exact hrow
        · intro _ hresumes'
          exact absurd hresumes' hresumes

/-- An accepted cancel stands at first. -/
theorem stands_cancel (hstand : CancelsStand cancels.queue.plane.ledger.jobs cancels.canceled)
    (job : J) :
    Stands datasetOf maxAttempts render dagFor cancels (.plane (.job (.cancel job))) := by
  have hothers : CancelsStand ((cancelJob job).run cancels.queue.plane.ledger.jobs)
      cancels.canceled := hstand.statement (.cancel job) fun _ _ => nofun
  change CancelsStand
    (if cancels.queue.plane.jobLocked job then cancels.queue.plane
      else cancels.queue.plane.withJobs
        ((cancelJob job).run cancels.queue.plane.ledger.jobs)).ledger.jobs
    (if cancelAccepted cancels.queue.plane job then Function.update cancels.canceled job true
      else cancels.canceled)
  by_cases hlocked : cancels.queue.plane.jobLocked job = true
  · have hrefused : cancelAccepted cancels.queue.plane job = false := by
      simp [cancelAccepted, hlocked]
    rw [if_pos hlocked, hrefused]
    exact hstand
  · rw [if_neg hlocked]
    change CancelsStand ((cancelJob job).run cancels.queue.plane.ledger.jobs) _
    split
    · next haccepted =>
        intro other hcanceled
        by_cases hne : other = job
        · subst hne
          rw [cancelAccepted, Bool.and_eq_true, Option.any_eq_true] at haccepted
          obtain ⟨_, row, hrow, hhit⟩ := haccepted
          refine ⟨(cancelJob other).set other row, ?_, ?_⟩
          · rw [Update.getElem?_run, hrow, Option.map_some, Update.row, if_pos hhit]
          · rw [cancelJob, onJob]
            dsimp only
            split <;> rfl
        · rw [Function.update_of_ne hne] at hcanceled
          exact hothers other hcanceled
    · exact hothers

theorem clearCommits_iff {plane : ControlPlane J T V} {job : J} (now : ℤ) :
    clearCommits plane job = true ↔
      ClearCommits plane (.commitClear job now : Action J T V) := by
  simp only [clearCommits, ClearCommits, Option.any_eq_true, Option.isSome_iff_exists]
  apply Iff.intro
  · rintro ⟨clear, hclear, archived, harchived, later, hlater⟩
    exact ⟨clear, archived, later, hclear, harchived, hlater⟩
  · rintro ⟨clear, archived, later, hclear, harchived, hlater⟩
    exact ⟨clear, hclear, archived, harchived, later, hlater⟩

/-- A clear that commits ends the cancel of its job, and no other. -/
theorem stands_commitClear
    (hstand : CancelsStand cancels.queue.plane.ledger.jobs cancels.canceled) (job : J) (now : ℤ) :
    Stands datasetOf maxAttempts render dagFor cancels (.plane (.commitClear job now)) := by
  change CancelsStand (cancels.queue.plane.step render dagFor (.commitClear job now)).ledger.jobs
    (if clearCommits cancels.queue.plane job then Function.update cancels.canceled job false
      else cancels.canceled)
  rcases commitClear_cases render dagFor cancels.queue.plane job now with
    ⟨hsame, hnot⟩ | ⟨clear, archived, later, hclear, harchived, hlater, hstep⟩
  · rw [hsame, if_neg]
    · exact hstand
    · rw [clearCommits_iff now]
      exact hnot
  · rw [hstep, if_pos ((clearCommits_iff now).mpr
      ⟨clear, archived, later, hclear, harchived, hlater⟩)]
    intro other hcanceled
    by_cases hne : other = job
    · subst hne
      rw [Function.update_self] at hcanceled
      cases hcanceled
    · rw [Function.update_of_ne hne] at hcanceled
      rw [reopen, getElem?_onJob_of_ne hne]
      exact hstand other hcanceled

theorem stands_commitPass
    (hstand : CancelsStand cancels.queue.plane.ledger.jobs cancels.canceled) :
    Stands datasetOf maxAttempts render dagFor cancels (.plane .commitPass) ↔
      LeavesCanceled datasetOf maxAttempts dagFor cancels (.plane .commitPass) := by
  rw [LeavesCanceled]
  change CancelsStand (cancels.queue.plane.step render dagFor .commitPass).ledger.jobs
    cancels.canceled ↔ _
  rw [ControlPlane.step]
  split
  · next snapshot hexecutor =>
      change CancelsStand (readinessFor render (dagFor snapshot.job) snapshot
        cancels.queue.plane.ledger).jobs cancels.canceled ↔ _
      rw [readinessFor_jobs]
      split
      · next hrecords =>
          split
          · next hnone =>
              apply iff_of_true hstand
              intro other row hother hrow hstate _ hsettle
              rw [hexecutor, ExecutorPhase.inPass.injEq] at hother
              subst hother
              simp [settlement, hsettle] at hnone
          · next update hupdate =>
              obtain ⟨state, errorClass, errorDetail, rfl, hcase⟩ := settlement_cases hupdate
              rcases hcase with ⟨hstopped, hsettle⟩ | ⟨rfl, hsettle⟩
              · apply iff_of_true
                · apply hstand.run
                  intro _ _ _ _
                  exact hstopped
                · intro other row hother _ _ _ hsucceeded
                  rw [hexecutor, ExecutorPhase.inPass.injEq] at hother
                  subst hother
                  exact absurd hsucceeded hsettle
              · apply Iff.intro
                · intro hlater other row hother hrow hstate _ _
                  rw [hexecutor, ExecutorPhase.inPass.injEq] at hother
                  subst hother
                  rw [← Bool.not_eq_true]
                  intro hcanceled
                  obtain ⟨new, hnew, hstoppedNew⟩ := hlater snapshot.job hcanceled
                  rw [settleJob, getElem?_onJob_self hrow (by rw [hstate]; rfl),
                    Option.some.injEq] at hnew
                  rw [← hnew] at hstoppedNew
                  cases hstoppedNew
                · intro hleaves other hcanceled
                  obtain ⟨row, hrow, hstoppedRow⟩ := hstand other hcanceled
                  refine ⟨row, ?_, hstoppedRow⟩
                  by_cases hne : other = snapshot.job
                  · subst hne
                    rw [Update.getElem?_run, hrow, Option.map_some, Update.row, if_neg]
                    intro hhit
                    have hstate := (onJob_hit.mp hhit).2
                    have hcanceling : row.state = .canceling := by
                      rcases JobState.isStopped_iff.mp hstoppedRow with hrow | hrow | hrow
                      · exact hrow
                      · rw [hrow] at hstate
                        cases hstate
                      · rw [hrow] at hstate
                        cases hstate
                    rw [hleaves snapshot row hexecutor hrow hcanceling hrecords
                      hsettle] at hcanceled
                    cases hcanceled
                  · rw [settleJob, getElem?_onJob_of_ne hne]
                    exact hrow
      · next hrefused =>
          apply iff_of_true hstand
          intro other row hother _ _ hrecords _
          rw [hexecutor, ExecutorPhase.inPass.injEq] at hother
          subst hother
          exact absurd hrecords hrefused
  · next hidle =>
      apply iff_of_true hstand
      intro snapshot _ hexecutor
      exact (hidle snapshot hexecutor).elim

/-- Every other statement of the control plane. -/
theorem stands_plane (hstand : CancelsStand cancels.queue.plane.ledger.jobs cancels.canceled)
    (action : Action J T V) :
    Stands datasetOf maxAttempts render dagFor cancels (.plane action) ↔
      LeavesCanceled datasetOf maxAttempts dagFor cancels (.plane action) := by
  have hchange : JobChange render dagFor cancels.queue.plane action
      (cancels.queue.plane.step render dagFor action).ledger.jobs :=
    jobChange_step cancels.queue.plane action
  cases action with
  | job statement =>
      cases statement with
      | cancel job => exact iff_of_true (stands_cancel hstand job) trivial
      | resume job now => exact stands_resume hstand job now
      | claim job now => exact iff_of_true hstand trivial
      | enqueue job orgId priority params resourceClass =>
          apply iff_of_true _ trivial
          change CancelsStand (cancels.queue.plane.step render dagFor _).ledger.jobs
            cancels.canceled
          generalize (cancels.queue.plane.step render dagFor _).ledger.jobs = later at hchange
          cases hchange with
          | same => exact hstand
          | statement => exact hstand.statement _ fun _ _ => nofun
      | refusePlan job errorClass errorDetail =>
          apply iff_of_true _ trivial
          change CancelsStand (cancels.queue.plane.step render dagFor _).ledger.jobs
            cancels.canceled
          generalize (cancels.queue.plane.step render dagFor _).ledger.jobs = later at hchange
          cases hchange with
          | same => exact hstand
          | statement => exact hstand.statement _ fun _ _ => nofun
  | commitPass => exact stands_commitPass hstand
  | commitClear job now => exact iff_of_true (stands_commitClear hstand job now) trivial
  | plan job =>
      apply iff_of_true _ trivial
      change CancelsStand (cancels.queue.plane.step render dagFor (.plan job)).ledger.jobs
        cancels.canceled
      generalize (cancels.queue.plane.step render dagFor (.plan job)).ledger.jobs = later at hchange
      cases hchange with
      | same => exact hstand
      | plan => exact hstand.plan job
  | _ =>
      apply iff_of_true _ trivial
      change CancelsStand (cancels.queue.plane.step render dagFor _).ledger.jobs cancels.canceled
      generalize (cancels.queue.plane.step render dagFor _).ledger.jobs = later at hchange
      cases hchange
      exact hstand

/-- Where the accepted cancels stand, a step leaves them standing exactly when it meets the
condition. -/
theorem stands_iff (hstand : CancelsStand cancels.queue.plane.ledger.jobs cancels.canceled)
    (action : QueueAction J T V) :
    Stands datasetOf maxAttempts render dagFor cancels action ↔
      LeavesCanceled datasetOf maxAttempts dagFor cancels action := by
  cases action with
  | claim claimant cap now =>
      apply iff_of_true _ trivial
      change CancelsStand (cancels.queue.claim datasetOf claimant cap now).plane.ledger.jobs
        cancels.canceled
      rw [Queue.claim]
      split
      · exact hstand
      · next job _ =>
          split
          · exact hstand
          · apply hstand.statement (.claim job now)
            intro _ _ hsame
            cases hsame
  | planReported job =>
      apply iff_of_true _ trivial
      change CancelsStand (cancels.queue.step datasetOf maxAttempts render dagFor
        (.planReported job)).plane.ledger.jobs cancels.canceled
      rw [Queue.step]
      split
      · change CancelsStand (Executor.plan (dagFor job) job cancels.queue.plane.ledger).jobs
          cancels.canceled
        rw [Executor.plan]
        split
        · exact hstand
        · split
          · exact hstand.plan job
          · exact hstand
      · exact hstand
  | markRunning job => exact stands_markRunning hstand job
  | endArm job ending => exact stands_endArm hstand job ending
  | crash arm => exact iff_of_true hstand trivial
  | cancelMarked job =>
      apply iff_of_true _ trivial
      change CancelsStand (cancels.queue.plane.runJob job (markJob job .canceled)).ledger.jobs
        cancels.canceled
      rw [ControlPlane.runJob]
      split
      · exact hstand
      · exact hstand.run fun _ _ _ _ => rfl
  | plane action => exact stands_plane hstand action

omit [DecidableEq D] in
theorem cancelsStand_fresh : CancelsStand
    (Cancels.fresh : Cancels J T V).queue.plane.ledger.jobs
    (Cancels.fresh : Cancels J T V).canceled := by
  intro job hcanceled
  cases hcanceled

/-- Over every run of the dispatchers, the API and the pods, a job whose cancel was accepted and
that was not cleared since is canceling, canceled or failed in every state exactly when every step
meets the condition. -/
theorem accepted_cancels_final_iff (datasetOf : J → Option D) (maxAttempts : J → ℕ)
    (render : T → String) (dagFor : J → Dag T) (actions : List (QueueAction J T V)) :
    AfterEach (Cancels.step datasetOf maxAttempts render dagFor)
        (fun _ cancels => CancelsStand cancels.queue.plane.ledger.jobs cancels.canceled)
        Cancels.fresh actions ↔
      Along (Cancels.step datasetOf maxAttempts render dagFor)
        (LeavesCanceled datasetOf maxAttempts dagFor) Cancels.fresh actions := by
  apply afterEach_iff_along fun cancels : Cancels J T V =>
    CancelsStand cancels.queue.plane.ledger.jobs cancels.canceled
  · intro action _ cancels hstand
    exact stands_iff hstand action
  · intro action _ cancels _ hlater
    exact hlater
  · exact cancelsStand_fresh

end Runs

end Cancels

/-- An arm runs a job, the API's cancel is accepted, and the run succeeds all the same. -/
def overriddenCancel : List (QueueAction ℕ ℕ ℕ) :=
  [.plane (.job (.enqueue 0 "org" 0 0 none)), .claim .legacyArm (fun _ => 1) 0, .markRunning 0,
    .plane (.job (.cancel 0)), .endArm 0 .succeeded]

/-- The executor runs a job of one task; the cancel is accepted once the task has succeeded and
before the pass that settles the job. -/
def settledCancel : List (QueueAction ℕ ℕ ℕ) :=
  [.plane (.job (.enqueue 0 "org" 0 0 none)), .claim .executor (fun _ => 1) 0, .plane (.plan 0),
    .plane (.openPass 0), .plane .commitPass, .plane (.claimLaunch "epoch" none 0 1),
    .plane (.task (.start ⟨0, 0, 1⟩ (.launch 0 0 1 1) "pod" "uid")),
    .plane (.task (.finish ⟨0, 0, 1⟩ "uid" false .done none none)),
    .plane (.job (.cancel 0)), .plane (.openPass 0), .plane .commitPass]

/-- After either run the canceled job has succeeded. -/
theorem canceled_job_succeeds :
    ¬ AfterEach (Cancels.step firstDataset (fun _ => 3) (fun _ => "task") fun _ => singleTask)
        (fun _ cancels => CancelsStand cancels.queue.plane.ledger.jobs cancels.canceled)
        Cancels.fresh overriddenCancel ∧
      ¬ AfterEach (Cancels.step firstDataset (fun _ => 3) (fun _ => "task") fun _ => singleTask)
        (fun _ cancels => CancelsStand cancels.queue.plane.ledger.jobs cancels.canceled)
        Cancels.fresh settledCancel := by
  constructor
  · intro hrun
    have hlast := hrun.final cancelsStand_fresh
    have hcanceled : (overriddenCancel.foldl (Cancels.step firstDataset (fun _ => 3)
        (fun _ => "task") fun _ => singleTask) Cancels.fresh).canceled 0 = true := by
      decide +kernel
    have hstate : ((overriddenCancel.foldl (Cancels.step firstDataset (fun _ => 3)
        (fun _ => "task") fun _ => singleTask) Cancels.fresh).queue.plane.ledger.jobs[0]?).map
          (fun row => row.state.isStopped) = some false := by decide +kernel
    generalize overriddenCancel.foldl _ _ = last at hlast hcanceled hstate
    obtain ⟨row, hrow, hstopped⟩ := hlast 0 hcanceled
    rw [hrow, Option.map_some, hstopped] at hstate
    cases hstate
  · intro hrun
    have hlast := hrun.final cancelsStand_fresh
    have hcanceled : (settledCancel.foldl (Cancels.step firstDataset (fun _ => 3)
        (fun _ => "task") fun _ => singleTask) Cancels.fresh).canceled 0 = true := by
      decide +kernel
    have hstate : ((settledCancel.foldl (Cancels.step firstDataset (fun _ => 3)
        (fun _ => "task") fun _ => singleTask) Cancels.fresh).queue.plane.ledger.jobs[0]?).map
          (fun row => row.state.isStopped) = some false := by decide +kernel
    generalize settledCancel.foldl _ _ = last at hlast hcanceled hstate
    obtain ⟨row, hrow, hstopped⟩ := hlast 0 hcanceled
    rw [hrow, Option.map_some, hstopped] at hstate
    cases hstate

end EntityResolution.Executor
