/-
# The writer lock over jobs

An active job holds the writer lock of its dataset; an active job without a dataset holds the lock
of its whole organisation. Two partial unique indexes keep two active jobs from sharing a dataset,
and two organisation-level jobs from sharing an organisation. That an organisation-level job
excludes the dataset jobs of its organisation is said in one place only, the condition of the
claim.

So the lock stands as long as the claim is the only step that makes a job active. One other step
can: an arm marks its job running whatever the state of the job. If the job was canceled and
settled in the meantime, its lock was free, and may have been claimed.
-/

import EntityResolution.Executor.Dispatch

namespace EntityResolution.Executor

open EntityResolution.Collections EntityResolution.Runs EntityResolution.Statements
  EntityResolution.Tables

universe u v w x

variable {J : Type u} {T : Type v} {V : Type w} {D : Type x} [LinearOrder J] [LinearOrder T]
  [DecidableEq D]

section Lock

variable (datasetOf : J → Option D)

/-- No two active jobs share a dataset, and an active job without one is the only active job of its
organisation. -/
structure WriterLock (jobs : JobTable J V) : Prop where
  dataset : ∀ (job other : J) row otherRow, jobs[job]? = some row → jobs[other]? = some otherRow →
    row.state.isActive = true → otherRow.state.isActive = true →
    (datasetOf job).isSome = true → datasetOf other = datasetOf job → other = job
  orgLevel : ∀ (job other : J) row otherRow, jobs[job]? = some row → jobs[other]? = some otherRow →
    row.state.isActive = true → otherRow.state.isActive = true →
    datasetOf job = none → otherRow.orgId = row.orgId → other = job

variable {datasetOf}

omit [LinearOrder J] in
theorem blocks_comm {job other : J} {row otherRow : Job J V} (hactive : row.state.isActive = true)
    (hother : otherRow.state.isActive = true) :
    blocks datasetOf job row other otherRow = blocks datasetOf other otherRow job row := by
  have horg : (row.orgId == otherRow.orgId) = (otherRow.orgId == row.orgId) :=
    BEq.comm
  have hdataset : (datasetOf job == datasetOf other) = (datasetOf other == datasetOf job) :=
    BEq.comm
  rw [blocks, blocks, hactive, hother, horg, hdataset]
  cases hjob : datasetOf job <;> cases hsecond : datasetOf other <;> simp

theorem writerLock_iff {jobs : JobTable J V} :
    WriterLock datasetOf jobs ↔
      ∀ (job other : J) row otherRow, jobs[job]? = some row → jobs[other]? = some otherRow →
        other ≠ job → row.state.isActive = true →
        blocks datasetOf job row other otherRow = false := by
  apply Iff.intro
  · intro hlock job other row otherRow hrow hother hne hactive
    rw [← Bool.not_eq_true]
    intro hblocks
    simp only [blocks, Bool.and_eq_true, Bool.or_eq_true, beq_iff_eq,
      Option.isNone_iff_eq_none] at hblocks
    obtain ⟨hotherActive, ⟨hsome, hsame | ⟨horg, hnone⟩⟩ | ⟨hnone, horg⟩⟩ := hblocks
    · exact hne (hlock.dataset job other row otherRow hrow hother hactive hotherActive hsome hsame)
    · exact hne.symm
        (hlock.orgLevel other job otherRow row hother hrow hotherActive hactive hnone horg.symm)
    · exact hne (hlock.orgLevel job other row otherRow hrow hother hactive hotherActive hnone horg)
  · intro hfree
    constructor
    · intro job other row otherRow hrow hother hactive hotherActive hsome hsame
      by_contra hne
      have hmiss := hfree job other row otherRow hrow hother hne hactive
      simp [blocks, hotherActive, hsome, hsame] at hmiss
    · intro job other row otherRow hrow hother hactive hotherActive hnone horg
      by_contra hne
      have hmiss := hfree job other row otherRow hrow hother hne hactive
      simp [blocks, hotherActive, hnone, horg] at hmiss

/-- A table whose active jobs were active before, in the same organisations. -/
def KeepsActive (jobs later : JobTable J V) : Prop :=
  ∀ (job : J) new, later[job]? = some new → new.state.isActive = true →
    ∃ old, jobs[job]? = some old ∧ old.state.isActive = true ∧ new.orgId = old.orgId

omit [DecidableEq D] in
/-- The lock stands as long as no job becomes active. -/
theorem WriterLock.keeps {jobs later : JobTable J V} (hlock : WriterLock datasetOf jobs)
    (hkeeps : KeepsActive jobs later) : WriterLock datasetOf later where
  dataset job other row otherRow hrow hother hactive hotherActive hsome hsame := by
    obtain ⟨old, hold, holdActive, _⟩ := hkeeps job row hrow hactive
    obtain ⟨oldOther, holdOther, holdOtherActive, _⟩ := hkeeps other otherRow hother hotherActive
    exact hlock.dataset job other old oldOther hold holdOther holdActive holdOtherActive hsome hsame
  orgLevel job other row otherRow hrow hother hactive hotherActive hnone horg := by
    obtain ⟨old, hold, holdActive, horgOld⟩ := hkeeps job row hrow hactive
    obtain ⟨oldOther, holdOther, holdOtherActive, horgOther⟩ :=
      hkeeps other otherRow hother hotherActive
    apply hlock.orgLevel job other old oldOther hold holdOther holdActive holdOtherActive hnone
    rw [← horgOther, ← horgOld]
    exact horg

/-- When one job becomes active, the lock stands exactly when no job blocks it. -/
theorem writerLock_activate {jobs later : JobTable J V} {job : J} {row new : Job J V}
    (hlock : WriterLock datasetOf jobs) (hrow : jobs[job]? = some row)
    (hidle : row.state.isActive = false) (hnew : later[job]? = some new)
    (hactive : new.state.isActive = true) (horg : new.orgId = row.orgId)
    (hothers : ∀ other, other ≠ job → later[other]? = jobs[other]?) :
    WriterLock datasetOf later ↔
      ∀ (other : J) otherRow, jobs[other]? = some otherRow →
        blocks datasetOf job row other otherRow = false := by
  have hsame (other : J) (otherRow : Job J V) :
      blocks datasetOf job new other otherRow = blocks datasetOf job row other otherRow := by
    rw [blocks, blocks, horg]
  rw [writerLock_iff]
  apply Iff.intro
  · intro hfree other otherRow hother
    by_cases hne : other = job
    · rw [hne, hrow, Option.some.injEq] at hother
      rw [blocks, ← hother, hidle, Bool.false_and]
    · rw [← hsame]
      apply hfree job other new otherRow hnew _ hne hactive
      rw [hothers other hne]
      exact hother
  · intro hfree first second firstRow secondRow hfirst hsecond hne hfirstActive
    by_cases hfirstJob : first = job
    · subst hfirstJob
      rw [hnew, Option.some.injEq] at hfirst
      rw [← hfirst, hsame]
      apply hfree second secondRow
      rw [← hothers second hne]
      exact hsecond
    · rw [hothers first hfirstJob] at hfirst
      by_cases hsecondJob : second = job
      · subst hsecondJob
        rw [hnew, Option.some.injEq] at hsecond
        subst hsecond
        rw [blocks_comm hfirstActive hactive, hsame]
        exact hfree first firstRow hfirst
      · rw [hothers second hsecondJob] at hsecond
        exact writerLock_iff.mp hlock first second firstRow secondRow hfirst hsecond hne
          hfirstActive

end Lock

section Steps

omit [LinearOrder T] [DecidableEq D]

theorem KeepsActive.refl (jobs : JobTable J V) : KeepsActive jobs jobs :=
  fun _ new hnew hactive => ⟨new, hnew, hactive, rfl⟩

/-- A statement that keeps the organisation and activates no row it hits. -/
theorem keepsActive_run {jobs : JobTable J V} {update : Update J (Job J V)}
    (hset : ∀ job row, update.hit job row = true → (update.set job row).state.isActive = true →
      row.state.isActive = true)
    (horg : ∀ job row, (update.set job row).orgId = row.orgId) :
    KeepsActive jobs (update.run jobs) := by
  intro job new hnew hactive
  obtain ⟨old, hold, rfl⟩ := Update.getElem?_run_eq_some_iff.mp hnew
  refine ⟨old, hold, ?_⟩
  rw [Update.row] at hactive ⊢
  split at hactive
  · next hhit =>
      rw [if_pos hhit]
      exact ⟨hset job old hhit hactive, horg job old⟩
  · next hmiss =>
      rw [if_neg hmiss]
      exact ⟨hactive, rfl⟩

theorem onJob_hit {job k : J} {condition : Job J V → Bool} {set : Job J V → Job J V}
    {row : Job J V} :
    (onJob job condition set).hit k row = true ↔ k = job ∧ condition row = true := by
  simp [onJob]

theorem keepsActive_plan (jobs : JobTable J V) (job : J) :
    KeepsActive jobs ((planJob job).run jobs) := by
  apply keepsActive_run
  · intro k row hhit _
    have hstate := (onJob_hit.mp hhit).2
    rw [beq_iff_eq] at hstate
    rw [hstate]
    rfl
  · intro _ _
    rfl

/-- No job statement but the claim makes a job active. -/
theorem keepsActive_statement (jobs : JobTable J V) (statement : JobStatement J V)
    (hclaim : ∀ job now, statement ≠ .claim job now) :
    KeepsActive jobs (statement.run jobs) := by
  cases statement with
  | enqueue job orgId priority params resourceClass =>
      intro k new hnew hactive
      rw [JobStatement.run, enqueue] at hnew
      split at hnew
      · exact ⟨new, hnew, hactive, rfl⟩
      · rw [BTreeMap.getElem?_insert_eq_ite] at hnew
        split at hnew
        · cases hnew
          cases hactive
        · exact ⟨new, hnew, hactive, rfl⟩
  | claim job now => exact absurd rfl (hclaim job now)
  | refusePlan job errorClass errorDetail =>
      apply keepsActive_run
      · intro _ _ _ hactive
        cases hactive
      · intro _ _
        rfl
  | cancel job =>
      apply keepsActive_run
      · intro k row hhit hactive
        have hstate := (onJob_hit.mp hhit).2
        simp only [Bool.or_eq_true, beq_iff_eq] at hstate
        rcases hstate with (hqueued | hdispatching) | hrunning
        · simp [cancelJob, onJob, hqueued, JobState.isActive] at hactive
        · rw [hdispatching]
          rfl
        · rw [hrunning]
          rfl
      · intro _ _
        rfl
  | resume job now =>
      apply keepsActive_run
      · intro _ _ _ hactive
        cases hactive
      · intro _ _
        rfl

theorem keepsActive_reopen (jobs : JobTable J V) (job : J) (now : ℤ) :
    KeepsActive jobs ((reopen job now).run jobs) := by
  apply keepsActive_run
  · intro k row _ hactive
    rw [reopen, onJob] at hactive
    dsimp only at hactive
    split at hactive
    · cases hactive
    · exact hactive
  · intro _ _
    rfl

end Steps

/-- No step of the control plane but the claim makes a job active. -/
theorem keepsActive_step (render : T → String) (dagFor : J → Dag T) (plane : ControlPlane J T V)
    {action : Action J T V} (hclaim : action.isClaim = false) :
    KeepsActive plane.ledger.jobs (plane.step render dagFor action).ledger.jobs := by
  have hchange : JobChange render dagFor plane action
    (plane.step render dagFor action).ledger.jobs :=
    jobChange_step plane action
  generalize (plane.step render dagFor action).ledger.jobs = later at hchange
  cases hchange with
  | same => exact KeepsActive.refl _
  | statement statement =>
      apply keepsActive_statement
      rintro job now rfl
      cases hclaim
  | plan job => exact keepsActive_plan _ job
  | settle snapshot effective update hexecutor hupdate =>
      obtain ⟨state, errorClass, errorDetail, rfl⟩ := settlement_eq_some hupdate
      apply keepsActive_run
      · intro job row hhit _
        have hstate := (onJob_hit.mp hhit).2
        simp only [Bool.or_eq_true, beq_iff_eq] at hstate
        rcases hstate with hrunning | hcanceling
        · rw [hrunning]
          rfl
        · rw [hcanceling]
          rfl
      · intro _ _
        rfl
  | reopen job now => exact keepsActive_reopen _ job now

/-! ## Claims and marks -/

section Claims

variable {datasetOf : J → Option D} {plane : ControlPlane J T V}

omit [LinearOrder J] in
theorem mem_of_foldl_keepHigher {entries : List (J × Job J V)} {best : Option (J × Job J V)}
    {entry : J × Job J V} (hentry : entries.foldl keepHigher best = some entry) :
    entry ∈ entries ∨ best = some entry := by
  apply mem_of_foldl_choose _ hentry
  intro best head
  cases best with
  | none => exact .inl rfl
  | some kept =>
      rw [keepHigher]
      split
      · exact .inl rfl
      · exact .inr rfl

theorem pickJob_some {cap : String → ℕ} {now : ℤ} {job : J}
    (hpick : pickJob datasetOf plane cap now = some job) :
    ∃ row, plane.ledger.jobs[job]? = some row ∧
      jobClaimable datasetOf plane.ledger.jobs cap now job row = true := by
  rw [pickJob, Option.map_eq_some_iff] at hpick
  obtain ⟨entry, hentry, rfl⟩ := hpick
  rcases mem_of_foldl_keepHigher hentry with hmem | hnone
  · rw [List.mem_filter, Bool.and_eq_true] at hmem
    exact ⟨entry.2, BTreeMap.mem_toList.mp hmem.1, hmem.2.1⟩
  · cases hnone

omit [LinearOrder T] [DecidableEq D] in
theorem getElem?_onJob_of_ne {jobs : JobTable J V} {job other : J} {condition : Job J V → Bool}
    {set : Job J V → Job J V} (hne : other ≠ job) :
    ((onJob job condition set).run jobs)[other]? = jobs[other]? := by
  rw [Update.getElem?_run]
  cases jobs[other]? with
  | none => rfl
  | some row =>
      rw [Option.map_some, Update.row, if_neg]
      intro hhit
      exact hne (onJob_hit.mp hhit).1

omit [LinearOrder T] [DecidableEq D] in
theorem getElem?_onJob_self {jobs : JobTable J V} {job : J} {condition : Job J V → Bool}
    {set : Job J V → Job J V} {row : Job J V} (hrow : jobs[job]? = some row)
    (hcondition : condition row = true) :
    ((onJob job condition set).run jobs)[job]? = some (set row) := by
  rw [Update.getElem?_run, hrow, Option.map_some, Update.row, if_pos]
  · rfl
  · exact onJob_hit.mpr ⟨rfl, hcondition⟩

/-- The lock stands after a claim. -/
theorem writerLock_claimJob {cap : String → ℕ} {now : ℤ} {job : J}
    (hlock : WriterLock datasetOf plane.ledger.jobs)
    (hpick : pickJob datasetOf plane cap now = some job) :
    WriterLock datasetOf ((claimJob job now).run plane.ledger.jobs) := by
  obtain ⟨row, hrow, hclaimable⟩ := pickJob_some hpick
  simp only [jobClaimable, Bool.and_eq_true, beq_iff_eq, decide_eq_true_eq] at hclaimable
  obtain ⟨⟨⟨hqueued, hdue⟩, hfree⟩, _⟩ := hclaimable
  have hcondition : (row.state == .queued && due row.notBefore now) = true := by
    rw [hqueued, hdue]
    rfl
  rw [writerLock_activate hlock hrow]
  · exact fun other otherRow hother => countWhere_eq_zero_iff.mp hfree other otherRow hother
  · rw [hqueued]
    rfl
  · exact getElem?_onJob_self hrow hcondition
  · rfl
  · rfl
  · exact fun other hne => getElem?_onJob_of_ne hne

omit [LinearOrder T] [DecidableEq D] in
theorem activeOf_claimJob_le (jobs : JobTable J V) (job : J) (now : ℤ) (orgId : String) :
    activeOf ((claimJob job now).run jobs) orgId ≤ activeOf jobs orgId + 1 := by
  apply countWhere_le_succ job
  intro other row hne hrow hcounted
  rw [claimJob, getElem?_onJob_of_ne hne] at hrow
  exact ⟨row, hrow, hcounted⟩

end Claims

section Runs

variable (datasetOf : J → Option D) (maxAttempts : J → ℕ) (render : T → String)
  (dagFor : J → Dag T)

/-- When a step keeps the writer lock: an arm that marks its job running finds it still active, or
finds no job that the claim would have waited for; what an index refuses does no harm. -/
def KeepsLock (queue : Queue J T V) : QueueAction J T V → Prop
  | .markRunning job =>
      ⟨job, .claimed⟩ ∈ queue.arms → queue.plane.jobLocked job = false →
        ∀ row, queue.plane.ledger.jobs[job]? = some row → row.state.isActive = false →
          clashes datasetOf queue.plane.ledger.jobs job = false →
          ∀ (other : J) otherRow, queue.plane.ledger.jobs[other]? = some otherRow →
            blocks datasetOf job row other otherRow = false
  | _ => True

/-- A claim leaves no more active jobs in the organisation than the cap in force allows. -/
def ClaimWithinCap (queue : Queue J T V) : QueueAction J T V → Prop
  | .claim claimant cap now =>
      ∀ (job : J) row, pickJob datasetOf queue.plane cap now = some job →
        queue.plane.ledger.jobs[job]? = some row →
        activeOf (queue.claim datasetOf claimant cap now).plane.ledger.jobs row.orgId ≤
          cap row.orgId
  | _ => True

variable {datasetOf maxAttempts render dagFor}

/-- Every claim keeps within the cap. -/
theorem claimWithinCap (queue : Queue J T V) (action : QueueAction J T V) :
    ClaimWithinCap datasetOf queue action := by
  cases action with
  | claim claimant cap now =>
      intro job row hpick hrow
      obtain ⟨picked, hpicked, hclaimable⟩ := pickJob_some hpick
      rw [hrow, Option.some.injEq] at hpicked
      subst hpicked
      rw [jobClaimable, Bool.and_eq_true, decide_eq_true_eq] at hclaimable
      rw [Queue.claim, hpick]
      dsimp only
      split
      · exact hclaimable.2.le
      · exact (activeOf_claimJob_le _ job now row.orgId).trans hclaimable.2
  | _ => exact trivial

omit [DecidableEq D] in
/-- The lock after a statement about one job that waits for the row. -/
theorem writerLock_runJob {plane : ControlPlane J T V} {job : J} {update : Update J (Job J V)}
    (hlock : WriterLock datasetOf plane.ledger.jobs)
    (hkeeps : KeepsActive plane.ledger.jobs (update.run plane.ledger.jobs)) :
    WriterLock datasetOf (plane.runJob job update).ledger.jobs := by
  rw [ControlPlane.runJob]
  split
  · exact hlock
  · exact hlock.keeps hkeeps

omit [LinearOrder T] [DecidableEq D] in
/-- A mark that ends a job activates nothing. -/
theorem keepsActive_markJob (jobs : JobTable J V) (job : J) {state : JobState}
    (hstate : state.isActive = false) : KeepsActive jobs ((markJob job state).run jobs) := by
  apply keepsActive_run
  · intro _ _ _ hactive
    rw [show state.isActive = true from hactive] at hstate
    cases hstate
  · intro _ _
    rfl

omit [LinearOrder T] [DecidableEq D] in
theorem keepsActive_endArm (jobs : JobTable J V) (job : J) (ending : ArmEnd) (attempt : J → ℕ) :
    KeepsActive jobs ((ending.update maxAttempts attempt job).run jobs) := by
  cases ending with
  | succeeded => exact keepsActive_markJob jobs job rfl
  | failed => exact keepsActive_markJob jobs job rfl
  | failOrRetry retryable now errorClass errorDetail =>
      apply keepsActive_run
      · intro k row _ hactive
        simp only [ArmEnd.update, failOrRetryJob, onJob] at hactive
        split at hactive <;> cases hactive
      · intro _ _
        rfl

omit [LinearOrder T] [DecidableEq D] in
/-- Marking an active job running activates nothing. -/
theorem keepsActive_markRunning {jobs : JobTable J V} {job : J} {row : Job J V}
    (hrow : jobs[job]? = some row) (hactive : row.state.isActive = true) :
    KeepsActive jobs ((markJob job .running).run jobs) := by
  intro other new hnew hnewActive
  by_cases hne : other = job
  · subst hne
    rw [markJob, getElem?_onJob_self hrow rfl, Option.some.injEq] at hnew
    refine ⟨row, hrow, hactive, ?_⟩
    rw [← hnew]
  · rw [markJob, getElem?_onJob_of_ne hne] at hnew
    exact ⟨new, hnew, hnewActive, rfl⟩

omit [LinearOrder T] in
/-- Marking any other job running keeps the lock exactly when nothing blocks the job. -/
theorem writerLock_markJob {jobs : JobTable J V} {job : J} {row : Job J V}
    (hlock : WriterLock datasetOf jobs) (hrow : jobs[job]? = some row)
    (hidle : row.state.isActive = false) :
    WriterLock datasetOf ((markJob job .running).run jobs) ↔
      ∀ (other : J) otherRow, jobs[other]? = some otherRow →
        blocks datasetOf job row other otherRow = false := by
  apply writerLock_activate hlock hrow hidle
  · exact getElem?_onJob_self hrow rfl
  · rfl
  · rfl
  · exact fun other hne => getElem?_onJob_of_ne hne

/-- Marking a job running keeps the lock exactly when it meets the condition. -/
theorem writerLock_markRunning {queue : Queue J T V}
    (hlock : WriterLock datasetOf queue.plane.ledger.jobs) (job : J) :
    WriterLock datasetOf
        (queue.step datasetOf maxAttempts render dagFor (.markRunning job)).plane.ledger.jobs ↔
      KeepsLock datasetOf queue (.markRunning job) := by
  rw [Queue.step, KeepsLock]
  split
  · next happlies =>
      simp only [Bool.and_eq_true, List.contains_iff_mem, Bool.not_eq_true'] at happlies
      obtain ⟨hmem, hfree⟩ := happlies
      split
      · next hclash =>
          apply iff_of_true hlock
          intro _ _ row _ _ hnoClash
          rw [hclash] at hnoClash
          cases hnoClash
      · next hclash =>
          rw [Bool.not_eq_true] at hclash
          have hrun : (queue.plane.runJob job (markJob job .running)).ledger.jobs =
              (markJob job .running).run queue.plane.ledger.jobs := by
            rw [ControlPlane.runJob, hfree]
            rfl
          change WriterLock datasetOf
            (queue.plane.runJob job (markJob job .running)).ledger.jobs ↔ _
          rw [hrun]
          cases hrow : queue.plane.ledger.jobs[job]? with
          | none =>
              apply iff_of_true _ (fun _ _ _ hsome => nomatch hsome)
              apply hlock.keeps
              intro other new hnew hactive
              obtain ⟨old, hold, rfl⟩ := Update.getElem?_run_eq_some_iff.mp hnew
              have hne : other ≠ job := by
                rintro rfl
                rw [hrow] at hold
                cases hold
              rw [markJob, getElem?_onJob_of_ne hne] at hnew
              exact ⟨_, hnew, hactive, rfl⟩
          | some row =>
              by_cases hactive : row.state.isActive = true
              · apply iff_of_true (hlock.keeps (keepsActive_markRunning hrow hactive))
                intro _ _ other hsame hidle
                cases hsame
                rw [hactive] at hidle
                cases hidle
              · rw [Bool.not_eq_true] at hactive
                rw [writerLock_markJob hlock hrow hactive]
                apply Iff.intro
                · intro hnone _ _ other hsame _ _
                  cases hsame
                  exact hnone
                · intro hnone
                  exact hnone hmem hfree row rfl hactive hclash
  · next hrefused =>
      apply iff_of_true hlock
      intro hmem hfree
      apply absurd _ hrefused
      rw [hfree, List.contains_iff_mem.mpr hmem]
      rfl

/-- From a state with the writer lock, a step leads to such a state exactly when it meets the
condition. -/
theorem writerLock_step_iff {queue : Queue J T V}
    (hlock : WriterLock datasetOf queue.plane.ledger.jobs) (action : QueueAction J T V) :
    WriterLock datasetOf
        (queue.step datasetOf maxAttempts render dagFor action).plane.ledger.jobs ↔
      KeepsLock datasetOf queue action := by
  cases action with
  | claim claimant cap now =>
      apply iff_of_true _ trivial
      rw [Queue.step, Queue.claim]
      split
      · exact hlock
      · next job hpick =>
          split
          · exact hlock
          · exact writerLock_claimJob hlock hpick
  | planReported job =>
      apply iff_of_true _ trivial
      rw [Queue.step]
      split
      · apply hlock.keeps
        show KeepsActive _ (Executor.plan (dagFor job) job queue.plane.ledger).jobs
        rw [Executor.plan]
        split
        · exact KeepsActive.refl _
        · split
          · exact keepsActive_plan _ job
          · exact KeepsActive.refl _
      · exact hlock
  | markRunning job => exact writerLock_markRunning hlock job
  | endArm job ending =>
      apply iff_of_true _ trivial
      rw [Queue.step]
      split
      · exact writerLock_runJob hlock (keepsActive_endArm _ job ending queue.attempt)
      · exact hlock
  | crash arm => exact iff_of_true hlock trivial
  | cancelMarked job =>
      exact iff_of_true (writerLock_runJob hlock (keepsActive_markJob _ job rfl)) trivial
  | plane action =>
      apply iff_of_true _ trivial
      rw [Queue.step]
      split
      · exact hlock
      · next hclaim =>
          rw [Bool.not_eq_true] at hclaim
          exact hlock.keeps (keepsActive_step render dagFor queue.plane hclaim)

omit [DecidableEq D] in
theorem writerLock_fresh :
    WriterLock datasetOf (Queue.fresh : Queue J T V).plane.ledger.jobs where
  dataset job other row otherRow hrow := by
    simp [Queue.fresh, ControlPlane.fresh] at hrow
  orgLevel job other row otherRow hrow := by
    simp [Queue.fresh, ControlPlane.fresh] at hrow

/-- Over every run of the dispatchers, the API and the pods, every state keeps the writer lock and
every claim the cap exactly when no arm marks a job running that has lost its lock to another. -/
theorem writer_lock_iff (datasetOf : J → Option D) (maxAttempts : J → ℕ) (render : T → String)
    (dagFor : J → Dag T) (actions : List (QueueAction J T V)) :
    AfterEach (Queue.step datasetOf maxAttempts render dagFor)
          (fun _ queue => WriterLock datasetOf queue.plane.ledger.jobs) Queue.fresh actions ∧
        Along (Queue.step datasetOf maxAttempts render dagFor) (ClaimWithinCap datasetOf)
          Queue.fresh actions ↔
      Along (Queue.step datasetOf maxAttempts render dagFor) (KeepsLock datasetOf) Queue.fresh
        actions := by
  have hcap : Along (Queue.step datasetOf maxAttempts render dagFor) (ClaimWithinCap datasetOf)
      Queue.fresh actions := along_of_all claimWithinCap
  rw [and_iff_left hcap]
  apply afterEach_iff_along fun queue : Queue J T V => WriterLock datasetOf queue.plane.ledger.jobs
  · intro action _ queue hlock
    exact writerLock_step_iff hlock action
  · intro action _ queue _ hlater
    exact hlater
  · exact writerLock_fresh

end Runs

/-- Job 0 writes a dataset, and every other job is organisation-level. -/
def firstDataset (job : ℕ) : Option ℕ :=
  if job = 0 then some 0 else none

/-- An arm claims job 0, which the API then cancels; another dispatcher claims the
organisation-level job 1, and the arm marks job 0 running. -/
def overtakenArm : List (QueueAction ℕ ℕ ℕ) :=
  [.plane (.job (.enqueue 0 "org" 0 0 none)), .claim .legacyArm (fun _ => 2) 0,
    .plane (.job (.enqueue 1 "org" 0 0 none)), .cancelMarked 0, .claim .executor (fun _ => 2) 0,
    .markRunning 0]

/-- After that run both jobs of the organisation are active. -/
theorem overtakenArm_breaks_lock :
    ¬ AfterEach (Queue.step firstDataset (fun _ => 3) (fun _ => "task") fun _ => singleTask)
      (fun _ queue => WriterLock firstDataset queue.plane.ledger.jobs) Queue.fresh
      overtakenArm := by
  intro hrun
  have hlast := hrun.final writerLock_fresh
  have hfirst : ((overtakenArm.foldl (Queue.step firstDataset (fun _ => 3) (fun _ => "task")
      fun _ => singleTask) Queue.fresh).plane.ledger.jobs[0]?).map
        (fun row => (row.orgId, row.state)) = some ("org", .running) := by decide +kernel
  have hsecond : ((overtakenArm.foldl (Queue.step firstDataset (fun _ => 3) (fun _ => "task")
      fun _ => singleTask) Queue.fresh).plane.ledger.jobs[1]?).map
        (fun row => (row.orgId, row.state)) = some ("org", .dispatching) := by decide +kernel
  generalize overtakenArm.foldl _ _ = last at hlast hfirst hsecond
  obtain ⟨first, hfirst, hfirstColumns⟩ := Option.map_eq_some_iff.mp hfirst
  obtain ⟨second, hsecond, hsecondColumns⟩ := Option.map_eq_some_iff.mp hsecond
  rw [Prod.mk.injEq] at hfirstColumns hsecondColumns
  have hsame : (0 : ℕ) = 1 := by
    apply hlast.orgLevel 1 0 second first hsecond hfirst
    · rw [hsecondColumns.2]
      rfl
    · rw [hfirstColumns.2]
      rfl
    · rfl
    · rw [hfirstColumns.1, hsecondColumns.1]
  cases hsame

end EntityResolution.Executor
