/-
# The resource ladder

A task whose node escalates climbs the classes `S`, `M`, `L`: a try that failed for want of
resources is retried one class up, a try that failed otherwise is retried at its class, and a try
that failed for want of resources at `L` should end the task, whatever budget is left.

The ladder is spread over the reports of a failure. A terminal record, the pod's own report and
the evidence of an OOM or of a local-storage eviction each decide whether the failure is retried
and whether it escalates; the retry statement turns an escalation into a class. None of them ends
a task at `L`: the failure stays retryable, and only the try budget stops it.
-/

import EntityResolution.Executor.Changes
import EntityResolution.Executor.Classify

namespace EntityResolution.Executor

open EntityResolution.Collections EntityResolution.Runs EntityResolution.Statements

universe u v w

variable {J : Type u} {T : Type v} {V : Type w}

/-- `POD_BACKOFF`. -/
def podBackoff : ℕ × ℕ := (30, 900)

/-- `CONTROL_BACKOFF`. -/
def controlBackoff : ℕ × ℕ := (5, 60)

/-- The error classes that are retried. -/
def isRetryableClass (errorClass : String) : Bool :=
  errorClass == "transient_io" || errorClass == "lock_conflict" ||
    errorClass == "infrastructure" || errorClass == "resources"

/-- What makes a try fail: a verdict of the watch, the pod's own report, a spent launch budget, a
Job of another build, an error or a skip of a control body, a kind that does not parse, or a stage
of the in-process reporter. -/
inductive FailureReport (V : Type w)
  | classified (verdict : TerminalVerdict V)
  | posted (errorClass : Option String) (exitCode : Option ℤ)
      (terminationReason errorDetail : Option String)
  | launchesSpent (reason : String)
  | buildSkew
  | controlSkip
  | controlError (retryable : Bool) (code : ℤ) (errorClass : String)
  | unparsedKind
  | inproc (kind : NodeKind) (errorClass detail : String)

/-- The failure that a verdict of the watch is recorded as; the other verdicts are no failures. -/
def TerminalVerdict.failure (escalates : Bool) (row : TaskInstance J T V) :
    TerminalVerdict V → Option (TaskFailure J T)
  | .applyRecord record =>
      let errorClass := record.errorClass.getD "internal"
      if record.state = .failed then
        some
          { terminalState := .failed
            retryable := isRetryableClass errorClass
            escalate := errorClass == "resources" && escalates
            exitCode := some record.exit
            terminationReason := record.terminationReason
            errorClass := some errorClass
            errorDetail := record.detail
            k8sJobName := row.k8sJobName
            backoff := podBackoff }
      else none
  | .failNoRecord => some
      { terminalState := .failed
        retryable := false
        escalate := false
        exitCode := none
        terminationReason := some "no_terminal_record"
        errorClass := some "internal"
        errorDetail := some ("the pod reached a terminal phase with no terminal record; never a " ++
          "success and never retryable (§6.5)")
        k8sJobName := row.k8sJobName
        backoff := podBackoff }
  | .timedOut => some
      { terminalState := .timedOut
        retryable := false
        escalate := false
        exitCode := none
        terminationReason := some "DeadlineExceeded"
        errorClass := some "timeout"
        errorDetail := some ("the Job's activeDeadlineSeconds fired; a longer timeout is a " ++
          "policy change the operator applies by clearing (§5.5)")
        k8sJobName := row.k8sJobName
        backoff := podBackoff }
  | .failResources reason detail => some
      { terminalState := .failed
        retryable := true
        escalate := escalates && row.resourceClass != some .L
        exitCode := none
        terminationReason := some reason
        errorClass := some "resources"
        errorDetail := detail
        k8sJobName := row.k8sJobName
        backoff := podBackoff }
  | _ => none

/-- The failure that a report is recorded as, for the row it finds. A launched row keeps its class
and its Job name until it is launched again, so the row is the one that the report was read for. -/
def FailureReport.failure (escalates : Bool) (row : TaskInstance J T V) :
    FailureReport V → Option (TaskFailure J T)
  | .classified verdict => verdict.failure escalates row
  | .posted errorClass exitCode terminationReason errorDetail =>
      let reported := errorClass.getD "internal"
      some
        { terminalState := if reported = "timeout" then .timedOut else .failed
          retryable := isRetryableClass reported
          escalate := reported == "resources"
          exitCode := exitCode
          terminationReason := terminationReason
          errorClass := some reported
          errorDetail := errorDetail
          k8sJobName := row.k8sJobName
          backoff := if row.kind = .control then controlBackoff else podBackoff }
  | .launchesSpent reason => some
      { terminalState := .failed
        retryable := true
        escalate := false
        exitCode := none
        terminationReason := some reason
        errorClass := some "infrastructure"
        errorDetail := some
          "the infrastructure budget is spent: three launches never ran user code (§5.5)"
        k8sJobName := row.k8sJobName
        backoff := podBackoff }
  | .buildSkew => some
      { terminalState := .failed
        retryable := false
        escalate := false
        exitCode := none
        terminationReason := some "build_skew"
        errorClass := some "internal"
        errorDetail := some "the running Job was launched from a different build's graph"
        k8sJobName := row.k8sJobName
        backoff := podBackoff }
  | .controlSkip => some
      { terminalState := .skipped
        retryable := false
        escalate := false
        exitCode := none
        terminationReason := some "skipped"
        errorClass := none
        errorDetail := none
        k8sJobName := none
        backoff := controlBackoff }
  | .controlError retryable code errorClass => some
      { terminalState := .failed
        retryable := retryable
        escalate := false
        exitCode := some code
        terminationReason := some "control_error"
        errorClass := some errorClass
        errorDetail := none
        k8sJobName := none
        backoff := controlBackoff }
  | .unparsedKind => some
      { terminalState := .failed
        retryable := false
        escalate := false
        exitCode := none
        terminationReason := some "config"
        errorClass := some "config"
        errorDetail := some "the job's kind does not parse into the DAG registry"
        k8sJobName := none
        backoff := podBackoff }
  | .inproc kind errorClass detail => some
      { terminalState := .failed
        retryable := false
        escalate := false
        exitCode := none
        terminationReason := none
        errorClass := some errorClass
        errorDetail := some detail
        k8sJobName := if kind = .pod then some .inproc else none
        backoff := if kind = .pod then podBackoff else controlBackoff }

/-- A failure for want of resources: a record or a report that says so, or the evidence of an OOM
or of a local-storage eviction. -/
def FailureReport.isResources : FailureReport V → Bool
  | .classified (.applyRecord record) => record.errorClass == some "resources"
  | .classified (.failResources _ _) => true
  | .posted errorClass _ _ _ => errorClass == some "resources"
  | _ => false

/-- A resources failure of an escalating node fails the try, is retryable, and escalates below
`L`. -/
theorem failure_of_isResources {report : FailureReport V} (hresources : report.isResources = true)
    {row : TaskInstance J T V} {failure : TaskFailure J T}
    (hfailure : report.failure true row = some failure) :
    failure.terminalState = .failed ∧ failure.retryable = true ∧
      failure.errorClass = some "resources" ∧
      (row.resourceClass ≠ some .L → failure.escalate = true) := by
  cases report with
  | classified verdict =>
      cases verdict with
      | applyRecord record =>
          simp only [FailureReport.isResources, beq_iff_eq] at hresources
          simp only [FailureReport.failure, TerminalVerdict.failure, hresources,
            Option.getD_some] at hfailure
          split at hfailure
          · cases hfailure
            exact ⟨rfl, rfl, rfl, fun _ => rfl⟩
          · cases hfailure
      | failResources reason detail =>
          cases hfailure
          refine ⟨rfl, rfl, rfl, ?_⟩
          intro hclass
          simpa using hclass
      | _ => cases hresources
  | posted errorClass exitCode terminationReason errorDetail =>
      simp only [FailureReport.isResources, beq_iff_eq] at hresources
      simp only [FailureReport.failure, hresources, Option.getD_some] at hfailure
      cases hfailure
      exact ⟨rfl, rfl, rfl, fun _ => rfl⟩
  | _ => cases hresources

/-- No other failure escalates. -/
theorem escalate_of_not_isResources {report : FailureReport V}
    (hother : report.isResources = false) {escalates : Bool} {row : TaskInstance J T V}
    {failure : TaskFailure J T} (hfailure : report.failure escalates row = some failure) :
    failure.escalate = false := by
  cases report with
  | classified verdict =>
      cases verdict with
      | applyRecord record =>
          simp only [FailureReport.isResources, beq_eq_false_iff_ne] at hother
          simp only [FailureReport.failure, TerminalVerdict.failure] at hfailure
          split at hfailure
          · cases hfailure
            have hclass : record.errorClass.getD "internal" ≠ "resources" := by
              cases hrecord : record.errorClass with
              | none => decide
              | some errorClass =>
                  intro hsame
                  apply hother
                  rw [hrecord]
                  exact congrArg some hsame
            simp [hclass]
          · cases hfailure
      | failResources reason detail => cases hother
      | failNoRecord => cases hfailure; rfl
      | timedOut => cases hfailure; rfl
      | _ => cases hfailure
  | posted errorClass exitCode terminationReason errorDetail =>
      simp only [FailureReport.isResources, beq_eq_false_iff_ne] at hother
      cases hfailure
      have hclass : errorClass.getD "internal" ≠ "resources" := by
        cases hposted : errorClass with
        | none => decide
        | some reported =>
            intro hsame
            apply hother
            rw [hposted]
            exact congrArg some hsame
      simp [hclass]
  | _ => cases hfailure; rfl

/-! ## What the retry does -/

variable [LinearOrder J] [LinearOrder T]

/-- The rows that failing or retrying an accepted try leaves: without a retry the row stays live in
its terminal state and no other row changes; with one, the row is archived, or the transaction
failed and nothing changed. -/
theorem failOrRetryTask_cases {ledger : Ledger J T V} {id : AttemptId J T}
    {failure : TaskFailure J T} {row : TaskInstance J T V} (hrow : ledger.tasks[id]? = some row)
    (hhit : (archiveTry ledger.jobs id failure).hit id row = true) (now hash : ℤ) :
    let later := failOrRetryTask ledger id failure now hash
    (retries failure id row = false ∧
        later[id]? = some ((archiveTry ledger.jobs id failure).set id row) ∧
        later[id.next]? = ledger.tasks[id.next]?) ∨
      (retries failure id row = true ∧
        (later[id]? = some row ∨
          later[id]? = some ((archiveTry ledger.jobs id failure).set id row)) ∧
        (later[id.next]? = ledger.tasks[id.next]? ∨
          ∃ next, later[id.next]? = some next ∧ next.resourceClass =
            if failure.escalate then row.resourceClass.map ResourceClass.escalated
            else row.resourceClass)) := by
  have hother : id.next ≠ id := by
    intro hsame
    have hnumber := congrArg AttemptId.tryNumber hsame
    simp [AttemptId.next] at hnumber
  have harchived : ((archiveTry ledger.jobs id failure).run ledger.tasks)[id]? =
      some ((archiveTry ledger.jobs id failure).set id row) := by
    rw [Update.getElem?_run, hrow, Option.map_some, Update.row, if_pos hhit]
  have hnext : ((archiveTry ledger.jobs id failure).run ledger.tasks)[id.next]? =
      ledger.tasks[id.next]? := by
    rw [Update.getElem?_run]
    cases ledger.tasks[id.next]? with
    | none => rfl
    | some next =>
        rw [Option.map_some, Update.row, if_neg]
        intro hhitNext
        exact hother (archiveTry_only hhitNext)
  intro later
  have hlater : later = if retries failure id row then
      (insertRetryTry ((archiveTry ledger.jobs id failure).run ledger.tasks) id failure.escalate
        failure.backoff now hash).getD ledger.tasks
      else (archiveTry ledger.jobs id failure).run ledger.tasks := by
    show failOrRetryTask ledger id failure now hash = _
    rw [failOrRetryTask, hrow]
    dsimp only
    rw [if_pos hhit]
  by_cases hretries : retries failure id row = true
  · right
    rw [if_pos hretries] at hlater
    refine ⟨hretries, ?_⟩
    cases hinsert : insertRetryTry ((archiveTry ledger.jobs id failure).run ledger.tasks) id
        failure.escalate failure.backoff now hash with
    | none =>
        rw [hinsert, Option.getD_none] at hlater
        rw [hlater]
        exact ⟨.inl hrow, .inl rfl⟩
    | some inserted =>
        rw [hinsert, Option.getD_some] at hlater
        rw [hlater]
        apply And.intro
        · exact .inr (getElem?_of_insertSuccessor hinsert harchived)
        · rcases insertSuccessor_cases hinsert with rfl | ⟨seen, hseen, _, _, _, _, rfl⟩
          · exact .inl hnext
          · right
            refine ⟨_, by rw [BTreeMap.getElem?_insert_eq_ite, if_pos rfl], ?_⟩
            rw [harchived, Option.some.injEq] at hseen
            subst hseen
            rfl
  · left
    rw [Bool.not_eq_true] at hretries
    rw [hretries, if_neg Bool.false_ne_true] at hlater
    rw [hlater]
    exact ⟨hretries, harchived, hnext⟩

/-- `escalates`: does the node of the task escalate on a resources failure? -/
def escalates (dag : Dag T) (task : T) : Bool :=
  (dag.nodes.find? fun node => node.taskId = task).any fun node => node.policy.escalateOnOom

/-- An input of a run: the report of a failure, or any other step of the control plane. -/
inductive LadderInput (J : Type u) (T : Type v) (V : Type w)
  | failed (id : AttemptId J T) (report : FailureReport V) (now hash : ℤ)
  | other (action : Action J T V)

/-- The report finds its row, nothing locks it, and the archive statement accepts the failure. -/
structure Accepted (dagFor : J → Dag T) (plane : ControlPlane J T V) (id : AttemptId J T)
    (report : FailureReport V) (row : TaskInstance J T V) (failure : TaskFailure J T) : Prop where
  found : plane.ledger.tasks[id]? = some row
  recorded : report.failure (escalates (dagFor id.job) id.task) row = some failure
  free : plane.rowLocked id = false
  hit : (archiveTry plane.ledger.jobs id failure).hit id row = true

/-- What the ladder wants of one accepted failure, from the tasks before it to those after it. -/
structure KeepsLadder (tasks later : TaskTable J T V) (id : AttemptId J T)
    (report : FailureReport V) (row : TaskInstance J T V) : Prop where
  climbs : report.isResources = true → ∀ resourceClass, row.resourceClass = some resourceClass →
    resourceClass ≠ .L → ∀ next, tasks[id.next]? = none → later[id.next]? = some next →
      next.resourceClass = some resourceClass.escalated
  keeps : report.isResources = false → ∀ next, tasks[id.next]? = none →
    later[id.next]? = some next → next.resourceClass = row.resourceClass
  ends : report.isResources = true → row.resourceClass = some .L →
    (∃ last, later[id]? = some last ∧ last.live = true ∧ last.state = .failed ∧
      last.errorClass = some "resources") ∧ later[id.next]? = tasks[id.next]?

section Runs

variable (render : T → String) (dagFor : J → Dag T)

/-- One input: a report of a failure runs the retry transaction when it amounts to a failure. -/
def ladderStep (plane : ControlPlane J T V) : LadderInput J T V → ControlPlane J T V
  | .failed id report now hash =>
      match (plane.ledger.tasks[id]?).bind
          (report.failure (escalates (dagFor id.job) id.task)) with
      | some failure => plane.step render dagFor (.failOrRetry id failure now hash)
      | none => plane
  | .other action => plane.step render dagFor action

/-- The ladder holds of an input: of a failure that an escalating node's row accepts. -/
def LadderHolds (plane : ControlPlane J T V) (input : LadderInput J T V) : Prop :=
  match input with
  | .failed id report _ _ =>
      escalates (dagFor id.job) id.task = true →
        ∀ row failure, Accepted dagFor plane id report row failure →
          KeepsLadder plane.ledger.tasks (ladderStep render dagFor plane input).ledger.tasks id
            report row
  | .other _ => True

/-- No resources failure of a try at `L` is accepted while there is try budget left. -/
def TopSpent (plane : ControlPlane J T V) : LadderInput J T V → Prop
  | .failed id report _ _ =>
      escalates (dagFor id.job) id.task = true →
        ∀ row failure, Accepted dagFor plane id report row failure →
          report.isResources = true → row.resourceClass = some .L →
            row.maxTries < (id.tryNumber : ℤ)
  | .other _ => True

variable {dagFor}

theorem tasks_ladderStep {plane : ControlPlane J T V} {id : AttemptId J T}
    {report : FailureReport V} {row : TaskInstance J T V} {failure : TaskFailure J T}
    (haccepted : Accepted dagFor plane id report row failure) (now hash : ℤ) :
    (ladderStep render dagFor plane (.failed id report now hash)).ledger.tasks =
      failOrRetryTask plane.ledger id failure now hash := by
  rw [ladderStep, haccepted.found, Option.bind_some, haccepted.recorded]
  dsimp only
  rw [ControlPlane.step, haccepted.free, if_neg Bool.false_ne_true]
  rfl

/-- One accepted failure of an escalating node keeps the ladder exactly when it is not a resources
failure at `L` with budget left. -/
theorem keepsLadder_iff {plane : ControlPlane J T V} {id : AttemptId J T}
    {report : FailureReport V} {row : TaskInstance J T V} {failure : TaskFailure J T}
    (hescalates : escalates (dagFor id.job) id.task = true)
    (haccepted : Accepted dagFor plane id report row failure) (now hash : ℤ) :
    KeepsLadder plane.ledger.tasks
        (ladderStep render dagFor plane (.failed id report now hash)).ledger.tasks id report row ↔
      (report.isResources = true → row.resourceClass = some .L →
        row.maxTries < (id.tryNumber : ℤ)) := by
  rw [tasks_ladderStep render haccepted]
  have hfailure := haccepted.recorded
  rw [hescalates] at hfailure
  have hcases := failOrRetryTask_cases haccepted.found haccepted.hit now hash
  dsimp only at hcases
  have hset : (archiveTry plane.ledger.jobs id failure).set id row =
      { row with
        state := failure.terminalState.toTaskState
        live := !retries failure id row
        archivedReason := if retries failure id row then some .retry else row.archivedReason
        exitCode := failure.exitCode
        terminationReason := failure.terminationReason
        errorClass := failure.errorClass
        errorDetail := failure.errorDetail.map truncateDetail } := rfl
  apply Iff.intro
  · intro hladder hresources htop
    obtain ⟨_, hretryable, _, _⟩ := failure_of_isResources hresources hfailure
    obtain ⟨⟨last, hlast, hlive, hstate, _⟩, _⟩ := hladder.ends hresources htop
    rcases hcases with ⟨hretries, _, _⟩ | ⟨hretries, hrows, _⟩
    · rw [retries, hretryable, Bool.true_and, decide_eq_false_iff_not] at hretries
      omega
    · rcases hrows with hsame | harchived
      · -- the transaction failed, so the row is still claimed
        rw [hsame, Option.some.injEq] at hlast
        subst hlast
        have hclaimed := haccepted.hit
        simp [archiveTry, hstate, TaskState.isClaimed] at hclaimed
      · rw [harchived, Option.some.injEq] at hlast
        subst hlast
        rw [hset, hretries] at hlive
        cases hlive
  · intro hbudget
    constructor
    · intro hresources resourceClass hclass hbelow next hfresh hnext
      have hescalate := (failure_of_isResources hresources hfailure).2.2.2 (by
        rw [hclass]
        exact fun htop => hbelow (Option.some.inj htop))
      rcases hcases with ⟨_, _, hkept⟩ | ⟨_, _, hkept | ⟨inserted, hinserted, hladder⟩⟩
      · rw [hkept, hfresh] at hnext
        cases hnext
      · rw [hkept, hfresh] at hnext
        cases hnext
      · rw [hinserted, Option.some.injEq] at hnext
        subst hnext
        rw [hladder, if_pos hescalate, hclass, Option.map_some]
    · intro hother next hfresh hnext
      have hescalate := escalate_of_not_isResources hother hfailure
      rcases hcases with ⟨_, _, hkept⟩ | ⟨_, _, hkept | ⟨inserted, hinserted, hladder⟩⟩
      · rw [hkept, hfresh] at hnext
        cases hnext
      · rw [hkept, hfresh] at hnext
        cases hnext
      · rw [hinserted, Option.some.injEq] at hnext
        subst hnext
        rw [hladder, hescalate, if_neg Bool.false_ne_true]
    · intro hresources htop
      obtain ⟨hstate, _, hclass, _⟩ := failure_of_isResources hresources hfailure
      have hspent := hbudget hresources htop
      have hretries : retries failure id row = false := by
        rw [retries, Bool.and_eq_false_iff]
        right
        rw [decide_eq_false_iff_not]
        omega
      rcases hcases with ⟨_, hlast, hkept⟩ | ⟨hagain, _, _⟩
      · refine ⟨⟨_, hlast, ?_, ?_, ?_⟩, hkept⟩
        · rw [hset, hretries]
          rfl
        · rw [hset, hstate]
          rfl
        · rw [hset, hclass]
      · rw [hretries] at hagain
        cases hagain

variable (dagFor)

/-- Over every sequence of failures and other steps, from any state: the ladder holds of every
failure exactly when no resources failure of a try at `L` is accepted with try budget left. -/
theorem resource_ladder_iff (plane : ControlPlane J T V) (inputs : List (LadderInput J T V)) :
    Along (ladderStep render dagFor) (LadderHolds render dagFor) plane inputs ↔
      Along (ladderStep render dagFor) (TopSpent dagFor) plane inputs := by
  apply along_iff_along (fun _ => True)
  · intro state input _
    cases input with
    | failed id report now hash =>
        apply forall_congr'
        intro hescalates
        apply forall₂_congr
        intro row failure
        apply forall_congr'
        intro haccepted
        exact keepsLadder_iff render hescalates haccepted now hash
    | other action => exact Iff.rfl
  · intro _ _ _ _
    trivial
  · trivial

end Runs

/-- One task that escalates and may be retried twice. -/
def escalatingTask : Dag ℕ where
  nodes :=
    [{ taskId := 0
       kind := .pod
       inputNames := []
       writesLake := true
       triggerRule := .allSucceeded
       teardown := false
       policy := { retries := 2, classRule := .fromRun, escalateOnOom := true, segment := none }
       upstream := [] }]
  upstream_lt := by decide
  nodup := by decide

/-- The job runs at `L`, and its task is launched and starts. -/
def startedAtTop : List (LadderInput ℕ ℕ ℕ) :=
  [.other (.job (.enqueue 0 "org" 0 0 (some .L))), .other (.job (.claim 0 0)), .other (.plan 0),
    .other (.openPass 0), .other .commitPass, .other (.claimLaunch "epoch" none 0 1),
    .other (.task (.start ⟨0, 0, 1⟩ (.launch 0 0 1 1) "pod" "uid"))]

/-- The plane in which the task runs at `L`. -/
def runningAtTop : ControlPlane ℕ ℕ ℕ :=
  startedAtTop.foldl (ladderStep (fun _ => "") fun _ => escalatingTask) ControlPlane.fresh

/-- The watch finds the pod OOM-killed. -/
def oomKilled : LadderInput ℕ ℕ ℕ :=
  .failed ⟨0, 0, 1⟩ (.classified (.failResources "OOMKilled" none)) 0 0

/-- An OOM of a try at `L` is retried at `L`. -/
theorem oom_at_top_is_retried :
    ¬ ∀ inputs : List (LadderInput ℕ ℕ ℕ),
      Along (ladderStep (fun _ => "") fun _ => escalatingTask)
        (LadderHolds (fun _ => "") fun _ => escalatingTask) ControlPlane.fresh inputs := by
  intro hall
  have hlast : LadderHolds (fun _ => "") (fun _ => escalatingTask) runningAtTop oomKilled :=
    (hall (startedAtTop ++ [oomKilled])).last
  have hrow : (runningAtTop.ledger.tasks[(⟨0, 0, 1⟩ : AttemptId ℕ ℕ)]?).any (fun row =>
      row.live && row.state.isClaimed && row.resourceClass == some .L &&
        jobAllows runningAtTop.ledger.jobs ⟨0, 0, 1⟩ row) = true := by
    decide +kernel
  rw [Option.any_eq_true] at hrow
  obtain ⟨row, hfound, hstanding⟩ := hrow
  simp only [Bool.and_eq_true, beq_iff_eq] at hstanding
  have haccepted : Accepted (fun _ => escalatingTask) runningAtTop ⟨0, 0, 1⟩
      (.classified (.failResources "OOMKilled" none)) row _ :=
    { found := hfound
      recorded := rfl
      free := by decide +kernel
      hit := by simp [archiveTry, hstanding] }
  rcases ((hlast (by decide) row _ haccepted).ends rfl hstanding.1.2).1 with
    ⟨last, hlater, hlive, _, _⟩
  have hretried : ((ladderStep (fun _ => "") (fun _ => escalatingTask) runningAtTop
      oomKilled).ledger.tasks[(⟨0, 0, 1⟩ : AttemptId ℕ ℕ)]?).any (·.live) = false := by
    decide +kernel
  rw [show (ladderStep (fun _ => "") (fun _ => escalatingTask) runningAtTop
    oomKilled).ledger.tasks[(⟨0, 0, 1⟩ : AttemptId ℕ ℕ)]? = some last from hlater,
    Option.any_some, hlive] at hretried
  cases hretried

end EntityResolution.Executor
