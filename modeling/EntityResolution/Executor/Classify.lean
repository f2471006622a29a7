/-
# The terminal classifier and its callers

A launch of a row runs in one pod. The watch brings evidence of it: Job frames, pod frames and the
findings of a resync. A pure classifier turns evidence into a verdict, and three callers hand it
different evidence: the Job stream has no pod, the pod stream has one, and the resync decides from
the Jobs it lists.

A verdict that ends in another launch, or frees the row, should wait until the pod has been seen
deleted or in a terminal phase. The classifier keeps to that where it is given a pod. It does not
for the deadline of a Job whose row is canceling or restarting, and the resync does not look at
the pods it lists.
-/

import EntityResolution.Foundations.Runs
import EntityResolution.Executor.ControlPlane

namespace EntityResolution.Executor

open EntityResolution.Runs

universe u v w

variable {J : Type u} {T : Type v} {V : Type w}

/-- The phase of a pod. -/
inductive PodPhase
  | pending
  | running
  | succeeded
  | failed
  | unknown
  deriving DecidableEq

/-- What the terminal classifier reads of a pod. -/
structure PodSnapshot where
  phase : PodPhase
  terminatedExitCode : Option ℤ
  terminatedReason : Option String
  terminationMessage : Option String
  disruptionTarget : Option String
  statusReason : Option String

/-- `PodSnapshot::is_terminal`. -/
def PodSnapshot.isTerminal (pod : PodSnapshot) : Bool :=
  pod.phase == .succeeded || pod.phase == .failed

/-- What the terminal classifier reads of a Job: its condition `Failed/DeadlineExceeded`. -/
structure JobSnapshot where
  failedDeadline : Bool

/-- The state that a terminal record reports. -/
inductive TerminalState
  | succeeded
  | skipped
  | failed
  | interrupted
  deriving DecidableEq

/-- The record that a pod leaves in its termination message. -/
structure TerminalRecord (V : Type w) where
  state : TerminalState
  exit : ℤ
  errorClass : Option String
  terminationReason : Option String
  detail : Option String
  output : Option V

/-- The row states that the classifier tells apart. -/
inductive RowState
  | queued
  | running
  | restarting
  | canceling
  deriving DecidableEq

/-- What is known of the row when evidence arrives. -/
structure RowView where
  state : RowState
  finishLanded : Bool

/-- A terminal verdict, named by the statement that is run for it. -/
inductive TerminalVerdict (V : Type w)
  | wait
  | recordEvidence (exitCode : Option ℤ) (reason : Option String)
  | applyRecord (record : TerminalRecord V)
  | failNoRecord
  | timedOut
  | failResources (reason : String) (detail : Option String)
  | requeue (reason : String)
  | settleCanceled (exitCode : Option ℤ) (reason : Option String)
  | completeRestart (exitCode : Option ℤ) (reason : Option String)

/-- The verdict ends in a new launch or frees the row. -/
def TerminalVerdict.relaunches : TerminalVerdict V → Bool
  | .requeue _ | .settleCanceled _ _ | .completeRestart _ _ => true
  | _ => false

/-- `NO_RECORD_BOUND_SECS`. -/
def noRecordBoundSecs : ℕ := 60

/-- Terminal evidence without a record: the platform decides. -/
def classifyPlatform (state : RowState) (pod : Option PodSnapshot) (job : JobSnapshot)
    (deleted : Bool) (noRecordSecs : ℕ) : TerminalVerdict V :=
  if pod.bind (·.terminatedReason) = some "OOMKilled" then .failResources "OOMKilled" none
  else if pod.any fun pod => pod.statusReason == some "Evicted" && pod.disruptionTarget.isNone then
    .failResources "Evicted" (pod.bind (·.terminationMessage))
  else
    match pod.bind (·.disruptionTarget) with
    | some target => .requeue target
    | none =>
        if job.failedDeadline then .timedOut
        -- a kill whose author is unknown is never taken for an OOM
        else if pod.bind (·.terminatedExitCode) = some 137 then .requeue "sigkill"
        else if deleted then .requeue ((pod.bind (·.statusReason)).getD "vanished")
        else if state = .running then
          if noRecordBoundSecs ≤ noRecordSecs then .failNoRecord else .wait
        else .requeue "no_terminal_record"

/-- Terminal evidence for a queued or running row: its record decides, unless it was interrupted
or could not reach the control plane. -/
def classifyLive (parse : String → Option (TerminalRecord V)) (state : RowState)
    (pod : Option PodSnapshot) (job : JobSnapshot) (deleted : Bool) (noRecordSecs : ℕ) :
    TerminalVerdict V :=
  match (pod.bind (·.terminationMessage)).bind parse with
  | some record =>
      if record.state = .interrupted then
        if job.failedDeadline then .timedOut
        else
          match pod.bind (·.disruptionTarget) with
          | some target => .requeue target
          | none =>
              if deleted || pod.bind (·.statusReason) == some "NodeLost" then .requeue "vanished"
              else .requeue "sigterm"
      else if record.terminationReason = some "control_plane_unreachable" then
        .requeue "control_plane_unreachable"
      else .applyRecord record
  | none => classifyPlatform state pod job deleted noRecordSecs

/-- `terminal`; `parse` reads a record out of a termination message. -/
def terminal (parse : String → Option (TerminalRecord V)) (row : RowView)
    (pod : Option PodSnapshot) (job : JobSnapshot) (deleted : Bool) (noRecordSecs : ℕ) :
    TerminalVerdict V :=
  let exitCode := pod.bind (·.terminatedExitCode)
  let reason := pod.bind (·.terminatedReason)
  if row.finishLanded then .recordEvidence exitCode reason
  else if deleted || pod.any PodSnapshot.isTerminal then
    match row.state with
    | .canceling => .settleCanceled exitCode reason
    | .restarting => .completeRestart exitCode reason
    | .queued => classifyLive parse .queued pod job deleted noRecordSecs
    | .running => classifyLive parse .running pod job deleted noRecordSecs
  else if job.failedDeadline && pod.isNone then
    match row.state with
    | .canceling => .settleCanceled none (some "DeadlineExceeded")
    | .restarting => .completeRestart none (some "DeadlineExceeded")
    | .queued | .running => .timedOut
  else .wait

theorem terminal_of_finishLanded (parse : String → Option (TerminalRecord V)) {row : RowView}
    (hlanded : row.finishLanded = true) (pod : Option PodSnapshot) (job : JobSnapshot)
    (deleted : Bool) (noRecordSecs : ℕ) :
    terminal parse row pod job deleted noRecordSecs =
      .recordEvidence (pod.bind (·.terminatedExitCode)) (pod.bind (·.terminatedReason)) := by
  rw [terminal, if_pos hlanded]

/-- With a pod in hand, a verdict that relaunches rests on its deletion or its phase. -/
theorem gone_of_relaunches {parse : String → Option (TerminalRecord V)} {row : RowView}
    {pod : PodSnapshot} {job : JobSnapshot} {deleted : Bool} {noRecordSecs : ℕ}
    (hrelaunches : (terminal parse row (some pod) job deleted noRecordSecs).relaunches = true) :
    deleted = true ∨ pod.isTerminal = true := by
  by_contra hpresent
  rw [not_or, Bool.not_eq_true, Bool.not_eq_true] at hpresent
  have hevidence : (deleted || (some pod).any PodSnapshot.isTerminal) = false := by
    rw [hpresent.1, Option.any_some, hpresent.2, Bool.or_false]
  rw [terminal] at hrelaunches
  split at hrelaunches
  · cases hrelaunches
  · rw [hevidence, if_neg Bool.false_ne_true, Option.isNone_some, Bool.and_false,
      if_neg Bool.false_ne_true] at hrelaunches
    cases hrelaunches

/-- `row_view`. -/
def rowView : TaskState → Option RowView
  | .queued => some ⟨.queued, false⟩
  | .running => some ⟨.running, false⟩
  | .restarting => some ⟨.restarting, false⟩
  | .canceling => some ⟨.canceling, false⟩
  | .succeeded | .skipped => some ⟨.running, true⟩
  | _ => none

section Callers

variable [DecidableEq J] [DecidableEq T] (parse : String → Option (TerminalRecord V))
  (launch : JobName J T)

/-- The verdict of `apply_job`: only a Job past its deadline has one, and not for a row that
carries another launch. -/
def applyJob (row : TaskInstance J T V) (job : JobSnapshot) : Option (TerminalVerdict V) :=
  if job.failedDeadline && row.k8sJobName == some launch then
    (rowView row.state).map fun view => terminal parse view none job false 0
  else none

/-- The zombie write-ahead: the try of a row whose heartbeat stopped is charged, not the launch. -/
def chargeZombie (row : TaskInstance J T V) (pod : PodSnapshot) :
    TerminalVerdict V → TerminalVerdict V
  | .requeue reason =>
      if row.terminationReason = some "heartbeat_timeout" then
        .applyRecord
          { state := .failed
            exit := pod.terminatedExitCode.getD 1
            errorClass := some "infrastructure"
            terminationReason := some "heartbeat_timeout"
            detail := some
              "no heartbeat for 5 minutes; something ran and the outcome is unknown"
            output := none }
      else .requeue reason
  | verdict => verdict

/-- The verdict of `apply_pod`; `job` is what the API returned for the launch's Job. -/
def applyPod (row : TaskInstance J T V) (pod : PodSnapshot) (deleted : Bool) (job : JobSnapshot) :
    Option (TerminalVerdict V) :=
  if row.k8sJobName == some launch then
    (rowView row.state).map fun view =>
      chargeZombie row pod (terminal parse view (some pod) job deleted noRecordBoundSecs)
  else none

/-- What `reconcile` decides for a live claimed pod row from the listed Jobs, as far as it ends in
a launch or frees the row. The pods it lists are not looked at. -/
def resync (row : TaskInstance J T V) (jobListed : Bool) : Option (TerminalVerdict V) :=
  if row.live && row.kind == .pod && row.k8sJobName == some launch && !jobListed then
    match row.state with
    | .restarting => some (.completeRestart none (some "no_pod"))
    | .canceling => some (.settleCanceled none (some "vanished"))
    | .running => some (.requeue "vanished")
    | .queued => some (.requeue "adoption_relaunch")
    | _ => none
  else none

/-- What happens around one launch: its pod is created, and the watch brings a Job frame, a pod
frame or a resync. The row is the one read when the event is applied, in any state. A resync has
listed the launch's Job or not, and its pod or not. -/
inductive LaunchEvent (J : Type u) (T : Type v) (V : Type w)
  | podCreated
  | job (row : TaskInstance J T V) (job : JobSnapshot)
  | pod (row : TaskInstance J T V) (pod : PodSnapshot) (deleted : Bool) (job : JobSnapshot)
  | resync (row : TaskInstance J T V) (jobListed : Bool) (podListed : Option PodSnapshot)

/-- Whether the pod of the launch was created, and whether it has since been observed deleted or in
a terminal phase. -/
structure PodTrack where
  created : Bool
  observedGone : Bool

/-- The track after an event; a resync that does not list the pod has observed it gone. -/
def PodTrack.after (track : PodTrack) : LaunchEvent J T V → PodTrack
  | .podCreated => ⟨true, false⟩
  | .job _ _ => track
  | .pod _ pod deleted _ => ⟨true, track.observedGone || deleted || pod.isTerminal⟩
  | .resync _ _ podListed =>
      ⟨track.created || podListed.isSome, track.observedGone || podListed.all (·.isTerminal)⟩

/-- The verdict that is applied at an event. -/
def LaunchEvent.verdict : LaunchEvent J T V → Option (TerminalVerdict V)
  | .podCreated => none
  | .job row seen => applyJob parse launch row seen
  | .pod row seen deleted owner => applyPod parse launch row seen deleted owner
  | .resync row jobListed _ => Executor.resync launch row jobListed

/-- A verdict that relaunches is applied only when the pod, where one was created, has been observed
gone. -/
def RelaunchSafe (track : PodTrack) (event : LaunchEvent J T V) : Prop :=
  ∀ verdict, event.verdict parse launch = some verdict → verdict.relaunches = true →
    (track.after event).created = true → (track.after event).observedGone = true

/-- The row is live, runs this launch in a pod, and holds it. -/
def HoldsLaunch (row : TaskInstance J T V) : Prop :=
  row.live = true ∧ row.kind = .pod ∧ row.k8sJobName = some launch ∧
    row.state ∈ [TaskState.queued, .running, .restarting, .canceling]

/-- The events at which no pod is waited for meet a pod that was observed gone, or none: a Job past
its deadline under a canceling or restarting row, and a resync that misses the Job of a row and
still lists its pod. -/
def PodGoneFirst (track : PodTrack) : LaunchEvent J T V → Prop
  | .podCreated => True
  | .pod _ _ _ _ => True
  | .job row job =>
      job.failedDeadline = true → row.k8sJobName = some launch →
        row.state = .canceling ∨ row.state = .restarting →
          track.created = true → track.observedGone = true
  | .resync row jobListed podListed =>
      jobListed = false → HoldsLaunch launch row →
        ∀ pod, podListed = some pod → pod.isTerminal = true ∨ track.observedGone = true

omit [DecidableEq J] [DecidableEq T] in
theorem relaunches_of_chargeZombie {row : TaskInstance J T V} {pod : PodSnapshot}
    {verdict : TerminalVerdict V} (hrelaunches : (chargeZombie row pod verdict).relaunches = true) :
    verdict.relaunches = true := by
  cases verdict with
  | requeue reason => rfl
  | _ => exact hrelaunches

/-- A pod frame is always safe. -/
theorem relaunchSafe_pod (track : PodTrack) (row : TaskInstance J T V) (pod : PodSnapshot)
    (deleted : Bool) (job : JobSnapshot) :
    RelaunchSafe parse launch track (.pod row pod deleted job) := by
  intro verdict hverdict hrelaunches _
  simp only [LaunchEvent.verdict, applyPod] at hverdict
  split at hverdict
  · obtain ⟨view, _, rfl⟩ := Option.map_eq_some_iff.mp hverdict
    have hgone := gone_of_relaunches (relaunches_of_chargeZombie hrelaunches)
    simp only [PodTrack.after, Bool.or_eq_true]
    tauto
  · cases hverdict

theorem relaunchSafe_job_iff (track : PodTrack) (row : TaskInstance J T V) (job : JobSnapshot) :
    RelaunchSafe parse launch track (.job row job) ↔
      PodGoneFirst launch track (.job row job) := by
  simp only [RelaunchSafe, PodGoneFirst, LaunchEvent.verdict, applyJob, PodTrack.after]
  obtain ⟨failedDeadline⟩ := job
  cases failedDeadline with
  | false => simp
  | true =>
      by_cases hlaunch : row.k8sJobName = some launch
      · cases hstate : row.state <;>
          simp [hlaunch, rowView, terminal, TerminalVerdict.relaunches]
      · simp [hlaunch]

/-- A resync is safe exactly when a pod it lists is terminal or was observed gone, or it lists the
Job. -/
theorem relaunchSafe_resync_iff (track : PodTrack) (row : TaskInstance J T V) (jobListed : Bool)
    (podListed : Option PodSnapshot) :
    RelaunchSafe parse launch track (.resync row jobListed podListed) ↔
      PodGoneFirst launch track (.resync row jobListed podListed) := by
  have hverdict : (∃ verdict, resync launch row jobListed = some verdict ∧
      (verdict : TerminalVerdict V).relaunches = true) ↔
        jobListed = false ∧ HoldsLaunch launch row := by
    simp only [resync, HoldsLaunch]
    by_cases hrow : row.live = true ∧ row.kind = .pod ∧ row.k8sJobName = some launch
    · cases jobListed <;> cases hstate : row.state <;>
        simp [hrow, TerminalVerdict.relaunches]
    · have hnone : (row.live && row.kind == .pod && row.k8sJobName == some launch &&
          !jobListed) = false := by
        by_contra hrun
        simp only [Bool.not_eq_false, Bool.and_eq_true, beq_iff_eq] at hrun
        exact hrow ⟨hrun.1.1.1, hrun.1.1.2, hrun.1.2⟩
      rw [hnone]
      simp
      tauto
  apply Iff.intro
  · intro hsafe hmissing hrow pod hpod
    obtain ⟨verdict, hresync, hrelaunches⟩ := hverdict.mpr ⟨hmissing, hrow⟩
    have hgone := hsafe verdict hresync hrelaunches
    rw [hpod] at hgone
    simp only [PodTrack.after, Option.isSome_some, Bool.or_true, Option.all_some,
      Bool.or_eq_true, forall_const] at hgone
    exact hgone.symm
  · intro hguard verdict hresync hrelaunches _
    obtain ⟨hmissing, hrow⟩ := hverdict.mp ⟨verdict, hresync, hrelaunches⟩
    have hlisted := hguard hmissing hrow
    simp only [PodTrack.after, Bool.or_eq_true]
    cases podListed with
    | none => exact .inr rfl
    | some pod => exact (hlisted pod rfl).symm

/-- Every order of events around one launch: what is applied waits for the pod exactly when the
events that wait for no pod meet one that was observed gone. And a landed finish is only ever
annotated. -/
theorem relaunch_waits_iff (events : List (LaunchEvent J T V)) :
    (Along PodTrack.after (RelaunchSafe parse launch) ⟨false, false⟩ events ↔
      Along PodTrack.after (PodGoneFirst launch) ⟨false, false⟩ events) ∧
    ∀ (row : RowView) (pod : Option PodSnapshot) (job : JobSnapshot) (deleted : Bool)
      (noRecordSecs : ℕ), row.finishLanded = true →
        terminal parse row pod job deleted noRecordSecs =
          .recordEvidence (pod.bind (·.terminatedExitCode)) (pod.bind (·.terminatedReason)) := by
  apply And.intro
  · apply along_iff_along (fun _ => True)
    · intro track event _
      cases event with
      | podCreated =>
          apply iff_of_true _ trivial
          intro verdict hverdict
          cases hverdict
      | job row seen => exact relaunchSafe_job_iff parse launch track row seen
      | pod row seen deleted owner =>
          exact iff_of_true (relaunchSafe_pod parse launch track row seen deleted owner) trivial
      | resync row jobListed podListed =>
          exact relaunchSafe_resync_iff parse launch track row jobListed podListed
    · intro _ _ _ _
      trivial
    · trivial
  · intro row pod job deleted noRecordSecs hlanded
    exact terminal_of_finishLanded parse hlanded pod job deleted noRecordSecs

end Callers

/-- The first launch of the first try of a task. -/
def firstLaunch : JobName ℕ ℕ := .launch 0 0 1 1

/-- A row that holds the first launch. -/
def launchedRow (state : TaskState) : TaskInstance ℕ ℕ ℕ :=
  { (TaskInstance.fresh .pod 0 false 1 3 : TaskInstance ℕ ℕ ℕ) with
    state
    k8sJobName := some firstLaunch }

/-- A pod that is still running, with nothing else to see. -/
def runningPod : PodSnapshot where
  phase := .running
  terminatedExitCode := none
  terminatedReason := none
  terminationMessage := none
  disruptionTarget := none
  statusReason := none

/-- The pod is seen deleted before the deadline of its Job is reported. -/
theorem deleted_before_deadline_waits :
    Along PodTrack.after (RelaunchSafe (fun _ => none) firstLaunch) ⟨false, false⟩
      [.podCreated, .pod (launchedRow .canceling) runningPod true ⟨false⟩,
        .job (launchedRow .canceling) ⟨true⟩] ∧
    terminal (V := ℕ) (fun _ => none) ⟨.running, true⟩ (some runningPod) ⟨true⟩ true 0 =
      .recordEvidence none none :=
  ⟨(relaunch_waits_iff (fun _ => none) firstLaunch _).1.mpr
      ⟨trivial, trivial, fun _ _ _ _ => rfl, trivial⟩,
    (relaunch_waits_iff (fun _ => none) firstLaunch []).2 ⟨.running, true⟩ (some runningPod)
      ⟨true⟩ true 0 rfl⟩

/-- The deadline of a Job settles a canceling row while the pod is still there; and a resync that
misses the Job of a running row relaunches it beside the pod it lists. -/
theorem relaunch_beside_running_pod :
    ¬ (∀ events : List (LaunchEvent ℕ ℕ ℕ),
        Along PodTrack.after (RelaunchSafe (fun _ => none) firstLaunch) ⟨false, false⟩ events) ∧
    ¬ RelaunchSafe (fun _ => none) firstLaunch ⟨true, false⟩
      (.resync (launchedRow .running) false (some runningPod)) := by
  apply And.intro
  · intro hall
    have hrun := hall [.podCreated, .job (launchedRow .canceling) ⟨true⟩]
    have hgone := hrun.2.1 (.settleCanceled none (some "DeadlineExceeded")) rfl rfl rfl
    cases hgone
  · intro hsafe
    have hgone := hsafe (.requeue "vanished") rfl rfl rfl
    cases hgone

end EntityResolution.Executor
