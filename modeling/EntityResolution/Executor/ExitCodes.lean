/-
# Exit codes as evidence

The classifier stores the exit code of a pod next to its verdict and reads it at one place: when a
pod without a record is gone and the platform gives no reason, the code 137 tells a kill whose
author is unknown from an exit. Two pods that differ in their exit codes have one verdict everywhere
else. -/

import EntityResolution.Executor.Classify

namespace EntityResolution.Executor

universe w

variable {V : Type w}

/-- The verdict without the exit code that it records. -/
def TerminalVerdict.withoutExitCode : TerminalVerdict V → TerminalVerdict V
  | .recordEvidence _ reason => .recordEvidence none reason
  | .settleCanceled _ reason => .settleCanceled none reason
  | .completeRestart _ reason => .completeRestart none reason
  | verdict => verdict

/-- The pod with another exit code. -/
def PodSnapshot.exitedWith (pod : PodSnapshot) (exitCode : Option ℤ) : PodSnapshot :=
  { pod with terminatedExitCode := exitCode }

/-- The platform gives no reason: no OOM, no eviction, no disruption and no deadline. -/
structure PlatformSilent (pod : PodSnapshot) (job : JobSnapshot) : Prop where
  notKilled : pod.terminatedReason ≠ some "OOMKilled"
  notEvicted : pod.statusReason ≠ some "Evicted"
  notDisrupted : pod.disruptionTarget = none
  inTime : job.failedDeadline = false

/-- What is left of the classifier when the platform is silent and the exit code is not 137. -/
def classifySilent (state : RowState) (pod : PodSnapshot) (deleted : Bool) (noRecordSecs : ℕ) :
    TerminalVerdict V :=
  if deleted then .requeue (pod.statusReason.getD "vanished")
  else if state = .running then
    if noRecordBoundSecs ≤ noRecordSecs then .failNoRecord else .wait
  else .requeue "no_terminal_record"

section Platform

variable (state : RowState) (pod : PodSnapshot) (job : JobSnapshot) (deleted : Bool)
  (noRecordSecs : ℕ)

/-- The one place where the exit code is read. -/
theorem classifyPlatform_of_silent (hsilent : PlatformSilent pod job) (exitCode : Option ℤ) :
    classifyPlatform state (some (pod.exitedWith exitCode)) job deleted noRecordSecs =
      if exitCode = some 137 then (.requeue "sigkill" : TerminalVerdict V)
      else classifySilent state pod deleted noRecordSecs := by
  have hevicted : ¬ ((some (pod.exitedWith exitCode)).any fun pod =>
      pod.statusReason == some "Evicted" && pod.disruptionTarget.isNone) = true := by
    rw [Option.any_some, Bool.and_eq_true, beq_iff_eq]
    exact fun hboth => hsilent.notEvicted hboth.1
  have htarget : (some (pod.exitedWith exitCode)).bind (·.disruptionTarget) = none :=
    hsilent.notDisrupted
  have hkilled : ¬ (some (pod.exitedWith exitCode)).bind (·.terminatedReason) =
      some "OOMKilled" := hsilent.notKilled
  rw [classifyPlatform, if_neg hkilled, if_neg hevicted, htarget, hsilent.inTime]
  rfl

/-- Where the platform gives a reason, the exit code is not read. -/
theorem classifyPlatform_of_not_silent (hreason : ¬ PlatformSilent pod job)
    (exitCode exitCode' : Option ℤ) :
    (classifyPlatform state (some (pod.exitedWith exitCode)) job deleted noRecordSecs :
        TerminalVerdict V) =
      classifyPlatform state (some (pod.exitedWith exitCode')) job deleted noRecordSecs := by
  by_cases hkilled : pod.terminatedReason = some "OOMKilled"
  · simp [classifyPlatform, PodSnapshot.exitedWith, hkilled]
  · by_cases hevicted : pod.statusReason = some "Evicted" ∧ pod.disruptionTarget = none
    · simp [classifyPlatform, PodSnapshot.exitedWith, hkilled, hevicted.1, hevicted.2]
    · cases htarget : pod.disruptionTarget with
      | some target => simp [classifyPlatform, PodSnapshot.exitedWith, hkilled, htarget]
      | none =>
          have hother : pod.statusReason ≠ some "Evicted" := fun h => hevicted ⟨h, htarget⟩
          cases hdeadline : job.failedDeadline with
          | true =>
              simp [classifyPlatform, PodSnapshot.exitedWith, hkilled, hother, htarget, hdeadline]
          | false => exact absurd ⟨hkilled, hother, htarget, hdeadline⟩ hreason

end Platform

/-- Nothing but the exit code is left to decide: the row is live, the pod is gone and left no
record, and the platform is silent. -/
structure Undecided (parse : String → Option (TerminalRecord V)) (row : RowView)
    (pod : PodSnapshot) (job : JobSnapshot) (deleted : Bool) : Prop where
  notLanded : row.finishLanded = false
  live : row.state = .queued ∨ row.state = .running
  gone : deleted = true ∨ pod.isTerminal = true
  noRecord : pod.terminationMessage.bind parse = none
  silent : PlatformSilent pod job

section Codes

variable {parse : String → Option (TerminalRecord V)} {row : RowView} {pod : PodSnapshot}
  {job : JobSnapshot} {deleted : Bool} (noRecordSecs : ℕ)

/-- Undecided evidence: 137 relaunches as a kill, and every other exit code is as none. -/
theorem terminal_of_undecided (hundecided : Undecided parse row pod job deleted)
    (exitCode : Option ℤ) :
    terminal parse row (some (pod.exitedWith exitCode)) job deleted noRecordSecs =
      if exitCode = some 137 then .requeue "sigkill"
      else classifySilent row.state pod deleted noRecordSecs := by
  have hlanded : ¬ row.finishLanded = true := by
    rw [hundecided.notLanded]
    exact Bool.false_ne_true
  have hgone : (deleted || (some (pod.exitedWith exitCode)).any PodSnapshot.isTerminal) = true := by
    rw [Bool.or_eq_true]
    exact hundecided.gone
  have hlive : ∀ state, classifyLive parse state (some (pod.exitedWith exitCode)) job deleted
      noRecordSecs = if exitCode = some 137 then .requeue "sigkill"
        else classifySilent state pod deleted noRecordSecs := by
    intro state
    have hnone : ((some (pod.exitedWith exitCode)).bind (·.terminationMessage)).bind parse = none :=
      hundecided.noRecord
    rw [classifyLive, hnone]
    exact classifyPlatform_of_silent state pod job deleted noRecordSecs hundecided.silent exitCode
  rw [terminal, if_neg hlanded, if_pos hgone]
  rcases hundecided.live with hstate | hstate
  · rw [hstate]
    exact hlive .queued
  · rw [hstate]
    exact hlive .running

/-- Decided evidence: the exit code is recorded and not read. -/
theorem terminal_of_decided (hdecided : ¬ Undecided parse row pod job deleted)
    (exitCode exitCode' : Option ℤ) :
    (terminal parse row (some (pod.exitedWith exitCode)) job deleted
        noRecordSecs).withoutExitCode =
      (terminal parse row (some (pod.exitedWith exitCode')) job deleted
        noRecordSecs).withoutExitCode := by
  have hlive : ∀ state, (pod.terminationMessage.bind parse = none → ¬ PlatformSilent pod job) →
      classifyLive parse state (some (pod.exitedWith exitCode)) job deleted noRecordSecs =
        classifyLive parse state (some (pod.exitedWith exitCode')) job deleted noRecordSecs := by
    intro state hreason
    have hmessage (code : Option ℤ) :
        ((some (pod.exitedWith code)).bind (·.terminationMessage)).bind parse =
          pod.terminationMessage.bind parse := rfl
    rw [classifyLive, classifyLive, hmessage, hmessage]
    cases hrecord : pod.terminationMessage.bind parse with
    | some record => rfl
    | none =>
        exact classifyPlatform_of_not_silent state pod job deleted noRecordSecs
          (hreason hrecord) exitCode exitCode'
  rw [terminal, terminal]
  cases hlanded : row.finishLanded with
  | true => rfl
  | false =>
      by_cases hgone : (deleted || pod.isTerminal) = true
      · have hgone' : ∀ code, (deleted || (some (pod.exitedWith code)).any PodSnapshot.isTerminal) =
            true := fun _ => hgone
        rw [if_neg Bool.false_ne_true, if_neg Bool.false_ne_true, if_pos (hgone' _),
          if_pos (hgone' _)]
        cases hstate : row.state with
        | canceling => rfl
        | restarting => rfl
        | queued =>
            refine congrArg _ (hlive .queued fun hnone hsilent => hdecided ?_)
            exact ⟨hlanded, .inl hstate, Bool.or_eq_true_iff.mp hgone, hnone, hsilent⟩
        | running =>
            refine congrArg _ (hlive .running fun hnone hsilent => hdecided ?_)
            exact ⟨hlanded, .inr hstate, Bool.or_eq_true_iff.mp hgone, hnone, hsilent⟩
      · have hgone' : ∀ code, ¬ (deleted ||
            (some (pod.exitedWith code)).any PodSnapshot.isTerminal) = true := fun _ => hgone
        rw [if_neg Bool.false_ne_true, if_neg Bool.false_ne_true, if_neg (hgone' _),
          if_neg (hgone' _), Option.isNone_some, Option.isNone_some]

/-- Two pods that differ in their exit codes have one verdict but for the recorded code, unless one
code is 137, the other is not, and nothing else decides: then 137 is relaunched as a kill. -/
theorem exit_code_is_read_for_kills_only (parse : String → Option (TerminalRecord V))
    (row : RowView) (pod : PodSnapshot) (job : JobSnapshot) (deleted : Bool) (noRecordSecs : ℕ)
    (exitCode exitCode' : Option ℤ) :
    (terminal parse row (some (pod.exitedWith exitCode)) job deleted
        noRecordSecs).withoutExitCode =
      (terminal parse row (some (pod.exitedWith exitCode')) job deleted
        noRecordSecs).withoutExitCode ∨
    (Undecided parse row pod job deleted ∧
      ((exitCode = some 137 ∧ exitCode' ≠ some 137 ∧
        terminal parse row (some (pod.exitedWith exitCode)) job deleted noRecordSecs =
          .requeue "sigkill") ∨
      (exitCode' = some 137 ∧ exitCode ≠ some 137 ∧
        terminal parse row (some (pod.exitedWith exitCode')) job deleted noRecordSecs =
          .requeue "sigkill"))) := by
  by_cases hundecided : Undecided parse row pod job deleted
  · have hverdict := terminal_of_undecided noRecordSecs hundecided exitCode
    have hverdict' := terminal_of_undecided noRecordSecs hundecided exitCode'
    by_cases hkill : exitCode = some 137
    · by_cases hkill' : exitCode' = some 137
      · rw [hkill, hkill']
        exact .inl rfl
      · rw [if_pos hkill] at hverdict
        exact .inr ⟨hundecided, .inl ⟨hkill, hkill', hverdict⟩⟩
    · by_cases hkill' : exitCode' = some 137
      · rw [if_pos hkill'] at hverdict'
        exact .inr ⟨hundecided, .inr ⟨hkill', hkill, hverdict'⟩⟩
      · rw [hverdict, hverdict', if_neg hkill, if_neg hkill']
        exact .inl rfl
  · exact .inl (terminal_of_decided noRecordSecs hundecided exitCode exitCode')

end Codes

/-- A failed pod of a running row, with no record and no reason: exit code 137 relaunches it, exit
code 1 fails the task. -/
theorem exit_code_decides :
    terminal (V := ℕ) (fun _ => none) ⟨.running, false⟩
      (some (PodSnapshot.exitedWith { runningPod with phase := .failed } (some 137))) ⟨false⟩ false
        60 = .requeue "sigkill" ∧
    terminal (V := ℕ) (fun _ => none) ⟨.running, false⟩
      (some (PodSnapshot.exitedWith { runningPod with phase := .failed } (some 1))) ⟨false⟩ false
        60 = .failNoRecord ∧
    ¬ ∀ (row : RowView) (pod : PodSnapshot) (job : JobSnapshot) (deleted : Bool)
      (noRecordSecs : ℕ) (exitCode exitCode' : Option ℤ),
        (terminal (V := ℕ) (fun _ => none) row (some (pod.exitedWith exitCode)) job deleted
            noRecordSecs).withoutExitCode =
          (terminal (V := ℕ) (fun _ => none) row (some (pod.exitedWith exitCode')) job deleted
            noRecordSecs).withoutExitCode := by
  refine ⟨rfl, rfl, ?_⟩
  intro hall
  have hsame := hall ⟨.running, false⟩ { runningPod with phase := .failed } ⟨false⟩ false 60
    (some 137) (some 1)
  cases hsame

end EntityResolution.Executor
