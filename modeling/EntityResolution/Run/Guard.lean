/-
# The run ledger and the drift guard

Every run that gets past its first stage has a row in `runs`: the mode it runs under, its status
and the fingerprint of what it runs with. A job that asks for an incremental run is compared with
the last succeeded row, and promoted to a full one when a compared column moved.

The row and the comparison are written in two places. A row records the identity of the whole
ensemble, and a correction pass copies the identity of the latest row and leaves the lexicon
NULL; the comparison takes the version of the sole model. So the guard decides as it should when
the last row to be closed is that of the last succeeded run that scored the corpus, the sole
model's version is the identity's, and no snapshot moves alone.

Hashes of configurations and lexicons are opaque texts. Whether a stage of a run fails, and
whether its last stage closes the row, are part of a history's run.
-/

import EntityResolution.Foundations.Runs

namespace EntityResolution.Run

open EntityResolution.Runs

universe u

variable {J : Type u}

/-- The modes a run can be recorded under. -/
inductive RunMode
  | full
  | incremental
  | correctionPass
  deriving DecidableEq

def RunMode.asStr : RunMode → String
  | .full => "full"
  | .incremental => "incremental"
  | .correctionPass => "correction_pass"

/-- `RunFingerprint`: the columns of `runs` that the guard compares. -/
structure RunFingerprint where
  configHash : String
  modelVersion : Option String
  stdVersion : String
  survivorshipVersion : String
  lexiconHash : Option String
  deriving DecidableEq

/-- `VersionsError`. -/
inductive VersionsError
  | unknownField (field : String)
  | unknownMode (mode : String)
  deriving DecidableEq

/-- `FINGERPRINT_FIELDS`. -/
def fingerprintFields : List String :=
  ["config_hash", "model_version", "std_version", "survivorship_version", "lexicon_hash"]

/-- `RunFingerprint::value`. -/
def RunFingerprint.value (fingerprint : RunFingerprint) (field : String) :
    Except VersionsError (Option String) :=
  if field = "config_hash" then .ok (some fingerprint.configHash)
  else if field = "model_version" then .ok fingerprint.modelVersion
  else if field = "std_version" then .ok (some fingerprint.stdVersion)
  else if field = "survivorship_version" then .ok (some fingerprint.survivorshipVersion)
  else if field = "lexicon_hash" then .ok fingerprint.lexiconHash
  else .error (.unknownField field)

/-- `FieldDrift`. -/
structure FieldDrift where
  field : String
  prior : Option String
  current : Option String
  deriving DecidableEq

/-- `Display for FieldDrift`. -/
def FieldDrift.render (drift : FieldDrift) : String :=
  drift.field ++ " last=" ++ drift.prior.getD "(unset)" ++ " now=" ++
    drift.current.getD "(unset)"

/-- The fields whose values differ. -/
def fieldDrift (prior current : RunFingerprint) :
    List String → Except VersionsError (List FieldDrift)
  | [] => .ok []
  | field :: fields => do
      let last ← prior.value field
      let now ← current.value field
      let rest ← fieldDrift prior current fields
      pure (if last = now then rest else ⟨field, last, now⟩ :: rest)

/-- `ModeOutcome`. -/
inductive ModeOutcome
  | proceed
  | escalate
  | refuse
  deriving DecidableEq

/-- `ModeDecision`. -/
structure ModeDecision where
  outcome : ModeOutcome
  mode : RunMode
  drift : List FieldDrift
  message : String
  deriving DecidableEq

def ModeDecision.escalated (decision : ModeDecision) : Bool :=
  decision.outcome == .escalate

/-- `REFUSAL_MESSAGE` with the drift put in. -/
def refusalMessage (drift : String) : String :=
  "incremental run refused: the run fingerprint differs from the last successful run: " ++ drift ++
    ". Re-run with --mode full, or with --allow-escalate to promote this run to --mode full."

/-- `ESCALATION_MESSAGE` with the drift put in. -/
def escalationMessage (drift : String) : String :=
  "--allow-escalate: the run fingerprint differs from the last successful run: " ++ drift ++
    ". Promoting this run to --mode full."

/-- The decision that leaves the mode as it was asked for. -/
def ModeDecision.proceeds (mode : RunMode) : ModeDecision := ⟨.proceed, mode, [], ""⟩

/-- `check_mode_preconditions`. -/
def checkModePreconditions (prior : Option RunFingerprint) (current : RunFingerprint)
    (mode : RunMode) (allowEscalate : Bool) : Except VersionsError ModeDecision :=
  match mode with
  | .correctionPass => .error (.unknownMode mode.asStr)
  | .full => .ok (.proceeds mode)
  | .incremental =>
      match prior with
      | none => .ok (.proceeds mode)
      | some prior => do
          let drift ← fieldDrift prior current fingerprintFields
          let rendered := "; ".intercalate (drift.map FieldDrift.render)
          pure
            (if drift.isEmpty then .proceeds mode
            else if allowEscalate then ⟨.escalate, .full, drift, escalationMessage rendered⟩
            else ⟨.refuse, mode, drift, refusalMessage rendered⟩)

/-- What `status` of a run row can be; the statement that fails a row has no caller. -/
inductive RunStatus
  | running
  | succeeded
  deriving DecidableEq

/-- A row of `runs`. -/
structure RunRow (J : Type u) where
  id : J
  mode : RunMode
  status : RunStatus
  startedAt : ℤ
  configHash : String
  modelVersion : Option String
  tfSnapshotId : Option String
  stdVersion : String
  survivorshipVersion : String
  lexiconHash : Option String
  rebuildReason : Option String
  deriving DecidableEq

/-- The columns the guard compares. -/
def RunRow.fingerprint (row : RunRow J) : RunFingerprint :=
  ⟨row.configHash, row.modelVersion, row.stdVersion, row.survivorshipVersion, row.lexiconHash⟩

/-- `run/update/finish.sql`. -/
def finishRun [DecidableEq J] (runs : List (RunRow J)) (id : J) : List (RunRow J) :=
  runs.map fun row => if row.id = id then { row with status := .succeeded } else row

section Reads

variable [LinearOrder J]

/-- `ORDER BY started_at, id`: one row comes before another. -/
def precedes (firstAt : ℤ) (firstId : J) (secondAt : ℤ) (secondId : J) : Bool :=
  firstAt < secondAt || firstAt = secondAt && firstId < secondId

/-- `ORDER BY started_at DESC, id DESC LIMIT 1`. -/
def latestOf (runs : List (RunRow J)) : Option (RunRow J) :=
  runs.foldl
    (fun best row =>
      if best.all fun best => precedes best.startedAt best.id row.startedAt row.id then some row
      else best)
    none

/-- `run/read/latest_live.sql`. -/
def latestLive (runs : List (RunRow J)) : Option (RunRow J) := latestOf runs

/-- `run/read/latest_fingerprint.sql`. -/
def latestSucceeded (runs : List (RunRow J)) : Option (RunRow J) :=
  latestOf (runs.filter fun row => row.status = .succeeded)

/-- `prior_fingerprint`. -/
def priorFingerprint (runs : List (RunRow J)) : Option RunFingerprint :=
  (latestSucceeded runs).map RunRow.fingerprint

end Reads

/-- A model's version and its term-frequency snapshot. -/
structure ModelIdentity where
  modelVersion : String
  tfSnapshotId : String
  deriving DecidableEq

/-- `ResolvedMember`, the part the ledger records. -/
structure ResolvedMember where
  name : String
  identity : ModelIdentity
  deriving DecidableEq

/-- `ensemble_identity`: a single member's own, or every member's under its name. -/
def ensembleIdentity (members : List ResolvedMember) : ModelIdentity :=
  match members with
  | [only] => only.identity
  | _ =>
      ⟨"+".intercalate (members.map fun member =>
          member.name ++ "=" ++ member.identity.modelVersion),
        "+".intercalate (members.map fun member =>
          member.name ++ "=" ++ member.identity.tfSnapshotId)⟩

/-- The kinds of job that open a run row. -/
inductive RunKind
  | runAllFull
  | runAllIncremental
  | correct
  | applyCorrections
  deriving DecidableEq

/-- The kinds that score the corpus. -/
def RunKind.scores : RunKind → Bool
  | .runAllFull | .runAllIncremental => true
  | .correct | .applyCorrections => false

/-- `mode_asked`. -/
def RunKind.modeAsked : RunKind → RunMode
  | .runAllIncremental => .incremental
  | _ => .full

/-- A run: its job, what its context resolves to, and how it ends. `wrote` says that its first
stage got to write the row, `succeeded` that every stage did its work, and `closed` that the last
stage closed the row. -/
structure RunRequest (J : Type u) where
  id : J
  startedAt : ℤ
  kind : RunKind
  configHash : String
  stdVersion : String
  survivorshipVersion : String
  lexiconHash : String
  sole : ModelIdentity
  members : List ResolvedMember
  wrote : Bool
  succeeded : Bool
  closed : Bool
  deriving DecidableEq

/-- `RunContext::identity`. -/
def RunRequest.identity (run : RunRequest J) : ModelIdentity :=
  if run.members.isEmpty then run.sole else ensembleIdentity run.members

/-- `current_fingerprint`, as `Init::run` calls it: with the version of the sole model. -/
def RunRequest.currentFingerprint (run : RunRequest J) : RunFingerprint :=
  ⟨run.configHash, some run.sole.modelVersion, run.stdVersion, run.survivorshipVersion,
    some run.lexiconHash⟩

/-- `write_run_row`. -/
def RunRequest.row (run : RunRequest J) (mode : RunMode) (identity : ModelIdentity)
    (lexiconHash rebuildReason : Option String) : RunRow J where
  id := run.id
  mode := mode
  status := .running
  startedAt := run.startedAt
  configHash := run.configHash
  modelVersion := some identity.modelVersion
  tfSnapshotId := some identity.tfSnapshotId
  stdVersion := run.stdVersion
  survivorshipVersion := run.survivorshipVersion
  lexiconHash := lexiconHash
  rebuildReason := rebuildReason

variable [LinearOrder J]

/-- The guard's verdict in `Init::run`. -/
def modeDecision (runs : List (RunRow J)) (run : RunRequest J) :
    Except VersionsError ModeDecision :=
  checkModePreconditions (priorFingerprint runs) run.currentFingerprint run.kind.modeAsked true

/-- `stage_init`: the row of a run that scores. -/
def stageInit (run : RunRequest J) (decision : ModeDecision) : RunRow J :=
  run.row decision.mode run.identity (some run.lexiconHash)
    (if decision.escalated then some "operator" else none)

/-- `stage_correct_init`: the row of a correction pass, under the latest row's identity; none
when there is no run to correct. -/
def stageCorrectInit (runs : List (RunRow J)) (run : RunRequest J) : Option (RunRow J) :=
  (latestLive runs).map fun latest =>
    run.row .correctionPass ⟨latest.modelVersion.getD "", latest.tfSnapshotId.getD ""⟩ none
      (some "correction_pass")

/-- The row a run opens. -/
def initRow (runs : List (RunRow J)) (run : RunRequest J) : Option (RunRow J) :=
  if run.kind.scores then (modeDecision runs run).toOption.map (stageInit run)
  else stageCorrectInit runs run

/-- The rows, with the last row that a run closed and the last row of a succeeded run that scored
the corpus. -/
structure RunLedger (J : Type u) where
  runs : List (RunRow J)
  lastClosed : Option (RunRow J)
  lastScored : Option (RunRow J)

/-- Before the first run. -/
def RunLedger.fresh : RunLedger J := ⟨[], none, none⟩

/-- The ledger after a run. -/
def RunLedger.step (ledger : RunLedger J) (run : RunRequest J) : RunLedger J :=
  match if run.wrote then initRow ledger.runs run else none with
  | none => ledger
  | some row =>
      let closed := { row with status := .succeeded }
      { runs := if run.closed then finishRun (ledger.runs ++ [row]) run.id else ledger.runs ++ [row]
        lastClosed := if run.closed then some closed else ledger.lastClosed
        lastScored := if run.succeeded && run.kind.scores then some closed else ledger.lastScored }

/-! ## When the guard is exact -/

/-- The configuration, the identity of the ensemble, a version or the lexicon differs between a
recorded run and one that starts. -/
def Differs (base : RunRow J) (run : RunRequest J) : Prop :=
  base.configHash ≠ run.configHash ∨
    (base.modelVersion, base.tfSnapshotId) ≠
      (some run.identity.modelVersion, some run.identity.tfSnapshotId) ∨
    base.stdVersion ≠ run.stdVersion ∨ base.survivorshipVersion ≠ run.survivorshipVersion ∨
    base.lexiconHash ≠ some run.lexiconHash

instance (base : RunRow J) (run : RunRequest J) : Decidable (Differs base run) :=
  inferInstanceAs (Decidable (_ ∨ _))

/-- An incremental run is promoted to a full one if and only if something differs from the last
succeeded run that scored the corpus. -/
def GuardExact (ledger : RunLedger J) (run : RunRequest J) : Prop :=
  run.kind = .runAllIncremental →
    ∃ decision, modeDecision ledger.runs run = .ok decision ∧
      (decision.mode = .full ↔ ∃ base ∈ ledger.lastScored, Differs base run)

/-- The guard compares what it should: the last row to be closed is that of the last succeeded
run that scored the corpus, and where there is one, the sole model's version is the version the row
will record and the snapshot does not move alone. -/
def Comparable (ledger : RunLedger J) (run : RunRequest J) : Prop :=
  run.kind = .runAllIncremental →
    ledger.lastClosed = ledger.lastScored ∧
    ∀ base ∈ ledger.lastScored, run.sole.modelVersion = run.identity.modelVersion ∧
      (base.fingerprint = run.currentFingerprint →
        base.tfSnapshotId = some run.identity.tfSnapshotId)

instance (ledger : RunLedger J) (run : RunRequest J) : Decidable (Comparable ledger run) :=
  inferInstanceAs (Decidable (_ → _ ∧ ∀ _ ∈ _, _ ∧ (_ → _)))

/-- Runs start one after the other, under ids of their own. -/
def Chronological (history : List (RunRequest J)) : Prop :=
  history.Pairwise fun first second =>
    first.id ≠ second.id ∧ precedes first.startedAt first.id second.startedAt second.id = true

theorem fieldDrift_eq_nil_iff {prior current : RunFingerprint} {fields : List String}
    (hknown : ∀ field ∈ fields, ∃ last now, prior.value field = .ok last ∧
      current.value field = .ok now) :
    ∃ drift, fieldDrift prior current fields = .ok drift ∧
      (drift = [] ↔ ∀ field ∈ fields, prior.value field = current.value field) := by
  induction fields with
  | nil => exact ⟨[], rfl, by simp⟩
  | cons field fields ih =>
      rw [List.forall_mem_cons] at hknown
      obtain ⟨⟨last, now, hlast, hnow⟩, hrest⟩ := hknown
      obtain ⟨drift, hdrift, hagree⟩ := ih hrest
      refine ⟨if last = now then drift else ⟨field, last, now⟩ :: drift, ?_, ?_⟩
      · rw [fieldDrift, hlast, hnow, hdrift]
        rfl
      · rw [List.forall_mem_cons, hlast, hnow, Except.ok.injEq]
        split
        · next hsame => simp only [hagree, hsame, true_and]
        · next hmoved => simp [hmoved]

theorem value_known (fingerprint : RunFingerprint) :
    ∀ field ∈ fingerprintFields, ∃ value, fingerprint.value field = .ok value := by
  simp [fingerprintFields, RunFingerprint.value]

/-- Nothing drifts exactly when the fingerprints are the same. -/
theorem fieldDrift_fingerprintFields (prior current : RunFingerprint) :
    ∃ drift, fieldDrift prior current fingerprintFields = .ok drift ∧
      (drift = [] ↔ prior = current) := by
  have hknown : ∀ field ∈ fingerprintFields, ∃ last now, prior.value field = .ok last ∧
      current.value field = .ok now := by
    intro field hfield
    obtain ⟨last, hlast⟩ := value_known prior field hfield
    obtain ⟨now, hnow⟩ := value_known current field hfield
    exact ⟨last, now, hlast, hnow⟩
  obtain ⟨drift, hdrift, hagree⟩ := fieldDrift_eq_nil_iff hknown
  refine ⟨drift, hdrift, hagree.trans ?_⟩
  cases prior
  cases current
  simp [fingerprintFields, RunFingerprint.value]

/-- An incremental run is promoted exactly when there is a succeeded row and it differs in a
compared column. -/
theorem checkModePreconditions_incremental (prior : Option RunFingerprint)
    (current : RunFingerprint) :
    ∃ decision, checkModePreconditions prior current .incremental true = .ok decision ∧
      (decision.escalated = true ↔ ∃ last, prior = some last ∧ last ≠ current) ∧
      decision.mode = if decision.escalated then .full else .incremental := by
  cases prior with
  | none => exact ⟨_, rfl, by simp [ModeDecision.proceeds, ModeDecision.escalated], rfl⟩
  | some last =>
      obtain ⟨drift, hdrift, hagree⟩ := fieldDrift_fingerprintFields last current
      rw [checkModePreconditions]
      simp only [hdrift]
      refine ⟨_, rfl, ?_, ?_⟩
      · cases drift with
        | nil => simp [ModeDecision.proceeds, ModeDecision.escalated, hagree.mp rfl]
        | cons head tail =>
            have hmoved : last ≠ current := fun hsame => by cases hagree.mpr hsame
            simp [ModeDecision.escalated, hmoved]
      · cases drift <;> rfl

section Table

variable {runs : List (RunRow J)} {row : RunRow J} {run : RunRequest J}

theorem mem_of_latestOf (hlatest : latestOf runs = some row) : row ∈ runs := by
  induction runs using List.reverseRecOn with
  | nil => cases hlatest
  | append_singleton runs last ih =>
      rw [latestOf, List.foldl_concat] at hlatest
      rw [List.mem_append, List.mem_singleton]
      split at hlatest
      · exact .inr (Option.some.inj hlatest).symm
      · exact .inl (ih hlatest)

/-- A row that comes after all others is the latest. -/
theorem latestOf_concat (hlater : ∀ other ∈ runs,
    precedes other.startedAt other.id row.startedAt row.id = true) :
    latestOf (runs ++ [row]) = some row := by
  rw [latestOf, List.foldl_concat, if_pos]
  rw [Option.all_eq_true]
  intro best hbest
  exact hlater best (mem_of_latestOf hbest)

/-- The row a run opens is its own, and is not closed. -/
theorem initRow_spec (hrow : initRow runs run = some row) :
    row.id = run.id ∧ row.startedAt = run.startedAt ∧ row.status = .running := by
  rw [initRow] at hrow
  split at hrow
  · obtain ⟨decision, _, rfl⟩ := Option.map_eq_some_iff.mp hrow
    exact ⟨rfl, rfl, rfl⟩
  · obtain ⟨latest, _, rfl⟩ := Option.map_eq_some_iff.mp hrow
    exact ⟨rfl, rfl, rfl⟩

omit [LinearOrder J] in
/-- Closing the last row leaves rows of other runs alone. -/
theorem finishRun_concat [DecidableEq J] (hothers : ∀ other ∈ runs, other.id ≠ row.id) :
    finishRun (runs ++ [row]) row.id = runs ++ [{ row with status := .succeeded }] := by
  rw [finishRun, List.map_append, List.map_singleton, if_pos rfl]
  congr 1
  conv_rhs => rw [← List.map_id runs]
  apply List.map_congr_left
  intro other hother
  exact if_neg (hothers other hother)

end Table

/-- The rows all come before a run that starts. -/
def RunLedger.Before (ledger : RunLedger J) (run : RunRequest J) : Prop :=
  ∀ row ∈ ledger.runs,
    row.id ≠ run.id ∧ precedes row.startedAt row.id run.startedAt run.id = true

/-- The guard reads the last row to be closed. -/
def RunLedger.Tracked (ledger : RunLedger J) : Prop :=
  latestSucceeded ledger.runs = ledger.lastClosed

section Steps

variable {ledger : RunLedger J} {run : RunRequest J}

/-- The row that a run writes is the one it opens. -/
theorem initRow_of_wrote {runs : List (RunRow J)} {row : RunRow J}
    (hwrote : (if run.wrote then initRow runs run else none) = some row) :
    initRow runs run = some row := by
  split at hwrote
  · exact hwrote
  · cases hwrote

theorem RunLedger.Tracked.step (htracked : ledger.Tracked) (hbefore : ledger.Before run) :
    (ledger.step run).Tracked := by
  rw [RunLedger.step]
  split
  · exact htracked
  · next row hwrote =>
      have hrow := initRow_of_wrote hwrote
      obtain ⟨hid, hstarted, hstatus⟩ := initRow_spec hrow
      rw [RunLedger.Tracked]
      cases run.closed with
      | false =>
          simp only [Bool.false_eq_true, if_false]
          have hclosed : latestSucceeded ledger.runs = ledger.lastClosed := htracked
          rw [latestSucceeded, List.filter_append]
          simpa [hstatus, latestSucceeded] using hclosed
      | true =>
          simp only [if_true]
          rw [← hid, finishRun_concat fun other hother => hid ▸ (hbefore other hother).1,
            latestSucceeded, List.filter_append]
          simp only [List.filter_cons, decide_true, if_true, List.filter_nil]
          apply latestOf_concat
          intro other hother
          have hmem := (List.mem_filter.mp hother).1
          change precedes other.startedAt other.id row.startedAt row.id = true
          rw [hid, hstarted]
          exact (hbefore other hmem).2

/-- A run adds its own row at most. -/
theorem RunLedger.Before.step {next : RunRequest J} (hbefore : ledger.Before next)
    (horder : run.id ≠ next.id ∧ precedes run.startedAt run.id next.startedAt next.id = true) :
    (ledger.step run).Before next := by
  rw [RunLedger.step]
  split
  · exact hbefore
  · next row hwrote =>
      have hrow := initRow_of_wrote hwrote
      obtain ⟨hid, hstarted, _⟩ := initRow_spec hrow
      have happended : ∀ other ∈ ledger.runs ++ [row],
          other.id ≠ next.id ∧ precedes other.startedAt other.id next.startedAt next.id = true := by
        intro other hother
        cases List.mem_append.mp hother with
        | inl hold => exact hbefore other hold
        | inr hnew =>
            rw [List.mem_singleton.mp hnew, hid, hstarted]
            exact horder
      intro other hother
      dsimp only at hother
      split at hother
      · obtain ⟨old, hold, rfl⟩ := List.mem_map.mp hother
        have hsame := happended old hold
        split
        · exact hsame
        · exact hsame
      · exact happended other hother

/-- When the guard compares what it should, it is exact. -/
theorem guardExact_of_comparable (htracked : ledger.Tracked) (hcomparable : Comparable ledger run) :
    GuardExact ledger run := by
  intro hkind
  obtain ⟨hclosed, hbases⟩ := hcomparable hkind
  obtain ⟨decision, hdecision, hescalated, hmode⟩ :=
    checkModePreconditions_incremental (priorFingerprint ledger.runs) run.currentFingerprint
  refine ⟨decision, ?_, ?_⟩
  · rw [modeDecision, hkind]
    exact hdecision
  · have hfull : decision.mode = .full ↔ decision.escalated = true := by
      rw [hmode]
      cases decision.escalated <;> simp
    rw [hfull, hescalated, priorFingerprint, htracked, hclosed]
    simp only [Option.map_eq_some_iff, exists_exists_and_eq_and]
    apply exists_congr
    intro base
    apply and_congr_right
    intro hbase
    obtain ⟨hversion, hsnapshot⟩ := hbases base hbase
    have hdiffers : ¬ Differs base run ↔ base.fingerprint = run.currentFingerprint ∧
        base.tfSnapshotId = some run.identity.tfSnapshotId := by
      simp only [Differs, not_or, ne_eq, not_not, RunRow.fingerprint,
        RunRequest.currentFingerprint, RunFingerprint.mk.injEq, Prod.mk.injEq, hversion]
      tauto
    rw [← not_iff_not, hdiffers, ne_eq, not_not]
    constructor
    · intro hsame
      exact ⟨hsame, hsnapshot hsame⟩
    · exact fun hboth => hboth.1

theorem not_guardExact_of_promoted (hkind : run.kind = .runAllIncremental)
    (hfull : (modeDecision ledger.runs run).toOption.map ModeDecision.mode = some .full)
    (hsame : ¬ ∃ base ∈ ledger.lastScored, Differs base run) : ¬ GuardExact ledger run := by
  intro hexact
  obtain ⟨decision, hdecision, hiff⟩ := hexact hkind
  rw [hdecision] at hfull
  exact hsame (hiff.mp (Option.some.inj hfull))

/-- The run lemma: from a ledger that the guard reads right and that all runs come after. -/
theorem guardExact_along {history : List (RunRequest J)} (hchronological : Chronological history)
    (htracked : ledger.Tracked) (hbefore : ∀ run ∈ history, ledger.Before run)
    (hcomparable : Along RunLedger.step Comparable ledger history) :
    Along RunLedger.step GuardExact ledger history := by
  induction history generalizing ledger with
  | nil => trivial
  | cons run history ih =>
      rw [Chronological, List.pairwise_cons] at hchronological
      rw [List.forall_mem_cons] at hbefore
      refine ⟨guardExact_of_comparable htracked hcomparable.1, ?_⟩
      apply ih hchronological.2 (htracked.step hbefore.1) _ hcomparable.2
      intro next hnext
      exact (hbefore.2 next hnext).step (hchronological.1 next hnext)

end Steps

/-- Over every history of full and incremental runs and correction passes, failed or not and of
one model or of an ensemble, an incremental run is promoted exactly when something differs from
the last succeeded run that scored, as long as the guard compares what it should. -/
theorem promoted_iff_differs {history : List (RunRequest J)}
    (hchronological : Chronological history)
    (hcomparable : Along RunLedger.step Comparable RunLedger.fresh history) :
    Along RunLedger.step GuardExact RunLedger.fresh history := by
  have htracked : (RunLedger.fresh : RunLedger J).Tracked := rfl
  apply guardExact_along hchronological htracked _ hcomparable
  intro run _ row hrow
  cases hrow

/-- A run that ends well, under one configuration. -/
def sampleRun (id : ℕ) (kind : RunKind) (members : List ResolvedMember) : RunRequest ℕ where
  id := id
  startedAt := id
  kind := kind
  configHash := "c1"
  stdVersion := "s1"
  survivorshipVersion := "v1"
  lexiconHash := "l1"
  sole := ⟨"v0001", "tf"⟩
  members := members
  wrote := true
  succeeded := true
  closed := true

/-- One model, a failed run that never closed its row, and a new lexicon at the end. -/
def sampleHistory : List (RunRequest ℕ) :=
  [sampleRun 1 .runAllFull [], sampleRun 2 .runAllIncremental [],
    { sampleRun 3 .runAllIncremental [] with succeeded := false, closed := false },
    { sampleRun 4 .runAllIncremental [] with lexiconHash := "l2" }]

theorem promoted_iff_differs_sample :
    (Chronological sampleHistory ∧
      Along RunLedger.step Comparable RunLedger.fresh sampleHistory) ∧
      Along RunLedger.step GuardExact RunLedger.fresh sampleHistory := by
  have hchronological : Chronological sampleHistory := by
    unfold Chronological sampleHistory
    decide
  have hcomparable : Along RunLedger.step Comparable RunLedger.fresh sampleHistory := by
    unfold sampleHistory Along Along Along Along Along
    decide
  exact ⟨⟨hchronological, hcomparable⟩, promoted_iff_differs hchronological hcomparable⟩

/-- With two members, and after a correction pass, a run is promoted although nothing changed. -/
theorem unchanged_runs_promoted :
    ¬ Along RunLedger.step GuardExact RunLedger.fresh
        [sampleRun 1 .runAllFull [⟨"a", ⟨"v1", "t1"⟩⟩, ⟨"b", ⟨"v1", "t1"⟩⟩],
          sampleRun 2 .runAllIncremental [⟨"a", ⟨"v1", "t1"⟩⟩, ⟨"b", ⟨"v1", "t1"⟩⟩]] ∧
      ¬ Along RunLedger.step GuardExact RunLedger.fresh
        [sampleRun 1 .runAllFull [], sampleRun 2 .correct [],
          sampleRun 3 .runAllIncremental []] := by
  constructor
  · intro hrun
    exact not_guardExact_of_promoted rfl (by decide) (by decide) hrun.2.1
  · intro hrun
    exact not_guardExact_of_promoted rfl (by decide) (by decide) hrun.2.2.1

end EntityResolution.Run
