/-
# What a promoted run scores

The guard decides the mode in the first stage, and the match stage reads it from the plan. It
reads the job's segment as well, and a segment alone sends it down the incremental path: whatever
the mode is, a pass with a segment reuses the ledger for the records outside it.

So a promoted run scores everything anew when its job names no segment. With one, the active
scores between records that are unchanged and out of the segment stay those of an earlier run.
-/

import EntityResolution.Match.Provenance
import EntityResolution.Run.Guard

namespace EntityResolution.Run

open EntityResolution.Collections EntityResolution.Match

universe u v w x y z

variable {K : Type u} {H : Type v} {Row : Type w} {S : Type x} {E : Type y} {I : Type z}

/-- What the SQL text of a segment says of a row; none stands for NULL. -/
abbrev SegmentPredicate (Row : Type w) : Type w := Row → Option Bool

/-- `resolve_segment`: the segment that the parameters name, in the active config. -/
def resolveSegment (name : Option String) (segments : BTreeMap String (SegmentPredicate Row)) :
    Except String (Option (String × SegmentPredicate Row)) :=
  match name with
  | none => .ok none
  | some name =>
      match segments[name]? with
      | some predicate => .ok (some (name, predicate))
      | none =>
          let known := segments.keys
          .error ("segment '" ++ name ++ "' is not in the active config (known: " ++
            (if known.isEmpty then "none declared" else ", ".intercalate known) ++ ")")

/-- The rows of a run bear its id and its clock. -/
def RunRequest.stamp (run : RunRequest String) : RunStamp := ⟨run.id, run.startedAt⟩

variable [LinearOrder K] [LinearOrder I] [LinearOrder S]

/-- `stage_match`: incremental when the mode says so or a segment is given, and full otherwise. -/
def stageMatch [DecidableEq H] (config : Match.Config S) (members : List (EnsembleMember Row S E I))
    (reviewLow : S) (stamp : RunStamp) (mode : RunMode)
    (segment : Option (String × SegmentPredicate Row)) (std : Corpus K H Row)
    (lake : Lake K H S E I) : List (Statement K H Row S E I) :=
  if mode = .incremental ∨ segment.isSome then
    runMatchEnsembleIncremental members reviewLow stamp (segment.map Prod.snd) std lake
  else runMatchEnsemble config members reviewLow stamp std lake

section Verdicts

variable {runs : List (RunRow String)} {run : RunRequest String} {decision : ModeDecision}

/-- A promoted run asked to be incremental, and is full. -/
theorem mode_of_escalated (hdecision : modeDecision runs run = .ok decision)
    (hpromoted : decision.escalated = true) : decision.mode = .full := by
  rw [modeDecision] at hdecision
  cases hasked : run.kind.modeAsked with
  | full =>
      rw [hasked] at hdecision
      cases hdecision
      cases hpromoted
  | incremental =>
      obtain ⟨verdict, hverdict, _, hmode⟩ := checkModePreconditions_incremental
        (priorFingerprint runs) run.currentFingerprint
      rw [hasked, hverdict] at hdecision
      cases hdecision
      rw [hmode, if_pos hpromoted]
  | correctionPass =>
      rw [hasked] at hdecision
      cases hdecision

theorem resolveSegment_none_iff {name : Option String}
    {segments : BTreeMap String (SegmentPredicate Row)}
    {segment : Option (String × SegmentPredicate Row)}
    (hsegment : resolveSegment name segments = .ok segment) : segment = none ↔ name = none := by
  cases name with
  | none =>
      cases hsegment
      exact iff_of_true rfl rfl
  | some name =>
      rw [resolveSegment] at hsegment
      split at hsegment
      · cases hsegment
        exact iff_of_false nofun nofun
      · cases hsegment

end Verdicts

/-- After the match stage of a promoted run every active score was computed in the run, under its
members, if and only if the job names no segment or the scores that the pass keeps were computed
in the run already. -/
theorem promoted_scores_all_iff [DecidableEq H] {runs : List (RunRow String)}
    {run : RunRequest String} {decision : ModeDecision} {name : Option String}
    {segments : BTreeMap String (SegmentPredicate Row)}
    {segment : Option (String × SegmentPredicate Row)} (config : Match.Config S)
    {ensemble : Ensemble Row S E I} (reviewLow : S) (std : Corpus K H Row) (lake : Lake K H S E I)
    (hdecision : modeDecision runs run = .ok decision) (hpromoted : decision.escalated = true)
    (hsegment : resolveSegment name segments = .ok segment)
    (hsymmetric : ∀ member ∈ ensemble.members, SideSymmetric member) :
    ScoredIn ensemble.members reviewLow run.id std (commit lake
        (stageMatch config ensemble.members reviewLow run.stamp decision.mode segment std lake)) ↔
      name = none ∨ AlreadyComputed ensemble (segment.map Prod.snd) reviewLow run.id std lake := by
  rw [stageMatch, mode_of_escalated hdecision hpromoted, ← resolveSegment_none_iff hsegment]
  cases segment with
  | none =>
      rw [if_neg (by simp)]
      apply iff_of_true _ (.inl rfl)
      exact scoredIn_full run.stamp hsymmetric
  | some scope =>
      rw [if_pos (by simp), Option.map_some]
      have hscored : ScoredIn ensemble.members reviewLow run.stamp.runId std (commit lake
          (runMatchEnsembleIncremental ensemble.members reviewLow run.stamp (some scope.2) std
            lake)) ↔ AlreadyComputed ensemble (some scope.2) reviewLow run.stamp.runId std lake :=
        scoredIn_incremental_iff hsymmetric
      exact hscored.trans ⟨.inr, fun h => h.resolve_left nofun⟩

/-- A run that asks to be incremental under a configuration. -/
def sampleAsked (id configHash : String) (startedAt : ℤ) : RunRequest String where
  id := id
  startedAt := startedAt
  kind := .runAllIncremental
  configHash := configHash
  stdVersion := "s1"
  survivorshipVersion := "v1"
  lexiconHash := "l1"
  sole := ⟨"v0001", "tf"⟩
  members := []
  wrote := true
  succeeded := true
  closed := true

/-- The ledger after a first run. -/
def sampleRuns : List (RunRow String) :=
  (RunLedger.fresh.step (sampleAsked "run-1" "c1" 1)).runs

/-- What the guard says of a second run under another configuration. -/
def sampleDecision : ModeDecision :=
  ⟨.escalate, .full, [⟨"config_hash", some "c1", some "c2"⟩],
    escalationMessage "config_hash last=c1 now=c2"⟩

theorem sampleDecision_made :
    modeDecision sampleRuns (sampleAsked "run-2" "c2" 2) = .ok sampleDecision := by decide

def sampleEnsemble : Ensemble ℕ ℕ Unit ℕ := ⟨[sampleMember 1], by simp, by simp⟩

/-- What the first run scored. -/
def sampleScored : Lake ℕ ℕ ℕ Unit ℕ :=
  commit Lake.fresh (runMatchEnsemble ⟨[], 8⟩ sampleEnsemble.members 1 ⟨"run-1", 1⟩
    (sampleCorpus [(1, 3), (2, 5)]) Lake.fresh)

/-- The segment of the rows above ten. -/
def sampleLate : SegmentPredicate ℕ := fun row => some (decide (10 < row))

def sampleSegments : BTreeMap String (SegmentPredicate ℕ) :=
  Std.ExtTreeMap.ofList [("late", sampleLate)] compare

theorem sampleSegments_late :
    resolveSegment (some "late") sampleSegments = .ok (some ("late", sampleLate)) := by
  have hlate : sampleSegments["late"]? = some sampleLate :=
    (BTreeMap.getElem?_ofList_eq_some_iff (by decide)).mpr List.mem_cons_self
  rw [resolveSegment, hlate]

theorem promoted_scores_all_iff_unsegmented :
    (modeDecision sampleRuns (sampleAsked "run-2" "c2" 2) = .ok sampleDecision ∧
      sampleDecision.escalated = true ∧ resolveSegment none sampleSegments = .ok none ∧
      ∀ member ∈ sampleEnsemble.members, SideSymmetric member) ∧
    ScoredIn sampleEnsemble.members 1 "run-2" (sampleCorpus [(1, 3), (2, 5)]) (commit sampleScored
      (stageMatch ⟨[], 8⟩ sampleEnsemble.members 1 ⟨"run-2", 2⟩ sampleDecision.mode none
        (sampleCorpus [(1, 3), (2, 5)]) sampleScored)) := by
  have hsymmetric : ∀ member ∈ sampleEnsemble.members, SideSymmetric member := by
    intro member hmember
    rw [List.mem_singleton.mp hmember]
    exact sampleMember_symmetric 1
  have hsegment : resolveSegment none sampleSegments = .ok none := rfl
  refine ⟨⟨sampleDecision_made, rfl, hsegment, hsymmetric⟩, ?_⟩
  exact (promoted_scores_all_iff ⟨[], 8⟩ 1 _ sampleScored sampleDecision_made rfl hsegment
    hsymmetric).mpr (.inl rfl)

/-- Under a segment that has neither record, the promoted run leaves the score of the first. -/
theorem segment_keeps_old_scores :
    modeDecision sampleRuns (sampleAsked "run-2" "c2" 2) = .ok sampleDecision ∧
      sampleDecision.escalated = true ∧
      resolveSegment (some "late") sampleSegments = .ok (some ("late", sampleLate)) ∧
      ¬ ScoredIn sampleEnsemble.members 1 "run-2" (sampleCorpus [(1, 3), (2, 5)])
        (commit sampleScored (stageMatch ⟨[], 8⟩ sampleEnsemble.members 1 ⟨"run-2", 2⟩
          sampleDecision.mode (some ("late", sampleLate)) (sampleCorpus [(1, 3), (2, 5)])
          sampleScored)) := by
  refine ⟨sampleDecision_made, rfl, sampleSegments_late, ?_⟩
  intro hscored
  have hold : ((commit sampleScored (stageMatch ⟨[], 8⟩ sampleEnsemble.members 1 ⟨"run-2", 2⟩
      sampleDecision.mode (some ("late", sampleLate))
      (sampleCorpus [(1, 3), (2, 5)]) sampleScored)).matchScores[
        (⟨1, 2, 1⟩ : ScoreKey ℕ ℕ)]?).map (fun row => (row.isActive, row.runId)) =
          some (true, "run-1") := by
    decide +kernel
  obtain ⟨row, hrow, hcells⟩ := Option.map_eq_some_iff.mp hold
  rw [Prod.mk.injEq] at hcells
  obtain ⟨member, _, _, hcomputed, _⟩ := hscored _ row hrow hcells.1
  exact absurd (hcomputed.symm.trans hcells.2) (by decide)

end EntityResolution.Run
