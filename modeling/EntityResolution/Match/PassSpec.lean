/-
# How far a pass got

A pass of one model goes through the same stations whether it is full or partial: it
invalidates, merges its scores, claims the scored records in the ledger and prunes the
ledger. Retirement changes nothing for a live model. This module gives the view of the
model after every prefix of a pass, by the last station the prefix reached; the completed
pass is the prefix that reached the last one. What a completed pass does to other models
comes last: it prunes their part of the ledger too, and removes them if they are not live.
-/

import EntityResolution.Foundations.Runs
import EntityResolution.Match.Scoring

namespace EntityResolution.Match

open EntityResolution.Collections EntityResolution.Tables EntityResolution.PairView
open EntityResolution.Runs

universe u v w x y z

variable {K : Type u} {H : Type v} {Row : Type w} {S : Type x} {E : Type y} {I : Type z}
variable [LinearOrder K] [LinearOrder I]

/-- The last of its writes for its own model that a pass has committed. -/
inductive Progress
  | untouched
  | invalidated
  | rescored
  | claimed
  | pruned
  deriving DecidableEq

/-- The station a statement brings a pass to. -/
def Progress.after (progress : Progress) : Statement K H Row S E I → Progress
  | .retireOtherModels _ _ => progress
  | .absentFromLiveModels _ => progress
  | .invalidateStale _ _ _ => .invalidated
  | .upsertFromScored _ _ => .rescored
  | .upsertFromStd _ _ _ => .claimed
  | .absentFromStd _ => .pruned

/-- The station a pass reached with the statements it committed. -/
def progressOf (committed : List (Statement K H Row S E I)) : Progress :=
  committed.foldl Progress.after .untouched

/-- The view of the model at each station, given what the pass invalidates, the scores it
leaves and the contents it claims. -/
def viewAt (view : ModelView K H S) (scope : StaleScope K)
    (scores : K → K → Option (Verdict H S)) (contents : K → Option H) : Progress → ModelView K H S
  | .untouched => view
  | .invalidated => view.invalidate scope
  | .rescored => ⟨scores, view.scored⟩
  | .claimed => ⟨scores, fun key => (contents key).or (view.scored key)⟩
  | .pruned => ⟨scores, contents⟩

/-- Each statement of a pass carries the model's view from one station to the next. -/
def Carries (identity : I) (stationView : Progress → ModelView K H S) :
    Progress → List (Statement K H Row S E I) → Prop :=
  Along Progress.after fun progress statement =>
    statement.onView identity (stationView progress) = stationView (progress.after statement)

/-- The views carried from station to station describe every prefix of a pass. -/
theorem Carries.view_cut {identity : I} {stationView : Progress → ModelView K H S}
    {statements : List (Statement K H Row S E I)} {progress : Progress}
    (hcarries : Carries identity stationView progress statements) (n : ℕ) :
    (statements.take n).foldl (Statement.onView identity) (stationView progress) =
      stationView ((statements.take n).foldl Progress.after progress) := by
  induction statements generalizing progress n with
  | nil => rw [List.take_nil, List.foldl_nil, List.foldl_nil]
  | cons statement statements ih =>
      cases n with
      | zero => rfl
      | succ n =>
          rw [List.take_succ_cons, List.foldl_cons, List.foldl_cons, hcarries.1]
          exact ih hcarries.2 n

omit [LinearOrder I] in
/-- Claiming records that the ledger may lack and pruning the rest leaves the corpus. -/
theorem prune_claimed {std scored : Corpus K H Row} {ledger : K → Option H}
    (hclaimed : ∀ key, (contentHash scored key).or (ledger key) =
      (contentHash std key).or (ledger key)) (key : K) :
    (if key ∈ std then (contentHash scored key).or (ledger key) else none) =
      contentHash std key := by
  by_cases hkey : key ∈ std
  · rw [if_pos hkey, hclaimed, Option.or_of_isSome (contentHash_isSome.mpr hkey)]
  · rw [if_neg hkey, contentHash_eq_none.mpr hkey]

omit [LinearOrder K] [LinearOrder I] in
theorem length_memberThresholds (config : Config S) (members : List (EnsembleMember Row S E I)) :
    (memberThresholds config members).length = members.length := by
  rw [memberThresholds]
  split
  · rwa [List.length_map]
  · rw [List.length_replicate]

variable [LinearOrder S]

section Full

variable {member : EnsembleMember Row S E I} {live : List I} (reviewLow : S) (stamp : RunStamp)
  (std : Corpus K H Row)

/-- Every prefix of a full pass, on the view of its model. -/
theorem view_cut_full (hlive : member.identity ∈ live) (cascadeAfter : Option (List (I × S)))
    (lake : Lake K H S E I) (view : ModelView K H S) (n : ℕ) :
    ((retireStatements live stamp ++
        scoreMemberFull member reviewLow stamp std cascadeAfter lake).take n).foldl
        (Statement.onView member.identity) view =
      viewAt view .everyActive
        (stagedVerdict member.identity reviewLow std [predictMember member std lake cascadeAfter])
        (contentHash std)
        (progressOf ((retireStatements live stamp ++
          scoreMemberFull member reviewLow stamp std cascadeAfter lake).take n)) := by
  have hcarries : Carries member.identity (viewAt view .everyActive
      (stagedVerdict member.identity reviewLow std [predictMember member std lake cascadeAfter])
      (contentHash std)) .untouched (retireStatements live stamp ++
        scoreMemberFull member reviewLow stamp std cascadeAfter lake) := by
    refine ⟨if_pos hlive, if_pos hlive, if_pos rfl, ?_, if_pos rfl, ?_, trivial⟩
    · ext1
      · funext a b
        exact Option.or_none
      · rfl
    · ext1
      · rfl
      · exact funext fun key => prune_claimed (fun _ => rfl) key
  exact hcarries.view_cut n

theorem view_full_self (member : EnsembleMember Row S E I)
    (cascadeAfter : Option (List (I × S))) (lake : Lake K H S E I) (view : ModelView K H S) :
    (scoreMemberFull member reviewLow stamp std cascadeAfter lake).foldl
        (Statement.onView member.identity) view =
      ⟨stagedVerdict member.identity reviewLow std [predictMember member std lake cascadeAfter],
        contentHash std⟩ := by
  simp only [scoreMemberFull, stageAndUpsertScores, syncScoredLedger, List.cons_append,
    List.nil_append, List.foldl_cons, List.foldl_nil, Statement.onView, if_true,
    ModelView.invalidate]
  ext1
  · funext a b
    exact Option.or_none
  · exact funext fun key => prune_claimed (fun _ => rfl) key

theorem progressOf_full (member : EnsembleMember Row S E I) (live : List I)
    (cascadeAfter : Option (List (I × S))) (lake : Lake K H S E I) :
    progressOf (retireStatements live stamp ++
      scoreMemberFull member reviewLow stamp std cascadeAfter lake) = .pruned :=
  rfl

end Full

section Partial

variable [DecidableEq H] {member : EnsembleMember Row S E I} {live : List I} {reviewLow : S}
  {stamp : RunStamp} {segment : Option (Row → Option Bool)} {std : Corpus K H Row}
  {lake : Lake K H S E I}

/-- The scores a partial pass leaves: what it staged, and what it did not invalidate. -/
def partialScores (member : EnsembleMember Row S E I) (reviewLow : S)
    (segment : Option (Row → Option Bool)) (std : Corpus K H Row) (lake : Lake K H S E I)
    (a b : K) : Option (Verdict H S) :=
  (stagedVerdict member.identity reviewLow std (partialPredictions member segment std lake) a b).or
    (((viewOf lake member.identity).invalidate
      (partialScope member.identity segment std lake)).active a b)

section Scores

variable {a b : K}

/-- A pair that touches a superseded record has the score the pass staged, if any. -/
theorem partialScores_of_superseded
    (hstale : a ∈ supersededKeys member.identity segment std lake ∨
      b ∈ supersededKeys member.identity segment std lake) :
    partialScores member reviewLow segment std lake a b =
      stagedVerdict member.identity reviewLow std (partialPredictions member segment std lake)
        a b := by
  have hinvalid : ((viewOf lake member.identity).invalidate
      (partialScope member.identity segment std lake)).active a b = none := if_pos hstale
  rw [partialScores, hinvalid, Option.or_none]

/-- Any other pair keeps its score. -/
theorem partialScores_of_kept (ha : a ∉ supersededKeys member.identity segment std lake)
    (hb : b ∉ supersededKeys member.identity segment std lake) :
    partialScores member reviewLow segment std lake a b =
      activeVerdict lake member.identity a b := by
  have hvalid : ((viewOf lake member.identity).invalidate
      (partialScope member.identity segment std lake)).active a b =
        activeVerdict lake member.identity a b := if_neg (not_or.mpr ⟨ha, hb⟩)
  rw [partialScores, hvalid, stagedVerdict_of_untouched, Option.none_or]
  · exact fun hdelta => ha (mem_supersededKeys.mpr (.inl hdelta))
  · exact fun hdelta => hb (mem_supersededKeys.mpr (.inl hdelta))

end Scores

omit [LinearOrder S] in
/-- Outside the delta the ledger already has what the corpus holds. -/
theorem claim_delta (identity : I) (segment : Option (Row → Option Bool)) (std : Corpus K H Row)
    (lake : Lake K H S E I) (key : K) :
    (contentHash (deltaStd identity segment std lake) key).or (scoredHash lake identity key) =
      (contentHash std key).or (scoredHash lake identity key) := by
  by_cases hdelta : key ∈ deltaStd identity segment std lake
  · rw [contentHash_deltaStd hdelta]
  · rw [contentHash_eq_none.mpr hdelta, Option.none_or]
    by_cases hkey : key ∈ std
    · rw [scoredHash_of_not_mem_deltaStd hkey hdelta, Option.or_self]
    · rw [contentHash_eq_none.mpr hkey, Option.none_or]

/-- With nothing in the delta a partial pass leaves what it did not invalidate. -/
theorem partialScores_of_empty_delta
    (hempty : ¬ 0 < (deltaStd member.identity segment std lake).size) :
    partialScores member reviewLow segment std lake =
      ((viewOf lake member.identity).invalidate
        (partialScope member.identity segment std lake)).active := by
  have hnone (key : K) : key ∉ deltaStd member.identity segment std lake := by
    intro hkey
    obtain ⟨record, hrecord⟩ := BTreeMap.mem_iff_exists_getElem?.mp hkey
    exact hempty (BTreeMap.size_pos_of_getElem? hrecord)
  funext a b
  rw [partialScores, stagedVerdict_of_untouched (hnone a) (hnone b), Option.none_or]

/-- The statements of a partial pass that has a ledger to reuse. -/
theorem runMatchPartial_of_scored (hscored : scoredRows member.identity lake ≠ 0) :
    runMatchPartial member live reviewLow stamp segment std lake =
      [.invalidateStale member.identity (partialScope member.identity segment std lake) stamp,
        .retireOtherModels live stamp, .absentFromLiveModels live] ++
      (if 0 < (deltaStd member.identity segment std lake).size then
        [.upsertFromScored (stageScores member.identity reviewLow std
          (partialPredictions member segment std lake)) stamp]
      else []) ++
      [.upsertFromStd member.identity (deltaStd member.identity segment std lake) stamp,
        .absentFromStd std] := by
  have htables : stageAndUpsertScores member.identity reviewLow stamp std
      (partialPredictions member segment std lake) =
        [.upsertFromScored (stageScores member.identity reviewLow std
          (partialPredictions member segment std lake)) stamp] := by
    rw [stageAndUpsertScores]
    intro hnone
    simp [partialPredictions] at hnone
  rw [runMatchPartial, if_neg hscored]
  simp only [htables, retireStatements, syncScoredLedger, List.cons_append, List.nil_append]

/-- Every prefix of a partial pass, on the view of its model. -/
theorem view_cut_partialPass (hlive : member.identity ∈ live)
    (hscored : scoredRows member.identity lake ≠ 0) (n : ℕ) :
    ((runMatchPartial member live reviewLow stamp segment std lake).take n).foldl
        (Statement.onView member.identity) (viewOf lake member.identity) =
      viewAt (viewOf lake member.identity) (partialScope member.identity segment std lake)
        (partialScores member reviewLow segment std lake) (contentHash std)
        (progressOf ((runMatchPartial member live reviewLow stamp segment std lake).take n)) := by
  have hclaim := claim_delta member.identity segment std lake
  have hcarries : Carries member.identity (viewAt (viewOf lake member.identity)
      (partialScope member.identity segment std lake)
      (partialScores member reviewLow segment std lake) (contentHash std)) .untouched
        (runMatchPartial member live reviewLow stamp segment std lake) := by
    rw [runMatchPartial_of_scored hscored]
    by_cases hdelta : 0 < (deltaStd member.identity segment std lake).size
    · rw [if_pos hdelta]
      refine ⟨if_pos rfl, if_pos hlive, if_pos hlive, rfl, ?_, ?_, trivial⟩
      · apply (if_pos rfl).trans
        ext1
        · rfl
        · exact funext hclaim
      · ext1
        · rfl
        · exact funext fun key => prune_claimed (fun _ => rfl) key
    · rw [if_neg hdelta, partialScores_of_empty_delta hdelta]
      refine ⟨if_pos rfl, if_pos hlive, if_pos hlive, ?_, ?_, trivial⟩
      · apply (if_pos rfl).trans
        ext1
        · rfl
        · exact funext hclaim
      · ext1
        · rfl
        · exact funext fun key => prune_claimed (fun _ => rfl) key
  exact hcarries.view_cut n

/-- A completed partial pass got to the last station. -/
theorem progressOf_partialPass :
    progressOf (runMatchPartial member live reviewLow stamp segment std lake) = .pruned := by
  by_cases hscored : scoredRows member.identity lake = 0
  · rw [runMatchPartial, if_pos hscored, progressOf_full]
  · rw [runMatchPartial_of_scored hscored]
    split <;> rfl

theorem view_partial_self (hlive : member.identity ∈ live)
    (hscored : scoredRows member.identity lake ≠ 0) :
    (runMatchPartial member live reviewLow stamp segment std lake).foldl
        (Statement.onView member.identity) (viewOf lake member.identity) =
      ⟨partialScores member reviewLow segment std lake, contentHash std⟩ := by
  have hcut : ((runMatchPartial member live reviewLow stamp segment std lake).take _).foldl
      (Statement.onView member.identity) (viewOf lake member.identity) = _ :=
    view_cut_partialPass hlive hscored
      (runMatchPartial member live reviewLow stamp segment std lake).length
  rw [List.take_length, progressOf_partialPass] at hcut
  exact hcut

end Partial

section Others

variable {member : EnsembleMember Row S E I} {identity : I} {live : List I} {reviewLow : S}
  {stamp : RunStamp} {std : Corpus K H Row}

/-- A view whose ledger is cut down to the corpus. -/
def ModelView.restrict (view : ModelView K H S) (std : Corpus K H Row) : ModelView K H S :=
  { view with scored := fun key => if key ∈ std then view.scored key else none }

/-- The view of a model the lake says nothing about. -/
def ModelView.nothing : ModelView K H S := ⟨fun _ _ => none, fun _ => none⟩

omit [LinearOrder S] in
@[simp]
theorem restrict_nothing : (ModelView.nothing : ModelView K H S).restrict std = .nothing := by
  simp [ModelView.restrict, ModelView.nothing]

omit [LinearOrder S] in
theorem view_retire_live (hlive : identity ∈ live) (view : ModelView K H S) :
    (retireStatements live stamp : List (Statement K H Row S E I)).foldl
      (Statement.onView identity) view = view := by
  simp [retireStatements, Statement.onView, hlive]

omit [LinearOrder S] in
theorem view_retire_dead (hdead : identity ∉ live) (view : ModelView K H S) :
    (retireStatements live stamp : List (Statement K H Row S E I)).foldl
      (Statement.onView identity) view = .nothing := by
  simp [retireStatements, Statement.onView, hdead, ModelView.nothing]

theorem view_full_other (hother : identity ≠ member.identity)
    (cascadeAfter : Option (List (I × S))) (lake : Lake K H S E I) (view : ModelView K H S) :
    (scoreMemberFull member reviewLow stamp std cascadeAfter lake).foldl
      (Statement.onView identity) view = view.restrict std := by
  simp [scoreMemberFull, stageAndUpsertScores, syncScoredLedger, Statement.onView, hother,
    getElem?_stageScores_of_ne hother, ModelView.restrict]

variable [DecidableEq H] {segment : Option (Row → Option Bool)}

/-- A partial pass, on the view of another model that is live. -/
theorem view_partial_other (hother : identity ≠ member.identity) (hlive : identity ∈ live)
    (lake : Lake K H S E I) (view : ModelView K H S) :
    (runMatchPartial member live reviewLow stamp segment std lake).foldl
      (Statement.onView identity) view = view.restrict std := by
  by_cases hscored : scoredRows member.identity lake = 0
  · rw [runMatchPartial, if_pos hscored, List.foldl_append, view_retire_live hlive,
      view_full_other hother]
  · rw [runMatchPartial_of_scored hscored]
    split <;> simp [Statement.onView, hother, hlive, getElem?_stageScores_of_ne hother,
      ModelView.restrict]

/-- A partial pass, on the view of a model that is not live. -/
theorem view_partial_dead (hother : identity ≠ member.identity) (hdead : identity ∉ live)
    (lake : Lake K H S E I) (view : ModelView K H S) :
    (runMatchPartial member live reviewLow stamp segment std lake).foldl
      (Statement.onView identity) view = .nothing := by
  by_cases hscored : scoredRows member.identity lake = 0
  · rw [runMatchPartial, if_pos hscored, List.foldl_append, view_retire_dead hdead,
      view_full_other hother, restrict_nothing]
  · rw [runMatchPartial_of_scored hscored]
    split <;> simp [Statement.onView, hother, hdead, getElem?_stageScores_of_ne hother,
      ModelView.nothing]

end Others

end EntityResolution.Match
