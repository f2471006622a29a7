/-
# The auto-merge edges and the cascade

A reconcile reads the active scores that reach the auto-merge threshold: each member's own
when the members disagree about it, the corpus-wide one otherwise. A member that runs after
others skips the pairs an earlier member matched, so it writes fewer rows.

Where each member's scores are read at its own threshold, no pair is lost: a skipped pair is
carried by the member on whose row it was skipped. But thresholds count as the corpus-wide one
up to a machine epsilon, and are then replaced by it. A pair that was skipped on a score
between the two thresholds is read only when a member that does not skip it carries it.
-/

import EntityResolution.Match.Departures
import EntityResolution.NeverCut.Fixpoint

namespace EntityResolution.Match

open EntityResolution.Collections EntityResolution.Tables
open EntityResolution.NeverCut (PathEdge)

universe u v w x y z

variable {K : Type u} {H : Type v} {Row : Type w} {S : Type x} {E : Type y} {I : Type z}

/-- `ResolvedMember`: which model scored, and the threshold its edges have to clear. -/
structure ResolvedMember (S : Type x) (I : Type z) where
  identity : I
  threshold : S
  deriving DecidableEq

variable [LinearOrder K] [LinearOrder I] [LinearOrder S]

/-- `(t - auto_merge).abs() < f64::EPSILON`, in the arithmetic of the scores. -/
def usesAutoMerge [Sub S] [Neg S] (epsilon autoMerge threshold : S) : Bool :=
  max (threshold - autoMerge) (-(threshold - autoMerge)) < epsilon

/-- `resolve_ensemble`: the members with their thresholds, `none` when every member uses the
corpus-wide one. -/
def resolveEnsemble [Sub S] [Neg S] (epsilon : S) (config : Config S)
    (members : List (EnsembleMember Row S E I)) : Option (List (ResolvedMember S I)) :=
  let thresholds := memberThresholds config members
  if thresholds.all (usesAutoMerge epsilon config.autoMerge) then none
  else some ((members.zip thresholds).map fun entry => ⟨entry.1.identity, entry.2⟩)

/-- `run_member_thresholds`: an empty list on the run row reads as none. -/
def runMemberThresholds (resolved : Option (List (ResolvedMember S I))) :
    Option (List (ResolvedMember S I)) :=
  resolved.filter fun members => !members.isEmpty

/-- The active scores at or above a threshold, ordered by their pairs. -/
def activeRows (lake : Lake K H S E I) (threshold : S) : List (ScoreKey K I × MatchScore H S E) :=
  lake.matchScores.toList.filter fun entry =>
    entry.2.isActive && threshold ≤ entry.2.matchProbability

/-- An active score as an edge. -/
def edgeOf (entry : ScoreKey K I × MatchScore H S E) : PathEdge K S :=
  ⟨entry.1.recAKey, entry.1.recBKey, entry.2.matchProbability⟩

/-- `auto_merge_edges_live`: the rows of every model, at the corpus-wide threshold. -/
def autoMergeEdgesLive (lake : Lake K H S E I) (autoMerge : S) : List (PathEdge K S) :=
  (activeRows lake autoMerge).map edgeOf

/-- `auto_merge_edges_per_model`: narrowed by the loosest threshold, then by the threshold of
the member that the row belongs to. -/
def autoMergeEdgesPerModel (lake : Lake K H S E I) (members : List (ResolvedMember S I)) :
    List (PathEdge K S) :=
  match (members.map ResolvedMember.threshold).min? with
  | none => []
  | some loosest =>
      ((activeRows lake loosest).filter fun entry =>
        members.any fun member =>
          member.identity = entry.1.identity && member.threshold ≤ entry.2.matchProbability).map
        edgeOf

/-- The edges `run_reconcile` reads. -/
def autoMergeEdges (lake : Lake K H S E I) (resolved : Option (List (ResolvedMember S I)))
    (autoMerge : S) : List (PathEdge K S) :=
  match runMemberThresholds resolved with
  | some members => autoMergeEdgesPerModel lake members
  | none => autoMergeEdgesLive lake autoMerge

/-- The pairs among the edges that a run of the ensemble reads. -/
def autoMergePairs [Sub S] [Neg S] (epsilon : S) (config : Config S)
    (ensemble : Ensemble Row S E I) (lake : Lake K H S E I) : Finset (K × K) :=
  ((autoMergeEdges lake (resolveEnsemble epsilon config ensemble.members) config.autoMerge).map
    fun edge => (edge.left, edge.right)).toFinset

/-- The configuration with every member run on all its candidate pairs. -/
def Config.allAndRun (config : Config S) : Config S :=
  { config with models := config.models.map fun spec => { spec with mode := .andRun } }

/-- Whether the member at an index runs after the ones before it. -/
def Config.cascades (config : Config S) (index : ℕ) : Bool :=
  match config.models[index]?.map ModelSpec.mode with
  | some .thenRun => true
  | _ => false

section Carrying

variable {member : EnsembleMember Row S E I} {reviewLow threshold : S} {stamp : RunStamp}
  {std : Corpus K H Row} {lake : Lake K H S E I} {a b : K} {earlier : List (I × S)}

/-- The model has an active score of the pair at or above the threshold. -/
def Matched (lake : Lake K H S E I) (a b : K) (member : I × S) : Prop :=
  ∃ verdict, activeVerdict lake member.1 a b = some verdict ∧ member.2 ≤ verdict.matchProbability

/-- The model would match the pair: a candidate of the corpus whose score is high enough. -/
def Matches (member : EnsembleMember Row S E I) (threshold : S) (std : Corpus K H Row) (a b : K) :
    Prop :=
  ∃ ra rb, std[a]? = some ra ∧ std[b]? = some rb ∧ a < b ∧
    member.candidate ra.row rb.row = true ∧ threshold ≤ member.score ra.row rb.row

theorem matched_iff {matcher : I × S} :
    Matched lake a b matcher ↔
      ∃ row, lake.matchScores[(⟨a, b, matcher.1⟩ : ScoreKey K I)]? = some row ∧
        row.isActive = true ∧ matcher.2 ≤ row.matchProbability := by
  apply Iff.intro
  · intro h
    obtain ⟨verdict, hactive, hhigh⟩ := h
    obtain ⟨row, hrow, hisActive, rfl⟩ := activeVerdict_eq_some_iff.mp hactive
    exact ⟨row, hrow, hisActive, hhigh⟩
  · intro h
    obtain ⟨row, hrow, hisActive, hhigh⟩ := h
    exact ⟨row.verdict, activeVerdict_eq_some_iff.mpr ⟨row, hrow, hisActive, rfl⟩, hhigh⟩

theorem matchedEarlier_iff :
    matchedEarlier lake earlier a b = true ↔ ∃ matcher ∈ earlier, Matched lake a b matcher := by
  rw [matchedEarlier, List.any_eq_true]
  apply exists_congr
  intro matcher
  apply and_congr_right
  intro _
  rw [matched_iff]
  split
  · rename_i row hrow
    simp [hrow]
  · rename_i hrow
    simp [hrow]

theorem mem_predictMember {cascadeAfter : Option (List (I × S))} {prediction : Prediction K S E} :
    prediction ∈ predictMember member std lake cascadeAfter ↔
      ∃ la l ra r, std[la]? = some l ∧ std[ra]? = some r ∧ la < ra ∧
        member.candidate l.row r.row = true ∧
        (cascadeAfter.any fun matchers => matchedEarlier lake matchers la ra) = false ∧
        predictPair member ((la, l), (ra, r)) = prediction := by
  have hscored : predictMember member std lake cascadeAfter =
      ((blockedPairs member std).filter fun pair => !(cascadeAfter.any fun matchers =>
        matchedEarlier lake matchers pair.1.1 pair.2.1)).map (predictPair member) := by
    rcases cascadeAfter with _ | _ | ⟨matcher, matchers⟩
    · simp [predictMember]
    · simp [predictMember, matchedEarlier]
    · rfl
  simp only [hscored, blockedPairs, List.mem_map, List.mem_filter, List.mem_product,
    Bool.and_eq_true, decide_eq_true_iff, Prod.exists, BTreeMap.mem_toList, and_assoc,
    Bool.not_eq_true']

/-- A staged score is the member's score of a candidate pair that it does not skip. -/
theorem stagedVerdict_predictMember {cascadeAfter : Option (List (I × S))} {verdict : Verdict H S}
    (hstaged : stagedVerdict member.identity reviewLow std
      [predictMember member std lake cascadeAfter] a b = some verdict) :
    Matches member (max reviewLow verdict.matchProbability) std a b ∧
      (cascadeAfter.any fun matchers => matchedEarlier lake matchers a b) = false ∧
      ∀ ra rb, std[a]? = some ra → std[b]? = some rb →
        verdict.matchProbability = member.score ra.row rb.row := by
  obtain ⟨staged, hrow, rfl⟩ := Option.map_eq_some_iff.mp hstaged
  obtain ⟨prediction, hmem, _, _, _, hlow, hkey, _, _, hverdict⟩ := getElem?_stageScores hrow
  rw [List.flatten_singleton] at hmem
  obtain ⟨la, l, ra, r, hl, hr, hlt, hcandidate, hopen, rfl⟩ := mem_predictMember.mp hmem
  have hfirst : min la ra = a := congrArg ScoreKey.recAKey hkey
  have hsecond : max la ra = b := congrArg ScoreKey.recBKey hkey
  rw [min_eq_left hlt.le] at hfirst
  rw [max_eq_right hlt.le] at hsecond
  subst hfirst hsecond
  have hscore : staged.verdict.matchProbability = member.score l.row r.row :=
    congrArg Verdict.matchProbability hverdict
  refine ⟨⟨l, r, hl, hr, hlt, hcandidate, max_le hlow hscore.le⟩, hopen, ?_⟩
  intro l' r' hl' hr'
  cases hl.symm.trans hl'
  cases hr.symm.trans hr'
  exact hscore

theorem exists_stagedVerdict (hlow : reviewLow ≤ threshold)
    (hmatches : Matches member threshold std a b) {cascadeAfter : Option (List (I × S))}
    (hopen : (cascadeAfter.any fun matchers => matchedEarlier lake matchers a b) = false) :
    ∃ verdict, stagedVerdict member.identity reviewLow std
      [predictMember member std lake cascadeAfter] a b = some verdict := by
  obtain ⟨ra, rb, hra, hrb, hlt, hcandidate, hhigh⟩ := hmatches
  have hraw : predictPair member ((a, ra), (b, rb)) ∈
      rawScores reviewLow [predictMember member std lake cascadeAfter] := by
    rw [mem_rawScores, List.flatten_singleton]
    exact ⟨mem_predictMember.mpr ⟨a, ra, b, rb, hra, hrb, hlt, hcandidate, hopen, rfl⟩, hlt.ne,
      hlow.trans hhigh⟩
  have hkept : ∃ kept, (distinctOn (Prediction.scoreKey member.identity)
      Prediction.matchProbability (rawScores reviewLow
        [predictMember member std lake cascadeAfter]))[Prediction.scoreKey member.identity
          (predictPair member ((a, ra), (b, rb)))]? = some kept := distinctOn_complete hraw
  have hkey : Prediction.scoreKey member.identity (predictPair member ((a, ra), (b, rb))) =
      ⟨a, b, member.identity⟩ := by
    rw [Prediction.scoreKey, predictPair, min_eq_left hlt.le, max_eq_right hlt.le]
  rw [hkey] at hkept
  obtain ⟨prediction, hprediction⟩ := hkept
  rw [stagedVerdict, stageScores]
  simp only [BTreeMap.getElem?_filterMap_eq, hprediction, Option.bind_some, hra, hrb,
    Option.map_some, Option.some.injEq, exists_eq']

/-- The active scores of a member's own model after its full pass. -/
theorem activeVerdict_scoreMemberFull {cascadeAfter : Option (List (I × S))}
    {lake lake' : Lake K H S E I} :
    activeVerdict (commit lake (scoreMemberFull member reviewLow stamp std cascadeAfter lake'))
        member.identity a b =
      stagedVerdict member.identity reviewLow std
        [predictMember member std lake' cascadeAfter] a b := by
  have hview := congrArg ModelView.active (viewOf_commit lake
    (scoreMemberFull member reviewLow stamp std cascadeAfter lake') member.identity)
  rw [view_full_self] at hview
  exact congrFun (congrFun hview a) b

theorem activeVerdict_scoreMemberFull_other {identity : I} (hother : identity ≠ member.identity)
    {cascadeAfter : Option (List (I × S))} {lake lake' : Lake K H S E I} :
    activeVerdict (commit lake (scoreMemberFull member reviewLow stamp std cascadeAfter lake'))
      identity a b = activeVerdict lake identity a b := by
  have hview := congrArg ModelView.active (viewOf_commit lake
    (scoreMemberFull member reviewLow stamp std cascadeAfter lake') identity)
  rw [view_full_other hother] at hview
  exact congrFun (congrFun hview a) b

/-- After a member's full pass its model has the pair at a threshold exactly when the member
matches it and does not skip it. -/
theorem matched_scoreMemberFull_self {cascadeAfter : Option (List (I × S))} :
    Matched (commit lake (scoreMemberFull member reviewLow stamp std cascadeAfter lake)) a b
        (member.identity, threshold) ↔
      Matches member (max reviewLow threshold) std a b ∧
        (cascadeAfter.any fun matchers => matchedEarlier lake matchers a b) = false := by
  rw [Matched, activeVerdict_scoreMemberFull]
  apply Iff.intro
  · intro h
    obtain ⟨verdict, hactive, hhigh⟩ := h
    obtain ⟨⟨ra, rb, hra, hrb, hlt, hcandidate, hmax⟩, hopen, _⟩ :=
      stagedVerdict_predictMember hactive
    exact ⟨⟨ra, rb, hra, hrb, hlt, hcandidate, (max_le_max_left reviewLow hhigh).trans hmax⟩,
      hopen⟩
  · intro h
    obtain ⟨hmatches, hopen⟩ := h
    obtain ⟨verdict, hstaged⟩ := exists_stagedVerdict (le_max_left _ _) hmatches hopen
    obtain ⟨ra, rb, hra, hrb, _, _, hmax⟩ := hmatches
    refine ⟨verdict, hstaged, (le_max_right _ _).trans (hmax.trans ?_)⟩
    exact ((stagedVerdict_predictMember hstaged).2.2 ra rb hra hrb).ge

/-- The step lemma: after a member's full pass a pair is carried when it was carried before
or the member matches it, whatever the member skipped. -/
theorem matched_scoreMemberFull (hlow : reviewLow ≤ threshold)
    (hfresh : member.identity ∉ earlier.map Prod.fst) {cascadeAfter : Option (List (I × S))}
    (hcascade : ∀ matchers, cascadeAfter = some matchers → matchers = earlier) :
    (∃ matcher ∈ earlier ++ [(member.identity, threshold)], Matched
        (commit lake (scoreMemberFull member reviewLow stamp std cascadeAfter lake)) a b matcher) ↔
      (∃ matcher ∈ earlier, Matched lake a b matcher) ∨ Matches member threshold std a b := by
  have hothers (matcher : I × S) (hmatcher : matcher ∈ earlier) :
      Matched (commit lake (scoreMemberFull member reviewLow stamp std cascadeAfter lake)) a b
        matcher ↔ Matched lake a b matcher := by
    rw [Matched, Matched, activeVerdict_scoreMemberFull_other
      (ne_of_mem_of_not_mem (List.mem_map_of_mem hmatcher) hfresh)]
  apply Iff.intro
  · intro h
    obtain ⟨matcher, hmatcher, hmatched⟩ := h
    rcases List.mem_append.mp hmatcher with hearlier | hlast
    · exact .inl ⟨matcher, hearlier, (hothers matcher hearlier).mp hmatched⟩
    · rw [List.mem_singleton.mp hlast, matched_scoreMemberFull_self, max_eq_right hlow] at hmatched
      exact .inr hmatched.1
  · intro h
    by_cases hcarried : ∃ matcher ∈ earlier, Matched lake a b matcher
    · obtain ⟨matcher, hmatcher, hmatched⟩ := hcarried
      exact ⟨matcher, List.mem_append_left _ hmatcher, (hothers matcher hmatcher).mpr hmatched⟩
    · -- No earlier member matched the pair, so the member does not skip it.
      refine ⟨_, List.mem_append_right _ List.mem_cons_self, matched_scoreMemberFull_self.mpr ?_⟩
      rw [max_eq_right hlow]
      refine ⟨h.resolve_left hcarried, ?_⟩
      rw [Option.any_eq_false]
      intro matchers hmatchers
      rw [hcascade matchers hmatchers, ← Bool.not_eq_true, matchedEarlier_iff]
      exact hcarried

omit [LinearOrder I] [LinearOrder S] in
/-- A member whose turn it is was not among the earlier ones, and comes before the others. -/
theorem fresh_of_turn {entries : List ((EnsembleMember Row S E I × S) × ℕ)} {index : ℕ}
    (hfresh : (earlier.map Prod.fst ++ (((member, threshold), index) :: entries).map
      fun entry => entry.1.1.identity).Nodup) :
    member.identity ∉ earlier.map Prod.fst ∧
      (∀ entry ∈ entries, entry.1.1.identity ≠ member.identity) ∧
      ((earlier ++ [(member.identity, threshold)]).map Prod.fst ++
        entries.map fun entry => entry.1.1.identity).Nodup := by
  have hnew := (List.nodup_cons.mp (List.nodup_middle.mp hfresh)).1
  rw [List.mem_append, not_or] at hnew
  refine ⟨hnew.1, ?_, ?_⟩
  · intro entry hentry hsame
    exact hnew.2 (List.mem_map.mpr ⟨entry, hentry, hsame⟩)
  · rw [List.map_append, List.append_assoc]
    exact hfresh

/-- The members whose matches the one at an index skips. -/
def Config.cascadeAfter (config : Config S) (index : ℕ) (earlier : List (I × S)) :
    Option (List (I × S)) :=
  if config.cascades index then some earlier else none

omit [LinearOrder I] [LinearOrder S] in
theorem any_cascadeAfter (config : Config S) (index : ℕ) (earlier : List (I × S))
    (skips : List (I × S) → Bool) :
    (config.cascadeAfter index earlier).any skips = (config.cascades index && skips earlier) := by
  rw [Config.cascadeAfter]
  cases config.cascades index <;> rfl

theorem scoreMembers_cons (config : Config S) (reviewLow : S) (stamp : RunStamp)
    (std : Corpus K H Row) (member : EnsembleMember Row S E I) (threshold : S) (index : ℕ)
    (entries : List ((EnsembleMember Row S E I × S) × ℕ)) (earlier : List (I × S))
    (lake : Lake K H S E I) :
    scoreMembers config reviewLow stamp std (((member, threshold), index) :: entries) earlier lake =
      scoreMemberFull member reviewLow stamp std (config.cascadeAfter index earlier) lake ++
        scoreMembers config reviewLow stamp std entries (earlier ++ [(member.identity, threshold)])
          (commit lake (scoreMemberFull member reviewLow stamp std
            (config.cascadeAfter index earlier) lake)) := by
  cases hmode : config.models[index]?.map ModelSpec.mode with
  | none => simp [scoreMembers, Config.cascadeAfter, Config.cascades, hmode]
  | some mode => cases mode <;> simp [scoreMembers, Config.cascadeAfter, Config.cascades, hmode]

omit [LinearOrder I] [LinearOrder S] in
theorem eq_of_cascadeAfter {config : Config S} {index : ℕ} {matchers : List (I × S)}
    (hmatchers : config.cascadeAfter index earlier = some matchers) : matchers = earlier := by
  rw [Config.cascadeAfter] at hmatchers
  split at hmatchers
  · exact (Option.some.inj hmatchers).symm
  · cases hmatchers

/-- The run lemma: the loop leaves the pairs that were carried, and those a member matches. -/
theorem matched_scoreMembers {config : Config S}
    (entries : List ((EnsembleMember Row S E I × S) × ℕ))
    (hlow : ∀ entry ∈ entries, reviewLow ≤ entry.1.2)
    (hfresh : (earlier.map Prod.fst ++ entries.map fun entry => entry.1.1.identity).Nodup) :
    (∃ matcher ∈ earlier ++ entries.map fun entry => (entry.1.1.identity, entry.1.2), Matched
        (commit lake (scoreMembers config reviewLow stamp std entries earlier lake)) a b matcher) ↔
      (∃ matcher ∈ earlier, Matched lake a b matcher) ∨
        ∃ entry ∈ entries, Matches entry.1.1 entry.1.2 std a b := by
  induction entries generalizing earlier lake with
  | nil => simp [scoreMembers, commit]
  | cons entry entries ih =>
      obtain ⟨⟨member, threshold⟩, index⟩ := entry
      obtain ⟨hnew, _, hrest⟩ := fresh_of_turn hfresh
      have hlist : (earlier ++ ((((member, threshold), index) :: entries).map
          fun entry => (entry.1.1.identity, entry.1.2))) =
            (earlier ++ [(member.identity, threshold)]) ++
              entries.map fun entry => (entry.1.1.identity, entry.1.2) := by
        simp
      rw [hlist, scoreMembers_cons, commit_append,
        ih (fun other hother => hlow other (List.mem_cons_of_mem _ hother)) hrest,
        matched_scoreMemberFull (hlow _ List.mem_cons_self) hnew fun _ => eq_of_cascadeAfter]
      simp only [or_assoc, List.mem_cons, exists_eq_or_imp]

theorem activeVerdict_scoreMembers_other {config : Config S} {identity : I}
    (entries : List ((EnsembleMember Row S E I × S) × ℕ))
    (hother : ∀ entry ∈ entries, identity ≠ entry.1.1.identity) :
    activeVerdict (commit lake (scoreMembers config reviewLow stamp std entries earlier lake))
      identity a b = activeVerdict lake identity a b :=
  congrFun (congrFun (active_scoreMembers entries hother earlier lake) a) b

/-- Which members have a pair at one and the same threshold after the loop: those that match it
there, and come after none that matched it at its own. -/
theorem matched_scoreMembers_at {config : Config S} (autoMerge : S)
    (entries : List ((EnsembleMember Row S E I × S) × ℕ))
    (hlow : ∀ entry ∈ entries, reviewLow ≤ entry.1.2)
    (hfresh : (earlier.map Prod.fst ++ entries.map fun entry => entry.1.1.identity).Nodup) :
    (∃ entry ∈ entries, Matched
        (commit lake (scoreMembers config reviewLow stamp std entries earlier lake)) a b
          (entry.1.1.identity, autoMerge)) ↔
      ∃ before entry after, entries = before ++ entry :: after ∧
        Matches entry.1.1 (max reviewLow autoMerge) std a b ∧
          (config.cascades entry.2 = true → (¬ ∃ matcher ∈ earlier, Matched lake a b matcher) ∧
            ∀ other ∈ before, ¬ Matches other.1.1 other.1.2 std a b) := by
  induction entries generalizing earlier lake with
  | nil => simp
  | cons head entries ih =>
      obtain ⟨⟨member, threshold⟩, index⟩ := head
      obtain ⟨hnew, hlater, hrest⟩ := fresh_of_turn hfresh
      rw [List.forall_mem_cons] at hlow
      have hhead : Matched (commit lake (scoreMembers config reviewLow stamp std
          (((member, threshold), index) :: entries) earlier lake)) a b
            (member.identity, autoMerge) ↔
          Matches member (max reviewLow autoMerge) std a b ∧
            (config.cascades index = true → ¬ ∃ matcher ∈ earlier, Matched lake a b matcher) := by
        rw [scoreMembers_cons, commit_append, Matched, activeVerdict_scoreMembers_other entries
          fun other hother => (hlater other hother).symm]
        apply matched_scoreMemberFull_self.trans
        rw [any_cascadeAfter, ← matchedEarlier_iff]
        simp
      simp only [List.mem_cons, exists_eq_or_imp]
      rw [hhead, scoreMembers_cons, commit_append, ih hlow.2 hrest]
      simp only [matched_scoreMemberFull hlow.1 hnew fun _ => eq_of_cascadeAfter, not_or]
      apply Iff.intro
      · intro h
        rcases h with ⟨hmatches, hopen⟩ | ⟨before, entry, after, rfl, hmatches, hopen⟩
        · exact ⟨[], _, entries, rfl, hmatches, fun hcascades => ⟨hopen hcascades, nofun⟩⟩
        · refine ⟨_ :: before, entry, after, rfl, hmatches, fun hcascades => ?_⟩
          obtain ⟨⟨hnone, hhere⟩, hbefore⟩ := hopen hcascades
          exact ⟨hnone, List.forall_mem_cons.mpr ⟨hhere, hbefore⟩⟩
      · intro h
        obtain ⟨before, entry, after, hsplit, hmatches, hopen⟩ := h
        cases before with
        | nil =>
            cases hsplit
            exact .inl ⟨hmatches, fun hcascades => (hopen hcascades).1⟩
        | cons first before =>
            cases hsplit
            refine .inr ⟨before, entry, after, rfl, hmatches, fun hcascades => ?_⟩
            obtain ⟨hnone, hbefore⟩ := hopen hcascades
            obtain ⟨hhere, hbefore⟩ := List.forall_mem_cons.mp hbefore
            exact ⟨⟨hnone, hhere⟩, hbefore⟩

end Carrying

section Reading

variable {config : Config S} {ensemble : Ensemble Row S E I} {reviewLow : S} {stamp : RunStamp}
  {std : Corpus K H Row} {lake : Lake K H S E I} {a b : K}

omit [LinearOrder I] [LinearOrder S] in
theorem map_fst_zip_memberThresholds (config : Config S)
    (members : List (EnsembleMember Row S E I)) :
    (members.zip (memberThresholds config members)).map Prod.fst = members :=
  List.map_fst_zip (length_memberThresholds config members).ge

/-- The members of an ensemble with their thresholds. -/
def Ensemble.matchers (config : Config S) (ensemble : Ensemble Row S E I) : List (I × S) :=
  (ensemble.members.zip (memberThresholds config ensemble.members)).map
    fun entry => (entry.1.identity, entry.2)

theorem mem_activeRows {threshold : S} {entry : ScoreKey K I × MatchScore H S E} :
    entry ∈ activeRows lake threshold ↔ lake.matchScores[entry.1]? = some entry.2 ∧
      entry.2.isActive = true ∧ threshold ≤ entry.2.matchProbability := by
  rw [activeRows, List.mem_filter, BTreeMap.mem_toList, Bool.and_eq_true, decide_eq_true_iff]

theorem exists_mem_autoMergeEdgesLive {autoMerge : S} :
    (∃ edge ∈ autoMergeEdgesLive lake autoMerge, (edge.left, edge.right) = (a, b)) ↔
      ∃ identity, Matched lake a b (identity, autoMerge) := by
  simp only [autoMergeEdgesLive, List.mem_map, exists_exists_and_eq_and,
    mem_activeRows, matched_iff]
  apply Iff.intro
  · intro h
    obtain ⟨⟨⟨_, _, identity⟩, row⟩, hrow, hpair⟩ := h
    cases hpair
    exact ⟨identity, row, hrow⟩
  · intro h
    obtain ⟨identity, row, hrow⟩ := h
    exact ⟨(⟨a, b, identity⟩, row), hrow, rfl⟩

/-- The per-model read returns the pairs that a member carries at its threshold: the loosest
threshold excludes nothing. -/
theorem exists_mem_autoMergeEdgesPerModel {members : List (ResolvedMember S I)} :
    (∃ edge ∈ autoMergeEdgesPerModel lake members, (edge.left, edge.right) = (a, b)) ↔
      ∃ member ∈ members, Matched lake a b (member.identity, member.threshold) := by
  rw [autoMergeEdgesPerModel]
  split
  · rename_i hnone
    rw [List.min?_eq_none_iff, List.map_eq_nil_iff] at hnone
    simp [hnone]
  · rename_i loosest hloosest
    have hbound : ∀ member ∈ members, loosest ≤ member.threshold := fun member hmember =>
      (List.le_min?_iff hloosest).mp le_rfl _ (List.mem_map_of_mem hmember)
    simp only [List.mem_map, exists_exists_and_eq_and, List.mem_filter, List.any_eq_true,
      Bool.and_eq_true, decide_eq_true_iff, mem_activeRows, matched_iff]
    apply Iff.intro
    · intro h
      rcases h with ⟨⟨⟨_, _, identity⟩, row⟩, ⟨⟨hrow, hactive, _⟩, member, hmember, hsame, hhigh⟩,
        hpair⟩
      cases hpair
      exact ⟨member, hmember, row, hsame ▸ hrow, hactive, hhigh⟩
    · intro h
      obtain ⟨member, hmember, row, hrow, hactive, hhigh⟩ := h
      exact ⟨(⟨a, b, member.identity⟩, row), ⟨⟨hrow, hactive, (hbound member hmember).trans hhigh⟩,
        member, hmember, rfl, hhigh⟩, rfl⟩

section Edges

variable [Sub S] [Neg S] {epsilon : S}

theorem mem_autoMergePairs_iff : (a, b) ∈ autoMergePairs epsilon config ensemble lake ↔
    ∃ edge ∈ autoMergeEdges lake (resolveEnsemble epsilon config ensemble.members)
      config.autoMerge, (edge.left, edge.right) = (a, b) := by
  rw [autoMergePairs, List.mem_toFinset, List.mem_map]

theorem mem_autoMergePairs_own (hown : (memberThresholds config ensemble.members).all
      (usesAutoMerge epsilon config.autoMerge) = false) :
    (a, b) ∈ autoMergePairs epsilon config ensemble lake ↔
      ∃ matcher ∈ ensemble.matchers config, Matched lake a b matcher := by
  have hnonempty : ensemble.members.zip (memberThresholds config ensemble.members) ≠ [] := by
    intro hnil
    apply ensemble.nonempty
    rw [← map_fst_zip_memberThresholds config ensemble.members, hnil, List.map_nil]
  have hresolved : runMemberThresholds (some ((ensemble.members.zip
      (memberThresholds config ensemble.members)).map
        fun entry => (⟨entry.1.identity, entry.2⟩ : ResolvedMember S I))) = some _ :=
    Option.filter_some_pos (by simpa using hnonempty)
  rw [mem_autoMergePairs_iff, autoMergeEdges, resolveEnsemble, hown, if_neg Bool.false_ne_true,
    hresolved]
  apply exists_mem_autoMergeEdgesPerModel.trans
  simp only [Ensemble.matchers, List.mem_map, exists_exists_and_eq_and]

/-- What is read where every threshold counts as the corpus-wide one, of a lake whose active
scores are the members' own: the pairs that a member has at that one. -/
theorem mem_autoMergePairs_shared (hshared : (memberThresholds config ensemble.members).all
      (usesAutoMerge epsilon config.autoMerge) = true)
    (hlive : ∀ identity, identity ∉ ensemble.live → ∀ a b, activeVerdict lake identity a b = none) :
    (a, b) ∈ autoMergePairs epsilon config ensemble lake ↔
      ∃ identity ∈ ensemble.live, Matched lake a b (identity, config.autoMerge) := by
  rw [mem_autoMergePairs_iff, autoMergeEdges, resolveEnsemble, if_pos hshared]
  apply exists_mem_autoMergeEdgesLive.trans
  apply exists_congr
  intro identity
  refine ⟨fun hmatched => ⟨?_, hmatched⟩, And.right⟩
  by_contra hdead
  obtain ⟨verdict, hactive, _⟩ := hmatched
  cases (hlive identity hdead a b).symm.trans hactive

end Edges

/-- The members with their thresholds and indices, as the loop takes them. -/
def Ensemble.entries (config : Config S) (ensemble : Ensemble Row S E I) :
    List ((EnsembleMember Row S E I × S) × ℕ) :=
  (ensemble.members.zip (memberThresholds config ensemble.members)).zipIdx

omit [LinearOrder I] [LinearOrder S] in
theorem map_fst_entries (config : Config S) (ensemble : Ensemble Row S E I) :
    (ensemble.entries config).map Prod.fst =
      ensemble.members.zip (memberThresholds config ensemble.members) :=
  List.zipIdx_map_fst _ _

omit [LinearOrder I] [LinearOrder S] in
theorem map_member_entries (config : Config S) (ensemble : Ensemble Row S E I) :
    (ensemble.entries config).map (fun entry => entry.1.1) = ensemble.members := by
  have hmembers := map_fst_zip_memberThresholds config ensemble.members
  rw [← map_fst_entries, List.map_map] at hmembers
  exact hmembers

omit [LinearOrder I] [LinearOrder S] in
theorem nodup_entries (config : Config S) (ensemble : Ensemble Row S E I) :
    (([] : List (I × S)).map Prod.fst ++
      (ensemble.entries config).map fun entry => entry.1.1.identity).Nodup := by
  have hdistinct := ensemble.distinct
  rw [← map_member_entries config ensemble, List.map_map] at hdistinct
  exact hdistinct

section Full

variable (hlow : ∀ threshold ∈ memberThresholds config ensemble.members, reviewLow ≤ threshold)

include hlow

omit [LinearOrder I] in
theorem low_entries : ∀ entry ∈ ensemble.entries config, reviewLow ≤ entry.1.2 := by
  intro entry hentry
  apply hlow
  exact (List.of_mem_zip (map_fst_entries config ensemble ▸ List.mem_map_of_mem hentry)).2

variable [Sub S] [Neg S] {epsilon : S}

/-- What is read after a full run where some threshold is apart: the pairs that some member
matches at its own. -/
theorem mem_autoMergePairs_full_own (hown : (memberThresholds config ensemble.members).all
      (usesAutoMerge epsilon config.autoMerge) = false) :
    (a, b) ∈ autoMergePairs epsilon config ensemble
        (commit lake (runMatchEnsemble config ensemble.members reviewLow stamp std lake)) ↔
      ∃ entry ∈ ensemble.members.zip (memberThresholds config ensemble.members),
        Matches entry.1 entry.2 std a b := by
  have hmatchers : ensemble.matchers config =
      [] ++ (ensemble.entries config).map fun entry => (entry.1.1.identity, entry.1.2) := by
    rw [Ensemble.matchers, ← map_fst_entries, List.map_map]
    rfl
  rw [mem_autoMergePairs_own hown, hmatchers, runMatchEnsemble, commit_append]
  apply (matched_scoreMembers _ (low_entries hlow) (nodup_entries config ensemble)).trans
  rw [← map_fst_entries]
  simp only [List.not_mem_nil, false_and, exists_false, false_or, List.mem_map,
    exists_exists_and_eq_and]

/-- The members that carry a pair at the corpus-wide threshold after a full run: they match it
there, and come after none that matches it at its own. -/
def CarriedShared (config : Config S) (ensemble : Ensemble Row S E I) (reviewLow : S)
    (std : Corpus K H Row) (a b : K) : Prop :=
  ∃ before entry after, ensemble.entries config = before ++ entry :: after ∧
    Matches entry.1.1 (max reviewLow config.autoMerge) std a b ∧
      (config.cascades entry.2 = true → ∀ other ∈ before, ¬ Matches other.1.1 other.1.2 std a b)

theorem mem_autoMergePairs_full_shared (hshared : (memberThresholds config ensemble.members).all
      (usesAutoMerge epsilon config.autoMerge) = true) :
    (a, b) ∈ autoMergePairs epsilon config ensemble
        (commit lake (runMatchEnsemble config ensemble.members reviewLow stamp std lake)) ↔
      CarriedShared config ensemble reviewLow std a b := by
  have hdead (identity : I) (hidentity : identity ∉ ensemble.live) (a b : K) :
      activeVerdict (commit lake
        (runMatchEnsemble config ensemble.members reviewLow stamp std lake)) identity a b = none :=
    congrFun (congrFun (active_full_dead hidentity lake) a) b
  have hlive : ensemble.live =
      (ensemble.entries config).map fun entry => entry.1.1.identity := by
    rw [Ensemble.live, ← map_member_entries config ensemble, List.map_map]
    rfl
  rw [mem_autoMergePairs_shared hshared hdead, hlive, runMatchEnsemble, commit_append]
  simp only [List.mem_map, exists_exists_and_eq_and]
  apply (matched_scoreMembers_at _ _ (low_entries hlow) (nodup_entries config ensemble)).trans
  simp only [List.not_mem_nil, false_and, exists_false, not_false_eq_true, true_and, CarriedShared]

end Full

end Reading

omit [LinearOrder I] [LinearOrder S] in
theorem memberThresholds_allAndRun (config : Config S)
    (members : List (EnsembleMember Row S E I)) :
    memberThresholds config.allAndRun members = memberThresholds config members := by
  simp only [memberThresholds, Config.allAndRun, List.length_map, List.map_map]
  rfl

omit [LinearOrder S] in
theorem cascades_allAndRun (config : Config S) (index : ℕ) :
    config.allAndRun.cascades index = false := by
  rw [Config.cascades, Config.allAndRun]
  dsimp only
  rw [List.getElem?_map, Option.map_map]
  cases config.models[index]? <;> rfl

/-- Every pair that some member scores at or above the corpus-wide threshold is carried by a
member that scores it there in a full run: one that runs on all its pairs, or that comes after
none that matches the pair at a threshold of its own. -/
def LosesNone (config : Config S) (ensemble : Ensemble Row S E I) (reviewLow : S)
    (std : Corpus K H Row) : Prop :=
  ∀ a b, (∃ member ∈ ensemble.members, Matches member (max reviewLow config.autoMerge) std a b) →
    CarriedShared config ensemble reviewLow std a b

omit [LinearOrder I] in
/-- Where every member runs on all its pairs, each of them carries what it matches. -/
theorem carriedShared_allAndRun {config : Config S} {ensemble : Ensemble Row S E I}
    {reviewLow : S} {std : Corpus K H Row} {a b : K} :
    CarriedShared config.allAndRun ensemble reviewLow std a b ↔
      ∃ member ∈ ensemble.members, Matches member (max reviewLow config.autoMerge) std a b := by
  rw [CarriedShared, ← map_member_entries config.allAndRun ensemble]
  simp only [cascades_allAndRun, Bool.false_eq_true, false_implies, and_true, List.mem_map,
    exists_exists_and_eq_and]
  apply Iff.intro
  · intro h
    obtain ⟨before, entry, after, hsplit, hmatches⟩ := h
    exact ⟨entry, hsplit ▸ List.mem_append_right _ List.mem_cons_self, hmatches⟩
  · intro h
    obtain ⟨entry, hentry, hmatches⟩ := h
    obtain ⟨before, after, hsplit⟩ := List.append_of_mem hentry
    exact ⟨before, entry, after, hsplit, hmatches⟩

/-- After a full run the auto-merge pairs are those of the run in which every member scores all
its candidates exactly when some threshold is apart from the corpus-wide one by the epsilon, or
no pair at or above that one is lost to a score below it. -/
theorem cascade_reads_same_pairs_iff [Sub S] [Neg S] (epsilon : S) (ensemble : Ensemble Row S E I)
    {config : Config S} {reviewLow : S}
    (hlow : ∀ threshold ∈ memberThresholds config ensemble.members, reviewLow ≤ threshold)
    (stamp : RunStamp) (std : Corpus K H Row) (lake : Lake K H S E I) :
    autoMergePairs epsilon config ensemble
        (commit lake (runMatchEnsemble config ensemble.members reviewLow stamp std lake)) =
      autoMergePairs epsilon config.allAndRun ensemble
        (commit lake (runMatchEnsemble config.allAndRun ensemble.members reviewLow stamp std
          lake)) ↔
    ((∀ threshold ∈ memberThresholds config ensemble.members,
        usesAutoMerge epsilon config.autoMerge threshold = true) →
      LosesNone config ensemble reviewLow std) := by
  have hthresholds := memberThresholds_allAndRun config ensemble.members
  have hlow' : ∀ threshold ∈ memberThresholds config.allAndRun ensemble.members,
      reviewLow ≤ threshold := by rwa [hthresholds]
  rw [← List.all_eq_true]
  cases hall : (memberThresholds config ensemble.members).all
      (usesAutoMerge epsilon config.autoMerge) with
  | false =>
      have hall' := hall
      rw [← hthresholds] at hall'
      refine ⟨fun _ => nofun, fun _ => ?_⟩
      ext pair
      obtain ⟨a, b⟩ := pair
      rw [mem_autoMergePairs_full_own hlow hall, mem_autoMergePairs_full_own hlow' hall',
        hthresholds]
  | true =>
      have hall' := hall
      rw [← hthresholds] at hall'
      apply Iff.intro
      · intro hsame _ a b hmatches
        apply (mem_autoMergePairs_full_shared hlow hall).mp
        rw [hsame, mem_autoMergePairs_full_shared hlow' hall', carriedShared_allAndRun]
        exact hmatches
      · intro hnone
        ext pair
        obtain ⟨a, b⟩ := pair
        rw [mem_autoMergePairs_full_shared hlow hall, mem_autoMergePairs_full_shared hlow' hall',
          carriedShared_allAndRun]
        refine ⟨fun hcarried => ?_, hnone rfl a b⟩
        obtain ⟨before, entry, after, hsplit, hmatches, _⟩ := hcarried
        refine ⟨entry.1.1, ?_, hmatches⟩
        rw [← map_member_entries config ensemble, hsplit]
        simp

/-- A member that gives every pair one score. -/
def constantMember (identity : ℕ) (score : ℚ) : EnsembleMember ℕ ℚ Unit ℕ :=
  ⟨identity, fun _ _ => true, fun _ _ => score, fun _ _ => ()⟩

/-- Two members, the second run after the first, whose threshold is below the corpus-wide one. -/
def lowerFirst (below : ℚ) : Config ℚ :=
  ⟨[⟨.andRun, some (1 / 2 - below)⟩, ⟨.thenRun, none⟩], 1 / 2⟩

/-- The first member just reaches its threshold, the second the corpus-wide one. -/
def lowerFirstEnsemble (below : ℚ) : Ensemble ℕ ℚ Unit ℕ :=
  ⟨[constantMember 1 (1 / 2 - below), constantMember 2 (9 / 10)], by simp, by
    simp [constantMember]⟩

/-- A threshold of 1/4 is apart from 1/2, and the cascade loses nothing. -/
theorem cascade_reads_same_pairs_lowerFirst :
    autoMergePairs (1 / 2 ^ 52) (lowerFirst (1 / 4)) (lowerFirstEnsemble (1 / 4))
        (commit Lake.fresh (runMatchEnsemble (lowerFirst (1 / 4))
          (lowerFirstEnsemble (1 / 4)).members (1 / 4) ⟨"full", 1⟩ (sampleCorpus [(1, 3), (2, 5)])
            Lake.fresh)) =
      autoMergePairs (1 / 2 ^ 52) (lowerFirst (1 / 4)).allAndRun (lowerFirstEnsemble (1 / 4))
        (commit Lake.fresh (runMatchEnsemble (lowerFirst (1 / 4)).allAndRun
          (lowerFirstEnsemble (1 / 4)).members (1 / 4) ⟨"full", 1⟩ (sampleCorpus [(1, 3), (2, 5)])
            Lake.fresh)) := by
  apply (cascade_reads_same_pairs_iff (1 / 2 ^ 52) (lowerFirstEnsemble (1 / 4)) ?_ _ _ _).mpr
  · intro hshared
    exact absurd (hshared (1 / 2 - 1 / 4) (by decide +kernel)) (by decide +kernel)
  · decide +kernel

/-- The threshold 0.49999999999999994 of the first member is the double before 1/2. A pair on which
its score is just that is skipped by the second member, and is then read at 1/2. -/
theorem cascade_loses_pair :
    (∀ threshold ∈ memberThresholds (lowerFirst (1 / 2 ^ 54))
      (lowerFirstEnsemble (1 / 2 ^ 54)).members, 1 / 4 ≤ threshold) ∧
    autoMergePairs (1 / 2 ^ 52) (lowerFirst (1 / 2 ^ 54)) (lowerFirstEnsemble (1 / 2 ^ 54))
        (commit Lake.fresh (runMatchEnsemble (lowerFirst (1 / 2 ^ 54))
          (lowerFirstEnsemble (1 / 2 ^ 54)).members (1 / 4) ⟨"full", 1⟩
            (sampleCorpus [(1, 3), (2, 5)]) Lake.fresh)) = ∅ ∧
    autoMergePairs (1 / 2 ^ 52) (lowerFirst (1 / 2 ^ 54)).allAndRun
        (lowerFirstEnsemble (1 / 2 ^ 54))
        (commit Lake.fresh (runMatchEnsemble (lowerFirst (1 / 2 ^ 54)).allAndRun
          (lowerFirstEnsemble (1 / 2 ^ 54)).members (1 / 4) ⟨"full", 1⟩
            (sampleCorpus [(1, 3), (2, 5)]) Lake.fresh)) = {(1, 2)} := by
  refine ⟨?_, ?_, ?_⟩
  · decide +kernel
  · decide +kernel
  · decide +kernel

end EntityResolution.Match
