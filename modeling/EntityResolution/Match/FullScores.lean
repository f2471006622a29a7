/-
# What full passes leave

A full pass of an ensemble leaves scores that depend on the corpus alone: each member's own
verdicts on its candidate pairs, but for the pairs that it skips because an earlier member
matched them. They are the table that an incremental pass should leave too.

An incremental pass gives a pair the member's own verdict when it scores the pair again, and
otherwise what the lake already says. When the previous pass left the full scores of its own
corpus, the two kinds of pair can be told apart by the two corpora.
-/

import EntityResolution.Match.Cascade

namespace EntityResolution.Match

open EntityResolution.Collections EntityResolution.Tables

universe u v w x y z

variable {K : Type u} {H : Type v} {Row : Type w} {S : Type x} {E : Type y} {I : Type z}
variable [LinearOrder K] [LinearOrder I] [LinearOrder S]

/-- The verdict a member gives a pair of the corpus: the score of a candidate pair in
canonical order, at or above `review_low`. -/
def memberScores (member : EnsembleMember Row S E I) (reviewLow : S) (std : Corpus K H Row)
    (a b : K) : Option (Verdict H S) :=
  std[a]?.bind fun ra => std[b]?.bind fun rb =>
    if a < b ∧ member.candidate ra.row rb.row = true ∧
        reviewLow ≤ member.score ra.row rb.row then
      some ⟨member.score ra.row rb.row, ra.contentHash, rb.contentHash⟩
    else none

/-- The verdict on a pair of one member in a full pass: none when it skips the pair. -/
def cascadedScore (config : Config S) (reviewLow : S) (std : Corpus K H Row) (a b : K)
    (entry : (EnsembleMember Row S E I × S) × ℕ) (matched : Bool) : Option (Verdict H S) :=
  if config.cascades entry.2 && matched then none else memberScores entry.1.1 reviewLow std a b

/-- The verdict on a pair of the members in turn, given whether an earlier one matched it. -/
def cascadeScores (config : Config S) (reviewLow : S) (std : Corpus K H Row) (a b : K) :
    List ((EnsembleMember Row S E I × S) × ℕ) → Bool → I → Option (Verdict H S)
  | [], _, _ => none
  | entry :: entries, matched, identity =>
      let here := cascadedScore config reviewLow std a b entry matched
      if identity = entry.1.1.identity then here
      else
        cascadeScores config reviewLow std a b entries
          (matched || here.any fun verdict => entry.1.2 ≤ verdict.matchProbability) identity

/-- The scores a full pass of the members leaves of a corpus. -/
def fullScores (config : Config S) (members : List (EnsembleMember Row S E I)) (reviewLow : S)
    (std : Corpus K H Row) (identity : I) (a b : K) : Option (Verdict H S) :=
  cascadeScores config reviewLow std a b (members.zip (memberThresholds config members)).zipIdx
    false identity

section Verdicts

variable {member : EnsembleMember Row S E I} {reviewLow : S} {std : Corpus K H Row} {a b : K}

omit [LinearOrder I] in
theorem memberScores_eq_none_of_not_mem (hout : a ∉ std ∨ b ∉ std) :
    memberScores member reviewLow std a b = none := by
  rw [← contentHash_eq_none, ← contentHash_eq_none, contentHash, contentHash,
    Option.map_eq_none_iff, Option.map_eq_none_iff] at hout
  cases hout with
  | inl ha => rw [memberScores, ha, Option.bind_none]
  | inr hb => simp [memberScores, hb]

omit [LinearOrder I] in
/-- A member's own verdicts are what the corpus is expected to score. -/
theorem memberScores_eq_expected {rowOf : K → H → Row} (hversioned : Versioned rowOf std) :
    memberScores member reviewLow std a b =
      expected member rowOf reviewLow (contentHash std) a b := by
  ext verdict
  rw [expected_eq_some_iff hversioned]
  simp only [memberScores, Option.bind_eq_some_iff, Option.ite_none_right_eq_some]
  constructor
  · intro h
    obtain ⟨ra, hra, rb, hrb, ⟨hlt, hcandidate, hlow⟩, hverdict⟩ := h
    exact ⟨ra, rb, hra, hrb, hlt, hcandidate, hlow, (Option.some.inj hverdict).symm⟩
  · intro h
    obtain ⟨ra, rb, hra, hrb, hlt, hcandidate, hlow, hverdict⟩ := h
    exact ⟨ra, hra, rb, hrb, ⟨hlt, hcandidate, hlow⟩, congrArg some hverdict.symm⟩

omit [LinearOrder I] [LinearOrder S] in
theorem exists_versioned {key : K} (hkey : key ∈ std) : ∃ rowOf, Versioned rowOf std := by
  obtain ⟨record, _⟩ := BTreeMap.mem_iff_exists_getElem?.mp hkey
  refine ⟨fun key _ => (std[key]?.map StdRecord.row).getD record.row, ?_⟩
  intro key found hfound
  simp [hfound]

/-- Predictions about candidate pairs that miss no candidate pair with a given end stage the
member's own verdict. -/
theorem stagedVerdict_eq_memberScores {tables : List (List (Prediction K S E))}
    (hexpected : ∀ rowOf, Versioned rowOf std →
      stagedVerdict member.identity reviewLow std tables a b =
        expected member rowOf reviewLow (contentHash std) a b) :
    stagedVerdict member.identity reviewLow std tables a b =
      memberScores member reviewLow std a b := by
  by_cases ha : a ∈ std
  · obtain ⟨rowOf, hversioned⟩ := exists_versioned ha
    rw [hexpected rowOf hversioned, memberScores_eq_expected hversioned]
  · rw [memberScores_eq_none_of_not_mem (.inl ha), ← Option.not_isSome_iff_eq_none]
    intro hsome
    exact ha (mem_std_of_staged hsome).1

end Verdicts

section Full

variable {member : EnsembleMember Row S E I} {config : Config S} {reviewLow : S}
  {stamp : RunStamp} {std : Corpus K H Row} {identity : I} {a b : K}

/-- What a member stages in a full pass: its own verdict, none if an earlier member whose
matches it skips has the pair. -/
theorem stagedVerdict_cascade (hsymmetric : SideSymmetric member)
    {cascadeAfter : Option (List (I × S))} (lake : Lake K H S E I) :
    stagedVerdict member.identity reviewLow std [predictMember member std lake cascadeAfter] a b =
      if cascadeAfter.any fun earlier => matchedEarlier lake earlier a b then none
      else memberScores member reviewLow std a b := by
  split
  · rename_i hmatched
    rw [← Option.not_isSome_iff_eq_none]
    intro hsome
    obtain ⟨verdict, hstaged⟩ := Option.isSome_iff_exists.mp hsome
    rw [(stagedVerdict_predictMember hstaged).2.1] at hmatched
    cases hmatched
  · rename_i hopen
    rw [Bool.not_eq_true] at hopen
    apply stagedVerdict_eq_memberScores
    intro rowOf hversioned
    apply stagedVerdict_eq hsymmetric hversioned
    · intro prediction hmem
      rw [List.flatten_singleton] at hmem
      obtain ⟨la, l, ra, r, hl, hr, _, hcandidate, _, rfl⟩ := mem_predictMember.mp hmem
      exact ⟨l, r, hl, hr, hcandidate, rfl⟩
    · intro ra rb hra hrb hlt hcandidate
      refine ⟨predictPair member ((a, ra), (b, rb)), ?_, min_eq_left hlt.le, max_eq_right hlt.le⟩
      rw [List.flatten_singleton]
      exact mem_predictMember.mpr ⟨a, ra, b, rb, hra, hrb, hlt, hcandidate, hopen, rfl⟩

theorem fullScores_of_not_mem {members : List (EnsembleMember Row S E I)}
    (hout : a ∉ std ∨ b ∉ std) : fullScores config members reviewLow std identity a b = none := by
  rw [fullScores]
  generalize (members.zip (memberThresholds config members)).zipIdx = entries
  generalize false = matched
  induction entries generalizing matched with
  | nil => rfl
  | cons entry entries ih =>
      rw [cascadeScores, ih, cascadedScore, memberScores_eq_none_of_not_mem hout]
      simp

theorem matchedEarlier_congr {earlier : List (I × S)} {lake lake' : Lake K H S E I}
    (hactive : ∀ matcher ∈ earlier,
      activeVerdict lake' matcher.1 a b = activeVerdict lake matcher.1 a b) :
    matchedEarlier lake' earlier a b = matchedEarlier lake earlier a b := by
  rw [Bool.eq_iff_iff, matchedEarlier_iff, matchedEarlier_iff]
  apply exists_congr
  intro matcher
  apply and_congr_right
  intro hmatcher
  rw [Matched, Matched, hactive matcher hmatcher]

theorem matchedEarlier_append {earlier : List (I × S)} {matcher : I × S} {lake : Lake K H S E I} :
    matchedEarlier lake (earlier ++ [matcher]) a b =
      (matchedEarlier lake earlier a b ||
        (activeVerdict lake matcher.1 a b).any fun verdict =>
          matcher.2 ≤ verdict.matchProbability) := by
  rw [Bool.eq_iff_iff, Bool.or_eq_true, matchedEarlier_iff, matchedEarlier_iff, Option.any_eq_true]
  simp only [List.mem_append, List.mem_singleton, or_and_right, exists_or, exists_eq_left, Matched,
    decide_eq_true_iff]

/-- The loop leaves each of its members the verdicts that the cascade allows it. -/
theorem activeVerdict_scoreMembers (entries : List ((EnsembleMember Row S E I × S) × ℕ))
    (hsymmetric : ∀ entry ∈ entries, SideSymmetric entry.1.1) {earlier : List (I × S)}
    (hfresh : (earlier.map Prod.fst ++ entries.map fun entry => entry.1.1.identity).Nodup)
    (hturn : ∃ entry ∈ entries, entry.1.1.identity = identity) (lake : Lake K H S E I) :
    activeVerdict (commit lake (scoreMembers config reviewLow stamp std entries earlier lake))
        identity a b =
      cascadeScores config reviewLow std a b entries (matchedEarlier lake earlier a b)
        identity := by
  induction entries generalizing earlier lake with
  | nil =>
      obtain ⟨_, hentry, _⟩ := hturn
      cases hentry
  | cons entry entries ih =>
      obtain ⟨⟨member, threshold⟩, index⟩ := entry
      rw [List.forall_mem_cons] at hsymmetric
      obtain ⟨hnew, hlater, hrest⟩ := fresh_of_turn hfresh
      rw [scoreMembers_cons, commit_append, cascadeScores]
      have hhere : activeVerdict (commit lake (scoreMemberFull member reviewLow stamp std
          (config.cascadeAfter index earlier) lake)) member.identity a b =
            cascadedScore config reviewLow std a b ((member, threshold), index)
              (matchedEarlier lake earlier a b) := by
        rw [activeVerdict_scoreMemberFull, stagedVerdict_cascade hsymmetric.1, any_cascadeAfter,
          cascadedScore]
      by_cases hidentity : identity = member.identity
      · subst hidentity
        rw [if_pos rfl, ← hhere]
        apply activeVerdict_scoreMembers_other
        exact fun other hother => (hlater other hother).symm
      · rw [if_neg hidentity, ih hsymmetric.2 hrest]
        · rw [matchedEarlier_append, hhere]
          congr 2
          apply matchedEarlier_congr
          intro matcher hmatcher
          apply activeVerdict_scoreMemberFull_other
          exact ne_of_mem_of_not_mem (List.mem_map_of_mem hmatcher) hnew
        · obtain ⟨other, hother, hsame⟩ := hturn
          cases List.mem_cons.mp hother with
          | inl hhead => exact absurd (hhead ▸ hsame).symm hidentity
          | inr htail => exact ⟨other, htail, hsame⟩

omit [LinearOrder I] [LinearOrder S] in
theorem restrict_contentHash (std : Corpus K H Row) (key : K) :
    (if key ∈ std then contentHash std key else none) = contentHash std key := by
  by_cases hkey : key ∈ std
  · rw [if_pos hkey]
  · rw [if_neg hkey, contentHash_eq_none.mpr hkey]

/-- The loop leaves the ledger of each of its members listing the corpus. -/
theorem scored_scoreMembers (entries : List ((EnsembleMember Row S E I × S) × ℕ))
    (earlier : List (I × S)) (lake : Lake K H S E I)
    (hturn : (∃ entry ∈ entries, entry.1.1.identity = identity) ∨
      (viewOf lake identity).scored = contentHash std) :
    (viewOf (commit lake (scoreMembers config reviewLow stamp std entries earlier lake))
      identity).scored = contentHash std := by
  induction entries generalizing earlier lake with
  | nil =>
      cases hturn with
      | inl hentry =>
          obtain ⟨_, hentry, _⟩ := hentry
          cases hentry
      | inr hlisted => exact hlisted
  | cons entry entries ih =>
      obtain ⟨⟨member, threshold⟩, index⟩ := entry
      rw [scoreMembers, commit_append]
      apply ih
      by_cases hidentity : identity = member.identity
      · subst hidentity
        rw [viewOf_commit, view_full_self]
        exact .inr rfl
      · cases hturn with
        | inl hentry =>
            obtain ⟨other, hother, hsame⟩ := hentry
            cases List.mem_cons.mp hother with
            | inl hhead => exact absurd (hhead ▸ hsame).symm hidentity
            | inr htail => exact .inl ⟨other, htail, hsame⟩
        | inr hlisted =>
            apply Or.inr
            rw [viewOf_commit, view_full_other hidentity]
            funext key
            change (if key ∈ std then (viewOf lake identity).scored key else none) = _
            rw [hlisted, restrict_contentHash]

/-- A model that has been removed and is not in the loop stays removed. -/
theorem nothing_scoreMembers (entries : List ((EnsembleMember Row S E I × S) × ℕ))
    (hother : ∀ entry ∈ entries, identity ≠ entry.1.1.identity) (earlier : List (I × S))
    (lake : Lake K H S E I) (hnothing : viewOf lake identity = .nothing) :
    viewOf (commit lake (scoreMembers config reviewLow stamp std entries earlier lake)) identity =
      .nothing := by
  induction entries generalizing earlier lake with
  | nil => exact hnothing
  | cons entry entries ih =>
      obtain ⟨⟨member, threshold⟩, index⟩ := entry
      rw [List.forall_mem_cons] at hother
      rw [scoreMembers, commit_append]
      apply ih hother.2
      rw [viewOf_commit, hnothing, view_full_other hother.1, restrict_nothing]

/-- What the lake says about each model once a full pass over a corpus is through. -/
def settledView (config : Config S) (ensemble : Ensemble Row S E I) (reviewLow : S)
    (std : Corpus K H Row) (identity : I) : ModelView K H S :=
  if identity ∈ ensemble.live then
    ⟨fullScores config ensemble.members reviewLow std identity, contentHash std⟩
  else .nothing

/-- A full pass leaves the full scores of its corpus, whatever the lake before it. -/
theorem viewOf_runMatchEnsemble {ensemble : Ensemble Row S E I}
    (hsymmetric : ∀ member ∈ ensemble.members, SideSymmetric member) (lake : Lake K H S E I) :
    viewOf (commit lake (runMatchEnsemble config ensemble.members reviewLow stamp std lake))
        identity = settledView config ensemble reviewLow std identity := by
  have hentries : (ensemble.members.zip (memberThresholds config ensemble.members)).zipIdx.map
      (fun entry => entry.1.1) = ensemble.members := by
    conv_rhs => rw [← map_fst_zip_memberThresholds config ensemble.members,
      ← List.zipIdx_map_fst 0 (ensemble.members.zip (memberThresholds config ensemble.members)),
      List.map_map]
    rfl
  rw [runMatchEnsemble, commit_append, settledView]
  by_cases hlive : identity ∈ ensemble.live
  · have hturn : ∃ entry ∈ (ensemble.members.zip
        (memberThresholds config ensemble.members)).zipIdx, entry.1.1.identity = identity :=
      mem_loop_identity.mpr hlive
    rw [if_pos hlive]
    ext1
    · funext a b
      refine activeVerdict_scoreMembers _ ?_ ?_ hturn _
      · intro entry hentry
        apply hsymmetric
        rw [← hentries]
        exact List.mem_map_of_mem hentry
      · have hdistinct := ensemble.distinct
        rw [← hentries, List.map_map] at hdistinct
        exact hdistinct
    · exact scored_scoreMembers _ _ _ (.inl hturn)
  · rw [if_neg hlive]
    apply nothing_scoreMembers
    · intro entry hentry hsame
      exact hlive (mem_loop_identity.mp ⟨entry, hentry, hsame.symm⟩)
    · rw [viewOf_commit]
      exact view_retire_dead hlive _

end Full

/-! ## Incremental passes -/

section Turns

variable [DecidableEq H] {member : EnsembleMember Row S E I} {live : List I} {reviewLow : S}
  {stamp : RunStamp} {segment : Option (Row → Option Bool)} {std : Corpus K H Row}
  {lake : Lake K H S E I} {scores : K → K → Option (Verdict H S)} {leads : Prop}
  {ledger : K → Option H} {known : K → Prop} {key a b : K}

/-- The records that a member finds in its ledger when its turn comes: all of them if it goes
first, and those of the corpus otherwise. -/
def Found (leads : Prop) (ledger : K → Option H) (std : Corpus K H Row) (key : K) : Prop :=
  (ledger key).isSome ∧ (leads ∨ key ∈ std)

/-- A record of the corpus that is new, changed or in the segment. -/
def Changed (segment : Option (Row → Option Bool)) (ledger : K → Option H) (std : Corpus K H Row)
    (key : K) : Prop :=
  ∃ record, std[key]? = some record ∧
    (ledger key ≠ some record.contentHash ∨ inScope segment record = true)

/-- A record that left the corpus, as only the member that goes first can tell. -/
def Departed (leads : Prop) (known : K → Prop) (std : Corpus K H Row) (key : K) : Prop :=
  key ∉ std ∧ leads ∧ known key

/-- A pair that a member scores again: it finds nothing to reuse, or an end is changed, or an
end has left the corpus. -/
def Rescored (leads : Prop) (segment : Option (Row → Option Bool)) (ledger : K → Option H)
    (known : K → Prop) (std : Corpus K H Row) (a b : K) : Prop :=
  (∀ key, ¬ Found leads ledger std key) ∨
    (Changed segment ledger std a ∨ Departed leads known std a) ∨
    (Changed segment ledger std b ∨ Departed leads known std b)

/-- What a member meets at its turn: the scores, and what is left of the ledger. -/
structure Turn (leads : Prop) (ledger : K → Option H) (known : K → Prop) (std : Corpus K H Row)
    (scores : K → K → Option (Verdict H S)) (identity : I) (lake : Lake K H S E I) : Prop where
  active : ∀ a b, activeVerdict lake identity a b = scores a b
  found : ∀ key, Found leads ledger std key → scoredHash lake identity key = ledger key
  unfound : ∀ key, ¬ Found leads ledger std key → scoredHash lake identity key = none
  departed : ∀ key ∉ std, (∃ owner, (scoredHash lake owner key).isSome) ↔ leads ∧ known key

omit [LinearOrder S] [DecidableEq H] in
/-- What the member that goes first meets. -/
theorem turn_first (identity : I) (std : Corpus K H Row) (lake : Lake K H S E I) :
    Turn True (scoredHash lake identity) (fun key => ∃ owner, (scoredHash lake owner key).isSome)
      std (activeVerdict lake identity) identity lake where
  active _ _ := rfl
  found _ _ := rfl
  unfound key hunfound := by
    rw [← Option.not_isSome_iff_eq_none]
    exact fun hsome => hunfound ⟨hsome, .inl trivial⟩
  departed key _ := by rw [true_and]

omit [LinearOrder S] [DecidableEq H] in
theorem Turn.nothing_iff (hturn : Turn leads ledger known std scores member.identity lake) :
    scoredRows member.identity lake = 0 ↔ ∀ key, ¬ Found leads ledger std key := by
  rw [scoredRows_eq_zero_iff]
  constructor
  · intro hnone key hfound
    have hsome := hfound.1
    rw [← hturn.found key hfound, hnone key] at hsome
    cases hsome
  · intro hnone key
    exact hturn.unfound key (hnone key)

omit [LinearOrder S] in
theorem Turn.mem_deltaStd_iff (hturn : Turn leads ledger known std scores member.identity lake) :
    key ∈ deltaStd member.identity segment std lake ↔ Changed segment ledger std key := by
  simp only [BTreeMap.mem_iff_exists_getElem?, getElem?_deltaStd, Changed]
  apply exists_congr
  intro record
  apply and_congr_right
  intro hrecord
  have hkey : key ∈ std := BTreeMap.mem_iff_exists_getElem?.mpr ⟨record, hrecord⟩
  by_cases hlisted : (ledger key).isSome
  · rw [hturn.found key ⟨hlisted, .inr hkey⟩]
  · rw [hturn.unfound key (fun hfound => hlisted hfound.1),
      Option.not_isSome_iff_eq_none.mp hlisted]

omit [LinearOrder S] in
theorem Turn.mem_supersededKeys_iff
    (hturn : Turn leads ledger known std scores member.identity lake) :
    key ∈ supersededKeys member.identity segment std lake ↔
      Changed segment ledger std key ∨ Departed leads known std key := by
  rw [mem_supersededKeys, hturn.mem_deltaStd_iff]
  apply or_congr_right
  apply and_congr_right
  exact hturn.departed key

theorem activeVerdict_partial_self (hlive : member.identity ∈ live)
    (hscored : scoredRows member.identity lake ≠ 0) :
    activeVerdict (commit lake (runMatchPartial member live reviewLow stamp segment std lake))
      member.identity a b = partialScores member reviewLow segment std lake a b := by
  have hview := congrArg ModelView.active (viewOf_commit lake
    (runMatchPartial member live reviewLow stamp segment std lake) member.identity)
  rw [view_partial_self hlive hscored] at hview
  exact congrFun (congrFun hview a) b

/-- A pair that is scored again gets the member's own verdict. -/
theorem Turn.rescored (hturn : Turn leads ledger known std scores member.identity lake)
    (hsymmetric : SideSymmetric member) (hlive : member.identity ∈ live)
    (hrescored : Rescored leads segment ledger known std a b) :
    activeVerdict (commit lake (runMatchPartial member live reviewLow stamp segment std lake))
      member.identity a b = memberScores member reviewLow std a b := by
  by_cases hscored : scoredRows member.identity lake = 0
  · rw [runMatchPartial, if_pos hscored, commit_append, activeVerdict_scoreMemberFull,
      stagedVerdict_cascade hsymmetric]
    rfl
  · have hstale := hrescored.resolve_left (hturn.nothing_iff.not.mp hscored)
    rw [← hturn.mem_supersededKeys_iff, ← hturn.mem_supersededKeys_iff] at hstale
    rw [activeVerdict_partial_self hlive hscored, partialScores_of_superseded hstale]
    by_cases htouches : a ∈ deltaStd member.identity segment std lake ∨
        b ∈ deltaStd member.identity segment std lake
    · exact stagedVerdict_eq_memberScores fun rowOf hversioned =>
        stagedVerdict_partialPass hsymmetric hversioned htouches
    · -- An end has left the corpus, so there is nothing to score.
      obtain ⟨ha, hb⟩ := not_or.mp htouches
      rw [stagedVerdict_of_untouched ha hb, memberScores_eq_none_of_not_mem]
      apply hstale.imp
      · exact fun hstale => ((mem_supersededKeys.mp hstale).resolve_left ha).1
      · exact fun hstale => ((mem_supersededKeys.mp hstale).resolve_left hb).1

/-- Any other pair keeps what the lake says. -/
theorem Turn.kept (hturn : Turn leads ledger known std scores member.identity lake)
    (hlive : member.identity ∈ live) (hkept : ¬ Rescored leads segment ledger known std a b) :
    activeVerdict (commit lake (runMatchPartial member live reviewLow stamp segment std lake))
      member.identity a b = scores a b := by
  obtain ⟨hsome, hstale⟩ := not_or.mp hkept
  obtain ⟨ha, hb⟩ := not_or.mp hstale
  rw [activeVerdict_partial_self hlive (hturn.nothing_iff.not.mpr hsome), ← hturn.active]
  exact partialScores_of_kept (hturn.mem_supersededKeys_iff.not.mpr ha)
    (hturn.mem_supersededKeys_iff.not.mpr hb)

/-- A member whose turn is still to come finds less in the ledger after another's pass. -/
theorem Turn.next {first : EnsembleMember Row S E I}
    (hturn : Turn leads ledger known std scores member.identity lake)
    (hother : member.identity ≠ first.identity) (hfirst : first.identity ∈ live)
    (hlive : member.identity ∈ live) :
    Turn False ledger known std scores member.identity
      (commit lake (runMatchPartial first live reviewLow stamp segment std lake)) := by
  have hview : viewOf (commit lake (runMatchPartial first live reviewLow stamp segment std lake))
      member.identity = (viewOf lake member.identity).restrict std := by
    rw [viewOf_commit, view_partial_other hother hlive]
  have hscored (key : K) : scoredHash (commit lake
      (runMatchPartial first live reviewLow stamp segment std lake)) member.identity key =
        if key ∈ std then scoredHash lake member.identity key else none :=
    congrFun (congrArg ModelView.scored hview) key
  apply Turn.mk
  · intro a b
    rw [← hturn.active]
    exact congrFun (congrFun (congrArg ModelView.active hview) a) b
  · intro key hfound
    have hkey := hfound.2.resolve_left id
    rw [hscored, if_pos hkey, hturn.found key ⟨hfound.1, .inr hkey⟩]
  · intro key hunfound
    rw [hscored]
    split
    · rename_i hkey
      exact hturn.unfound key fun hfound => hunfound ⟨hfound.1, .inr hkey⟩
    · rfl
  · intro key hkey
    apply iff_of_false
    · exact fun hsome => hkey (pruned_partialPass hfirst _ key hsome.choose_spec)
    · exact fun hfalse => hfalse.1

/-- A live model whose turn is over keeps its view. -/
theorem viewOf_partialMembers_other {members : List (EnsembleMember Row S E I)}
    (hlive : member.identity ∈ live)
    (hother : member.identity ∉ members.map EnsembleMember.identity)
    (hlisted : (viewOf lake member.identity).scored = contentHash std) :
    viewOf (commit lake (partialMembers live reviewLow stamp segment std members lake))
      member.identity = viewOf lake member.identity := by
  induction members generalizing lake with
  | nil => rfl
  | cons first members ih =>
      rw [List.map_cons, List.mem_cons, not_or] at hother
      have hview : viewOf (commit lake
          (runMatchPartial first live reviewLow stamp segment std lake)) member.identity =
            viewOf lake member.identity := by
        rw [viewOf_commit, view_partial_other hother.1 hlive]
        ext1
        · rfl
        · funext key
          change (if key ∈ std then (viewOf lake member.identity).scored key else none) = _
          rw [hlisted, restrict_contentHash]
      rw [partialMembers, commit_append, ih hother.2 (by rw [hview, hlisted]), hview]

/-- Whether a member leaves given scores: those of a pair it scores again are its own verdict,
and the others are what it met. -/
def Settles (leads : Prop) (segment : Option (Row → Option Bool)) (ledger : K → Option H)
    (known : K → Prop) (std : Corpus K H Row) (member : EnsembleMember Row S E I) (reviewLow : S)
    (scores later : K → K → Option (Verdict H S)) : Prop :=
  ∀ a b,
    (Rescored leads segment ledger known std a b →
      memberScores member reviewLow std a b = later a b) ∧
    (¬ Rescored leads segment ledger known std a b → scores a b = later a b)

theorem Turn.settles_iff (hturn : Turn leads ledger known std scores member.identity lake)
    (hsymmetric : SideSymmetric member) (hlive : member.identity ∈ live)
    {later : K → K → Option (Verdict H S)} :
    (∀ a b, activeVerdict (commit lake
        (runMatchPartial member live reviewLow stamp segment std lake)) member.identity a b =
          later a b) ↔
      Settles leads segment ledger known std member reviewLow scores later := by
  apply forall₂_congr
  intro a b
  by_cases hrescored : Rescored leads segment ledger known std a b
  · rw [hturn.rescored hsymmetric hlive hrescored]
    simp [hrescored]
  · rw [hturn.kept hlive hrescored]
    simp [hrescored]

theorem settles_cons {first : EnsembleMember Row S E I} {members : List (EnsembleMember Row S E I)}
    {later : I → K → K → Option (Verdict H S)}
    (hfresh : first.identity ∉ members.map EnsembleMember.identity)
    (hlive : first.identity ∈ live) (hsymmetric : SideSymmetric first)
    (hturn : Turn leads ledger known std scores first.identity lake) :
    (∀ member ∈ first :: members, ∀ a b, activeVerdict (commit lake
        (partialMembers live reviewLow stamp segment std (first :: members) lake))
          member.identity a b = later member.identity a b) ↔
      Settles leads segment ledger known std first reviewLow scores (later first.identity) ∧
        ∀ member ∈ members, ∀ a b, activeVerdict (commit (commit lake
          (runMatchPartial first live reviewLow stamp segment std lake))
            (partialMembers live reviewLow stamp segment std members (commit lake
              (runMatchPartial first live reviewLow stamp segment std lake))))
                member.identity a b = later member.identity a b := by
  have hview : viewOf (commit (commit lake
      (runMatchPartial first live reviewLow stamp segment std lake))
        (partialMembers live reviewLow stamp segment std members (commit lake
          (runMatchPartial first live reviewLow stamp segment std lake)))) first.identity =
      viewOf (commit lake
        (runMatchPartial first live reviewLow stamp segment std lake)) first.identity :=
    viewOf_partialMembers_other hlive hfresh (scored_partial_self hlive)
  rw [partialMembers, commit_append, List.forall_mem_cons, ← hturn.settles_iff hsymmetric hlive]
  apply and_congr_left
  intro _
  apply forall₂_congr
  intro a b
  apply Eq.congr_left
  exact congrFun (congrFun (congrArg ModelView.active hview) a) b

/-- The turns of the members after the first. -/
theorem Turn.tail {first : EnsembleMember Row S E I} {members : List (EnsembleMember Row S E I)}
    {ledgers : I → K → Option H} {tables : I → K → K → Option (Verdict H S)}
    (hfresh : first.identity ∉ members.map EnsembleMember.identity)
    (hfirst : first.identity ∈ live) (hlive : ∀ member ∈ members, member.identity ∈ live)
    (hturns : ∀ member ∈ members, Turn leads (ledgers member.identity) known std
      (tables member.identity) member.identity lake) :
    ∀ member ∈ members, Turn False (ledgers member.identity) known std (tables member.identity)
      member.identity (commit lake
        (runMatchPartial first live reviewLow stamp segment std lake)) := by
  intro member hmember
  apply (hturns member hmember).next _ hfirst (hlive member hmember)
  exact ne_of_mem_of_not_mem (List.mem_map_of_mem hmember) hfresh

/-- Members that go after another leave exactly the scores that each of them settles. -/
theorem settles_partialMembers {members : List (EnsembleMember Row S E I)}
    {ledgers : I → K → Option H} {tables later : I → K → K → Option (Verdict H S)}
    (hdistinct : (members.map EnsembleMember.identity).Nodup)
    (hlive : ∀ member ∈ members, member.identity ∈ live)
    (hsymmetric : ∀ member ∈ members, SideSymmetric member)
    (hturns : ∀ member ∈ members, Turn False (ledgers member.identity) known std
      (tables member.identity) member.identity lake) :
    (∀ member ∈ members, ∀ a b, activeVerdict (commit lake
        (partialMembers live reviewLow stamp segment std members lake)) member.identity a b =
          later member.identity a b) ↔
      ∀ member ∈ members, Settles False segment (ledgers member.identity) known std member reviewLow
        (tables member.identity) (later member.identity) := by
  induction members generalizing lake with
  | nil => simp
  | cons first members ih =>
      rw [List.map_cons, List.nodup_cons] at hdistinct
      rw [List.forall_mem_cons] at hlive hsymmetric hturns
      rw [settles_cons hdistinct.1 hlive.1 hsymmetric.1 hturns.1, List.forall_mem_cons,
        ih hdistinct.2 hlive.2 hsymmetric.2 (Turn.tail hdistinct.1 hlive.1 hlive.2 hturns.2)]

variable (stamp) in
/-- The members of an incremental pass leave exactly the scores that each of them settles; the
first finds more in the ledger than the others. -/
theorem settles_incremental {members : List (EnsembleMember Row S E I)}
    (ledgers : I → K → Option H) (tables later : I → K → K → Option (Verdict H S))
    (hdistinct : (members.map EnsembleMember.identity).Nodup)
    (hlive : ∀ member ∈ members, member.identity ∈ live)
    (hsymmetric : ∀ member ∈ members, SideSymmetric member)
    (hturns : ∀ member ∈ members, Turn True (ledgers member.identity) known std
      (tables member.identity) member.identity lake) :
    (∀ member ∈ members, ∀ a b, activeVerdict (commit lake
        (partialMembers live reviewLow stamp segment std members lake)) member.identity a b =
          later member.identity a b) ↔
      (∀ member ∈ members.head?, Settles True segment (ledgers member.identity) known std member
        reviewLow (tables member.identity) (later member.identity)) ∧
      ∀ member ∈ members.tail, Settles False segment (ledgers member.identity) known std member
        reviewLow (tables member.identity) (later member.identity) := by
  cases members with
  | nil => simp
  | cons first members =>
      rw [List.map_cons, List.nodup_cons] at hdistinct
      rw [List.forall_mem_cons] at hlive hsymmetric hturns
      rw [settles_cons hdistinct.1 hlive.1 hsymmetric.1 hturns.1,
        settles_partialMembers hdistinct.2 hlive.2 hsymmetric.2
          (Turn.tail hdistinct.1 hlive.1 hlive.2 hturns.2)]
      simp

/-- The ledger of every member lists the corpus once all members are through. -/
theorem scored_partialMembers {members : List (EnsembleMember Row S E I)}
    (hdistinct : (members.map EnsembleMember.identity).Nodup)
    (hlive : ∀ member ∈ members, member.identity ∈ live) (lake : Lake K H S E I) :
    ∀ member ∈ members, (viewOf (commit lake
      (partialMembers live reviewLow stamp segment std members lake)) member.identity).scored =
        contentHash std := by
  induction members generalizing lake with
  | nil => simp
  | cons first members ih =>
      rw [List.map_cons, List.nodup_cons] at hdistinct
      rw [List.forall_mem_cons] at hlive ⊢
      rw [partialMembers, commit_append]
      constructor
      · rw [viewOf_partialMembers_other hlive.1 hdistinct.1 (scored_partial_self hlive.1),
          scored_partial_self hlive.1]
      · exact ih hdistinct.2 hlive.2 _

end Turns

/-! ## One incremental pass of an ensemble -/

section Step

variable [DecidableEq H] {config : Config S} {ensemble : Ensemble Row S E I} {reviewLow : S}
  {stamp : RunStamp} {segment : Option (Row → Option Bool)} {before std : Corpus K H Row}
  {lake : Lake K H S E I}

/-- An incremental pass has nothing to miss between two corpora: for every member, a pair that
it scores again is one that no cascade skips, and a pair that it keeps has the same full score
in both. -/
def Undisturbed (config : Config S) (ensemble : Ensemble Row S E I) (reviewLow : S)
    (segment : Option (Row → Option Bool)) (before std : Corpus K H Row) : Prop :=
  (∀ member ∈ ensemble.members.head?,
    Settles True segment (contentHash before) (· ∈ before) std member reviewLow
      (fullScores config ensemble.members reviewLow before member.identity)
      (fullScores config ensemble.members reviewLow std member.identity)) ∧
  ∀ member ∈ ensemble.members.tail,
    Settles False segment (contentHash before) (· ∈ before) std member reviewLow
      (fullScores config ensemble.members reviewLow before member.identity)
      (fullScores config ensemble.members reviewLow std member.identity)

/-- The lake is as a full pass over a corpus leaves it. -/
def Settled (config : Config S) (ensemble : Ensemble Row S E I) (reviewLow : S)
    (std : Corpus K H Row) (lake : Lake K H S E I) : Prop :=
  ∀ identity, viewOf lake identity = settledView config ensemble reviewLow std identity

omit [LinearOrder S] [DecidableEq H] in
theorem viewOf_fresh (identity : I) :
    viewOf (Lake.fresh : Lake K H S E I) identity = .nothing := by
  ext1
  · funext a b
    change activeVerdict (Lake.fresh : Lake K H S E I) identity a b = none
    rw [activeVerdict_fresh]
  · funext key
    change scoredHash (Lake.fresh : Lake K H S E I) identity key = none
    rw [scoredHash_fresh]

omit [DecidableEq H] in
/-- Before the first pass the lake is as a full pass over no records leaves it. -/
theorem settled_fresh : Settled config ensemble reviewLow (∅ : Corpus K H Row) Lake.fresh := by
  intro identity
  have hempty (key : K) : key ∉ (∅ : Corpus K H Row) := Std.ExtTreeMap.not_mem_empty
  rw [viewOf_fresh, settledView]
  split
  · ext1
    · funext a b
      exact (fullScores_of_not_mem (.inl (hempty a))).symm
    · funext key
      exact (contentHash_eq_none.mpr (hempty key)).symm
  · rfl

omit [DecidableEq H] in
theorem settledView_mem {member : EnsembleMember Row S E I} (hmember : member ∈ ensemble.members) :
    settledView config ensemble reviewLow std member.identity =
      ⟨fullScores config ensemble.members reviewLow std member.identity, contentHash std⟩ :=
  if_pos (List.mem_map_of_mem hmember)

omit [DecidableEq H] in
/-- In a settled lake the ledger lists the corpus before, and nothing else. -/
theorem turn_of_settled (hsettled : Settled config ensemble reviewLow before lake)
    {member : EnsembleMember Row S E I} (hmember : member ∈ ensemble.members) :
    Turn True (contentHash before) (· ∈ before) std
      (fullScores config ensemble.members reviewLow before member.identity) member.identity
      lake := by
  have hview := (hsettled member.identity).trans (settledView_mem hmember)
  have hactive : activeVerdict lake member.identity =
      fullScores config ensemble.members reviewLow before member.identity :=
    congrArg ModelView.active hview
  have hscored : scoredHash lake member.identity = contentHash before :=
    congrArg ModelView.scored hview
  have hknown (key : K) : (∃ owner, (scoredHash lake owner key).isSome) ↔ key ∈ before := by
    constructor
    · intro h
      obtain ⟨owner, hsome⟩ := h
      change ((viewOf lake owner).scored key).isSome at hsome
      rw [hsettled owner, settledView] at hsome
      split at hsome
      · exact contentHash_isSome.mp hsome
      · cases hsome
    · intro hkey
      refine ⟨member.identity, ?_⟩
      rw [hscored]
      exact contentHash_isSome.mpr hkey
  have hturn := turn_first member.identity std lake
  simp only [hknown, hactive, hscored] at hturn
  exact hturn

/-- A model that is no member has nothing after an incremental pass. -/
theorem viewOf_incremental_dead {identity : I} (hdead : identity ∉ ensemble.live) :
    viewOf (commit lake (runMatchEnsembleIncremental ensemble.members reviewLow stamp segment std
      lake)) identity = .nothing := by
  have hlive : ∀ member ∈ ensemble.members, member.identity ∈ ensemble.live :=
    fun member hmember => List.mem_map_of_mem hmember
  obtain ⟨first, rest, hcons⟩ := List.exists_cons_of_ne_nil ensemble.nonempty
  rw [runMatchEnsembleIncremental, ← Ensemble.live]
  rw [hcons] at hlive ⊢
  exact nothing_incremental hlive hdead

/-- An incremental pass over a settled lake leaves the full scores of its corpus exactly when
the change of the corpus left it nothing to miss. -/
theorem active_incremental_iff (hsymmetric : ∀ member ∈ ensemble.members, SideSymmetric member)
    (hsettled : Settled config ensemble reviewLow before lake) :
    (∀ identity a b, activeVerdict (commit lake (runMatchEnsembleIncremental ensemble.members
        reviewLow stamp segment std lake)) identity a b =
          (settledView config ensemble reviewLow std identity).active a b) ↔
      Undisturbed config ensemble reviewLow segment before std := by
  have hturns : ∀ member ∈ ensemble.members, Turn True (contentHash before) (· ∈ before) std
      (fullScores config ensemble.members reviewLow before member.identity) member.identity lake :=
    fun member hmember => turn_of_settled hsettled hmember
  have hlive : ∀ member ∈ ensemble.members, member.identity ∈ ensemble.live :=
    fun member hmember => List.mem_map_of_mem hmember
  refine Iff.trans ?_ (settles_incremental stamp (fun _ => contentHash before)
    (fullScores config ensemble.members reviewLow before)
    (fullScores config ensemble.members reviewLow std) ensemble.distinct hlive hsymmetric hturns)
  constructor
  · intro hall member hmember a b
    exact (hall member.identity a b).trans
      (congrFun (congrFun (congrArg ModelView.active (settledView_mem hmember)) a) b)
  · intro hmembers identity a b
    by_cases hidentity : identity ∈ ensemble.live
    · obtain ⟨member, hmember, rfl⟩ := List.mem_map.mp hidentity
      rw [settledView_mem hmember]
      exact hmembers member hmember a b
    · rw [settledView, if_neg hidentity]
      exact congrFun (congrFun (congrArg ModelView.active (viewOf_incremental_dead hidentity)) a) b

/-- An incremental pass that left the full scores left the lake settled. -/
theorem settled_incremental
    (hactive : ∀ identity a b, activeVerdict (commit lake (runMatchEnsembleIncremental
      ensemble.members reviewLow stamp segment std lake)) identity a b =
        (settledView config ensemble reviewLow std identity).active a b) :
    Settled config ensemble reviewLow std (commit lake (runMatchEnsembleIncremental
      ensemble.members reviewLow stamp segment std lake)) := by
  intro identity
  by_cases hidentity : identity ∈ ensemble.live
  · obtain ⟨member, hmember, rfl⟩ := List.mem_map.mp hidentity
    ext1
    · funext a b
      exact hactive member.identity a b
    · rw [settledView_mem hmember]
      exact scored_partialMembers ensemble.distinct
        (fun member hmember => List.mem_map_of_mem hmember) lake member hmember
  · rw [viewOf_incremental_dead hidentity, settledView, if_neg hidentity]

omit [DecidableEq H] in
theorem fullScores_single {member : EnsembleMember Row S E I} {a b : K} :
    fullScores config [member] reviewLow std member.identity a b =
      memberScores member reviewLow std a b := by
  obtain ⟨threshold, hthreshold⟩ :=
    List.length_eq_one_iff.mp (length_memberThresholds config [member])
  simp [fullScores, hthreshold, cascadeScores, cascadedScore]

omit [DecidableEq H] in
/-- With one member an incremental pass has nothing to miss when every record whose content hash
stayed has the row that it had. -/
theorem undisturbed_of_same_rows {member : EnsembleMember Row S E I}
    (hone : ensemble.members = [member])
    (hrows : ∀ key ∈ std, ¬ Changed segment (contentHash before) std key →
      before[key]? = std[key]?) :
    Undisturbed config ensemble reviewLow segment before std := by
  have hsame (key : K) (hkept : ¬ (Changed segment (contentHash before) std key ∨
      Departed True (· ∈ before) std key)) : before[key]? = std[key]? := by
    obtain ⟨hchanged, hdeparted⟩ := not_or.mp hkept
    by_cases hkey : key ∈ std
    · exact hrows key hkey hchanged
    · have hbefore : key ∉ before := fun hbefore => hdeparted ⟨hkey, trivial, hbefore⟩
      rw [Std.ExtTreeMap.getElem?_eq_none hkey, Std.ExtTreeMap.getElem?_eq_none hbefore]
  rw [Undisturbed, hone, List.head?_cons, List.tail_cons]
  constructor
  · intro other hother a b
    cases hother
    rw [fullScores_single, fullScores_single]
    refine ⟨fun _ => rfl, fun hkept => ?_⟩
    obtain ⟨-, hends⟩ := not_or.mp hkept
    obtain ⟨ha, hb⟩ := not_or.mp hends
    rw [memberScores, memberScores, hsame a ha, hsame b hb]
  · intro other hother
    cases hother

end Step

end EntityResolution.Match
