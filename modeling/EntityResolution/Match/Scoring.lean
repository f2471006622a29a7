/-
# What a corpus should score

The scores a model gives a corpus are a pair view of the corpus's content hashes: the
content hash of a record fixes its standardized row, and the model scores rows. This is
the abstract side of the match stage, the table every pass is meant to leave.

The second half compares with it what the passes stage for the merge. A full pass stages
the whole view, a partial pass the part of it that touches the delta.
-/

import EntityResolution.Foundations.PairView
import EntityResolution.Match.StatementSpec

namespace EntityResolution.Match

open EntityResolution.Collections EntityResolution.Tables EntityResolution.PairView

universe u v w x y z

variable {K : Type u} {H : Type v} {Row : Type w} {S : Type x} {E : Type y} {I : Type z}
variable [LinearOrder K] [LinearOrder S]

/-- A model that does not look at which record is on which side. -/
structure SideSymmetric (member : EnsembleMember Row S E I) : Prop where
  candidate : ∀ l r, member.candidate l r = member.candidate r l
  score : ∀ l r, member.score l r = member.score r l

/-- The standardized row of every record is the one its content hash stands for. -/
def Versioned (rowOf : K → H → Row) (std : Corpus K H Row) : Prop :=
  ∀ (key : K) (record : StdRecord H Row), std[key]? = some record →
    record.row = rowOf key record.contentHash

/-- The verdict on one pair of contents: the score of a candidate pair in canonical order,
at or above `review_low`. -/
def expectedCell (member : EnsembleMember Row S E I) (rowOf : K → H → Row) (reviewLow : S)
    (a b : K) (left right : H) : Option (Verdict H S) :=
  if a < b ∧ member.candidate (rowOf a left) (rowOf b right) = true ∧
      reviewLow ≤ member.score (rowOf a left) (rowOf b right) then
    some ⟨member.score (rowOf a left) (rowOf b right), left, right⟩
  else none

/-- The verdicts a model gives a set of record contents. -/
def expected (member : EnsembleMember Row S E I) (rowOf : K → H → Row) (reviewLow : S)
    (contents : K → Option H) (a b : K) : Option (Verdict H S) :=
  pairView (expectedCell member rowOf reviewLow) contents a b

section Expected

variable {member : EnsembleMember Row S E I} {rowOf : K → H → Row} {reviewLow : S}
  {std : Corpus K H Row} {a b : K} {verdict : Verdict H S}

theorem expected_eq_some_iff (hversioned : Versioned rowOf std) :
    expected member rowOf reviewLow (contentHash std) a b = some verdict ↔
      ∃ ra rb, std[a]? = some ra ∧ std[b]? = some rb ∧ a < b ∧
        member.candidate ra.row rb.row = true ∧ reviewLow ≤ member.score ra.row rb.row ∧
        verdict = ⟨member.score ra.row rb.row, ra.contentHash, rb.contentHash⟩ := by
  rw [expected, pairView_eq_some_iff]
  apply Iff.intro
  · rintro ⟨left, right, hleft, hright, hcell⟩
    obtain ⟨ra, hra, rfl⟩ := Option.map_eq_some_iff.mp hleft
    obtain ⟨rb, hrb, rfl⟩ := Option.map_eq_some_iff.mp hright
    rw [expectedCell, ← hversioned a ra hra, ← hversioned b rb hrb,
      Option.ite_none_right_eq_some] at hcell
    obtain ⟨⟨hlt, hcandidate, hscore⟩, hverdict⟩ := hcell
    exact ⟨ra, rb, hra, hrb, hlt, hcandidate, hscore, (Option.some.inj hverdict).symm⟩
  · rintro ⟨ra, rb, hra, hrb, hlt, hcandidate, hscore, rfl⟩
    refine ⟨ra.contentHash, rb.contentHash, by simp [contentHash, hra], by simp [contentHash, hrb],
      ?_⟩
    rw [expectedCell, ← hversioned a ra hra, ← hversioned b rb hrb]
    exact if_pos ⟨hlt, hcandidate, hscore⟩

end Expected

variable [LinearOrder I]

/-- The verdict staged for a pair, if any. -/
def stagedVerdict (identity : I) (reviewLow : S) (std : Corpus K H Row)
    (tables : List (List (Prediction K S E))) (a b : K) : Option (Verdict H S) :=
  (stageScores identity reviewLow std tables)[(⟨a, b, identity⟩ : ScoreKey K I)]?.map
    StagedScore.verdict

/-- A pair is covered when some prediction is about it, on either side. -/
def Covered (tables : List (List (Prediction K S E))) (a b : K) : Prop :=
  ∃ prediction ∈ tables.flatten,
    min prediction.uidL prediction.uidR = a ∧ max prediction.uidL prediction.uidR = b

section Staged

variable {member : EnsembleMember Row S E I} {rowOf : K → H → Row} {identity : I}
  {reviewLow : S} {std : Corpus K H Row} {tables : List (List (Prediction K S E))} {a b : K}

omit [LinearOrder I] in
theorem mem_rawScores {prediction : Prediction K S E} :
    prediction ∈ rawScores reviewLow tables ↔
      prediction ∈ tables.flatten ∧ prediction.uidL ≠ prediction.uidR ∧
        reviewLow ≤ prediction.matchProbability := by
  rw [rawScores, List.mem_filter, Bool.and_eq_true, decide_eq_true_iff, decide_eq_true_iff]

theorem getElem?_stageScores {key : ScoreKey K I} {staged : StagedScore H S E}
    (hstaged : (stageScores identity reviewLow std tables)[key]? = some staged) :
    ∃ prediction ∈ tables.flatten, ∃ ra rb,
      prediction.uidL ≠ prediction.uidR ∧ reviewLow ≤ prediction.matchProbability ∧
      prediction.scoreKey identity = key ∧
      std[key.recAKey]? = some ra ∧ std[key.recBKey]? = some rb ∧
      staged.verdict = ⟨prediction.matchProbability, ra.contentHash, rb.contentHash⟩ := by
  rw [stageScores, BTreeMap.getElem?_filterMap_eq, Option.bind_eq_some_iff] at hstaged
  obtain ⟨prediction, hkept, hjoin⟩ := hstaged
  obtain ⟨ra, hra, hrest⟩ := Option.bind_eq_some_iff.mp hjoin
  obtain ⟨rb, hrb, rfl⟩ := Option.map_eq_some_iff.mp hrest
  obtain ⟨hraw, hkey⟩ := distinctOn_sound hkept
  obtain ⟨hmem, hne, hlow⟩ := mem_rawScores.mp hraw
  exact ⟨prediction, hmem, ra, rb, hne, hlow, hkey, hra, hrb, rfl⟩

theorem getElem?_stageScores_of_ne {identity' : I} (hidentity : identity' ≠ identity) :
    (stageScores identity reviewLow std tables)[(⟨a, b, identity'⟩ : ScoreKey K I)]? = none := by
  cases hstaged :
      (stageScores identity reviewLow std tables)[(⟨a, b, identity'⟩ : ScoreKey K I)]? with
  | none => rfl
  | some staged =>
      obtain ⟨_, _, _, _, _, _, hkey, _⟩ := getElem?_stageScores hstaged
      exact absurd (congrArg ScoreKey.identity hkey).symm hidentity

/-- A staged pair lies in the corpus and is covered by the predictions. -/
theorem stagedVerdict_spec {verdict : Verdict H S}
    (hstaged : stagedVerdict identity reviewLow std tables a b = some verdict) :
    a ∈ std ∧ b ∈ std ∧ Covered tables a b := by
  obtain ⟨staged, hrow, _⟩ := Option.map_eq_some_iff.mp hstaged
  obtain ⟨prediction, hmem, ra, rb, _, _, hkey, hra, hrb, _⟩ := getElem?_stageScores hrow
  exact ⟨BTreeMap.mem_iff_exists_getElem?.mpr ⟨ra, hra⟩,
    BTreeMap.mem_iff_exists_getElem?.mpr ⟨rb, hrb⟩, prediction, hmem,
    congrArg ScoreKey.recAKey hkey, congrArg ScoreKey.recBKey hkey⟩

/-- Predictions that score candidate pairs of the corpus. -/
def ScoresCandidates (member : EnsembleMember Row S E I) (std : Corpus K H Row)
    (tables : List (List (Prediction K S E))) : Prop :=
  ∀ prediction ∈ tables.flatten, ∃ l r, std[prediction.uidL]? = some l ∧
    std[prediction.uidR]? = some r ∧ member.candidate l.row r.row = true ∧
    prediction.matchProbability = member.score l.row r.row

omit [LinearOrder S] [LinearOrder I] in
/-- What a prediction says about its canonical pair does not depend on its sides. -/
theorem ScoresCandidates.canonical (hsound : ScoresCandidates member std tables)
    (hsymmetric : SideSymmetric member) {prediction : Prediction K S E}
    (hmem : prediction ∈ tables.flatten) :
    ∃ ra rb, std[min prediction.uidL prediction.uidR]? = some ra ∧
      std[max prediction.uidL prediction.uidR]? = some rb ∧
      member.candidate ra.row rb.row = true ∧
      prediction.matchProbability = member.score ra.row rb.row := by
  obtain ⟨l, r, hl, hr, hcandidate, hscore⟩ := hsound prediction hmem
  rcases le_total prediction.uidL prediction.uidR with hle | hle
  · rw [min_eq_left hle, max_eq_right hle]
    exact ⟨l, r, hl, hr, hcandidate, hscore⟩
  · rw [min_eq_right hle, max_eq_left hle]
    refine ⟨r, l, hr, hl, ?_, ?_⟩
    · rw [hsymmetric.candidate, hcandidate]
    · rw [hsymmetric.score, hscore]

/-- A staged verdict is the expected one. -/
theorem expected_of_staged (hsymmetric : SideSymmetric member) (hversioned : Versioned rowOf std)
    (hsound : ScoresCandidates member std tables) {verdict : Verdict H S}
    (hstaged : stagedVerdict identity reviewLow std tables a b = some verdict) :
    expected member rowOf reviewLow (contentHash std) a b = some verdict := by
  obtain ⟨staged, hrow, rfl⟩ := Option.map_eq_some_iff.mp hstaged
  rcases getElem?_stageScores hrow with
    ⟨prediction, hmem, ra, rb, hne, hlow, hkey, hra, hrb, hverdict⟩
  have ha : min prediction.uidL prediction.uidR = a := congrArg ScoreKey.recAKey hkey
  have hb : max prediction.uidL prediction.uidR = b := congrArg ScoreKey.recBKey hkey
  obtain ⟨ra', rb', hra', hrb', hcandidate, hscore⟩ := hsound.canonical hsymmetric hmem
  rw [ha, hra] at hra'
  rw [hb, hrb] at hrb'
  cases hra'
  cases hrb'
  rw [expected_eq_some_iff hversioned]
  refine ⟨ra, rb, hra, hrb, ?_, hcandidate, hscore ▸ hlow, by rw [hverdict, hscore]⟩
  rw [← ha, ← hb]
  exact min_lt_max.mpr hne

theorem stagedVerdict_eq (hsymmetric : SideSymmetric member) (hversioned : Versioned rowOf std)
    (hsound : ScoresCandidates member std tables)
    (hcovered : ∀ ra rb, std[a]? = some ra → std[b]? = some rb → a < b →
      member.candidate ra.row rb.row = true → Covered tables a b) :
    stagedVerdict identity reviewLow std tables a b =
      expected member rowOf reviewLow (contentHash std) a b := by
  cases hexpected : expected member rowOf reviewLow (contentHash std) a b with
  | none =>
      cases hstaged : stagedVerdict identity reviewLow std tables a b with
      | none => rfl
      | some verdict =>
          rw [expected_of_staged hsymmetric hversioned hsound hstaged] at hexpected
          cases hexpected
  | some verdict =>
      rcases (expected_eq_some_iff hversioned).mp hexpected with
        ⟨ra, rb, hra, hrb, hlt, hcandidate, hlow, rfl⟩
      obtain ⟨prediction, hmem, ha, hb⟩ := hcovered ra rb hra hrb hlt hcandidate
      obtain ⟨ra', rb', hra', hrb', _, hscore⟩ := hsound.canonical hsymmetric hmem
      rw [ha, hra] at hra'
      rw [hb, hrb] at hrb'
      cases hra'
      cases hrb'
      -- the prediction passes the filter, so its pair is staged with some verdict
      have hne : prediction.uidL ≠ prediction.uidR := by
        rw [← min_lt_max, ha, hb]
        exact hlt
      have hraw : prediction ∈ rawScores reviewLow tables :=
        mem_rawScores.mpr ⟨hmem, hne, hscore ▸ hlow⟩
      obtain ⟨kept, hkept⟩ : ∃ kept, (distinctOn (Prediction.scoreKey identity)
          Prediction.matchProbability (rawScores reviewLow tables))[prediction.scoreKey identity]? =
            some kept :=
        distinctOn_complete hraw
      rw [show prediction.scoreKey identity = ⟨a, b, identity⟩ by
        rw [Prediction.scoreKey, ha, hb]] at hkept
      have hsome : ∃ found, stagedVerdict identity reviewLow std tables a b = some found := by
        rw [stagedVerdict, stageScores, BTreeMap.getElem?_filterMap_eq, hkept]
        simp [hra, hrb]
      obtain ⟨found, hfound⟩ := hsome
      rw [hfound, ← expected_of_staged hsymmetric hversioned hsound hfound, hexpected]

end Staged

section Coverage

variable {member : EnsembleMember Row S E I} {rowOf : K → H → Row} {identity : I}
  {reviewLow : S} {std left right : Corpus K H Row} {a b : K} {prediction : Prediction K S E}

omit [LinearOrder S] [LinearOrder I] in
theorem mem_predictWithin :
    prediction ∈ predictWithin member std ↔
      ∃ la l ra r, std[la]? = some l ∧ std[ra]? = some r ∧ la < ra ∧
        member.candidate l.row r.row = true ∧
        predictPair member ((la, l), (ra, r)) = prediction := by
  simp only [predictWithin, blockedPairs, List.mem_map, List.mem_filter, List.mem_product,
    Bool.and_eq_true, decide_eq_true_iff, Prod.exists, BTreeMap.mem_toList, and_assoc]

omit [LinearOrder S] [LinearOrder I] in
theorem mem_predictBetween :
    prediction ∈ predictBetween member left right ↔
      ∃ la l ra r, left[la]? = some l ∧ right[ra]? = some r ∧
        member.candidate l.row r.row = true ∧
        predictPair member ((la, l), (ra, r)) = prediction := by
  simp only [predictBetween, blockedPairsCross, List.mem_map, List.mem_filter, List.mem_product,
    Prod.exists, BTreeMap.mem_toList, and_assoc]

/-- A cascade with nothing before it cuts nothing. -/
theorem predictMember_uncut {cascadeAfter : Option (List (I × S))}
    (huncut : cascadeAfter = none ∨ cascadeAfter = some []) (lake : Lake K H S E I) :
    predictMember member std lake cascadeAfter = predictWithin member std := by
  rcases huncut with rfl | rfl <;> rfl

/-- A full pass stages the expected verdicts of the corpus. -/
theorem stagedVerdict_full (hsymmetric : SideSymmetric member) (hversioned : Versioned rowOf std)
    (a b : K) :
    stagedVerdict identity reviewLow std [predictWithin member std] a b =
      expected member rowOf reviewLow (contentHash std) a b := by
  have hsound : ScoresCandidates member std [predictWithin member std] := by
    intro prediction hmem
    rw [List.flatten_singleton] at hmem
    obtain ⟨la, l, ra, r, hl, hr, _, hcandidate, rfl⟩ := mem_predictWithin.mp hmem
    exact ⟨l, r, hl, hr, hcandidate, rfl⟩
  apply stagedVerdict_eq hsymmetric hversioned hsound
  intro ra rb hra hrb hlt hcandidate
  refine ⟨predictPair member ((a, ra), (b, rb)), ?_, min_eq_left hlt.le, max_eq_right hlt.le⟩
  rw [List.flatten_singleton, mem_predictWithin]
  exact ⟨a, ra, b, rb, hra, hrb, hlt, hcandidate, rfl⟩

variable [DecidableEq H] {segment : Option (Row → Option Bool)} {lake : Lake K H S E I}

omit [LinearOrder S] in
theorem mem_partialPredictions
    (hmem : prediction ∈ (partialPredictions member segment std lake).flatten) :
    ∃ la l ra r, std[la]? = some l ∧ std[ra]? = some r ∧
      ra ∈ deltaStd member.identity segment std lake ∧ member.candidate l.row r.row = true ∧
      predictPair member ((la, l), (ra, r)) = prediction := by
  rw [partialPredictions, List.flatten_append, List.flatten_singleton, List.mem_append] at hmem
  rcases hmem with hbetween | hwithin
  · split at hbetween
    · rw [List.flatten_singleton] at hbetween
      obtain ⟨la, l, ra, r, hl, hr, hcandidate, hpair⟩ := mem_predictBetween.mp hbetween
      exact ⟨la, l, ra, r, (getElem?_keptStd.mp hl).1, (getElem?_deltaStd.mp hr).1,
        BTreeMap.mem_iff_exists_getElem?.mpr ⟨r, hr⟩, hcandidate, hpair⟩
    · cases hbetween
  · obtain ⟨la, l, ra, r, hl, hr, _, hcandidate, hpair⟩ := mem_predictWithin.mp hwithin
    exact ⟨la, l, ra, r, (getElem?_deltaStd.mp hl).1, (getElem?_deltaStd.mp hr).1,
      BTreeMap.mem_iff_exists_getElem?.mpr ⟨r, hr⟩, hcandidate, hpair⟩

omit [LinearOrder S] in
/-- A pair a partial pass covers has an end in the delta. -/
theorem touches_of_covered
    (hcovered : Covered (partialPredictions member segment std lake) a b) :
    a ∈ deltaStd member.identity segment std lake ∨
      b ∈ deltaStd member.identity segment std lake := by
  obtain ⟨prediction, hmem, ha, hb⟩ := hcovered
  obtain ⟨la, l, ra, r, _, _, hdelta, _, rfl⟩ := mem_partialPredictions hmem
  change min la ra = a at ha
  change max la ra = b at hb
  rcases le_total la ra with hle | hle
  · rw [max_eq_right hle] at hb
    exact .inr (hb ▸ hdelta)
  · rw [min_eq_right hle] at ha
    exact .inl (ha ▸ hdelta)

/-- A partial pass stages nothing between records outside the delta. -/
theorem stagedVerdict_of_untouched (ha : a ∉ deltaStd member.identity segment std lake)
    (hb : b ∉ deltaStd member.identity segment std lake) :
    stagedVerdict member.identity reviewLow std (partialPredictions member segment std lake) a b =
      none := by
  rw [Option.eq_none_iff_forall_ne_some]
  intro verdict hstaged
  rcases touches_of_covered (stagedVerdict_spec hstaged).2.2 with hdelta | hdelta
  · exact ha hdelta
  · exact hb hdelta

omit [LinearOrder S] in
theorem not_mem_deltaStd_of_kept {key : K} {record : StdRecord H Row}
    (hkept : (keptStd member.identity segment std lake)[key]? = some record) :
    key ∉ deltaStd member.identity segment std lake := by
  intro hdelta
  obtain ⟨record', hrecord'⟩ := BTreeMap.mem_iff_exists_getElem?.mp hdelta
  obtain ⟨hstd, hscored, hscope⟩ := getElem?_keptStd.mp hkept
  obtain ⟨hstd', hreason⟩ := getElem?_deltaStd.mp hrecord'
  cases hstd.symm.trans hstd'
  rcases hreason with hunscored | hin
  · exact hunscored hscored
  · rw [hscope] at hin
    cases hin

omit [LinearOrder S] in
/-- A kept record and one of the delta are scored against each other, the kept one left. -/
theorem predictPair_mem_between {k d : K} {rk rd : StdRecord H Row}
    (hkept : (keptStd member.identity segment std lake)[k]? = some rk)
    (hdelta : (deltaStd member.identity segment std lake)[d]? = some rd)
    (hcandidate : member.candidate rk.row rd.row = true) :
    predictPair member ((k, rk), (d, rd)) ∈
      (partialPredictions member segment std lake).flatten := by
  have hsize : 0 < (keptStd member.identity segment std lake).size :=
    BTreeMap.size_pos_of_getElem? hkept
  rw [partialPredictions, if_pos (Nat.lt_add_of_pos_right hsize), List.flatten_append,
    List.flatten_singleton, List.mem_append]
  exact .inl (mem_predictBetween.mpr ⟨k, rk, d, rd, hkept, hdelta, hcandidate, rfl⟩)

omit [LinearOrder S] in
/-- A candidate pair of the corpus with an end in the delta is covered: both ends in the
delta within it, otherwise between the kept records and the delta. -/
theorem covered_of_candidate (hsymmetric : SideSymmetric member) {ra rb : StdRecord H Row}
    (hra : std[a]? = some ra) (hrb : std[b]? = some rb) (hlt : a < b)
    (hcandidate : member.candidate ra.row rb.row = true)
    (htouches : a ∈ deltaStd member.identity segment std lake ∨
      b ∈ deltaStd member.identity segment std lake) :
    Covered (partialPredictions member segment std lake) a b := by
  have hwhere {key : K} {record : StdRecord H Row} (hrecord : std[key]? = some record) :
      (deltaStd member.identity segment std lake)[key]? = some record ∨
        (keptStd member.identity segment std lake)[key]? = some record :=
    mem_deltaStd_or_keptStd hrecord
  rcases hwhere hra with hda | hka
  · rcases hwhere hrb with hdb | hkb
    · refine ⟨predictPair member ((a, ra), (b, rb)), ?_, min_eq_left hlt.le, max_eq_right hlt.le⟩
      rw [partialPredictions, List.flatten_append, List.mem_append, List.flatten_singleton]
      exact .inr (mem_predictWithin.mpr ⟨a, ra, b, rb, hda, hdb, hlt, hcandidate, rfl⟩)
    · -- the kept record is on the left here, against the order of the keys
      refine ⟨predictPair member ((b, rb), (a, ra)), predictPair_mem_between hkb hda ?_,
        min_eq_right hlt.le, max_eq_left hlt.le⟩
      rw [hsymmetric.candidate, hcandidate]
  · rcases hwhere hrb with hdb | hkb
    · exact ⟨predictPair member ((a, ra), (b, rb)), predictPair_mem_between hka hdb hcandidate,
        min_eq_left hlt.le, max_eq_right hlt.le⟩
    · rcases htouches with hda | hdb
      · exact absurd hda (not_mem_deltaStd_of_kept hka)
      · exact absurd hdb (not_mem_deltaStd_of_kept hkb)

/-- A partial pass stages the expected verdicts that touch the delta. -/
theorem stagedVerdict_partialPass (hsymmetric : SideSymmetric member)
    (hversioned : Versioned rowOf std)
    (htouches : a ∈ deltaStd member.identity segment std lake ∨
      b ∈ deltaStd member.identity segment std lake) :
    stagedVerdict member.identity reviewLow std (partialPredictions member segment std lake) a b =
      expected member rowOf reviewLow (contentHash std) a b := by
  have hsound : ScoresCandidates member std (partialPredictions member segment std lake) := by
    intro prediction hmem
    obtain ⟨la, l, ra, r, hl, hr, _, hcandidate, rfl⟩ := mem_partialPredictions hmem
    exact ⟨l, r, hl, hr, hcandidate, rfl⟩
  apply stagedVerdict_eq hsymmetric hversioned hsound
  intro ra rb hra hrb hlt hcandidate
  exact covered_of_candidate hsymmetric hra hrb hlt hcandidate htouches

end Coverage

/-- Rows of one parity are candidates and the score is their sum. -/
def sampleMember (identity : ℕ) : EnsembleMember ℕ ℕ Unit ℕ where
  identity := identity
  candidate l r := l % 2 == r % 2
  score l r := l + r
  evidence _ _ := ()

theorem sampleMember_symmetric (identity : ℕ) : SideSymmetric (sampleMember identity) where
  candidate _ _ := Bool.beq_comm
  score := Nat.add_comm

/-- Records with their content hashes, each hash being the row. -/
def sampleCorpus (contents : List (ℕ × ℕ)) : Corpus ℕ ℕ ℕ :=
  Std.ExtTreeMap.ofList (contents.map fun entry => (entry.1, ⟨entry.2, entry.2⟩)) compare

theorem sampleCorpus_versioned {contents : List (ℕ × ℕ)}
    (hnodup : (contents.map Prod.fst).Nodup) :
    Versioned (fun _ hash => hash) (sampleCorpus contents) := by
  have hkeys : ((contents.map fun entry =>
      (entry.1, (⟨entry.2, entry.2⟩ : StdRecord ℕ ℕ))).map Prod.fst).Nodup := by
    rwa [List.map_map]
  intro key record hrecord
  rcases List.mem_map.mp ((BTreeMap.getElem?_ofList_eq_some_iff hkeys).mp hrecord) with
    ⟨entry, _, hentry⟩
  cases hentry
  rfl

end EntityResolution.Match
