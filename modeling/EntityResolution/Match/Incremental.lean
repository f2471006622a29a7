/-
# Incremental equals full

A partial pass reuses the scores of pairs it does not score again. It may, because of what
the ledger and the active scores say together: the active scores of a model are exactly
those of the contents the ledger lists. Every completed pass leaves the lake so, for the
corpus it ran on, and so the cheap path and the full one leave the same tables.
-/

import EntityResolution.Foundations.Runs
import EntityResolution.Match.PassSpec

namespace EntityResolution.Match

open EntityResolution.Collections EntityResolution.Tables EntityResolution.PairView
open EntityResolution.Runs

universe u v w x y z

variable {K : Type u} {H : Type v} {Row : Type w} {S : Type x} {E : Type y} {I : Type z}
variable [LinearOrder K] [LinearOrder I] [LinearOrder S]

/-- The ledger can be relied on: it lists nothing, or the active scores are those of the
contents it lists. -/
def Faithful (member : EnsembleMember Row S E I) (rowOf : K → H → Row) (reviewLow : S)
    (view : ModelView K H S) : Prop :=
  (∀ key, view.scored key = none) ∨
    ∀ a b, view.active a b = expected member rowOf reviewLow view.scored a b

section PassView

variable [DecidableEq H] {member : EnsembleMember Row S E I} {rowOf : K → H → Row} {reviewLow : S}
  {stamp : RunStamp} {segment : Option (Row → Option Bool)} {std : Corpus K H Row}
  {lake : Lake K H S E I} {pass : MatchPass Row S}

/-- A partial pass over a ledger that can be relied on leaves the expected scores: what it
rescored touches a superseded record, and what it kept is between records whose contents
the ledger and the corpus agree on. -/
theorem partialScores_eq (hsymmetric : SideSymmetric member) (hversioned : Versioned rowOf std)
    (hfaithful : ∀ a b, activeVerdict lake member.identity a b =
      expected member rowOf reviewLow (scoredHash lake member.identity) a b) (a b : K) :
    partialScores member reviewLow segment std lake a b =
      expected member rowOf reviewLow (contentHash std) a b := by
  apply reflects_of_refresh
    (fun key => key ∈ supersededKeys member.identity segment std lake) hfaithful
  · -- off the superseded records the ledger and the corpus agree
    intro key hstale
    obtain ⟨hdelta, hdeparted⟩ := not_or.mp (mem_supersededKeys.not.mp hstale)
    by_cases hkey : key ∈ std
    · exact scoredHash_of_not_mem_deltaStd hkey hdelta
    · rw [contentHash_eq_none.mpr hkey, ← Option.not_isSome_iff_eq_none]
      exact fun hscored => hdeparted ⟨hkey, member.identity, hscored⟩
  · intro a b hstale
    rw [partialScores_of_superseded hstale]
    by_cases htouches : a ∈ deltaStd member.identity segment std lake ∨
        b ∈ deltaStd member.identity segment std lake
    · exact stagedVerdict_partialPass hsymmetric hversioned htouches
    · -- superseded but not in the delta: an end has left the corpus
      obtain ⟨ha, hb⟩ := not_or.mp htouches
      rw [stagedVerdict_of_untouched ha hb]
      apply Eq.symm
      apply pairView_eq_none
      rw [contentHash_eq_none, contentHash_eq_none]
      apply hstale.imp
      · exact fun hstale => ((mem_supersededKeys.mp hstale).resolve_left ha).1
      · exact fun hstale => ((mem_supersededKeys.mp hstale).resolve_left hb).1
  · intro a b ha hb
    exact partialScores_of_kept ha hb

variable (reviewLow stamp) in
omit [DecidableEq H] in
/-- A full pass of one model: nothing is cut by a cascade. -/
theorem runMatchEnsemble_single (config : Config S) (lake : Lake K H S E I) :
    ∃ cascadeAfter lake', (cascadeAfter = none ∨ cascadeAfter = some []) ∧
      runMatchEnsemble config [member] reviewLow stamp std lake =
        retireStatements [member.identity] stamp ++
          scoreMemberFull member reviewLow stamp std cascadeAfter lake' := by
  rcases List.length_eq_one_iff.mp (length_memberThresholds config [member]) with
    ⟨threshold, hthreshold⟩
  simp only [runMatchEnsemble, hthreshold, List.zip_cons_cons, List.zip_nil_right,
    List.zipIdx_singleton, scoreMembers, List.append_nil, List.map_cons, List.map_nil]
  split
  · exact ⟨some [], _, .inr rfl, rfl⟩
  · exact ⟨none, _, .inl rfl, rfl⟩

omit [DecidableEq H] in
/-- A full pass without a cascade stages the expected scores. -/
theorem stagedVerdict_uncut (hsymmetric : SideSymmetric member) (hversioned : Versioned rowOf std)
    {cascadeAfter : Option (List (I × S))} (lake : Lake K H S E I)
    (huncut : cascadeAfter = none ∨ cascadeAfter = some []) :
    stagedVerdict member.identity reviewLow std [predictMember member std lake cascadeAfter] =
      expected member rowOf reviewLow (contentHash std) := by
  funext a b
  rw [predictMember_uncut huncut, stagedVerdict_full hsymmetric hversioned]

variable (stamp) in
/-- Every prefix of a full pass of one model, from any lake. -/
theorem viewOf_cut_full (hsymmetric : SideSymmetric member) (hversioned : Versioned rowOf std)
    (config : Config S) (lake : Lake K H S E I) (n : ℕ) :
    viewOf (commit lake (((MatchPass.full config).statements member reviewLow stamp std lake).take
        n)) member.identity =
      viewAt (viewOf lake member.identity) .everyActive
        (expected member rowOf reviewLow (contentHash std)) (contentHash std)
        (progressOf (((MatchPass.full config).statements member reviewLow stamp std lake).take
          n)) := by
  rcases runMatchEnsemble_single reviewLow stamp config lake with
    ⟨cascadeAfter, lake', huncut, hstatements⟩
  rw [viewOf_commit, MatchPass.statements, hstatements,
    ← stagedVerdict_uncut hsymmetric hversioned lake' huncut]
  exact view_cut_full reviewLow stamp std List.mem_cons_self cascadeAfter lake' _ n

variable (stamp pass) in
/-- Every prefix of a pass of one model, from a lake whose ledger can be relied on. -/
theorem viewOf_cut (hsymmetric : SideSymmetric member) (hversioned : Versioned rowOf std)
    (hfaithful : Faithful member rowOf reviewLow (viewOf lake member.identity)) (n : ℕ) :
    viewOf (commit lake ((pass.statements member reviewLow stamp std lake).take n))
        member.identity =
      viewAt (viewOf lake member.identity) (pass.scope member std lake)
        (expected member rowOf reviewLow (contentHash std)) (contentHash std)
        (progressOf ((pass.statements member reviewLow stamp std lake).take n)) := by
  cases pass with
  | full config => exact viewOf_cut_full stamp hsymmetric hversioned config lake n
  | incremental segment =>
      rw [viewOf_commit, MatchPass.statements, MatchPass.scope]
      by_cases hscored : scoredRows member.identity lake = 0
      · rw [runMatchPartial, if_pos hscored, if_pos hscored,
          ← stagedVerdict_uncut hsymmetric hversioned lake (.inl rfl)]
        exact view_cut_full reviewLow stamp std List.mem_cons_self none lake _ n
      · have hscores : partialScores member reviewLow segment std lake =
            expected member rowOf reviewLow (contentHash std) := by
          funext a b
          apply partialScores_eq hsymmetric hversioned
          rcases hfaithful with hnone | hactive
          · exact absurd (scoredRows_eq_zero_iff.mpr hnone) hscored
          · exact hactive
        rw [if_neg hscored, ← hscores]
        exact view_cut_partialPass List.mem_cons_self hscored n

/-- A completed pass got to the last station. -/
theorem progressOf_statements (pass : MatchPass Row S) :
    progressOf (pass.statements member reviewLow stamp std lake) = .pruned := by
  cases pass with
  | full config =>
      rcases runMatchEnsemble_single reviewLow stamp config lake with
        ⟨cascadeAfter, lake', _, hstatements⟩
      rw [MatchPass.statements, hstatements, progressOf_full]
  | incremental segment => exact progressOf_partialPass

/-- A completed pass leaves the expected scores of the corpus and lists the corpus. -/
theorem viewOf_pass (hsymmetric : SideSymmetric member) (hversioned : Versioned rowOf std)
    (hfaithful : Faithful member rowOf reviewLow (viewOf lake member.identity))
    (pass : MatchPass Row S) :
    viewOf (commit lake (pass.statements member reviewLow stamp std lake)) member.identity =
      ⟨expected member rowOf reviewLow (contentHash std), contentHash std⟩ := by
  have hcut := viewOf_cut stamp pass hsymmetric hversioned hfaithful
    (pass.statements member reviewLow stamp std lake).length
  rw [List.take_length, progressOf_statements] at hcut
  exact hcut

/-- A completed full pass does so from any lake. -/
theorem viewOf_full_pass (hsymmetric : SideSymmetric member) (hversioned : Versioned rowOf std)
    (config : Config S) (lake : Lake K H S E I) :
    viewOf (commit lake ((MatchPass.full config).statements member reviewLow stamp std lake))
        member.identity =
      ⟨expected member rowOf reviewLow (contentHash std), contentHash std⟩ := by
  have hcut : viewOf (commit lake (((MatchPass.full config).statements member reviewLow stamp std
      lake).take _)) member.identity = _ :=
    viewOf_cut_full stamp hsymmetric hversioned config lake
      ((MatchPass.full config).statements member reviewLow stamp std lake).length
  rw [List.take_length, progressOf_statements] at hcut
  exact hcut

end PassView

/-- One completed pass of a history: the corpus it meets, and which pass it is. -/
structure PassStep (K : Type u) (H : Type v) (Row : Type w) (S : Type x) [LinearOrder K] where
  std : Corpus K H Row
  stamp : RunStamp
  pass : MatchPass Row S

/-- The lake a completed pass leaves. -/
def completePass [DecidableEq H] (member : EnsembleMember Row S E I) (reviewLow : S)
    (lake : Lake K H S E I) (step : PassStep K H Row S) : Lake K H S E I :=
  commit lake (step.pass.statements member reviewLow step.stamp step.std lake)

/-- The lake says about a model what a full pass over the corpus would: its active scores
are the candidate pairs at or above `review_low`, each with its current score and both
current content hashes, and its ledger lists the corpus. -/
structure UpToDate (member : EnsembleMember Row S E I) (reviewLow : S) (std : Corpus K H Row)
    (lake : Lake K H S E I) : Prop where
  scores : ∀ a b verdict, activeVerdict lake member.identity a b = some verdict ↔
    ∃ ra rb, std[a]? = some ra ∧ std[b]? = some rb ∧ a < b ∧
      member.candidate ra.row rb.row = true ∧ reviewLow ≤ member.score ra.row rb.row ∧
      verdict = ⟨member.score ra.row rb.row, ra.contentHash, rb.contentHash⟩
  ledger : ∀ key hash, scoredHash lake member.identity key = some hash ↔
    ∃ record, std[key]? = some record ∧ record.contentHash = hash

/-- From a lake whose ledger has nothing of a model, every history of completed full,
incremental and segment passes of that model leaves the lake up to date with the corpus
after each of them. -/
theorem incremental_equals_full [DecidableEq H] (member : EnsembleMember Row S E I)
    (hsymmetric : SideSymmetric member) (rowOf : K → H → Row) (reviewLow : S)
    (lake : Lake K H S E I) (hfresh : ∀ key, scoredHash lake member.identity key = none)
    (history : List (PassStep K H Row S))
    (hversioned : ∀ step ∈ history, Versioned rowOf step.std) :
    AfterEach (completePass member reviewLow)
      (fun step lake => UpToDate member reviewLow step.std lake) lake history := by
  apply afterEach_of_invariant
    (fun lake => Faithful member rowOf reviewLow (viewOf lake member.identity)) _ (.inl hfresh)
  intro step hstep lake hfaithful
  have hview : viewOf (completePass member reviewLow lake step) member.identity = _ :=
    viewOf_pass hsymmetric (hversioned step hstep) hfaithful step.pass
  apply And.intro
  · rw [hview]
    exact .inr fun a b => rfl
  · apply UpToDate.mk
    · intro a b verdict
      have hactive : activeVerdict (completePass member reviewLow lake step) member.identity a b =
          expected member rowOf reviewLow (contentHash step.std) a b :=
        congrArg (fun view => view.active a b) hview
      rw [hactive]
      exact expected_eq_some_iff (hversioned step hstep)
    · intro key hash
      have hscored : scoredHash (completePass member reviewLow lake step) member.identity key =
          contentHash step.std key := congrArg (fun view => view.scored key) hview
      rw [hscored, contentHash, Option.map_eq_some_iff]

/-- Record 2 is changed and later restored, record 3 leaves, record 4 comes; the segment of
the last pass is NULL on the row of record 1. -/
def sampleHistory : List (PassStep ℕ ℕ ℕ ℕ) :=
  [⟨sampleCorpus [(1, 3), (2, 5), (3, 4)], ⟨"run-1", 1⟩, .full ⟨[], 9⟩⟩,
    ⟨sampleCorpus [(1, 3), (2, 4), (4, 6)], ⟨"run-2", 2⟩, .incremental none⟩,
    ⟨sampleCorpus [(1, 3), (2, 5), (4, 6)], ⟨"run-3", 3⟩,
      .incremental (some fun row => if row = 3 then none else some (row == 6))⟩]

theorem incremental_equals_full_sample :
    AfterEach (completePass (sampleMember 0) 7)
      (fun step lake => UpToDate (sampleMember 0) 7 step.std lake) Lake.fresh sampleHistory ∧
    activeVerdict (sampleHistory.foldl (completePass (sampleMember 0) 7) Lake.fresh) 0 1 2 =
      some ⟨8, 3, 5⟩ := by
  apply And.intro
  · apply incremental_equals_full (sampleMember 0) (sampleMember_symmetric 0) (fun _ hash => hash)
    · intro key
      rw [scoredHash_fresh]
    · rw [sampleHistory, List.forall_mem_cons, List.forall_mem_cons, List.forall_mem_singleton]
      exact ⟨sampleCorpus_versioned (by decide), sampleCorpus_versioned (by decide),
        sampleCorpus_versioned (by decide)⟩
  · decide +kernel

end EntityResolution.Match
