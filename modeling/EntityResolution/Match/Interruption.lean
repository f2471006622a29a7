/-
# Interrupted passes

Every statement of a pass commits on its own, so a pass may be cut off after any prefix of
them. The ledger is written last, which keeps new records unscored in it until their scores
are in the lake. It does not protect the scores of records the ledger already lists: they
are invalidated first, and a later incremental pass believes the ledger.

A lake heals when the next completed incremental pass, over any corpus, leaves what a full
pass would. It heals exactly when its ledger can be relied on, and that gives for every
point at which a pass can be cut the exact condition under which the lake still heals.
-/

import EntityResolution.Match.Incremental

namespace EntityResolution.Match

open EntityResolution.Collections EntityResolution.Tables EntityResolution.PairView
open EntityResolution.Runs

universe u v w x y z

variable {K : Type u} {H : Type v} {Row : Type w} {S : Type x} {E : Type y} {I : Type z}
variable [LinearOrder K] [LinearOrder I] [LinearOrder S] [DecidableEq H]

/-- Two lakes with the same active scores and the same ledger, for every model. -/
def SameContents (first second : Lake K H S E I) : Prop :=
  ∀ identity, viewOf first identity = viewOf second identity

/-- Whatever the corpus is next, the next incremental or segment pass that completes leaves
the scores and the ledger that a full pass would. -/
def Heals (member : EnsembleMember Row S E I) (rowOf : K → H → Row) (reviewLow : S)
    (lake : Lake K H S E I) : Prop :=
  ∀ (segment : Option (Row → Option Bool)) (config : Config S) (stamp : RunStamp)
    (std : Corpus K H Row), Versioned rowOf std →
    SameContents
      (commit lake ((MatchPass.incremental segment).statements member reviewLow stamp std lake))
      (commit lake ((MatchPass.full config).statements member reviewLow stamp std lake))

/-- One pass cut off after some of its statements; a count beyond the last one completes it. -/
structure InterruptedPass (K : Type u) (H : Type v) (Row : Type w) (S : Type x) [LinearOrder K]
    extends PassStep K H Row S where
  committed : ℕ

/-- The statements an interrupted pass committed. -/
def InterruptedPass.sent (member : EnsembleMember Row S E I) (reviewLow : S)
    (lake : Lake K H S E I) (step : InterruptedPass K H Row S) : List (Statement K H Row S E I) :=
  (step.pass.statements member reviewLow step.stamp step.std lake).take step.committed

/-- The lake an interrupted pass leaves. -/
def interruptPass (member : EnsembleMember Row S E I) (reviewLow : S) (lake : Lake K H S E I)
    (step : InterruptedPass K H Row S) : Lake K H S E I :=
  commit lake (step.sent member reviewLow lake)

/-- The cut is harmless: the ledger had nothing of the model yet, or what the pass committed
leaves the active scores those of the contents in the ledger. Before the invalidation and
after the pruning that is always so. In between, respectively: no active score touches a
superseded record; the active scores were those of the corpus already; no record that left
the corpus has a score at or above `review_low` with a record of the corpus or the ledger. -/
def CutHarmless (member : EnsembleMember Row S E I) (rowOf : K → H → Row) (reviewLow : S)
    (lake : Lake K H S E I) (step : InterruptedPass K H Row S) : Prop :=
  scoredRows member.identity lake = 0 ∨
    match progressOf (step.sent member reviewLow lake) with
    | .untouched => True
    | .invalidated =>
        ∀ a b, (activeVerdict lake member.identity a b).isSome →
          a ∉ staleKeys member.identity lake (step.pass.scope member step.std lake) ∧
            b ∉ staleKeys member.identity lake (step.pass.scope member step.std lake)
    | .rescored =>
        ∀ a b, activeVerdict lake member.identity a b =
          expected member rowOf reviewLow (contentHash step.std) a b
    | .claimed =>
        ∀ a b, (expected member rowOf reviewLow
          (fun key => (contentHash step.std key).or (scoredHash lake member.identity key))
            a b).isSome → a ∈ step.std ∧ b ∈ step.std
    | .pruned => True

section Cuts

variable {member : EnsembleMember Row S E I} {rowOf : K → H → Row} {reviewLow : S}
  {stamp : RunStamp} {std : Corpus K H Row} {lake : Lake K H S E I} {pass : MatchPass Row S}
  {step : InterruptedPass K H Row S}

/-- A completed pass leaves nothing of a model that is not its own. -/
theorem viewOf_other {identity : I} (hother : identity ≠ member.identity)
    (pass : MatchPass Row S) :
    viewOf (commit lake (pass.statements member reviewLow stamp std lake)) identity = .nothing := by
  have hdead : identity ∉ [member.identity] := by simpa using hother
  rw [viewOf_commit]
  cases pass with
  | full config =>
      rcases runMatchEnsemble_single reviewLow stamp config lake with
        ⟨cascadeAfter, lake', _, hstatements⟩
      rw [MatchPass.statements, hstatements, List.foldl_append, view_retire_dead hdead,
        view_full_other hother, restrict_nothing]
  | incremental segment => exact view_partial_dead hother hdead lake _

omit [LinearOrder S] [DecidableEq H] in
/-- A model whose records are never claimed gets no ledger row. -/
theorem scored_none_of_unclaimed {identity : I} {key : K}
    {statements : List (Statement K H Row S E I)}
    (hunclaimed : ∀ scored stamp, .upsertFromStd identity scored stamp ∉ statements)
    {view : ModelView K H S} (hnone : view.scored key = none) :
    (statements.foldl (Statement.onView identity) view).scored key = none := by
  induction statements generalizing view with
  | nil => exact hnone
  | cons statement statements ih =>
      apply ih fun scored stamp hmem => hunclaimed scored stamp (List.mem_cons_of_mem _ hmem)
      cases statement with
      | retireOtherModels live stamp =>
          rw [Statement.onView]
          split <;> exact hnone
      | absentFromLiveModels live =>
          rw [Statement.onView]
          split
          · exact hnone
          · rfl
      | invalidateStale owner scope stamp =>
          rw [Statement.onView]
          split
          · cases scope <;> exact hnone
          · exact hnone
      | upsertFromScored source stamp => exact hnone
      | upsertFromStd owner scored stamp =>
          rw [Statement.onView, if_neg]
          · exact hnone
          · rintro rfl
            exact hunclaimed scored stamp List.mem_cons_self
      | absentFromStd std =>
          rw [Statement.onView]
          show (if key ∈ std then view.scored key else none) = none
          rw [hnone, ite_self]

theorem unclaimed_of_ne {identity : I} (hother : identity ≠ member.identity)
    (scored : Corpus K H Row) (stamp' : RunStamp) :
    .upsertFromStd identity scored stamp' ∉
      pass.statements member reviewLow stamp std lake := by
  cases pass with
  | full config =>
      rcases runMatchEnsemble_single reviewLow stamp config lake with
        ⟨cascadeAfter, lake', _, hstatements⟩
      rw [MatchPass.statements, hstatements]
      simp [retireStatements, scoreMemberFull, stageAndUpsertScores, syncScoredLedger, hother]
  | incremental segment =>
      rw [MatchPass.statements]
      by_cases hscored : scoredRows member.identity lake = 0
      · rw [runMatchPartial, if_pos hscored]
        simp [retireStatements, scoreMemberFull, stageAndUpsertScores, syncScoredLedger, hother]
      · rw [runMatchPartial_of_scored hscored]
        split <;> simp [hother]

/-- The ledger has rows of one model only. -/
def Solo (identity : I) (lake : Lake K H S E I) : Prop :=
  ∀ other key, other ≠ identity → scoredHash lake other key = none

theorem Solo.interrupt (hsolo : Solo member.identity lake) (step : InterruptedPass K H Row S) :
    Solo member.identity (interruptPass member reviewLow lake step) := by
  intro other key hother
  have hview := congrArg (fun view => view.scored key)
    (viewOf_commit lake (step.sent member reviewLow lake) other)
  apply hview.trans
  apply scored_none_of_unclaimed
  · intro scored stamp hmem
    exact unclaimed_of_ne hother scored stamp (List.mem_of_mem_take hmem)
  · exact hsolo other key hother

/-- The records the ledger lists for a model, with the rows their hashes stand for. -/
def ledgerCorpus (rowOf : K → H → Row) (identity : I) (lake : Lake K H S E I) : Corpus K H Row :=
  Std.ExtTreeMap.ofList
    ((lake.scoredRecords.toList.filter fun entry => entry.1.identity = identity).map fun entry =>
      (entry.1.recordKey, ⟨entry.2.contentHash, rowOf entry.1.recordKey entry.2.contentHash⟩))
    compare

omit [LinearOrder S] [DecidableEq H] in
theorem getElem?_ledgerCorpus {identity : I} {key : K} {record : StdRecord H Row} :
    (ledgerCorpus rowOf identity lake)[key]? = some record ↔
      ∃ hash, scoredHash lake identity key = some hash ∧ record = ⟨hash, rowOf key hash⟩ := by
  have hnodup : (((lake.scoredRecords.toList.filter fun entry =>
      entry.1.identity = identity).map fun entry =>
        (entry.1.recordKey, (⟨entry.2.contentHash,
          rowOf entry.1.recordKey entry.2.contentHash⟩ : StdRecord H Row))).map
            Prod.fst).Nodup := by
    rw [List.map_map, List.Nodup, List.pairwise_map]
    apply ((BTreeMap.toList_pairwise_lt lake.scoredRecords).filter _).imp_of_mem
    intro first second hfirst hsecond hlt hsame
    have hidentity : first.1.identity = second.1.identity := by
      rw [of_decide_eq_true (List.mem_filter.mp hfirst).2,
        of_decide_eq_true (List.mem_filter.mp hsecond).2]
    apply ne_of_lt hlt
    rw [LedgerKey.mk.injEq]
    exact ⟨hsame, hidentity⟩
  rw [ledgerCorpus, BTreeMap.getElem?_ofList_eq_some_iff hnodup, List.mem_map]
  apply Iff.intro
  · rintro ⟨⟨entry, row⟩, hentry, hsame⟩
    obtain ⟨hmem, hidentity⟩ := List.mem_filter.mp hentry
    have hrow := BTreeMap.mem_toList.mp hmem
    cases hsame
    refine ⟨row.contentHash, ?_, rfl⟩
    rw [scoredHash, ← of_decide_eq_true hidentity, hrow]
    rfl
  · rintro ⟨hash, hscored, rfl⟩
    obtain ⟨row, hrow, rfl⟩ := Option.map_eq_some_iff.mp hscored
    refine ⟨(⟨key, identity⟩, row), ?_, rfl⟩
    rw [List.mem_filter]
    exact ⟨BTreeMap.mem_toList.mpr hrow, decide_eq_true rfl⟩

omit [LinearOrder S] [DecidableEq H] in
theorem versioned_ledgerCorpus (identity : I) :
    Versioned rowOf (ledgerCorpus rowOf identity lake) := by
  intro key record hrecord
  obtain ⟨hash, _, rfl⟩ := getElem?_ledgerCorpus.mp hrecord
  rfl

omit [LinearOrder S] [DecidableEq H] in
theorem contentHash_ledgerCorpus (identity : I) :
    contentHash (ledgerCorpus rowOf identity lake) = scoredHash lake identity := by
  funext key
  ext hash
  rw [contentHash, Option.map_eq_some_iff]
  apply Iff.intro
  · rintro ⟨record, hrecord, rfl⟩
    obtain ⟨hash, hscored, rfl⟩ := getElem?_ledgerCorpus.mp hrecord
    exact hscored
  · intro hscored
    exact ⟨⟨hash, rowOf key hash⟩, getElem?_ledgerCorpus.mpr ⟨hash, hscored, rfl⟩, rfl⟩

/-- An incremental pass over the contents of the ledger keeps the scores as they are. -/
theorem partialScores_ledgerCorpus (hsolo : Solo member.identity lake) (a b : K) :
    partialScores member reviewLow none (ledgerCorpus rowOf member.identity lake) lake a b =
      activeVerdict lake member.identity a b := by
  have hdelta (key : K) : key ∉ deltaStd member.identity none
      (ledgerCorpus rowOf member.identity lake) lake := by
    intro hkey
    obtain ⟨record, hrecord⟩ := BTreeMap.mem_iff_exists_getElem?.mp hkey
    obtain ⟨hstd, hreason⟩ := getElem?_deltaStd.mp hrecord
    obtain ⟨hash, hscored, rfl⟩ := getElem?_ledgerCorpus.mp hstd
    rcases hreason with hunscored | hscope
    · exact hunscored hscored
    · cases hscope
  have hdeparted (key : K) (habsent : key ∉ ledgerCorpus rowOf member.identity lake) (owner : I) :
      ¬ (scoredHash lake owner key).isSome := by
    intro hscored
    by_cases howner : owner = member.identity
    · subst howner
      rw [← contentHash_ledgerCorpus, contentHash_isSome] at hscored
      exact habsent hscored
    · rw [hsolo owner key howner] at hscored
      cases hscored
  have hkept (key : K) : key ∉ supersededKeys member.identity none
      (ledgerCorpus rowOf member.identity lake) lake := by
    intro hstale
    rcases mem_supersededKeys.mp hstale with hin | ⟨habsent, owner, hscored⟩
    · exact hdelta key hin
    · exact hdeparted key habsent owner hscored
  exact partialScores_of_kept (hkept a) (hkept b)

/-- The next completed pass repairs a lake exactly when its ledger can be relied on. -/
theorem heals_iff_faithful (hsymmetric : SideSymmetric member)
    (hsolo : Solo member.identity lake) :
    Heals member rowOf reviewLow lake ↔
      Faithful member rowOf reviewLow (viewOf lake member.identity) := by
  apply Iff.intro
  · intro hheals
    by_cases hscored : scoredRows member.identity lake = 0
    · exact .inl (scoredRows_eq_zero_iff.mp hscored)
    · -- run the next pass on the ledger's own contents: it rescores nothing
      have hversioned : Versioned rowOf (ledgerCorpus rowOf member.identity lake) :=
        versioned_ledgerCorpus member.identity
      have hsame := hheals none ⟨[], reviewLow⟩ ⟨"", 0⟩ _ hversioned member.identity
      rw [viewOf_full_pass hsymmetric hversioned, viewOf_commit, MatchPass.statements,
        view_partial_self List.mem_cons_self hscored] at hsame
      apply Or.inr
      intro a b
      calc activeVerdict lake member.identity a b
          = partialScores member reviewLow none (ledgerCorpus rowOf member.identity lake) lake
              a b := (partialScores_ledgerCorpus hsolo a b).symm
        _ = expected member rowOf reviewLow
              (contentHash (ledgerCorpus rowOf member.identity lake)) a b :=
            congrArg (fun view => view.active a b) hsame
        _ = expected member rowOf reviewLow (scoredHash lake member.identity) a b := by
            rw [contentHash_ledgerCorpus]
  · intro hfaithful segment config stamp std hversioned identity
    by_cases hidentity : identity = member.identity
    · subst hidentity
      rw [viewOf_pass hsymmetric hversioned hfaithful,
        viewOf_pass hsymmetric hversioned hfaithful]
    · rw [viewOf_other hidentity, viewOf_other hidentity]

/-! ## The exact condition on one cut -/

omit [LinearOrder S] [DecidableEq H] in
/-- An invalidation, through the keys it stages. -/
theorem invalidate_active (identity : I) (scope : StaleScope K) (lake : Lake K H S E I) (a b : K) :
    ((viewOf lake identity).invalidate scope).active a b =
      if a ∈ staleKeys identity lake scope ∨ b ∈ staleKeys identity lake scope then none
      else activeVerdict lake identity a b := by
  cases scope with
  | everyActive =>
      show none = _
      cases hactive : activeVerdict lake identity a b with
      | none => rw [ite_self]
      | some verdict => rw [if_pos (.inl (mem_staleKeys_everyActive hactive))]
  | records keys => rfl

omit [LinearOrder S] [DecidableEq H] in
theorem invalidate_scored (view : ModelView K H S) (scope : StaleScope K) :
    (view.invalidate scope).scored = view.scored := by
  cases scope <;> rfl

omit [DecidableEq H] in
theorem faithful_invalidate_iff (scope : StaleScope K)
    (hlisted : ¬ ∀ key, scoredHash lake member.identity key = none)
    (hactive : ∀ a b, activeVerdict lake member.identity a b =
      expected member rowOf reviewLow (scoredHash lake member.identity) a b) :
    Faithful member rowOf reviewLow ((viewOf lake member.identity).invalidate scope) ↔
      ∀ a b, (activeVerdict lake member.identity a b).isSome →
        a ∉ staleKeys member.identity lake scope ∧ b ∉ staleKeys member.identity lake scope := by
  rw [Faithful, invalidate_scored]
  apply Iff.intro
  · intro hcut a b hsome
    have hkept := hcut.resolve_left hlisted a b
    rw [invalidate_active] at hkept
    apply not_or.mp
    intro hstale
    rw [if_pos hstale] at hkept
    rw [hactive a b] at hsome
    exact absurd hkept.symm (Option.isSome_iff_ne_none.mp hsome)
  · intro hspared
    apply Or.inr
    intro a b
    rw [invalidate_active]
    split
    · rename_i hstale
      have hnone : activeVerdict lake member.identity a b = none := by
        rw [← Option.not_isSome_iff_eq_none]
        exact fun hsome => not_or.mpr (hspared a b hsome) hstale
      exact hnone.symm.trans (hactive a b)
    · exact hactive a b

omit [DecidableEq H] in
/-- Scores of the corpus under a ledger that lists more than the corpus: reliable exactly
when no record outside the corpus has a score under what the ledger lists. -/
theorem faithful_claimed_iff
    (hlisted : ¬ ∀ key, scoredHash lake member.identity key = none) :
    Faithful member rowOf reviewLow
        ⟨expected member rowOf reviewLow (contentHash std),
          fun key => (contentHash std key).or (scoredHash lake member.identity key)⟩ ↔
      ∀ a b, (expected member rowOf reviewLow
        (fun key => (contentHash std key).or (scoredHash lake member.identity key)) a b).isSome →
          a ∈ std ∧ b ∈ std := by
  have hover : (∀ a b, expected member rowOf reviewLow (fun key =>
        (contentHash std key).or (scoredHash lake member.identity key)) a b =
      expected member rowOf reviewLow (contentHash std) a b) ↔ _ := pairView_or_eq_iff
  simp only [contentHash_isSome] at hover
  refine Iff.trans ?_ hover
  apply Iff.intro
  · intro hcut a b
    refine (hcut.resolve_left fun hnone => hlisted fun key => ?_) a b |>.symm
    exact (Option.or_eq_none_iff.mp (hnone key)).2
  · intro hsame
    exact .inr fun a b => (hsame a b).symm

theorem faithful_interrupt_iff (hsymmetric : SideSymmetric member)
    (hversioned : Versioned rowOf step.std)
    (hfaithful : Faithful member rowOf reviewLow (viewOf lake member.identity)) :
    Faithful member rowOf reviewLow
        (viewOf (interruptPass member reviewLow lake step) member.identity) ↔
      CutHarmless member rowOf reviewLow lake step := by
  have hview : viewOf (interruptPass member reviewLow lake step) member.identity = _ :=
    viewOf_cut step.stamp step.pass hsymmetric hversioned hfaithful step.committed
  change _ = viewAt _ _ _ _ (progressOf (step.sent member reviewLow lake)) at hview
  rw [hview, CutHarmless]
  by_cases hscored : scoredRows member.identity lake = 0
  · have hnone : ∀ key, (viewOf lake member.identity).scored key = none :=
      scoredRows_eq_zero_iff.mp hscored
    apply iff_of_true _ (.inl hscored)
    cases progressOf (step.sent member reviewLow lake) with
    | untouched => exact .inl hnone
    | invalidated => exact .inl (by rw [viewAt, invalidate_scored]; exact hnone)
    | rescored => exact .inl hnone
    | claimed =>
        refine .inr fun a b => ?_
        simp only [viewAt, hnone, Option.or_none]
    | pruned => exact .inr fun a b => rfl
  · have hlisted : ¬ ∀ key, scoredHash lake member.identity key = none := fun hnone =>
      hscored (scoredRows_eq_zero_iff.mpr hnone)
    have hactive : ∀ a b, activeVerdict lake member.identity a b =
        expected member rowOf reviewLow (scoredHash lake member.identity) a b :=
      hfaithful.resolve_left hlisted
    rw [or_iff_right hscored]
    cases progressOf (step.sent member reviewLow lake) with
    | untouched => exact iff_of_true hfaithful trivial
    | invalidated => exact faithful_invalidate_iff _ hlisted hactive
    | rescored =>
        apply Iff.intro
        · intro hcut a b
          exact (hactive a b).trans (hcut.resolve_left hlisted a b).symm
        · intro hsame
          exact .inr fun a b => (hsame a b).symm.trans (hactive a b)
    | claimed => exact faithful_claimed_iff hlisted
    | pruned => exact iff_of_true (.inr fun a b => rfl) trivial

end Cuts

/-- In a run of passes of one model, each cut off anywhere or completed, with any corpora
in between, the lake heals after every pass exactly when every cut was harmless. -/
theorem interrupted_passes_heal_iff (member : EnsembleMember Row S E I)
    (hsymmetric : SideSymmetric member) (rowOf : K → H → Row) (reviewLow : S)
    (run : List (InterruptedPass K H Row S)) (hversioned : ∀ step ∈ run, Versioned rowOf step.std) :
    AfterEach (interruptPass member reviewLow) (fun _ lake => Heals member rowOf reviewLow lake)
        (Lake.fresh : Lake K H S E I) run ↔
      Along (interruptPass member reviewLow) (CutHarmless member rowOf reviewLow)
        (Lake.fresh : Lake K H S E I) run := by
  apply afterEach_iff_along fun lake => Solo member.identity lake ∧
    Faithful member rowOf reviewLow (viewOf lake member.identity)
  · intro step hstep lake hinv
    rw [heals_iff_faithful hsymmetric (hinv.1.interrupt step),
      faithful_interrupt_iff hsymmetric (hversioned step hstep) hinv.2]
  · intro step hstep lake hinv hheals
    have hsolo : Solo member.identity (interruptPass member reviewLow lake step) :=
      hinv.1.interrupt step
    exact ⟨hsolo, (heals_iff_faithful hsymmetric hsolo).mp hheals⟩
  · have hnone : ∀ other key, scoredHash (Lake.fresh : Lake K H S E I) other key = none :=
      scoredHash_fresh
    exact ⟨fun other key _ => hnone other key, .inl (hnone member.identity)⟩

/-- A first pass that dies before it claims anything, its repetition, and a pass that dies
after its retirement. -/
def sampleHarmlessRun : List (InterruptedPass ℕ ℕ ℕ ℕ) :=
  [⟨⟨sampleCorpus [(1, 3), (2, 5)], ⟨"run-1", 1⟩, .full ⟨[], 9⟩⟩, 4⟩,
    ⟨⟨sampleCorpus [(1, 3), (2, 5)], ⟨"run-2", 2⟩, .incremental none⟩, 6⟩,
    ⟨⟨sampleCorpus [(1, 3), (2, 7)], ⟨"run-3", 3⟩, .full ⟨[], 9⟩⟩, 2⟩]

theorem interrupted_passes_heal_iff_sample :
    AfterEach (interruptPass (sampleMember 0) 7)
      (fun _ lake => Heals (sampleMember 0) (fun _ hash => hash) 7 lake)
      Lake.fresh sampleHarmlessRun := by
  rw [interrupted_passes_heal_iff (sampleMember 0) (sampleMember_symmetric 0)]
  · have hthird : progressOf (InterruptedPass.sent (sampleMember 0) 7
        (interruptPass (sampleMember 0) 7 (interruptPass (sampleMember 0) 7 Lake.fresh
          ⟨⟨sampleCorpus [(1, 3), (2, 5)], ⟨"run-1", 1⟩, .full ⟨[], 9⟩⟩, 4⟩)
          ⟨⟨sampleCorpus [(1, 3), (2, 5)], ⟨"run-2", 2⟩, .incremental none⟩, 6⟩)
        ⟨⟨sampleCorpus [(1, 3), (2, 7)], ⟨"run-3", 3⟩, .full ⟨[], 9⟩⟩, 2⟩) = .untouched := by
      decide +kernel
    refine ⟨.inl (by decide +kernel), .inl (by decide +kernel), .inr ?_, trivial⟩
    rw [hthird]
    trivial
  · rw [sampleHarmlessRun, List.forall_mem_cons, List.forall_mem_cons, List.forall_mem_singleton]
    exact ⟨sampleCorpus_versioned (by decide), sampleCorpus_versioned (by decide),
      sampleCorpus_versioned (by decide)⟩

/-- A completed pass, and a second one over the same corpus that dies right after its
invalidation. -/
def sampleHarmfulRun : List (InterruptedPass ℕ ℕ ℕ ℕ) :=
  [⟨⟨sampleCorpus [(1, 3), (2, 5)], ⟨"run-1", 1⟩, .full ⟨[], 9⟩⟩, 6⟩,
    ⟨⟨sampleCorpus [(1, 3), (2, 5)], ⟨"run-2", 2⟩, .full ⟨[], 9⟩⟩, 3⟩]

/-- The next incremental pass believes the ledger and leaves no score of the pair, where a
full pass leaves one. -/
theorem invalidated_scores_stay_lost :
    SideSymmetric (sampleMember 0) ∧
      (∀ step ∈ sampleHarmfulRun, Versioned (fun _ hash => hash) step.std) ∧
      ¬ AfterEach (interruptPass (sampleMember 0) 7)
        (fun _ lake => Heals (sampleMember 0) (fun _ hash => hash) 7 lake)
        Lake.fresh sampleHarmfulRun := by
  have hversioned : Versioned (fun _ hash => hash) (sampleCorpus [(1, 3), (2, 5)]) :=
    sampleCorpus_versioned (by decide)
  refine ⟨sampleMember_symmetric 0, ?_, ?_⟩
  · rw [sampleHarmfulRun, List.forall_mem_cons, List.forall_mem_singleton]
    exact ⟨hversioned, hversioned⟩
  · intro hrun
    have hsame := hrun.2.1 none ⟨[], 9⟩ ⟨"run-3", 3⟩ _ hversioned 0
    have hpair := congrArg (fun view => view.active 1 2) hsame
    revert hpair
    decide +kernel

end EntityResolution.Match
