/-
# The never-cut loop always makes progress

A round settles one violation after another, and a cut made for one pair changes the
graph that later pairs see. The argument is therefore about one pair at a time: what
settling it can do is said once, and everything about rounds is kept by that one step.

The measure is the number of live edges plus the number of distinct pairs that are
co-clustered and not escalated. No step increases either part, and the first violation
of a round decreases one of them: its components agree, so the search finds a path, and
the path is cut or the pair escalated.
-/

import EntityResolution.NeverCut.Connectivity

namespace EntityResolution.NeverCut

open EntityResolution.Collections

universe u v w

variable {R : Type u} {P : Type v} {I : Type w} [LinearOrder R] [LinearOrder P]

/-- The inputs that `run_reconcile` gives: one edge per canonical pair, no loops, and
assertions between distinct records. -/
structure WellFormed (edges : List (PathEdge R P)) (assertions : List (Assertion R I)) : Prop where
  pairs_nodup : (edges.map PathEdge.pair).Nodup
  loopless : ∀ edge ∈ edges, edge.left ≠ edge.right
  endpoints : ∀ assertion ∈ assertions, assertion.recAKey ≠ assertion.recBKey

section Step

variable {never : List (Assertion R I)} {everyNode : BTreeSet R} {cutProtectProbability : P}
  {protectedRecords : Finset R} {state : CutState R P I} {assertion : Assertion R I}

/-- The state after a pair was escalated. -/
def CutState.escalate (state : CutState R P I) (assertion : Assertion R I) : CutState R P I :=
  { state with
    escalated := state.escalated ++
      [(assertion.pair.1, assertion.pair.2, assertion.assertionId)]
    escalatedPairs := insert assertion.pair state.escalatedPairs
    progressed := true }

/-- The state after an edge was cut for an assertion. -/
def CutState.cut (state : CutState R P I) (edge : PathEdge R P) (assertion : Assertion R I) :
    CutState R P I :=
  { state with
    cuts := state.cuts ++ [⟨edge.left, edge.right, edge.probability, assertion.assertionId⟩]
    live := state.live.filter fun other => other.pair ≠ (edge.left, edge.right)
    progressed := true }

variable (cutProtectProbability protectedRecords state) in
/-- Settling a pair leaves a disconnected pair alone, escalates a pair whose path has only
uncuttable edges, or cuts a cuttable live edge. -/
theorem settlePair_cases (hne : assertion.recAKey ≠ assertion.recBKey) :
    (¬ Connected state.live assertion.recAKey assertion.recBKey ∧
      settlePair cutProtectProbability protectedRecords state assertion = state) ∨
    (Connected (uncuttable cutProtectProbability protectedRecords state.live) assertion.recAKey
        assertion.recBKey ∧
      settlePair cutProtectProbability protectedRecords state assertion =
        state.escalate assertion) ∨
    ∃ edge, ∃ source ∈ state.live, source.pair = (edge.left, edge.right) ∧
      source.probability = edge.probability ∧
      Cuttable cutProtectProbability protectedRecords source.pair source.probability ∧
      settlePair cutProtectProbability protectedRecords state assertion =
        state.cut edge assertion := by
  obtain ⟨hwalk, hreach⟩ := shortestPath_spec hne
  cases hpath : shortestPath assertion.recAKey assertion.recBKey state.live with
  | none =>
      refine .inl ⟨fun hconnected => ?_, by rw [settlePair, hpath]⟩
      obtain ⟨path, hsome⟩ := hreach hconnected
      rw [hpath] at hsome
      cases hsome
  | some path =>
      obtain ⟨hchain, hhead, hlast⟩ := hwalk path hpath
      cases hchosen : chooseCutEdge path state.live cutProtectProbability protectedRecords with
      | none =>
          refine .inr (.inl ⟨connected_uncuttable hchosen hchain hhead hlast, ?_⟩)
          simp only [settlePair, hpath, hchosen]
          rfl
      | some edge =>
          obtain ⟨source, hsource, hpair, hprobability, hcuttable⟩ := chooseCutEdge_spec hchosen
          refine .inr (.inr ⟨edge, source, hsource, hpair, hprobability, hcuttable, ?_⟩)
          simp only [settlePair, hpath, hchosen]
          rfl

/-- A pair that is co-clustered makes the step do something. -/
theorem settlePair_progressed (hne : assertion.recAKey ≠ assertion.recBKey)
    (hconnected : Connected state.live assertion.recAKey assertion.recBKey) :
    (settlePair cutProtectProbability protectedRecords state assertion).progressed = true := by
  rcases settlePair_cases cutProtectProbability protectedRecords state hne with
    ⟨hapart, _⟩ | ⟨_, hstep⟩ | ⟨edge, source, _, _, _, _, hstep⟩
  · exact absurd hconnected hapart
  · rw [hstep, CutState.escalate]
  · rw [hstep, CutState.cut]

/-- Live edges only disappear, escalated pairs only accumulate. -/
structure Shrinks (state later : CutState R P I) : Prop where
  live : later.live.Sublist state.live
  escalated : state.escalatedPairs ⊆ later.escalatedPairs
  progressed : state.progressed = true → later.progressed = true

omit [LinearOrder R] [LinearOrder P] in
theorem Shrinks.refl (state : CutState R P I) : Shrinks state state :=
  ⟨.refl _, Finset.Subset.refl _, id⟩

omit [LinearOrder R] [LinearOrder P] in
theorem Shrinks.trans {first second third : CutState R P I} (hfirst : Shrinks first second)
    (hsecond : Shrinks second third) : Shrinks first third :=
  ⟨hsecond.live.trans hfirst.live, hfirst.escalated.trans hsecond.escalated,
    fun h => hsecond.progressed (hfirst.progressed h)⟩

theorem settlePair_shrinks (hne : assertion.recAKey ≠ assertion.recBKey) :
    Shrinks state (settlePair cutProtectProbability protectedRecords state assertion) := by
  rcases settlePair_cases cutProtectProbability protectedRecords state hne with
    ⟨_, hstep⟩ | ⟨_, hstep⟩ | ⟨edge, source, _, _, _, _, hstep⟩
  · rw [hstep]
    exact Shrinks.refl state
  · rw [hstep]
    exact ⟨.refl _, Finset.subset_insert _ _, fun _ => rfl⟩
  · rw [hstep]
    exact ⟨List.filter_sublist, Finset.Subset.refl _, fun _ => rfl⟩

theorem foldl_settlePair_shrinks {open_ : List (Assertion R I)}
    (hne : ∀ assertion ∈ open_, assertion.recAKey ≠ assertion.recBKey) (state : CutState R P I) :
    Shrinks state (open_.foldl (settlePair cutProtectProbability protectedRecords) state) := by
  apply foldl_keeps (fun later => Shrinks state later) _ _ (Shrinks.refl state)
  intro assertion hassertion later hshrinks
  exact hshrinks.trans (settlePair_shrinks (hne assertion hassertion))

/-- The distinct pairs that are co-clustered and not escalated. -/
def openPairs (never : List (Assertion R I)) (everyNode : BTreeSet R) (state : CutState R P I) :
    Finset (R × R) :=
  ((violations never everyNode state).map Assertion.pair).toFinset

/-- Live edges plus un-escalated co-clustered pairs. -/
def workLeft (never : List (Assertion R I)) (everyNode : BTreeSet R) (state : CutState R P I) : ℕ :=
  state.live.length + (openPairs never everyNode state).card

omit [LinearOrder P] in
theorem mem_violations (hne : ∀ assertion ∈ never, assertion.recAKey ≠ assertion.recBKey) :
    assertion ∈ violations never everyNode state ↔ assertion ∈ never ∧
      assertion.pair ∉ state.escalatedPairs ∧
      Connected state.live assertion.recAKey assertion.recBKey := by
  rw [violations, List.mem_filter]
  apply and_congr_right
  intro hassertion
  simp [coClustered_iff_connected (hne assertion hassertion)]

omit [LinearOrder P] in
theorem Shrinks.openPairs_subset {later : CutState R P I} (hshrinks : Shrinks state later)
    (hne : ∀ assertion ∈ never, assertion.recAKey ≠ assertion.recBKey) :
    openPairs never everyNode later ⊆ openPairs never everyNode state := by
  intro pair hpair
  simp only [openPairs, List.mem_toFinset, List.mem_map, mem_violations hne] at hpair ⊢
  obtain ⟨assertion, ⟨hassertion, hopen, hconnected⟩, hsame⟩ := hpair
  refine ⟨assertion, ⟨hassertion, fun h => hopen (hshrinks.escalated h), ?_⟩, hsame⟩
  exact hconnected.mono fun edge hedge => hshrinks.live.subset hedge

omit [LinearOrder P] in
theorem Shrinks.workLeft_le {later : CutState R P I} (hshrinks : Shrinks state later)
    (hne : ∀ assertion ∈ never, assertion.recAKey ≠ assertion.recBKey) :
    workLeft never everyNode later ≤ workLeft never everyNode state :=
  Nat.add_le_add hshrinks.live.length_le (Finset.card_le_card (hshrinks.openPairs_subset hne))

theorem workLeft_settlePair_lt (hne : ∀ assertion ∈ never, assertion.recAKey ≠ assertion.recBKey)
    (hopen : assertion ∈ violations never everyNode state) :
    workLeft never everyNode (settlePair cutProtectProbability protectedRecords state assertion) <
      workLeft never everyNode state := by
  obtain ⟨hassertion, _, hconnected⟩ := (mem_violations hne).mp hopen
  have hshrinks : Shrinks state
      (settlePair cutProtectProbability protectedRecords state assertion) :=
    settlePair_shrinks (hne assertion hassertion)
  have hsubset : openPairs never everyNode _ ⊆ openPairs never everyNode state :=
    hshrinks.openPairs_subset hne
  rcases settlePair_cases cutProtectProbability protectedRecords state (hne assertion hassertion)
    with ⟨hapart, _⟩ | ⟨_, hstep⟩ | ⟨edge, source, hsource, hpair, _, _, hstep⟩
  · exact absurd hconnected hapart
  · -- The escalated pair is no longer open.
    apply Nat.add_lt_add_of_le_of_lt hshrinks.live.length_le
    apply Finset.card_lt_card
    refine ⟨hsubset, fun hsuperset => ?_⟩
    have hmem : assertion.pair ∈ openPairs never everyNode state :=
      List.mem_toFinset.mpr (List.mem_map_of_mem hopen)
    obtain ⟨other, hother, hsame⟩ := List.mem_map.mp (List.mem_toFinset.mp (hsuperset hmem))
    apply ((mem_violations hne).mp hother).2.1
    rw [hstep, hsame]
    exact Finset.mem_insert_self _ _
  · -- The cut edge is no longer live.
    apply Nat.add_lt_add_of_lt_of_le _ (Finset.card_le_card hsubset)
    rw [hstep]
    apply List.length_filter_lt_length_iff_exists.mpr
    exact ⟨source, hsource, by simp [hpair]⟩

/-- A round with a violation makes progress and reduces the work that is left. -/
theorem round_spec (hne : ∀ assertion ∈ never, assertion.recAKey ≠ assertion.recBKey)
    (hopen : violations never everyNode state ≠ []) :
    (round never everyNode cutProtectProbability protectedRecords state).progressed = true ∧
      workLeft never everyNode (round never everyNode cutProtectProbability
        protectedRecords state) <
        workLeft never everyNode state := by
  have hlist : ∀ assertion ∈ violations never everyNode state,
      assertion.recAKey ≠ assertion.recBKey := fun assertion hassertion =>
    hne assertion ((mem_violations hne).mp hassertion).1
  rw [round]
  cases hviolations : violations never everyNode state with
  | nil => exact absurd hviolations hopen
  | cons first rest =>
      rw [hviolations] at hlist
      have hfirst : first ∈ violations never everyNode state.nextRound := by
        have hmem : first ∈ violations never everyNode state := by simp [hviolations]
        exact hmem
      rw [List.foldl_cons]
      have hrest : Shrinks
          (settlePair cutProtectProbability protectedRecords state.nextRound first)
          (rest.foldl (settlePair cutProtectProbability protectedRecords)
            (settlePair cutProtectProbability protectedRecords state.nextRound first)) :=
        foldl_settlePair_shrinks (fun other hother => hlist other (List.mem_cons_of_mem _ hother)) _
      obtain ⟨hnever, _, hconnected⟩ := (mem_violations hne).mp hfirst
      refine ⟨hrest.progressed (settlePair_progressed (hne first hnever) hconnected), ?_⟩
      have hless : workLeft never everyNode state.nextRound = workLeft never everyNode state := rfl
      rw [← hless]
      exact lt_of_le_of_lt (hrest.workLeft_le hne) (workLeft_settlePair_lt hne hfirst)

end Step

section Progress

variable {never : List (Assertion R I)} {everyNode : BTreeSet R} {cutProtectProbability : P}
  {protectedRecords : Finset R} {maxIterations : ℕ}

/-- A round that starts with a violation is followed by the rest of the loop. -/
theorem settle_succ_of_open (hne : ∀ assertion ∈ never, assertion.recAKey ≠ assertion.recBKey)
    (rounds : ℕ) {state : CutState R P I} (hopen : violations never everyNode state ≠ []) :
    settle never everyNode cutProtectProbability protectedRecords maxIterations (rounds + 1) state =
      settle never everyNode cutProtectProbability protectedRecords maxIterations rounds
        (round never everyNode cutProtectProbability protectedRecords state) := by
  have hprogressed : (round never everyNode cutProtectProbability protectedRecords
      state).progressed = true := (round_spec hne hopen).1
  rw [settle, if_neg hopen]
  simp only [hprogressed, if_true]

/-- No run of the loop ends for want of progress. -/
theorem settle_ne_noProgress (hne : ∀ assertion ∈ never, assertion.recAKey ≠ assertion.recBKey)
    (rounds : ℕ) (state : CutState R P I) (n : ℕ) :
    settle never everyNode cutProtectProbability protectedRecords maxIterations rounds state ≠
      .error (.noProgress n) := by
  induction rounds generalizing state with
  | zero =>
      rw [settle]
      split <;> simp
  | succ rounds ih =>
      by_cases hopen : violations never everyNode state = []
      · rw [settle, if_pos hopen]
        simp
      · rw [settle_succ_of_open hne rounds hopen]
        exact ih _

theorem exists_settle_eq_ok (hne : ∀ assertion ∈ never, assertion.recAKey ≠ assertion.recBKey)
    (rounds : ℕ) (state : CutState R P I) (henough : workLeft never everyNode state ≤ rounds) :
    ∃ result, settle never everyNode cutProtectProbability protectedRecords maxIterations rounds
      state = .ok result := by
  induction rounds generalizing state with
  | zero =>
      have hsettled : violations never everyNode state = [] := by
        have hcard : (openPairs never everyNode state).card = 0 := by
          rw [workLeft] at henough
          omega
        simpa [openPairs] using hcard
      rw [settle, if_pos hsettled]
      exact ⟨_, rfl⟩
  | succ rounds ih =>
      by_cases hopen : violations never everyNode state = []
      · rw [settle, if_pos hopen]
        exact ⟨_, rfl⟩
      · rw [settle_succ_of_open hne rounds hopen]
        apply ih
        have hless : workLeft never everyNode
            (round never everyNode cutProtectProbability protectedRecords state) <
              workLeft never everyNode state := (round_spec hne hopen).2
        omega

end Progress

/-- The loop always makes progress: it never reports a round without progress, every round
that starts with a violation strictly reduces the live edges plus the open pairs, and with
as many rounds as there are edges and distinct active `never` pairs the loop returns. -/
theorem never_cut_progress {edges : List (PathEdge R P)} {assertions : List (Assertion R I)}
    (hinput : WellFormed edges assertions) (nodes : List R) (cutProtectProbability : P)
    (protectedRecords : Finset R) :
    (∀ maxIterations n, neverCutFixpoint edges assertions nodes cutProtectProbability
      protectedRecords maxIterations ≠ .error (.noProgress n)) ∧
    (∀ (everyNode : BTreeSet R) (state : CutState R P I),
      violations (activeNever assertions) everyNode state ≠ [] →
      workLeft (activeNever assertions) everyNode (round (activeNever assertions) everyNode
        cutProtectProbability protectedRecords state) <
        workLeft (activeNever assertions) everyNode state) ∧
    ∀ maxIterations, edges.length + ((activeNever assertions).map Assertion.pair).toFinset.card ≤
        maxIterations →
      ∃ result, neverCutFixpoint edges assertions nodes cutProtectProbability protectedRecords
        maxIterations = .ok result := by
  have hne : ∀ assertion ∈ activeNever assertions, assertion.recAKey ≠ assertion.recBKey :=
    fun assertion hassertion => hinput.endpoints assertion (List.mem_filter.mp hassertion).1
  refine ⟨?_, fun everyNode state hopen => (round_spec hne hopen).2, ?_⟩
  · intro maxIterations n
    rw [neverCutFixpoint]
    split
    · simp
    · exact settle_ne_noProgress hne _ _ n
  · intro maxIterations henough
    rw [neverCutFixpoint]
    split
    · exact ⟨_, rfl⟩
    · apply exists_settle_eq_ok hne
      apply le_trans _ henough
      apply Nat.add_le_add_left
      apply Finset.card_le_card
      intro pair hpair
      rw [openPairs, List.mem_toFinset] at hpair
      obtain ⟨assertion, hassertion, rfl⟩ := List.mem_map.mp hpair
      exact List.mem_toFinset.mpr (List.mem_map_of_mem (List.mem_filter.mp hassertion).1)

/-- A triangle, and an edge at the protection threshold. -/
def sampleEdges : List (PathEdge ℕ ℕ) := [⟨1, 2, 90⟩, ⟨2, 3, 80⟩, ⟨3, 1, 70⟩, ⟨4, 5, 99⟩]

/-- One pair in the triangle and the ends of the protected edge must not be joined. -/
def sampleAssertions : List (Assertion ℕ ℕ) :=
  [⟨7, 1, 3, .never, true⟩, ⟨8, 4, 5, .never, true⟩]

theorem sample_wellFormed : WellFormed sampleEdges sampleAssertions :=
  ⟨by decide, by decide, by decide⟩

theorem never_cut_progress_sample :
    WellFormed sampleEdges sampleAssertions ∧
      ∃ result, neverCutFixpoint sampleEdges sampleAssertions [9] 95 ∅ 6 = .ok result :=
  ⟨sample_wellFormed, (never_cut_progress sample_wellFormed [9] 95 ∅).2.2 6 (by decide)⟩

end EntityResolution.NeverCut
