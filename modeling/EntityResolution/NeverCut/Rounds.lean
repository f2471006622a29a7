/-
# How many rounds a graph needs

A round treats every `never` pair that was joined when it started and has not been given up: if the
pair is still joined, the weakest hop of its least path that may be cut is cut, and where no hop may
be cut the pair is given up. How many rounds a graph needs is a matter of how many paths join its
pairs. The loop follows these rounds, and a bound on its iterations decides only whether it gets to
the last one.
-/

import EntityResolution.NeverCut.Progress
import EntityResolution.NeverCut.ShortestPath

namespace EntityResolution.NeverCut

open EntityResolution.Collections

universe u v w

variable {R : Type u} {P : Type v} {I : Type w} [LinearOrder R] [LinearOrder P]

/-- The edges that are left and the pairs that were given up. -/
structure Cutting (R : Type u) (P : Type v) where
  live : List (PathEdge R P)
  givenUp : Finset (R × R)

/-- The weakest hop of a path that may be cut. -/
structure IsWeakestHop (cutProtectProbability : P) (protectedRecords : Finset R)
    (edges : List (PathEdge R P)) (path : List R) (edge : PathEdge R P) : Prop where
  cuttable : edge ∈ candidates path edges cutProtectProbability protectedRecords
  weakest : ∀ other ∈ candidates path edges cutProtectProbability protectedRecords,
    edge.cutKey ≤ other.cutKey

/-- What happens to a pair in a round. -/
inductive PairStep (cutProtectProbability : P) (protectedRecords : Finset R) :
    Cutting R P → R → R → Cutting R P → Prop
  | apart {cutting : Cutting R P} {a b : R} (hapart : ¬ Connected cutting.live a b) :
      PairStep cutProtectProbability protectedRecords cutting a b cutting
  | cut {cutting : Cutting R P} {a b : R} {path : List R} {edge : PathEdge R P}
      (hpath : IsLeastPath cutting.live a b path)
      (hedge : IsWeakestHop cutProtectProbability protectedRecords cutting.live path edge) :
      PairStep cutProtectProbability protectedRecords cutting a b
        { cutting with
          live := cutting.live.filter fun other => other.pair ≠ (edge.left, edge.right) }
  | giveUp {cutting : Cutting R P} {a b : R} {path : List R}
      (hpath : IsLeastPath cutting.live a b path)
      (hnone : candidates path cutting.live cutProtectProbability protectedRecords = []) :
      PairStep cutProtectProbability protectedRecords cutting a b
        { cutting with givenUp := insert (canon a b) cutting.givenUp }

/-- One pair after the other. -/
inductive PairSteps (cutProtectProbability : P) (protectedRecords : Finset R) :
    Cutting R P → List (Assertion R I) → Cutting R P → Prop
  | nil (cutting : Cutting R P) :
      PairSteps cutProtectProbability protectedRecords cutting [] cutting
  | cons {cutting next last : Cutting R P} {assertion : Assertion R I}
      {rest : List (Assertion R I)}
      (hfirst : PairStep cutProtectProbability protectedRecords cutting assertion.recAKey
        assertion.recBKey next)
      (hrest : PairSteps cutProtectProbability protectedRecords next rest last) :
      PairSteps cutProtectProbability protectedRecords cutting (assertion :: rest) last

/-- The pair is joined and was not given up. -/
def Cutting.Open (cutting : Cutting R P) (assertion : Assertion R I) : Prop :=
  assertion.pair ∉ cutting.givenUp ∧ Connected cutting.live assertion.recAKey assertion.recBKey

open scoped Classical in
/-- A round: the pairs that are open at its start, in their order. -/
def RoundStep (never : List (Assertion R I)) (cutProtectProbability : P)
    (protectedRecords : Finset R) (cutting next : Cutting R P) : Prop :=
  PairSteps cutProtectProbability protectedRecords cutting
    (never.filter fun assertion => cutting.Open assertion) next

/-- A number of rounds. -/
inductive Rounds (never : List (Assertion R I)) (cutProtectProbability : P)
    (protectedRecords : Finset R) : ℕ → Cutting R P → Cutting R P → Prop
  | zero (cutting : Cutting R P) :
      Rounds never cutProtectProbability protectedRecords 0 cutting cutting
  | succ {rounds : ℕ} {cutting next last : Cutting R P}
      (hrounds : Rounds never cutProtectProbability protectedRecords rounds cutting next)
      (hround : RoundStep never cutProtectProbability protectedRecords next last) :
      Rounds never cutProtectProbability protectedRecords (rounds + 1) cutting last

/-- No pair is open after a number of rounds. -/
def SettlesWithin (never : List (Assertion R I)) (cutProtectProbability : P)
    (protectedRecords : Finset R) (rounds : ℕ) (edges : List (PathEdge R P)) : Prop :=
  ∃ left, Rounds never cutProtectProbability protectedRecords rounds ⟨edges, ∅⟩ left ∧
    ∀ assertion ∈ never, ¬ left.Open assertion

/-- What the loop has cut and given up. -/
def CutState.cutting (state : CutState R P I) : Cutting R P := ⟨state.live, state.escalatedPairs⟩

omit [LinearOrder R] [LinearOrder P] in
theorem PathEdge.cutKey_injective : Function.Injective (PathEdge.cutKey (R := R) (P := P)) := by
  intro first second hkey
  cases first
  cases second
  simpa [PathEdge.cutKey, and_assoc, and_comm, and_left_comm] using hkey

section Steps

variable {never : List (Assertion R I)} {everyNode : BTreeSet R} {cutProtectProbability : P}
  {protectedRecords : Finset R} {state : CutState R P I} {assertion : Assertion R I}
  {maxIterations : ℕ}

theorem IsWeakestHop.eq {edges : List (PathEdge R P)} {path : List R} {edge other : PathEdge R P}
    (hedge : IsWeakestHop cutProtectProbability protectedRecords edges path edge)
    (hother : IsWeakestHop cutProtectProbability protectedRecords edges path other) :
    edge = other :=
  PathEdge.cutKey_injective
    (le_antisymm (hedge.weakest other hother.cuttable) (hother.weakest edge hedge.cuttable))

/-- A pair has one fate in a round. -/
theorem PairStep.unique {cutting first second : Cutting R P} {a b : R}
    (hfirst : PairStep cutProtectProbability protectedRecords cutting a b first)
    (hsecond : PairStep cutProtectProbability protectedRecords cutting a b second) :
    first = second := by
  cases hfirst with
  | apart hapart =>
      cases hsecond with
      | apart _ => rfl
      | cut hpath _ => exact absurd hpath.connected hapart
      | giveUp hpath _ => exact absurd hpath.connected hapart
  | cut hpath hedge =>
      cases hsecond with
      | apart hapart => exact absurd hpath.connected hapart
      | cut hother hweakest =>
          rw [← hpath.eq hother] at hweakest
          rw [hedge.eq hweakest]
      | giveUp hother hnone =>
          rw [← hpath.eq hother] at hnone
          have hcuttable := hedge.cuttable
          rw [hnone] at hcuttable
          exact absurd hcuttable List.not_mem_nil
  | giveUp hpath hnone =>
      cases hsecond with
      | apart hapart => exact absurd hpath.connected hapart
      | cut hother hweakest =>
          rw [hpath.eq hother] at hnone
          have hcuttable := hweakest.cuttable
          rw [hnone] at hcuttable
          exact absurd hcuttable List.not_mem_nil
      | giveUp _ _ => rfl

/-- Settling a pair is what happens to it in a round. -/
theorem pairStep_settlePair (hne : assertion.recAKey ≠ assertion.recBKey) :
    PairStep cutProtectProbability protectedRecords state.cutting assertion.recAKey
      assertion.recBKey (settlePair cutProtectProbability protectedRecords state
        assertion).cutting := by
  rw [settlePair, CutState.cutting]
  cases hpath : shortestPath assertion.recAKey assertion.recBKey state.live with
  | none =>
      apply PairStep.apart
      intro hjoined
      obtain ⟨path, hsome⟩ := (shortestPath_spec hne).2 hjoined
      cases hpath.symm.trans hsome
  | some path =>
      have hleast := isLeastPath_of_shortestPath hpath
      simp only
      cases hchosen : chooseCutEdge path state.live cutProtectProbability protectedRecords with
      | none => exact .giveUp hleast (List.argmin_eq_none.mp hchosen)
      | some edge =>
          have hweakest : IsWeakestHop cutProtectProbability protectedRecords
            state.live path edge :=
            ⟨List.argmin_mem hchosen, fun other hother => List.le_of_mem_argmin hother hchosen⟩
          exact .cut hleast hweakest

theorem pairStep_iff (hne : assertion.recAKey ≠ assertion.recBKey) {next : Cutting R P} :
    PairStep cutProtectProbability protectedRecords state.cutting assertion.recAKey
        assertion.recBKey next ↔
      next = (settlePair cutProtectProbability protectedRecords state assertion).cutting := by
  apply Iff.intro
  · intro hstep
    exact hstep.unique (pairStep_settlePair hne)
  · rintro rfl
    exact pairStep_settlePair hne

theorem pairSteps_iff {pairs : List (Assertion R I)}
    (hne : ∀ assertion ∈ pairs, assertion.recAKey ≠ assertion.recBKey) {next : Cutting R P} :
    PairSteps cutProtectProbability protectedRecords state.cutting pairs next ↔
      next = (pairs.foldl (settlePair cutProtectProbability protectedRecords) state).cutting := by
  induction pairs generalizing state with
  | nil =>
      apply Iff.intro
      · intro hsteps
        cases hsteps
        rfl
      · rintro rfl
        exact .nil _
  | cons assertion rest ih =>
      have hfirst := hne assertion List.mem_cons_self
      have hrest : ∀ other ∈ rest, other.recAKey ≠ other.recBKey := fun other hother =>
        hne other (List.mem_cons_of_mem _ hother)
      rw [List.foldl_cons, ← ih hrest]
      apply Iff.intro
      · intro hsteps
        cases hsteps with
        | cons hstep hmore => rwa [(pairStep_iff hfirst).mp hstep] at hmore
      · intro hmore
        exact .cons ((pairStep_iff hfirst).mpr rfl) hmore

omit [LinearOrder P] in
/-- The violations of a state are its open pairs. -/
theorem violations_eq_filter (hne : ∀ assertion ∈ never, assertion.recAKey ≠ assertion.recBKey)
    (state : CutState R P I)
    [DecidablePred fun assertion : Assertion R I => state.cutting.Open assertion] :
    violations never everyNode state =
      never.filter fun assertion => state.cutting.Open assertion := by
  rw [violations]
  apply List.filter_congr
  intro assertion hassertion
  rw [decide_eq_decide, coClustered_iff_connected (hne assertion hassertion)]
  rfl

theorem roundStep_iff (hne : ∀ assertion ∈ never, assertion.recAKey ≠ assertion.recBKey)
    (everyNode : BTreeSet R) {next : Cutting R P} :
    RoundStep never cutProtectProbability protectedRecords state.cutting next ↔
      next = (round never everyNode cutProtectProbability protectedRecords state).cutting := by
  classical
  rw [RoundStep, round, violations_eq_filter hne state]
  change PairSteps _ _ state.nextRound.cutting _ next ↔ _
  exact pairSteps_iff fun assertion hassertion => hne assertion (List.mem_filter.mp hassertion).1

theorem rounds_iff (hne : ∀ assertion ∈ never, assertion.recAKey ≠ assertion.recBKey)
    (everyNode : BTreeSet R) {rounds : ℕ} {next : Cutting R P} :
    Rounds never cutProtectProbability protectedRecords rounds state.cutting next ↔
      next = ((round never everyNode cutProtectProbability protectedRecords)^[rounds]
        state).cutting := by
  induction rounds generalizing next with
  | zero =>
      apply Iff.intro
      · intro hrounds
        cases hrounds
        rfl
      · rintro rfl
        exact .zero _
  | succ rounds ih =>
      rw [Function.iterate_succ_apply']
      apply Iff.intro
      · intro hrounds
        cases hrounds with
        | succ hbefore hround =>
            rw [ih.mp hbefore] at hround
            exact (roundStep_iff hne everyNode).mp hround
      · intro hnext
        exact .succ (ih.mpr rfl) ((roundStep_iff hne everyNode).mpr hnext)

theorem settlesWithin_iff (hne : ∀ assertion ∈ never, assertion.recAKey ≠ assertion.recBKey)
    (everyNode : BTreeSet R) {rounds : ℕ} {edges : List (PathEdge R P)} :
    SettlesWithin never cutProtectProbability protectedRecords rounds edges ↔
      violations never everyNode ((round never everyNode cutProtectProbability
        protectedRecords)^[rounds] { live := edges }) = [] := by
  classical
  rw [violations_eq_filter hne, List.filter_eq_nil_iff, SettlesWithin]
  have hstart : ({ live := edges } : CutState R P I).cutting = ⟨edges, ∅⟩ := rfl
  simp only [← hstart, rounds_iff hne everyNode, exists_eq_left, decide_eq_true_eq]

/-- A round of a settled state changes nothing that counts. -/
theorem violations_round_of_settled (hsettled : violations never everyNode state = []) :
    violations never everyNode
      (round never everyNode cutProtectProbability protectedRecords state) = [] := by
  rw [round, hsettled]
  exact hsettled

theorem violations_iterate_of_settled (hsettled : violations never everyNode state = [])
    (rounds : ℕ) :
    violations never everyNode ((round never everyNode cutProtectProbability
      protectedRecords)^[rounds] state) = [] := by
  induction rounds with
  | zero => exact hsettled
  | succ rounds ih =>
      rw [Function.iterate_succ_apply']
      exact violations_round_of_settled ih

theorem exists_settle_iff (hne : ∀ assertion ∈ never, assertion.recAKey ≠ assertion.recBKey)
    (rounds : ℕ) (state : CutState R P I) :
    (∃ result, settle never everyNode cutProtectProbability protectedRecords maxIterations rounds
        state = .ok result) ↔
      violations never everyNode ((round never everyNode cutProtectProbability
        protectedRecords)^[rounds] state) = [] := by
  induction rounds generalizing state with
  | zero =>
      rw [settle, Function.iterate_zero_apply]
      split
      · rename_i hsettled
        simp [hsettled]
      · rename_i hopen
        simp [hopen]
  | succ rounds ih =>
      rw [Function.iterate_succ_apply]
      by_cases hopen : violations never everyNode state = []
      · have hlater : violations never everyNode ((round never everyNode cutProtectProbability
            protectedRecords)^[rounds] (round never everyNode cutProtectProbability
              protectedRecords state)) = [] :=
          violations_iterate_of_settled (violations_round_of_settled hopen) rounds
        rw [settle, if_pos hopen]
        simp [hlater]
      · rw [settle_succ_of_open hne rounds hopen]
        exact ih _

theorem settle_mono (hne : ∀ assertion ∈ never, assertion.recAKey ≠ assertion.recBKey)
    {rounds more bound : ℕ} {result : CutResult R P I} (hle : rounds ≤ more)
    (hresult : settle never everyNode cutProtectProbability protectedRecords maxIterations rounds
      state = .ok result) :
    settle never everyNode cutProtectProbability protectedRecords bound more state =
      .ok result := by
  induction rounds generalizing state more with
  | zero =>
      rw [settle] at hresult
      split at hresult
      · rename_i hsettled
        cases more with
        | zero => rwa [settle, if_pos hsettled]
        | succ more => rwa [settle, if_pos hsettled]
      · cases hresult
  | succ rounds ih =>
      obtain ⟨extra, rfl⟩ := Nat.exists_eq_add_of_le' hle
      rw [← Nat.add_assoc]
      by_cases hopen : violations never everyNode state = []
      · rw [settle, if_pos hopen] at hresult ⊢
        exact hresult
      · rw [settle_succ_of_open hne _ hopen] at hresult ⊢
        exact ih (Nat.le_add_left _ _) hresult

end Steps

section Bound

variable {edges : List (PathEdge R P)} {assertions : List (Assertion R I)} {nodes : List R}
  {cutProtectProbability : P} {protectedRecords : Finset R}

theorem exists_fixpoint_iff
    (hne : ∀ assertion ∈ activeNever assertions, assertion.recAKey ≠ assertion.recBKey)
    (maxIterations : ℕ) :
    (∃ result, neverCutFixpoint edges assertions nodes cutProtectProbability protectedRecords
        maxIterations = .ok result) ↔
      SettlesWithin (activeNever assertions) cutProtectProbability protectedRecords maxIterations
        edges := by
  rw [settlesWithin_iff hne (withEndpoints (Std.ExtTreeSet.ofList nodes compare) edges),
    neverCutFixpoint]
  split
  · rename_i hnone
    simp [hnone, violations]
  · exact exists_settle_iff hne maxIterations _

theorem exists_fixpoint
    (hne : ∀ assertion ∈ activeNever assertions, assertion.recAKey ≠ assertion.recBKey) :
    ∃ bound result, neverCutFixpoint edges assertions nodes cutProtectProbability protectedRecords
      bound = .ok result := by
  by_cases hnone : activeNever assertions = []
  · exact ⟨0, {}, by rw [neverCutFixpoint, if_pos hnone]⟩
  · simp only [neverCutFixpoint, if_neg hnone]
    exact ⟨_, exists_settle_eq_ok hne _ _ (le_refl _)⟩

theorem fixpoint_mono
    (hne : ∀ assertion ∈ activeNever assertions, assertion.recAKey ≠ assertion.recBKey)
    {bound more : ℕ} {result : CutResult R P I} (hle : bound ≤ more)
    (hresult : neverCutFixpoint edges assertions nodes cutProtectProbability protectedRecords
      bound = .ok result) :
    neverCutFixpoint edges assertions nodes cutProtectProbability protectedRecords more =
      .ok result := by
  rw [neverCutFixpoint] at hresult ⊢
  split at hresult
  · rename_i hnone
    rwa [if_pos hnone]
  · rename_i hsome
    rw [if_neg hsome]
    exact settle_mono hne hle hresult

end Bound

end EntityResolution.NeverCut
