/-
# What the never-cut fixpoint guarantees

The invariant describes the live edges as the input edges whose pairs were not cut, so
"the edges minus the cuts" is the live graph itself. Uncuttable edges are never cut:
that is why a pair joined by them stays co-clustered until it is escalated, and why an
escalation, although it is decided on a single path, says something about the input.

Two runs on reorderings of one edge list go through the same states up to the order of
the live edges. The components, the path and the choice of an edge do not see that
order.
-/

import EntityResolution.NeverCut.Progress

namespace EntityResolution.NeverCut

open EntityResolution.Collections

universe u v w

variable {R : Type u} {P : Type v} {I : Type w} [LinearOrder R] [LinearOrder P]

/-- The canonical pair of a cut. -/
def Cut.pair (cut : Cut R P I) : R × R := (cut.recAKey, cut.recBKey)

/-- The input edges whose pairs were not cut. -/
def remaining (edges : List (PathEdge R P)) (cuts : List (Cut R P I)) : List (PathEdge R P) :=
  edges.filter fun edge => edge.pair ∉ cuts.map Cut.pair

/-- The pair was escalated, under some assertion. -/
def Escalated (escalations : List (R × R × I)) (pair : R × R) : Prop :=
  ∃ assertionId, (pair.1, pair.2, assertionId) ∈ escalations

section Invariant

variable {edges : List (PathEdge R P)} {never : List (Assertion R I)} {everyNode : BTreeSet R}
  {cutProtectProbability : P} {protectedRecords : Finset R} {state : CutState R P I}
  {assertion : Assertion R I}

/-- What every state of the loop satisfies. -/
structure Sound (edges : List (PathEdge R P)) (never : List (Assertion R I))
    (cutProtectProbability : P) (protectedRecords : Finset R) (state : CutState R P I) : Prop where
  live_eq : state.live = remaining edges state.cuts
  cut_source : ∀ cut ∈ state.cuts, ∃ edge ∈ edges, edge.pair = cut.pair ∧
    edge.probability = cut.matchProbability ∧
    Cuttable cutProtectProbability protectedRecords edge.pair edge.probability
  cuts_nodup : (state.cuts.map Cut.pair).Nodup
  escalatedPairs_iff : ∀ pair, pair ∈ state.escalatedPairs ↔ Escalated state.escalated pair
  escalated_source : ∀ entry ∈ state.escalated, ∃ assertion ∈ never,
    entry = (assertion.pair.1, assertion.pair.2, assertion.assertionId) ∧
    Connected (uncuttable cutProtectProbability protectedRecords edges) assertion.recAKey
      assertion.recBKey

theorem sound_start : Sound edges never cutProtectProbability protectedRecords
    ({ live := edges } : CutState R P I) where
  live_eq := by simp [remaining]
  cut_source := by simp
  cuts_nodup := by simp
  escalatedPairs_iff := by simp [Escalated]
  escalated_source := by simp

/-- Escalating a pair that only uncuttable live edges join. -/
theorem Sound.escalate (hsound : Sound edges never cutProtectProbability protectedRecords state)
    (hassertion : assertion ∈ never)
    (hconnected : Connected (uncuttable cutProtectProbability protectedRecords state.live)
      assertion.recAKey assertion.recBKey) :
    Sound edges never cutProtectProbability protectedRecords (state.escalate assertion) where
  live_eq := hsound.live_eq
  cut_source := hsound.cut_source
  cuts_nodup := hsound.cuts_nodup
  escalatedPairs_iff pair := by
    rw [CutState.escalate, Finset.mem_insert, hsound.escalatedPairs_iff]
    simp only [Escalated, List.mem_append, List.mem_singleton, Prod.mk.injEq]
    apply Iff.intro
    · intro h
      rcases h with rfl | ⟨assertionId, hmem⟩
      · exact ⟨assertion.assertionId, .inr ⟨rfl, rfl, rfl⟩⟩
      · exact ⟨assertionId, .inl hmem⟩
    · intro h
      obtain ⟨assertionId, hmem | ⟨hfirst, hsecond, _⟩⟩ := h
      · exact .inr ⟨assertionId, hmem⟩
      · exact .inl (Prod.ext hfirst hsecond)
  escalated_source entry hentry := by
    rcases List.mem_append.mp hentry with hentry | hentry
    · exact hsound.escalated_source entry hentry
    · refine ⟨assertion, hassertion, List.mem_singleton.mp hentry, hconnected.mono ?_⟩
      intro edge hedge
      obtain ⟨hlive, huncuttable⟩ := List.mem_filter.mp hedge
      rw [hsound.live_eq] at hlive
      exact List.mem_filter.mpr ⟨(List.mem_filter.mp hlive).1, huncuttable⟩

/-- Cutting a cuttable live edge. -/
theorem Sound.cut (hsound : Sound edges never cutProtectProbability protectedRecords state)
    {edge source : PathEdge R P} (hsource : source ∈ state.live)
    (hpair : source.pair = (edge.left, edge.right))
    (hprobability : source.probability = edge.probability)
    (hcuttable : Cuttable cutProtectProbability protectedRecords source.pair source.probability) :
    Sound edges never cutProtectProbability protectedRecords (state.cut edge assertion) where
  live_eq := by
    rw [CutState.cut, hsound.live_eq, remaining, remaining, List.filter_filter]
    apply List.filter_congr
    intro other _
    simp [Cut.pair, and_comm]
  cut_source cut hcut := by
    rcases List.mem_append.mp hcut with hcut | hcut
    · exact hsound.cut_source cut hcut
    · rw [List.mem_singleton.mp hcut]
      rw [hsound.live_eq] at hsource
      exact ⟨source, (List.mem_filter.mp hsource).1, hpair, hprobability, hcuttable⟩
  cuts_nodup := by
    rw [CutState.cut, List.map_append, List.map_singleton, List.nodup_append]
    refine ⟨hsound.cuts_nodup, List.nodup_singleton _, ?_⟩
    intro earlier hearlier last hlast hsame
    rw [hsound.live_eq] at hsource
    have hfresh : source.pair ∉ state.cuts.map Cut.pair := by
      simpa using (List.mem_filter.mp hsource).2
    rw [List.mem_singleton.mp hlast] at hsame
    have hagain : earlier = source.pair := hsame.trans hpair.symm
    exact hfresh (hagain ▸ hearlier)
  escalatedPairs_iff := hsound.escalatedPairs_iff
  escalated_source := hsound.escalated_source

/-- The step lemma. -/
theorem Sound.settlePair (hsound : Sound edges never cutProtectProbability protectedRecords state)
    (hassertion : assertion ∈ never) (hne : assertion.recAKey ≠ assertion.recBKey) :
    Sound edges never cutProtectProbability protectedRecords
      (settlePair cutProtectProbability protectedRecords state assertion) := by
  rcases settlePair_cases cutProtectProbability protectedRecords state hne with
    ⟨_, hstep⟩ | ⟨hconnected, hstep⟩ | ⟨edge, source, hsource, hpair, hprobability, hcut, hstep⟩
  · rw [hstep]
    exact hsound
  · rw [hstep]
    exact hsound.escalate hassertion hconnected
  · rw [hstep]
    exact hsound.cut hsource hpair hprobability hcut

theorem Sound.round (hsound : Sound edges never cutProtectProbability protectedRecords state)
    (hne : ∀ assertion ∈ never, assertion.recAKey ≠ assertion.recBKey) :
    Sound edges never cutProtectProbability protectedRecords
      (round never everyNode cutProtectProbability protectedRecords state) := by
  apply foldl_keeps (Sound edges never cutProtectProbability protectedRecords)
  · intro assertion hassertion later hlater
    have hnever := (List.mem_filter.mp hassertion).1
    exact hlater.settlePair hnever (hne assertion hnever)
  · exact ⟨hsound.live_eq, hsound.cut_source, hsound.cuts_nodup, hsound.escalatedPairs_iff,
      hsound.escalated_source⟩

theorem exists_sound_of_settle {maxIterations rounds : ℕ} {result : CutResult R P I}
    (hsound : Sound edges never cutProtectProbability protectedRecords state)
    (hne : ∀ assertion ∈ never, assertion.recAKey ≠ assertion.recBKey)
    (hresult : settle never everyNode cutProtectProbability protectedRecords maxIterations rounds
      state = .ok result) :
    ∃ final, Sound edges never cutProtectProbability protectedRecords final ∧
      violations never everyNode final = [] ∧ result.cuts = final.cuts ∧
      result.escalations = final.escalated := by
  have hstop {reached : CutState R P I}
      (hreached : Sound edges never cutProtectProbability protectedRecords reached)
      (hsettled : violations never everyNode reached = [])
      (hok : (.ok ⟨reached.cuts, reached.escalated, reached.iterations⟩ :
        Except NeverCutError (CutResult R P I)) = .ok result) :
      ∃ final, Sound edges never cutProtectProbability protectedRecords final ∧
        violations never everyNode final = [] ∧ result.cuts = final.cuts ∧
        result.escalations = final.escalated := by
    cases hok
    exact ⟨reached, hreached, hsettled, rfl, rfl⟩
  induction rounds generalizing state with
  | zero =>
      rw [settle] at hresult
      by_cases hopen : violations never everyNode state = []
      · rw [if_pos hopen] at hresult
        exact hstop hsound hopen hresult
      · rw [if_neg hopen] at hresult
        cases hresult
  | succ rounds ih =>
      by_cases hopen : violations never everyNode state = []
      · rw [settle, if_pos hopen] at hresult
        exact hstop hsound hopen hresult
      · rw [settle_succ_of_open hne rounds hopen] at hresult
        exact ih (hsound.round hne) hresult

/-- No cut takes an uncuttable edge of an input with one edge per pair. -/
theorem Sound.uncuttable_live (hsound : Sound edges never cutProtectProbability protectedRecords
    state) (hnodup : (edges.map PathEdge.pair).Nodup) {edge : PathEdge R P}
    (hedge : edge ∈ uncuttable cutProtectProbability protectedRecords edges) :
    edge ∈ state.live := by
  obtain ⟨hmem, huncuttable⟩ := List.mem_filter.mp hedge
  rw [hsound.live_eq]
  refine List.mem_filter.mpr ⟨hmem, decide_eq_true fun hcut => ?_⟩
  obtain ⟨cut, hcut, hpair⟩ := List.mem_map.mp hcut
  obtain ⟨source, hsource, hsame, _, hcuttable⟩ := hsound.cut_source cut hcut
  have hequal : source = edge :=
    List.inj_on_of_nodup_map hnodup hsource hmem (hsame.trans hpair)
  subst hequal
  simp [hcuttable] at huncuttable

/-- Without violations every `never` pair is escalated or disconnected. -/
theorem Sound.closed (hsound : Sound edges never cutProtectProbability protectedRecords state)
    (hne : ∀ assertion ∈ never, assertion.recAKey ≠ assertion.recBKey)
    (hsettled : violations never everyNode state = []) (hassertion : assertion ∈ never) :
    Escalated state.escalated assertion.pair ∨
      ¬ Connected state.live assertion.recAKey assertion.recBKey := by
  by_contra hopen
  rw [not_or, not_not, ← hsound.escalatedPairs_iff] at hopen
  exact List.eq_nil_iff_forall_not_mem.mp hsettled assertion
    ((mem_violations hne).mpr ⟨hassertion, hopen.1, hopen.2⟩)

/-- An escalated pair is joined by uncuttable edges of the input. -/
theorem Sound.connected_of_escalated
    (hsound : Sound edges never cutProtectProbability protectedRecords state) {a b : R}
    (hescalated : Escalated state.escalated (canon a b)) :
    Connected (uncuttable cutProtectProbability protectedRecords edges) a b := by
  obtain ⟨assertionId, hentry⟩ := hescalated
  obtain ⟨other, _, hsame, hconnected⟩ := hsound.escalated_source _ hentry
  -- The entry names the pair, possibly in the other order of its records.
  rcases canon_eq_canon_iff.mp (Prod.ext (Prod.mk.inj hsame).1
    (Prod.mk.inj (Prod.mk.inj hsame).2).1 : canon a b = other.pair) with ⟨ha, hb⟩ | ⟨ha, hb⟩
  · rw [ha, hb]
    exact hconnected
  · rw [ha, hb]
    exact hconnected.symm

theorem Sound.escalated_iff
    (hsound : Sound edges never cutProtectProbability protectedRecords state)
    (hnodup : (edges.map PathEdge.pair).Nodup)
    (hne : ∀ assertion ∈ never, assertion.recAKey ≠ assertion.recBKey)
    (hsettled : violations never everyNode state = []) (hassertion : assertion ∈ never) :
    Escalated state.escalated assertion.pair ↔
      Connected (uncuttable cutProtectProbability protectedRecords edges) assertion.recAKey
        assertion.recBKey := by
  apply Iff.intro
  · exact hsound.connected_of_escalated
  · intro hconnected
    apply (hsound.closed hne hsettled hassertion).resolve_right
    rw [not_not]
    exact hconnected.mono fun edge hedge => hsound.uncuttable_live hnodup hedge

end Invariant

section Order

variable {edges edges' : List (PathEdge R P)}

omit [LinearOrder P] in
theorem joined_iff_of_perm (hperm : edges.Perm edges') (a b : R) :
    Joined edges a b ↔ Joined edges' a b := by
  apply exists_congr
  intro edge
  rw [hperm.mem_iff]

omit [LinearOrder P] in
theorem withEndpoints_congr (hjoined : ∀ a b, Joined edges a b ↔ Joined edges' a b)
    (nodes : BTreeSet R) : withEndpoints nodes edges = withEndpoints nodes edges' := by
  apply Std.ExtTreeSet.ext_mem
  intro record
  simp only [mem_withEndpoints, hjoined]

omit [LinearOrder P] in
theorem coClustered_congr (hjoined : ∀ a b, Joined edges a b ↔ Joined edges' a b)
    (nodes : BTreeSet R) (a b : R) :
    coClustered (components edges nodes) a b = coClustered (components edges' nodes) a b := by
  have hsame : Joined edges = Joined edges' := by
    funext c d
    exact propext (hjoined c d)
  rw [Bool.eq_iff_iff, coClustered_components, coClustered_components,
    withEndpoints_congr hjoined, Connected, Connected, hsame]

/-- What a cut reads of a pair: its probability, when that is below the threshold. -/
def cutValue (cutProtectProbability : P) (edges : List (PathEdge R P)) (pair : R × R) : Option P :=
  (probabilities edges)[toLex pair]?.filter fun value => value < cutProtectProbability

/-- Two edge lists that the fixpoint cannot tell apart: they join the same records, and a cut
reads the same of every pair. -/
structure ReadsAlike (cutProtectProbability : P) (edges edges' : List (PathEdge R P)) : Prop where
  joined : ∀ a b, Joined edges a b ↔ Joined edges' a b
  value : ∀ pair, cutValue cutProtectProbability edges pair =
    cutValue cutProtectProbability edges' pair

/-- The edges of one pair agree as far as a cut can see: they have one probability, or all
of them reach the threshold. -/
def PairsAgree (cutProtectProbability : P) (edges : List (PathEdge R P)) : Prop :=
  ∀ first ∈ edges, ∀ second ∈ edges, first.pair = second.pair →
    first.probability = second.probability ∨
      cutProtectProbability ≤ first.probability ∧ cutProtectProbability ≤ second.probability

theorem pairsAgree_of_nodup (cutProtectProbability : P)
    (hnodup : (edges.map PathEdge.pair).Nodup) : PairsAgree cutProtectProbability edges := by
  intro first hfirst second hsecond hpair
  have hsame : first = second := List.inj_on_of_nodup_map hnodup hfirst hsecond hpair
  exact .inl (congrArg PathEdge.probability hsame)

theorem readsAlike_of_perm {cutProtectProbability : P} (hperm : edges.Perm edges')
    (hagree : PairsAgree cutProtectProbability edges) :
    ReadsAlike cutProtectProbability edges edges' where
  joined := joined_iff_of_perm hperm
  value pair := by
    rw [cutValue, cutValue]
    cases hvalue : (probabilities edges)[toLex pair]? with
    | none =>
        cases hvalue' : (probabilities edges')[toLex pair]? with
        | none => rfl
        | some value' =>
            obtain ⟨edge, hedge, hpair, _⟩ := (probabilities_spec _).1 _ hvalue'
            rcases (probabilities_spec _).2 ⟨edge, hperm.mem_iff.mpr hedge, hpair⟩ with
              ⟨value, hsome⟩
            cases hvalue.symm.trans hsome
    | some value =>
        obtain ⟨edge, hedge, hpair, rfl⟩ := (probabilities_spec _).1 _ hvalue
        rcases (probabilities_spec _).2 ⟨edge, hperm.mem_iff.mp hedge, hpair⟩ with
          ⟨value', hvalue'⟩
        obtain ⟨edge', hedge', hpair', rfl⟩ := (probabilities_spec _).1 _ hvalue'
        rw [hvalue']
        rcases hagree edge hedge edge' (hperm.mem_iff.mpr hedge') (hpair.trans hpair'.symm) with
          hsame | ⟨hhigh, hhigh'⟩
        · rw [hsame]
        · simp [Option.filter, not_lt.mpr hhigh, not_lt.mpr hhigh']

/-- Dropping the same pairs keeps two lists alike. -/
theorem ReadsAlike.filter {cutProtectProbability : P}
    (halike : ReadsAlike cutProtectProbability edges edges') (keep : R × R → Bool) :
    ReadsAlike cutProtectProbability (edges.filter fun edge => keep edge.pair)
      (edges'.filter fun edge => keep edge.pair) where
  joined a b := by
    have hfilter (list : List (PathEdge R P)) :
        Joined (list.filter fun edge => keep edge.pair) a b ↔
          Joined list a b ∧ keep (canon a b) = true := by
      apply Iff.intro
      · intro h
        obtain ⟨edge, hedge, hpair⟩ := h
        obtain ⟨hmem, hkeep⟩ := List.mem_filter.mp hedge
        exact ⟨⟨edge, hmem, hpair⟩, hpair ▸ hkeep⟩
      · intro h
        obtain ⟨⟨edge, hedge, hpair⟩, hkeep⟩ := h
        exact ⟨edge, List.mem_filter.mpr ⟨hedge, hpair ▸ hkeep⟩, hpair⟩
    rw [hfilter, hfilter, halike.joined]
  value pair := by
    have hvalue := halike.value pair
    rw [cutValue, cutValue] at hvalue ⊢
    rw [getElem?_probabilities_filter, getElem?_probabilities_filter]
    split
    · exact hvalue
    · rfl

theorem candidates_congr {cutProtectProbability : P}
    (halike : ReadsAlike cutProtectProbability edges edges') (path : List R)
    (protectedRecords : Finset R) :
    candidates path edges cutProtectProbability protectedRecords =
      candidates path edges' cutProtectProbability protectedRecords := by
  have hcut (list : List (PathEdge R P)) :
      candidates path list cutProtectProbability protectedRecords =
        (path.zip path.tail).filterMap fun hop =>
          (cutValue cutProtectProbability list (canon hop.1 hop.2)).bind fun value =>
            if Cuttable cutProtectProbability protectedRecords (canon hop.1 hop.2) value then
              some ⟨(canon hop.1 hop.2).1, (canon hop.1 hop.2).2, value⟩
            else none := by
    apply List.filterMap_congr
    intro hop _
    rw [cutValue]
    cases (probabilities list)[toLex (canon hop.1 hop.2)]? with
    | none => rfl
    | some value =>
        by_cases hlow : value < cutProtectProbability
        · simp [Option.filter, hlow]
        · simp [Option.filter, hlow, Cuttable]
  rw [hcut, hcut]
  simp only [halike.value]

theorem chooseCutEdge_congr {cutProtectProbability : P}
    (halike : ReadsAlike cutProtectProbability edges edges') (path : List R)
    (protectedRecords : Finset R) :
    chooseCutEdge path edges cutProtectProbability protectedRecords =
      chooseCutEdge path edges' cutProtectProbability protectedRecords := by
  rw [chooseCutEdge, chooseCutEdge, candidates_congr halike]

/-- The same state up to the order of its live edges, with one live edge per pair. -/
structure SameUpToOrder (first second : CutState R P I) : Prop where
  perm : first.live.Perm second.live
  nodup : (first.live.map PathEdge.pair).Nodup
  rest : second = { first with live := second.live }

/-- The same state up to live edges that read alike. -/
structure SameReading (cutProtectProbability : P) (first second : CutState R P I) : Prop where
  alike : ReadsAlike cutProtectProbability first.live second.live
  rest : second = { first with live := second.live }

variable {never : List (Assertion R I)} {everyNode : BTreeSet R} {cutProtectProbability : P}
  {protectedRecords : Finset R} {first second : CutState R P I}

theorem SameUpToOrder.reading (hsame : SameUpToOrder first second) (cutProtectProbability : P) :
    SameReading cutProtectProbability first second :=
  ⟨readsAlike_of_perm hsame.perm (pairsAgree_of_nodup cutProtectProbability hsame.nodup),
    hsame.rest⟩

theorem SameReading.violations_eq (hsame : SameReading cutProtectProbability first second) :
    violations never everyNode first = violations never everyNode second := by
  rw [violations, violations]
  apply List.filter_congr
  intro assertion _
  rw [coClustered_congr hsame.alike.joined, hsame.rest]

/-- The step lemma: settling a pair keeps two such states alike. -/
theorem SameReading.settlePair (hsame : SameReading cutProtectProbability first second)
    (assertion : Assertion R I) :
    SameReading cutProtectProbability
      (settlePair cutProtectProbability protectedRecords first assertion)
      (NeverCut.settlePair cutProtectProbability protectedRecords second assertion) := by
  obtain ⟨halike, hrest⟩ := hsame
  obtain ⟨live, cuts, escalated, escalatedPairs, iterations, progressed⟩ := second
  rw [CutState.mk.injEq] at hrest
  obtain ⟨_, rfl, rfl, rfl, rfl, rfl⟩ := hrest
  have hpath := shortestPath_congr halike.joined assertion.recAKey assertion.recBKey
  simp only [NeverCut.settlePair]
  rw [← hpath]
  cases shortestPath assertion.recAKey assertion.recBKey first.live with
  | none => exact ⟨halike, rfl⟩
  | some path =>
      have hchoice := chooseCutEdge_congr halike path protectedRecords
      simp only
      rw [← hchoice]
      cases chooseCutEdge path first.live cutProtectProbability protectedRecords with
      | none => exact ⟨halike, rfl⟩
      | some edge => exact ⟨halike.filter fun pair => pair ≠ (edge.left, edge.right), rfl⟩

theorem SameReading.foldl_settlePair (open_ : List (Assertion R I))
    (hsame : SameReading cutProtectProbability first second) :
    SameReading cutProtectProbability
      (open_.foldl (NeverCut.settlePair cutProtectProbability protectedRecords) first)
      (open_.foldl (NeverCut.settlePair cutProtectProbability protectedRecords) second) := by
  induction open_ generalizing first second with
  | nil => exact hsame
  | cons assertion open_ ih => exact ih (hsame.settlePair assertion)

theorem SameReading.round (hsame : SameReading cutProtectProbability first second) :
    SameReading cutProtectProbability
      (round never everyNode cutProtectProbability protectedRecords first)
      (NeverCut.round never everyNode cutProtectProbability protectedRecords second) := by
  rw [NeverCut.round, NeverCut.round, hsame.violations_eq]
  apply SameReading.foldl_settlePair
  refine ⟨hsame.alike, ?_⟩
  rw [CutState.nextRound, CutState.nextRound, hsame.rest]

theorem SameReading.settle_eq (hsame : SameReading cutProtectProbability first second)
    (maxIterations rounds : ℕ) :
    settle never everyNode cutProtectProbability protectedRecords maxIterations rounds first =
      settle never everyNode cutProtectProbability protectedRecords maxIterations
        rounds second := by
  induction rounds generalizing first second with
  | zero => rw [settle, settle, hsame.violations_eq, hsame.rest]
  | succ rounds ih =>
      have hround : SameReading cutProtectProbability
          (NeverCut.round never everyNode cutProtectProbability protectedRecords first)
          (NeverCut.round never everyNode cutProtectProbability protectedRecords second) :=
        hsame.round
      have hprogressed :
          (NeverCut.round never everyNode cutProtectProbability protectedRecords
            second).progressed =
          (NeverCut.round never everyNode cutProtectProbability protectedRecords
            first).progressed := by rw [hround.rest]
      simp only [settle]
      rw [hsame.violations_eq, ih hround, hprogressed, hsame.rest]

theorem ReadsAlike.fixpoint_eq (halike : ReadsAlike cutProtectProbability edges edges')
    (assertions : List (Assertion R I)) (nodes : List R) (protectedRecords : Finset R)
    (maxIterations : ℕ) :
    neverCutFixpoint edges assertions nodes cutProtectProbability protectedRecords maxIterations =
      neverCutFixpoint edges' assertions nodes cutProtectProbability protectedRecords
        maxIterations := by
  have hstart : SameReading cutProtectProbability ({ live := edges } : CutState R P I)
      { live := edges' } := ⟨halike, rfl⟩
  rw [neverCutFixpoint, neverCutFixpoint, withEndpoints_congr halike.joined, hstart.settle_eq]

end Order

omit [LinearOrder R] [LinearOrder P] in
theorem mem_activeNever {assertions : List (Assertion R I)} {assertion : Assertion R I} :
    assertion ∈ activeNever assertions ↔
      assertion ∈ assertions ∧ assertion.kind = .never ∧ assertion.active = true := by
  simp [activeNever]

/-! ## Rules that never apply -/

section Idle

variable {edges : List (PathEdge R P)} {never : List (Assertion R I)} {everyNode : BTreeSet R}
  {cutProtectProbability : P} {protectedRecords : Finset R} {state : CutState R P I}
  {keep : Assertion R I → Bool}

omit [LinearOrder P] in
/-- Rules on records that the edges do not join are never violated. -/
theorem violations_filter (hne : ∀ assertion ∈ never, assertion.recAKey ≠ assertion.recBKey)
    (hidle : ∀ assertion ∈ never, keep assertion = false →
      ¬ Connected edges assertion.recAKey assertion.recBKey)
    (hlive : state.live.Sublist edges) :
    violations (never.filter keep) everyNode state = violations never everyNode state := by
  rw [violations, violations, List.filter_filter]
  apply List.filter_congr
  intro assertion hassertion
  cases hkeep : keep assertion with
  | true => rw [Bool.and_true]
  | false =>
      have hapart : coClustered (components state.live everyNode) assertion.recAKey
          assertion.recBKey ≠ true := by
        intro hjoined
        rw [coClustered_iff_connected (hne assertion hassertion)] at hjoined
        exact hidle assertion hassertion hkeep
          (hjoined.mono fun edge hedge => hlive.subset hedge)
      simp [hapart]

/-- A round only removes live edges. -/
theorem live_round (hne : ∀ assertion ∈ never, assertion.recAKey ≠ assertion.recBKey) :
    (round never everyNode cutProtectProbability protectedRecords state).live.Sublist
      state.live := by
  have hshrinks : Shrinks state.nextRound
      (round never everyNode cutProtectProbability protectedRecords state) := by
    apply foldl_settlePair_shrinks
    intro assertion hassertion
    exact hne assertion (List.mem_filter.mp hassertion).1
  exact hshrinks.live

theorem settle_filter (hne : ∀ assertion ∈ never, assertion.recAKey ≠ assertion.recBKey)
    (hidle : ∀ assertion ∈ never, keep assertion = false →
      ¬ Connected edges assertion.recAKey assertion.recBKey)
    (hlive : state.live.Sublist edges) (maxIterations rounds : ℕ) :
    settle (never.filter keep) everyNode cutProtectProbability protectedRecords maxIterations
        rounds state =
      settle never everyNode cutProtectProbability protectedRecords maxIterations rounds state := by
  have hkept : ∀ assertion ∈ never.filter keep, assertion.recAKey ≠ assertion.recBKey :=
    fun assertion hassertion => hne assertion (List.mem_filter.mp hassertion).1
  induction rounds generalizing state with
  | zero => rw [settle, settle, violations_filter hne hidle hlive]
  | succ rounds ih =>
      have hviolations : violations (never.filter keep) everyNode state =
          violations never everyNode state := violations_filter hne hidle hlive
      by_cases hopen : violations never everyNode state = []
      · rw [settle, settle, hviolations, if_pos hopen, if_pos hopen]
      · have hround : round (never.filter keep) everyNode cutProtectProbability protectedRecords
            state = round never everyNode cutProtectProbability protectedRecords state := by
          rw [round, round, hviolations]
        rw [settle_succ_of_open hne rounds hopen,
          settle_succ_of_open hkept rounds (hviolations ▸ hopen), hround]
        exact ih ((live_round hne).trans hlive)

/-- The fixpoint decides the same without the rules on records that the edges do not join. -/
theorem fixpoint_filter {assertions : List (Assertion R I)}
    (hne : ∀ assertion ∈ assertions, assertion.recAKey ≠ assertion.recBKey)
    (hidle : ∀ assertion ∈ assertions, keep assertion = false →
      ¬ Connected edges assertion.recAKey assertion.recBKey)
    (nodes : List R) (maxIterations : ℕ) :
    neverCutFixpoint edges (assertions.filter keep) nodes cutProtectProbability protectedRecords
        maxIterations =
      neverCutFixpoint edges assertions nodes cutProtectProbability protectedRecords
        maxIterations := by
  have hne' : ∀ assertion ∈ activeNever assertions, assertion.recAKey ≠ assertion.recBKey :=
    fun assertion hassertion => hne assertion (mem_activeNever.mp hassertion).1
  have hidle' : ∀ assertion ∈ activeNever assertions, keep assertion = false →
      ¬ Connected edges assertion.recAKey assertion.recBKey :=
    fun assertion hassertion => hidle assertion (mem_activeNever.mp hassertion).1
  have hactive : activeNever (assertions.filter keep) = (activeNever assertions).filter keep := by
    rw [activeNever, activeNever, List.filter_filter, List.filter_filter]
    simp only [Bool.and_comm]
  have hloop : settle ((activeNever assertions).filter keep)
        (withEndpoints (Std.ExtTreeSet.ofList nodes compare) edges) cutProtectProbability
        protectedRecords maxIterations maxIterations { live := edges } =
      settle (activeNever assertions) (withEndpoints (Std.ExtTreeSet.ofList nodes compare) edges)
        cutProtectProbability protectedRecords maxIterations maxIterations { live := edges } :=
    settle_filter hne' hidle' (List.Sublist.refl edges) maxIterations maxIterations
  rw [neverCutFixpoint, neverCutFixpoint, hactive, hloop]
  by_cases hnone : activeNever assertions = []
  · simp [hnone]
  · rw [if_neg hnone]
    split
    · -- All rules are idle, so the loop stops before its first round.
      rename_i hempty
      rw [← hloop, hempty]
      cases maxIterations <;> simp [settle, violations]
    · rfl

end Idle

theorem exists_sound_of_fixpoint {rows : List (PathEdge R P)} {cutProtectProbability : P}
    {assertions : List (Assertion R I)} {nodes : List R}
    {protectedRecords : Finset R} {maxIterations : ℕ} {result : CutResult R P I}
    (hne : ∀ assertion ∈ assertions, assertion.recAKey ≠ assertion.recBKey)
    (hresult : neverCutFixpoint rows assertions nodes cutProtectProbability protectedRecords
      maxIterations = .ok result) :
    ∃ final, Sound rows (activeNever assertions) cutProtectProbability protectedRecords final ∧
      violations (activeNever assertions)
        (withEndpoints (Std.ExtTreeSet.ofList nodes compare) rows) final = [] ∧
      result.cuts = final.cuts ∧ result.escalations = final.escalated := by
  have hdistinct : ∀ assertion ∈ activeNever assertions, assertion.recAKey ≠ assertion.recBKey :=
    fun assertion hassertion => hne assertion (mem_activeNever.mp hassertion).1
  rw [neverCutFixpoint] at hresult
  split at hresult
  · rename_i hnone
    cases hresult
    exact ⟨{ live := rows }, sound_start, by rw [hnone]; rfl, rfl, rfl⟩
  · exact exists_sound_of_settle sound_start hdistinct hresult

/-- Soundness of the fixpoint. When it returns, every active `never` pair is disconnected
in the remaining edges or escalated; a pair is escalated exactly when uncuttable edges of
the input join it; every cut is a cuttable edge of the input with its own probability, and
no pair is cut twice. Whatever it returns does not depend on the order of the edges. -/
theorem never_cut_sound {edges : List (PathEdge R P)} {assertions : List (Assertion R I)}
    (hinput : WellFormed edges assertions) (nodes : List R) (cutProtectProbability : P)
    (protectedRecords : Finset R) (maxIterations : ℕ) :
    (∀ result, neverCutFixpoint edges assertions nodes cutProtectProbability protectedRecords
        maxIterations = .ok result →
      (∀ assertion ∈ assertions, assertion.kind = .never → assertion.active = true →
        (¬ Connected (remaining edges result.cuts) assertion.recAKey assertion.recBKey ∨
          Escalated result.escalations assertion.pair) ∧
        (Escalated result.escalations assertion.pair ↔
          Connected (uncuttable cutProtectProbability protectedRecords edges) assertion.recAKey
            assertion.recBKey)) ∧
      (∀ entry ∈ result.escalations, ∃ assertion ∈ assertions, assertion.kind = .never ∧
        assertion.active = true ∧
        entry = (assertion.pair.1, assertion.pair.2, assertion.assertionId)) ∧
      (∀ cut ∈ result.cuts, ∃ edge ∈ edges, edge.pair = cut.pair ∧
        edge.probability = cut.matchProbability ∧
        Cuttable cutProtectProbability protectedRecords edge.pair edge.probability) ∧
      (result.cuts.map Cut.pair).Nodup) ∧
    ∀ edges' : List (PathEdge R P), edges'.Perm edges →
      neverCutFixpoint edges' assertions nodes cutProtectProbability protectedRecords
        maxIterations =
      neverCutFixpoint edges assertions nodes cutProtectProbability protectedRecords
        maxIterations := by
  have hne : ∀ assertion ∈ activeNever assertions, assertion.recAKey ≠ assertion.recBKey :=
    fun assertion hassertion => hinput.endpoints assertion (mem_activeNever.mp hassertion).1
  apply And.intro
  · intro result hresult
    by_cases hnone : activeNever assertions = []
    · rw [neverCutFixpoint, if_pos hnone] at hresult
      cases hresult
      refine ⟨?_, by simp, by simp, by simp⟩
      intro assertion hassertion hkind hactive
      have hmem := mem_activeNever.mpr ⟨hassertion, hkind, hactive⟩
      simp [hnone] at hmem
    · rw [neverCutFixpoint, if_neg hnone] at hresult
      rcases exists_sound_of_settle sound_start hne hresult with
        ⟨final, hsound, hsettled, hcuts, hescalations⟩
      rw [hcuts, hescalations]
      refine ⟨?_, ?_, hsound.cut_source, hsound.cuts_nodup⟩
      · intro assertion hassertion hkind hactive
        have hnever := mem_activeNever.mpr ⟨hassertion, hkind, hactive⟩
        rw [← hsound.live_eq]
        exact ⟨(hsound.closed hne hsettled hnever).symm,
          hsound.escalated_iff hinput.pairs_nodup hne hsettled hnever⟩
      · intro entry hentry
        obtain ⟨assertion, hassertion, hsame, _⟩ := hsound.escalated_source entry hentry
        obtain ⟨hmem, hkind, hactive⟩ := mem_activeNever.mp hassertion
        exact ⟨assertion, hmem, hkind, hactive, hsame⟩
  · intro edges' hperm
    have hstart : SameUpToOrder ({ live := edges' } : CutState R P I) { live := edges } :=
      ⟨hperm, ((hperm.map _).nodup_iff).mpr hinput.pairs_nodup, rfl⟩
    exact (hstart.reading cutProtectProbability).alike.fixpoint_eq _ _ _ _

theorem never_cut_sound_sample :
    WellFormed sampleEdges sampleAssertions ∧
      neverCutFixpoint sampleEdges sampleAssertions [9] 95 ∅ 6 =
        .ok ⟨[⟨1, 3, 70, 7⟩, ⟨2, 3, 80, 7⟩], [(4, 5, 8)], 2⟩ ∧
      Connected (uncuttable 95 ∅ sampleEdges) 4 5 := by
  have hresult : neverCutFixpoint sampleEdges sampleAssertions [9] 95 ∅ 6 =
      .ok ⟨[⟨1, 3, 70, 7⟩, ⟨2, 3, 80, 7⟩], [(4, 5, 8)], 2⟩ := by decide
  refine ⟨sample_wellFormed, hresult, ?_⟩
  have hpairs := ((never_cut_sound sample_wellFormed [9] 95 ∅ 6).1 _ hresult).1
  exact (hpairs ⟨8, 4, 5, .never, true⟩ (by decide) rfl rfl).2.mp ⟨8, by decide⟩

end EntityResolution.NeverCut
