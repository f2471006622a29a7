/-
# Pairs with several rows

The edges of a reconcile are rows: a pair has one row per model that matched it, and one
more when a steward asserted it. The read orders them by pair only. The choice of a cut
looks a pair's probability up in a map that is built from the list, so the last row of a
pair decides, and with it the order in which the store returned equal keys.

The order is irrelevant exactly when the rows of every pair agree as far as a cut can see.
For the other direction it is enough to assert a `never` on a pair whose rows disagree: the
path between its records is the edge itself.
-/

import EntityResolution.NeverCut.Soundness

namespace EntityResolution.NeverCut

open EntityResolution.Collections

universe u v w

variable {R : Type u} {P : Type v} {I : Type w} [LinearOrder R] [LinearOrder P]

/-- What a result decides: the cuts and the escalations. -/
def CutResult.decisions (result : CutResult R P I) : List (Cut R P I) × List (R × R × I) :=
  (result.cuts, result.escalations)

/-- No ordering of the rows changes a decision. -/
def OrderIrrelevant (I : Type w) (rows : List (PathEdge R P)) (cutProtectProbability : P) : Prop :=
  ∀ (assertions : List (Assertion R I)) (nodes : List R) (protectedRecords : Finset R)
    (maxIterations : ℕ), (∀ assertion ∈ assertions, assertion.recAKey ≠ assertion.recBKey) →
    ∀ rows' : List (PathEdge R P), rows'.Perm rows →
      (neverCutFixpoint rows' assertions nodes cutProtectProbability protectedRecords
        maxIterations).map CutResult.decisions =
      (neverCutFixpoint rows assertions nodes cutProtectProbability protectedRecords
        maxIterations).map CutResult.decisions

/-- No ordering of the rows lets a pair be cut that has a row at or above the threshold. -/
def HighRowsHold (I : Type w) (rows : List (PathEdge R P)) (cutProtectProbability : P) : Prop :=
  ∀ (assertions : List (Assertion R I)) (nodes : List R) (protectedRecords : Finset R)
    (maxIterations : ℕ), (∀ assertion ∈ assertions, assertion.recAKey ≠ assertion.recBKey) →
    ∀ rows' : List (PathEdge R P), rows'.Perm rows → ∀ result,
      neverCutFixpoint rows' assertions nodes cutProtectProbability protectedRecords
        maxIterations = .ok result →
      ∀ row ∈ rows, cutProtectProbability ≤ row.probability →
        row.pair ∉ result.cuts.map Cut.pair

section Deciding

variable {rows : List (PathEdge R P)}

omit [LinearOrder P] in
theorem PathEdge.pair_ne {row : PathEdge R P} (hne : row.left ≠ row.right) :
    row.pair.1 ≠ row.pair.2 := by
  rw [PathEdge.pair, canon_eq_min_max]
  exact fun hsame => hne (inf_eq_sup.mp hsame)

omit [LinearOrder P] in
theorem PathEdge.canon_pair (row : PathEdge R P) : canon row.pair.1 row.pair.2 = row.pair := by
  rw [PathEdge.pair, canon_eq_min_max, canon_eq_min_max]
  simp

/-- The rows that decide: the last one of every pair. -/
def lastRows (rows : List (PathEdge R P)) : List (PathEdge R P) :=
  (probabilities rows).toList.map fun entry =>
    ⟨(ofLex entry.1).1, (ofLex entry.1).2, entry.2⟩

omit [LinearOrder P] in
theorem mem_lastRows {row : PathEdge R P} :
    row ∈ lastRows rows ↔
      (probabilities rows)[toLex (row.left, row.right)]? = some row.probability := by
  rw [lastRows, List.mem_map]
  apply Iff.intro
  · intro h
    obtain ⟨⟨pair, value⟩, hentry, rfl⟩ := h
    exact BTreeMap.mem_toList.mp hentry
  · intro hvalue
    exact ⟨(toLex (row.left, row.right), row.probability), BTreeMap.mem_toList.mpr hvalue, rfl⟩

omit [LinearOrder P] in
theorem lastRows_pair {row : PathEdge R P} (hrow : row ∈ lastRows rows) :
    row.pair = (row.left, row.right) := by
  obtain ⟨source, _, hpair, _⟩ := (probabilities_spec _).1 _ (mem_lastRows.mp hrow)
  have hcanon : canon row.left row.right = (row.left, row.right) := by
    have hsame := source.canon_pair
    rwa [hpair] at hsame
  exact hcanon

omit [LinearOrder P] in
theorem lastRows_pairs_nodup (rows : List (PathEdge R P)) :
    ((lastRows rows).map PathEdge.pair).Nodup := by
  have hpairs : (lastRows rows).map PathEdge.pair =
      (probabilities rows).toList.map fun entry => ofLex entry.1 := by
    rw [lastRows, List.map_map]
    apply List.map_congr_left
    intro entry hentry
    exact lastRows_pair (List.mem_map_of_mem hentry)
  rw [hpairs]
  apply List.Nodup.map_on
  · intro first hfirst second hsecond hsame
    have hkey : first.1 = second.1 := ofLex.injective hsame
    have hvalue := BTreeMap.mem_toList.mp hfirst
    have hvalue' := BTreeMap.mem_toList.mp hsecond
    rw [hkey] at hvalue
    exact Prod.ext hkey (Option.some.inj (hvalue.symm.trans hvalue'))
  · exact (BTreeMap.toList_pairwise_lt _).imp fun hlt hsame =>
      absurd (congrArg Prod.fst hsame) hlt.ne

omit [LinearOrder P] in
theorem joined_lastRows {a b : R} : Joined (lastRows rows) a b ↔ Joined rows a b := by
  apply Iff.intro
  · intro h
    obtain ⟨row, hrow, hpair⟩ := h
    obtain ⟨source, hsource, hsame, _⟩ := (probabilities_spec _).1 _ (mem_lastRows.mp hrow)
    exact ⟨source, hsource, hsame.trans ((lastRows_pair hrow).symm.trans hpair)⟩
  · intro h
    obtain ⟨row, hrow, hpair⟩ := h
    obtain ⟨value, hvalue⟩ := (probabilities_spec _).2 ⟨row, hrow, hpair⟩
    have hlast : ⟨(canon a b).1, (canon a b).2, value⟩ ∈ lastRows rows := mem_lastRows.mpr hvalue
    exact ⟨_, hlast, lastRows_pair hlast⟩

/-- The fixpoint sees the deciding rows only. -/
theorem readsAlike_lastRows (cutProtectProbability : P) (rows : List (PathEdge R P)) :
    ReadsAlike cutProtectProbability rows (lastRows rows) where
  joined _ _ := joined_lastRows.symm
  value pair := by
    have hsame : (probabilities (lastRows rows))[toLex pair]? =
        (probabilities rows)[toLex pair]? := by
      ext value
      apply Iff.intro
      · intro hvalue
        obtain ⟨row, hrow, hpair, rfl⟩ := (probabilities_spec _).1 _ hvalue
        rw [← hpair, lastRows_pair hrow]
        exact mem_lastRows.mp hrow
      · intro hvalue
        have hlast : ⟨pair.1, pair.2, value⟩ ∈ lastRows rows := mem_lastRows.mpr hvalue
        obtain ⟨other, hother⟩ := (probabilities_spec _).2 ⟨_, hlast, lastRows_pair hlast⟩
        obtain ⟨row, hrow, hpair, rfl⟩ := (probabilities_spec _).1 _ hother
        have hrow' := mem_lastRows.mp hrow
        rw [← lastRows_pair hrow, hpair] at hrow'
        rw [Option.some.inj (hvalue.symm.trans hrow')]
        exact hother
    rw [cutValue, cutValue, hsame]

end Deciding

section Agreeing

variable {rows : List (PathEdge R P)} {cutProtectProbability : P}

theorem PairsAgree.orderIrrelevant (hagree : PairsAgree cutProtectProbability rows) :
    OrderIrrelevant I rows cutProtectProbability := by
  intro assertions nodes protectedRecords maxIterations _ rows' hperm
  have hagree' : PairsAgree cutProtectProbability rows' :=
    fun first hfirst second hsecond =>
      hagree first (hperm.mem_iff.mp hfirst) second (hperm.mem_iff.mp hsecond)
  rw [(readsAlike_of_perm hperm hagree').fixpoint_eq]

theorem PairsAgree.highRowsHold (hagree : PairsAgree cutProtectProbability rows) :
    HighRowsHold I rows cutProtectProbability := by
  intro assertions nodes protectedRecords maxIterations hne rows' hperm result hresult row hrow
    hhigh hcut
  obtain ⟨final, hsound, _, hcuts, _⟩ := exists_sound_of_fixpoint hne hresult
  rw [hcuts] at hcut
  obtain ⟨cut, hmem, hpair⟩ := List.mem_map.mp hcut
  obtain ⟨source, hsource, hsame, _, hcuttable⟩ := hsound.cut_source cut hmem
  rcases hagree source (hperm.mem_iff.mp hsource) row hrow (hsame.trans hpair) with
    hequal | ⟨hsourceHigh, _⟩
  · exact absurd hcuttable.1 (not_lt.mpr (hequal ▸ hhigh))
  · exact absurd hcuttable.1 (not_lt.mpr hsourceHigh)

end Agreeing

section Disagreeing

variable {rows : List (PathEdge R P)} {cutProtectProbability : P}

omit [LinearOrder P] in
theorem joined_pair {row : PathEdge R P} (hrow : row ∈ rows) :
    Joined rows row.pair.1 row.pair.2 := ⟨row, hrow, row.canon_pair.symm⟩

omit [LinearOrder P] in
/-- The path between the records of a row is the row. -/
theorem shortestPath_of_row {row : PathEdge R P} (hrow : row ∈ rows) (hne : row.left ≠ row.right) :
    shortestPath row.pair.1 row.pair.2 rows = some [row.pair.1, row.pair.2] := by
  have hjoined : Joined rows row.pair.1 row.pair.2 := joined_pair hrow
  have hfirst : row.pair.1 ∈ adjacency rows := mem_adjacency.mpr ⟨_, hjoined⟩
  have hsecond : row.pair.2 ∈ adjacency rows := mem_adjacency.mpr ⟨_, hjoined.symm⟩
  rw [shortestPath, if_neg (PathEdge.pair_ne hne), if_neg (by simp [hfirst, hsecond])]
  exact BreadthFirst.bestPath_of_adjacent hfirst (PathEdge.pair_ne hne)
    (adjacent_adjacency.mpr hjoined)

/-- With the row last, the choice on its own path is that row or nothing. -/
theorem chooseCutEdge_concat (rows : List (PathEdge R P)) (last : PathEdge R P) :
    chooseCutEdge [last.pair.1, last.pair.2] (rows ++ [last]) cutProtectProbability ∅ =
      if last.probability < cutProtectProbability then
        some ⟨last.pair.1, last.pair.2, last.probability⟩
      else none := by
  have hcuttable : Cuttable cutProtectProbability ∅ last.pair last.probability ↔
      last.probability < cutProtectProbability := by
    simp [Cuttable]
  rw [chooseCutEdge, candidates]
  simp only [List.tail_cons, List.zip_cons_cons, List.zip_nil_right, List.filterMap_cons,
    List.filterMap_nil, last.canon_pair, getElem?_probabilities_concat,
    if_true, Option.bind_some, hcuttable]
  by_cases hlow : last.probability < cutProtectProbability
  · simp only [if_pos hlow]
    exact List.argmin_singleton
  · simp only [if_neg hlow]
    exact List.argmin_nil _

theorem mem_cuts_of_settle {never : List (Assertion R I)} {everyNode : BTreeSet R}
    {protectedRecords : Finset R} {maxIterations rounds : ℕ} {state : CutState R P I}
    {result : CutResult R P I} {cut : Cut R P I} (hcut : cut ∈ state.cuts)
    (hresult : settle never everyNode cutProtectProbability protectedRecords maxIterations rounds
      state = .ok result) : cut ∈ result.cuts := by
  have hstep (current : CutState R P I) (assertion : Assertion R I)
    (hcurrent : cut ∈ current.cuts) :
      cut ∈ (settlePair cutProtectProbability protectedRecords current assertion).cuts := by
    rw [settlePair]
    split
    · exact hcurrent
    · split
      · exact hcurrent
      · exact List.mem_append_left _ hcurrent
  induction rounds generalizing state with
  | zero =>
      rw [settle] at hresult
      split at hresult
      · cases hresult
        exact hcut
      · cases hresult
  | succ rounds ih =>
      simp only [settle] at hresult
      split at hresult
      · cases hresult
        exact hcut
      · split at hresult
        · apply ih _ hresult
          apply foldl_keeps (fun later : CutState R P I => cut ∈ later.cuts)
          · exact fun assertion _ later hlater => hstep later assertion hlater
          · exact hcut
        · cases hresult

/-- A `never` on a pair. -/
def neverOn [Inhabited I] (pair : R × R) : Assertion R I :=
  ⟨default, pair.1, pair.2, .never, true⟩

variable [Inhabited I] {last : PathEdge R P}

omit [LinearOrder P] in
/-- A `never` on the pair of a row is violated at the start. -/
theorem violations_neverOn (hne : last.left ≠ last.right) (everyNode : BTreeSet R) :
    violations [neverOn last.pair] everyNode ({ live := rows ++ [last] } : CutState R P I) =
      [neverOn last.pair] := by
  apply List.filter_eq_self.mpr
  intro assertion hassertion
  rw [List.mem_singleton.mp hassertion]
  have hconnected : Connected (rows ++ [last]) last.pair.1 last.pair.2 :=
    .single (joined_pair (List.mem_append_right _ List.mem_cons_self))
  simpa [neverOn] using (coClustered_iff_connected (PathEdge.pair_ne hne)).mpr hconnected

/-- The first round of a `never` on the last row's pair cuts the pair, or escalates it. -/
theorem round_neverOn (hne : last.left ≠ last.right) (everyNode : BTreeSet R) :
    round [neverOn last.pair] everyNode cutProtectProbability ∅
        ({ live := rows ++ [last] } : CutState R P I) =
      if last.probability < cutProtectProbability then
        (CutState.nextRound { live := rows ++ [last] }).cut
          ⟨last.pair.1, last.pair.2, last.probability⟩ (neverOn last.pair)
      else (CutState.nextRound { live := rows ++ [last] }).escalate (neverOn last.pair) := by
  have hpath : shortestPath (neverOn last.pair : Assertion R I).recAKey
      (neverOn last.pair : Assertion R I).recBKey
      (CutState.nextRound { live := rows ++ [last] } : CutState R P I).live =
        some [last.pair.1, last.pair.2] :=
    shortestPath_of_row (List.mem_append_right _ List.mem_cons_self) hne
  have hchoice : chooseCutEdge [last.pair.1, last.pair.2]
      (CutState.nextRound { live := rows ++ [last] } : CutState R P I).live cutProtectProbability
        ∅ = _ := chooseCutEdge_concat rows last
  rw [round, violations_neverOn hne, List.foldl_cons, List.foldl_nil, settlePair, hpath]
  simp only [hchoice]
  by_cases hlow : last.probability < cutProtectProbability
  · rw [if_pos hlow, if_pos hlow]
    rfl
  · rw [if_neg hlow, if_neg hlow]
    rfl

/-- A `never` on the last row's pair: the pair is cut at the row's probability, or nothing is
cut. -/
theorem fixpoint_neverOn (hne : last.left ≠ last.right) {maxIterations : ℕ}
    {result : CutResult R P I}
    (hresult : neverCutFixpoint (rows ++ [last]) [neverOn last.pair] [] cutProtectProbability ∅
      maxIterations = .ok result) :
    if last.probability < cutProtectProbability then
      ⟨last.pair.1, last.pair.2, last.probability, default⟩ ∈ result.cuts
    else result.cuts = [] := by
  have hactive : activeNever [(neverOn last.pair : Assertion R I)] = [neverOn last.pair] := rfl
  have hdistinct : ∀ assertion ∈ [(neverOn last.pair : Assertion R I)],
      assertion.recAKey ≠ assertion.recBKey := by
    simpa [neverOn] using PathEdge.pair_ne hne
  have hopen : violations [neverOn last.pair]
      (withEndpoints (Std.ExtTreeSet.ofList [] compare) (rows ++ [last]))
      ({ live := rows ++ [last] } : CutState R P I) ≠ [] := by
    rw [violations_neverOn hne]
    exact List.cons_ne_nil _ _
  rw [neverCutFixpoint, hactive, if_neg (List.cons_ne_nil _ _)] at hresult
  cases maxIterations with
  | zero =>
      rw [settle, if_neg hopen] at hresult
      cases hresult
  | succ rounds =>
      rw [settle_succ_of_open hdistinct rounds hopen, round_neverOn hne] at hresult
      by_cases hlow : last.probability < cutProtectProbability
      · rw [if_pos hlow] at hresult ⊢
        exact mem_cuts_of_settle (List.mem_append_right _ List.mem_cons_self) hresult
      · rw [if_neg hlow] at hresult ⊢
        -- The escalated pair is the only one, so the next round finds nothing to settle.
        have hsettled : violations [neverOn last.pair]
            (withEndpoints (Std.ExtTreeSet.ofList [] compare) (rows ++ [last]))
            ((CutState.nextRound { live := rows ++ [last] } : CutState R P I).escalate
              (neverOn last.pair)) = [] := by
          simp [violations, CutState.escalate]
        cases rounds <;>
        · rw [settle, if_pos hsettled] at hresult
          cases hresult
          rfl

theorem exists_fixpoint_neverOn (rows : List (PathEdge R P)) {pair : R × R}
    (hne : pair.1 ≠ pair.2) :
    ∃ result, neverCutFixpoint rows [(neverOn pair : Assertion R I)] [] cutProtectProbability ∅
      (rows.length + 1) = .ok result := by
  have hactive : activeNever [(neverOn pair : Assertion R I)] = [neverOn pair] := rfl
  rw [neverCutFixpoint, hactive, if_neg (List.cons_ne_nil _ _)]
  apply exists_settle_eq_ok
  · simpa [neverOn] using hne
  · apply Nat.add_le_add_left
    apply le_trans (List.toFinset_card_le _)
    rw [List.length_map]
    exact List.length_filter_le _ _

theorem perm_concat {row : PathEdge R P} (hrow : row ∈ rows) :
    (rows.erase row ++ [row]).Perm rows :=
  (List.perm_append_singleton _ _).trans (List.perm_cons_erase hrow).symm

/-- A row below the threshold decides its pair's cut when it comes last, so every row of the
pair has its probability. -/
theorem OrderIrrelevant.probability_eq (hirrelevant : OrderIrrelevant I rows cutProtectProbability)
    {low other : PathEdge R P} (hlow : low ∈ rows) (hother : other ∈ rows)
    (hpair : low.pair = other.pair) (hne : low.left ≠ low.right)
    (hne' : other.left ≠ other.right) (hcut : low.probability < cutProtectProbability) :
    low.probability = other.probability := by
  have hdistinct : ∀ assertion ∈ [(neverOn low.pair : Assertion R I)],
      assertion.recAKey ≠ assertion.recBKey := by
    simpa [neverOn] using PathEdge.pair_ne hne
  have hcuts (row : PathEdge R P) (hrow : row ∈ rows) (result result' : CutResult R P I)
      (hresult : neverCutFixpoint (rows.erase row ++ [row]) [neverOn low.pair] []
        cutProtectProbability ∅ (rows.length + 1) = .ok result)
      (hresult' : neverCutFixpoint rows [neverOn low.pair] [] cutProtectProbability ∅
        (rows.length + 1) = .ok result') : result.cuts = result'.cuts := by
    have hsame := hirrelevant [neverOn low.pair] [] ∅ (rows.length + 1) hdistinct _
      (perm_concat hrow)
    rw [hresult, hresult'] at hsame
    exact congrArg Prod.fst (Except.ok.inj hsame)
  have hlength (row : PathEdge R P) (hrow : row ∈ rows) :
      (rows.erase row ++ [row]).length = rows.length := (perm_concat hrow).length_eq
  have hreturns (rows' : List (PathEdge R P)) :
      ∃ result, neverCutFixpoint rows' [(neverOn low.pair : Assertion R I)] []
        cutProtectProbability ∅ (rows'.length + 1) = .ok result :=
    exists_fixpoint_neverOn rows' (PathEdge.pair_ne hne)
  obtain ⟨result, hresult⟩ := hreturns rows
  obtain ⟨lowLast, hlowLast⟩ := hreturns (rows.erase low ++ [low])
  obtain ⟨otherLast, hotherLast⟩ := hreturns (rows.erase other ++ [other])
  rw [hlength low hlow] at hlowLast
  rw [hlength other hother] at hotherLast
  have hfirst := fixpoint_neverOn hne hlowLast
  rw [if_pos hcut, hcuts low hlow _ _ hlowLast hresult] at hfirst
  have hsecond := fixpoint_neverOn hne' (hpair ▸ hotherLast)
  rw [hcuts other hother _ _ hotherLast hresult] at hsecond
  by_cases hcut' : other.probability < cutProtectProbability
  · rw [if_pos hcut'] at hsecond
    -- Both cuts are in one result, which cuts no pair twice.
    obtain ⟨final, hsound, _, hfinal, _⟩ := exists_sound_of_fixpoint hdistinct hresult
    have hnodup : (result.cuts.map Cut.pair).Nodup := hfinal ▸ hsound.cuts_nodup
    have hsame := List.inj_on_of_nodup_map hnodup hfirst hsecond hpair
    exact congrArg Cut.matchProbability hsame
  · rw [if_neg hcut'] at hsecond
    rw [hsecond] at hfirst
    exact absurd hfirst List.not_mem_nil

end Disagreeing

/-- The order of the rows decides neither a cut nor an escalation, and no pair with a row at
the threshold is ever cut, exactly when the rows of every pair agree. -/
theorem row_order_irrelevant_iff [Inhabited I] {rows : List (PathEdge R P)}
    (hloopless : ∀ row ∈ rows, row.left ≠ row.right) (cutProtectProbability : P) :
    OrderIrrelevant I rows cutProtectProbability ∧ HighRowsHold I rows cutProtectProbability ↔
      PairsAgree cutProtectProbability rows := by
  apply Iff.intro
  · intro h
    obtain ⟨hirrelevant, _⟩ := h
    intro first hfirst second hsecond hpair
    have hne := hloopless first hfirst
    have hne' := hloopless second hsecond
    by_cases hcut : first.probability < cutProtectProbability
    · exact .inl (hirrelevant.probability_eq hfirst hsecond hpair hne hne' hcut)
    · by_cases hcut' : second.probability < cutProtectProbability
      · exact .inl (hirrelevant.probability_eq hsecond hfirst hpair.symm hne' hne hcut').symm
      · exact .inr ⟨not_lt.mp hcut, not_lt.mp hcut'⟩
  · intro hagree
    exact ⟨hagree.orderIrrelevant, hagree.highRowsHold⟩

/-- Two rows of one pair, both at the threshold, and a weaker pair. -/
theorem row_order_irrelevant_of_high_rows :
    OrderIrrelevant ℕ [⟨1, 2, 99⟩, ⟨2, 3, 80⟩, ⟨1, 2, 97⟩] 95 ∧
      HighRowsHold ℕ [⟨1, 2, 99⟩, ⟨2, 3, 80⟩, ⟨1, 2, 97⟩] 95 :=
  (row_order_irrelevant_iff (by decide) 95).mpr (by unfold PairsAgree; decide)

/-- Two models' rows of one pair, on the two sides of the threshold. -/
def splitRows : List (PathEdge ℕ ℕ) := [⟨1, 2, 99⟩, ⟨1, 2, 80⟩]

/-- One order of the rows cuts the pair although a row of it is at the threshold, the other
escalates it. -/
theorem splitRows_order_decides :
    neverCutFixpoint splitRows [⟨7, 1, 2, .never, true⟩] [] 95 ∅ 6 =
      .ok ⟨[⟨1, 2, 80, 7⟩], [], 1⟩ ∧
    neverCutFixpoint splitRows.reverse [⟨7, 1, 2, .never, true⟩] [] 95 ∅ 6 =
      .ok ⟨[], [(1, 2, 7)], 1⟩ ∧
    ¬ OrderIrrelevant ℕ splitRows 95 ∧ ¬ HighRowsHold ℕ splitRows 95 := by
  have hcut : neverCutFixpoint splitRows [⟨7, 1, 2, .never, true⟩] [] 95 ∅ 6 =
      .ok ⟨[⟨1, 2, 80, 7⟩], [], 1⟩ := by decide
  have hescalate : neverCutFixpoint splitRows.reverse [⟨7, 1, 2, .never, true⟩] [] 95 ∅ 6 =
      .ok ⟨[], [(1, 2, 7)], 1⟩ := by decide
  refine ⟨hcut, hescalate, fun hirrelevant => ?_, fun hhold => ?_⟩
  · have hsame := hirrelevant [⟨7, 1, 2, .never, true⟩] [] ∅ 6 (by decide) splitRows.reverse
      (List.reverse_perm _)
    rw [hcut, hescalate] at hsame
    exact absurd hsame (by decide)
  · exact hhold [⟨7, 1, 2, .never, true⟩] [] ∅ 6 (by decide) splitRows (List.Perm.refl _) _ hcut
      ⟨1, 2, 99⟩ (by decide) (by decide) (by decide)

end EntityResolution.NeverCut
