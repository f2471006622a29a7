/-
# Two views of connectivity that agree

The loop tests co-clustering with a union-find and looks for a path with a search, on
the same live edges. Both compute the same relation: being joined by a walk along edges,
taken in either direction. Stating each of them against that relation is what lets a
round know that the first violation it meets has a path.

Edges are read through their canonical pairs, so neither the order of the edge list nor
the orientation of an edge matters to any of the three helpers.
-/

import EntityResolution.NeverCut.Fixpoint

namespace EntityResolution.NeverCut

open EntityResolution.Collections EntityResolution.Identity

universe u v w

variable {R : Type u} {P : Type v} [LinearOrder R] [LinearOrder P]

theorem canon_eq_min_max (a b : R) : canon a b = (min a b, max a b) := by
  rw [canon, canonicalizePair]
  by_cases hsame : a = b
  · simp [hsame]
  · by_cases hlt : a < b
    · simp [hsame, hlt, hlt.le]
    · simp [hsame, hlt, not_lt.mp hlt]

theorem canon_eq_canon_iff {a b c d : R} :
    canon a b = canon c d ↔ a = c ∧ b = d ∨ a = d ∧ b = c := by
  rw [canon_eq_min_max, canon_eq_min_max, Prod.mk.injEq]
  apply Iff.intro
  · intro h
    obtain ⟨hmin, hmax⟩ := h
    rcases le_total a b with hab | hab <;> rcases le_total c d with hcd | hcd <;>
      simp only [min_eq_left hab, min_eq_right hab, max_eq_left hab, max_eq_right hab,
        min_eq_left hcd, min_eq_right hcd, max_eq_left hcd, max_eq_right hcd] at hmin hmax
    · exact .inl ⟨hmin, hmax⟩
    · exact .inr ⟨hmin, hmax⟩
    · exact .inr ⟨hmax, hmin⟩
    · exact .inl ⟨hmax, hmin⟩
  · intro h
    rcases h with ⟨rfl, rfl⟩ | ⟨rfl, rfl⟩
    · exact ⟨rfl, rfl⟩
    · exact ⟨min_comm _ _, max_comm _ _⟩

/-- Some edge joins the two records, in either direction. -/
def Joined (edges : List (PathEdge R P)) (a b : R) : Prop :=
  ∃ edge ∈ edges, edge.pair = canon a b

/-- A walk along edges leads from one record to the other. -/
def Connected (edges : List (PathEdge R P)) (a b : R) : Prop :=
  Relation.ReflTransGen (Joined edges) a b

omit [LinearOrder P] in
theorem Joined.symm {edges : List (PathEdge R P)} {a b : R} (hjoined : Joined edges a b) :
    Joined edges b a := by
  obtain ⟨edge, hedge, hpair⟩ := hjoined
  exact ⟨edge, hedge, hpair.trans (canon_eq_canon_iff.mpr (.inr ⟨rfl, rfl⟩))⟩

omit [LinearOrder P] in
theorem Joined.mono {edges more : List (PathEdge R P)} (hsubset : ∀ edge ∈ edges, edge ∈ more)
    {a b : R} (hjoined : Joined edges a b) : Joined more a b := by
  obtain ⟨edge, hedge, hpair⟩ := hjoined
  exact ⟨edge, hsubset edge hedge, hpair⟩

omit [LinearOrder P] in
theorem Connected.mono {edges more : List (PathEdge R P)} (hsubset : ∀ edge ∈ edges, edge ∈ more)
    {a b : R} (hconnected : Connected edges a b) : Connected more a b := by
  apply Relation.ReflTransGen.mono _ a b hconnected
  intro c d hjoined
  exact hjoined.mono hsubset

omit [LinearOrder P] in
theorem Connected.symm {edges : List (PathEdge R P)} {a b : R} (hconnected : Connected edges a b) :
    Connected edges b a := by
  induction hconnected with
  | refl => exact .refl
  | tail _ hjoined ih => exact .head hjoined.symm ih

omit [LinearOrder P] in
theorem mem_directions {edges : List (PathEdge R P)} {a b : R} :
    (a, b) ∈ directions edges ↔ Joined edges a b := by
  simp only [directions, List.mem_flatMap, List.mem_cons, Prod.mk.injEq, List.not_mem_nil,
    or_false, Joined, PathEdge.pair, canon_eq_canon_iff]
  apply exists_congr
  intro edge
  apply and_congr_right
  intro _
  tauto

omit [LinearOrder P] in
theorem mem_adjacency {edges : List (PathEdge R P)} {a : R} :
    a ∈ adjacency edges ↔ ∃ b, Joined edges a b := by
  rw [adjacency, Std.ExtTreeMap.mem_map, BTreeMap.mem_iff_exists_getElem?,
    (BTreeMap.foldl_fileAt_spec (directions edges) ∅ a).1]
  simp [mem_directions]

omit [LinearOrder P] in
theorem adjacent_adjacency {edges : List (PathEdge R P)} {a b : R} :
    BreadthFirst.Adjacent (adjacency edges) a b ↔ Joined edges a b := by
  have hmem := (BTreeMap.foldl_fileAt_spec (directions edges) ∅ a).2 b
  rw [mem_directions] at hmem
  rw [BreadthFirst.Adjacent, adjacency, Std.ExtTreeMap.getElem?_map]
  cases hrow : ((directions edges).foldl BTreeMap.fileAt ∅)[a]? with
  | none =>
      rw [hrow] at hmem
      simpa using hmem
  | some row =>
      rw [hrow] at hmem
      simpa using hmem

omit [LinearOrder P] in
theorem adjacency_congr {edges edges' : List (PathEdge R P)}
    (hsame : ∀ a b, Joined edges a b ↔ Joined edges' a b) : adjacency edges = adjacency edges' := by
  rw [adjacency, adjacency]
  congr 1
  apply Std.ExtTreeMap.ext_getElem?
  intro a
  obtain ⟨hexists, hmem⟩ := BTreeMap.foldl_fileAt_spec (directions edges) ∅ a
  obtain ⟨hexists', hmem'⟩ := BTreeMap.foldl_fileAt_spec (directions edges') ∅ a
  simp only [mem_directions, hsame] at hexists hmem
  simp only [mem_directions] at hexists' hmem'
  have hagree := hexists.trans hexists'.symm
  cases hrow : ((directions edges).foldl BTreeMap.fileAt ∅)[a]? with
  | none =>
      cases hrow' : ((directions edges').foldl BTreeMap.fileAt ∅)[a]? with
      | none => rfl
      | some row' => simp [hrow, hrow'] at hagree
  | some row =>
      cases hrow' : ((directions edges').foldl BTreeMap.fileAt ∅)[a]? with
      | none => simp [hrow, hrow'] at hagree
      | some row' =>
          congr 1
          apply Std.ExtTreeSet.ext_mem
          intro b
          have hb := hmem b
          have hb' := hmem' b
          rw [hrow, Option.getD_some] at hb
          rw [hrow', Option.getD_some] at hb'
          exact hb.trans hb'.symm

omit [LinearOrder P] in
theorem shortestPath_congr {edges edges' : List (PathEdge R P)}
    (hsame : ∀ a b, Joined edges a b ↔ Joined edges' a b) (source target : R) :
    shortestPath source target edges = shortestPath source target edges' := by
  rw [shortestPath, shortestPath, adjacency_congr hsame]

omit [LinearOrder P] in
/-- A path that the search returns is a walk, and one is returned between connected
records. -/
theorem shortestPath_spec {edges : List (PathEdge R P)} {source target : R}
    (hne : source ≠ target) :
    (∀ path, shortestPath source target edges = some path → path.IsChain (Joined edges) ∧
      path.head? = some source ∧ path.getLast? = some target) ∧
    (Connected edges source target → ∃ path, shortestPath source target edges = some path) := by
  have hadjacent : BreadthFirst.Adjacent (adjacency edges) = Joined edges := by
    funext a b
    exact propext adjacent_adjacency
  have hgraph (first second : R) (hedge : BreadthFirst.Adjacent (adjacency edges) first second) :
      second ∈ adjacency edges :=
    mem_adjacency.mpr ⟨first, (adjacent_adjacency.mp hedge).symm⟩
  rw [shortestPath, if_neg hne]
  by_cases hknown : source ∈ adjacency edges ∧ target ∈ adjacency edges
  · rw [if_neg (by simpa [not_or] using hknown)]
    obtain ⟨hwalk, hreach⟩ := BreadthFirst.bestPath_spec hgraph hknown.1 target
    rw [hadjacent] at hreach
    refine ⟨fun path hpath => ?_, hreach⟩
    have hfound := hwalk path hpath
    exact ⟨hadjacent ▸ hfound.chain, hfound.head, hfound.last⟩
  · have hmissing : source ∉ adjacency edges ∨ target ∉ adjacency edges := not_and_or.mp hknown
    rw [if_pos hmissing]
    refine ⟨by simp, fun hconnected => ?_⟩
    -- A walk between distinct records leaves the first and enters the last.
    apply absurd _ hknown
    apply And.intro
    · rcases Relation.ReflTransGen.cases_head hconnected with hsame | ⟨next, hedge, _⟩
      · exact absurd hsame hne
      · exact mem_adjacency.mpr ⟨next, hedge⟩
    · rcases Relation.ReflTransGen.cases_tail hconnected with hsame | ⟨before, _, hedge⟩
      · exact absurd hsame.symm hne
      · exact mem_adjacency.mpr ⟨before, hedge.symm⟩

section Components

variable {edges : List (PathEdge R P)} {nodes : BTreeSet R}

omit [LinearOrder P]

theorem mem_withEndpoints {record : R} :
    record ∈ withEndpoints nodes edges ↔ record ∈ nodes ∨ ∃ other, Joined edges record other := by
  rw [withEndpoints, Std.ExtTreeSet.mem_insertMany_list, List.contains_iff_mem]
  apply or_congr_right
  simp only [← mem_directions, directions, List.mem_flatMap, List.mem_cons, Prod.mk.injEq,
    List.not_mem_nil, or_false]
  apply Iff.intro
  · intro h
    obtain ⟨edge, hedge, rfl | rfl⟩ := h
    · exact ⟨edge.right, edge, hedge, .inl ⟨rfl, rfl⟩⟩
    · exact ⟨edge.left, edge, hedge, .inr ⟨rfl, rfl⟩⟩
  · intro h
    obtain ⟨other, edge, hedge, ⟨rfl, rfl⟩ | ⟨rfl, rfl⟩⟩ := h
    · exact ⟨edge, hedge, .inl rfl⟩
    · exact ⟨edge, hedge, .inr rfl⟩

theorem toList_nodup (records : BTreeSet R) : records.toList.Nodup := by
  have hordered : records.toList.Pairwise fun a b => compare a b = .lt :=
    Std.ExtTreeSet.ordered_toList
  exact hordered.imp fun h => ne_of_lt (compare_lt_iff_lt.mp h)

theorem indexOf_eq_some_iff {ids : List R} (hnodup : ids.Nodup) {record : R} {i : ℕ} :
    (indexOf ids)[record]? = some i ↔ ids[i]? = some record := by
  rw [indexOf, BTreeMap.getElem?_ofList_eq_some_iff (by rwa [List.zipIdx_map_fst]),
    List.mem_zipIdx_iff_getElem?]

/-- The index pairs that the union-find unites. -/
def indexPairs (ids : List R) (edges : List (PathEdge R P)) : List (ℕ × ℕ) :=
  edges.map fun edge => ((indexOf ids)[edge.left]?.getD 0, (indexOf ids)[edge.right]?.getD 0)

theorem mem_indexPairs {ids : List R} (hnodup : ids.Nodup)
    (hids : ∀ edge ∈ edges, edge.left ∈ ids ∧ edge.right ∈ ids) {i j : ℕ} :
    (i, j) ∈ indexPairs ids edges ↔
      ∃ edge ∈ edges, ids[i]? = some edge.left ∧ ids[j]? = some edge.right := by
  have hindex {record : R} (hrecord : record ∈ ids) (k : ℕ) :
      (indexOf ids)[record]?.getD 0 = k ↔ ids[k]? = some record := by
    obtain ⟨position, hposition⟩ := List.mem_iff_getElem?.mp hrecord
    rw [(indexOf_eq_some_iff hnodup).mpr hposition, Option.getD_some]
    apply Iff.intro
    · intro hsame
      exact hsame ▸ hposition
    · intro hk
      have hlt := (List.getElem?_eq_some_iff.mp hposition).1
      exact (List.getElem?_inj hlt hnodup).mp (hposition.trans hk.symm)
  simp only [indexPairs, List.mem_map, Prod.mk.injEq]
  apply exists_congr
  intro edge
  apply and_congr_right
  intro hedge
  rw [hindex (hids edge hedge).1, hindex (hids edge hedge).2]

/-- Walks along index pairs are walks along edges. -/
theorem linked_iff_connected {ids : List R} (hnodup : ids.Nodup)
    (hids : ∀ edge ∈ edges, edge.left ∈ ids ∧ edge.right ∈ ids) {i j : ℕ} {a b : R}
    (hi : ids[i]? = some a) (hj : ids[j]? = some b) :
    Relation.ReflTransGen (UnionFind.Linked (indexPairs ids edges)) i j ↔ Connected edges a b := by
  have hlinked {k l : ℕ} : UnionFind.Linked (indexPairs ids edges) k l ↔
      ∃ c d, ids[k]? = some c ∧ ids[l]? = some d ∧ Joined edges c d := by
    rw [UnionFind.Linked, mem_indexPairs hnodup hids, mem_indexPairs hnodup hids]
    apply Iff.intro
    · intro h
      rcases h with ⟨edge, hedge, hk, hl⟩ | ⟨edge, hedge, hl, hk⟩
      · exact ⟨_, _, hk, hl, edge, hedge, rfl⟩
      · exact ⟨_, _, hk, hl, edge, hedge, canon_eq_canon_iff.mpr (.inr ⟨rfl, rfl⟩)⟩
    · intro h
      obtain ⟨c, d, hk, hl, edge, hedge, hpair⟩ := h
      rcases canon_eq_canon_iff.mp hpair with ⟨rfl, rfl⟩ | ⟨rfl, rfl⟩
      · exact .inl ⟨edge, hedge, hk, hl⟩
      · exact .inr ⟨edge, hedge, hl, hk⟩
  have hinj {k l : ℕ} {c : R} (hk : ids[k]? = some c) (hl : ids[l]? = some c) : k = l :=
    (List.getElem?_inj (List.getElem?_eq_some_iff.mp hk).1 hnodup).mp (hk.trans hl.symm)
  apply Iff.intro
  · intro hwalk
    have hreach : ∃ c, ids[j]? = some c ∧ Connected edges a c := by
      clear hj
      induction hwalk with
      | refl => exact ⟨a, hi, .refl⟩
      | tail _ hlink ih =>
          obtain ⟨c, hc, hconnected⟩ := ih
          obtain ⟨c', d, hc', hd, hjoined⟩ := hlinked.mp hlink
          cases hc.symm.trans hc'
          exact ⟨d, hd, hconnected.tail hjoined⟩
    obtain ⟨c, hc, hconnected⟩ := hreach
    cases hc.symm.trans hj
    exact hconnected
  · intro hconnected
    have hreach : ∃ k, ids[k]? = some b ∧
        Relation.ReflTransGen (UnionFind.Linked (indexPairs ids edges)) i k := by
      clear hj
      induction hconnected with
      | refl => exact ⟨i, hi, .refl⟩
      | @tail c d _ hjoined ih =>
          obtain ⟨k, hk, hwalk⟩ := ih
          have hd : d ∈ ids := by
            obtain ⟨edge, hedge, hpair⟩ := hjoined
            rcases canon_eq_canon_iff.mp hpair with ⟨rfl, rfl⟩ | ⟨rfl, rfl⟩
            · exact (hids edge hedge).2
            · exact (hids edge hedge).1
          obtain ⟨l, hl⟩ := List.mem_iff_getElem?.mp hd
          exact ⟨l, hl, hwalk.tail (hlinked.mpr ⟨c, d, hk, hl, hjoined⟩)⟩
    obtain ⟨k, hk, hwalk⟩ := hreach
    cases hinj hk hj
    exact hwalk

theorem exists_forest_indexPairs {ids : List R} (hnodup : ids.Nodup)
    (hids : ∀ edge ∈ edges, edge.left ∈ ids ∧ edge.right ∈ ids) :
    ∃ root : ℕ → ℕ,
      UnionFind.Forest ids.length (UnionFind.unionAll ids.length (indexPairs ids edges)) root ∧
      ∀ (i j : ℕ) (a b : R), ids[i]? = some a → ids[j]? = some b →
        (root i = root j ↔ Connected edges a b) := by
  have hbounds : ∀ pair ∈ indexPairs ids edges, pair.1 < ids.length ∧ pair.2 < ids.length := by
    intro pair hpair
    obtain ⟨edge, _, hleft, hright⟩ := (mem_indexPairs hnodup hids).mp hpair
    exact ⟨(List.getElem?_eq_some_iff.mp hleft).1, (List.getElem?_eq_some_iff.mp hright).1⟩
  obtain ⟨root, hforest, hclasses⟩ := UnionFind.exists_forest_unionAll hbounds
  refine ⟨root, hforest, ?_⟩
  intro i j a b hi hj
  rw [← linked_iff_connected hnodup hids hi hj]
  exact hclasses i j (List.getElem?_eq_some_iff.mp hi).1 (List.getElem?_eq_some_iff.mp hj).1

/-- The rows of `components` over a list of records: every record has the root of its
position, and positions share a root exactly when a walk joins their records. -/
theorem exists_roots {ids : List R} (hnodup : ids.Nodup)
    (hids : ∀ edge ∈ edges, edge.left ∈ ids ∧ edge.right ∈ ids) :
    ∃ root : ℕ → ℕ,
      (∀ (record : R) (c : ℕ), (Std.ExtTreeMap.ofList (ids.zip (UnionFind.rootsOf
        (UnionFind.unionAll ids.length (indexPairs ids edges)) (List.range ids.length)))
        compare)[record]? = some c ↔ ∃ i, ids[i]? = some record ∧ c = root i) ∧
      ∀ (i j : ℕ) (a b : R), ids[i]? = some a → ids[j]? = some b →
        (root i = root j ↔ Connected edges a b) := by
  obtain ⟨root, hforest, hclasses⟩ := exists_forest_indexPairs hnodup hids
  refine ⟨root, ?_, ?_⟩
  · intro record c
    have hkeys : ((ids.zip ((List.range ids.length).map root)).map Prod.fst).Nodup := by
      rwa [List.map_fst_zip (by simp)]
    rw [hforest.rootsOf_eq_map fun x hx => List.mem_range.mp hx,
      BTreeMap.getElem?_ofList_eq_some_iff hkeys, List.mem_iff_getElem?]
    apply exists_congr
    intro i
    rw [List.getElem?_zip_eq_some]
    apply and_congr_right
    intro hi
    have hlt : i < ids.length := (List.getElem?_eq_some_iff.mp hi).1
    simp [hlt, eq_comm]
  · exact hclasses

/-- The union-find puts two records in one component exactly when both are known and a
walk joins them. -/
theorem coClustered_components {a b : R} :
    coClustered (components edges nodes) a b = true ↔
      a ∈ withEndpoints nodes edges ∧ b ∈ withEndpoints nodes edges ∧ Connected edges a b := by
  have hids : ∀ edge ∈ edges, edge.left ∈ (withEndpoints nodes edges).toList ∧
      edge.right ∈ (withEndpoints nodes edges).toList := by
    intro edge hedge
    rw [Std.ExtTreeSet.mem_toList, Std.ExtTreeSet.mem_toList, mem_withEndpoints, mem_withEndpoints]
    exact ⟨.inr ⟨edge.right, edge, hedge, rfl⟩,
      .inr ⟨edge.left, edge, hedge, canon_eq_canon_iff.mpr (.inr ⟨rfl, rfl⟩)⟩⟩
  have hmem {record : R} : record ∈ withEndpoints nodes edges ↔
      ∃ i : ℕ, (withEndpoints nodes edges).toList[i]? = some record := by
    rw [← Std.ExtTreeSet.mem_toList, List.mem_iff_getElem?]
  obtain ⟨root, hrows, hsame⟩ := exists_roots (toList_nodup (withEndpoints nodes edges)) hids
  have hcomponent : ∀ (record : R) (c : ℕ), (components edges nodes)[record]? = some c ↔
      ∃ i : ℕ, (withEndpoints nodes edges).toList[i]? = some record ∧ c = root i := hrows
  apply Iff.intro
  · intro hclustered
    rw [coClustered] at hclustered
    split at hclustered
    · rename_i x y hx hy
      obtain ⟨i, hi, rfl⟩ := (hcomponent _ _).mp hx
      obtain ⟨j, hj, rfl⟩ := (hcomponent _ _).mp hy
      exact ⟨hmem.mpr ⟨i, hi⟩, hmem.mpr ⟨j, hj⟩,
        (hsame i j a b hi hj).mp (by simpa using hclustered)⟩
    · cases hclustered
  · intro h
    obtain ⟨ha, hb, hconnected⟩ := h
    obtain ⟨i, hi⟩ := hmem.mp ha
    obtain ⟨j, hj⟩ := hmem.mp hb
    have hx := (hcomponent a _).mpr ⟨i, hi, rfl⟩
    have hy := (hcomponent b _).mpr ⟨j, hj, rfl⟩
    simp only [coClustered, hx, hy]
    simpa using (hsame i j a b hi hj).mpr hconnected

/-- Distinct connected records are endpoints of edges, so no list of nodes matters to
their co-clustering. -/
theorem coClustered_iff_connected {a b : R} (hne : a ≠ b) :
    coClustered (components edges nodes) a b = true ↔ Connected edges a b := by
  rw [coClustered_components]
  apply Iff.intro
  · intro h
    exact h.2.2
  · intro hconnected
    refine ⟨?_, ?_, hconnected⟩
    · rcases Relation.ReflTransGen.cases_head hconnected with hsame | ⟨next, hedge, _⟩
      · exact absurd hsame hne
      · exact mem_withEndpoints.mpr (.inr ⟨next, hedge⟩)
    · rcases Relation.ReflTransGen.cases_tail hconnected with hsame | ⟨before, _, hedge⟩
      · exact absurd hsame.symm hne
      · exact mem_withEndpoints.mpr (.inr ⟨before, hedge.symm⟩)

end Components

/-! ## The edge to cut -/

section Choice

variable {edges : List (PathEdge R P)} {cutProtectProbability : P} {protectedRecords : Finset R}

/-- The edges that may not be cut. -/
def uncuttable (cutProtectProbability : P) (protectedRecords : Finset R)
    (edges : List (PathEdge R P)) : List (PathEdge R P) :=
  edges.filter fun edge =>
    ¬ Cuttable cutProtectProbability protectedRecords edge.pair edge.probability

omit [LinearOrder P] in
theorem getElem?_probabilities_concat (edges : List (PathEdge R P)) (last : PathEdge R P)
    (pair : R × R) :
    (probabilities (edges ++ [last]))[toLex pair]? =
      if last.pair = pair then some last.probability else (probabilities edges)[toLex pair]? := by
  rw [probabilities, List.map_append, List.map_singleton, Std.ExtTreeMap.insertMany_append,
    Std.ExtTreeMap.insertMany_cons, Std.ExtTreeMap.insertMany_nil,
    BTreeMap.getElem?_insert_eq_ite]
  simp only [EmbeddingLike.apply_eq_iff_eq]
  rfl

omit [LinearOrder P] in
/-- Every pair of the edge list has a probability, and it is that of one of its edges. -/
theorem probabilities_spec (pair : R × R) :
    (∀ value, (probabilities edges)[toLex pair]? = some value →
      ∃ edge ∈ edges, edge.pair = pair ∧ edge.probability = value) ∧
    ((∃ edge ∈ edges, edge.pair = pair) →
      ∃ value, (probabilities edges)[toLex pair]? = some value) := by
  induction edges using List.reverseRecOn with
  | nil => simp [probabilities]
  | append_singleton edges last ih =>
      rw [getElem?_probabilities_concat]
      by_cases hpair : last.pair = pair
      · rw [if_pos hpair]
        refine ⟨fun value hvalue => ?_, fun _ => ⟨_, rfl⟩⟩
        exact ⟨last, List.mem_append_right _ List.mem_cons_self, hpair, Option.some.inj hvalue⟩
      · rw [if_neg hpair]
        refine ⟨fun value hvalue => ?_, fun hknown => ih.2 ?_⟩
        · obtain ⟨edge, hedge, hspec⟩ := ih.1 value hvalue
          exact ⟨edge, List.mem_append_left _ hedge, hspec⟩
        · obtain ⟨edge, hedge, hsame⟩ := hknown
          rcases List.mem_append.mp hedge with hearlier | hlast
          · exact ⟨edge, hearlier, hsame⟩
          · exact absurd (List.mem_singleton.mp hlast ▸ hsame) hpair

omit [LinearOrder P] in
theorem getElem?_probabilities_filter (keep : R × R → Bool) (pair : R × R) :
    (probabilities (edges.filter fun edge => keep edge.pair))[toLex pair]? =
      if keep pair then (probabilities edges)[toLex pair]? else none := by
  induction edges using List.reverseRecOn with
  | nil => simp [probabilities]
  | append_singleton edges last ih =>
      rw [List.filter_append, getElem?_probabilities_concat, List.filter_cons, List.filter_nil]
      by_cases hkeep : keep last.pair = true
      · rw [if_pos hkeep, getElem?_probabilities_concat, ih]
        by_cases hpair : last.pair = pair
        · rw [if_pos hpair, if_pos hpair, if_pos (hpair ▸ hkeep)]
        · rw [if_neg hpair, if_neg hpair]
      · rw [if_neg hkeep, List.append_nil, ih]
        by_cases hpair : last.pair = pair
        · rw [if_neg (hpair ▸ hkeep), if_neg (hpair ▸ hkeep)]
        · rw [if_neg hpair]

theorem mem_candidates {path : List R} {edge : PathEdge R P} :
    edge ∈ candidates path edges cutProtectProbability protectedRecords ↔
      ∃ hop ∈ path.zip path.tail, (edge.left, edge.right) = canon hop.1 hop.2 ∧
        (probabilities edges)[toLex (canon hop.1 hop.2)]? = some edge.probability ∧
        Cuttable cutProtectProbability protectedRecords (canon hop.1 hop.2) edge.probability := by
  rw [candidates, List.mem_filterMap]
  apply exists_congr
  intro hop
  apply and_congr_right
  intro _
  rw [Option.bind_eq_some_iff]
  apply Iff.intro
  · intro h
    obtain ⟨value, hvalue, hedge⟩ := h
    by_cases hcuttable : Cuttable cutProtectProbability protectedRecords (canon hop.1 hop.2) value
    · rw [if_pos hcuttable] at hedge
      cases hedge
      exact ⟨rfl, hvalue, hcuttable⟩
    · rw [if_neg hcuttable] at hedge
      cases hedge
  · intro h
    obtain ⟨hpair, hvalue, hcuttable⟩ := h
    refine ⟨edge.probability, hvalue, ?_⟩
    rw [if_pos hcuttable, ← hpair]

/-- The chosen edge is an edge of the list, with a probability of its pair, and it is
cuttable. -/
theorem chooseCutEdge_spec {path : List R} {edge : PathEdge R P}
    (hchosen : chooseCutEdge path edges cutProtectProbability protectedRecords = some edge) :
    ∃ source ∈ edges, source.pair = (edge.left, edge.right) ∧
      source.probability = edge.probability ∧
      Cuttable cutProtectProbability protectedRecords source.pair source.probability := by
  obtain ⟨hop, _, hpair, hvalue, hcuttable⟩ := mem_candidates.mp (List.argmin_mem hchosen)
  obtain ⟨source, hsource, hsame, hprobability⟩ := (probabilities_spec _).1 _ hvalue
  refine ⟨source, hsource, hsame.trans hpair.symm, hprobability, ?_⟩
  rw [hsame, hprobability]
  exact hcuttable

/-- When no edge of a walk can be cut, its ends are joined by uncuttable edges. -/
theorem connected_uncuttable {path : List R} {source target : R}
    (hnone : chooseCutEdge path edges cutProtectProbability protectedRecords = none)
    (hchain : path.IsChain (Joined edges)) (hhead : path.head? = some source)
    (hlast : path.getLast? = some target) :
    Connected (uncuttable cutProtectProbability protectedRecords edges) source target := by
  have hempty : candidates path edges cutProtectProbability protectedRecords = [] :=
    List.argmin_eq_none.mp hnone
  have hstep (hop : R × R) (hhop : hop ∈ path.zip path.tail) (hjoined : Joined edges hop.1 hop.2) :
      Joined (uncuttable cutProtectProbability protectedRecords edges) hop.1 hop.2 := by
    obtain ⟨value, hvalue⟩ := (probabilities_spec (canon hop.1 hop.2)).2 hjoined
    obtain ⟨edge, hedge, hpair, hprobability⟩ := (probabilities_spec _).1 value hvalue
    refine ⟨edge, List.mem_filter.mpr ⟨hedge, decide_eq_true fun hcuttable => ?_⟩, hpair⟩
    rw [hpair, hprobability] at hcuttable
    have hcandidate : (⟨(canon hop.1 hop.2).1, (canon hop.1 hop.2).2, value⟩ : PathEdge R P) ∈
        candidates path edges cutProtectProbability protectedRecords :=
      mem_candidates.mpr ⟨hop, hhop, rfl, hvalue, hcuttable⟩
    rw [hempty] at hcandidate
    cases hcandidate
  clear hnone hempty
  induction path generalizing source with
  | nil => cases hhead
  | cons first rest ih =>
      have hfirst : first = source := by simpa using hhead
      subst hfirst
      cases rest with
      | nil =>
          have htarget : first = target := by simpa using hlast
          subst htarget
          exact .refl
      | cons second rest =>
          obtain ⟨hedge, hrest⟩ := List.isChain_cons_cons.mp hchain
          apply Relation.ReflTransGen.head (hstep (first, second) (by simp) hedge)
          apply ih hrest rfl (by simpa using hlast)
          intro hop hhop
          apply hstep hop
          simp only [List.tail_cons, List.zip_cons_cons, List.mem_cons]
          exact .inr (by simpa using hhop)

end Choice

end EntityResolution.NeverCut
