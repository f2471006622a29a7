/-
# Label propagation, as its own union-find

The labels of a clustering come from a union-find of their own: the records in order, without
repetitions, are united by position along the pairs, one pass files the first record of every root,
and a second pass reads the file. Both passes halve paths as they go. The first record filed for a
root is the least of its component, because the records are filed in order.
-/

import EntityResolution.Reconcile.Contradictions
import EntityResolution.Reconcile.Rules

namespace EntityResolution.Reconcile

open EntityResolution.Collections EntityResolution.NeverCut

universe u v w

variable {R : Type u} {P : Type v} [LinearOrder R]

namespace Cluster

/-- The node universe: the nodes and the ends of the edges, sorted and deduplicated. -/
def ids (nodes : List R) (edges : List (R × R)) : List R :=
  ((nodes ++ edges.flatMap fun edge => [edge.1, edge.2]).insertionSort (· ≤ ·)).destutter (· ≠ ·)

/-- The parents after all unions. -/
def unions (nodes : List R) (edges : List (R × R)) : List ℕ :=
  let index := indexOf (ids nodes edges)
  UnionFind.unionAll (ids nodes edges).length
    (edges.map fun edge => (index[edge.1]?.getD 0, index[edge.2]?.getD 0))

/-- The first pass: file the first record of every root. -/
def fileRoots (ids : List R) (parent : List ℕ) : List ℕ × BTreeMap ℕ R :=
  ids.zipIdx.foldl (fun state entry => ((UnionFind.findRoot state.1 entry.2).1,
    fileRoot state.2 (entry.1, (UnionFind.findRoot state.1 entry.2).2))) (parent, ∅)

/-- `label_propagate`: every record with the record filed for its root. -/
def labelPropagate (nodes : List R) (edges : List (R × R)) : BTreeMap R R :=
  let filed := fileRoots (ids nodes edges) (unions nodes edges)
  let roots := UnionFind.rootsOf filed.1 (List.range (ids nodes edges).length)
  Std.ExtTreeMap.ofList (((ids nodes edges).zip roots).map fun entry =>
    (entry.1, filed.2[entry.2]?.getD entry.1)) compare

end Cluster

/-- The two ends of an edge. -/
def edgeEnds (edge : PathEdge R P) : R × R := (edge.left, edge.right)

section Spec

variable {nodes : List R} {edges : List (PathEdge R P)}

omit [LinearOrder R] in
theorem getElem?_foldl_fileRoot (entries : List (R × ℕ)) (rootMin : BTreeMap ℕ R) (root : ℕ) :
    (entries.foldl fileRoot rootMin)[root]? =
      rootMin[root]?.or ((entries.find? fun entry => entry.2 = root).map Prod.fst) := by
  induction entries generalizing rootMin with
  | nil => simp
  | cons entry entries ih =>
      have hentry : (fileRoot rootMin entry)[root]? =
          rootMin[root]?.or (if entry.2 = root then some entry.1 else none) := by
        rw [fileRoot]
        split
        · rename_i hmem
          obtain ⟨node, hnode⟩ := BTreeMap.mem_iff_exists_getElem?.mp hmem
          by_cases hroot : entry.2 = root
          · rw [← hroot, hnode, Option.some_or]
          · rw [if_neg hroot, Option.or_none]
        · rename_i hmem
          rw [BTreeMap.getElem?_insert_eq_ite]
          by_cases hroot : entry.2 = root
          · have hnone : rootMin[root]? = none := by
              rw [← hroot]
              exact Std.ExtTreeMap.getElem?_eq_none hmem
            rw [if_pos hroot, if_pos hroot, hnone, Option.none_or]
          · rw [if_neg hroot, if_neg hroot, Option.or_none]
      rw [List.foldl_cons, ih, hentry, Option.or_assoc, List.find?_cons]
      by_cases hroot : entry.2 = root
      · simp [hroot]
      · simp [hroot]

/-- Filed in order, the record of a root is the least one that has it. -/
theorem least_of_foldl_fileRoot {entries : List (R × ℕ)} {root : ℕ} {least : R}
    (hsorted : entries.Pairwise fun first second => first.1 < second.1)
    (hleast : (entries.foldl fileRoot ∅)[root]? = some least) :
    (least, root) ∈ entries ∧ ∀ other, (other, root) ∈ entries → least ≤ other := by
  rw [getElem?_foldl_fileRoot, Std.ExtTreeMap.getElem?_empty, Option.none_or,
    Option.map_eq_some_iff] at hleast
  obtain ⟨entry, hfind, rfl⟩ := hleast
  obtain ⟨hroot, before, after, rfl, hbefore⟩ := List.find?_eq_some_iff_append.mp hfind
  cases of_decide_eq_true hroot
  refine ⟨by simp, ?_⟩
  intro other hother
  rcases List.mem_append.mp hother with hother | hother
  · have := hbefore _ hother
    simp at this
  · rcases List.mem_cons.mp hother with hsame | hother
    · rw [← hsame]
    · exact (List.rel_of_pairwise_cons (List.pairwise_append.mp hsorted).2.1 hother).le

theorem mem_destutter' {first record : R} {records : List R} :
    record ∈ records.destutter' (· ≠ ·) first ↔ record = first ∨ record ∈ records := by
  induction records generalizing first with
  | nil => simp
  | cons next records ih =>
      by_cases hne : first ≠ next
      · rw [List.destutter'_cons_pos _ hne, List.mem_cons, ih, List.mem_cons]
      · rw [List.destutter'_cons_neg _ hne, ih, List.mem_cons, not_not.mp hne]
        tauto

theorem destutter'_pairwise_lt {first : R} {records : List R}
    (hsorted : (first :: records).Pairwise (· ≤ ·)) :
    (records.destutter' (· ≠ ·) first).Pairwise (· < ·) := by
  induction records generalizing first with
  | nil => simp
  | cons next records ih =>
      obtain ⟨hfirst, hrest⟩ := List.pairwise_cons.mp hsorted
      by_cases hne : first ≠ next
      · rw [List.destutter'_cons_pos _ hne, List.pairwise_cons]
        refine ⟨?_, ih hrest⟩
        intro record hrecord
        have hlt := lt_of_le_of_ne (hfirst next List.mem_cons_self) hne
        rcases mem_destutter'.mp hrecord with rfl | hrecord
        · exact hlt
        · exact hlt.trans_le (List.rel_of_pairwise_cons hrest hrecord)
      · rw [List.destutter'_cons_neg _ hne, not_not.mp hne]
        exact ih hrest

/-- The records in order, each one once. -/
theorem ids_sorted (nodes : List R) (ends : List (R × R)) :
    (Cluster.ids nodes ends).Pairwise (· < ·) := by
  rw [Cluster.ids]
  have hsorted := List.pairwise_insertionSort (· ≤ ·)
    (nodes ++ ends.flatMap fun edge => [edge.1, edge.2])
  cases hids : (nodes ++ ends.flatMap fun edge => [edge.1, edge.2]).insertionSort (· ≤ ·) with
  | nil => exact List.Pairwise.nil
  | cons first records => exact destutter'_pairwise_lt (hids ▸ hsorted)

theorem mem_ids {record : R} :
    record ∈ Cluster.ids nodes (edges.map edgeEnds) ↔ Known nodes edges record := by
  have hmem : ∀ records : List R, record ∈ records.destutter (· ≠ ·) ↔ record ∈ records := by
    intro records
    cases records with
    | nil => rfl
    | cons first records => rw [List.destutter_cons', mem_destutter', List.mem_cons]
  rw [Cluster.ids, hmem, List.mem_insertionSort, List.mem_append, known_iff]
  simp only [List.mem_flatMap, List.mem_map, edgeEnds]
  apply or_congr_right
  apply Iff.intro
  · rintro ⟨_, ⟨edge, hedge, rfl⟩, hend⟩
    simp only [List.mem_cons, List.not_mem_nil, or_false] at hend
    exact ⟨edge, hedge, hend.imp Eq.symm Eq.symm⟩
  · rintro ⟨edge, hedge, hend⟩
    refine ⟨_, ⟨edge, hedge, rfl⟩, ?_⟩
    simpa using hend.imp Eq.symm Eq.symm

theorem exists_roots_unions (nodes : List R) (edges : List (PathEdge R P)) :
    ∃ root : ℕ → ℕ, UnionFind.Forest (Cluster.ids nodes (edges.map edgeEnds)).length
        (Cluster.unions nodes (edges.map edgeEnds)) root ∧
      ∀ (i j : ℕ) (a b : R), (Cluster.ids nodes (edges.map edgeEnds))[i]? = some a →
        (Cluster.ids nodes (edges.map edgeEnds))[j]? = some b →
          (root i = root j ↔ Connected edges a b) := by
  have hnodup : (Cluster.ids nodes (edges.map edgeEnds)).Nodup :=
    (ids_sorted nodes _).imp ne_of_lt
  have hids : ∀ edge ∈ edges, edge.left ∈ Cluster.ids nodes (edges.map edgeEnds) ∧
      edge.right ∈ Cluster.ids nodes (edges.map edgeEnds) := by
    intro edge hedge
    rw [mem_ids, mem_ids, known_iff, known_iff]
    exact ⟨.inr ⟨edge, hedge, .inl rfl⟩, .inr ⟨edge, hedge, .inr rfl⟩⟩
  have hunions : Cluster.unions nodes (edges.map edgeEnds) =
      UnionFind.unionAll (Cluster.ids nodes (edges.map edgeEnds)).length
        (indexPairs (Cluster.ids nodes (edges.map edgeEnds)) edges) := by
    rw [Cluster.unions, List.map_map]
    rfl
  rw [hunions]
  exact exists_forest_indexPairs hnodup hids

theorem exists_filed {root : ℕ → ℕ} {i : ℕ} {record : R}
    (hsame : ∀ (i j : ℕ) (a b : R), (Cluster.ids nodes (edges.map edgeEnds))[i]? = some a →
      (Cluster.ids nodes (edges.map edgeEnds))[j]? = some b →
        (root i = root j ↔ Connected edges a b))
    (hrecord : (Cluster.ids nodes (edges.map edgeEnds))[i]? = some record) :
    ∃ least, (((Cluster.ids nodes (edges.map edgeEnds)).zipIdx.map fun entry =>
        (entry.1, root entry.2)).foldl fileRoot ∅)[root i]? = some least ∧
      Connected edges record least ∧ ∀ other, Connected edges record other → least ≤ other := by
  have hmem : ∀ (other : R) (place : ℕ),
      (other, place) ∈ (Cluster.ids nodes (edges.map edgeEnds)).zipIdx.map
        (fun entry => (entry.1, root entry.2)) ↔
      ∃ j, (Cluster.ids nodes (edges.map edgeEnds))[j]? = some other ∧ root j = place := by
    intro other place
    simp only [List.mem_map, Prod.exists, List.mem_zipIdx_iff_getElem?, Prod.mk.injEq]
    grind
  have hsorted : ((Cluster.ids nodes (edges.map edgeEnds)).zipIdx.map fun entry =>
      (entry.1, root entry.2)).Pairwise fun first second => first.1 < second.1 := by
    rw [List.pairwise_map]
    have hfirst := ids_sorted nodes (edges.map edgeEnds)
    rw [← List.zipIdx_map_fst 0 (Cluster.ids nodes (edges.map edgeEnds))] at hfirst
    exact List.pairwise_map.mp hfirst
  have hsome : ((((Cluster.ids nodes (edges.map edgeEnds)).zipIdx.map fun entry =>
      (entry.1, root entry.2)).foldl fileRoot ∅)[root i]?).isSome := by
    rw [getElem?_foldl_fileRoot, Std.ExtTreeMap.getElem?_empty, Option.none_or, Option.isSome_map,
      List.find?_isSome]
    exact ⟨(record, root i), (hmem _ _).mpr ⟨i, hrecord, rfl⟩, decide_eq_true rfl⟩
  obtain ⟨least, hleast⟩ := Option.isSome_iff_exists.mp hsome
  obtain ⟨hin, hle⟩ := least_of_foldl_fileRoot hsorted hleast
  obtain ⟨j, hj, hroot⟩ := (hmem _ _).mp hin
  refine ⟨least, hleast, (hsame i j record least hrecord hj).mp hroot.symm, ?_⟩
  intro other hconnected
  have hknown : Known nodes edges other := by
    by_cases hother : other = record
    · rw [hother, ← mem_ids]
      exact List.mem_of_getElem? hrecord
    · exact known_of_connected hother hconnected.symm
  obtain ⟨k, hk⟩ := List.mem_iff_getElem?.mp (mem_ids.mpr hknown)
  exact hle other ((hmem _ _).mpr
    ⟨k, hk, ((hsame i k record other hrecord hk).mpr hconnected).symm⟩)

theorem exists_rows (nodes : List R) (edges : List (PathEdge R P)) :
    ∃ root : ℕ → ℕ,
      (∀ (i j : ℕ) (a b : R), (Cluster.ids nodes (edges.map edgeEnds))[i]? = some a →
        (Cluster.ids nodes (edges.map edgeEnds))[j]? = some b →
          (root i = root j ↔ Connected edges a b)) ∧
      ∀ record label : R, (Cluster.labelPropagate nodes
        (edges.map edgeEnds))[record]? = some label ↔
        ∃ i, (Cluster.ids nodes (edges.map edgeEnds))[i]? = some record ∧
          (((Cluster.ids nodes (edges.map edgeEnds)).zipIdx.map fun entry =>
            (entry.1, root entry.2)).foldl fileRoot ∅)[root i]?.getD record = label := by
  obtain ⟨root, hforest, hsame⟩ := exists_roots_unions nodes edges
  refine ⟨root, hsame, ?_⟩
  intro record label
  have hplaces : ∀ entry ∈ (Cluster.ids nodes (edges.map edgeEnds)).zipIdx,
      entry.2 < (Cluster.ids nodes (edges.map edgeEnds)).length := by
    intro entry hentry
    exact (List.getElem?_eq_some_iff.mp (List.mem_zipIdx_iff_getElem?.mp hentry)).1
  obtain ⟨parent', hforest', hfold⟩ :=
    hforest.foldl_findRoot Prod.snd (fun filed entry place => fileRoot filed (entry.1, place))
      hplaces ∅
  have hfiled : Cluster.fileRoots (Cluster.ids nodes (edges.map edgeEnds))
      (Cluster.unions nodes (edges.map edgeEnds)) =
      (parent', ((Cluster.ids nodes (edges.map edgeEnds)).zipIdx.map fun entry =>
        (entry.1, root entry.2)).foldl fileRoot ∅) := by
    rw [List.foldl_map]
    exact hfold
  rw [Cluster.labelPropagate, hfiled,
    hforest'.rootsOf_eq_map fun x hx => List.mem_range.mp hx,
    BTreeMap.getElem?_ofList_eq_some_iff]
  · rw [List.mem_iff_getElem?]
    apply exists_congr
    intro i
    rw [List.getElem?_map, List.zip, List.getElem?_zipWith, List.getElem?_map]
    cases hi : (Cluster.ids nodes (edges.map edgeEnds))[i]? with
    | none => simp
    | some found =>
        rw [List.getElem?_range (List.getElem?_eq_some_iff.mp hi).1]
        simp only [Option.map_some, Option.some.injEq, Prod.mk.injEq]
        apply and_congr_right
        rintro rfl
        exact Iff.rfl
  · have hfirst : ((Cluster.ids nodes (edges.map edgeEnds)).zip ((List.range
        (Cluster.ids nodes (edges.map edgeEnds)).length).map root)).map Prod.fst =
        Cluster.ids nodes (edges.map edgeEnds) := List.map_fst_zip (by simp)
    rw [List.map_map]
    change (((Cluster.ids nodes (edges.map edgeEnds)).zip ((List.range
      (Cluster.ids nodes (edges.map edgeEnds)).length).map root)).map Prod.fst).Nodup
    rw [hfirst]
    exact (ids_sorted nodes _).imp ne_of_lt

theorem getElem?_labelPropagate {record label : R} :
    (Cluster.labelPropagate nodes (edges.map edgeEnds))[record]? = some label ↔
      Known nodes edges record ∧ Connected edges record label ∧
        ∀ other, Connected edges record other → label ≤ other := by
  obtain ⟨root, hsame, hrows⟩ := exists_rows nodes edges
  rw [hrows, ← mem_ids, List.mem_iff_getElem?]
  apply Iff.intro
  · rintro ⟨i, hrecord, hlabel⟩
    obtain ⟨least, hleast, hconnected, hle⟩ := exists_filed hsame hrecord
    rw [hleast, Option.getD_some] at hlabel
    cases hlabel
    exact ⟨⟨i, hrecord⟩, hconnected, hle⟩
  · rintro ⟨⟨i, hrecord⟩, hconnected, hle⟩
    obtain ⟨least, hleast, hconnected', hle'⟩ := exists_filed hsame hrecord
    refine ⟨i, hrecord, ?_⟩
    rw [hleast, Option.getD_some]
    exact le_antisymm (hle' label hconnected) (hle least hconnected')

theorem mem_labels {record : R} :
    record ∈ Cluster.labelPropagate nodes (edges.map edgeEnds) ↔ Known nodes edges record := by
  rw [BTreeMap.mem_iff_exists_getElem?]
  apply Iff.intro
  · rintro ⟨label, hlabel⟩
    exact (getElem?_labelPropagate.mp hlabel).1
  · intro hknown
    obtain ⟨root, hsame, hrows⟩ := exists_rows nodes edges
    obtain ⟨i, hi⟩ := List.mem_iff_getElem?.mp (mem_ids.mpr hknown)
    exact ⟨_, (hrows record _).mpr ⟨i, hi, rfl⟩⟩

theorem labelPropagate_eq (nodes : List R) (edges : List (PathEdge R P)) :
    labelPropagate nodes edges = Cluster.labelPropagate nodes (edges.map edgeEnds) := by
  apply Std.ExtTreeMap.ext_getElem?
  intro record
  by_cases hknown : Known nodes edges record
  · obtain ⟨x, hx⟩ := BTreeMap.mem_iff_exists_getElem?.mp (mem_components.mpr hknown)
    have hfold := foldl_fileRoot
      (components edges (Std.ExtTreeSet.ofList nodes compare)).toList ∅ x
    obtain ⟨least, hleast⟩ :=
      BTreeMap.mem_iff_exists_getElem?.mp (hfold.2 (.inr (List.mem_map_of_mem
        (BTreeMap.mem_toList.mpr hx))))
    obtain ⟨hin, hle⟩ := least_of_foldl_fileRoot (BTreeMap.toList_pairwise_lt _) hleast
    have hcomponent := BTreeMap.mem_toList.mp hin
    have hlabel : (labelPropagate nodes edges)[record]? = some least := by
      rw [labelPropagate, BTreeMap.getElem?_map_eq, hx, Option.map_some, hleast, Option.getD_some]
    rw [hlabel, eq_comm, getElem?_labelPropagate]
    refine ⟨hknown, (components_eq_iff hx hcomponent).mp rfl, ?_⟩
    intro other hconnected
    have hother : Known nodes edges other := by
      by_cases hsame : other = record
      · exact hsame ▸ hknown
      · exact known_of_connected hsame hconnected.symm
    obtain ⟨y, hy⟩ := BTreeMap.mem_iff_exists_getElem?.mp (mem_components.mpr hother)
    have hxy := (components_eq_iff hx hy).mpr hconnected
    exact hle other (BTreeMap.mem_toList.mpr (hxy ▸ hy))
  · rw [Std.ExtTreeMap.getElem?_eq_none (mem_labelPropagate.not.mpr hknown),
      Std.ExtTreeMap.getElem?_eq_none (mem_labels.not.mpr hknown)]

end Spec

open Classical in
/-- Labels are least records of components, component indices agree with the labels, and the
contradictions are the active `never` rules inside a component of the active `always` rules. -/
theorem component_algorithms_agree {I : Type w} [LinearOrder I] (nodes : List R)
    (edges : List (PathEdge R P)) (assertions : List (Assertion R I)) :
    (∀ record : R, record ∈ Cluster.labelPropagate nodes (edges.map edgeEnds) ↔
      record ∈ nodes ∨ ∃ edge ∈ edges, edge.left = record ∨ edge.right = record) ∧
    (∀ record label : R,
      (Cluster.labelPropagate nodes (edges.map edgeEnds))[record]? = some label ↔
        record ∈ Cluster.labelPropagate nodes (edges.map edgeEnds) ∧
          Connected edges record label ∧ ∀ other, Connected edges record other → label ≤ other) ∧
    (∀ record : R, record ∈ components edges (Std.ExtTreeSet.ofList nodes compare) ↔
      record ∈ Cluster.labelPropagate nodes (edges.map edgeEnds)) ∧
    (∀ a b : R, a ∈ Cluster.labelPropagate nodes (edges.map edgeEnds) →
      b ∈ Cluster.labelPropagate nodes (edges.map edgeEnds) →
        ((components edges (Std.ExtTreeSet.ofList nodes compare))[a]? =
            (components edges (Std.ExtTreeSet.ofList nodes compare))[b]? ↔
          (Cluster.labelPropagate nodes (edges.map edgeEnds))[a]? =
            (Cluster.labelPropagate nodes (edges.map edgeEnds))[b]?)) ∧
    ((checkContradiction1 assertions).map fun finding =>
        (finding.recAKey, finding.recBKey, finding.neverAssertionId)).Perm
      ((assertions.filter fun assertion => assertion.kind = .never ∧ assertion.active = true ∧
        AlwaysConnected assertions assertion.recAKey assertion.recBKey).map fun assertion =>
          (assertion.recAKey, assertion.recBKey, assertion.assertionId)) ∧
    (∀ finding ∈ checkContradiction1 assertions,
      (∀ record : R, record ∈ finding.component ↔
        AlwaysConnected assertions finding.recAKey record) ∧
      finding.alwaysAssertionIds.Perm ((assertions.filter fun assertion =>
        assertion.kind = .always ∧ assertion.active = true ∧
          AlwaysConnected assertions finding.recAKey assertion.recAKey).map
            Assertion.assertionId)) ∧
    ∀ assertions' : List (Assertion R I), assertions.Perm assertions' →
      (checkContradiction1 assertions).Perm (checkContradiction1 assertions') ∧
      (checkContradiction1 assertions).map Contradiction.pair =
        (checkContradiction1 assertions').map Contradiction.pair := by
  refine ⟨fun record => mem_labels.trans known_iff, ?_, ?_, ?_, ?_, ?_, ?_⟩
  · intro record label
    rw [mem_labels]
    exact getElem?_labelPropagate
  · intro record
    rw [mem_labels, mem_components]
  · intro a b ha hb
    rw [mem_labels] at ha hb
    obtain ⟨x, hx⟩ := BTreeMap.mem_iff_exists_getElem?.mp (mem_components.mpr ha)
    obtain ⟨y, hy⟩ := BTreeMap.mem_iff_exists_getElem?.mp (mem_components.mpr hb)
    rw [← labelPropagate_eq, labelPropagate_eq_iff ha hb, hx, hy, Option.some.injEq]
    exact components_eq_iff hx hy
  · rw [checkContradiction1_eq]
    apply ((List.perm_insertionSort _ _).map _).trans
    rw [List.map_map]
    apply List.Perm.of_eq
    rw [List.filter_congr fun assertion _ => decide_eq_decide.mpr Iff.rfl]
    rfl
  · intro finding hfinding
    rw [checkContradiction1_eq, List.mem_insertionSort, List.mem_map] at hfinding
    obtain ⟨assertion, _, rfl⟩ := hfinding
    refine ⟨fun record => mem_component_explain, ?_⟩
    apply (List.perm_insertionSort _ _).trans
    apply List.Perm.of_eq
    rw [activeAlways, List.filter_filter, List.filter_filter]
    apply congrArg
    apply List.filter_congr
    intro always _
    rw [Bool.eq_iff_iff]
    simp only [Bool.and_eq_true, decide_eq_true_eq]
    tauto
  · intro assertions' hperm
    refine ⟨checkContradiction1_perm hperm, ?_⟩
    apply List.Perm.eq_of_pairwise' _ _ ((checkContradiction1_perm hperm).map _) (r := (· ≤ ·))
    · exact List.pairwise_map.mpr (checkContradiction1_sorted assertions)
    · exact List.pairwise_map.mpr (checkContradiction1_sorted assertions')

end EntityResolution.Reconcile
