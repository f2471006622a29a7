/-
# Breadth-first search that keeps a best sequence per node

A search keeps three things: the best vertex sequence found for every node discovered so
far, the depth at which the node was discovered, and the queue of nodes still to expand.
Expanding a node discovers its new neighbours and may replace the sequence of a
neighbour discovered one level below by a smaller one.

Two sets drive the argument: the nodes already popped and the nodes discovered. Every
popped node has all its neighbours discovered, every discovered node is popped or
queued, and no node is queued twice. Popped nodes are nodes of the graph, so a round per
node empties the queue, and what is then discovered is what the source reaches.
-/

import EntityResolution.Foundations.Collections

namespace EntityResolution.BreadthFirst

open EntityResolution.Collections

universe u

variable {K : Type u} [LinearOrder K]

/-- The best sequences, the depths and the queue. -/
structure Search (K : Type u) [LinearOrder K] where
  best : BTreeMap K (List K)
  depth : BTreeMap K ℕ
  frontier : List K

/-- Only the source is discovered, at depth zero. -/
def Search.start (source : K) : Search K where
  best := (∅ : BTreeMap K (List K)).insert source [source]
  depth := (∅ : BTreeMap K ℕ).insert source 0
  frontier := [source]

/-- Look at one neighbour of a node with the given depth and sequence. -/
def visit (nodeDepth : ℕ) (nodeBest : List K) (search : Search K) (neighbour : K) : Search K :=
  let candidate := nodeBest ++ [neighbour]
  match search.depth[neighbour]? with
  | none =>
      { best := search.best.insert neighbour candidate
        depth := search.depth.insert neighbour (nodeDepth + 1)
        frontier := search.frontier ++ [neighbour] }
  | some d =>
      if d = nodeDepth + 1 ∧ candidate < search.best[neighbour]?.getD [] then
        { search with best := search.best.insert neighbour candidate }
      else search

/-- Look at every neighbour of a node. -/
def expand (graph : BTreeMap K (List K)) (search : Search K) (node : K) : Search K :=
  (graph[node]?.getD []).foldl
    (visit (search.depth[node]?.getD 0) (search.best[node]?.getD [])) search

/-- Expand the nodes of the queue, with a bound on their number. -/
def run (graph : BTreeMap K (List K)) : ℕ → Search K → Search K
  | 0, search => search
  | fuel + 1, search =>
      match search.frontier with
      | [] => search
      | node :: rest => run graph fuel (expand graph { search with frontier := rest } node)

/-- The best sequence from a source to a target, with a round for every node. -/
def bestPath (graph : BTreeMap K (List K)) (source target : K) : Option (List K) :=
  (run graph graph.size (Search.start source)).best[target]?

/-- A neighbour in the graph. -/
def Adjacent (graph : BTreeMap K (List K)) (first second : K) : Prop :=
  ∃ row, graph[first]? = some row ∧ second ∈ row

/-- A vertex sequence from the source to the target along the graph. -/
structure IsWalk (graph : BTreeMap K (List K)) (source target : K) (path : List K) : Prop where
  chain : path.IsChain (Adjacent graph)
  head : path.head? = some source
  last : path.getLast? = some target

theorem isWalk_single (graph : BTreeMap K (List K)) (source : K) :
    IsWalk graph source source [source] :=
  ⟨.singleton source, rfl, rfl⟩

theorem IsWalk.concat {graph : BTreeMap K (List K)} {source node neighbour : K} {path : List K}
    (hwalk : IsWalk graph source node path) (hedge : Adjacent graph node neighbour) :
    IsWalk graph source neighbour (path ++ [neighbour]) := by
  have hne : path ≠ [] := by
    intro hnil
    have hhead := hwalk.head
    simp [hnil] at hhead
  apply IsWalk.mk
  · rw [List.isChain_append]
    refine ⟨hwalk.chain, .singleton neighbour, ?_⟩
    intro last hlast head hhead
    rw [hwalk.last, Option.mem_some_iff] at hlast
    have hhead' : neighbour = head := by simpa using hhead
    rw [← hlast, ← hhead']
    exact hedge
  · rw [List.head?_append_of_ne_nil _ hne]
    exact hwalk.head
  · simp

theorem IsWalk.reaches {graph : BTreeMap K (List K)} {source target : K} {path : List K}
    (hwalk : IsWalk graph source target path) :
    Relation.ReflTransGen (Adjacent graph) source target := by
  obtain ⟨hchain, hhead, hlast⟩ := hwalk
  cases path with
  | nil => cases hhead
  | cons first rest =>
      have hfirst : first = source := by simpa using hhead
      subst hfirst
      apply List.relationReflTransGen_of_exists_isChain_cons rest hchain
      rw [List.getLast?_eq_some_getLast (List.cons_ne_nil _ _)] at hlast
      exact Option.some.inj hlast

/-- What the search knows while some nodes have been popped off the queue. -/
structure Invariant (graph : BTreeMap K (List K)) (source : K) (popped : Finset K)
    (search : Search K) : Prop where
  source_known : source ∈ search.depth
  best_iff : ∀ node, node ∈ search.best ↔ node ∈ search.depth
  walk : ∀ node path, search.best[node]? = some path → IsWalk graph source node path
  covered : ∀ node, node ∈ search.depth ↔ node ∈ popped ∨ node ∈ search.frontier
  apart : ∀ node ∈ search.frontier, node ∉ popped
  nodup : search.frontier.Nodup
  known : ∀ node ∈ search.depth, node ∈ graph

/-- Every neighbour of the node has been discovered. -/
def Scanned (graph : BTreeMap K (List K)) (search : Search K) (node : K) : Prop :=
  ∀ neighbour, Adjacent graph node neighbour → neighbour ∈ search.depth

variable {graph : BTreeMap K (List K)} {source : K} {popped : Finset K} {search : Search K}

theorem invariant_start (hsource : source ∈ graph) :
    Invariant graph source ∅ (Search.start source) := by
  have hdepth (node : K) : node ∈ (Search.start source).depth ↔ node = source := by
    rw [Search.start, BTreeMap.mem_insert_iff]
    simp [eq_comm]
  apply Invariant.mk
  · exact (hdepth source).mpr rfl
  · intro node
    rw [Search.start, BTreeMap.mem_insert_iff, BTreeMap.mem_insert_iff]
    simp
  · intro node path hpath
    rw [Search.start, BTreeMap.getElem?_insert_eq_ite] at hpath
    by_cases hsame : source = node
    · subst hsame
      rw [if_pos rfl] at hpath
      cases hpath
      exact isWalk_single graph source
    · simp [hsame] at hpath
  · intro node
    rw [hdepth]
    simp [Search.start]
  · simp
  · exact List.nodup_singleton source
  · intro node hnode
    rw [(hdepth node).mp hnode]
    exact hsource

theorem Invariant.walk_insert {node : K} {path : List K}
    (hinv : Invariant graph source popped search) (hwalk : IsWalk graph source node path)
    (other : K) (path' : List K) (hpath' : (search.best.insert node path)[other]? = some path') :
    IsWalk graph source other path' := by
  rw [BTreeMap.getElem?_insert_eq_ite] at hpath'
  by_cases hsame : node = other
  · subst hsame
    rw [if_pos rfl] at hpath'
    cases hpath'
    exact hwalk
  · rw [if_neg hsame] at hpath'
    exact hinv.walk other path' hpath'

/-- Filing a walk for a node keeps the invariant, provided that the node was discovered. -/
theorem Invariant.insert_best {node : K} {path : List K}
    (hinv : Invariant graph source popped search)
    (hknown : node ∈ search.depth) (hwalk : IsWalk graph source node path) :
    Invariant graph source popped { search with best := search.best.insert node path } := by
  refine { hinv with best_iff := ?_, walk := ?_ }
  · intro other
    rw [BTreeMap.mem_insert_iff, hinv.best_iff]
    apply or_iff_right_of_imp
    intro hsame
    exact hsame ▸ hknown
  · exact hinv.walk_insert hwalk

/-- Discovering a node: it gets a depth, a walk and a place in the queue. -/
theorem Invariant.discover {node : K} {path : List K} {d : ℕ}
    (hinv : Invariant graph source popped search) (hnew : node ∉ search.depth)
    (hnode : node ∈ graph) (hwalk : IsWalk graph source node path) :
    Invariant graph source popped
      { best := search.best.insert node path
        depth := search.depth.insert node d
        frontier := search.frontier ++ [node] } := by
  have hunpopped : node ∉ popped := fun h => hnew ((hinv.covered node).mpr (.inl h))
  have hunqueued : node ∉ search.frontier := fun h => hnew ((hinv.covered node).mpr (.inr h))
  apply Invariant.mk
  · exact BTreeMap.mem_insert_iff.mpr (.inr hinv.source_known)
  · intro other
    rw [BTreeMap.mem_insert_iff, BTreeMap.mem_insert_iff, hinv.best_iff]
  · exact hinv.walk_insert hwalk
  · intro other
    rw [BTreeMap.mem_insert_iff, hinv.covered, List.mem_append, List.mem_singleton]
    apply Iff.intro
    · intro h
      rcases h with rfl | hpopped | hqueued
      · exact .inr (.inr rfl)
      · exact .inl hpopped
      · exact .inr (.inl hqueued)
    · intro h
      rcases h with hpopped | hqueued | rfl
      · exact .inr (.inl hpopped)
      · exact .inr (.inr hqueued)
      · exact .inl rfl
  · intro other hother
    rcases List.mem_append.mp hother with hqueued | hlast
    · exact hinv.apart other hqueued
    · rw [List.mem_singleton.mp hlast]
      exact hunpopped
  · rw [List.nodup_append]
    refine ⟨hinv.nodup, List.nodup_singleton node, ?_⟩
    intro other hqueued last hlast hsame
    rw [List.mem_singleton.mp hlast] at hsame
    exact hunqueued (hsame ▸ hqueued)
  · intro other hother
    rcases BTreeMap.mem_insert_iff.mp hother with rfl | hother
    · exact hnode
    · exact hinv.known other hother

/-- Visiting a neighbour keeps the invariant, discovers the neighbour and forgets
nothing. -/
theorem Invariant.visit {neighbour : K} {nodeBest : List K}
    (hinv : Invariant graph source popped search) (nodeDepth : ℕ) (hneighbour : neighbour ∈ graph)
    (hwalk : IsWalk graph source neighbour (nodeBest ++ [neighbour])) :
    Invariant graph source popped (visit nodeDepth nodeBest search neighbour) ∧
      neighbour ∈ (BreadthFirst.visit nodeDepth nodeBest search neighbour).depth ∧
      ∀ other ∈ search.depth,
        other ∈ (BreadthFirst.visit nodeDepth nodeBest search neighbour).depth := by
  rw [BreadthFirst.visit]
  cases hdepth : search.depth[neighbour]? with
  | none =>
      have hnew : neighbour ∉ search.depth := by
        intro hknown
        obtain ⟨d, hd⟩ := BTreeMap.mem_iff_exists_getElem?.mp hknown
        simp [hdepth] at hd
      exact ⟨hinv.discover hnew hneighbour hwalk, BTreeMap.mem_insert_iff.mpr (.inl rfl),
        fun other hother => BTreeMap.mem_insert_iff.mpr (.inr hother)⟩
  | some d =>
      have hknown : neighbour ∈ search.depth := BTreeMap.mem_iff_exists_getElem?.mpr ⟨d, hdepth⟩
      by_cases hbetter : d = nodeDepth + 1 ∧
          nodeBest ++ [neighbour] < search.best[neighbour]?.getD []
      · simp only [if_pos hbetter]
        exact ⟨hinv.insert_best hknown hwalk, hknown, fun other hother => hother⟩
      · simp only [if_neg hbetter]
        exact ⟨hinv, hknown, fun other hother => hother⟩

/-- The step lemma: popping a node off the queue and expanding it. -/
theorem Invariant.expand {node : K} {rest : List K} (hinv : Invariant graph source popped search)
    (hgraph : ∀ first second, Adjacent graph first second → second ∈ graph)
    (hqueue : search.frontier = node :: rest) :
    Invariant graph source (insert node popped)
        (expand graph { search with frontier := rest } node) ∧
      Scanned graph (BreadthFirst.expand graph { search with frontier := rest } node) node ∧
      ∀ other ∈ search.depth,
        other ∈ (BreadthFirst.expand graph { search with frontier := rest } node).depth := by
  have hnodup := hinv.nodup
  rw [hqueue, List.nodup_cons] at hnodup
  have hpopped : Invariant graph source (insert node popped) { search with frontier := rest } := by
    refine { hinv with covered := ?_, apart := ?_, nodup := hnodup.2 }
    · intro other
      rw [hinv.covered, hqueue, List.mem_cons, Finset.mem_insert]
      tauto
    · intro other hother hmem
      rcases Finset.mem_insert.mp hmem with rfl | hmem
      · exact hnodup.1 hother
      · exact hinv.apart other (by rw [hqueue]; exact List.mem_cons_of_mem _ hother) hmem
  have hknown : node ∈ search.depth := (hinv.covered node).mpr (.inr (by simp [hqueue]))
  obtain ⟨path, hpath⟩ := BTreeMap.mem_iff_exists_getElem?.mp ((hinv.best_iff node).mpr hknown)
  obtain ⟨row, hrow⟩ := BTreeMap.mem_iff_exists_getElem?.mp (hinv.known node hknown)
  have hwalk := hinv.walk node path hpath
  -- The scan of a part of the row, from any search that keeps the invariant.
  have hscan (part : List K) (hpart : ∀ neighbour ∈ part, neighbour ∈ row) (d : ℕ)
      (current : Search K) (hcurrent : Invariant graph source (insert node popped) current) :
      Invariant graph source (insert node popped) (part.foldl (BreadthFirst.visit d path) current) ∧
        (∀ neighbour ∈ part, neighbour ∈ (part.foldl (BreadthFirst.visit d path) current).depth) ∧
        ∀ other ∈ current.depth,
          other ∈ (part.foldl (BreadthFirst.visit d path) current).depth := by
    induction part generalizing current with
    | nil => exact ⟨hcurrent, by simp, fun other hother => hother⟩
    | cons neighbour part ih =>
        have hedge : Adjacent graph node neighbour :=
          ⟨row, hrow, hpart neighbour List.mem_cons_self⟩
        obtain ⟨hnext, hfound, hkept⟩ :=
          hcurrent.visit d (hgraph node neighbour hedge) (hwalk.concat hedge)
        rcases ih (fun other hother => hpart other (List.mem_cons_of_mem _ hother)) _ hnext with
          ⟨hend, hall, hgrow⟩
        refine ⟨hend, ?_, fun other hother => hgrow other (hkept other hother)⟩
        intro other hother
        rcases List.mem_cons.mp hother with rfl | hother
        · exact hgrow _ hfound
        · exact hall other hother
  rw [BreadthFirst.expand]
  simp only [hrow, hpath, Option.getD_some]
  obtain ⟨hend, hall, hgrow⟩ := hscan row (fun _ h => h) (search.depth[node]?.getD 0) _ hpopped
  refine ⟨hend, ?_, hgrow⟩
  intro neighbour hedge
  obtain ⟨row', hrow', hmem⟩ := hedge
  cases hrow.symm.trans hrow'
  exact hall neighbour hmem

/-! ## The whole search -/

/-- The run lemma: with a round for every node not yet popped, the queue empties, and
every discovered node has been scanned. -/
theorem Invariant.run {fuel : ℕ} (hinv : Invariant graph source popped search)
    (hgraph : ∀ first second, Adjacent graph first second → second ∈ graph)
    (hscanned : ∀ node ∈ popped, Scanned graph search node)
    (hfuel : graph.size ≤ popped.card + fuel) :
    ∃ popped', Invariant graph source popped' (run graph fuel search) ∧
      (BreadthFirst.run graph fuel search).frontier = [] ∧
      ∀ node ∈ popped', Scanned graph (BreadthFirst.run graph fuel search) node := by
  induction fuel generalizing popped search with
  | zero =>
      refine ⟨popped, hinv, ?_, hscanned⟩
      have hsubset : popped ⊆ graph.keys.toFinset := by
        intro node hnode
        simpa using hinv.known node ((hinv.covered node).mpr (.inl hnode))
      have hcard : graph.keys.toFinset.card ≤ popped.card := by
        rw [List.toFinset_card_of_nodup (BTreeMap.keys_nodup graph), Std.ExtTreeMap.length_keys]
        omega
      have hall := Finset.eq_of_subset_of_card_le hsubset hcard
      apply List.eq_nil_iff_forall_not_mem.mpr
      intro node hnode
      apply hinv.apart node hnode
      rw [hall]
      simpa using hinv.known node ((hinv.covered node).mpr (.inr hnode))
  | succ fuel ih =>
      rw [BreadthFirst.run]
      cases hqueue : search.frontier with
      | nil => exact ⟨popped, hinv, hqueue, hscanned⟩
      | cons node rest =>
          obtain ⟨hnext, hscan, hgrow⟩ := hinv.expand hgraph hqueue
          have hunpopped : node ∉ popped := hinv.apart node (by simp [hqueue])
          apply ih hnext
          · intro other hother
            rcases Finset.mem_insert.mp hother with rfl | hother
            · exact hscan
            · exact fun neighbour hedge => hgrow _ (hscanned other hother neighbour hedge)
          · rw [Finset.card_insert_of_notMem hunpopped]
            omega

/-- The search finds a walk to exactly the nodes that the source reaches. -/
theorem bestPath_spec (hgraph : ∀ first second, Adjacent graph first second → second ∈ graph)
    (hsource : source ∈ graph) (target : K) :
    (∀ path, bestPath graph source target = some path → IsWalk graph source target path) ∧
      (Relation.ReflTransGen (Adjacent graph) source target →
        ∃ path, bestPath graph source target = some path) := by
  rcases (invariant_start hsource).run hgraph (by simp) (Nat.le_add_left graph.size _) with
    ⟨popped, hinv, hempty, hscanned⟩
  apply And.intro
  · intro path hpath
    exact hinv.walk target path hpath
  · intro hreach
    have hdiscovered : target ∈ (run graph graph.size (Search.start source)).depth := by
      induction hreach with
      | refl => exact hinv.source_known
      | @tail node neighbour _ hedge ih =>
          rcases (hinv.covered node).mp ih with hpopped | hqueued
          · exact hscanned node hpopped neighbour hedge
          · simp [hempty] at hqueued
    exact BTreeMap.mem_iff_exists_getElem?.mp ((hinv.best_iff target).mpr hdiscovered)

/-- The first layers of the search: only the source has depth zero, and a node at depth one
was reached by its edge from the source. -/
structure Layered (source : K) (search : Search K) : Prop where
  source_depth : search.depth[source]? = some 0
  shallow : ∀ node, search.depth[node]? = some 0 → node = source
  near : ∀ node, search.depth[node]? = some 1 → search.best[node]? = some [source, node]
  queued : ∀ node ∈ search.frontier, ∃ d, search.depth[node]? = some (d + 1)

/-- What a scan from a node at some depth does to the depths: it keeps the known ones, and
gives every new node the next depth. -/
structure Deepens (nodeDepth : ℕ) (search later : Search K) : Prop where
  kept : ∀ (node : K) (d : ℕ), search.depth[node]? = some d → later.depth[node]? = some d
  origin : ∀ (node : K) (d : ℕ), later.depth[node]? = some d →
    search.depth[node]? = some d ∨ d = nodeDepth + 1

theorem Deepens.refl (nodeDepth : ℕ) (search : Search K) : Deepens nodeDepth search search :=
  ⟨fun _ _ hnode => hnode, fun _ _ hnode => .inl hnode⟩

theorem Deepens.trans {nodeDepth : ℕ} {first second third : Search K}
    (hfirst : Deepens nodeDepth first second) (hsecond : Deepens nodeDepth second third) :
    Deepens nodeDepth first third where
  kept node d hnode := hsecond.kept node d (hfirst.kept node d hnode)
  origin node d hnode := by
    rcases hsecond.origin node d hnode with hnode | hdeep
    · exact hfirst.origin node d hnode
    · exact .inr hdeep

/-- Visiting a neighbour keeps the layers and finds the neighbour. -/
theorem Layered.visit {nodeDepth : ℕ} {nodeBest : List K} (hlayered : Layered source search)
    (hroot : nodeDepth = 0 → nodeBest = [source]) (neighbour : K) :
    Layered source (visit nodeDepth nodeBest search neighbour) ∧
      (∃ d, (BreadthFirst.visit nodeDepth nodeBest search neighbour).depth[neighbour]? = some d) ∧
      Deepens nodeDepth search (BreadthFirst.visit nodeDepth nodeBest search neighbour) := by
  rw [BreadthFirst.visit]
  cases hdepth : search.depth[neighbour]? with
  | none =>
      have hdeepens : Deepens nodeDepth search
          { best := search.best.insert neighbour (nodeBest ++ [neighbour])
            depth := search.depth.insert neighbour (nodeDepth + 1)
            frontier := search.frontier ++ [neighbour] } := by
        apply Deepens.mk
        · intro node d hnode
          have hne : neighbour ≠ node := by
            rintro rfl
            cases hdepth.symm.trans hnode
          rw [BTreeMap.getElem?_insert_eq_ite, if_neg hne, hnode]
        · intro node d hnode
          rw [BTreeMap.getElem?_insert_eq_ite] at hnode
          split at hnode
          · exact .inr (Option.some.inj hnode).symm
          · exact .inl hnode
      refine ⟨⟨hdeepens.kept _ _ hlayered.source_depth, ?_, ?_, ?_⟩, ?_, hdeepens⟩
      · intro node hnode
        rcases hdeepens.origin node 0 hnode with hnode | hdeep
        · exact hlayered.shallow node hnode
        · omega
      · intro node hnode
        rw [BTreeMap.getElem?_insert_eq_ite] at hnode ⊢
        split at hnode
        · rename_i hsame
          have hzero : nodeDepth = 0 := by simpa using hnode
          rw [if_pos hsame, hroot hzero, ← hsame]
          rfl
        · rename_i hother
          rw [if_neg hother]
          exact hlayered.near node hnode
      · intro node hnode
        rcases List.mem_append.mp hnode with hnode | hnode
        · obtain ⟨d, hd⟩ := hlayered.queued node hnode
          exact ⟨d, hdeepens.kept node (d + 1) hd⟩
        · rw [List.mem_singleton.mp hnode]
          exact ⟨nodeDepth, by rw [BTreeMap.getElem?_insert_eq_ite, if_pos rfl]⟩
      · exact ⟨nodeDepth + 1, by rw [BTreeMap.getElem?_insert_eq_ite, if_pos rfl]⟩
  | some d =>
      by_cases hbetter : d = nodeDepth + 1 ∧
          nodeBest ++ [neighbour] < search.best[neighbour]?.getD []
      · simp only [if_pos hbetter]
        refine ⟨{ hlayered with near := ?_ }, ⟨d, hdepth⟩, ⟨fun _ _ h => h, fun _ _ h => .inl h⟩⟩
        intro node hnode
        rw [BTreeMap.getElem?_insert_eq_ite]
        split
        · -- an improvement at depth one would improve on the edge itself
          rename_i hsame
          subst hsame
          have hone : d = 1 := Option.some.inj (hdepth.symm.trans hnode)
          have hzero : nodeDepth = 0 := by omega
          have hbest := hbetter.2
          rw [hlayered.near _ hnode, hroot hzero] at hbest
          exact absurd hbest (lt_irrefl _)
        · exact hlayered.near node hnode
      · simp only [if_neg hbetter]
        exact ⟨hlayered, ⟨d, hdepth⟩, .refl nodeDepth search⟩

theorem Layered.foldl_visit {nodeDepth : ℕ} {nodeBest : List K}
    (hroot : nodeDepth = 0 → nodeBest = [source]) (row : List K)
    (hlayered : Layered source search) :
    Layered source (row.foldl (BreadthFirst.visit nodeDepth nodeBest) search) ∧
      (∀ neighbour ∈ row, ∃ d,
        (row.foldl (BreadthFirst.visit nodeDepth nodeBest) search).depth[neighbour]? = some d) ∧
      Deepens nodeDepth search (row.foldl (BreadthFirst.visit nodeDepth nodeBest) search) := by
  induction row generalizing search with
  | nil => exact ⟨hlayered, by simp, .refl nodeDepth search⟩
  | cons neighbour row ih =>
      obtain ⟨hnext, ⟨d, hd⟩, hdeepens⟩ := hlayered.visit hroot neighbour
      obtain ⟨hend, hall, hgrow⟩ := ih hnext
      refine ⟨hend, ?_, hdeepens.trans hgrow⟩
      intro other hother
      rcases List.mem_cons.mp hother with rfl | hother
      · exact ⟨d, hgrow.kept _ _ hd⟩
      · exact hall other hother

/-- A search whose queue starts beyond the source keeps the layers and every known depth. -/
theorem Layered.run (fuel : ℕ) (hlayered : Layered source search) :
    Layered source (run graph fuel search) ∧
      ∀ (other : K) (d : ℕ), search.depth[other]? = some d →
        (BreadthFirst.run graph fuel search).depth[other]? = some d := by
  induction fuel generalizing search with
  | zero => exact ⟨hlayered, fun other d hother => hother⟩
  | succ fuel ih =>
      rw [BreadthFirst.run]
      cases hqueue : search.frontier with
      | nil => exact ⟨hlayered, fun other d hother => hother⟩
      | cons node rest =>
          have hpopped : Layered source { search with frontier := rest } :=
            { hlayered with
              queued := fun other hother => hlayered.queued other
                (by rw [hqueue]; exact List.mem_cons_of_mem _ hother) }
          obtain ⟨d, hd⟩ := hlayered.queued node (by simp [hqueue])
          have hdeep : search.depth[node]?.getD 0 = 0 →
              search.best[node]?.getD [] = [source] := by
            rw [hd]
            intro hzero
            cases hzero
          obtain ⟨hnext, _, hscan⟩ := Layered.foldl_visit hdeep (graph[node]?.getD []) hpopped
          obtain ⟨hend, hgrow⟩ := ih hnext
          exact ⟨hend, fun other d hother => hgrow other d (hscan.kept other d hother)⟩

/-- The best path to a neighbour is the edge. -/
theorem bestPath_of_adjacent {target : K} (hsource : source ∈ graph) (hne : source ≠ target)
    (hedge : Adjacent graph source target) :
    bestPath graph source target = some [source, target] := by
  obtain ⟨row, hrow, hmem⟩ := hedge
  have hdepth (node : K) : (Search.start source).depth[node]? =
      if source = node then some 0 else none := by
    rw [Search.start, BTreeMap.getElem?_insert_eq_ite]
    simp
  have hstart : Layered source ({ Search.start source with frontier := [] } : Search K) := by
    refine ⟨by rw [hdepth, if_pos rfl], ?_, ?_, by simp⟩
    · intro node hnode
      rw [hdepth] at hnode
      split at hnode
      · rename_i hsame
        exact hsame.symm
      · cases hnode
    · intro node hnode
      rw [hdepth] at hnode
      split at hnode <;> simp at hnode
  obtain ⟨fuel, hfuel⟩ : ∃ fuel, graph.size = fuel + 1 := by
    obtain ⟨row, hrow⟩ := BTreeMap.mem_iff_exists_getElem?.mp hsource
    exact Nat.exists_eq_add_one.mpr (BTreeMap.size_pos_of_getElem? hrow)
  have hroot : (Search.start source).depth[source]?.getD 0 = 0 →
      (Search.start source).best[source]?.getD [] = [source] := by
    intro _
    rw [Search.start, BTreeMap.getElem?_insert_eq_ite, if_pos rfl, Option.getD_some]
  obtain ⟨hlayered, hall, hdeepens⟩ := Layered.foldl_visit hroot row hstart
  obtain ⟨d, hd⟩ := hall target hmem
  -- the target was first seen from the source
  have hone : d = 1 := by
    rcases hdeepens.origin target d hd with hknown | hdeep
    · rw [hdepth, if_neg hne] at hknown
      cases hknown
    · rw [hdeep, hdepth, if_pos rfl, Option.getD_some]
  have hstep : expand graph { Search.start source with frontier := [] } source =
      row.foldl (visit ((Search.start source).depth[source]?.getD 0)
        ((Search.start source).best[source]?.getD []))
          ({ Search.start source with frontier := [] } : Search K) := by
    rw [expand, hrow, Option.getD_some]
  have hrun : run graph (fuel + 1) (Search.start source) =
      run graph fuel (expand graph { Search.start source with frontier := [] } source) := rfl
  rw [bestPath, hfuel, hrun, hstep]
  obtain ⟨hend, hkept⟩ := hlayered.run fuel
  exact hend.near target (hkept target 1 (hone ▸ hd))

end EntityResolution.BreadthFirst
