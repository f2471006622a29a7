/-
# The search finds least walks

A walk is least when no walk with the same ends has fewer hops, and none with as many comes before
it as a vertex sequence. The queue of the search is ordered by depth, so when a node is popped the
nodes above it are all popped, and a scan improves the sequences of the next depth only. The
sequence of a popped node is therefore final, and least prefixes give least walks.
-/

import EntityResolution.Foundations.BreadthFirst

namespace EntityResolution.BreadthFirst

open EntityResolution.Collections

universe u

variable {K : Type u} [LinearOrder K] {graph : BTreeMap K (List K)} {source : K}
  {popped : Finset K} {search later : Search K}

/-- A walk with the fewest hops, the least of them as a sequence. -/
structure IsLeastWalk (graph : BTreeMap K (List K)) (source target : K) (path : List K) : Prop
    extends IsWalk graph source target path where
  fewest : ∀ other, IsWalk graph source target other → path.length ≤ other.length
  least : ∀ other, IsWalk graph source target other → path.length = other.length → path ≤ other

omit [LinearOrder K] in
theorem exists_loop_of_not_nodup {path : List K} (hrepeats : ¬ path.Nodup) :
    ∃ before node between after, path = before ++ node :: (between ++ node :: after) := by
  induction path with
  | nil => exact absurd List.nodup_nil hrepeats
  | cons node rest ih =>
      by_cases hmem : node ∈ rest
      · obtain ⟨between, after, rfl⟩ := List.append_of_mem hmem
        exact ⟨[], node, between, after, rfl⟩
      · have hrest : ¬ rest.Nodup := fun hnodup => hrepeats (List.nodup_cons.mpr ⟨hmem, hnodup⟩)
        obtain ⟨before, other, between, after, rfl⟩ := ih hrest
        exact ⟨node :: before, other, between, after, rfl⟩

/-- The stretch between two visits of a node can be left out of a walk. -/
theorem IsWalk.skip {target node : K} {before between after : List K}
    (hwalk : IsWalk graph source target (before ++ node :: (between ++ node :: after))) :
    IsWalk graph source target (before ++ node :: after) := by
  have hchain := hwalk.chain
  rw [List.isChain_append] at hchain
  obtain ⟨hbefore, hrest, hjoin⟩ := hchain
  have hafter : (node :: after).IsChain (Adjacent graph) := by
    have hloop : ((node :: between) ++ (node :: after)).IsChain (Adjacent graph) := hrest
    exact hloop.right_of_append
  apply IsWalk.mk
  · rw [List.isChain_append]
    exact ⟨hbefore, hafter, hjoin⟩
  · have hhead := hwalk.head
    cases before with
    | nil => exact hhead
    | cons first before => exact hhead
  · have hlast := hwalk.last
    rw [List.getLast?_append_of_ne_nil _ (List.cons_ne_nil _ _)] at hlast ⊢
    rwa [← List.cons_append, List.getLast?_append_of_ne_nil _ (List.cons_ne_nil _ _)] at hlast

/-- A least walk visits no node twice. -/
theorem IsLeastWalk.nodup {target : K} {path : List K}
    (hleast : IsLeastWalk graph source target path) :
    path.Nodup := by
  by_contra hrepeats
  obtain ⟨before, node, between, after, rfl⟩ := exists_loop_of_not_nodup hrepeats
  have hfewest := hleast.fewest _ hleast.toIsWalk.skip
  simp only [List.length_append, List.length_cons] at hfewest
  omega

/-- There is at most one least walk. -/
theorem IsLeastWalk.eq {target : K} {path other : List K}
    (hpath : IsLeastWalk graph source target path)
    (hother : IsLeastWalk graph source target other) : path = other := by
  have hlength : path.length = other.length :=
    le_antisymm (hpath.fewest other hother.toIsWalk) (hother.fewest path hpath.toIsWalk)
  exact le_antisymm (hpath.least other hother.toIsWalk hlength)
    (hother.least path hpath.toIsWalk hlength.symm)

theorem append_singleton_le {first second : List K} (hlength : first.length = second.length)
    (hle : first ≤ second) (node : K) : first ++ [node] ≤ second ++ [node] := by
  rcases hle.lt_or_eq with hlt | rfl
  · have hlex : List.Lex (· < ·) (first ++ [node]) (second ++ [node]) := by
      clear hle
      induction hlt with
      | nil => cases hlength
      | cons _ ih => exact .cons (ih (Nat.succ.inj hlength))
      | rel hhead => exact .rel hhead
    exact le_of_lt hlex
  · exact le_refl _

/-- The depth of a discovered node. -/
def Search.depthOf (search : Search K) (node : K) : ℕ := search.depth[node]?.getD 0

/-- The sequence of a discovered node. -/
def Search.bestOf (search : Search K) (node : K) : List K := search.best[node]?.getD []

/-- What a scan from a node of a depth changes: it discovers and improves nodes of the next depth,
and queues what it discovers. -/
structure Improves (nodeDepth : ℕ) (search later : Search K) : Prop
    extends Deepens nodeDepth search later where
  settled : ∀ (node : K) (d : ℕ), search.depth[node]? = some d → d ≠ nodeDepth + 1 →
    later.best[node]? = search.best[node]?
  better : ∀ node, node ∈ search.depth → later.bestOf node ≤ search.bestOf node
  queue : ∃ found, later.frontier = search.frontier ++ found ∧
    ∀ node ∈ found, later.depth[node]? = some (nodeDepth + 1)
  sized : (∀ (node : K) (d : ℕ), search.depth[node]? = some d →
    (search.bestOf node).length = d + 1) →
    ∀ (node : K) (d : ℕ), later.depth[node]? = some d → (later.bestOf node).length = d + 1

theorem Improves.refl (nodeDepth : ℕ) (search : Search K) : Improves nodeDepth search search where
  toDeepens := Deepens.refl nodeDepth search
  settled _ _ _ _ := rfl
  better _ _ := le_refl _
  queue := ⟨[], (List.append_nil _).symm, fun _ hnode => absurd hnode List.not_mem_nil⟩
  sized hsized := hsized

theorem Improves.trans {nodeDepth : ℕ} {first second third : Search K}
    (hfirst : Improves nodeDepth first second) (hsecond : Improves nodeDepth second third) :
    Improves nodeDepth first third where
  toDeepens := hfirst.toDeepens.trans hsecond.toDeepens
  settled node d hdepth hne :=
    (hsecond.settled node d (hfirst.kept node d hdepth) hne).trans
    (hfirst.settled node d hdepth hne)
  better node hnode := by
    obtain ⟨d, hd⟩ := BTreeMap.mem_iff_exists_getElem?.mp hnode
    have hkept : node ∈ second.depth :=
      BTreeMap.mem_iff_exists_getElem?.mpr ⟨d, hfirst.kept node d hd⟩
    exact (hsecond.better node hkept).trans (hfirst.better node hnode)
  queue := by
    obtain ⟨found, hfound, hdepth⟩ := hfirst.queue
    obtain ⟨more, hmore, hdepth'⟩ := hsecond.queue
    refine ⟨found ++ more, ?_, ?_⟩
    · rw [hmore, hfound, List.append_assoc]
    · intro node hnode
      rcases List.mem_append.mp hnode with hnode | hnode
      · exact hsecond.kept node _ (hdepth node hnode)
      · exact hdepth' node hnode
  sized hsized := hsecond.sized (hfirst.sized hsized)

/-- Visiting a neighbour discovers it, and leaves it with a sequence that is at most the candidate
if it is of the next depth. -/
theorem improves_visit {nodeDepth : ℕ} {nodeBest : List K}
    (hlength : nodeBest.length = nodeDepth + 1)
    (search : Search K) (neighbour : K) :
    Improves nodeDepth search (visit nodeDepth nodeBest search neighbour) ∧
      neighbour ∈ (visit nodeDepth nodeBest search neighbour).depth ∧
      ((visit nodeDepth nodeBest search neighbour).depth[neighbour]? = some (nodeDepth + 1) →
        (visit nodeDepth nodeBest search neighbour).bestOf neighbour ≤ nodeBest ++
          [neighbour]) := by
  rw [visit]
  cases hdepth : search.depth[neighbour]? with
  | none =>
      have hne : ∀ (node : K) (d : ℕ), search.depth[node]? = some d → neighbour ≠ node := by
        rintro node d hd rfl
        cases hdepth.symm.trans hd
      have hbest : ∀ node : K, (search.best.insert neighbour (nodeBest ++ [neighbour]))[node]? =
          if neighbour = node then some (nodeBest ++ [neighbour]) else search.best[node]? :=
        fun node => BTreeMap.getElem?_insert_eq_ite ..
      refine ⟨⟨⟨?_, ?_⟩, ?_, ?_, ?_, ?_⟩, BTreeMap.mem_insert_iff.mpr (Or.inl rfl), ?_⟩
      · intro node d hd
        rw [BTreeMap.getElem?_insert_eq_ite, if_neg (hne node d hd), hd]
      · intro node d hd
        rw [BTreeMap.getElem?_insert_eq_ite] at hd
        split at hd
        · exact Or.inr (Option.some.inj hd).symm
        · exact Or.inl hd
      · intro node d hd _
        rw [hbest, if_neg (hne node d hd)]
      · intro node hnode
        obtain ⟨d, hd⟩ := BTreeMap.mem_iff_exists_getElem?.mp hnode
        rw [Search.bestOf, Search.bestOf, hbest, if_neg (hne node d hd)]
      · refine ⟨[neighbour], rfl, ?_⟩
        intro node hnode
        rw [List.mem_singleton.mp hnode, BTreeMap.getElem?_insert_eq_ite, if_pos rfl]
      · intro hsized node d hd
        rw [BTreeMap.getElem?_insert_eq_ite] at hd
        rw [Search.bestOf, hbest]
        split at hd
        · rename_i hsame
          rw [if_pos hsame, Option.getD_some, List.length_append, hlength, ← Option.some.inj hd]
          rfl
        · rename_i hother
          rw [if_neg hother]
          exact hsized node d hd
      · intro _
        rw [Search.bestOf, hbest, if_pos rfl, Option.getD_some]
  | some d =>
      by_cases hbetter : d = nodeDepth + 1 ∧
          nodeBest ++ [neighbour] < search.best[neighbour]?.getD []
      · have hbest : ∀ node : K, (search.best.insert neighbour (nodeBest ++ [neighbour]))[node]? =
            if neighbour = node then some (nodeBest ++ [neighbour]) else search.best[node]? :=
          fun node => BTreeMap.getElem?_insert_eq_ite ..
        simp only [if_pos hbetter]
        refine ⟨⟨⟨fun _ _ hd => hd, fun _ _ hd => Or.inl hd⟩, ?_, ?_, ?_, ?_⟩,
          BTreeMap.mem_iff_exists_getElem?.mpr ⟨d, hdepth⟩, ?_⟩
        · intro node other hother hnext
          rw [hbest, if_neg]
          rintro rfl
          rw [hdepth, hbetter.1] at hother
          exact hnext (Option.some.inj hother).symm
        · intro node _
          rw [Search.bestOf, Search.bestOf, hbest]
          split
          · rename_i hsame
            rw [← hsame]
            exact hbetter.2.le
          · exact le_refl _
        · exact ⟨[], (List.append_nil _).symm, fun _ hnode => absurd hnode List.not_mem_nil⟩
        · intro hsized node other hother
          rw [Search.bestOf, hbest]
          split
          · rename_i hsame
            rw [← hsame, hdepth] at hother
            rw [Option.getD_some, List.length_append, hlength, ← Option.some.inj hother, hbetter.1]
            rfl
          · exact hsized node other hother
        · intro _
          rw [Search.bestOf, hbest, if_pos rfl, Option.getD_some]
      · simp only [if_neg hbetter]
        refine ⟨Improves.refl _ _, BTreeMap.mem_iff_exists_getElem?.mpr ⟨d, hdepth⟩, ?_⟩
        intro hnext
        rw [hdepth] at hnext
        exact not_lt.mp fun hlt => hbetter ⟨Option.some.inj hnext, hlt⟩

/-- Scanning a row discovers all of it. -/
theorem improves_foldl_visit {nodeDepth : ℕ} {nodeBest : List K}
    (hlength : nodeBest.length = nodeDepth + 1) (row : List K) (search : Search K) :
    Improves nodeDepth search (row.foldl (visit nodeDepth nodeBest) search) ∧
      ∀ neighbour ∈ row, neighbour ∈ (row.foldl (visit nodeDepth nodeBest) search).depth ∧
        ((row.foldl (visit nodeDepth nodeBest) search).depth[neighbour]? = some (nodeDepth + 1) →
          (row.foldl (visit nodeDepth nodeBest) search).bestOf neighbour ≤
            nodeBest ++ [neighbour]) := by
  induction row generalizing search with
  | nil => exact ⟨Improves.refl _ _, fun _ hneighbour => absurd hneighbour List.not_mem_nil⟩
  | cons first row ih =>
      obtain ⟨hfirst, hfound, hbest⟩ := improves_visit hlength search first
      obtain ⟨hrest, hall⟩ := ih (visit nodeDepth nodeBest search first)
      refine ⟨hfirst.trans hrest, ?_⟩
      intro neighbour hneighbour
      rcases List.mem_cons.mp hneighbour with rfl | hneighbour
      · obtain ⟨d, hd⟩ := BTreeMap.mem_iff_exists_getElem?.mp hfound
        have hkept := hrest.kept neighbour d hd
        refine ⟨BTreeMap.mem_iff_exists_getElem?.mpr ⟨d, hkept⟩, ?_⟩
        intro hdepth
        rw [List.foldl_cons] at hdepth
        rw [hkept] at hdepth
        exact (hrest.better neighbour hfound).trans (hbest (hd.trans hdepth))
      · exact hall neighbour hneighbour

/-- What is known of a search whose popped nodes are settled. -/
structure Settling (graph : BTreeMap K (List K)) (source : K) (popped : Finset K)
    (search : Search K) : Prop
    where
  root_depth : search.depth[source]? = some 0
  root_best : search.bestOf source = [source]
  sized : ∀ (node : K) (d : ℕ), search.depth[node]? = some d → (search.bestOf node).length = d + 1
  ordered : search.frontier.Pairwise fun first second =>
    search.depthOf first ≤ search.depthOf second ∧ search.depthOf second ≤ search.depthOf first + 1
  behind : ∀ node ∈ popped, ∀ queued ∈ search.frontier, search.depthOf node ≤ search.depthOf queued
  stepped : ∀ node ∈ popped, ∀ neighbour, Adjacent graph node neighbour →
    neighbour ∈ search.depth ∧ search.depthOf neighbour ≤ search.depthOf node + 1 ∧
      (search.depthOf neighbour = search.depthOf node + 1 →
        search.bestOf neighbour ≤ search.bestOf node ++ [neighbour])

theorem settling_start : Settling graph source ∅ (Search.start source) where
  root_depth := by rw [Search.start, BTreeMap.getElem?_insert_eq_ite, if_pos rfl]
  root_best := by
    rw [Search.bestOf, Search.start, BTreeMap.getElem?_insert_eq_ite, if_pos rfl, Option.getD_some]
  sized node d hdepth := by
    rw [Search.start, BTreeMap.getElem?_insert_eq_ite] at hdepth
    rw [Search.bestOf, Search.start, BTreeMap.getElem?_insert_eq_ite]
    split at hdepth
    · rename_i hsame
      rw [if_pos hsame, ← Option.some.inj hdepth]
      rfl
    · simp at hdepth
  ordered := List.pairwise_singleton _ _
  behind node hnode := absurd hnode (Finset.notMem_empty node)
  stepped node hnode := absurd hnode (Finset.notMem_empty node)

theorem depthOf_of_getElem? {node : K} {d : ℕ} (hdepth : search.depth[node]? = some d) :
    search.depthOf node = d := by
  rw [Search.depthOf, hdepth, Option.getD_some]

theorem getElem?_depth {node : K} (hnode : node ∈ search.depth) :
    search.depth[node]? = some (search.depthOf node) := by
  obtain ⟨d, hd⟩ := BTreeMap.mem_iff_exists_getElem?.mp hnode
  rw [hd, depthOf_of_getElem? hd]

theorem Improves.depthOf_eq {nodeDepth : ℕ} (himproves : Improves nodeDepth search later) {node : K}
    (hnode : node ∈ search.depth) : later.depthOf node = search.depthOf node :=
  depthOf_of_getElem? (himproves.kept node _ (getElem?_depth hnode))

theorem Improves.bestOf_eq {nodeDepth : ℕ} (himproves : Improves nodeDepth search later) {node : K}
    (hnode : node ∈ search.depth) (hne : search.depthOf node ≠ nodeDepth + 1) :
    later.bestOf node = search.bestOf node := by
  rw [Search.bestOf, himproves.settled node _ (getElem?_depth hnode) hne, Search.bestOf]

/-- The step lemma: popping the first node of the queue and expanding it. -/
theorem Settling.expand {node : K} {rest : List K} (hsettling : Settling graph source popped search)
    (hinv : Invariant graph source popped search) (hqueue : search.frontier = node :: rest) :
    Settling graph source (insert node popped)
      (expand graph { search with frontier := rest } node) := by
  have hknown : ∀ other, other ∈ popped ∨ other ∈ search.frontier → other ∈ search.depth :=
    fun other hother => (hinv.covered other).mpr hother
  have hnode : node ∈ search.depth :=
    hknown node (Or.inr (by rw [hqueue]; exact List.mem_cons_self))
  have hordered := hsettling.ordered
  rw [hqueue, List.pairwise_cons] at hordered
  have hbehind : ∀ other ∈ popped, search.depthOf other ≤ search.depthOf node := fun other hother =>
    hsettling.behind other hother node (by rw [hqueue]; exact List.mem_cons_self)
  have hscan := improves_foldl_visit (hsettling.sized node _ (getElem?_depth hnode))
    (graph[node]?.getD []) { search with frontier := rest }
  have hexpand : BreadthFirst.expand graph { search with frontier := rest } node =
      (graph[node]?.getD []).foldl (visit (search.depthOf node) (search.bestOf node))
        { search with frontier := rest } := rfl
  rw [hexpand]
  generalize (graph[node]?.getD []).foldl (visit (search.depthOf node) (search.bestOf node)) _ =
    later at hscan ⊢
  obtain ⟨himproves, hall⟩ := hscan
  obtain ⟨found, hfrontier, hfound⟩ := himproves.queue
  have hdepth : ∀ other, other ∈ search.depth → later.depthOf other = search.depthOf other :=
    fun other hother => himproves.depthOf_eq hother
  have hrest : ∀ other ∈ rest, later.depthOf other = search.depthOf other := fun other hother =>
    hdepth other (hknown other (Or.inr (by rw [hqueue]; exact List.mem_cons_of_mem _ hother)))
  have hnew : ∀ other ∈ found, later.depthOf other = search.depthOf node + 1 := fun other hother =>
    depthOf_of_getElem? (hfound other hother)
  have hpopped : ∀ other ∈ insert node popped,
      other ∈ search.depth ∧ search.depthOf other ≤ search.depthOf node := by
    intro other hother
    rcases Finset.mem_insert.mp hother with rfl | hother
    · exact ⟨hnode, le_refl _⟩
    · exact ⟨hknown other (Or.inl hother), hbehind other hother⟩
  have hfinal : ∀ other ∈ insert node popped, later.bestOf other = search.bestOf other := by
    intro other hother
    exact himproves.bestOf_eq (hpopped other hother).1
      (Nat.ne_of_lt (Nat.lt_succ_of_le (hpopped other hother).2))
  have hsource : source ∈ search.depth :=
    BTreeMap.mem_iff_exists_getElem?.mpr ⟨0, hsettling.root_depth⟩
  apply Settling.mk
  · exact himproves.kept source 0 hsettling.root_depth
  · have hshallow : search.depthOf source ≠ search.depthOf node + 1 := by
      rw [depthOf_of_getElem? hsettling.root_depth]
      exact (Nat.succ_ne_zero _).symm
    exact (himproves.bestOf_eq hsource hshallow).trans hsettling.root_best
  · exact himproves.sized hsettling.sized
  · rw [hfrontier, List.pairwise_append]
    refine ⟨?_, ?_, ?_⟩
    · apply hordered.2.imp_of_mem
      intro first second hfirst hsecond hpair
      rw [hrest first hfirst, hrest second hsecond]
      exact hpair
    · apply List.pairwise_of_forall_mem_list
      intro first hfirst second hsecond
      rw [hnew first hfirst, hnew second hsecond]
      omega
    · intro first hfirst second hsecond
      rw [hrest first hfirst, hnew second hsecond]
      have hfront := hordered.1 first hfirst
      omega
  · intro other hother queued hqueued
    rw [hdepth other (hpopped other hother).1]
    have hle := (hpopped other hother).2
    rw [hfrontier] at hqueued
    rcases List.mem_append.mp hqueued with hqueued | hqueued
    · rw [hrest queued hqueued]
      exact hle.trans (hordered.1 queued hqueued).1
    · rw [hnew queued hqueued]
      exact hle.trans (Nat.le_succ _)
  · intro other hother neighbour hedge
    rw [hfinal other hother, hdepth other (hpopped other hother).1]
    rcases Finset.mem_insert.mp hother with rfl | hother
    · -- the neighbours of the popped node have just been scanned
      obtain ⟨row, hrow, hmem⟩ := hedge
      obtain ⟨hseen, hbest⟩ := hall neighbour (by rw [hrow]; exact hmem)
      refine ⟨hseen, ?_, ?_⟩
      · rcases himproves.origin neighbour _ (getElem?_depth hseen) with hold | hnext
        · have hneighbour : neighbour ∈ search.depth :=
            BTreeMap.mem_iff_exists_getElem?.mpr ⟨_, hold⟩
          rw [hdepth neighbour hneighbour]
          rcases (hinv.covered neighbour).mp hneighbour with hpop | hqueued
          · exact (hbehind neighbour hpop).trans (Nat.le_succ _)
          · rw [hqueue] at hqueued
            rcases List.mem_cons.mp hqueued with rfl | hqueued
            · exact Nat.le_succ _
            · exact (hordered.1 neighbour hqueued).2
        · exact hnext.le
      · intro hnext
        apply hbest
        rw [getElem?_depth hseen, hnext]
    · obtain ⟨hseen, hnear, hbest⟩ := hsettling.stepped other hother neighbour hedge
      refine ⟨?_, ?_, ?_⟩
      · exact BTreeMap.mem_iff_exists_getElem?.mpr ⟨_, himproves.kept _ _ (getElem?_depth hseen)⟩
      · rw [hdepth neighbour hseen]
        exact hnear
      · rw [hdepth neighbour hseen]
        intro hnext
        exact (himproves.better neighbour hseen).trans (hbest hnext)

/-- The run lemma: settled nodes stay settled. -/
theorem Settling.run (fuel : ℕ) (hsettling : Settling graph source popped search)
    (hinv : Invariant graph source popped search)
    (hgraph : ∀ first second, Adjacent graph first second → second ∈ graph) :
    ∃ popped', Invariant graph source popped' (run graph fuel search) ∧
      Settling graph source popped' (BreadthFirst.run graph fuel search) := by
  induction fuel generalizing popped search with
  | zero => exact ⟨popped, hinv, hsettling⟩
  | succ fuel ih =>
      rw [BreadthFirst.run]
      cases hqueue : search.frontier with
      | nil => exact ⟨popped, hinv, hsettling⟩
      | cons node rest => exact ih (hsettling.expand hinv hqueue) (hinv.expand hgraph hqueue).1

theorem IsWalk.exists_last_edge {target : K} {path : List K}
    (hwalk : IsWalk graph source target path) (hlong : 2 ≤ path.length) :
    ∃ node before, IsWalk graph source node before ∧ Adjacent graph node target ∧
      path = before ++ [target] := by
  have hne : path ≠ [] := List.ne_nil_of_length_pos (Nat.lt_of_lt_of_le Nat.zero_lt_two hlong)
  have hsplit := List.dropLast_append_getLast? target hwalk.last
  generalize hbefore : path.dropLast = before at hsplit
  subst hsplit
  have hbeforeNe : before ≠ [] := by
    rintro rfl
    simp at hlong
  have hchain := hwalk.chain
  rw [List.isChain_append] at hchain
  refine ⟨before.getLast hbeforeNe, before, ⟨hchain.1, ?_, List.getLast?_eq_some_getLast hbeforeNe⟩,
    ?_, rfl⟩
  · have hhead := hwalk.head
    rwa [List.head?_append_of_ne_nil _ hbeforeNe] at hhead
  · exact hchain.2.2 _ (List.getLast?_eq_some_getLast hbeforeNe) _ rfl

/-- When every discovered node is settled, a walk is no shorter than the depth of its end, and no
less than its sequence. -/
theorem Settling.le_walk (hsettling : Settling graph source popped search)
    (hall : ∀ node ∈ search.depth, node ∈ popped) {target : K} {path : List K}
    (hwalk : IsWalk graph source target path) :
    target ∈ search.depth ∧ search.depthOf target + 1 ≤ path.length ∧
      (search.depthOf target + 1 = path.length → search.bestOf target ≤ path) := by
  generalize hlength : path.length = length
  induction length using Nat.strong_induction_on generalizing target path with
  | h length ih =>
      by_cases hlong : 2 ≤ path.length
      · obtain ⟨node, before, hbefore, hedge, rfl⟩ := hwalk.exists_last_edge hlong
        rw [List.length_append, List.length_singleton] at hlength
        obtain ⟨hnode, hshort, hleast⟩ := ih before.length (by omega) hbefore rfl
        obtain ⟨hseen, hnear, hstep⟩ := hsettling.stepped node (hall node hnode) target hedge
        refine ⟨hseen, by omega, ?_⟩
        intro htight
        have hexact : search.depthOf node + 1 = before.length := by omega
        have hsized := hsettling.sized node _ (getElem?_depth hnode)
        exact (hstep (by omega)).trans
          (append_singleton_le (hsized.trans hexact) (hleast hexact) target)
      · -- a walk of one node stays at the source
        cases path with
        | nil => cases hwalk.head
        | cons first rest =>
            cases rest with
            | nil =>
                have hfirst : first = source := Option.some.inj hwalk.head
                have htarget : first = target := Option.some.inj hwalk.last
                subst hfirst
                subst htarget
                rw [depthOf_of_getElem? hsettling.root_depth, hsettling.root_best, ← hlength]
                exact ⟨BTreeMap.mem_iff_exists_getElem?.mpr ⟨0, hsettling.root_depth⟩, le_refl _,
                  fun _ => le_refl _⟩
            | cons second rest => exact absurd hlong (by simp)

/-- The search returns the least walk. -/
theorem bestPath_least (hgraph : ∀ first second, Adjacent graph first second → second ∈ graph)
    (hsource : source ∈ graph) {target : K} {path : List K}
    (hpath : bestPath graph source target = some path) :
    IsLeastWalk graph source target path := by
  rcases (invariant_start hsource).run hgraph (by simp) (Nat.le_add_left graph.size _) with
    ⟨_, _, hempty, _⟩
  rcases settling_start.run graph.size (invariant_start hsource) hgraph with
    ⟨popped, hinv, hsettling⟩
  have hall : ∀ node ∈ (run graph graph.size (Search.start source)).depth, node ∈ popped := by
    intro node hnode
    rcases (hinv.covered node).mp hnode with hpopped | hqueued
    · exact hpopped
    · rw [hempty] at hqueued
      exact absurd hqueued List.not_mem_nil
  have hbest : (run graph graph.size (Search.start source)).bestOf target = path := by
    rw [bestPath] at hpath
    rw [Search.bestOf, hpath, Option.getD_some]
  have hknown : target ∈ (run graph graph.size (Search.start source)).depth :=
    (hinv.best_iff target).mp (BTreeMap.mem_iff_exists_getElem?.mpr ⟨path, hpath⟩)
  have hsized := hsettling.sized target _ (getElem?_depth hknown)
  rw [hbest] at hsized
  refine ⟨hinv.walk target path hpath, ?_, ?_⟩
  · intro other hother
    rw [hsized]
    exact (hsettling.le_walk hall hother).2.1
  · intro other hother hlength
    have hleast := (hsettling.le_walk hall hother).2.2 (hsized.symm.trans hlength)
    rwa [hbest] at hleast

end EntityResolution.BreadthFirst
