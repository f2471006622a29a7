/-
# Depth-first completion order

A node is visited by visiting what it depends on and then completing it. Nodes carry a key, and a
node is entered only while its key is unvisited. The order of completion holds every node that is
visited, once. When no node depends on itself through others, everything a node depends on comes
before it.

The walk is bounded by fuel. One unit for every key that is not yet visited is enough.
-/

import Mathlib

namespace EntityResolution.DepthFirst

universe u v

variable {N : Type u} {K : Type v} {key : N → K} {deps : N → List N}

/-- The visited keys, and the nodes in the order they were completed. -/
structure Walk (N : Type u) (K : Type v) where
  visited : Finset K
  ordered : List N

/-- The later walk completes some nodes more: each of them once, from the given graph, and with a
key that was not visited before. -/
structure Extends (key : N → K) (graph : List N) (walk later : Walk N K)
    (added : List N) : Prop where
  ordered : later.ordered = walk.ordered ++ added
  visited : ∀ k, k ∈ later.visited ↔ k ∈ walk.visited ∨ k ∈ added.map key
  nodup : (added.map key).Nodup
  fresh : ∀ node ∈ added, key node ∉ walk.visited
  graph : ∀ node ∈ added, node ∈ graph

theorem Extends.refl (graph : List N) (walk : Walk N K) :
    Extends key graph walk walk [] where
  ordered := (List.append_nil _).symm
  visited k := by simp
  nodup := List.nodup_nil
  fresh node hnode := by cases hnode
  graph node hnode := by cases hnode

theorem Extends.trans {graph : List N} {walk middle later : Walk N K} {first second : List N}
    (hfirst : Extends key graph walk middle first)
    (hsecond : Extends key graph middle later second) :
    Extends key graph walk later (first ++ second) where
  ordered := by rw [hsecond.ordered, hfirst.ordered, List.append_assoc]
  visited k := by rw [hsecond.visited, hfirst.visited, List.map_append, List.mem_append, or_assoc]
  nodup := by
    rw [List.map_append, List.nodup_append]
    refine ⟨hfirst.nodup, hsecond.nodup, ?_⟩
    intro k hk other hother hsame
    subst hsame
    obtain ⟨node, hnode, rfl⟩ := List.mem_map.mp hother
    exact hsecond.fresh node hnode ((hfirst.visited _).mpr (Or.inr hk))
  fresh node hnode := by
    rcases List.mem_append.mp hnode with hold | hnew
    · exact hfirst.fresh node hold
    · intro hvisited
      exact hsecond.fresh node hnew ((hfirst.visited _).mpr (Or.inl hvisited))
  graph node hnode := by
    rcases List.mem_append.mp hnode with hold | hnew
    · exact hfirst.graph node hold
    · exact hsecond.graph node hnew

/-- An entered node of the graph that is not completed yet. -/
def Open (key : N → K) (graph : List N) (walk : Walk N K) (node : N) : Prop :=
  node ∈ graph ∧ key node ∈ walk.visited ∧ node ∉ walk.ordered

/-- A node that is open after a walk was open before it. -/
theorem Extends.open_of_open {graph : List N} {walk later : Walk N K} {added : List N}
    {node : N} (hextends : Extends key graph walk later added)
    (hnodup : (graph.map key).Nodup) (hopen : Open key graph later node) :
    Open key graph walk node := by
  obtain ⟨hnode, hvisited, hordered⟩ := hopen
  rw [hextends.ordered, List.mem_append, not_or] at hordered
  refine ⟨hnode, ?_, hordered.1⟩
  rcases (hextends.visited _).mp hvisited with hold | hnew
  · exact hold
  · obtain ⟨other, hother, hsame⟩ := List.mem_map.mp hnew
    rw [List.inj_on_of_nodup_map hnodup (hextends.graph other hother) hnode hsame] at hother
    exact absurd hother hordered.2

variable [DecidableEq K] (key deps)

/-- Visit a node: its dependencies first, then the node itself. -/
def visit : ℕ → N → Walk N K → Walk N K
  | 0, _, walk => walk
  | fuel + 1, node, walk =>
      if key node ∈ walk.visited then walk
      else
        let entered : Walk N K := ⟨insert (key node) walk.visited, walk.ordered⟩
        let inner := (deps node).foldl (fun walk dep => visit fuel dep walk) entered
        ⟨inner.visited, inner.ordered ++ [node]⟩

/-- Visit the nodes of a list, one after the other. -/
def visitAll (fuel : ℕ) (nodes : List N) (walk : Walk N K) : Walk N K :=
  nodes.foldl (fun walk node => visit key deps fuel node walk) walk

/-- The completion order of a walk over a list of nodes. -/
def completion (fuel : ℕ) (nodes : List N) : List N :=
  (visitAll key deps fuel nodes ⟨∅, []⟩).ordered

variable {key deps}

theorem visitAll_cons {fuel : ℕ} {node : N} {nodes : List N} {walk : Walk N K} :
    visitAll key deps fuel (node :: nodes) walk =
      visitAll key deps fuel nodes (visit key deps fuel node walk) :=
  rfl

/-- Completing a node after what was completed inside it. -/
theorem Extends.complete {graph : List N} {walk inner : Walk N K} {node : N} {added : List N}
    (hnew : key node ∉ walk.visited) (hnode : node ∈ graph)
    (hinner : Extends key graph ⟨insert (key node) walk.visited, walk.ordered⟩ inner
      added) :
    Extends key graph walk ⟨inner.visited, inner.ordered ++ [node]⟩
      (added ++ [node]) where
  ordered := by
    dsimp only
    rw [hinner.ordered, List.append_assoc]
  visited k := by
    dsimp only
    rw [hinner.visited, Finset.mem_insert, List.map_append, List.mem_append, List.map_singleton,
      List.mem_singleton]
    tauto
  nodup := by
    rw [List.map_append, List.nodup_append]
    refine ⟨hinner.nodup, List.nodup_singleton _, ?_⟩
    intro k hk other hother hsame
    subst hsame
    obtain ⟨done, hdone, rfl⟩ := List.mem_map.mp hk
    apply hinner.fresh done hdone
    rw [List.map_singleton, List.mem_singleton] at hother
    rw [hother]
    exact Finset.mem_insert_self _ _
  fresh done hdone := by
    rcases List.mem_append.mp hdone with hold | hlast
    · intro hvisited
      exact hinner.fresh done hold (Finset.mem_insert_of_mem hvisited)
    · rw [List.mem_singleton.mp hlast]
      exact hnew
  graph done hdone := by
    rcases List.mem_append.mp hdone with hold | hlast
    · exact hinner.graph done hold
    · rw [List.mem_singleton.mp hlast]
      exact hnode

theorem exists_extends_visitAll {graph : List N} {fuel : ℕ}
    (hvisit : ∀ node walk, node ∈ graph →
      ∃ added, Extends key graph walk (visit key deps fuel node walk) added)
    {nodes : List N} (hnodes : ∀ node ∈ nodes, node ∈ graph) (walk : Walk N K) :
    ∃ added, Extends key graph walk (visitAll key deps fuel nodes walk) added := by
  induction nodes generalizing walk with
  | nil => exact ⟨[], Extends.refl graph walk⟩
  | cons node nodes ih =>
      obtain ⟨first, hfirst⟩ := hvisit node walk (hnodes node List.mem_cons_self)
      obtain ⟨second, hsecond⟩ :=
        ih (fun other hother => hnodes other (List.mem_cons_of_mem _ hother))
          (visit key deps fuel node walk)
      exact ⟨first ++ second, hfirst.trans hsecond⟩

variable (key) in
theorem exists_extends_visit {graph : List N}
    (hclosed : ∀ node ∈ graph, ∀ dep ∈ deps node, dep ∈ graph) (fuel : ℕ) (node : N)
    (walk : Walk N K) (hnode : node ∈ graph) :
    ∃ added, Extends key graph walk (visit key deps fuel node walk) added := by
  induction fuel generalizing node walk with
  | zero => exact ⟨[], Extends.refl graph walk⟩
  | succ fuel ih =>
      rw [visit]
      split
      · exact ⟨[], Extends.refl graph walk⟩
      · next hnew =>
          obtain ⟨added, hadded⟩ :=
            exists_extends_visitAll (fun dep walk => ih dep walk) (hclosed node hnode)
              ⟨insert (key node) walk.visited, walk.ordered⟩
          exact ⟨added ++ [node], hadded.complete hnew hnode⟩

/-- A visit with fuel leaves its node visited. -/
theorem key_mem_visit {graph : List N}
    (hclosed : ∀ node ∈ graph, ∀ dep ∈ deps node, dep ∈ graph) {fuel : ℕ} {node : N}
    {walk : Walk N K} (hnode : node ∈ graph) (hfuel : 0 < fuel ∨ key node ∈ walk.visited) :
    key node ∈ (visit key deps fuel node walk).visited := by
  rcases fuel with _ | fuel
  · rcases hfuel with hpos | hvisited
    · exact absurd hpos (lt_irrefl 0)
    · exact hvisited
  · rw [visit]
    split
    · next hvisited => exact hvisited
    · next hnew =>
        rcases exists_extends_visitAll
          (exists_extends_visit key hclosed fuel)
          (hclosed node hnode) ⟨insert (key node) walk.visited, walk.ordered⟩ with ⟨inner, hinner⟩
        exact (hinner.visited _).mpr (Or.inl (Finset.mem_insert_self _ _))

/-- The completion order lists exactly the given nodes, each once, when the keys tell them
apart and they are closed under dependencies. -/
theorem completion_perm {fuel : ℕ} {nodes : List N} (hnodup : (nodes.map key).Nodup)
    (hclosed : ∀ node ∈ nodes, ∀ dep ∈ deps node, dep ∈ nodes) (hfuel : 0 < fuel) :
    (completion key deps fuel nodes).Perm nodes := by
  have hvisit := exists_extends_visit key hclosed fuel
  obtain ⟨added, hadded⟩ := exists_extends_visitAll hvisit (fun _ hnode => hnode) ⟨∅, []⟩
  have hordered : completion key deps fuel nodes = added := hadded.ordered
  rw [hordered]
  have hsubset : ∀ visited ⊆ nodes, ∀ walk : Walk N K, ∀ node ∈ visited,
      key node ∈ (visitAll key deps fuel visited walk).visited := by
    intro visited
    induction visited with
    | nil =>
        intro _ walk node hnode
        cases hnode
    | cons head visited ih =>
        intro hsubset walk node hnode
        rw [List.cons_subset] at hsubset
        rw [visitAll_cons]
        rcases List.mem_cons.mp hnode with rfl | htail
        · obtain ⟨later, hlater⟩ := exists_extends_visitAll hvisit (fun _ hnode => hsubset.2 hnode)
            (visit key deps fuel node walk)
          exact (hlater.visited _).mpr
            (Or.inl (key_mem_visit hclosed hsubset.1 (Or.inl hfuel)))
        · exact ih hsubset.2 _ node htail
  rw [List.perm_ext_iff_of_nodup (List.Nodup.of_map key hadded.nodup)
    (List.Nodup.of_map key hnodup)]
  intro node
  apply Iff.intro
  · exact hadded.graph node
  · intro hnode
    have hkey := hsubset nodes (List.Subset.refl _) ⟨∅, []⟩ node hnode
    rw [hadded.visited] at hkey
    rcases hkey with habsurd | hkey
    · exact absurd habsurd (Finset.notMem_empty _)
    · obtain ⟨other, hother, hsame⟩ := List.mem_map.mp hkey
      rw [← List.inj_on_of_nodup_map hnodup (hadded.graph other hother) hnode hsame]
      exact hother

/-- Everything a listed node depends on is listed before it. -/
def DepsFirst (deps : N → List N) (ordered : List N) : Prop :=
  ∀ before node after, ordered = before ++ node :: after → ∀ dep ∈ deps node, dep ∈ before

theorem depsFirst_nil : DepsFirst deps [] := by
  intro before node after hsplit
  simp at hsplit

theorem DepsFirst.snoc {ordered : List N} {last : N} (hordered : DepsFirst deps ordered)
    (hlast : ∀ dep ∈ deps last, dep ∈ ordered) : DepsFirst deps (ordered ++ [last]) := by
  intro before node after hsplit
  rcases List.eq_nil_or_concat after with rfl | ⟨rest, final, rfl⟩
  · have hparts := List.append_inj' hsplit rfl
    rw [← hparts.1, ← List.singleton_inj.mp hparts.2]
    exact hlast
  · have hregroup : ordered ++ [last] = (before ++ node :: rest) ++ [final] := by
      rw [hsplit, List.concat_eq_append, List.append_assoc, List.cons_append]
    exact hordered before node rest (List.append_inj' hregroup rfl).1

/-- An item of a flattened list comes from one element, and everything of the elements in front of
that one stands before the item. -/
theorem exists_split_of_flatMap {A : Type u} {B : Type v} {items : A → List B} {nodes : List A}
    {before after : List B} {item : B} (hsplit : nodes.flatMap items = before ++ item :: after) :
    ∃ front node back, nodes = front ++ node :: back ∧ item ∈ items node ∧
      ∀ early ∈ front, ∀ other ∈ items early, other ∈ before := by
  induction nodes generalizing before with
  | nil => simp at hsplit
  | cons head nodes ih =>
      rw [List.flatMap_cons, List.append_eq_append_iff] at hsplit
      rcases hsplit with ⟨rest, hbefore, htail⟩ | ⟨rest, hhead, htail⟩
      · obtain ⟨front, node, back, hnodes, hitem, hearly⟩ := ih htail
        refine ⟨head :: front, node, back, by rw [hnodes, List.cons_append], hitem, ?_⟩
        intro early hmem other hother
        rw [hbefore]
        rcases List.mem_cons.mp hmem with rfl | hfront
        · exact List.mem_append_left _ hother
        · exact List.mem_append_right _ (hearly early hfront other hother)
      · rcases rest with _ | ⟨first, rest⟩
        · have hnone : nodes.flatMap items = [] ++ item :: after := htail.symm
          obtain ⟨front, node, back, hnodes, hitem, hearly⟩ := ih hnone
          refine ⟨head :: front, node, back, by rw [hnodes, List.cons_append], hitem, ?_⟩
          intro early hmem other hother
          rcases List.mem_cons.mp hmem with rfl | hfront
          · rw [hhead, List.append_nil] at hother
            exact hother
          · exact absurd (hearly early hfront other hother) List.not_mem_nil
        · refine ⟨[], head, nodes, rfl, ?_, ?_⟩
          · rw [hhead, (List.cons.inj htail).1]
            exact List.mem_append_right _ List.mem_cons_self
          · intro early hmem
            cases hmem

/-- What is produced for a node comes after all that is produced for its dependencies. -/
theorem DepsFirst.flatMap {B : Type v} {items : N → List B} {ordered : List N}
    (hordered : DepsFirst deps ordered) {before after : List B} {item : B}
    (hsplit : ordered.flatMap items = before ++ item :: after) :
    ∃ node ∈ ordered, item ∈ items node ∧
      ∀ dep ∈ deps node, ∀ other ∈ items dep, other ∈ before := by
  obtain ⟨front, node, back, hnodes, hitem, hearly⟩ := exists_split_of_flatMap hsplit
  refine ⟨node, ?_, hitem, ?_⟩
  · rw [hnodes]
    exact List.mem_append_right _ List.mem_cons_self
  · intro dep hdep
    exact hearly dep (hordered front node back hnodes dep hdep)

/-- No node depends on itself, through others or at once. -/
def Acyclic (deps : N → List N) : Prop :=
  ∀ node, ¬ Relation.TransGen (fun node dep => dep ∈ deps node) node node

/-- The keys of the graph that a walk has not visited. -/
def unvisited (key : N → K) (graph : List N) (walk : Walk N K) : Finset K :=
  (graph.map key).toFinset \ walk.visited

theorem Extends.card_unvisited_le {graph : List N} {walk later : Walk N K} {added : List N}
    (hextends : Extends key graph walk later added) :
    (unvisited key graph later).card ≤ (unvisited key graph walk).card := by
  apply Finset.card_le_card
  apply Finset.sdiff_subset_sdiff (Finset.Subset.refl _)
  intro k hk
  exact (hextends.visited k).mpr (Or.inl hk)

/-- What a visit gives: dependencies stay first, and the node is completed. -/
def VisitsFirst (key : N → K) (deps : N → List N) (graph : List N) (fuel : ℕ) : Prop :=
  ∀ node ∈ graph, ∀ walk : Walk N K, DepsFirst deps walk.ordered →
    (unvisited key graph walk).card ≤ fuel →
    (∀ other, Open key graph walk other →
      Relation.TransGen (fun node dep => dep ∈ deps node) other node) →
    DepsFirst deps (visit key deps fuel node walk).ordered ∧
      node ∈ (visit key deps fuel node walk).ordered

section Acyclic

variable {graph : List N} (hnodup : (graph.map key).Nodup)
  (hclosed : ∀ node ∈ graph, ∀ dep ∈ deps node, dep ∈ graph)

include hnodup hclosed

/-- Visiting a list of nodes keeps dependencies first and completes each of them. -/
theorem VisitsFirst.visitAll {fuel : ℕ} (hvisit : VisitsFirst key deps graph fuel)
    {nodes : List N} (hnodes : ∀ node ∈ nodes, node ∈ graph) {walk : Walk N K}
    (hfirst : DepsFirst deps walk.ordered)
    (hfuel : (unvisited key graph walk).card ≤ fuel)
    (hopen : ∀ other, Open key graph walk other → ∀ node ∈ nodes,
      Relation.TransGen (fun node dep => dep ∈ deps node) other node) :
    DepsFirst deps (visitAll key deps fuel nodes walk).ordered ∧
      ∀ node ∈ nodes, node ∈ (visitAll key deps fuel nodes walk).ordered := by
  induction nodes generalizing walk with
  | nil =>
      apply And.intro hfirst
      intro node hnode
      cases hnode
  | cons head nodes ih =>
      have hhead : head ∈ graph := hnodes head List.mem_cons_self
      have htail : ∀ node ∈ nodes, node ∈ graph :=
        fun node hnode => hnodes node (List.mem_cons_of_mem _ hnode)
      rcases exists_extends_visit key hclosed fuel head walk hhead with
        ⟨added, hadded⟩
      obtain ⟨hafter, hdone⟩ := hvisit head hhead walk hfirst hfuel
        (fun other hother => hopen other hother head List.mem_cons_self)
      have hrest := ih htail hafter (hadded.card_unvisited_le.trans hfuel)
        (fun other hother node hnode =>
          hopen other (hadded.open_of_open hnodup hother) node (List.mem_cons_of_mem _ hnode))
      rw [visitAll_cons]
      apply And.intro hrest.1
      intro node hnode
      rcases List.mem_cons.mp hnode with rfl | hlater
      · obtain ⟨rest, hextends⟩ := exists_extends_visitAll (exists_extends_visit key hclosed fuel)
          htail (visit key deps fuel node walk)
        rw [hextends.ordered]
        exact List.mem_append_left _ hdone
      · exact hrest.2 node hlater

/-- A visit with enough fuel keeps dependencies first. -/
theorem visitsFirst (hacyclic : Acyclic deps) (fuel : ℕ) :
    VisitsFirst key deps graph fuel := by
  induction fuel with
  | zero =>
      intro node hnode walk hfirst hfuel hopen
      apply And.intro hfirst
      -- without fuel every key is visited, and an open node would lead to itself
      have hempty : unvisited key graph walk = ∅ := Finset.card_eq_zero.mp (by omega)
      have hvisited : key node ∈ walk.visited := by
        by_contra hnew
        have hmem : key node ∈ unvisited key graph walk :=
          Finset.mem_sdiff.mpr ⟨List.mem_toFinset.mpr (List.mem_map_of_mem hnode), hnew⟩
        rw [hempty] at hmem
        exact absurd hmem (Finset.notMem_empty _)
      by_contra hordered
      exact hacyclic node (hopen node ⟨hnode, hvisited, hordered⟩)
  | succ fuel ih =>
      intro node hnode walk hfirst hfuel hopen
      rw [visit]
      split
      · next hvisited =>
          apply And.intro hfirst
          by_contra hordered
          exact hacyclic node (hopen node ⟨hnode, hvisited, hordered⟩)
      · next hnew =>
          have hroom : (unvisited key graph
              ⟨insert (key node) walk.visited, walk.ordered⟩).card ≤ fuel := by
            have hmem : key node ∈ unvisited key graph walk :=
              Finset.mem_sdiff.mpr ⟨List.mem_toFinset.mpr (List.mem_map_of_mem hnode), hnew⟩
            have herase : unvisited key graph
                ⟨insert (key node) walk.visited, walk.ordered⟩ =
                  (unvisited key graph walk).erase (key node) := by
              rw [unvisited, unvisited, Finset.sdiff_insert]
            rw [herase, Finset.card_erase_of_mem hmem]
            omega
          have hopenInner : ∀ other,
              Open key graph ⟨insert (key node) walk.visited, walk.ordered⟩ other →
              ∀ dep ∈ deps node,
                Relation.TransGen (fun node dep => dep ∈ deps node) other dep := by
            intro other hother dep hdep
            obtain ⟨hgraph, hvisited, hordered⟩ := hother
            rcases Finset.mem_insert.mp hvisited with hsame | hold
            · rw [List.inj_on_of_nodup_map hnodup hgraph hnode hsame]
              exact Relation.TransGen.single hdep
            · exact (hopen other ⟨hgraph, hold, hordered⟩).tail hdep
          have hentered : DepsFirst deps
              (⟨insert (key node) walk.visited, walk.ordered⟩ : Walk N K).ordered := hfirst
          obtain ⟨hinner, hdeps⟩ :=
            VisitsFirst.visitAll hnodup hclosed ih (hclosed node hnode) hentered hroom
              hopenInner
          apply And.intro (hinner.snoc hdeps)
          exact List.mem_append_right _ (List.mem_singleton_self node)

/-- With one unit of fuel for every node, the completion order has dependencies first. -/
theorem depsFirst_completion (hacyclic : Acyclic deps) {fuel : ℕ} (hfuel : graph.length ≤ fuel) :
    DepsFirst deps (completion key deps fuel graph) := by
  have hroom : (unvisited key graph ⟨∅, []⟩).card ≤ fuel := by
    have hcard := List.toFinset_card_le (graph.map key)
    rw [List.length_map] at hcard
    rw [unvisited, Finset.sdiff_empty]
    omega
  apply And.left
  apply VisitsFirst.visitAll hnodup hclosed (visitsFirst hnodup hclosed hacyclic fuel)
    (fun node hnode => hnode) depsFirst_nil hroom
  intro other hopen
  exact absurd hopen.2.1 (Finset.notMem_empty _)

end Acyclic

end EntityResolution.DepthFirst
