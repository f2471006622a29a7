/-
# The path that a cut is chosen on

The path between two records is the one with the fewest hops, and of several the least as a vertex
sequence. It is a function of the undirected edges: neither their order nor their orientation, nor a
repetition or a loop among them, changes it.
-/

import EntityResolution.Foundations.LeastWalks
import EntityResolution.NeverCut.Connectivity

namespace EntityResolution.NeverCut

open EntityResolution.Collections EntityResolution.BreadthFirst

universe u v

variable {R : Type u} {P : Type v} [LinearOrder R] {edges : List (PathEdge R P)} {source target : R}

/-- A walk along edges from one record to another. -/
structure IsPath (edges : List (PathEdge R P)) (source target : R) (path : List R) : Prop where
  starts : path.head? = some source
  ends : path.getLast? = some target
  hops : path.IsChain (Joined edges)

/-- A walk with the fewest hops, the least of those as a sequence. -/
structure IsLeastPath (edges : List (PathEdge R P)) (source target : R) (path : List R) : Prop
    extends IsPath edges source target path where
  fewest : ∀ other, IsPath edges source target other → path.length ≤ other.length
  least : ∀ other, IsPath edges source target other → path.length = other.length → path ≤ other

theorem adjacent_eq_joined (edges : List (PathEdge R P)) :
    Adjacent (adjacency edges) = Joined edges := by
  funext a b
  exact propext adjacent_adjacency

/-- The walks of the adjacency are the walks along the edges. -/
theorem isWalk_adjacency {path : List R} :
    IsWalk (adjacency edges) source target path ↔ IsPath edges source target path := by
  apply Iff.intro
  · intro hwalk
    exact ⟨hwalk.head, hwalk.last, adjacent_eq_joined edges ▸ hwalk.chain⟩
  · intro hpath
    refine ⟨?_, hpath.starts, hpath.ends⟩
    rw [adjacent_eq_joined]
    exact hpath.hops

/-- A path connects its ends. -/
theorem IsPath.connected {path : List R} (hpath : IsPath edges source target path) :
    Connected edges source target := by
  have hreaches := (isWalk_adjacency.mpr hpath).reaches
  rwa [adjacent_eq_joined] at hreaches

theorem isLeastWalk_adjacency {path : List R} :
    IsLeastWalk (adjacency edges) source target path ↔ IsLeastPath edges source target path := by
  apply Iff.intro
  · intro hleast
    exact ⟨isWalk_adjacency.mp hleast.toIsWalk,
      fun other hother => hleast.fewest other (isWalk_adjacency.mpr hother),
      fun other hother => hleast.least other (isWalk_adjacency.mpr hother)⟩
  · intro hleast
    exact ⟨isWalk_adjacency.mpr hleast.toIsPath,
      fun other hother => hleast.fewest other (isWalk_adjacency.mp hother),
      fun other hother => hleast.least other (isWalk_adjacency.mp hother)⟩

theorem IsLeastPath.nodup {path : List R} (hleast : IsLeastPath edges source target path) :
    path.Nodup :=
  (isLeastWalk_adjacency.mpr hleast).nodup

theorem IsLeastPath.eq {path other : List R} (hpath : IsLeastPath edges source target path)
    (hother : IsLeastPath edges source target other) : path = other :=
  (isLeastWalk_adjacency.mpr hpath).eq (isLeastWalk_adjacency.mpr hother)

/-- The walk that stays where it is has no hop, and no other walk has none. -/
theorem isLeastPath_single : IsLeastPath edges source source [source] where
  starts := rfl
  ends := rfl
  hops := List.IsChain.singleton source
  fewest other hother := by
    apply List.length_pos_of_ne_nil
    rintro rfl
    cases hother.starts
  least other hother hlength := by
    cases other with
    | nil => cases hother.starts
    | cons first rest =>
        have hrest : rest = [] := List.eq_nil_of_length_eq_zero (Nat.succ.inj hlength).symm
        have hfirst : first = source := Option.some.inj hother.starts
        rw [hrest, hfirst]

/-- The search returns the least path. -/
theorem isLeastPath_of_shortestPath {path : List R}
    (hpath : shortestPath source target edges = some path) :
    IsLeastPath edges source target path := by
  rw [shortestPath] at hpath
  split at hpath
  · rename_i hsame
    cases hpath
    rw [← hsame]
    exact isLeastPath_single
  · split at hpath
    · cases hpath
    · rename_i hknown
      rw [not_or, not_not, not_not] at hknown
      have hgraph : ∀ first second, Adjacent (adjacency edges) first second →
          second ∈ adjacency edges := fun first second hedge =>
        mem_adjacency.mpr ⟨first, (adjacent_adjacency.mp hedge).symm⟩
      exact isLeastWalk_adjacency.mp (bestPath_least hgraph hknown.1 hpath)

theorem exists_shortestPath_iff :
    (∃ path, shortestPath source target edges = some path) ↔
      source = target ∨ Connected edges source target := by
  by_cases hsame : source = target
  · simp [shortestPath, hsame]
  · rw [or_iff_right hsame]
    apply Iff.intro
    · rintro ⟨path, hpath⟩
      exact (isLeastPath_of_shortestPath hpath).toIsPath.connected
    · exact (shortestPath_spec hsame).2

/-- The documented path: it exists between connected records, has the fewest hops and is the least
such sequence, visits no record twice, and depends on the set of undirected edges only. -/
theorem shortest_path_is_least (edges : List (PathEdge R P)) (source target : R) :
    ((∃ path, shortestPath source target edges = some path) ↔
      source = target ∨ Connected edges source target) ∧
    (∀ path, shortestPath source target edges = some path →
      IsLeastPath edges source target path ∧ path.Nodup) ∧
    ∀ edges' : List (PathEdge R P),
      (∀ pair, pair ∈ edges.map PathEdge.pair ↔ pair ∈ edges'.map PathEdge.pair) →
        shortestPath source target edges = shortestPath source target edges' := by
  refine ⟨exists_shortestPath_iff, ?_, ?_⟩
  · intro path hpath
    have hleast := isLeastPath_of_shortestPath hpath
    exact ⟨hleast, hleast.nodup⟩
  · intro edges' hsame
    apply shortestPath_congr
    intro a b
    have hpair := hsame (canon a b)
    rwa [List.mem_map, List.mem_map] at hpair

end EntityResolution.NeverCut
