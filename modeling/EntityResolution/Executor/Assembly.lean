/-
# Assembly

Assembly is the check of a built node list before it may run: no duplicate names, no teardown
task with data inputs, no escalation from the largest class, contiguous segments of one class,
and a path between any two tasks that write the lake. The first problem in the order of the
checks is the one reported. The fingerprints that assembly also computes are left out.

The last check searches the graph from one writer for the other. The search decides reachability,
so an accepted list orders any two writers by a path.
-/

import EntityResolution.Foundations.StackSearch
import EntityResolution.Executor.Readiness

namespace EntityResolution.Executor

open EntityResolution.Collections EntityResolution.StackSearch

universe u

variable {T : Type u}

/-- Why a graph refused to assemble. -/
inductive AssemblyError (T : Type u)
  | empty
  | duplicateTaskName (taskId : T)
  | teardownWithInputs (taskId : T)
  | escalateOnFixedL (taskId : T)
  | segmentNotContiguous (segment : String)
  | segmentClassMismatch (segment : String)
  | unorderedLakeWriters (first second : T)
  deriving DecidableEq

/-- `reaches`: is the second node reachable from the first along edges? -/
def reaches (nodes : List (Node T)) (first second : ℕ) : Bool :=
  first == second || search (downstreamOf nodes) second (nodes.length + 2) [first] ∅

/-- The check of single nodes, with the names seen so far. -/
def nodeError [DecidableEq T] : List (Node T) → List T → Option (AssemblyError T)
  | [], _ => none
  | node :: nodes, seen =>
      if node.taskId ∈ seen then some (.duplicateTaskName node.taskId)
      else if node.teardown && !node.inputNames.isEmpty then
        some (.teardownWithInputs node.taskId)
      else if node.policy.escalateOnOom && node.policy.classRule == .fixed .L then
        some (.escalateOnFixedL node.taskId)
      else nodeError nodes (node.taskId :: seen)

/-- The check of one segment: contiguous in topological order, and of one class rule. -/
def segmentError (nodes : List (Node T)) (segment : String) : Option (AssemblyError T) :=
  let members := nodes.zipIdx.filter fun entry => entry.1.policy.segment == some segment
  let positions := members.map Prod.snd
  if !(positions.zip positions.tail).all fun window => window.2 == window.1 + 1 then
    some (.segmentNotContiguous segment)
  else if members.any fun entry =>
      members.head?.any fun first => entry.1.policy.classRule != first.1.policy.classRule then
    some (.segmentClassMismatch segment)
  else none

/-- The segments of a node list, each once and in order. -/
def segments (nodes : List (Node T)) : List String :=
  (Std.ExtTreeSet.ofList (nodes.filterMap fun node => node.policy.segment) compare).toList

/-- The positions of the lake-writing nodes. -/
def lakeWriters (nodes : List (Node T)) : List ℕ :=
  (nodes.zipIdx.filter fun entry => entry.1.writesLake).map Prod.snd

/-- The first two positions with no path between them. -/
def unorderedPair (nodes : List (Node T)) : List ℕ → Option (ℕ × ℕ)
  | [] => none
  | first :: rest =>
      match rest.find? fun second => !reaches nodes first second && !reaches nodes second first with
      | some second => some (first, second)
      | none => unorderedPair nodes rest

/-- The check of the lake writers. -/
def writerError (nodes : List (Node T)) : Option (AssemblyError T) :=
  (unorderedPair nodes (lakeWriters nodes)).bind fun pair =>
    (nodes[pair.1]?).bind fun first => (nodes[pair.2]?).map fun second =>
      .unorderedLakeWriters first.taskId second.taskId

/-- The first problem of a node list. -/
def assemblyError [DecidableEq T] (nodes : List (Node T)) : Option (AssemblyError T) :=
  if nodes.isEmpty then some .empty
  else
    (nodeError nodes []).or
      (((segments nodes).findSome? (segmentError nodes)).or (writerError nodes))

theorem nodup_of_nodeError [DecidableEq T] {nodes : List (Node T)} {seen : List T}
    (hnone : nodeError nodes seen = none) :
    (nodes.map Node.taskId).Nodup ∧ ∀ node ∈ nodes, node.taskId ∉ seen := by
  induction nodes generalizing seen with
  | nil => simp
  | cons node nodes ih =>
      rw [nodeError] at hnone
      split at hnone
      · cases hnone
      · next hfresh =>
          split at hnone
          · cases hnone
          · split at hnone
            · cases hnone
            · obtain ⟨hnodup, hrest⟩ := ih hnone
              refine ⟨?_, ?_⟩
              · rw [List.map_cons, List.nodup_cons]
                refine ⟨?_, hnodup⟩
                intro hmem
                obtain ⟨other, hother, hsame⟩ := List.mem_map.mp hmem
                apply hrest other hother
                rw [hsame]
                exact List.mem_cons_self
              · intro other hother
                rcases List.mem_cons.mp hother with rfl | htail
                · exact hfresh
                · intro hseen
                  exact hrest other htail (List.mem_cons_of_mem _ hseen)

theorem nodup_of_assemblyError [DecidableEq T] {nodes : List (Node T)}
    (hnone : assemblyError nodes = none) : (nodes.map Node.taskId).Nodup := by
  rw [assemblyError] at hnone
  split at hnone
  · cases hnone
  · rw [Option.or_eq_none_iff] at hnone
    exact (nodup_of_nodeError hnone.1).1

/-- `assemble`, for a node list whose handles the builder minted. -/
def assemble [DecidableEq T] (nodes : List (Node T)) (hearlier : UpstreamEarlier nodes) :
    Except (AssemblyError T) (Dag T) :=
  match hchecked : assemblyError nodes with
  | some error => .error error
  | none => .ok ⟨nodes, hearlier, nodup_of_assemblyError hchecked⟩

theorem assemble_eq_ok [DecidableEq T] {nodes : List (Node T)} {hearlier : UpstreamEarlier nodes}
    {dag : Dag T} (hdag : assemble nodes hearlier = .ok dag) :
    dag.nodes = nodes ∧ assemblyError nodes = none := by
  rw [assemble] at hdag
  split at hdag
  · cases hdag
  · next hchecked =>
      cases hdag
      exact ⟨rfl, hchecked⟩

theorem reaches_iff {nodes : List (Node T)} {first second : ℕ} :
    reaches nodes first second = true ↔ Reaches (downstreamOf nodes) first second := by
  rw [reaches, Bool.or_eq_true, beq_iff_eq]
  apply Iff.intro
  · intro h
    rcases h with rfl | hfound
    · exact Relation.ReflTransGen.refl
    · apply reaches_of_search _ hfound
      intro node hnode
      rw [List.mem_singleton] at hnode
      rw [hnode]
      exact Relation.ReflTransGen.refl
  · intro hreaches
    by_contra hmissed
    rw [not_or, Bool.not_eq_true] at hmissed
    have hbound (node next : ℕ) (hnext : next ∈ downstreamOf nodes node) :
        next ∈ Finset.range nodes.length := by
      obtain ⟨down, hdown, _⟩ := mem_downstreamOf.mp hnext
      rw [List.getElem?_eq_some_iff] at hdown
      exact Finset.mem_range.mpr hdown.1
    refine not_reaches_of_search hbound (Finset.empty_subset _) ?_ (Finset.notMem_empty _)
      hmissed.1 (.inl List.mem_cons_self) ?_ hmissed.2 hreaches
    · rw [Finset.sdiff_empty, Finset.card_range, List.length_singleton]
      omega
    · intro node hnode
      exact absurd hnode (Finset.notMem_empty node)

theorem ordered_of_unorderedPair {nodes : List (Node T)} {positions : List ℕ}
    (hnone : unorderedPair nodes positions = none) :
    positions.Pairwise fun first second =>
      reaches nodes first second = true ∨ reaches nodes second first = true := by
  induction positions with
  | nil => exact List.Pairwise.nil
  | cons first positions ih =>
      rw [unorderedPair] at hnone
      split at hnone
      · cases hnone
      · next hfind =>
          rw [List.pairwise_cons]
          refine ⟨?_, ih hnone⟩
          intro second hsecond
          rw [List.find?_eq_none] at hfind
          have hordered := hfind second hsecond
          by_contra hneither
          simp only [not_or, Bool.not_eq_true] at hneither
          simp [hneither] at hordered

theorem mem_of_unorderedPair {nodes : List (Node T)} {positions : List ℕ} {pair : ℕ × ℕ}
    (hfound : unorderedPair nodes positions = some pair) :
    pair.1 ∈ positions ∧ pair.2 ∈ positions := by
  induction positions with
  | nil => cases hfound
  | cons first positions ih =>
      rw [unorderedPair] at hfound
      split at hfound
      · next second hfind =>
          cases hfound
          exact ⟨List.mem_cons_self, List.mem_cons_of_mem _ (List.mem_of_find?_eq_some hfind)⟩
      · exact ⟨List.mem_cons_of_mem _ (ih hfound).1, List.mem_cons_of_mem _ (ih hfound).2⟩

theorem mem_lakeWriters {nodes : List (Node T)} {idx : ℕ} :
    idx ∈ lakeWriters nodes ↔ ∃ node, nodes[idx]? = some node ∧ node.writesLake = true := by
  simp only [lakeWriters, List.mem_map, List.mem_filter]
  apply Iff.intro
  · intro h
    obtain ⟨entry, ⟨hentry, hwrites⟩, rfl⟩ := h
    exact ⟨entry.1, List.mem_zipIdx_iff_getElem?.mp hentry, hwrites⟩
  · intro h
    obtain ⟨node, hnode, hwrites⟩ := h
    exact ⟨(node, idx), ⟨List.mem_zipIdx_iff_getElem?.mpr hnode, hwrites⟩, rfl⟩

/-- An accepted node list orders any two lake writers by a path. -/
theorem writers_ordered [DecidableEq T] {nodes : List (Node T)}
    (hnone : assemblyError nodes = none) {first second : ℕ} (hfirst : first ∈ lakeWriters nodes)
    (hsecond : second ∈ lakeWriters nodes) :
    Reaches (downstreamOf nodes) first second ∨ Reaches (downstreamOf nodes) second first := by
  rw [assemblyError] at hnone
  split at hnone
  · cases hnone
  · rw [Option.or_eq_none_iff, Option.or_eq_none_iff] at hnone
    have hpair : unorderedPair nodes (lakeWriters nodes) = none := by
      -- a pair that is found names two nodes, so it would be reported
      cases hfound : unorderedPair nodes (lakeWriters nodes) with
      | none => rfl
      | some pair =>
          have hmem := mem_of_unorderedPair hfound
          obtain ⟨node, hnode, _⟩ := mem_lakeWriters.mp hmem.1
          obtain ⟨other, hother, _⟩ := mem_lakeWriters.mp hmem.2
          have herror := hnone.2.2
          rw [writerError, hfound, Option.bind_some, hnode, Option.bind_some, hother] at herror
          cases herror
    have hpairwise := ordered_of_unorderedPair hpair
    have hflip : (lakeWriters nodes).Pairwise
        (flip fun first second => reaches nodes first second = true ∨
          reaches nodes second first = true) :=
      hpairwise.imp Or.symm
    have hordered := hpairwise.forall_of_forall_of_flip
      (fun _ _ => .inl (reaches_iff.mpr Relation.ReflTransGen.refl)) hflip hfirst hsecond
    rw [reaches_iff, reaches_iff] at hordered
    exact hordered

end EntityResolution.Executor
