/-
# The never-cut fixpoint

Cut the minimum-probability unprotected edge on the shortest path between each active
`never` pair that is co-clustered, until none is co-clustered or every hop of a pair's
path is protected and the pair is escalated.

This module is the computation as the engine runs it: the adjacency with sorted
neighbour lists, the search for the shortest path, the choice of the edge to cut, the
union-find over the live edges, and the bounded loop of rounds. Probabilities are any
linear order; the engine's are the finite floats, and it panics on one that is not a
number. `canon` panics on a loop there; here it returns the loop, and no result is about
an edge or an assertion that is one.
-/

import EntityResolution.Identity.Ids
import EntityResolution.Foundations.BreadthFirst
import EntityResolution.Foundations.UnionFind

namespace EntityResolution.NeverCut

open EntityResolution.Collections EntityResolution.Identity

universe u v w

variable {R : Type u} {P : Type v} {I : Type w}

/-- `AssertionKind`: `always` forces a merge, `never` forbids a co-cluster. -/
inductive AssertionKind
  | always
  | never
  deriving DecidableEq

/-- `Assertion`: one steward assertion over a record pair. -/
structure Assertion (R : Type u) (I : Type w) where
  assertionId : I
  recAKey : R
  recBKey : R
  kind : AssertionKind
  active : Bool
  deriving DecidableEq

/-- `PathEdge`: one clustering edge with its match probability. -/
structure PathEdge (R : Type u) (P : Type v) where
  left : R
  right : R
  probability : P
  deriving DecidableEq

/-- `Cut`: one edge the run decided to cut, and the assertion that required it. -/
structure Cut (R : Type u) (P : Type v) (I : Type w) where
  recAKey : R
  recBKey : R
  matchProbability : P
  assertionId : I
  deriving DecidableEq

/-- `CutResult`: what the fixpoint decided. -/
structure CutResult (R : Type u) (P : Type v) (I : Type w) where
  cuts : List (Cut R P I) := []
  escalations : List (R × R × I) := []
  iterations : ℕ := 0
  deriving DecidableEq

/-- `NeverCutError`: the round bound was reached with pairs still co-clustered, or a round
changed nothing. -/
inductive NeverCutError
  | nonConvergence (maxIterations remaining : ℕ)
  | noProgress (pairs : ℕ)
  deriving DecidableEq

variable [LinearOrder R] [LinearOrder P]

/-- `canon`: the pair in ascending order. -/
def canon (a b : R) : R × R :=
  match canonicalizePair a b with
  | .ok pair => pair
  | .error _ => (a, b)

/-- The canonical pair of an edge. -/
def PathEdge.pair (edge : PathEdge R P) : R × R := canon edge.left edge.right

/-- The canonical pair of an assertion. -/
def Assertion.pair (assertion : Assertion R I) : R × R :=
  canon assertion.recAKey assertion.recBKey

/-- Both directions of every edge. -/
def directions (edges : List (PathEdge R P)) : List (R × R) :=
  edges.flatMap fun edge => [(edge.left, edge.right), (edge.right, edge.left)]

/-- `adjacency`: undirected adjacency with every neighbour list sorted. -/
def adjacency (edges : List (PathEdge R P)) : BTreeMap R (List R) :=
  ((directions edges).foldl BTreeMap.fileAt ∅).map fun _ neighbours => neighbours.toList

/-- `shortest_path`: fewest hops, then the least vertex sequence. -/
def shortestPath (source target : R) (edges : List (PathEdge R P)) : Option (List R) :=
  if source = target then some [source]
  else if source ∉ adjacency edges ∨ target ∉ adjacency edges then none
  else BreadthFirst.bestPath (adjacency edges) source target

/-- The probability of every canonical pair, a later edge replacing an earlier one. -/
def probabilities (edges : List (PathEdge R P)) : BTreeMap (R ×ₗ R) P :=
  (∅ : BTreeMap (R ×ₗ R) P).insertMany
    (edges.map fun edge => (toLex edge.pair, edge.probability))

/-- An edge is uncuttable when its probability reaches the threshold or an endpoint is
protected. -/
def Cuttable (cutProtectProbability : P) (protectedRecords : Finset R) (pair : R × R) (value : P) :
    Prop :=
  value < cutProtectProbability ∧ pair.1 ∉ protectedRecords ∧ pair.2 ∉ protectedRecords

instance (cutProtectProbability : P) (protectedRecords : Finset R) (pair : R × R) (value : P) :
    Decidable (Cuttable cutProtectProbability protectedRecords pair value) :=
  inferInstanceAs (Decidable (_ ∧ _ ∧ _))

/-- The cuttable edges on a path, hop by hop. -/
def candidates (path : List R) (edges : List (PathEdge R P)) (cutProtectProbability : P)
    (protectedRecords : Finset R) : List (PathEdge R P) :=
  (path.zip path.tail).filterMap fun hop =>
    (probabilities edges)[toLex (canon hop.1 hop.2)]?.bind fun value =>
      if Cuttable cutProtectProbability protectedRecords (canon hop.1 hop.2) value then
        some ⟨(canon hop.1 hop.2).1, (canon hop.1 hop.2).2, value⟩
      else none

/-- The order of candidates: probability, then the two keys. -/
def PathEdge.cutKey (edge : PathEdge R P) : P ×ₗ R ×ₗ R :=
  toLex (edge.probability, toLex (edge.left, edge.right))

/-- `choose_cut_edge`: the first candidate, `none` when every hop is uncuttable. -/
def chooseCutEdge (path : List R) (edges : List (PathEdge R P)) (cutProtectProbability : P)
    (protectedRecords : Finset R) : Option (PathEdge R P) :=
  (candidates path edges cutProtectProbability protectedRecords).argmin PathEdge.cutKey

/-- A set of nodes together with the endpoints of the edges. -/
def withEndpoints (nodes : BTreeSet R) (edges : List (PathEdge R P)) : BTreeSet R :=
  nodes.insertMany (edges.flatMap fun edge => [edge.left, edge.right])

/-- The position of every node among the sorted nodes. -/
def indexOf (ids : List R) : BTreeMap R ℕ := Std.ExtTreeMap.ofList ids.zipIdx compare

/-- `components`: node to component index over the edges. -/
def components (edges : List (PathEdge R P)) (nodes : BTreeSet R) : BTreeMap R ℕ :=
  let ids := (withEndpoints nodes edges).toList
  let pairs := edges.map fun edge =>
    ((indexOf ids)[edge.left]?.getD 0, (indexOf ids)[edge.right]?.getD 0)
  let parent := UnionFind.unionAll ids.length pairs
  Std.ExtTreeMap.ofList (ids.zip (UnionFind.rootsOf parent (List.range ids.length))) compare

/-- Two nodes have components, and the same one. -/
def coClustered (component : BTreeMap R ℕ) (a b : R) : Bool :=
  match component[a]?, component[b]? with
  | some x, some y => x = y
  | _, _ => false

/-- The loop's variables. -/
structure CutState (R : Type u) (P : Type v) (I : Type w) where
  live : List (PathEdge R P)
  cuts : List (Cut R P I) := []
  escalated : List (R × R × I) := []
  escalatedPairs : Finset (R × R) := ∅
  iterations : ℕ := 0
  progressed : Bool := false

/-- The state at the start of the next round. -/
def CutState.nextRound (state : CutState R P I) : CutState R P I :=
  { state with iterations := state.iterations + 1, progressed := false }

section Loop

variable (never : List (Assertion R I)) (everyNode : BTreeSet R) (cutProtectProbability : P)
  (protectedRecords : Finset R) (maxIterations : ℕ)

/-- The `never` pairs that are co-clustered and not escalated. -/
def violations (state : CutState R P I) : List (Assertion R I) :=
  never.filter fun assertion => assertion.pair ∉ state.escalatedPairs ∧
    coClustered (components state.live everyNode) assertion.recAKey assertion.recBKey

/-- The body of the round for one violation: skip it, escalate its pair, or cut an edge. -/
def settlePair (state : CutState R P I) (assertion : Assertion R I) : CutState R P I :=
  match shortestPath assertion.recAKey assertion.recBKey state.live with
  | none => state
  | some path =>
      match chooseCutEdge path state.live cutProtectProbability protectedRecords with
      | none =>
          { state with
            escalated := state.escalated ++
              [(assertion.pair.1, assertion.pair.2, assertion.assertionId)]
            escalatedPairs := insert assertion.pair state.escalatedPairs
            progressed := true }
      | some edge =>
          { state with
            cuts := state.cuts ++
              [⟨edge.left, edge.right, edge.probability, assertion.assertionId⟩]
            live := state.live.filter fun other => other.pair ≠ (edge.left, edge.right)
            progressed := true }

/-- One round over the violations that the round started with. -/
def round (state : CutState R P I) : CutState R P I :=
  (violations never everyNode state).foldl (settlePair cutProtectProbability protectedRecords)
    state.nextRound

/-- The loop, with the number of rounds that are still allowed. -/
def settle : ℕ → CutState R P I → Except NeverCutError (CutResult R P I)
  | 0, state =>
      if violations never everyNode state = [] then
        .ok ⟨state.cuts, state.escalated, state.iterations⟩
      else .error (.nonConvergence maxIterations (violations never everyNode state).length)
  | rounds + 1, state =>
      if violations never everyNode state = [] then
        .ok ⟨state.cuts, state.escalated, state.iterations⟩
      else
        let next := round never everyNode cutProtectProbability protectedRecords state
        if next.progressed then settle rounds next else .error (.noProgress never.length)

end Loop

/-- The active `never` assertions. -/
def activeNever (assertions : List (Assertion R I)) : List (Assertion R I) :=
  assertions.filter fun assertion => assertion.kind = .never ∧ assertion.active

/-- `never_cut_fixpoint`: cut until no active `never` pair is co-clustered. -/
def neverCutFixpoint (edges : List (PathEdge R P)) (assertions : List (Assertion R I))
    (nodes : List R) (cutProtectProbability : P) (protectedRecords : Finset R)
    (maxIterations : ℕ) : Except NeverCutError (CutResult R P I) :=
  if activeNever assertions = [] then .ok {}
  else
    settle (activeNever assertions) (withEndpoints (Std.ExtTreeSet.ofList nodes compare) edges)
      cutProtectProbability protectedRecords maxIterations maxIterations { live := edges }

end EntityResolution.NeverCut
