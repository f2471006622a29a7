/-
# The clustering of a reconcile run

`run_reconcile` first decides which records belong together. It reads the auto-merge edges,
drops what touches a suppressed record, adds an edge for every `always`, turns the violations
of the configured constraints into `never` rules of their own, drops the edges that a `never`
forbids outright, and lets the never-cut fixpoint separate what is still joined through other
records. The components of the edges that are left are the new partition.

The edges are the rows that `Match.autoMergeEdges` reads, in whatever order the store returns
the rows of one pair. The assertions are the active ones, with their pairs in canonical order.
Constraint columns and their values are any types: the rules only ask whether a value is
present and whether two values are equal.
-/

import EntityResolution.Foundations.Relations
import EntityResolution.NeverCut.Soundness
import EntityResolution.Reconcile.Plan

namespace EntityResolution.Reconcile

open EntityResolution.Collections EntityResolution.NeverCut
open EntityResolution.Relations (sqlAnd)

universe u v w x y

variable {R : Type u} {P : Type v} {C : Type w} {V : Type x} {A : Type y}

/-- `MatchConstraints`: the columns of the three kinds of rule. -/
structure MatchConstraints (C : Type w) where
  requiredMatch : List C := []
  veto : List C := []
  excludeWhenEqual : List C := []
  deriving DecidableEq

/-- `MatchConstraints::is_empty`. -/
def MatchConstraints.isEmpty (constraints : MatchConstraints C) : Bool :=
  constraints.requiredMatch.isEmpty && constraints.veto.isEmpty &&
    constraints.excludeWhenEqual.isEmpty

/-- SQL `=`: NULL when a side is NULL. -/
def sqlEq [DecidableEq V] : Option V → Option V → Option Bool
  | some l, some r => some (l = r)
  | _, _ => none

/-- SQL `NOT`. -/
def sqlNot (truth : Option Bool) : Option Bool := truth.map not

/-- SQL `IS NOT NULL`. -/
def isNotNull (value : Option V) : Option Bool := some value.isSome

/-- `constraint_conjuncts`: the truth value of every conjunct on a pair of rows. -/
def constraintConjuncts [DecidableEq V] (constraints : MatchConstraints C)
    (l r : C → Option V) : List (Option Bool) :=
  (constraints.requiredMatch.map fun column =>
    sqlAnd (sqlAnd (sqlEq (l column) (r column)) (isNotNull (l column))) (isNotNull (r column))) ++
  (constraints.veto.map fun column =>
    sqlNot (sqlAnd (sqlAnd (isNotNull (l column)) (isNotNull (r column)))
      (sqlNot (sqlEq (l column) (r column))))) ++
  (constraints.excludeWhenEqual.map fun column =>
    sqlNot (sqlAnd (sqlAnd (sqlEq (l column) (r column)) (isNotNull (l column)))
      (isNotNull (r column))))

/-- `not coalesce(<conjuncts>, false)`: the pair breaks a constraint. -/
def violates [DecidableEq V] (constraints : MatchConstraints C) (l r : C → Option V) : Bool :=
  !(((constraintConjuncts constraints l r).foldl sqlAnd (some true)).getD false)

/-- The id of a rule: a steward's assertion, or the pair of a broken constraint. -/
inductive RuleId (R : Type u) (A : Type y)
  | steward (assertionId : A)
  | constraint (recAKey recBKey : R)
  deriving DecidableEq

/-- What a run reads besides the tables it writes: the configuration, the standardized
corpus, the auto-merge edges, the active assertions and the steward overlays. -/
structure ReconcileInput (R : Type u) (P : Type v) (C : Type w) (V : Type x) (A : Type y)
    [LinearOrder R] where
  constraints : MatchConstraints C
  cutProtectProbability : P
  maxIterations : ℤ
  corpus : BTreeMap R (C → Option V)
  scores : List (PathEdge R P)
  assertions : List (Assertion R (RuleId R A))
  suppressed : Finset R
  protectedRecords : Finset R
  scores_ordered : ∀ edge ∈ scores, edge.left < edge.right
  assertions_ordered : ∀ assertion ∈ assertions, assertion.recAKey < assertion.recBKey
  assertions_active : ∀ assertion ∈ assertions, assertion.active = true

section Labels

variable [LinearOrder R]

/-- The first node filed for a component is its least one. -/
def fileRoot (rootMin : BTreeMap ℕ R) (entry : R × ℕ) : BTreeMap ℕ R :=
  if entry.2 ∈ rootMin then rootMin else rootMin.insert entry.2 entry.1

/-- `label_propagate`: every node with the least node of its component. -/
def labelPropagate (nodes : List R) (edges : List (PathEdge R P)) : BTreeMap R R :=
  let component := components edges (Std.ExtTreeSet.ofList nodes compare)
  let rootMin := component.toList.foldl fileRoot ∅
  component.map fun node root => rootMin[root]?.getD node

end Labels

namespace ReconcileInput

variable [LinearOrder R] (input : ReconcileInput R P C V A)

/-- The clustering nodes: the corpus without the suppressed records. -/
def nodes : List R := input.corpus.keys.filter fun record => record ∉ input.suppressed

/-- A pair neither of whose records is suppressed. -/
def unsuppressed (a b : R) : Bool := a ∉ input.suppressed && b ∉ input.suppressed

/-- The auto-merge edges that touch no suppressed record. -/
def scoreEdges : List (PathEdge R P) :=
  input.scores.filter fun edge => input.unsuppressed edge.left edge.right

/-- The `always` assertions that push an edge: suppress wins over always. -/
def alwaysRules : List (Assertion R (RuleId R A)) :=
  input.assertions.filter fun assertion =>
    assertion.kind = .always && input.unsuppressed assertion.recAKey assertion.recBKey

/-- The steward's `never` assertions. -/
def stewardNevers : List (Assertion R (RuleId R A)) :=
  input.assertions.filter fun assertion => assertion.kind = .never

variable [One P]

/-- An `always` as an edge of probability one. -/
def alwaysEdge (assertion : Assertion R (RuleId R A)) : PathEdge R P :=
  ⟨assertion.recAKey, assertion.recBKey, 1⟩

/-- The edges before any `never` is looked at, the asserted ones last. -/
def proposedEdges : List (PathEdge R P) := input.scoreEdges ++ input.alwaysRules.map alwaysEdge

/-- The records in a component of more than one, with the label of the component. -/
def constraintScope : List (R × R) :=
  let component := labelPropagate input.nodes input.proposedEdges
  component.toList.filter fun entry =>
    1 < (component.toList.filter fun other => other.2 = entry.2).length

variable [DecidableEq V]

/-- Two records of the scope in one component, the smaller first, both in the corpus, that
break a constraint. -/
def breaksConstraint (first second : R × R) : Bool :=
  first.2 = second.2 && first.1 < second.1 &&
    match input.corpus[first.1]?, input.corpus[second.1]? with
    | some l, some r => violates input.constraints l r
    | _, _ => false

/-- `constraint_nevers`: the violations inside the components, as `never` rules. -/
def constraintNevers : List (Assertion R (RuleId R A)) :=
  if input.constraints.isEmpty then []
  else
    let found := (input.constraintScope ×ˢ input.constraintScope).filter fun pair =>
      input.breaksConstraint pair.1 pair.2
    let ordered := (found.map fun pair => (pair.1.1, pair.2.1)).insertionSort
      fun first second => toLex first ≤ toLex second
    ordered.map fun pair => ⟨.constraint pair.1 pair.2, pair.1, pair.2, .never, true⟩

/-- The steward's and the constraints' `never` rules. -/
def nevers : List (Assertion R (RuleId R A)) := input.stewardNevers ++ input.constraintNevers

/-- The edges whose own pair is no `never`. -/
def keptEdges : List (PathEdge R P) :=
  input.proposedEdges.filter fun edge =>
    (edge.left, edge.right) ∉ input.nevers.map fun rule => (rule.recAKey, rule.recBKey)

/-- The round bound: a negative one reads as 50. -/
def rounds : ℕ := if 0 ≤ input.maxIterations then input.maxIterations.toNat else 50

variable [LinearOrder P]

/-- The never-cut of the run, skipped when there is no `never`. -/
def neverCut : Except NeverCutError (CutResult R P (RuleId R A)) :=
  if input.nevers = [] then .ok {}
  else neverCutFixpoint input.keptEdges input.nevers input.nodes input.cutProtectProbability
    input.protectedRecords input.rounds

/-- The edges that are neither dropped nor cut. -/
def clusteringEdges (result : CutResult R P (RuleId R A)) : List (PathEdge R P) :=
  input.keptEdges.filter fun edge => (edge.left, edge.right) ∉ result.cuts.map Cut.pair

/-- The new partition that a never-cut result leaves. -/
def partitionOf (result : CutResult R P (RuleId R A)) : List (List R) :=
  (BTreeMap.keysByValue (labelPropagate input.nodes (input.clusteringEdges result))).toList.map
    Prod.snd

end ReconcileInput

end EntityResolution.Reconcile
