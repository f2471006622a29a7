/-
# Clusters at a threshold

`cluster_at_threshold` finds connected components with SQL tables: representatives, one row for each
node, and neighbours, one row for each direction of an edge. An iteration lowers every
representative to the least one next to it, retires the representatives without neighbours, and
drops the neighbours inside one representative. The loop ends when no neighbours are left.

Nodes are the values of the unique-id expression. A table is a list of its rows, and no result
depends on their order.
-/

import EntityResolution.Foundations.Classes
import EntityResolution.Foundations.Grouping
import EntityResolution.Foundations.OuterJoins
import EntityResolution.Foundations.Propagation

namespace EntityResolution.Dedupe

open EntityResolution.Classes EntityResolution.Grouping EntityResolution.OuterJoins
  EntityResolution.Propagation

universe u v

variable {N : Type u} {P : Type v}

/-- A row of the predictions. -/
structure Prediction (N : Type u) (P : Type v) where
  nodeIdL : N
  nodeIdR : N
  matchProbability : P
  deriving DecidableEq

/-- A row of `__dedupe__neighbours`. -/
structure Neighbour (N : Type u) where
  nodeRep : N
  nodeId : N
  neighbourRep : N
  neighbour : N
  deriving DecidableEq

/-- A row of `__dedupe__representatives`; the node comes from a left join. -/
structure Representative (N : Type u) where
  nodeId : Option N
  representative : N
  stable : ℕ
  deriving DecidableEq

/-- A row of `__dedupe__rep_updates`, and of the union that it groups. -/
structure RepUpdate (N : Type u) where
  oldRep : N
  representative : N
  stable : ℕ
  deriving DecidableEq

/-- A row of the clustering. -/
structure ClusterRow (N : Type u) where
  nodeId : Option N
  clusterId : N
  deriving DecidableEq

variable [LinearOrder N] [LinearOrder P]

/-- `__dedupe__edges_from_predict`. -/
def edgesFromPredict (predictions : List (Prediction N P)) (threshold : P) :
    List (Prediction N P) :=
  predictions.filter fun row => threshold ≤ row.matchProbability

/-- `__dedupe__neighbours`: the edges in both directions. -/
def neighboursOf (edges : List (Prediction N P)) (threshold : P) : List (Neighbour N) :=
  ((edges.filter fun row => threshold ≤ row.matchProbability).map fun row =>
    ⟨row.nodeIdL, row.nodeIdL, row.nodeIdR, row.nodeIdR⟩) ++
  (edges.filter fun row => threshold ≤ row.matchProbability).map fun row =>
    ⟨row.nodeIdR, row.nodeIdR, row.nodeIdL, row.nodeIdL⟩

/-- `__dedupe__representatives`: each node is its own representative. -/
def ownRepresentatives (nodes : List N) : List (Representative N) :=
  (nodes.map fun node => (⟨some node, node, 0⟩ : Representative N)).dedup

/-- The union under `__dedupe__rep_updates`. -/
def repUnion (neighbours : List (Neighbour N)) (representatives : List (Representative N)) :
    List (RepUpdate N) :=
  (neighbours.map fun row => ⟨row.nodeRep, row.neighbourRep, 0⟩) ++
    representatives.map fun row => ⟨row.representative, row.representative, 1⟩

/-- The least representative and the least stable flag of a group. -/
def leastUpdate (group : N × List (RepUpdate N)) : Option (RepUpdate N) :=
  match (group.2.map RepUpdate.representative).min?, (group.2.map RepUpdate.stable).min? with
  | some representative, some stable => some ⟨group.1, representative, stable⟩
  | _, _ => none

/-- `__dedupe__rep_updates`. -/
def repUpdates (neighbours : List (Neighbour N)) (representatives : List (Representative N)) :
    List (RepUpdate N) :=
  (groups RepUpdate.oldRep (repUnion neighbours representatives)).filterMap leastUpdate

/-- `__dedupe__representatives_{iteration}`: the updates pushed down to the nodes. -/
def newReps (neighbours : List (Neighbour N)) (representatives : List (Representative N)) :
    List (Representative N) :=
  (leftJoin (repUpdates neighbours representatives) representatives
    fun update repr => update.oldRep = repr.representative).map fun row =>
      ⟨row.2.bind Representative.nodeId, row.1.representative, row.1.stable⟩

/-- The row of `__dedupe__filtered_neighbours` for a neighbour, when both sides were found and have
different representatives. -/
def crossRow (row : (Neighbour N × Option (Representative N)) × Option (Representative N)) :
    Option (Neighbour N) :=
  match row with
  | ((n, some l), some r) =>
      if l.representative ≠ r.representative
      then some ⟨l.representative, n.nodeId, r.representative, n.neighbour⟩ else none
  | _ => none

/-- `__dedupe__filtered_neighbours_{iteration}`. -/
def filteredNeighbours (neighbours : List (Neighbour N)) (reps : List (Representative N)) :
    List (Neighbour N) :=
  (leftJoin (leftJoin neighbours reps fun n l => l.nodeId = some n.nodeId) reps
    fun row r => some row.1.neighbour = r.nodeId).filterMap crossRow

/-- The loop's variables. -/
structure Working (N : Type u) where
  neighbours : List (Neighbour N)
  representatives : List (Representative N)
  stableTables : List (List (Representative N))

/-- One iteration. -/
def Working.iterate (working : Working N) : Working N :=
  let reps := newReps working.neighbours working.representatives
  { neighbours := filteredNeighbours working.neighbours reps
    representatives := reps.filter fun row => row.stable = 0
    stableTables := working.stableTables ++ [reps.filter fun row => row.stable = 1] }

/-- The loop: iterate until no neighbours are left. -/
def clusterLoop : ℕ → Working N → Option (Working N)
  | 0, _ => none
  | fuel + 1, working =>
      if working.iterate.neighbours.length = 0 then some working.iterate
      else clusterLoop fuel working.iterate

/-- The rows of a table of representatives in the clustering. -/
def clusterRows (representatives : List (Representative N)) : List (ClusterRow N) :=
  representatives.map fun row => ⟨row.nodeId, row.representative⟩

/-- The final union: the retired tables, then the last representatives. -/
def Working.output (working : Working N) : List (ClusterRow N) :=
  working.stableTables.flatMap clusterRows ++ clusterRows working.representatives

/-- `cluster_at_threshold`. -/
def clusterAtThreshold (fuel : ℕ) (concat : List N) (predictions : List (Prediction N P))
    (threshold : P) : Option (List (ClusterRow N)) :=
  (clusterLoop fuel
    { neighbours := neighboursOf (edgesFromPredict predictions threshold) threshold
      representatives := ownRepresentatives concat
      stableTables := [] }).map Working.output

end EntityResolution.Dedupe
