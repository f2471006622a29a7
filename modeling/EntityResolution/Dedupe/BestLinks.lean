/-
# Clustering by single best links

`cluster_using_single_best_links` starts with every record as its own representative. An iteration
notes for each representative which duplicate-free datasets its records are from, ranks the links
between representatives that share none, and gives the records of a link that ranks first on both
sides the smaller representative. The loop ends with an iteration that updates no record.

The flags are columns named after the datasets, without quotes, and the statements refer to them by
these names. What identifier a dataset's name becomes, if it is one at all, is a parameter:
identifiers are equal when the database does not tell them apart.
-/

import EntityResolution.Foundations.Grouping
import EntityResolution.Foundations.MutualBest
import EntityResolution.Foundations.OuterJoins

namespace EntityResolution.Dedupe

open EntityResolution.Grouping EntityResolution.MutualBest EntityResolution.OuterJoins
  EntityResolution.Relations

universe u v w x

variable {N : Type u} {D : Type v} {P : Type w} {C : Type x}

/-- A record: its composite id and its source dataset. -/
structure SblRecord (N : Type u) (D : Type v) where
  nodeId : N
  sourceDataset : D
  deriving DecidableEq

/-- A row of the predictions. -/
structure SblPrediction (N : Type u) (D : Type v) (P : Type w) where
  nodeIdL : N
  nodeIdR : N
  sourceDatasetL : D
  sourceDatasetR : D
  matchProbability : P
  deriving DecidableEq

/-- A row of `__dedupe__sbl_neighbours`. -/
structure SblNeighbour (N : Type u) (D : Type v) (P : Type w) where
  nodeId : N
  neighbour : N
  sourceDatasetL : D
  sourceDatasetR : D
  matchProbability : P
  deriving DecidableEq

/-- A row of `__dedupe__sbl_representatives`. -/
structure SblRepresentative (N : Type u) (D : Type v) where
  nodeId : N
  representative : N
  sourceDataset : D
  deriving DecidableEq

/-- A row of `__dedupe__sbl_flags`, with its flag columns in order. -/
structure FlagRow (N : Type u) (C : Type x) where
  representative : N
  columns : List (Option C × Bool)

/-- A row of `__dedupe__sbl_reps_flags`. -/
structure FlaggedRow (N : Type u) (D : Type v) (C : Type x) where
  nodeId : N
  sourceDataset : D
  flags : FlagRow N C

/-- A row of the clustering. -/
structure SblCluster (N : Type u) where
  nodeId : N
  clusterId : N
  deriving DecidableEq

variable [LinearOrder N] [DecidableEq D] [LinearOrder P] [DecidableEq C]

/-- `__dedupe__sbl_neighbours`: the links at or above the threshold, in both directions. -/
def sblNeighbours (predictions : List (SblPrediction N D P)) (threshold : P) :
    List (SblNeighbour N D P) :=
  ((predictions.filter fun row => threshold ≤ row.matchProbability).map fun row =>
    ⟨row.nodeIdL, row.nodeIdR, row.sourceDatasetL, row.sourceDatasetR, row.matchProbability⟩) ++
  (predictions.filter fun row => threshold ≤ row.matchProbability).map fun row =>
    ⟨row.nodeIdR, row.nodeIdL, row.sourceDatasetR, row.sourceDatasetL, row.matchProbability⟩

/-- The columns that `__dedupe__sbl_ties_l` groups by. -/
def tieKeyL (row : SblNeighbour N D P) : N × D × D × P :=
  (row.nodeId, row.sourceDatasetL, row.sourceDatasetR, row.matchProbability)

/-- The columns that `__dedupe__sbl_ties_r` groups by. -/
def tieKeyR (row : SblNeighbour N D P) : N × D × D × P :=
  (row.neighbour, row.sourceDatasetL, row.sourceDatasetR, row.matchProbability)

/-- `__dedupe__sbl_ties_l`. -/
def tiesL (neighbours : List (SblNeighbour N D P)) (dupFree : List D) :
    List ((N × D × D × P) × ℕ) :=
  (groups tieKeyL neighbours).map fun group => (group.1,
    if 1 < (group.2.map SblNeighbour.neighbour).dedup.length ∧ group.1.2.2.1 ∈ dupFree
    then 1 else 0)

/-- `__dedupe__sbl_ties_r`. -/
def tiesR (neighbours : List (SblNeighbour N D P)) (dupFree : List D) :
    List ((N × D × D × P) × ℕ) :=
  (groups tieKeyR neighbours).map fun group => (group.1,
    if 1 < (group.2.map SblNeighbour.nodeId).dedup.length ∧ group.1.2.1 ∈ dupFree then 1 else 0)

/-- `drop_ties`. -/
def dropTies (neighbours : List (SblNeighbour N D P)) (dupFree : List D) :
    List (SblNeighbour N D P) :=
  ((innerJoin (innerJoin neighbours (tiesL neighbours dupFree) fun n l => tieKeyL n = l.1)
    (tiesR neighbours dupFree) fun row r => tieKeyR row.1 = r.1).filter fun row =>
      row.1.2.2 = 0 ∧ row.2.2 = 0).map fun row => row.1.1

section Iteration

variable (column : D → Option C) (dupFree : List D)

/-- `__dedupe__sbl_flags`: for each representative, which datasets its records are from. -/
def flagsOf (representatives : List (SblRepresentative N D)) : List (FlagRow N C) :=
  (groups SblRepresentative.representative representatives).map fun group =>
    ⟨group.1, dupFree.map fun d =>
      (column d, (group.2.map SblRepresentative.sourceDataset).contains d)⟩

/-- The column that a name refers to: the first one with that name. -/
def FlagRow.lookup (row : FlagRow N C) (name : Option C) : Bool :=
  ((row.columns.find? fun named => named.1 = name).map Prod.snd).getD false

/-- `__dedupe__sbl_reps_flags`. -/
def repsWithFlags (representatives : List (SblRepresentative N D)) : List (FlaggedRow N D C) :=
  (innerJoin representatives (flagsOf column dupFree representatives) fun r cf =>
    r.representative = cf.representative).map fun row =>
      ⟨row.1.nodeId, row.1.sourceDataset, row.2⟩

/-- The duplicate criteria of two flagged rows. -/
def duplicateCriteria (l r : FlaggedRow N D C) : Bool :=
  dupFree.any fun d => l.flags.lookup (column d) && r.flags.lookup (column d)

/-- The rows under `__dedupe__sbl_ranked`: links between two representatives that share no
duplicate-free dataset. -/
def candidates (neighbours : List (SblNeighbour N D P))
    (representatives : List (SblRepresentative N D)) :
    List ((SblNeighbour N D P × FlaggedRow N D C) × FlaggedRow N D C) :=
  (innerJoin (innerJoin neighbours (repsWithFlags column dupFree representatives) fun n l =>
    l.nodeId = n.nodeId) (repsWithFlags column dupFree representatives) fun row r =>
      r.nodeId = row.1.neighbour).filter fun row =>
        row.1.2.flags.representative ≠ row.2.flags.representative ∧
          duplicateCriteria column dupFree row.1.2 row.2 = false

/-- `rank() over (partition by … order by match_probability desc, …)`: one more than the rows of the
partition that come before. -/
def rankOver (partition place : (SblNeighbour N D P × FlaggedRow N D C) × FlaggedRow N D C → N)
    (rows : List ((SblNeighbour N D P × FlaggedRow N D C) × FlaggedRow N D C))
    (row : (SblNeighbour N D P × FlaggedRow N D C) × FlaggedRow N D C) : ℕ :=
  1 + (rows.filter fun other => partition other = partition row ∧
    (row.1.1.matchProbability < other.1.1.matchProbability ∨
      other.1.1.matchProbability = row.1.1.matchProbability ∧ place other < place row)).length

/-- `rank_l`: by the left representative, then the right node. -/
def rankL (rows : List ((SblNeighbour N D P × FlaggedRow N D C) × FlaggedRow N D C)) :
    (SblNeighbour N D P × FlaggedRow N D C) × FlaggedRow N D C → ℕ :=
  rankOver (fun row => row.1.2.flags.representative) (fun row => row.2.nodeId) rows

/-- `rank_r`: by the right representative, then the left node. -/
def rankR (rows : List ((SblNeighbour N D P × FlaggedRow N D C) × FlaggedRow N D C)) :
    (SblNeighbour N D P × FlaggedRow N D C) × FlaggedRow N D C → ℕ :=
  rankOver (fun row => row.2.flags.representative) (fun row => row.1.2.nodeId) rows

/-- `__dedupe__sbl_best`: the links that rank first on both sides. -/
def bestLinks (neighbours : List (SblNeighbour N D P))
    (representatives : List (SblRepresentative N D)) : List (N × N) :=
  ((candidates column dupFree neighbours representatives).filter fun row =>
    rankL (candidates column dupFree neighbours representatives) row = 1 ∧
      rankR (candidates column dupFree neighbours representatives) row = 1).map fun row =>
        (row.1.1.nodeId, row.1.1.neighbour)

/-- The union under `__dedupe__sbl_newrep`: the representatives of best neighbours, and the own. -/
def repSources (best : List (N × N)) (representatives : List (SblRepresentative N D)) :
    List (N × Option N) :=
  ((leftJoin best representatives fun b repr => repr.nodeId = b.2).map fun row =>
    (row.1.1, row.2.map SblRepresentative.representative)) ++
  representatives.map fun row => (row.nodeId, some row.representative)

/-- `__dedupe__sbl_newrep`: the least representative of each node; a node without any would not be
joined again. -/
def sblNewReps (best : List (N × N)) (representatives : List (SblRepresentative N D)) :
    List (N × N) :=
  (groups Prod.fst (repSources best representatives)).filterMap fun group =>
    (group.2.filterMap Prod.snd).min?.map fun least => (group.1, least)

/-- `__dedupe__sbl_repr`: the updated representatives, with `needs_updating`. -/
def updatedReps (newReps : List (N × N)) (representatives : List (SblRepresentative N D)) :
    List (SblRepresentative N D × Bool) :=
  (innerJoin newReps representatives fun nr repr => nr.1 = repr.nodeId).map fun row =>
    (⟨row.1.1, row.1.2, row.2.sourceDataset⟩, row.1.2 ≠ row.2.representative)

/-- One iteration. -/
def sblIterate (neighbours : List (SblNeighbour N D P))
    (representatives : List (SblRepresentative N D)) : List (SblRepresentative N D × Bool) :=
  updatedReps (sblNewReps (bestLinks column dupFree neighbours representatives) representatives)
    representatives

/-- The loop: iterate until no row needs updating. -/
def sblLoop (neighbours : List (SblNeighbour N D P)) :
    ℕ → List (SblRepresentative N D) → Option (List (SblRepresentative N D))
  | 0, _ => none
  | fuel + 1, representatives =>
      let next := sblIterate column dupFree neighbours representatives
      if (next.filter Prod.snd).length = 0 then some (next.map Prod.fst)
      else sblLoop neighbours fuel (next.map Prod.fst)

/-- The neighbours that the loop reads. -/
def linkNeighbours (predictions : List (SblPrediction N D P)) (threshold : P)
    (tiesMethod : String) : List (SblNeighbour N D P) :=
  if tiesMethod = "drop" then dropTies (sblNeighbours predictions threshold) dupFree
  else sblNeighbours predictions threshold

/-- `__dedupe__sbl_representatives`: every record is its own representative. -/
def sblOwnReps (concat : List (SblRecord N D)) : List (SblRepresentative N D) :=
  concat.map fun row => ⟨row.nodeId, row.nodeId, row.sourceDataset⟩

/-- The statements parse when there is a flag and every flag's name is an identifier. -/
def flagsParse : Bool := !dupFree.isEmpty && dupFree.all fun d => (column d).isSome

/-- `cluster_using_single_best_links`. -/
def clusterUsingSingleBestLinks (fuel : ℕ) (concat : List (SblRecord N D))
    (predictions : List (SblPrediction N D P)) (threshold : P) (tiesMethod : String) :
    Option (List (SblCluster N)) :=
  if flagsParse column dupFree then
    (sblLoop column dupFree (linkNeighbours dupFree predictions threshold tiesMethod) fuel
      (sblOwnReps concat)).map fun representatives =>
        representatives.map fun row => ⟨row.nodeId, row.representative⟩
  else none

end Iteration

end EntityResolution.Dedupe
