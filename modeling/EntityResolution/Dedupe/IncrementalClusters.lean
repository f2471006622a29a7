/-
# Folding new links into clusters

`incremental_cluster` contracts each existing cluster to its id, clusters the ids along the new
links, and gives every record the cluster of its id. The existing clusters have their components'
least nodes as ids, so the ids are the contracted graph and nothing is lost: the rows are those of
clustering all records along all links.
-/

import EntityResolution.Dedupe.Components

namespace EntityResolution.Dedupe

open EntityResolution.OuterJoins EntityResolution.Propagation EntityResolution.Relations

universe u v

variable {N : Type u} {P : Type v} [LinearOrder N] [LinearOrder P]

/-- A row of `__dedupe__incremental_reps`. -/
structure SeedRow (N : Type u) where
  nodeId : N
  seedRep : N
  deriving DecidableEq

/-- `__dedupe__incremental_reps`: the existing cluster of a record, or the record itself. -/
def allReps (allConcat : List N) (existingClusters : List (ClusterRow N)) : List (SeedRow N) :=
  (leftJoin allConcat existingClusters fun n e => e.nodeId = some n).map fun row =>
    ⟨row.1, (row.2.map ClusterRow.clusterId).getD row.1⟩

/-- `__dedupe__incremental_seed_nodes`. -/
def seedNodes (reps : List (SeedRow N)) : List N := (reps.map SeedRow.seedRep).dedup

/-- `__dedupe__incremental_seed_edges`. -/
def seedEdges (newPredictions : List (Prediction N P)) (reps : List (SeedRow N)) (threshold : P) :
    List (Prediction N P) :=
  ((innerJoin (innerJoin newPredictions reps fun p al => al.nodeId = p.nodeIdL) reps
    fun row ar => ar.nodeId = row.1.nodeIdR).filter fun row =>
      threshold ≤ row.1.1.matchProbability).map fun row =>
        ⟨row.1.2.seedRep, row.2.seedRep, row.1.1.matchProbability⟩

/-- The rows of the records, through their ids. -/
def expandRows (reps : List (SeedRow N)) (seedClusters : List (ClusterRow N)) :
    List (ClusterRow N) :=
  (innerJoin reps seedClusters fun ar sc => sc.nodeId = some ar.seedRep).map fun row =>
    ⟨some row.1.nodeId, row.2.clusterId⟩

/-- `incremental_cluster`. -/
def incrementalCluster (fuel : ℕ) (allConcat : List N) (existingClusters : List (ClusterRow N))
    (newPredictions : List (Prediction N P)) (threshold : P) : Option (List (ClusterRow N)) :=
  let reps := allReps allConcat existingClusters
  (clusterAtThreshold fuel (seedNodes reps) (seedEdges newPredictions reps threshold)
    threshold).map (expandRows reps)

section Incremental

variable {records subset : List N} {oldPredictions newPredictions allPredictions :
  List (Prediction N P)} {existing : List (ClusterRow N)} {threshold : P} {seed : N → N}

theorem perm_of_clusterAtThreshold {fuel : ℕ} {rows : List (ClusterRow N)}
    (hdistinct : records.Nodup)
    (hbetween : ∀ row ∈ allPredictions, row.nodeIdL ∈ records ∧ row.nodeIdR ∈ records)
    (hrun : clusterAtThreshold fuel records allPredictions threshold = some rows) :
    rows.Perm (records.map fun x =>
        ⟨some x, leastReached (LinkedAt allPredictions threshold) x⟩) ∧
      ∀ x ∈ records, LeastReached (LinkedAt allPredictions threshold) x
        (leastReached (LinkedAt allPredictions threshold) x) := by
  rcases @exists_clusterAtThreshold N P _ _ records allPredictions threshold hdistinct hbetween with
    ⟨rows', hrun', hspec⟩
  have hsame : rows = rows' := by
    have hmore := clusterAtThreshold_mono hrun (le_max_left fuel (records.length + 1))
    rw [clusterAtThreshold_mono hrun' (le_max_right fuel (records.length + 1))] at hmore
    exact (Option.some.inj hmore).symm
  rw [hsame]
  exact hspec

theorem allReps_eq (hsubset : subset.Nodup)
    (hexisting : existing.Perm (subset.map fun x => ⟨some x, seed x⟩))
    (hself : ∀ x, x ∉ subset → seed x = x) :
    allReps records existing = records.map fun x => ⟨x, seed x⟩ := by
  have hkeys : (existing.map ClusterRow.nodeId).Nodup := by
    rw [(hexisting.map _).nodup_iff, List.map_map]
    exact hsubset.map (Option.some_injective N)
  have hfound : ∀ x ∈ records, existing.filter (fun e => e.nodeId = some x) =
      (if x ∈ subset then some ⟨some x, seed x⟩ else none : Option (ClusterRow N)).toList := by
    intro x _
    split
    · rename_i hx
      have hrow : (⟨some x, seed x⟩ : ClusterRow N) ∈ existing :=
        hexisting.mem_iff.mpr (List.mem_map_of_mem hx)
      exact filter_eq_singleton hkeys hrow rfl
    · rename_i hx
      rw [Option.toList_none, List.filter_eq_nil_iff]
      intro e he hnode
      obtain ⟨y, hy, rfl⟩ := List.mem_map.mp (hexisting.mem_iff.mp he)
      cases of_decide_eq_true hnode
      exact hx hy
  rw [allReps, leftJoin_eq_map_toList hfound, List.map_map]
  apply List.map_congr_left
  intro x _
  simp only [Function.comp_apply, SeedRow.mk.injEq, true_and]
  by_cases hx : x ∈ subset
  · simp [hx]
  · simp [hx, hself x hx]

theorem mem_seedEdges {edge : Prediction N P} :
    edge ∈ seedEdges newPredictions (records.map fun x => ⟨x, seed x⟩) threshold ↔
      ∃ p ∈ newPredictions, threshold ≤ p.matchProbability ∧ p.nodeIdL ∈ records ∧
        p.nodeIdR ∈ records ∧ ⟨seed p.nodeIdL, seed p.nodeIdR, p.matchProbability⟩ = edge := by
  simp only [seedEdges, List.mem_map, List.mem_filter, decide_eq_true_eq, Prod.exists,
    mem_innerJoin]
  apply Iff.intro
  · rintro ⟨p, al, ar, ⟨⟨⟨hp, ⟨x, hx, rfl⟩, hleft⟩, ⟨y, hy, rfl⟩, hright⟩, hle⟩, rfl⟩
    cases hleft
    cases hright
    exact ⟨p, hp, hle, hx, hy, rfl⟩
  · rintro ⟨p, hp, hle, hx, hy, rfl⟩
    exact ⟨p, _, _, ⟨⟨⟨hp, ⟨_, hx, rfl⟩, rfl⟩, ⟨_, hy, rfl⟩, rfl⟩, hle⟩, rfl⟩

/-- The contracted links. -/
theorem linkedAt_seedEdges {a b : N}
    (hbetween : ∀ row ∈ newPredictions, threshold ≤ row.matchProbability →
      row.nodeIdL ∈ records ∧ row.nodeIdR ∈ records) :
    LinkedAt (seedEdges newPredictions (records.map fun x => ⟨x, seed x⟩) threshold) threshold a b ↔
      ∃ x y, LinkedAt newPredictions threshold x y ∧ seed x = a ∧ seed y = b := by
  apply Iff.intro
  · rintro ⟨edge, hedge, hle, hends⟩
    obtain ⟨p, hp, _, _, _, rfl⟩ := mem_seedEdges.mp hedge
    rcases hends with ⟨hleft, hright⟩ | ⟨hleft, hright⟩
    · exact ⟨_, _, ⟨p, hp, hle, .inl ⟨rfl, rfl⟩⟩, hleft, hright⟩
    · exact ⟨_, _, ⟨p, hp, hle, .inr ⟨rfl, rfl⟩⟩, hright, hleft⟩
  · rintro ⟨x, y, ⟨p, hp, hle, hends⟩, rfl, rfl⟩
    obtain ⟨hl, hr⟩ := hbetween p hp hle
    refine ⟨_, mem_seedEdges.mpr ⟨p, hp, hle, hl, hr, rfl⟩, hle, ?_⟩
    rcases hends with ⟨rfl, rfl⟩ | ⟨rfl, rfl⟩
    · exact .inl ⟨rfl, rfl⟩
    · exact .inr ⟨rfl, rfl⟩

theorem expandRows_eq {seedClusters : List (ClusterRow N)} {ids : List N} {label : N → N}
    (hids : ids.Nodup) (hseeds : ∀ x ∈ records, seed x ∈ ids)
    (hrows : seedClusters.Perm (ids.map fun a => ⟨some a, label a⟩)) :
    expandRows (records.map fun x => ⟨x, seed x⟩) seedClusters =
      records.map fun x => ⟨some x, label (seed x)⟩ := by
  have hkeys : (seedClusters.map ClusterRow.nodeId).Nodup := by
    rw [(hrows.map _).nodup_iff, List.map_map]
    exact hids.map (Option.some_injective N)
  have hfound : ∀ ar ∈ records.map fun x => (⟨x, seed x⟩ : SeedRow N),
      seedClusters.filter (fun sc => sc.nodeId = some ar.seedRep) =
        [⟨some ar.seedRep, label ar.seedRep⟩] := by
    intro ar har
    obtain ⟨x, hx, rfl⟩ := List.mem_map.mp har
    have hrow : (⟨some (seed x), label (seed x)⟩ : ClusterRow N) ∈ seedClusters :=
      hrows.mem_iff.mpr (List.mem_map_of_mem (hseeds x hx))
    exact filter_eq_singleton hkeys hrow rfl
  rw [expandRows, innerJoin_eq_map hfound, List.map_map, List.map_map]
  rfl

theorem incrementalCluster_eq {fuel : ℕ} (hsubset : subset.Nodup)
    (hseed : ∀ x, LeastReached (LinkedAt oldPredictions threshold) x (seed x))
    (hself : ∀ x, x ∉ subset → seed x = x)
    (hexisting : existing.Perm (subset.map fun x => ⟨some x, seed x⟩))
    (hbetween : ∀ row ∈ newPredictions, threshold ≤ row.matchProbability →
      row.nodeIdL ∈ records ∧ row.nodeIdR ∈ records)
    (hfuel : records.length < fuel) :
    incrementalCluster fuel records existing newPredictions threshold =
      some (records.map fun x => ⟨some x, leastReached (fun a b =>
        LinkedAt oldPredictions threshold a b ∨ LinkedAt newPredictions threshold a b) x⟩) := by
  have hids : (seedNodes (records.map fun x => (⟨x, seed x⟩ : SeedRow N))).Nodup :=
    List.nodup_dedup _
  have hseeds : ∀ x ∈ records, seed x ∈ seedNodes (records.map fun x => ⟨x, seed x⟩) := by
    intro x hx
    rw [seedNodes, List.mem_dedup, List.map_map]
    exact List.mem_map_of_mem hx
  have hedges : ∀ row ∈ seedEdges newPredictions (records.map fun x => ⟨x, seed x⟩) threshold,
      row.nodeIdL ∈ seedNodes (records.map fun x => (⟨x, seed x⟩ : SeedRow N)) ∧
        row.nodeIdR ∈ seedNodes (records.map fun x => (⟨x, seed x⟩ : SeedRow N)) := by
    intro row hrow
    obtain ⟨p, _, _, hl, hr, rfl⟩ := mem_seedEdges.mp hrow
    exact ⟨hseeds _ hl, hseeds _ hr⟩
  have hlength : (seedNodes (records.map fun x => (⟨x, seed x⟩ : SeedRow N))).length < fuel := by
    apply lt_of_le_of_lt (List.dedup_sublist _).length_le
    rwa [List.length_map, List.length_map]
  obtain ⟨seedRows, hrun, hspec⟩ := @exists_clusterAtThreshold N P _ _ _ _ threshold hids hedges
  obtain ⟨hrows, hleast⟩ := hspec
  rw [incrementalCluster, allReps_eq hsubset hexisting hself]
  change Option.map _ (clusterAtThreshold fuel _ _ threshold) = _
  rw [clusterAtThreshold_mono hrun hlength, Option.map_some, expandRows_eq hids hseeds hrows]
  apply congrArg
  apply List.map_congr_left
  intro x hx
  have hmerged := LeastReached.of_contracted (fun a b hlink => hlink.symm) hseed
    (fun a b => linkedAt_seedEdges hbetween) (hleast _ (hseeds x hx))
  exact congrArg (ClusterRow.mk (some x)) hmerged.eq.symm

theorem leastReached_of_subset
    (hold : ∀ row ∈ oldPredictions, row.nodeIdL ∈ subset ∧ row.nodeIdR ∈ subset) {x : N}
    (hx : x ∉ subset) : LeastReached (LinkedAt oldPredictions threshold) x x := by
  refine ⟨.refl, ?_⟩
  intro y hwalk
  rcases Relation.ReflTransGen.cases_head hwalk with rfl | ⟨next, ⟨row, hrow, _, hends⟩, _⟩
  · exact le_refl _
  · rcases hends with ⟨rfl, _⟩ | ⟨_, rfl⟩
    · exact absurd (hold row hrow).1 hx
    · exact absurd (hold row hrow).2 hx

/-- Folding the new links into the existing clusters gives the clusters of all links. -/
theorem incremental_cluster_equals_reclustering (hrecords : records.Nodup)
    (hsubset : subset.Nodup)
    (hold : ∀ row ∈ oldPredictions, row.nodeIdL ∈ subset ∧ row.nodeIdR ∈ subset)
    (hall : ∀ row ∈ allPredictions, row.nodeIdL ∈ records ∧ row.nodeIdR ∈ records)
    (hsplit : (edgesFromPredict allPredictions threshold).Perm
      (edgesFromPredict oldPredictions threshold ++ edgesFromPredict newPredictions threshold))
    {oldFuel : ℕ} {oldRows : List (ClusterRow N)}
    (hclustered : clusterAtThreshold oldFuel subset oldPredictions threshold = some oldRows)
    (hexisting : existing.Perm oldRows) :
    ∃ rows allRows : List (ClusterRow N), rows.Perm allRows ∧
      ∀ fuel, records.length < fuel →
        incrementalCluster fuel records existing newPredictions threshold = some rows ∧
        clusterAtThreshold fuel records allPredictions threshold = some allRows := by
  obtain ⟨hrows, hleast⟩ := perm_of_clusterAtThreshold hsubset hold hclustered
  rcases @exists_clusterAtThreshold N P _ _ _ _ threshold hrecords hall with
    ⟨allRows, hrun, hallRows, _⟩
  have hself : ∀ x, x ∉ subset → leastReached (LinkedAt oldPredictions threshold) x = x :=
    fun x hx => (leastReached_of_subset hold hx).eq
  have hseed : ∀ x, LeastReached (LinkedAt oldPredictions threshold) x
      (leastReached (LinkedAt oldPredictions threshold) x) := by
    intro x
    by_cases hx : x ∈ subset
    · exact hleast x hx
    · rw [hself x hx]
      exact leastReached_of_subset hold hx
  have hedge : ∀ row, row ∈ edgesFromPredict allPredictions threshold ↔
      row ∈ edgesFromPredict oldPredictions threshold ∨
        row ∈ edgesFromPredict newPredictions threshold := by
    intro row
    rw [hsplit.mem_iff, List.mem_append]
  simp only [edgesFromPredict, List.mem_filter, decide_eq_true_eq] at hedge
  have hbetween : ∀ row ∈ newPredictions, threshold ≤ row.matchProbability →
      row.nodeIdL ∈ records ∧ row.nodeIdR ∈ records := fun row hrow hle =>
    hall row ((hedge row).mpr (.inr ⟨hrow, hle⟩)).1
  have hlinks : (fun a b => LinkedAt oldPredictions threshold a b ∨
      LinkedAt newPredictions threshold a b) = LinkedAt allPredictions threshold := by
    funext a b
    rw [eq_iff_iff, LinkedAt, LinkedAt, LinkedAt, ← exists_or]
    apply exists_congr
    intro row
    rw [← and_assoc, ← and_assoc, ← and_assoc, hedge row, or_and_right]
  refine ⟨records.map fun x => ⟨some x, leastReached (LinkedAt allPredictions threshold) x⟩,
    allRows, hallRows.symm, ?_⟩
  intro fuel hfuel
  constructor
  · rw [incrementalCluster_eq hsubset hseed hself (hexisting.trans hrows) hbetween hfuel, hlinks]
  · exact clusterAtThreshold_mono hrun hfuel

/-- Clusters of three records, with one new record and a new link that joins two of them. -/
theorem incremental_cluster_equals_reclustering_sample :
    ∃ rows allRows : List (ClusterRow ℕ), rows.Perm allRows ∧
      ∀ fuel, 4 < fuel →
        incrementalCluster fuel [5, 4, 3, 7] [⟨some 5, 4⟩, ⟨some 4, 4⟩, ⟨some 7, 7⟩]
          [⟨5, 7, 9⟩, ⟨4, 3, 1⟩] 5 = some rows ∧
        clusterAtThreshold fuel [5, 4, 3, 7] [⟨5, 7, 9⟩, ⟨5, 4, 8⟩] 5 = some allRows := by
  have hrecords : [5, 4, 3, 7].Nodup := by decide
  have hsubset : [5, 4, 7].Nodup := by decide
  have hold : ∀ row ∈ [(⟨5, 4, 8⟩ : Prediction ℕ ℕ)],
      row.nodeIdL ∈ [5, 4, 7] ∧ row.nodeIdR ∈ [5, 4, 7] := by decide
  have hall : ∀ row ∈ [(⟨5, 7, 9⟩ : Prediction ℕ ℕ), ⟨5, 4, 8⟩],
      row.nodeIdL ∈ [5, 4, 3, 7] ∧ row.nodeIdR ∈ [5, 4, 3, 7] := by decide
  have hsplit : (edgesFromPredict [(⟨5, 7, 9⟩ : Prediction ℕ ℕ), ⟨5, 4, 8⟩] 5).Perm
      (edgesFromPredict [⟨5, 4, 8⟩] 5 ++ edgesFromPredict [⟨5, 7, 9⟩, ⟨4, 3, 1⟩] 5) := by decide
  have hclustered : clusterAtThreshold 4 [5, 4, 7] [(⟨5, 4, 8⟩ : Prediction ℕ ℕ)] 5 =
      some [⟨some 7, 7⟩, ⟨some 5, 4⟩, ⟨some 4, 4⟩] := by decide
  have hexisting : ([⟨some 5, 4⟩, ⟨some 4, 4⟩, ⟨some 7, 7⟩] : List (ClusterRow ℕ)).Perm
      [⟨some 7, 7⟩, ⟨some 5, 4⟩, ⟨some 4, 4⟩] := by decide
  exact incremental_cluster_equals_reclustering hrecords hsubset hold hall hsplit hclustered
    hexisting

end Incremental

end EntityResolution.Dedupe
