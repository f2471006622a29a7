/-
# Predicting in chunks

A chunk keeps the pairs whose right record hashes to it. The filter stands in every arm
and in every marginal self-join, and everything downstream of it groups or joins by the
pair, so the blocked pairs of a chunk are the unchunked ones under the same filter. The
right record of a pair is in one chunk only, which makes the passes of a chunked run a
partition of the run in one shot.
-/

import EntityResolution.Blocking.Rules

namespace EntityResolution.Blocking

open EntityResolution.Relations

variable {Id : Type} [LinearOrder Id]

/-- A row of `__dedupe__predict`. -/
structure Prediction (Id Score : Type) where
  left : Record Id
  right : Record Id
  matchKey : String
  matchWeight : Score

section Predict

variable {Score : Type} [LE Score] [DecidableLE Score]

/-- Join the records back onto the blocked pairs, score each pair, and keep the rows at or
over the threshold. `score` is the compiled model with its term frequencies. -/
def predictTables (score : Record Id → Record Id → Score) (threshold : Option Score)
    (left right : List (Record Id)) (blocked : List (BlockedPair Id)) :
    List (Prediction Id Score) :=
  let withCols := blocked.flatMap fun b =>
    (innerJoin left right fun l r => l.uid == b.joinKeyL && r.uid == b.joinKeyR).map
      fun row => (⟨row.1, row.2, b.matchKey, score row.1 row.2⟩ : Prediction Id Score)
  match threshold with
  | some weight => withCols.filter fun row => weight ≤ row.matchWeight
  | none => withCols

/-- The predict pipeline over one concat. -/
def predictPipeline (score : Record Id → Record Id → Score) (threshold : Option Score)
    (concat : List (Record Id)) (blocked : List (BlockedPair Id)) :
    List (Prediction Id Score) :=
  predictTables score threshold concat concat blocked

variable (hash : Id → ℕ) (score : List (Record Id) → Record Id → Record Id → Score)

/-- The whole predict flow. `score concat` scores with the term frequencies of the concat. -/
def runPredict (settings : Settings Id) (threshold : Option Score)
    (input : List (Record Id)) : List (Prediction Id Score) :=
  predictPipeline (score input) threshold input (materializeBlockedPairs hash settings input)

/-- The rows of one pass. -/
def predictChunk (settings : Settings Id) (threshold : Option Score)
    (input : List (Record Id)) (numChunks i : ℕ) : List (Prediction Id Score) :=
  predictPipeline (score input) threshold input
    (materializeBlockedPairsChunk hash settings input (some (i, numChunks)))

/-- A pass's rows go into the accumulator table; the first pass's table becomes it. -/
def insertPart {Row : Type} (acc : Option (List Row)) (part : List Row) : Option (List Row) :=
  match acc with
  | none => some part
  | some rows => some (rows ++ part)

/-- Predict in `numChunks` passes. `none` is the error of a run without a pass. -/
def runPredictChunked (settings : Settings Id) (threshold : Option Score)
    (input : List (Record Id)) (numChunks : ℕ) : Option (List (Prediction Id Score)) :=
  if numChunks ≤ 1 then
    some (runPredict hash score settings threshold input)
  else
    (List.range numChunks).foldl
      (fun acc i => insertPart acc (predictChunk hash score settings threshold input numChunks i))
      none

end Predict

section Filter

variable (hash : Id → ℕ) (chunk : Option (ℕ × ℕ))

/-- A chunk's filter on a blocked pair. -/
def inChunk (row : BlockedPair Id) : Bool :=
  rightChunkFilter hash chunk row.joinKeyR

theorem marginalExplodedIdPairs_chunk (rule : BlockingRule Id)
    (preceding : List (BlockingRule Id)) (linkType : LinkType) (unnested : List (Record Id)) :
    marginalExplodedIdPairs hash rule preceding linkType unnested chunk =
      (marginalExplodedIdPairs hash rule preceding linkType unnested none).filter
        fun keys => rightChunkFilter hash chunk keys.2 := by
  simp only [marginalExplodedIdPairs, rightChunkFilter_none, Bool.and_true]
  rw [filter_dedup, List.filter_map]
  congr 2
  exact (filter_innerJoin unnested unnested _
    fun r : Record Id => rightChunkFilter hash chunk r.uid).symm

theorem find_marginalTables_chunk (rules : List (BlockingRule Id)) (linkType : LinkType)
    (concat : List (Record Id)) (index : ℕ) :
    (marginalTables hash rules linkType concat chunk).find? (fun m => m.1 == index) =
      ((marginalTables hash rules linkType concat none).find? fun m => m.1 == index).map
        fun m => (m.1, m.2.filter fun keys => rightChunkFilter hash chunk keys.2) := by
  simp only [marginalTables]
  generalize rules.zipIdx = entries
  induction entries with
  | nil => rfl
  | cons entry rest ih =>
    rw [List.filterMap_cons, List.filterMap_cons]
    by_cases hexp : entry.1.isExploding
    · simp only [if_pos hexp]
      by_cases hindex : entry.1.index = index
      · rw [List.find?_cons_of_pos (by simpa using hindex),
          List.find?_cons_of_pos (by simpa using hindex), Option.map_some,
          marginalExplodedIdPairs_chunk]
      · rw [List.find?_cons_of_neg (by simpa using hindex),
          List.find?_cons_of_neg (by simpa using hindex), ih]
    · simp only [if_neg hexp]
      exact ih

/-- Every arm carries the filter, the exploding ones inside their marginal table. -/
theorem blockedIdPairsArm_chunk (preceding : List (BlockingRule Id)) (rule : BlockingRule Id)
    (linkType : LinkType) (input : List (Record Id))
    (marginals chunked : List (ℕ × List (Id × Id)))
    (hmarginals : rule.isExploding = true →
      chunked.find? (fun m => m.1 == rule.index) =
        (marginals.find? fun m => m.1 == rule.index).map
          fun m => (m.1, m.2.filter fun keys => rightChunkFilter hash chunk keys.2)) :
    blockedIdPairsArm hash preceding rule linkType input chunked chunk =
      (blockedIdPairsArm hash preceding rule linkType input marginals none).filter
        (inChunk hash chunk) := by
  unfold blockedIdPairsArm
  by_cases hexp : rule.isExploding
  · rw [if_pos hexp, if_pos hexp, hmarginals hexp]
    cases marginals.find? fun m => m.1 == rule.index with
    | none => rfl
    | some marginal =>
      simp only [Option.map_some]
      rw [List.filter_map]
      rfl
  · rw [if_neg hexp, if_neg hexp, List.filter_map]
    congr 1
    simp only [rightChunkFilter_none, Bool.and_true]
    exact (filter_innerJoin input input _
      fun r : Record Id => rightChunkFilter hash chunk r.uid).symm

theorem blockedIdPairs_chunk (rules : List (BlockingRule Id)) (linkType : LinkType)
    (input : List (Record Id)) (marginals chunked : List (ℕ × List (Id × Id)))
    (hmarginals : ∀ rule ∈ rules, rule.isExploding = true →
      chunked.find? (fun m => m.1 == rule.index) =
        (marginals.find? fun m => m.1 == rule.index).map
          fun m => (m.1, m.2.filter fun keys => rightChunkFilter hash chunk keys.2)) :
    blockedIdPairs hash rules linkType input chunked chunk =
      (blockedIdPairs hash rules linkType input marginals none).filter
        (inChunk hash chunk) := by
  simp only [blockedIdPairs]
  rw [List.filter_flatMap]
  apply List.flatMap_congr
  intro entry hentry
  apply blockedIdPairsArm_chunk
  intro hexp
  have hmem : entry.1 ∈ rulesOrCartesian rules := List.fst_mem_of_mem_zipIdx hentry
  unfold rulesOrCartesian at hmem
  split at hmem
  · rw [List.mem_singleton] at hmem
    rw [hmem] at hexp
    simp [BlockingRule.isExploding, cartesianRule] at hexp
  · exact hmarginals entry.1 hmem hexp

theorem dedupNonUnique_filter (rows : List (BlockedPair Id)) :
    dedupNonUnique (rows.filter (inChunk hash chunk)) =
      (dedupNonUnique rows).filter (inChunk hash chunk) := by
  have hgroups := filter_groupMin BlockedPair.keys BlockedPair.matchKey rows
    fun keys : Id × Id => rightChunkFilter hash chunk keys.2
  have hkeys : rows.filter (inChunk hash chunk) =
      rows.filter fun row => rightChunkFilter hash chunk row.keys.2 := rfl
  rw [dedupNonUnique, dedupNonUnique, List.filter_map, hkeys, ← hgroups]
  rfl

theorem materializeBlockedPairsChunk_eq (settings : Settings Id) (concat : List (Record Id)) :
    materializeBlockedPairsChunk hash settings concat chunk =
      (materializeBlockedPairs hash settings concat).filter (inChunk hash chunk) := by
  unfold materializeBlockedPairs materializeBlockedPairsChunk
  by_cases hexp : settings.blockingRules.any BlockingRule.isExploding
  · rw [if_pos hexp, if_pos hexp]
    simp only [materializeBlockedPairsExploding]
    rw [blockedIdPairs_chunk hash chunk settings.blockingRules settings.linkType concat
        (marginalTables hash settings.blockingRules settings.linkType concat none)
        (marginalTables hash settings.blockingRules settings.linkType concat chunk),
      dedupNonUnique_filter]
    intro rule _ _
    exact find_marginalTables_chunk hash chunk _ _ _ _
  · rw [if_neg hexp, if_neg hexp]
    apply blockedIdPairs_chunk
    intro rule hrule hrexp
    exact absurd (List.any_eq_true.mpr ⟨rule, hrule, hrexp⟩) hexp

end Filter

section Partition

variable (hash : Id → ℕ) (settings : Settings Id) (concat : List (Record Id))

theorem materializeBlockedPairsChunk_eq_residue {n : ℕ} (hn : 1 < n) (i : ℕ) :
    materializeBlockedPairsChunk hash settings concat (some (i, n)) =
      residue (fun row : BlockedPair Id => hash row.joinKeyR) n i
        (materializeBlockedPairs hash settings concat) := by
  rw [materializeBlockedPairsChunk_eq, residue]
  apply List.filter_congr
  intro row _
  simp [inChunk, rightChunkFilter, hn, beq_eq_decide]

/-- One chunk of one is everything. -/
theorem materializeBlockedPairsChunk_one :
    materializeBlockedPairsChunk hash settings concat (some (0, 1)) =
      materializeBlockedPairs hash settings concat := by
  rw [materializeBlockedPairsChunk_eq, List.filter_eq_self]
  intro row _
  simp [inChunk, rightChunkFilter]

theorem blockedChunks_perm {n : ℕ} (hn : 0 < n) :
    ((List.range n).flatMap fun i =>
        materializeBlockedPairsChunk hash settings concat (some (i, n))).Perm
      (materializeBlockedPairs hash settings concat) := by
  rcases Nat.lt_or_ge 1 n with hmany | hone
  · simp only [materializeBlockedPairsChunk_eq_residue hash settings concat hmany]
    exact flatMap_residue_perm _ hn _
  · obtain rfl : n = 1 := by omega
    simp [materializeBlockedPairsChunk_one]

theorem disjoint_blockedChunks {n i j : ℕ} (hi : i < n) (hj : j < n) (hne : i ≠ j) :
    (materializeBlockedPairsChunk hash settings concat (some (i, n))).Disjoint
      (materializeBlockedPairsChunk hash settings concat (some (j, n))) := by
  have hmany : 1 < n := by omega
  rw [materializeBlockedPairsChunk_eq_residue hash settings concat hmany,
    materializeBlockedPairsChunk_eq_residue hash settings concat hmany]
  exact disjoint_residue _ hne _

variable {Score : Type} [LE Score] [DecidableLE Score]

/-- Scoring works row by row, so the parts of a union are scored apart. -/
theorem predictPipeline_flatMap (score : Record Id → Record Id → Score)
    (threshold : Option Score) (parts : ℕ → List (BlockedPair Id)) (chunks : List ℕ) :
    predictPipeline score threshold concat (chunks.flatMap parts) =
      chunks.flatMap fun i => predictPipeline score threshold concat (parts i) := by
  cases threshold with
  | none => simp only [predictPipeline, predictTables, List.flatMap_assoc]
  | some weight => simp only [predictPipeline, predictTables, List.flatMap_assoc,
    List.filter_flatMap]

theorem predictPipeline_perm (score : Record Id → Record Id → Score)
    (threshold : Option Score) {blocked blocked' : List (BlockedPair Id)}
    (hperm : blocked.Perm blocked') :
    (predictPipeline score threshold concat blocked).Perm
      (predictPipeline score threshold concat blocked') := by
  cases threshold with
  | none => exact hperm.flatMap_right _
  | some weight => exact (hperm.flatMap_right _).filter _

theorem foldl_insertPart {Row : Type} (part : ℕ → List Row) (chunks : List ℕ)
    (rows : List Row) :
    chunks.foldl (fun acc i => insertPart acc (part i)) (some rows) =
      some (rows ++ chunks.flatMap part) := by
  induction chunks generalizing rows with
  | nil => simp
  | cons i rest ih =>
    rw [List.foldl_cons, insertPart, ih, List.flatMap_cons, List.append_assoc]

theorem runPredictChunked_eq (score : List (Record Id) → Record Id → Record Id → Score)
    (threshold : Option Score) {numChunks : ℕ} (hmany : 1 < numChunks) :
    runPredictChunked hash score settings threshold concat numChunks =
      some ((List.range numChunks).flatMap
        (predictChunk hash score settings threshold concat numChunks)) := by
  obtain ⟨later, rfl⟩ : ∃ later, numChunks = later + 1 := ⟨numChunks - 1, by omega⟩
  rw [runPredictChunked, if_neg (by omega), List.range_succ_eq_map, List.foldl_cons,
    List.flatMap_cons]
  exact foldl_insertPart _ _ _

/-- A chunked run returns the rows of the run in one shot, and its passes block pairwise
disjoint sets of pairs that make up the unchunked one. -/
theorem runPredictChunked_perm (score : List (Record Id) → Record Id → Record Id → Score)
    (threshold : Option Score) (numChunks : ℕ) :
    (∃ rows, runPredictChunked hash score settings threshold concat numChunks = some rows ∧
      rows.Perm (runPredict hash score settings threshold concat)) ∧
    (∀ i j, i < numChunks → j < numChunks → i ≠ j →
      (materializeBlockedPairsChunk hash settings concat (some (i, numChunks))).Disjoint
        (materializeBlockedPairsChunk hash settings concat (some (j, numChunks)))) ∧
    (0 < numChunks →
      ((List.range numChunks).flatMap fun i =>
        materializeBlockedPairsChunk hash settings concat (some (i, numChunks))).Perm
          (materializeBlockedPairs hash settings concat)) := by
  constructor
  · rcases Nat.lt_or_ge 1 numChunks with hmany | hfew
    · refine ⟨_, runPredictChunked_eq hash settings concat score threshold hmany, ?_⟩
      have hparts := predictPipeline_flatMap concat (score concat) threshold
        (fun i => materializeBlockedPairsChunk hash settings concat (some (i, numChunks)))
        (List.range numChunks)
      have hwhole := predictPipeline_perm concat (score concat) threshold
        (blockedChunks_perm hash settings concat (n := numChunks) (by omega))
      rw [hparts] at hwhole
      exact hwhole
    · refine ⟨_, if_pos hfew, List.Perm.refl _⟩
  · constructor
    · intro i j hi hj hne
      exact disjoint_blockedChunks hash settings concat hi hj hne
    · exact blockedChunks_perm hash settings concat

end Partition

end EntityResolution.Blocking
