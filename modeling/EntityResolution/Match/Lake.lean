/-
# The match tables and their statements

A match pass writes two tables. `match_scores` holds one row per pair of records and model
identity, with the score, the content hashes it was computed from and whether it is
active. `scored_records` is the ledger of what was scored: one row per record and model
identity, with the content hash the record had then.

The passes write them through six statements: the retirement of the models a run does not
use, in the scores and in the ledger; the invalidation of the scores a pass is about to
supersede; the merge of its scores; the merge of the records it scored; and the pruning of
the records that left the corpus. Each commits on its own.

A model identity is the pair of a model version and a term-frequency snapshot. Record keys
and identities are any linear orders, and scores any linear order. The content-derived row
ids are left out: no statement reads them.
-/

import EntityResolution.Foundations.Tables

namespace EntityResolution.Match

open EntityResolution.Collections EntityResolution.Tables

universe u v w x y z

variable {K : Type u} {H : Type v} {Row : Type w} {S : Type x} {E : Type y} {I : Type z}

/-- The logical key of `match_scores`: the canonical pair and the model identity. -/
structure ScoreKey (K : Type u) (I : Type z) where
  recAKey : K
  recBKey : K
  identity : I
  deriving DecidableEq

/-- The logical key of `scored_records`: the record and the model identity. -/
structure LedgerKey (K : Type u) (I : Type z) where
  recordKey : K
  identity : I
  deriving DecidableEq

instance [LinearOrder K] [LinearOrder I] : LinearOrder (ScoreKey K I) :=
  LinearOrder.lift' (fun key => toLex (key.recAKey, toLex (key.recBKey, key.identity))) (by
    intro first second hsame
    cases first
    cases second
    simpa using hsame)

instance ScoreKey.transCmp_compare (K : Type u) (I : Type z) [LinearOrder K] [LinearOrder I] :
    Std.TransCmp (compare : ScoreKey K I → ScoreKey K I → Ordering) :=
  Collections.transCmp_compare (ScoreKey K I)

instance [LinearOrder K] [LinearOrder I] : LinearOrder (LedgerKey K I) :=
  LinearOrder.lift' (fun key => toLex (key.recordKey, key.identity)) (by
    intro first second hsame
    cases first
    cases second
    simpa using hsame)

instance LedgerKey.transCmp_compare (K : Type u) (I : Type z) [LinearOrder K] [LinearOrder I] :
    Std.TransCmp (compare : LedgerKey K I → LedgerKey K I → Ordering) :=
  Collections.transCmp_compare (LedgerKey K I)

/-- The run id and the logical scoring time a pass stamps its rows with. -/
structure RunStamp where
  runId : String
  scoredAt : ℤ
  deriving DecidableEq

/-- A row of `match_scores` under its key. -/
structure MatchScore (H : Type v) (S : Type x) (E : Type y) where
  matchProbability : S
  recAContentHash : H
  recBContentHash : H
  evidence : E
  isActive : Bool
  invalidatedAt : Option ℤ
  invalidatedRunId : Option String
  runId : String
  scoredAt : ℤ
  createdAt : ℤ
  updatedAt : ℤ
  deriving DecidableEq

/-- A row of `scored_records` under its key. -/
structure ScoredRecord (H : Type v) where
  contentHash : H
  runId : String
  scoredAt : ℤ
  createdAt : ℤ
  updatedAt : ℤ
  deriving DecidableEq

/-- A standardized record under its key: its content hash and the columns the models see. -/
structure StdRecord (H : Type v) (Row : Type w) where
  contentHash : H
  row : Row
  deriving DecidableEq

/-- The standardized corpus: one current record per record key. -/
abbrev Corpus (K : Type u) (H : Type v) (Row : Type w) [LinearOrder K] : Type (max u v w) :=
  BTreeMap K (StdRecord H Row)

/-- The two tables of the match stage. -/
structure Lake (K : Type u) (H : Type v) (S : Type x) (E : Type y) (I : Type z)
    [LinearOrder K] [LinearOrder I] where
  matchScores : BTreeMap (ScoreKey K I) (MatchScore H S E)
  scoredRecords : BTreeMap (LedgerKey K I) (ScoredRecord H)

/-- A row staged for the merge into `match_scores`. -/
structure StagedScore (H : Type v) (S : Type x) (E : Type y) where
  matchProbability : S
  recAContentHash : H
  recBContentHash : H
  evidence : E
  deriving DecidableEq

/-- `StaleScope`: which previously scored records a pass is about to supersede. -/
inductive StaleScope (K : Type u)
  | everyActive
  | records (keys : List K)
  deriving DecidableEq

variable [LinearOrder K] [LinearOrder I]

/-- The lake before the first pass. -/
def Lake.fresh : Lake K H S E I := ⟨∅, ∅⟩

/-- Both updates that deactivate a score stamp it the same way. -/
def MatchScore.deactivate (stamp : RunStamp) (row : MatchScore H S E) : MatchScore H S E :=
  { row with
    isActive := false
    invalidatedAt := some stamp.scoredAt
    invalidatedRunId := some stamp.runId
    updatedAt := stamp.scoredAt }

/-- The scores `retire_other_models` deactivates: active, and of no live identity. -/
def retiredHit (live : List I) (key : ScoreKey K I) (row : MatchScore H S E) : Bool :=
  row.isActive && !live.contains key.identity

/-- `match_score/update/retire_other_models`. -/
def retireOtherModels (live : List I) (stamp : RunStamp) (lake : Lake K H S E I) :
    Lake K H S E I :=
  { lake with
    matchScores :=
      updateWhere lake.matchScores (retiredHit live) (MatchScore.deactivate stamp) }

/-- `scored_record/delete/absent_from_live_models`. -/
def absentFromLiveModels (live : List I) (lake : Lake K H S E I) : Lake K H S E I :=
  { lake with
    scoredRecords :=
      deleteWhere lake.scoredRecords fun key _ => !live.contains key.identity }

/-- The record keys staged as `__match_stale`. A full pass stages both ends of every active
score of the model. -/
def staleKeys (identity : I) (lake : Lake K H S E I) : StaleScope K → List K
  | .everyActive =>
      let active := lake.matchScores.filter fun key row =>
        row.isActive && key.identity = identity
      active.keys.flatMap fun key => [key.recAKey, key.recBKey]
  | .records keys => keys

/-- The scores `invalidate_stale` deactivates: active, of the model, with an end among the
stale keys. -/
def staleHit (identity : I) (stale : List K) (key : ScoreKey K I) (row : MatchScore H S E) :
    Bool :=
  row.isActive && key.identity = identity &&
    (stale.contains key.recAKey || stale.contains key.recBKey)

/-- `invalidate_superseded_scores`: stage the stale keys, then `invalidate_stale`. -/
def invalidateSupersededScores (identity : I) (scope : StaleScope K) (stamp : RunStamp)
    (lake : Lake K H S E I) : Lake K H S E I :=
  { lake with
    matchScores :=
      updateWhere lake.matchScores (staleHit identity (staleKeys identity lake scope))
        (MatchScore.deactivate stamp) }

/-- A score merged onto an existing row: rewritten in place, with any invalidation cleared. -/
def rescored (stamp : RunStamp) (staged : StagedScore H S E) (row : MatchScore H S E) :
    MatchScore H S E :=
  { row with
    matchProbability := staged.matchProbability
    recAContentHash := staged.recAContentHash
    recBContentHash := staged.recBContentHash
    evidence := staged.evidence
    isActive := true
    invalidatedAt := none
    invalidatedRunId := none
    runId := stamp.runId
    scoredAt := stamp.scoredAt
    updatedAt := stamp.scoredAt }

/-- A score merged as a new row. -/
def inserted (stamp : RunStamp) (staged : StagedScore H S E) : MatchScore H S E where
  matchProbability := staged.matchProbability
  recAContentHash := staged.recAContentHash
  recBContentHash := staged.recBContentHash
  evidence := staged.evidence
  isActive := true
  invalidatedAt := none
  invalidatedRunId := none
  runId := stamp.runId
  scoredAt := stamp.scoredAt
  createdAt := stamp.scoredAt
  updatedAt := stamp.scoredAt

/-- `match_score/update/upsert_from_scored`. -/
def upsertFromScored (source : BTreeMap (ScoreKey K I) (StagedScore H S E)) (stamp : RunStamp)
    (lake : Lake K H S E I) : Lake K H S E I :=
  { lake with
    matchScores := mergeInto lake.matchScores source (rescored stamp) (inserted stamp) }

/-- The rows staged as `__scored_src`: the scored records under the model's identity. -/
def scoredSource (identity : I) (scored : Corpus K H Row) : BTreeMap (LedgerKey K I) H :=
  Std.ExtTreeMap.ofList
    (scored.toList.map fun entry => (⟨entry.1, identity⟩, entry.2.contentHash)) compare

/-- `scored_record/update/upsert_from_std`. -/
def upsertFromStd (identity : I) (scored : Corpus K H Row) (stamp : RunStamp)
    (lake : Lake K H S E I) : Lake K H S E I :=
  { lake with
    scoredRecords := mergeInto lake.scoredRecords (scoredSource identity scored)
      (fun contentHash row =>
        { row with
          contentHash
          runId := stamp.runId
          scoredAt := stamp.scoredAt
          updatedAt := stamp.scoredAt })
      fun contentHash =>
        ⟨contentHash, stamp.runId, stamp.scoredAt, stamp.scoredAt, stamp.scoredAt⟩ }

/-- `scored_record/delete/absent_from_std`. The statement names no model identity. -/
def absentFromStd (std : Corpus K H Row) (lake : Lake K H S E I) : Lake K H S E I :=
  { lake with
    scoredRecords := deleteWhere lake.scoredRecords fun key _ => !std.contains key.recordKey }

/-- One statement of a match pass, as it is sent to the lake. -/
inductive Statement (K : Type u) (H : Type v) (Row : Type w) (S : Type x) (E : Type y)
    (I : Type z) [LinearOrder K] [LinearOrder I]
  | retireOtherModels (live : List I) (stamp : RunStamp)
  | absentFromLiveModels (live : List I)
  | invalidateStale (identity : I) (scope : StaleScope K) (stamp : RunStamp)
  | upsertFromScored (source : BTreeMap (ScoreKey K I) (StagedScore H S E)) (stamp : RunStamp)
  | upsertFromStd (identity : I) (scored : Corpus K H Row) (stamp : RunStamp)
  | absentFromStd (std : Corpus K H Row)

/-- What a statement does to the lake when it commits. -/
def Statement.exec (lake : Lake K H S E I) : Statement K H Row S E I → Lake K H S E I
  | .retireOtherModels live stamp => Match.retireOtherModels live stamp lake
  | .absentFromLiveModels live => Match.absentFromLiveModels live lake
  | .invalidateStale identity scope stamp =>
      invalidateSupersededScores identity scope stamp lake
  | .upsertFromScored source stamp => Match.upsertFromScored source stamp lake
  | .upsertFromStd identity scored stamp => Match.upsertFromStd identity scored stamp lake
  | .absentFromStd std => Match.absentFromStd std lake

/-- Commit a sequence of statements, one after the other. -/
def commit (lake : Lake K H S E I) (statements : List (Statement K H Row S E I)) :
    Lake K H S E I :=
  statements.foldl Statement.exec lake

@[simp]
theorem commit_cons (lake : Lake K H S E I) (statement : Statement K H Row S E I)
    (statements : List (Statement K H Row S E I)) :
    commit lake (statement :: statements) = commit (Statement.exec lake statement) statements :=
  rfl

theorem commit_append (lake : Lake K H S E I) (first second : List (Statement K H Row S E I)) :
    commit lake (first ++ second) = commit (commit lake first) second :=
  List.foldl_append

/-- What an active score says: the score, and the content hashes of its two records. -/
structure Verdict (H : Type v) (S : Type x) where
  matchProbability : S
  recAContentHash : H
  recBContentHash : H
  deriving DecidableEq

def StagedScore.verdict (staged : StagedScore H S E) : Verdict H S :=
  ⟨staged.matchProbability, staged.recAContentHash, staged.recBContentHash⟩

def MatchScore.verdict (row : MatchScore H S E) : Verdict H S :=
  ⟨row.matchProbability, row.recAContentHash, row.recBContentHash⟩

/-- The active score of a pair under a model identity, if there is one. -/
def activeVerdict (lake : Lake K H S E I) (identity : I) (a b : K) : Option (Verdict H S) :=
  (lake.matchScores[(⟨a, b, identity⟩ : ScoreKey K I)]?.filter MatchScore.isActive).map
    MatchScore.verdict

/-- The content hash under which the ledger says a model scored a record. -/
def scoredHash (lake : Lake K H S E I) (identity : I) (key : K) : Option H :=
  lake.scoredRecords[(⟨key, identity⟩ : LedgerKey K I)]?.map ScoredRecord.contentHash

/-- The content hash of a corpus record. -/
def contentHash (corpus : Corpus K H Row) (key : K) : Option H :=
  corpus[key]?.map StdRecord.contentHash

end EntityResolution.Match
