/-
# Match passes

A pass scores the standardized corpus with one or more models and writes what it found
through the statements of `Match.Lake`. A full pass scores every candidate pair of the
corpus. A partial pass scores the pairs with an end in the delta: the records the ledger
does not list under their present content hash, and those a segment predicate selects.

A pass is given as the list of statements it sends from a given lake, in order. Committing
the list is the completed pass; committing a prefix of it is the pass cut off there.

A member's blocking rules, scores and evidence come from the scoring engine and are
functions of the two rows here. The engine computes them from the columns of the rows and
from frozen parameters; the compiled models are dedupe-only and explode no array, so the
blocking within a table and the one between two tables join on one predicate. The pass
refuses a member whose term-frequency snapshot is empty; such a pass sends no statement of
that member.
-/

import EntityResolution.Match.Lake

namespace EntityResolution.Match

open EntityResolution.Collections EntityResolution.Tables

universe u v w x y z

variable {K : Type u} {H : Type v} {Row : Type w} {S : Type x} {E : Type y} {I : Type z}

/-- `EnsembleMember`: a model identity with what its model computes on a pair of rows, the
left row first. -/
structure EnsembleMember (Row : Type w) (S : Type x) (E : Type y) (I : Type z) where
  identity : I
  candidate : Row → Row → Bool
  score : Row → Row → S
  evidence : Row → Row → E

/-- `CombineMode`: score every candidate pair, or only those no earlier member matched. -/
inductive CombineMode
  | andRun
  | thenRun
  deriving DecidableEq

/-- The entry of `models` for one member. -/
structure ModelSpec (S : Type x) where
  mode : CombineMode
  threshold : Option S

/-- The part of the configuration a match pass reads. -/
structure Config (S : Type x) where
  models : List (ModelSpec S)
  autoMerge : S

/-- `member_thresholds`: each member's threshold, the corpus-wide one by default and for
every member when the two lists differ in length. -/
def memberThresholds (config : Config S) (members : List (EnsembleMember Row S E I)) : List S :=
  if config.models.length = members.length then
    config.models.map fun spec => spec.threshold.getD config.autoMerge
  else
    List.replicate members.length config.autoMerge

/-- One row of a prediction table. -/
structure Prediction (K : Type u) (S : Type x) (E : Type y) where
  uidL : K
  uidR : K
  matchProbability : S
  evidence : E

/-- A record with its key. -/
abbrev Keyed (K : Type u) (H : Type v) (Row : Type w) := K × StdRecord H Row

/-- Score one blocked pair. -/
def predictPair (member : EnsembleMember Row S E I) (pair : Keyed K H Row × Keyed K H Row) :
    Prediction K S E where
  uidL := pair.1.1
  uidR := pair.2.1
  matchProbability := member.score pair.1.2.row pair.2.2.row
  evidence := member.evidence pair.1.2.row pair.2.2.row

variable [LinearOrder K]

/-- `materialize_blocked_pairs`: the candidate pairs within one table, smaller key left. -/
def blockedPairs (member : EnsembleMember Row S E I) (input : Corpus K H Row) :
    List (Keyed K H Row × Keyed K H Row) :=
  (input.toList ×ˢ input.toList).filter fun pair =>
    pair.1.1 < pair.2.1 && member.candidate pair.1.2.row pair.2.2.row

/-- `blocked_id_pairs_cross_sql`: the candidate pairs between two tables, whatever the
order of their keys. -/
def blockedPairsCross (member : EnsembleMember Row S E I) (left right : Corpus K H Row) :
    List (Keyed K H Row × Keyed K H Row) :=
  (left.toList ×ˢ right.toList).filter fun pair =>
    member.candidate pair.1.2.row pair.2.2.row

/-- `predict_between`. -/
def predictBetween (member : EnsembleMember Row S E I) (existing new : Corpus K H Row) :
    List (Prediction K S E) :=
  (blockedPairsCross member existing new).map (predictPair member)

/-- `predict_within`. -/
def predictWithin (member : EnsembleMember Row S E I) (input : Corpus K H Row) :
    List (Prediction K S E) :=
  (blockedPairs member input).map (predictPair member)

variable [LinearOrder I] [LinearOrder S]

/-- Whether an earlier member has an active score of the pair at or above its threshold. -/
def matchedEarlier (lake : Lake K H S E I) (earlier : List (I × S)) (a b : K) : Bool :=
  earlier.any fun member =>
    match lake.matchScores[(⟨a, b, member.1⟩ : ScoreKey K I)]? with
    | some row => row.isActive && member.2 ≤ row.matchProbability
    | none => false

/-- `predict_member`: block, drop the pairs an earlier member matched, score the rest. -/
def predictMember (member : EnsembleMember Row S E I) (input : Corpus K H Row)
    (lake : Lake K H S E I) (cascadeAfter : Option (List (I × S))) : List (Prediction K S E) :=
  let blocked := blockedPairs member input
  let scored :=
    match cascadeAfter with
    | none | some [] => blocked
    | some earlier => blocked.filter fun pair => !matchedEarlier lake earlier pair.1.1 pair.2.1
  scored.map (predictPair member)

/-- The canonical pair of a prediction, under the model's identity. -/
def Prediction.scoreKey (identity : I) (prediction : Prediction K S E) : ScoreKey K I :=
  ⟨min prediction.uidL prediction.uidR, max prediction.uidL prediction.uidR, identity⟩

/-- The predictions of two different records at or above `review_low`, of all tables. -/
def rawScores (reviewLow : S) (predictions : List (List (Prediction K S E))) :
    List (Prediction K S E) :=
  predictions.flatten.filter fun prediction =>
    prediction.uidL ≠ prediction.uidR && reviewLow ≤ prediction.matchProbability

/-- The rows staged as `__match_src`: the best prediction per pair, joined with the content
hashes of both ends. -/
def stageScores (identity : I) (reviewLow : S) (std : Corpus K H Row)
    (predictions : List (List (Prediction K S E))) : BTreeMap (ScoreKey K I) (StagedScore H S E) :=
  let scored := distinctOn (Prediction.scoreKey identity) Prediction.matchProbability
    (rawScores reviewLow predictions)
  scored.filterMap fun key prediction =>
    std[key.recAKey]?.bind fun ra => std[key.recBKey]?.map fun rb =>
      ⟨prediction.matchProbability, ra.contentHash, rb.contentHash, prediction.evidence⟩

/-- `stage_and_upsert_scores`: nothing is written when there is no prediction table. -/
def stageAndUpsertScores (identity : I) (reviewLow : S) (stamp : RunStamp) (std : Corpus K H Row)
    (predictions : List (List (Prediction K S E))) : List (Statement K H Row S E I) :=
  match predictions with
  | [] => []
  | tables => [.upsertFromScored (stageScores identity reviewLow std tables) stamp]

/-- `sync_scored_ledger`: claim the scored records, then drop what left the corpus. -/
def syncScoredLedger (identity : I) (stamp : RunStamp) (std scored : Corpus K H Row) :
    List (Statement K H Row S E I) :=
  [.upsertFromStd identity scored stamp, .absentFromStd std]

/-- The two statements of `retire_other_models`. -/
def retireStatements (live : List I) (stamp : RunStamp) : List (Statement K H Row S E I) :=
  [.retireOtherModels live stamp, .absentFromLiveModels live]

/-- `score_member_full`: score the whole corpus and claim all of it. -/
def scoreMemberFull (member : EnsembleMember Row S E I) (reviewLow : S) (stamp : RunStamp)
    (std : Corpus K H Row) (cascadeAfter : Option (List (I × S))) (lake : Lake K H S E I) :
    List (Statement K H Row S E I) :=
  [.invalidateStale member.identity .everyActive stamp] ++
    stageAndUpsertScores member.identity reviewLow stamp std
      [predictMember member std lake cascadeAfter] ++
    syncScoredLedger member.identity stamp std std

/-- The ledger rows of a model identity. -/
def scoredRows (identity : I) (lake : Lake K H S E I) : ℕ :=
  countWhere lake.scoredRecords fun key _ => key.identity = identity

variable [DecidableEq H]

/-- Whether the ledger lists a record under its present content hash for the model. -/
def alreadyScored (identity : I) (lake : Lake K H S E I) (key : K) (record : StdRecord H Row) :
    Bool :=
  lake.scoredRecords[(⟨key, identity⟩ : LedgerKey K I)]?.any fun row =>
    row.contentHash = record.contentHash

/-- `coalesce(p, false)`: a row on which the predicate is NULL is out of scope, and so is
every row of a pass without a segment. -/
def inScope (segment : Option (Row → Option Bool)) (record : StdRecord H Row) : Bool :=
  match segment with
  | some predicate => (predicate record.row).getD false
  | none => false

/-- `__inc_delta_std`. -/
def deltaStd (identity : I) (segment : Option (Row → Option Bool)) (std : Corpus K H Row)
    (lake : Lake K H S E I) : Corpus K H Row :=
  std.filter fun key record => !alreadyScored identity lake key record || inScope segment record

/-- `__inc_kept_std`. -/
def keptStd (identity : I) (segment : Option (Row → Option Bool)) (std : Corpus K H Row)
    (lake : Lake K H S E I) : Corpus K H Row :=
  std.filter fun key record => alreadyScored identity lake key record && !inScope segment record

/-- The records of the ledger that left the corpus, under whatever identity they stand. -/
def departedKeys (std : Corpus K H Row) (lake : Lake K H S E I) : List K :=
  (lake.scoredRecords.keys.map LedgerKey.recordKey).filter fun key => !std.contains key

/-- The records whose scores a partial pass supersedes: the delta, and what left. -/
def supersededKeys (identity : I) (segment : Option (Row → Option Bool)) (std : Corpus K H Row)
    (lake : Lake K H S E I) : List K :=
  (deltaStd identity segment std lake).keys ++ departedKeys std lake

/-- What a partial pass invalidates. -/
def partialScope (identity : I) (segment : Option (Row → Option Bool)) (std : Corpus K H Row)
    (lake : Lake K H S E I) : StaleScope K :=
  .records (supersededKeys identity segment std lake)

/-- The prediction tables of a partial pass: delta against the rest, unless the whole
corpus is the delta, and delta against itself. -/
def partialPredictions (member : EnsembleMember Row S E I) (segment : Option (Row → Option Bool))
    (std : Corpus K H Row) (lake : Lake K H S E I) : List (List (Prediction K S E)) :=
  let delta := deltaStd member.identity segment std lake
  let kept := keptStd member.identity segment std lake
  (if delta.size < delta.size + kept.size then [predictBetween member kept delta] else []) ++
    [predictWithin member delta]

/-- `run_match_partial`: one member's incremental or segment pass, a full pass of that
member when the ledger has no row of its identity. -/
def runMatchPartial (member : EnsembleMember Row S E I) (live : List I) (reviewLow : S)
    (stamp : RunStamp) (segment : Option (Row → Option Bool)) (std : Corpus K H Row)
    (lake : Lake K H S E I) : List (Statement K H Row S E I) :=
  if scoredRows member.identity lake = 0 then
    -- no cascade on a fallback
    retireStatements live stamp ++ scoreMemberFull member reviewLow stamp std none lake
  else
    let delta := deltaStd member.identity segment std lake
    [.invalidateStale member.identity (partialScope member.identity segment std lake) stamp] ++
      retireStatements live stamp ++
      (if 0 < delta.size then
        stageAndUpsertScores member.identity reviewLow stamp std
          (partialPredictions member segment std lake)
      else []) ++
      syncScoredLedger member.identity stamp std delta

/-- The loop of `run_match_ensemble`: the members in declaration order, each with its
threshold and index, and the members before it. -/
def scoreMembers (config : Config S) (reviewLow : S) (stamp : RunStamp) (std : Corpus K H Row) :
    List ((EnsembleMember Row S E I × S) × ℕ) → List (I × S) → Lake K H S E I →
      List (Statement K H Row S E I)
  | [], _, _ => []
  | ((member, threshold), index) :: rest, earlier, lake =>
      let cascade :=
        match config.models[index]?.map ModelSpec.mode with
        | some .thenRun => some earlier
        | _ => none
      let here := scoreMemberFull member reviewLow stamp std cascade lake
      here ++ scoreMembers config reviewLow stamp std rest
        (earlier ++ [(member.identity, threshold)]) (commit lake here)

/-- `run_match_ensemble`: retire the other models once, then score every member in full. -/
def runMatchEnsemble (config : Config S) (members : List (EnsembleMember Row S E I))
    (reviewLow : S) (stamp : RunStamp) (std : Corpus K H Row) (lake : Lake K H S E I) :
    List (Statement K H Row S E I) :=
  let retire := retireStatements (members.map EnsembleMember.identity) stamp
  retire ++ scoreMembers config reviewLow stamp std
    (members.zip (memberThresholds config members)).zipIdx [] (commit lake retire)

/-- The loop of `run_match_ensemble_incremental`. -/
def partialMembers (live : List I) (reviewLow : S) (stamp : RunStamp)
    (segment : Option (Row → Option Bool)) (std : Corpus K H Row) :
    List (EnsembleMember Row S E I) → Lake K H S E I → List (Statement K H Row S E I)
  | [], _ => []
  | member :: members, lake =>
      let here := runMatchPartial member live reviewLow stamp segment std lake
      here ++ partialMembers live reviewLow stamp segment std members (commit lake here)

/-- `run_match_ensemble_incremental`: every member in turn, each with the whole live set. -/
def runMatchEnsembleIncremental (members : List (EnsembleMember Row S E I)) (reviewLow : S)
    (stamp : RunStamp) (segment : Option (Row → Option Bool)) (std : Corpus K H Row)
    (lake : Lake K H S E I) : List (Statement K H Row S E I) :=
  partialMembers (members.map EnsembleMember.identity) reviewLow stamp segment std members lake

/-- A pass of one model: `run_match`, or `run_match_partial` as `run_match_incremental`
calls it without a predicate and `run_match_segment` with one. -/
inductive MatchPass (Row : Type w) (S : Type x)
  | full (config : Config S)
  | incremental (segment : Option (Row → Option Bool))

/-- The statements a pass of one model sends. -/
def MatchPass.statements (member : EnsembleMember Row S E I) (reviewLow : S) (stamp : RunStamp)
    (std : Corpus K H Row) (lake : Lake K H S E I) :
    MatchPass Row S → List (Statement K H Row S E I)
  | .full config => runMatchEnsemble config [member] reviewLow stamp std lake
  | .incremental segment =>
      runMatchPartial member [member.identity] reviewLow stamp segment std lake

/-- The scores a pass of one model invalidates. -/
def MatchPass.scope (member : EnsembleMember Row S E I) (std : Corpus K H Row)
    (lake : Lake K H S E I) : MatchPass Row S → StaleScope K
  | .full _ => .everyActive
  | .incremental segment =>
      if scoredRows member.identity lake = 0 then .everyActive
      else partialScope member.identity segment std lake

end EntityResolution.Match
