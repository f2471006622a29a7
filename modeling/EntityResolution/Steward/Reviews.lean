/-
# The review queue

A run leaves its open questions for a steward in `review_queue`: the pairs whose active score
lies in the gray band, and the pairs that a never assertion could not separate. A question is
a canonical pair with a reason code. Both writers are merges on the question, so a run over a
pair already asked about refreshes its row, whatever the steward has answered in between.

The gray-band merge reads one source row for each active score, and an ensemble has one score
of a pair for each member. Where two members place a pair in the band and it has no review
yet, neither of its rows matches, and both are inserted. Where it has one, both rows match it and
the later refresh stands. An engine that refuses a merge with two rows for one target leaves the
queue with the questions and ids it had, as the refreshes do, but inserts nothing for the other
pairs of that merge either.
-/

import EntityResolution.Foundations.Relations
import EntityResolution.Foundations.Runs
import EntityResolution.Match.Interruption

namespace EntityResolution.Steward

open EntityResolution.Collections EntityResolution.Relations EntityResolution.Runs
open EntityResolution.Match (MatchScore RunStamp ScoreKey)

universe u v w x y z

variable {K : Type u} {H : Type v} {Row : Type w} {S : Type x} {E : Type y} {I : Type z}

/-- The reason codes of pair reviews. -/
inductive ReviewReason
  | grayBand
  | neverUnsatisfiable
  deriving DecidableEq, Repr

inductive ReviewStatus
  | opened
  | resolvedMatch
  | resolvedNoMatch
  | dismissed
  deriving DecidableEq, Repr

/-- A row of the source of either merge. -/
structure ReviewSource (K : Type u) (S : Type x) (E : Type y) where
  id : String
  subjectType : String
  recAKey : K
  recBKey : K
  entityId : Option String
  reason : ReviewReason
  matchProbability : Option S
  waterfall : Option E
  status : ReviewStatus
  firstSeenRunId : String
  lastSeenRunId : String
  resolvedBy : Option String
  resolvedAt : Option ℤ

/-- A row of `review_queue`. -/
structure Review (K : Type u) (S : Type x) (E : Type y) extends ReviewSource K S E where
  createdAt : ℤ
  updatedAt : ℤ

/-- What a review asks: the natural key of the queue. -/
structure Question (K : Type u) where
  recAKey : K
  recBKey : K
  reason : ReviewReason
  deriving DecidableEq

def ReviewSource.question (row : ReviewSource K S E) : Question K :=
  ⟨row.recAKey, row.recBKey, row.reason⟩

def Review.question (row : Review K S E) : Question K := row.toReviewSource.question

/-- Both merges insert a source row as it is, with the run's time. -/
def ReviewSource.asReview (createdAt : ℤ) (row : ReviewSource K S E) : Review K S E :=
  { row with createdAt := createdAt, updatedAt := createdAt }

/-- `MERGE INTO review_queue`, on the question. What a match refreshes is the statement's
own. -/
def mergeReviews [DecidableEq K] (stamp : RunStamp)
    (refresh : ReviewSource K S E → Review K S E → Review K S E)
    (source : List (ReviewSource K S E)) (queue : List (Review K S E)) : List (Review K S E) :=
  mergeRows source queue ReviewSource.question Review.question refresh
    (ReviewSource.asReview stamp.scoredAt)

/-- A gray-band review is refreshed with the score and the run. -/
def refreshGrayBand (stamp : RunStamp) (source : ReviewSource K S E) (row : Review K S E) :
    Review K S E :=
  { row with
    matchProbability := source.matchProbability
    waterfall := source.waterfall
    lastSeenRunId := source.lastSeenRunId
    updatedAt := stamp.scoredAt }

/-- An escalation's review is refreshed with the run. -/
def refreshNeverUnsatisfiable (stamp : RunStamp) (source : ReviewSource K S E)
    (row : Review K S E) : Review K S E :=
  { row with lastSeenRunId := source.lastSeenRunId, updatedAt := stamp.scoredAt }

@[simp] theorem question_refreshGrayBand (stamp : RunStamp) (source : ReviewSource K S E)
    (row : Review K S E) : (refreshGrayBand stamp source row).question = row.question :=
  rfl

@[simp] theorem question_refreshNeverUnsatisfiable (stamp : RunStamp)
    (source : ReviewSource K S E) (row : Review K S E) :
    (refreshNeverUnsatisfiable stamp source row).question = row.question :=
  rfl

/-- The score lies in `[review_low, auto_merge)` and is active. -/
def inGrayBand [LinearOrder S] (reviewLow autoMerge : S) (row : MatchScore H S E) : Bool :=
  row.isActive && reviewLow ≤ row.matchProbability && row.matchProbability < autoMerge

variable [LinearOrder K] [LinearOrder I]

/-- The match tables and the review queue. -/
structure Store (K : Type u) (H : Type v) (S : Type x) (E : Type y) (I : Type z)
    [LinearOrder K] [LinearOrder I] where
  lake : Match.Lake K H S E I
  reviewQueue : List (Review K S E)

def Store.fresh : Store K H S E I := ⟨Match.Lake.fresh, []⟩

/-- The id of a review, `sha256('review_queue:' || rec_a_key || ':' || …)`. -/
abbrev ReviewId (K : Type u) : Type u := Question K → String

section Writers

variable (reviewId : ReviewId K)

section GrayBand

variable [LinearOrder S]

/-- The source of `upsert_gray_band`: one row for each active score in the band. -/
def grayBandSource (runId : String) (reviewLow autoMerge : S) (lake : Match.Lake K H S E I) :
    List (ReviewSource K S E) :=
  (lake.matchScores.toList.filter fun entry => inGrayBand reviewLow autoMerge entry.2).map
    fun entry =>
      { id := reviewId ⟨entry.1.recAKey, entry.1.recBKey, .grayBand⟩
        subjectType := "pair"
        recAKey := entry.1.recAKey
        recBKey := entry.1.recBKey
        entityId := none
        reason := .grayBand
        matchProbability := some entry.2.matchProbability
        waterfall := some entry.2.evidence
        status := .opened
        firstSeenRunId := runId
        lastSeenRunId := runId
        resolvedBy := none
        resolvedAt := none }

/-- `review/update/upsert_gray_band`. -/
def upsertGrayBand (stamp : RunStamp) (reviewLow autoMerge : S) (store : Store K H S E I) :
    Store K H S E I :=
  { store with
    reviewQueue := mergeReviews stamp (refreshGrayBand stamp)
      (grayBandSource reviewId stamp.runId reviewLow autoMerge store.lake) store.reviewQueue }

end GrayBand

/-- The one source row of `upsert_never_unsatisfiable`. -/
def neverUnsatisfiableSource (runId : String) (a b : K) : ReviewSource K S E where
  id := reviewId ⟨a, b, .neverUnsatisfiable⟩
  subjectType := "pair"
  recAKey := a
  recBKey := b
  entityId := none
  reason := .neverUnsatisfiable
  matchProbability := none
  waterfall := none
  status := .opened
  firstSeenRunId := runId
  lastSeenRunId := runId
  resolvedBy := none
  resolvedAt := none

/-- `review/update/upsert_never_unsatisfiable`. -/
def upsertNeverUnsatisfiable (stamp : RunStamp) (store : Store K H S E I) (pair : K × K) :
    Store K H S E I :=
  { store with
    reviewQueue := mergeReviews stamp (refreshNeverUnsatisfiable stamp)
      [neverUnsatisfiableSource reviewId stamp.runId pair.1 pair.2] store.reviewQueue }

/-- `write_never_unsatisfiable_reviews`: one merge for each escalation. -/
def writeNeverUnsatisfiableReviews (stamp : RunStamp) (escalations : List (K × K))
    (store : Store K H S E I) : Store K H S E I :=
  escalations.foldl (upsertNeverUnsatisfiable reviewId stamp) store

end Writers

/-- `review/update/resolve`. -/
def resolveReview (id : String) (status : ReviewStatus) (resolvedAt : ℤ)
    (store : Store K H S E I) : Store K H S E I :=
  { store with
    reviewQueue := store.reviewQueue.map fun row =>
      if row.id = id then
        { row with status := status, resolvedAt := some resolvedAt, updatedAt := resolvedAt }
      else row }

/-- What touches the two tables: a statement of a match pass, the assemble stage's
`write_reviews`, a reconcile's escalations, and a steward's resolution. -/
inductive ReviewAction (K : Type u) (H : Type v) (Row : Type w) (S : Type x) (E : Type y)
    (I : Type z) [LinearOrder K] [LinearOrder I]
  | score (statement : Match.Statement K H Row S E I)
  | writeReviews (stamp : RunStamp) (reviewLow autoMerge : S)
  | escalate (stamp : RunStamp) (escalations : List (K × K))
  | resolve (id : String) (status : ReviewStatus) (resolvedAt : ℤ)

variable [LinearOrder S] (reviewId : ReviewId K)

def Store.step (store : Store K H S E I) : ReviewAction K H Row S E I → Store K H S E I
  | .score statement => { store with lake := statement.exec store.lake }
  | .writeReviews stamp reviewLow autoMerge =>
      upsertGrayBand reviewId stamp reviewLow autoMerge store
  | .escalate stamp escalations => writeNeverUnsatisfiableReviews reviewId stamp escalations store
  | .resolve id status resolvedAt => resolveReview id status resolvedAt store

/-- No two rows ask the same question. -/
def OneReviewPerQuestion (queue : List (Review K S E)) : Prop :=
  (queue.map Review.question).Nodup

/-- The questions answered before have the reviews they had, under the ids they had. -/
def KeepsResolved (before after : List (Review K S E)) : Prop :=
  ∀ row ∈ before, row.status ≠ .opened →
    (after.filter fun other => other.question = row.question).map (fun other => other.id) =
      (before.filter fun other => other.question = row.question).map fun other => other.id

/-- No pair without a gray-band review has active scores of two models in the band. -/
def AsksOnce (reviewLow autoMerge : S) (store : Store K H S E I) : Prop :=
  ∀ (a b : K) (i j : I) (first second : MatchScore H S E),
    store.lake.matchScores[(⟨a, b, i⟩ : ScoreKey K I)]? = some first →
    store.lake.matchScores[(⟨a, b, j⟩ : ScoreKey K I)]? = some second →
    inGrayBand reviewLow autoMerge first = true →
    inGrayBand reviewLow autoMerge second = true →
    (∀ row ∈ store.reviewQueue, row.question ≠ ⟨a, b, .grayBand⟩) → i = j

/-- The steps that ask each question once. -/
def ReviewAction.AsksOnce (store : Store K H S E I) : ReviewAction K H Row S E I → Prop
  | .writeReviews _ reviewLow autoMerge => Steward.AsksOnce reviewLow autoMerge store
  | _ => True

/-- Every question keeps the reviews it has, under the ids they have. -/
def KeepsIds (before after : List (Review K S E)) : Prop :=
  ∀ question ∈ before.map Review.question,
    (after.filter fun row => row.question = question).map (fun row => row.id) =
      (before.filter fun row => row.question = question).map fun row => row.id

omit [LinearOrder S] in
theorem KeepsIds.keepsResolved {before after : List (Review K S E)}
    (hkeeps : KeepsIds before after) : KeepsResolved before after :=
  fun row hrow _ => hkeeps row.question (List.mem_map_of_mem hrow)

/-! ## What a merge keeps -/

section Merges

variable {stamp : RunStamp} {refresh : ReviewSource K S E → Review K S E → Review K S E}
  {source : List (ReviewSource K S E)} {queue : List (Review K S E)}

omit [LinearOrder S] in
theorem oneReview_mergeReviews_iff
    (hquestion : ∀ s row, (refresh s row).question = row.question)
    (hone : OneReviewPerQuestion queue) :
    OneReviewPerQuestion (mergeReviews stamp refresh source queue) ↔
      ((source.filter fun row => row.question ∉ queue.map Review.question).map
        ReviewSource.question).Nodup := by
  rw [OneReviewPerQuestion, mergeReviews]
  apply nodup_map_mergeRows hquestion
  · intro row
    rfl
  · exact hone

omit [LinearOrder S] in
/-- A merge keeps the reviews of every question already asked. -/
theorem keepsIds_mergeReviews (hquestion : ∀ s row, (refresh s row).question = row.question)
    (hid : ∀ s row, (refresh s row).id = row.id) :
    KeepsIds queue (mergeReviews stamp refresh source queue) := by
  intro question hasked
  rw [mergeReviews]
  apply filter_map_mergeRows hid hquestion
  · intro row
    rfl
  · exact hasked

omit [LinearOrder S] in
/-- The questions asked stay asked. -/
theorem asked_mergeReviews (hquestion : ∀ s row, (refresh s row).question = row.question) :
    queue.map Review.question ⊆
      (mergeReviews stamp refresh source queue).map Review.question := by
  rw [mergeReviews, map_mergeRows hquestion]
  exact List.subset_append_left _ _

end Merges

section Writers

variable {reviewId} {store : Store K H S E I} {stamp : RunStamp} {reviewLow autoMerge : S}

theorem nodup_fresh_grayBand_iff :
    (((grayBandSource reviewId stamp.runId reviewLow autoMerge store.lake).filter fun row =>
        row.question ∉ store.reviewQueue.map Review.question).map
          ReviewSource.question).Nodup ↔
      AsksOnce reviewLow autoMerge store := by
  have hquestions : ((grayBandSource reviewId stamp.runId reviewLow autoMerge store.lake).filter
      fun row => row.question ∉ store.reviewQueue.map Review.question).map
        ReviewSource.question =
      ((store.lake.matchScores.toList.filter fun entry =>
        inGrayBand reviewLow autoMerge entry.2).filter fun entry =>
          (⟨entry.1.recAKey, entry.1.recBKey, .grayBand⟩ : Question K) ∉
            store.reviewQueue.map Review.question).map fun entry =>
              (⟨entry.1.recAKey, entry.1.recBKey, .grayBand⟩ : Question K) := by
    rw [grayBandSource, List.filter_map, List.map_map]
    rfl
  rw [hquestions]
  have hkeys : ((store.lake.matchScores.toList.filter fun entry =>
      inGrayBand reviewLow autoMerge entry.2).filter fun entry =>
        (⟨entry.1.recAKey, entry.1.recBKey, .grayBand⟩ : Question K) ∉
          store.reviewQueue.map Review.question).Pairwise fun entry other =>
            entry.1 ≠ other.1 := by
    apply List.Pairwise.filter
    apply List.Pairwise.filter
    exact (BTreeMap.toList_pairwise_lt _).imp fun hlt => hlt.ne
  have hmem : ∀ {entry : ScoreKey K I × MatchScore H S E},
      entry ∈ (store.lake.matchScores.toList.filter fun entry =>
        inGrayBand reviewLow autoMerge entry.2).filter (fun entry =>
          (⟨entry.1.recAKey, entry.1.recBKey, .grayBand⟩ : Question K) ∉
            store.reviewQueue.map Review.question) ↔
        store.lake.matchScores[entry.1]? = some entry.2 ∧
          inGrayBand reviewLow autoMerge entry.2 = true ∧
          ∀ row ∈ store.reviewQueue,
            row.question ≠ ⟨entry.1.recAKey, entry.1.recBKey, .grayBand⟩ := by
    intro entry
    obtain ⟨key, score⟩ := entry
    simp only [List.mem_filter, BTreeMap.mem_toList, decide_eq_true_eq, List.mem_map,
      not_exists, not_and, and_assoc, ne_eq]
  constructor
  · intro hnodup a b i j first second hfirst hsecond hband hband' hunasked
    have hsame := List.inj_on_of_nodup_map hnodup
      (hmem.mpr ⟨hfirst, hband, hunasked⟩ : (⟨a, b, i⟩, first) ∈ _)
      (hmem.mpr ⟨hsecond, hband', hunasked⟩ : (⟨a, b, j⟩, second) ∈ _) rfl
    exact congrArg (fun entry => entry.1.identity) hsame
  · intro honce
    rw [List.Nodup, List.pairwise_map]
    apply hkeys.imp_of_mem
    intro entry other hentry hother hne hsame
    obtain ⟨⟨a, b, i⟩, first⟩ := entry
    obtain ⟨⟨a', b', j⟩, second⟩ := other
    obtain ⟨rfl, rfl, -⟩ := Question.mk.inj hsame
    obtain ⟨hfirst, hband, hunasked⟩ := hmem.mp hentry
    obtain ⟨hsecond, hband', -⟩ := hmem.mp hother
    have hidentity := honce a b i j first second hfirst hsecond hband hband' hunasked
    exact hne (congrArg (ScoreKey.mk a b) hidentity)

theorem oneReview_upsertGrayBand_iff (hone : OneReviewPerQuestion store.reviewQueue) :
    OneReviewPerQuestion
        (upsertGrayBand reviewId stamp reviewLow autoMerge store).reviewQueue ↔
      AsksOnce reviewLow autoMerge store :=
  (oneReview_mergeReviews_iff (question_refreshGrayBand stamp) hone).trans nodup_fresh_grayBand_iff

theorem keepsIds_upsertGrayBand :
    KeepsIds store.reviewQueue
      (upsertGrayBand reviewId stamp reviewLow autoMerge store).reviewQueue :=
  keepsIds_mergeReviews (question_refreshGrayBand stamp) fun _ _ => rfl

omit [LinearOrder S] in
/-- One escalation is one source row, so the escalations never ask twice. -/
theorem oneReview_writeNeverUnsatisfiable (escalations : List (K × K))
    (hone : OneReviewPerQuestion store.reviewQueue) :
    OneReviewPerQuestion
      (writeNeverUnsatisfiableReviews reviewId stamp escalations store).reviewQueue := by
  induction escalations generalizing store with
  | nil => exact hone
  | cons pair rest ih =>
    apply ih
    apply (oneReview_mergeReviews_iff (question_refreshNeverUnsatisfiable stamp) hone).mpr
    apply List.Nodup.sublist (List.filter_sublist.map _)
    exact List.nodup_singleton _

omit [LinearOrder S] in
theorem keepsIds_writeNeverUnsatisfiable (escalations : List (K × K)) :
    KeepsIds store.reviewQueue
      (writeNeverUnsatisfiableReviews reviewId stamp escalations store).reviewQueue := by
  induction escalations generalizing store with
  | nil =>
    intro question _
    rfl
  | cons pair rest ih =>
    intro question hasked
    have hfirst : KeepsIds store.reviewQueue
        (upsertNeverUnsatisfiable reviewId stamp store pair).reviewQueue :=
      keepsIds_mergeReviews (question_refreshNeverUnsatisfiable stamp) fun _ _ => rfl
    have hasked' : question ∈
        (upsertNeverUnsatisfiable reviewId stamp store pair).reviewQueue.map Review.question :=
      asked_mergeReviews (question_refreshNeverUnsatisfiable stamp) hasked
    exact (ih question hasked').trans (hfirst question hasked)

omit [LinearOrder S] in
/-- A resolution changes no question and no id. -/
theorem questions_resolveReview (id : String) (status : ReviewStatus) (resolvedAt : ℤ) :
    (resolveReview id status resolvedAt store).reviewQueue.map Review.question =
      store.reviewQueue.map Review.question := by
  simp only [resolveReview, List.map_map]
  apply List.map_congr_left
  intro row _
  by_cases hid : row.id = id
  · simp [hid, Review.question, ReviewSource.question]
  · simp [hid]

omit [LinearOrder S] in
theorem keepsIds_resolveReview (id : String) (status : ReviewStatus) (resolvedAt : ℤ) :
    KeepsIds store.reviewQueue (resolveReview id status resolvedAt store).reviewQueue := by
  have hrow : ∀ row : Review K S E,
      (if row.id = id then
        { row with status := status, resolvedAt := some resolvedAt, updatedAt := resolvedAt }
      else row).question = row.question ∧
      (if row.id = id then
        { row with status := status, resolvedAt := some resolvedAt, updatedAt := resolvedAt }
      else row).id = row.id := by
    intro row
    by_cases hid : row.id = id
    · simp [hid, Review.question, ReviewSource.question]
    · simp [hid]
  intro question _
  simp only [resolveReview, List.filter_map, List.map_map]
  have hfilter : (store.reviewQueue.filter ((fun row => decide (row.question = question)) ∘
      fun row => if row.id = id then
        { row with status := status, resolvedAt := some resolvedAt, updatedAt := resolvedAt }
      else row)) = store.reviewQueue.filter fun row => row.question = question := by
    apply List.filter_congr
    intro row _
    simp only [Function.comp_apply, (hrow row).1]
  rw [hfilter]
  apply List.map_congr_left
  intro row _
  exact (hrow row).2

end Writers

theorem oneReview_step_iff {store : Store K H S E I} (action : ReviewAction K H Row S E I)
    (hone : OneReviewPerQuestion store.reviewQueue) :
    OneReviewPerQuestion (store.step reviewId action).reviewQueue ↔ action.AsksOnce store := by
  cases action with
  | score statement => exact iff_of_true hone trivial
  | writeReviews stamp reviewLow autoMerge => exact oneReview_upsertGrayBand_iff hone
  | escalate stamp escalations =>
    exact iff_of_true (oneReview_writeNeverUnsatisfiable escalations hone) trivial
  | resolve id status resolvedAt =>
    apply iff_of_true _ trivial
    rw [OneReviewPerQuestion, Store.step, questions_resolveReview]
    exact hone

/-- No step asks an answered question again. -/
theorem keepsIds_step (store : Store K H S E I) (action : ReviewAction K H Row S E I) :
    KeepsIds store.reviewQueue (store.step reviewId action).reviewQueue := by
  cases action with
  | score statement =>
    intro question _
    rfl
  | writeReviews stamp reviewLow autoMerge => exact keepsIds_upsertGrayBand
  | escalate stamp escalations => exact keepsIds_writeNeverUnsatisfiable escalations
  | resolve id status resolvedAt => exact keepsIds_resolveReview id status resolvedAt

/-- In a history from the empty lake, every step leaves one review for each question and no
answered question asked again, if and only if every gray-band merge asks each question
once. -/
theorem one_review_per_question_iff (history : List (ReviewAction K H Row S E I)) :
    Along (Store.step reviewId)
        (fun store action =>
          OneReviewPerQuestion (store.step reviewId action).reviewQueue ∧
            KeepsResolved store.reviewQueue (store.step reviewId action).reviewQueue)
        (Store.fresh : Store K H S E I) history ↔
      Along (Store.step reviewId) (fun store action => action.AsksOnce store)
        (Store.fresh : Store K H S E I) history := by
  apply along_iff_along fun store : Store K H S E I => OneReviewPerQuestion store.reviewQueue
  · intro store action hone
    rw [oneReview_step_iff reviewId action hone]
    exact and_iff_left (keepsIds_step reviewId store action).keepsResolved
  · intro store action hone hasks
    exact (oneReview_step_iff reviewId action hone).mpr hasks
  · exact List.nodup_nil

/-- A readable id. -/
def sampleReviewId (question : Question ℕ) : String :=
  "review_queue:" ++ toString question.recAKey ++ ":" ++ toString question.recBKey

/-- Two members score the pair of records 1 and 2 with 8. -/
def twoMemberScores : List (ReviewAction ℕ ℕ ℕ ℕ Unit ℕ) :=
  (Match.runMatchEnsemble ⟨[⟨.andRun, none⟩, ⟨.andRun, none⟩], 9⟩
    [Match.sampleMember 0, Match.sampleMember 1] 7 ⟨"run-1", 1⟩
    (Match.sampleCorpus [(1, 3), (2, 5)]) Match.Lake.fresh).map ReviewAction.score

/-- The band is from 7 to 9. -/
def twoMemberReviews : ReviewAction ℕ ℕ ℕ ℕ Unit ℕ :=
  .writeReviews ⟨"run-1", 1⟩ 7 9

/-- Both scores are inserted, so the queue asks about the pair twice. -/
theorem two_members_ask_twice :
    ¬ Along (Store.step sampleReviewId)
      (fun store action =>
        OneReviewPerQuestion (store.step sampleReviewId action).reviewQueue ∧
          KeepsResolved store.reviewQueue (store.step sampleReviewId action).reviewQueue)
      Store.fresh (twoMemberScores ++ [twoMemberReviews]) := by
  intro hrun
  have hlast := (Along.last hrun).1
  have htwice : ((twoMemberScores.foldl (Store.step sampleReviewId) Store.fresh).step
      sampleReviewId twoMemberReviews).reviewQueue.map Review.question =
        [⟨1, 2, .grayBand⟩, ⟨1, 2, .grayBand⟩] := by
    decide +kernel
  rw [OneReviewPerQuestion, htwice] at hlast
  exact absurd hlast (by decide)

end EntityResolution.Steward
