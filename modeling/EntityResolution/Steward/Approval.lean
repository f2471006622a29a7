/-
# The approval gate

A steward approves a review by putting the tenant's approval tag on it. An `apply_approved` job
reads the tagged reviews, stages one action for each, takes the tag off, and enqueues the
`apply_corrections` job that drains the pending actions of the dataset into the lake.

Both jobs are written twice. The dispatcher runs them in process, and the compiled graphs run
them as the control tasks `stage_approved` and `drain_actions`. The statements they share name a
dataset; the control tasks pass the org for it, the dispatcher passes the job's dataset and falls
back on the org.
-/

import EntityResolution.Executor.Dispatch

namespace EntityResolution.Steward

open EntityResolution.Collections
open EntityResolution.Executor (JobState)

/-- The kinds of subject a tag goes on. -/
inductive SubjectType
  | entity
  | review
  deriving DecidableEq

instance : LinearOrder SubjectType :=
  LinearOrder.lift' (fun subject => match subject with | .entity => 0 | .review => (1 : ℕ)) (by
    intro first second hsame
    cases first <;> cases second <;> first | rfl | cases hsame)

/-- A row of `tags`. -/
structure Tag where
  id : String
  orgId : String
  name : String
  active : Bool
  deriving DecidableEq

/-- The natural key of `taggings`. A tag is of one org, so the key needs no org. -/
structure Application where
  tagId : String
  subjectType : SubjectType
  subjectId : String
  deriving DecidableEq

instance : LinearOrder Application :=
  LinearOrder.lift' (fun key => toLex (key.tagId, toLex (key.subjectType, key.subjectId))) (by
    intro first second hsame
    cases first
    cases second
    simpa using hsame)

/-- What a steward's resolution of a review says. -/
inductive Resolution
  | matched
  | noMatch
  | dismissed
  deriving DecidableEq

/-- The payload of a staged action. -/
inductive StewardAction
  | addAssertion (a b kind createdBy : String) (note : Option String)
  | retractAssertion (assertionId : String)
  | resolveReview (reviewId : String) (resolution : Resolution)
  | overrideField (entityId field : String) (value : Option String) (createdBy : String)
  | clearField (entityId field createdBy : String)
  | protectRecord (recordKey createdBy : String)
  | suppressRecord (recordKey createdBy : String)
  | retractRecordOverlay (recordKey kind : String)
  deriving DecidableEq

inductive StagedState
  | pending
  | applied
  | failed
  deriving DecidableEq

/-- A row of `staged_steward_actions` under its id. -/
structure StagedAction where
  orgId : String
  datasetId : String
  action : StewardAction
  state : StagedState
  createdBy : String
  createdAt : ℤ
  deriving DecidableEq

/-- The kinds of job, those of the approval gate named. -/
inductive JobKind
  | applyApproved
  | applyCorrections
  | other (name : String)
  deriving DecidableEq

/-- A row of `jobs` under its id. -/
structure QueuedJob where
  orgId : String
  datasetId : Option String
  kind : JobKind
  skipIngest : Bool
  priority : ℤ
  idempotencyKey : Option String
  createdBy : Option String
  state : JobState
  deriving DecidableEq

/-- The tables the approval gate reads and writes; a tagging holds the dataset it is in. -/
structure Plane where
  tags : List Tag
  taggings : BTreeMap Application String
  actions : BTreeMap String StagedAction
  jobs : BTreeMap String QueuedJob

def Plane.fresh : Plane := ⟨[], ∅, ∅, ∅⟩

/-- `tag_by_name`: the org's active tag of that name. -/
def tagByName (orgId name : String) (plane : Plane) : Option Tag :=
  (plane.tags.filter fun tag => tag.orgId = orgId && tag.active).find? fun tag => tag.name = name

/-- `subjects_for_tag`: what carries the tag in a dataset, in the order of the subjects. -/
def subjectsForTag (datasetId tagId : String) (subjectType : Option SubjectType) (limit : ℕ)
    (plane : Plane) : List Application :=
  ((plane.taggings.toList.filter fun entry =>
    entry.2 = datasetId && entry.1.tagId = tagId &&
      subjectType.all fun kind => entry.1.subjectType = kind).map Prod.fst).take limit

/-- `unapply_tag`. -/
def unapplyTag (datasetId tagId : String) (subjectType : SubjectType) (subjectId : String)
    (plane : Plane) : Plane :=
  { plane with
    taggings := plane.taggings.filter fun application dataset =>
      !(dataset = datasetId && application = ⟨tagId, subjectType, subjectId⟩) }

/-- `stage_action`. The `dataset_id` of a staged action is not nullable. -/
def stageAction (actionId orgId : String) (datasetId : Option String) (action : StewardAction)
    (createdBy : String) (createdAt : ℤ) (plane : Plane) : Option Plane :=
  match datasetId with
  | none => none
  | some dataset =>
      if actionId ∈ plane.actions then none
      else
        some { plane with
          actions := plane.actions.insert actionId
            ⟨orgId, dataset, action, .pending, createdBy, createdAt⟩ }

/-- `pending_actions`: the pending actions of a dataset, oldest first. -/
def pendingActions (datasetId : String) (plane : Plane) : List (String × StagedAction) :=
  (plane.actions.toList.filter fun entry =>
    entry.2.datasetId = datasetId && entry.2.state = .pending).insertionSort
      fun first second => first.2.createdAt ≤ second.2.createdAt

/-- The job of the org that was enqueued under the key. -/
def jobOfKey (orgId : String) (idempotencyKey : Option String) (plane : Plane) :
    Option (String × QueuedJob) :=
  idempotencyKey.bind fun key =>
    plane.jobs.toList.find? fun entry =>
      entry.2.orgId = orgId && entry.2.idempotencyKey = some key

/-- `enqueue`: the insert gives way to the job that has the key, whatever its state. -/
def enqueue (jobId : String) (job : QueuedJob) (plane : Plane) : Option Plane :=
  match jobOfKey job.orgId job.idempotencyKey plane with
  | some _ => some plane
  | none =>
      if jobId ∈ plane.jobs then none
      else some { plane with jobs := plane.jobs.insert jobId { job with state := .queued } }

/-- How many approved reviews one tick will stage. -/
def maxApproved : ℕ := 200

/-- An `apply_approved` job at work: the approval tag its config names, trimmed; the ids and the
time its inserts take; and the statements that fail. -/
structure Tick where
  orgId : String
  datasetId : Option String
  approvalTag : String
  actionId : Application → String
  createdAt : ℤ
  jobId : String
  stageFails : Application → Bool
  untagFails : Application → Bool
  enqueueFails : Bool

/-- The tag that approves: the gate is closed when none is configured or active. -/
def Tick.tag (tick : Tick) (plane : Plane) : Option Tag :=
  if tick.approvalTag = "" then none else tagByName tick.orgId tick.approvalTag plane

def Tick.actor (tick : Tick) : String := "schedule:approval:" ++ tick.approvalTag

/-- The tables once the reviews are staged, with the reviews the tick selected and how many of
them it staged. -/
structure Staging where
  plane : Plane
  approved : List Application
  staged : ℕ

section Scoped

variable (scope : String) (tick : Tick)

/-- A review that cannot be staged keeps its tag for the next tick. One that is staged and
cannot be untagged counts as staged. -/
def stageReview (tag : Tag) (state : Plane × ℕ) (review : Application) : Plane × ℕ :=
  if tick.stageFails review then state
  else
    match stageAction (tick.actionId review) tick.orgId tick.datasetId
        (.resolveReview review.subjectId .matched) tick.actor tick.createdAt state.1 with
    | none => state
    | some plane =>
        if tick.untagFails review then (plane, state.2 + 1)
        else (unapplyTag scope tag.id .review review.subjectId plane, state.2 + 1)

/-- Selects the approved reviews and stages them one by one. -/
def stageReviews (plane : Plane) : Staging :=
  match tick.tag plane with
  | none => ⟨plane, [], 0⟩
  | some tag =>
      let approved := subjectsForTag scope tag.id (some .review) maxApproved plane
      let result := approved.foldl (stageReview scope tick tag) (plane, 0)
      ⟨result.1, approved, result.2⟩

end Scoped

/-- The job that merges what a tick staged. Its key counts the reviews the tick selected. -/
def Tick.corrections (tick : Tick) (staging : Staging) : QueuedJob where
  orgId := tick.orgId
  datasetId := tick.datasetId
  kind := .applyCorrections
  skipIngest := true
  priority := 0
  idempotencyKey := some ("approval:" ++ tick.orgId ++ ":" ++ toString staging.approved.length)
  createdBy := some tick.actor
  state := .queued

/-- The enqueue at the end of a tick that staged something. -/
def enqueueCorrections (tick : Tick) (staging : Staging) (plane : Plane) : Plane :=
  if staging.staged = 0 ∨ tick.enqueueFails = true then plane
  else (enqueue tick.jobId (tick.corrections staging) plane).getD plane

/-- What the control tasks name as the dataset of their statements. -/
def controlScope (orgId : String) (_datasetId : Option String) : String := orgId

/-- What the dispatcher names as the dataset of its statements. -/
def dispatcherScope (orgId : String) (datasetId : Option String) : String := datasetId.getD orgId

namespace StageApproved

/-- The staging of the control task `stage_approved`. -/
def stage (tick : Tick) (plane : Plane) : Staging :=
  stageReviews (controlScope tick.orgId tick.datasetId) tick plane

def run (tick : Tick) (plane : Plane) : Plane :=
  enqueueCorrections tick (stage tick plane) (stage tick plane).plane

end StageApproved

namespace ApplyApprovedMerges

/-- The staging of the dispatcher's `apply_approved_merges`. -/
def stage (tick : Tick) (plane : Plane) : Staging :=
  stageReviews (dispatcherScope tick.orgId tick.datasetId) tick plane

def run (tick : Tick) (plane : Plane) : Plane :=
  enqueueCorrections tick (stage tick plane) (stage tick plane).plane

end ApplyApprovedMerges

/-- The control task `drain_actions`: the ids of the pending actions. -/
def DrainActions.run (orgId : String) (datasetId : Option String) (plane : Plane) : List String :=
  (pendingActions (controlScope orgId datasetId) plane).map Prod.fst

/-- The ids `drain_and_correct` drains. -/
def drainAndCorrect (orgId : String) (datasetId : Option String) (plane : Plane) : List String :=
  (pendingActions (dispatcherScope orgId datasetId) plane).map Prod.fst

/-! ## What the statements select -/

section Selections

variable {plane : Plane} {datasetId tagId : String}

/-- What carries a tag in a dataset is tagged in that dataset. -/
theorem dataset_of_mem_subjectsForTag {subjectType : Option SubjectType} {limit : ℕ}
    {application : Application}
    (hmem : application ∈ subjectsForTag datasetId tagId subjectType limit plane) :
    plane.taggings[application]? = some datasetId := by
  have htagged := List.mem_of_mem_take hmem
  simp only [List.mem_map, List.mem_filter, Bool.and_eq_true, decide_eq_true_eq] at htagged
  obtain ⟨⟨key, dataset⟩, ⟨hentry, ⟨hdataset, -⟩, -⟩, rfl⟩ := htagged
  rw [← hdataset]
  exact BTreeMap.mem_toList.mp hentry

theorem subjectsForTag_eq_nil_iff {limit : ℕ} (hlimit : limit ≠ 0) :
    subjectsForTag datasetId tagId (some .review) limit plane = [] ↔
      ∀ reviewId : String, plane.taggings[(⟨tagId, .review, reviewId⟩ : Application)]? ≠
        some datasetId := by
  rw [subjectsForTag, List.take_eq_nil_iff, or_iff_right hlimit, List.map_eq_nil_iff,
    List.filter_eq_nil_iff]
  constructor
  · intro hnone reviewId htagged
    apply hnone _ (BTreeMap.mem_toList.mpr htagged)
    simp
  · intro hnone entry hentry hselected
    obtain ⟨⟨tag, subject, reviewId⟩, dataset⟩ := entry
    simp only [Option.all_some, Bool.and_eq_true, decide_eq_true_eq] at hselected
    obtain ⟨⟨rfl, rfl⟩, rfl⟩ := hselected
    exact hnone reviewId (BTreeMap.mem_toList.mp hentry)

theorem mem_pendingActions {entry : String × StagedAction} :
    entry ∈ pendingActions datasetId plane ↔
      plane.actions[entry.1]? = some entry.2 ∧ entry.2.datasetId = datasetId ∧
        entry.2.state = .pending := by
  simp only [pendingActions, List.mem_insertionSort, List.mem_filter, Bool.and_eq_true,
    decide_eq_true_eq]
  rw [show entry = (entry.1, entry.2) from rfl, BTreeMap.mem_toList]

theorem pendingActions_eq_nil_iff :
    pendingActions datasetId plane = [] ↔
      ∀ (id : String) (action : StagedAction), plane.actions[id]? = some action →
        action.state = .pending → action.datasetId ≠ datasetId := by
  constructor
  · intro hnone id action hrow hpending hdataset
    have hmem : (id, action) ∈ pendingActions datasetId plane :=
      mem_pendingActions.mpr ⟨hrow, hdataset, hpending⟩
    rw [hnone] at hmem
    cases hmem
  · intro hnone
    rw [List.eq_nil_iff_forall_not_mem]
    intro entry hentry
    obtain ⟨hrow, hdataset, hpending⟩ := mem_pendingActions.mp hentry
    exact hnone entry.1 entry.2 hrow hpending hdataset

end Selections

/-- A job of the approval gate. -/
inductive GateJob
  | applyApproved (tick : Tick)
  | applyCorrections (orgId : String) (datasetId : Option String)

def GateJob.orgId : GateJob → String
  | .applyApproved tick => tick.orgId
  | .applyCorrections orgId _ => orgId

def GateJob.datasetId : GateJob → Option String
  | .applyApproved tick => tick.datasetId
  | .applyCorrections _ datasetId => datasetId

/-- The two executors select the same rows for the job and leave the same tables. -/
def ExecutorsAgree (plane : Plane) : GateJob → Prop
  | .applyApproved tick =>
      (StageApproved.stage tick plane).approved = (ApplyApprovedMerges.stage tick plane).approved ∧
        StageApproved.run tick plane = ApplyApprovedMerges.run tick plane
  | .applyCorrections orgId datasetId =>
      DrainActions.run orgId datasetId plane = drainAndCorrect orgId datasetId plane

/-- Nothing waits for the job under the dataset: no review carries the approval tag there, or no
action is pending there. -/
def NothingWaits (plane : Plane) (datasetId : String) : GateJob → Prop
  | .applyApproved tick =>
      ∀ tag, tick.tag plane = some tag → ∀ reviewId : String,
        plane.taggings[(⟨tag.id, .review, reviewId⟩ : Application)]? ≠ some datasetId
  | .applyCorrections _ _ =>
      ∀ (id : String) (action : StagedAction), plane.actions[id]? = some action →
        action.state = .pending → action.datasetId ≠ datasetId

section Agreement

variable {plane : Plane} {tick : Tick} {scope other : String}

theorem dispatcherScope_eq_iff {orgId : String} {datasetId : Option String} :
    dispatcherScope orgId datasetId = controlScope orgId datasetId ↔
      ∀ dataset, datasetId = some dataset → dataset = orgId := by
  cases datasetId with
  | none => simp [dispatcherScope, controlScope]
  | some dataset => simp [dispatcherScope, controlScope]

/-- The reviews a tick selects. -/
theorem approved_stageReviews :
    (stageReviews scope tick plane).approved =
      match tick.tag plane with
      | none => []
      | some tag => subjectsForTag scope tag.id (some .review) maxApproved plane := by
  rw [stageReviews]
  cases tick.tag plane <;> rfl

theorem approved_eq_nil_iff :
    (stageReviews scope tick plane).approved = [] ↔
      NothingWaits plane scope (.applyApproved tick) := by
  rw [approved_stageReviews, NothingWaits]
  cases htag : tick.tag plane with
  | none => simp
  | some tag => simp [subjectsForTag_eq_nil_iff (show maxApproved ≠ 0 by decide)]

theorem stageReviews_of_approved_eq_nil (hnone : (stageReviews scope tick plane).approved = []) :
    stageReviews scope tick plane = ⟨plane, [], 0⟩ := by
  rw [approved_stageReviews] at hnone
  rw [stageReviews]
  cases htag : tick.tag plane with
  | none => rfl
  | some tag =>
    rw [htag] at hnone
    simp only at hnone ⊢
    rw [hnone]
    rfl

/-- A review is tagged in one dataset, so two datasets select the same reviews only where both
select none. -/
theorem approved_eq_nil_of_eq (hscope : scope ≠ other)
    (hsame : (stageReviews scope tick plane).approved = (stageReviews other tick plane).approved) :
    (stageReviews scope tick plane).approved = [] := by
  rw [approved_stageReviews, approved_stageReviews] at hsame
  rw [approved_stageReviews]
  cases htag : tick.tag plane with
  | none => rfl
  | some tag =>
    rw [htag] at hsame
    simp only at hsame ⊢
    rw [List.eq_nil_iff_forall_not_mem]
    intro review hmem
    have hhere := dataset_of_mem_subjectsForTag hmem
    rw [hsame] at hmem
    have hthere := dataset_of_mem_subjectsForTag hmem
    rw [hhere] at hthere
    exact hscope (Option.some.inj hthere)

theorem pendingActions_eq_nil_of_eq (hscope : scope ≠ other)
    (hsame : (pendingActions scope plane).map Prod.fst =
      (pendingActions other plane).map Prod.fst) :
    pendingActions scope plane = [] := by
  rw [List.eq_nil_iff_forall_not_mem]
  intro entry hentry
  have hid : entry.1 ∈ (pendingActions other plane).map Prod.fst := by
    rw [← hsame]
    exact List.mem_map_of_mem hentry
  obtain ⟨twin, htwin, hids⟩ := List.mem_map.mp hid
  obtain ⟨hrow, hdataset, -⟩ := mem_pendingActions.mp hentry
  obtain ⟨hrow', hdataset', -⟩ := mem_pendingActions.mp htwin
  rw [hids, hrow] at hrow'
  have haction := Option.some.inj hrow'
  rw [← haction] at hdataset'
  exact hscope (hdataset.symm.trans hdataset')

theorem executorsAgree_of_scope_eq {job : GateJob}
    (hscope : dispatcherScope job.orgId job.datasetId = controlScope job.orgId job.datasetId) :
    ExecutorsAgree plane job := by
  cases job with
  | applyApproved tick =>
    change dispatcherScope tick.orgId tick.datasetId =
      controlScope tick.orgId tick.datasetId at hscope
    have hstage : StageApproved.stage tick plane = ApplyApprovedMerges.stage tick plane := by
      rw [StageApproved.stage, ApplyApprovedMerges.stage, hscope]
    constructor
    · rw [hstage]
    · rw [StageApproved.run, ApplyApprovedMerges.run, hstage]
  | applyCorrections orgId datasetId =>
    change dispatcherScope orgId datasetId = controlScope orgId datasetId at hscope
    rw [ExecutorsAgree, DrainActions.run, drainAndCorrect, hscope]

theorem executorsAgree_of_nothingWaits {job : GateJob}
    (hdispatcher : NothingWaits plane (dispatcherScope job.orgId job.datasetId) job)
    (hcontrol : NothingWaits plane (controlScope job.orgId job.datasetId) job) :
    ExecutorsAgree plane job := by
  cases job with
  | applyApproved tick =>
    have hnone := stageReviews_of_approved_eq_nil (approved_eq_nil_iff.mpr hdispatcher)
    have hnone' := stageReviews_of_approved_eq_nil (approved_eq_nil_iff.mpr hcontrol)
    have hstage : StageApproved.stage tick plane = ApplyApprovedMerges.stage tick plane :=
      hnone'.trans hnone.symm
    constructor
    · rw [hstage]
    · rw [StageApproved.run, ApplyApprovedMerges.run, hstage]
  | applyCorrections orgId datasetId =>
    have hnone : pendingActions (dispatcherScope orgId datasetId) plane = [] :=
      pendingActions_eq_nil_iff.mpr hdispatcher
    have hnone' : pendingActions (controlScope orgId datasetId) plane = [] :=
      pendingActions_eq_nil_iff.mpr hcontrol
    rw [ExecutorsAgree, DrainActions.run, drainAndCorrect, hnone, hnone']

/-- Where the two name different datasets, they agree on nothing but nothing. -/
theorem nothingWaits_of_executorsAgree {job : GateJob}
    (hscope : dispatcherScope job.orgId job.datasetId ≠ controlScope job.orgId job.datasetId)
    (hagree : ExecutorsAgree plane job) :
    NothingWaits plane (dispatcherScope job.orgId job.datasetId) job ∧
      NothingWaits plane (controlScope job.orgId job.datasetId) job := by
  cases job with
  | applyApproved tick =>
    have hsame := hagree.1
    constructor
    · exact approved_eq_nil_iff.mp (approved_eq_nil_of_eq hscope hsame.symm)
    · exact approved_eq_nil_iff.mp (approved_eq_nil_of_eq hscope.symm hsame)
  | applyCorrections orgId datasetId =>
    constructor
    · exact pendingActions_eq_nil_iff.mp (pendingActions_eq_nil_of_eq hscope hagree.symm)
    · exact pendingActions_eq_nil_iff.mp (pendingActions_eq_nil_of_eq hscope.symm hagree)

end Agreement

/-- The two executors agree on a job exactly when it has no dataset of its own, or when nothing
waits for it, neither in its dataset nor under the org's id. -/
theorem executors_agree_iff (plane : Plane) (job : GateJob) :
    ExecutorsAgree plane job ↔
      (∀ dataset, job.datasetId = some dataset → dataset = job.orgId) ∨
        NothingWaits plane (dispatcherScope job.orgId job.datasetId) job ∧
          NothingWaits plane (controlScope job.orgId job.datasetId) job := by
  rw [← dispatcherScope_eq_iff]
  constructor
  · intro hagree
    by_cases hscope :
        dispatcherScope job.orgId job.datasetId = controlScope job.orgId job.datasetId
    · exact Or.inl hscope
    · exact Or.inr (nothingWaits_of_executorsAgree hscope hagree)
  · intro hwhen
    cases hwhen with
    | inl hscope => exact executorsAgree_of_scope_eq hscope
    | inr hidle => exact executorsAgree_of_nothingWaits hidle.1 hidle.2

/-- One approved review in the dataset `people`, of the org `acme`. -/
def approvedInDataset : Plane where
  tags := [⟨"tag-1", "acme", "approved", true⟩]
  taggings := (∅ : BTreeMap Application String).insert ⟨"tag-1", .review, "review-1"⟩ "people"
  actions := ∅
  jobs := ∅

/-- The approval tick of that dataset. -/
def datasetTick : Tick where
  orgId := "acme"
  datasetId := some "people"
  approvalTag := "approved"
  actionId review := "action:" ++ review.subjectId
  createdAt := 1
  jobId := "job-1"
  stageFails _ := false
  untagFails _ := false
  enqueueFails := false

/-- The dispatcher stages the review and untags it; the control task does not see it. -/
theorem dataset_review_unseen :
    ¬ ExecutorsAgree approvedInDataset (.applyApproved datasetTick) ∧
      (StageApproved.stage datasetTick approvedInDataset).approved = [] ∧
      (ApplyApprovedMerges.stage datasetTick approvedInDataset).approved =
        [⟨"tag-1", .review, "review-1"⟩] ∧
      (ApplyApprovedMerges.stage datasetTick approvedInDataset).staged = 1 := by
  have hcontrol : (StageApproved.stage datasetTick approvedInDataset).approved = [] := by
    decide +kernel
  have hdispatcher : (ApplyApprovedMerges.stage datasetTick approvedInDataset).approved =
      [⟨"tag-1", .review, "review-1"⟩] := by
    decide +kernel
  have hstaged : (ApplyApprovedMerges.stage datasetTick approvedInDataset).staged = 1 := by
    decide +kernel
  constructor
  · intro hagree
    have hsame := hagree.1
    rw [hcontrol, hdispatcher] at hsame
    cases hsame
  · exact ⟨hcontrol, hdispatcher, hstaged⟩

end EntityResolution.Steward
