/-
# Approval ticks over time

A tick that staged a review has to leave a job behind that will drain it. The enqueue at its end
is idempotent on `approval:{org}:{n}`, where `n` counts the reviews the tick selected, and the
queue answers a key it has seen with the job it has, finished or not. The second tick of an org
that selects `n` reviews enqueues nothing.

The history below interleaves ticks of either executor with what else writes the tables. Between
a tick's staging and its enqueue anything may happen: they are separate statements.
-/

import EntityResolution.Foundations.Runs
import EntityResolution.Steward.Approval

namespace EntityResolution.Steward

open EntityResolution.Collections EntityResolution.Runs
open EntityResolution.Executor (JobState)

/-- A statement of another writer: the tag endpoints, the steward endpoints, the drains, the
queue's clients, and the dispatcher's and the executor's moves of a job. -/
inductive Move
  | createTag (tag : Tag)
  | retireTag (orgId tagId : String)
  | applyTag (orgId datasetId : String) (application : Application)
  | unapplyTag (datasetId : String) (application : Application)
  | stage (actionId orgId datasetId : String) (action : StewardAction) (createdBy : String)
      (createdAt : ℤ)
  | markApplied (actionId : String)
  | enqueue (jobId : String) (job : QueuedJob)
  | setJobState (jobId : String) (state : JobState)

/-- `create_tag`: at most one active tag of an org has a name. -/
def createTag (tag : Tag) (plane : Plane) : Plane :=
  if plane.tags.any fun other =>
      other.id = tag.id || (other.orgId = tag.orgId && other.name = tag.name && other.active) then
    plane
  else { plane with tags := plane.tags ++ [{ tag with active := true }] }

/-- `retire_tag`. -/
def retireTag (orgId tagId : String) (plane : Plane) : Plane :=
  { plane with
    tags := plane.tags.map fun tag =>
      if tag.orgId = orgId ∧ tag.id = tagId then { tag with active := false } else tag }

/-- `apply_tag`: an active tag of the org, once on each subject. -/
def applyTag (orgId datasetId : String) (application : Application) (plane : Plane) : Plane :=
  if plane.tags.any fun tag => tag.orgId = orgId && tag.id = application.tagId && tag.active then
    { plane with taggings := plane.taggings.insertIfNew application datasetId }
  else plane

/-- `mark_action_applied`. -/
def markApplied (actionId : String) (plane : Plane) : Plane :=
  { plane with
    actions := plane.actions.map fun id action =>
      if id = actionId then { action with state := .applied } else action }

/-- A job moves to a state. -/
def setJobState (jobId : String) (state : JobState) (plane : Plane) : Plane :=
  { plane with
    jobs := plane.jobs.map fun id job => if id = jobId then { job with state := state } else job }

def Plane.move (plane : Plane) : Move → Plane
  | .createTag tag => createTag tag plane
  | .retireTag orgId tagId => retireTag orgId tagId plane
  | .applyTag orgId datasetId application => applyTag orgId datasetId application plane
  | .unapplyTag datasetId application =>
      Steward.unapplyTag datasetId application.tagId application.subjectType
        application.subjectId plane
  | .stage actionId orgId datasetId action createdBy createdAt =>
      (stageAction actionId orgId (some datasetId) action createdBy createdAt plane).getD plane
  | .markApplied actionId => markApplied actionId plane
  | .enqueue jobId job => (Steward.enqueue jobId job plane).getD plane
  | .setJobState jobId state => setJobState jobId state plane

/-- Which of the two executors runs the org's approval ticks. -/
inductive Gate
  | control
  | dispatcher

/-- The staging of a tick. -/
def Gate.stage : Gate → Tick → Plane → Staging
  | .control => StageApproved.stage
  | .dispatcher => ApplyApprovedMerges.stage

/-- A move of another writer, or a tick with the moves between its staging and its enqueue. -/
inductive Event
  | move (move : Move)
  | tick (gate : Gate) (tick : Tick) (between : List Move)

/-- The tables at a tick's enqueue. -/
def beforeEnqueue (gate : Gate) (tick : Tick) (between : List Move) (plane : Plane) : Plane :=
  between.foldl Plane.move (gate.stage tick plane).plane

/-- The tables after a tick. -/
def afterTick (gate : Gate) (tick : Tick) (between : List Move) (plane : Plane) : Plane :=
  enqueueCorrections tick (gate.stage tick plane) (beforeEnqueue gate tick between plane)

def Plane.step (plane : Plane) : Event → Plane
  | .move move => plane.move move
  | .tick gate tick between => afterTick gate tick between plane

/-- The states a job is in once it is done. -/
def Finished (state : JobState) : Bool :=
  state = .succeeded || state = .failed || state = .canceled

/-- The job was enqueued after the first of the moments, or was queued at one of them. -/
def QueuedSince (moments : List Plane) (jobId : String) : Prop :=
  (∀ first ∈ moments.head?, jobId ∉ first.jobs) ∨
    ∃ moment ∈ moments, ∃ job, moment.jobs[jobId]? = some job ∧ job.state = .queued

/-- An `apply_corrections` job of the org that is not finished and reads the pending actions
after the first of the moments. -/
def DrainAhead (orgId : String) (moments : List Plane) (plane : Plane) : Prop :=
  ∃ (jobId : String) (job : QueuedJob), plane.jobs[jobId]? = some job ∧
    job.kind = .applyCorrections ∧ job.orgId = orgId ∧ Finished job.state = false ∧
      QueuedSince moments jobId

/-- The tables from a tick's staging to its enqueue. -/
def momentsOf (gate : Gate) (tick : Tick) (between : List Move) (plane : Plane) : List Plane :=
  between.scanl Plane.move (gate.stage tick plane).plane

/-- A tick that staged a review leaves a job that will drain it. -/
def Applied (plane : Plane) : Event → Prop
  | .move _ => True
  | .tick gate tick between =>
      (gate.stage tick plane).staged ≠ 0 →
        DrainAhead tick.orgId (momentsOf gate tick between plane)
          (afterTick gate tick between plane)

/-- The insert of a tick's job gets through: its statement succeeds, and no job of the org has
its key, nor any job its id. -/
def KeyUnused (tick : Tick) (staging : Staging) (plane : Plane) : Prop :=
  tick.enqueueFails = false ∧ tick.jobId ∉ plane.jobs ∧
    ∀ (jobId : String) (job : QueuedJob), plane.jobs[jobId]? = some job → job.orgId = tick.orgId →
      job.idempotencyKey ≠ (tick.corrections staging).idempotencyKey

/-- A tick that staged a review finds its key unused, or finds a job that will drain it. -/
def EnqueuesOrFinds (plane : Plane) : Event → Prop
  | .move _ => True
  | .tick gate tick between =>
      (gate.stage tick plane).staged ≠ 0 →
        KeyUnused tick (gate.stage tick plane) (beforeEnqueue gate tick between plane) ∨
          DrainAhead tick.orgId (momentsOf gate tick between plane)
            (beforeEnqueue gate tick between plane)

section Enqueue

variable {plane : Plane} {tick : Tick} {staging : Staging} {jobId : String} {job : QueuedJob}

theorem jobOfKey_eq_none_iff {orgId key : String} :
    jobOfKey orgId (some key) plane = none ↔
      ∀ (jobId : String) (job : QueuedJob), plane.jobs[jobId]? = some job → job.orgId = orgId →
        job.idempotencyKey ≠ some key := by
  simp only [jobOfKey, Option.bind_some, List.find?_eq_none, Bool.and_eq_true, decide_eq_true_eq,
    not_and]
  constructor
  · intro hnone jobId job hrow
    exact hnone (jobId, job) (BTreeMap.mem_toList.mpr hrow)
  · intro hnone entry hentry
    exact hnone entry.1 entry.2 (BTreeMap.mem_toList.mp hentry)

/-- A tick whose insert gets through adds its job, queued. -/
theorem enqueueCorrections_of_unused (hstaged : staging.staged ≠ 0)
    (hunused : KeyUnused tick staging plane) :
    enqueueCorrections tick staging plane =
      { plane with jobs := plane.jobs.insert tick.jobId (tick.corrections staging) } := by
  obtain ⟨hlands, hid, hkey⟩ := hunused
  have hnone : jobOfKey (tick.corrections staging).orgId
      (tick.corrections staging).idempotencyKey plane = none :=
    jobOfKey_eq_none_iff.mpr hkey
  have hrun : ¬(staging.staged = 0 ∨ tick.enqueueFails = true) := by
    simp [hstaged, hlands]
  rw [enqueueCorrections, if_neg hrun, enqueue, hnone]
  simp only [if_neg hid]
  rfl

/-- A tick whose insert does not get through leaves the tables as they are. -/
theorem enqueueCorrections_of_used (hused : ¬ KeyUnused tick staging plane) :
    enqueueCorrections tick staging plane = plane := by
  by_cases hskip : staging.staged = 0 ∨ tick.enqueueFails = true
  · rw [enqueueCorrections, if_pos hskip]
  · rw [enqueueCorrections, if_neg hskip, enqueue]
    cases hkey : jobOfKey (tick.corrections staging).orgId
        (tick.corrections staging).idempotencyKey plane with
    | some entry => rfl
    | none =>
      have hlands : tick.enqueueFails = false := by simpa using (not_or.mp hskip).2
      have hid : tick.jobId ∈ plane.jobs := by
        by_contra hfresh
        exact hused ⟨hlands, hfresh, jobOfKey_eq_none_iff.mp hkey⟩
      simp only [if_pos hid]
      rfl

theorem getElem?_enqueue_of_mem {newId : String} {new : QueuedJob}
    (hrow : plane.jobs[jobId]? = some job) :
    ((enqueue newId new plane).getD plane).jobs[jobId]? = some job := by
  rw [enqueue]
  cases jobOfKey new.orgId new.idempotencyKey plane with
  | some entry => exact hrow
  | none =>
    by_cases hid : newId ∈ plane.jobs
    · simp only [if_pos hid, Option.getD_none]
      exact hrow
    · simp only [if_neg hid, Option.getD_some, BTreeMap.getElem?_insert_eq_ite]
      have hne : newId ≠ jobId := by
        intro hsame
        rw [hsame] at hid
        exact hid (BTreeMap.mem_iff_exists_getElem?.mpr ⟨job, hrow⟩)
      rw [if_neg hne]
      exact hrow

end Enqueue

section Moves

variable {plane : Plane} {jobId : String}

theorem jobs_createTag (tag : Tag) : (createTag tag plane).jobs = plane.jobs := by
  rw [createTag]
  split <;> rfl

theorem jobs_applyTag (orgId datasetId : String) (application : Application) :
    (applyTag orgId datasetId application plane).jobs = plane.jobs := by
  rw [applyTag]
  split <;> rfl

theorem jobs_stageAction {actionId orgId createdBy : String} {datasetId : Option String}
    {action : StewardAction} {createdAt : ℤ} :
    ((stageAction actionId orgId datasetId action createdBy createdAt plane).getD plane).jobs =
      plane.jobs := by
  cases datasetId with
  | none => rfl
  | some dataset =>
    simp only [stageAction]
    split <;> rfl

theorem mem_jobs_move (move : Move) (hjob : jobId ∈ plane.jobs) :
    jobId ∈ (plane.move move).jobs := by
  cases move with
  | createTag tag =>
    change jobId ∈ (createTag tag plane).jobs
    rw [jobs_createTag]
    exact hjob
  | retireTag orgId tagId => exact hjob
  | applyTag orgId datasetId application =>
    change jobId ∈ (applyTag orgId datasetId application plane).jobs
    rw [jobs_applyTag]
    exact hjob
  | unapplyTag datasetId application => exact hjob
  | stage actionId orgId datasetId action createdBy createdAt =>
    change jobId ∈ ((stageAction actionId orgId (some datasetId) action createdBy createdAt
      plane).getD plane).jobs
    rw [jobs_stageAction]
    exact hjob
  | markApplied actionId => exact hjob
  | enqueue newId new =>
    obtain ⟨job, hrow⟩ := BTreeMap.mem_iff_exists_getElem?.mp hjob
    exact BTreeMap.mem_iff_exists_getElem?.mpr ⟨job, getElem?_enqueue_of_mem hrow⟩
  | setJobState otherId state =>
    obtain ⟨job, hrow⟩ := BTreeMap.mem_iff_exists_getElem?.mp hjob
    apply BTreeMap.mem_iff_exists_getElem?.mpr
    change ∃ other, (plane.jobs.map _)[jobId]? = some other
    rw [BTreeMap.getElem?_map_eq, hrow]
    exact ⟨_, rfl⟩

theorem mem_jobs_foldl_move {moves : List Move} (hjob : jobId ∈ plane.jobs) :
    jobId ∈ (moves.foldl Plane.move plane).jobs := by
  induction moves generalizing plane with
  | nil => exact hjob
  | cons move moves ih => exact ih (mem_jobs_move move hjob)

end Moves

/-! ## A tick's job -/

section Ticks

variable {plane : Plane} {gate : Gate} {tick : Tick} {between : List Move}

theorem head?_momentsOf :
    (momentsOf gate tick between plane).head? = some (gate.stage tick plane).plane := by
  rw [momentsOf, List.head?_scanl]

/-- The job a tick inserts is one that will drain. -/
theorem drainAhead_of_unused (hstaged : (gate.stage tick plane).staged ≠ 0)
    (hunused : KeyUnused tick (gate.stage tick plane) (beforeEnqueue gate tick between plane)) :
    DrainAhead tick.orgId (momentsOf gate tick between plane)
      (afterTick gate tick between plane) := by
  have hnew : tick.jobId ∉ (gate.stage tick plane).plane.jobs :=
    fun hold => hunused.2.1 (mem_jobs_foldl_move hold)
  use tick.jobId, tick.corrections (gate.stage tick plane)
  rw [afterTick, enqueueCorrections_of_unused hstaged hunused]
  constructor
  · rw [BTreeMap.getElem?_insert_eq_ite, if_pos rfl]
  · have hsince : QueuedSince (momentsOf gate tick between plane) tick.jobId := by
      left
      rw [head?_momentsOf]
      intro first hfirst
      cases hfirst
      exact hnew
    exact ⟨rfl, rfl, rfl, hsince⟩

/-- A job that will drain is left as it is by the enqueue. -/
theorem drainAhead_afterTick {orgId : String} {moments : List Plane}
    (hahead : DrainAhead orgId moments (beforeEnqueue gate tick between plane)) :
    DrainAhead orgId moments (afterTick gate tick between plane) := by
  obtain ⟨jobId, job, hrow, hwill⟩ := hahead
  use jobId, job
  constructor
  · rw [afterTick, enqueueCorrections]
    split
    · exact hrow
    · exact getElem?_enqueue_of_mem hrow
  · exact hwill

/-- A tick is applied when its key is unused at its enqueue or a job will drain it anyway, and
only then. -/
theorem applied_iff (event : Event) : Applied plane event ↔ EnqueuesOrFinds plane event := by
  cases event with
  | move move => exact Iff.rfl
  | tick gate tick between =>
    apply imp_congr_right
    intro hstaged
    constructor
    · intro happlied
      by_cases hunused :
          KeyUnused tick (gate.stage tick plane) (beforeEnqueue gate tick between plane)
      · exact Or.inl hunused
      · rw [afterTick, enqueueCorrections_of_used hunused] at happlied
        exact Or.inr happlied
    · intro hwhen
      cases hwhen with
      | inl hunused => exact drainAhead_of_unused hstaged hunused
      | inr hahead => exact drainAhead_afterTick hahead

end Ticks

/-- Along a history every tick that staged a review leaves a job that will drain it, exactly when
every such tick finds its key unused at its enqueue, or finds a job that will drain it. -/
theorem approved_applied_iff (plane : Plane) (events : List Event) :
    Along Plane.step Applied plane events ↔ Along Plane.step EnqueuesOrFinds plane events := by
  apply along_iff_along (fun _ => True)
  · intro state event _
    exact applied_iff event
  · intro state event _ _
    trivial
  · trivial

/-- The dispatcher's tick of the dataset `people`, under its own job id. -/
def peopleTick (jobId : String) : Tick where
  orgId := "acme"
  datasetId := some "people"
  approvalTag := "approved"
  actionId review := "action:" ++ review.subjectId
  createdAt := 1
  jobId := jobId
  stageFails _ := false
  untagFails _ := false
  enqueueFails := false

/-- A review is approved and applied; later a second one is approved. -/
def twoApprovals : List Event :=
  [.move (.createTag ⟨"tag-1", "acme", "approved", true⟩),
    .move (.applyTag "acme" "people" ⟨"tag-1", .review, "review-1"⟩),
    .tick .dispatcher (peopleTick "job-1") [],
    .move (.setJobState "job-1" .succeeded),
    .move (.applyTag "acme" "people" ⟨"tag-1", .review, "review-2"⟩)]

/-- The tick after both. -/
def secondTick : Event := .tick .dispatcher (peopleTick "job-2") []

/-- The jobs and the states they are in. -/
def jobStates (plane : Plane) : List (String × JobState) :=
  plane.jobs.toList.map fun entry => (entry.1, entry.2.state)

/-- The second tick stages its review, and its enqueue answers with the finished job. -/
theorem second_tick_enqueues_nothing :
    (Gate.dispatcher.stage (peopleTick "job-2")
        (twoApprovals.foldl Plane.step Plane.fresh)).staged = 1 ∧
      jobStates ((twoApprovals.foldl Plane.step Plane.fresh).step secondTick) =
        [("job-1", .succeeded)] ∧
      ¬ Along Plane.step Applied Plane.fresh (twoApprovals ++ [secondTick]) := by
  have hstaged : (Gate.dispatcher.stage (peopleTick "job-2")
      (twoApprovals.foldl Plane.step Plane.fresh)).staged = 1 := by
    decide +kernel
  have hjobs : jobStates ((twoApprovals.foldl Plane.step Plane.fresh).step secondTick) =
      [("job-1", .succeeded)] := by
    decide +kernel
  apply And.intro hstaged
  apply And.intro hjobs
  intro hrun
  have hstages : (Gate.dispatcher.stage (peopleTick "job-2")
      (twoApprovals.foldl Plane.step Plane.fresh)).staged ≠ 0 := by
    rw [hstaged]
    decide
  obtain ⟨jobId, job, hrow, -, -, hunfinished, -⟩ := hrun.last hstages
  have hentry : (jobId, job.state) ∈
      jobStates ((twoApprovals.foldl Plane.step Plane.fresh).step secondTick) :=
    List.mem_map.mpr ⟨(jobId, job), BTreeMap.mem_toList.mpr hrow, rfl⟩
  rw [hjobs, List.mem_singleton] at hentry
  have hstate : job.state = .succeeded := congrArg Prod.snd hentry
  rw [hstate] at hunfinished
  cases hunfinished

end EntityResolution.Steward
