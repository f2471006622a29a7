/-
# One live try per task

The tries of a task are the rows with its job and name, by number. Every step of the control
plane keeps them numbered `1..n` with at most the last one live: statements that move a row along
keep its liveness, and the rotations archive the last try and insert the next one.

Three of the four rotations do both in one transaction. A completed restart does not: the
executor archives the row in one statement and inserts the successor in the next, and when it
stops in between, the task has no live row and no statement gives it one again.
-/

import EntityResolution.Foundations.Runs
import EntityResolution.Executor.Transitions

namespace EntityResolution.Executor

open EntityResolution.Collections EntityResolution.Histories EntityResolution.Runs
open EntityResolution.Statements

universe u v w

variable {J : Type u} {T : Type v} {V : Type w} [LinearOrder J] [LinearOrder T]

/-- The tries of a task, by number. -/
def tries (tasks : TaskTable J T V) (job : J) (task : T) : ℕ → Option (TaskInstance J T V) :=
  fun number => tasks[(⟨job, task, number⟩ : AttemptId J T)]?

/-- The tries of every task are numbered from one, and only the last may be live. -/
def AllNumbered (tasks : TaskTable J T V) : Prop :=
  ∀ job task, ∃ n, Numbered TaskInstance.live (tries tasks job task) n

/-- The task has a live try. -/
def HasLive (tasks : TaskTable J T V) (job : J) (task : T) : Prop :=
  Alive TaskInstance.live (tries tasks job task)

theorem hasLive_of_getElem? {tasks : TaskTable J T V} {id : AttemptId J T}
    {row : TaskInstance J T V} (hrow : tasks[id]? = some row) (hlive : row.live = true) :
    HasLive tasks id.job id.task :=
  ⟨id.tryNumber, row, hrow, hlive⟩

theorem not_hasLive_iff {tasks : TaskTable J T V} {job : J} {task : T} :
    ¬ HasLive tasks job task ↔ liveRow tasks job task = none := by
  rw [liveRow_eq_none_iff]
  apply Iff.intro
  · intro hnone number row hrow
    rw [← Bool.not_eq_true]
    intro hlive
    exact hnone ⟨number, row, hrow, hlive⟩
  · intro hdead hlive
    obtain ⟨number, row, hrow, hlive⟩ := hlive
    rw [hdead number row hrow] at hlive
    cases hlive

theorem AllNumbered.live_unique {tasks : TaskTable J T V} (hnumbered : AllNumbered tasks)
    {first second : AttemptId J T} {row other : TaskInstance J T V}
    (hrow : tasks[first]? = some row) (hlive : row.live = true)
    (hother : tasks[second]? = some other) (hlive' : other.live = true)
    (hjob : first.job = second.job) (htask : first.task = second.task) :
    first = second ∧ row = other := by
  obtain ⟨n, hn⟩ := hnumbered first.job first.task
  have hsecond : tries tasks first.job first.task second.tryNumber = some other := by
    rw [tries, hjob, htask]
    exact hother
  obtain ⟨hnumber, hsame⟩ := hn.live_unique hrow hlive hsecond hlive'
  refine ⟨?_, hsame⟩
  ext
  · exact hjob
  · exact htask
  · exact hnumber

theorem AllNumbered.liveRow_eq {tasks : TaskTable J T V} (hnumbered : AllNumbered tasks)
    {id : AttemptId J T} {row : TaskInstance J T V} (hrow : tasks[id]? = some row)
    (hlive : row.live = true) : liveRow tasks id.job id.task = some (id, row) := by
  cases hfound : liveRow tasks id.job id.task with
  | none =>
      rw [liveRow_eq_none_iff] at hfound
      rw [hfound id.tryNumber row hrow] at hlive
      cases hlive
  | some entry =>
      obtain ⟨hentry, hjob, htask, hentryLive⟩ := liveRow_some hfound
      obtain ⟨hid, hsame⟩ := hnumbered.live_unique hentry hentryLive hrow hlive hjob htask
      rw [← hid, ← hsame]

/-- A change of the table that keeps the numbering, loses no row, and adds only further tries. -/
structure KeepsTries (tasks later : TaskTable J T V) : Prop where
  numbered : AllNumbered tasks → AllNumbered later
  kept : ∀ id : AttemptId J T, id ∈ tasks → id ∈ later
  known : ∀ id : AttemptId J T, id ∈ later →
    ∃ number, (⟨id.job, id.task, number⟩ : AttemptId J T) ∈ tasks

/-- A change that moreover leaves no task without its live try. -/
structure CarriesTries (tasks later : TaskTable J T V) : Prop extends KeepsTries tasks later where
  alive : AllNumbered tasks → ∀ job task, HasLive tasks job task → HasLive later job task

namespace CarriesTries

variable {tasks later final : TaskTable J T V}

theorem refl (tasks : TaskTable J T V) : CarriesTries tasks tasks where
  numbered hnumbered := hnumbered
  kept _ hid := hid
  known id hid := ⟨id.tryNumber, hid⟩
  alive _ _ _ halive := halive

theorem trans (hfirst : CarriesTries tasks later) (hsecond : CarriesTries later final) :
    CarriesTries tasks final where
  numbered hnumbered := hsecond.numbered (hfirst.numbered hnumbered)
  kept id hid := hsecond.kept id (hfirst.kept id hid)
  known id hid := by
    obtain ⟨number, hnumber⟩ := hsecond.known id hid
    exact hfirst.known ⟨id.job, id.task, number⟩ hnumber
  alive hnumbered job task halive :=
    hsecond.alive (hfirst.numbered hnumbered) job task (hfirst.alive hnumbered job task halive)

end CarriesTries

/-- Rewriting rows in place keeps the tries when no archived row comes back to life. -/
theorem keepsTries_of_rewritten {tasks later : TaskTable J T V}
    (hrewritten : Rewritten (fun _ old new => new.live = true → old.live = true) tasks later) :
    KeepsTries tasks later where
  numbered hnumbered job task := by
    obtain ⟨n, hn⟩ := hnumbered job task
    refine ⟨n, hn.rewrite ?_ ?_⟩
    · intro number
      exact hrewritten.isSome_eq _
    · intro number new hnew hlive
      obtain ⟨old, hold, hkept⟩ := hrewritten.backward _ new hnew
      exact ⟨old, hold, hkept hlive⟩
  kept id hid := by
    rw [Std.ExtTreeMap.mem_iff_isSome_getElem?] at hid ⊢
    rw [hrewritten.isSome_eq]
    exact hid
  known id hid := by
    refine ⟨id.tryNumber, ?_⟩
    rw [Std.ExtTreeMap.mem_iff_isSome_getElem?] at hid ⊢
    rw [← hrewritten.isSome_eq]
    exact hid

/-- Rewriting rows in place carries the tries when it keeps their liveness. -/
theorem carriesTries_of_rewritten {tasks later : TaskTable J T V}
    (hrewritten : Rewritten (fun _ old new => new.live = old.live) tasks later) :
    CarriesTries tasks later where
  toKeepsTries := by
    apply keepsTries_of_rewritten
    apply hrewritten.mono
    intro _ old new hsame hlive
    rw [← hsame]
    exact hlive
  alive _ job task halive := by
    obtain ⟨number, old, hold, hlive⟩ := halive
    obtain ⟨new, hnew, hsame⟩ := hrewritten.forward _ old hold
    exact ⟨number, new, hnew, hsame.trans hlive⟩

/-- A statement that keeps the liveness of the rows it hits carries the tries. -/
theorem carriesTries_run {tasks : TaskTable J T V} {update : TaskUpdate J T V}
    (hhit : ∀ id row, tasks[id]? = some row → update.hit id row = true →
      (update.set id row).live = row.live) : CarriesTries tasks (update.run tasks) := by
  apply carriesTries_of_rewritten
  apply Update.rewritten
  · intro _ _
    rfl
  · exact hhit

/-- Inserting a successor carries the tries. -/
theorem carriesTries_insertSuccessor {tasks later : TaskTable J T V} {id : AttemptId J T}
    {reasons : List ArchivedReason} {successor : TaskInstance J T V → TaskInstance J T V}
    (hlater : insertSuccessor tasks id reasons successor = some later) :
    CarriesTries tasks later := by
  rcases insertSuccessor_cases hlater with rfl | ⟨row, hrow, _, _, hdead, habsent, rfl⟩
  · exact CarriesTries.refl later
  have hkept (k : AttemptId J T) (other : TaskInstance J T V) (hother : tasks[k]? = some other) :
      (tasks.insert id.next (successor row))[k]? = some other := by
    rw [BTreeMap.getElem?_insert_eq_ite, if_neg]
    · exact hother
    · intro hsame
      rw [← hsame, habsent] at hother
      cases hother
  refine ⟨⟨?_, ?_, ?_⟩, ?_⟩
  · intro hnumbered job task
    obtain ⟨n, hn⟩ := hnumbered job task
    by_cases hline : id.job = job ∧ id.task = task
    · -- the history of this task grows by the inserted row
      obtain ⟨rfl, rfl⟩ := hline
      have hlast : id.tryNumber = n := hn.last_of_next_none hrow habsent
      have hnew : tries (tasks.insert id.next (successor row)) id.job id.task (n + 1) =
          some (successor row) := by
        rw [← hlast]
        exact (BTreeMap.getElem?_insert_eq_ite tasks _ _ _).trans (if_pos rfl)
      refine ⟨n + 1, hn.append ?_ hnew ?_⟩
      · exact not_hasLive_iff.mpr hdead
      · intro number hne
        apply (BTreeMap.getElem?_insert_eq_ite tasks _ _ _).trans
        rw [if_neg]
        · rfl
        · intro hsame
          apply hne
          rw [← hlast]
          exact (congrArg AttemptId.tryNumber hsame).symm
    · refine ⟨n, ?_⟩
      have hsame : tries (tasks.insert id.next (successor row)) job task =
          tries tasks job task := by
        funext number
        apply (BTreeMap.getElem?_insert_eq_ite tasks _ _ _).trans
        rw [if_neg]
        · rfl
        · intro hkey
          exact hline ⟨congrArg AttemptId.job hkey, congrArg AttemptId.task hkey⟩
      rw [hsame]
      exact hn
  · intro k hk
    rw [BTreeMap.mem_insert_iff]
    exact .inr hk
  · intro k hk
    rw [BTreeMap.mem_insert_iff] at hk
    rcases hk with rfl | hk
    · refine ⟨id.tryNumber, ?_⟩
      rw [BTreeMap.mem_iff_exists_getElem?]
      exact ⟨row, hrow⟩
    · exact ⟨k.tryNumber, hk⟩
  · intro _ job task halive
    obtain ⟨number, old, hold, hlive⟩ := halive
    exact ⟨number, old, hkept _ old hold, hlive⟩

/-- Archiving the live try of a task and inserting its successor carries the tries. -/
theorem carriesTries_rotate {tasks later : TaskTable J T V} {archive : TaskUpdate J T V}
    {id : AttemptId J T} {row : TaskInstance J T V} {reason : ArchivedReason}
    {reasons : List ArchivedReason} {successor : TaskInstance J T V → TaskInstance J T V}
    (hnumbered : AllNumbered tasks) (hrow : tasks[id]? = some row) (hlive : row.live = true)
    (honly : ∀ k other, archive.hit k other = true → k = id)
    (hdead : (archive.row id row).live = false)
    (hreason : (archive.row id row).archivedReason = some reason) (hmem : reason ∈ reasons)
    (hsuccessor : ∀ old, (successor old).live = true)
    (hlater : insertSuccessor (archive.run tasks) id reasons successor = some later) :
    CarriesTries tasks later := by
  have harchived : (archive.run tasks)[id]? = some (archive.row id row) := by
    rw [Update.getElem?_run, hrow]
    rfl
  have hsame (k : AttemptId J T) (hk : k ≠ id) : (archive.run tasks)[k]? = tasks[k]? := by
    rw [Update.getElem?_run]
    cases hother : tasks[k]? with
    | none => rfl
    | some other =>
        rw [Option.map_some, Update.row, if_neg]
        intro hhit
        exact hk (honly k other hhit)
  have hkeeps : KeepsTries tasks (archive.run tasks) := by
    apply keepsTries_of_rewritten
    apply Update.rewritten
    · intro _ _ hlive
      exact hlive
    · intro k old hold hhit _
      cases honly k old hhit
      rw [hrow] at hold
      cases hold
      exact hlive
  have hinsert := carriesTries_insertSuccessor hlater
  refine ⟨⟨?_, ?_, ?_⟩, ?_⟩
  · intro _
    exact hinsert.numbered (hkeeps.numbered hnumbered)
  · intro k hk
    exact hinsert.kept k (hkeeps.kept k hk)
  · intro k hk
    obtain ⟨number, hnumber⟩ := hinsert.known k hk
    exact hkeeps.known ⟨k.job, k.task, number⟩ hnumber
  · intro _ job task halive
    obtain ⟨number, old, hold, holdLive⟩ := halive
    by_cases hid : (⟨job, task, number⟩ : AttemptId J T) = id
    · subst hid
      exact exists_live_of_insertSuccessor hlater harchived hdead hreason hmem (hsuccessor _)
    · apply hinsert.alive (hkeeps.numbered hnumbered)
      refine ⟨number, old, ?_, holdLive⟩
      exact (hsame _ hid).trans hold

/-- Archiving the cleared rows and inserting their successors carries the tries. -/
theorem carriesTries_archiveAndInsert {job : J} {taskIds : List T} {keep : AttemptId J T → Bool}
    {resourceClass : Option ResourceClass} {retries : ℤ} {tasks later : TaskTable J T V}
    (hlater : (((archiveCleared job taskIds).restrict keep).matched tasks).foldlM
      (fun table id => insertClearedTry table id resourceClass retries)
      (((archiveCleared job taskIds).restrict keep).run tasks) = some later) :
    CarriesTries tasks later := by
  have hkeeps : KeepsTries tasks (((archiveCleared job taskIds).restrict keep).run tasks) := by
    apply keepsTries_of_rewritten
    apply Update.rewritten
    · intro _ _ hlive
      exact hlive
    · intro k old _ _ hlive
      cases hlive
  have hinserts : CarriesTries (((archiveCleared job taskIds).restrict keep).run tasks) later := by
    apply foldlM_keeps (CarriesTries _) _ (CarriesTries.refl _) hlater
    intro id _ table next hcarried hnext
    exact hcarried.trans (carriesTries_insertSuccessor hnext)
  refine ⟨⟨?_, ?_, ?_⟩, ?_⟩
  · intro hnumbered
    exact hinserts.numbered (hkeeps.numbered hnumbered)
  · intro k hk
    exact hinserts.kept k (hkeeps.kept k hk)
  · intro k hk
    obtain ⟨number, hnumber⟩ := hinserts.known k hk
    exact hkeeps.known ⟨k.job, k.task, number⟩ hnumber
  · intro hnumbered j task halive
    obtain ⟨number, old, hold, holdLive⟩ := halive
    by_cases hhit : ((archiveCleared job taskIds).restrict keep).hit ⟨j, task, number⟩ old = true
    · -- the row is archived, and its own insert comes later in the fold
      have hmatched := Update.mem_matched.mpr ⟨old, hold, hhit⟩
      apply foldlM_reaches
        (fun table => ∃ row, table[(⟨j, task, number⟩ : AttemptId J T)]? = some row ∧
          row.live = false ∧ row.archivedReason = some .cleared)
        (fun table => HasLive table j task) _ _ hmatched _ _ hlater
      · intro id _ table next hrow hnext
        obtain ⟨row, hrow, hdead, hreason⟩ := hrow
        exact ⟨row, getElem?_of_insertSuccessor hnext hrow, hdead, hreason⟩
      · intro id _ table next hgoal hnext
        obtain ⟨m, row, hrow, hrowLive⟩ := hgoal
        exact ⟨m, row, getElem?_of_insertSuccessor hnext hrow, hrowLive⟩
      · intro table next hrow hnext
        obtain ⟨row, hrow, hdead, hreason⟩ := hrow
        exact exists_live_of_insertSuccessor hnext hrow hdead hreason (by simp) rfl
      · have hold' : tasks[(⟨j, task, number⟩ : AttemptId J T)]? = some old := hold
        refine ⟨((archiveCleared job taskIds).restrict keep).set ⟨j, task, number⟩ old, ?_, rfl,
          rfl⟩
        rw [Update.getElem?_run, hold', Option.map_some, Update.row, if_pos hhit]
    · apply hinserts.alive (hkeeps.numbered hnumbered)
      have hold' : tasks[(⟨j, task, number⟩ : AttemptId J T)]? = some old := hold
      refine ⟨number, old, ?_, holdLive⟩
      rw [tries, Update.getElem?_run, hold', Option.map_some, Update.row, if_neg hhit]

/-! ## The transactions -/

/-- A retried failure carries the tries: the successor follows in the same transaction. -/
theorem carriesTries_retry {jobs : JobTable J V} {tasks later : TaskTable J T V}
    {id : AttemptId J T} {failure : TaskFailure J T} {now hash : ℤ} {row : TaskInstance J T V}
    (hnumbered : AllNumbered tasks) (hrow : tasks[id]? = some row)
    (hhit : (archiveTry jobs id failure).hit id row = true)
    (hretries : retries failure id row = true)
    (hlater : insertRetryTry ((archiveTry jobs id failure).run tasks) id failure.escalate
      failure.backoff now hash = some later) : CarriesTries tasks later := by
  have hlive : row.live = true := by
    simp only [archiveTry, Bool.and_eq_true] at hhit
    exact hhit.1.1.1.2
  have hdead : ((archiveTry jobs id failure).row id row).live = false := by
    rw [Update.row, if_pos hhit]
    simp [archiveTry, hretries]
  have hreason : ((archiveTry jobs id failure).row id row).archivedReason = some .retry := by
    rw [Update.row, if_pos hhit]
    simp [archiveTry, hretries]
  exact carriesTries_rotate hnumbered hrow hlive (fun _ _ => archiveTry_only) hdead hreason
    List.mem_cons_self (fun _ => rfl) hlater

/-- Recording the verdicts of a pass carries the tries. -/
theorem carriesTries_recordVerdicts {jobs : JobTable J V} {dag : Dag T}
    {snapshot : Snapshot J T V} {actions : List (ℕ × PassAction)} {tasks later : TaskTable J T V}
    (hlater : actions.foldlM (recordVerdict jobs dag snapshot) tasks = some later) :
    CarriesTries tasks later := by
  apply foldlM_keeps (CarriesTries tasks) _ (CarriesTries.refl tasks) hlater
  intro action _ table next hcarried hnext
  apply hcarried.trans
  rw [recordVerdict] at hnext
  split at hnext
  · cases hnext
    exact CarriesTries.refl _
  · split at hnext
    · cases hnext
      exact CarriesTries.refl _
    · dsimp only at hnext
      split at hnext
      · cases hnext
      · cases hnext
        apply carriesTries_run
        intro id row _ _
        cases action.2 <;> rfl

/-- A clear carries the tries: every row it archives gets its successor. -/
theorem carriesTries_clearTasks {job : J} {clear : OpenClear J T}
    {archived : List (AttemptId J T)} {tasks later : TaskTable J T V}
    (hlater : clearTasks job clear archived tasks = some later) : CarriesTries tasks later := by
  rw [clearTasks, Option.map_eq_some_iff] at hlater
  obtain ⟨rotated, hrotated, rfl⟩ := hlater
  have hrestart : CarriesTries tasks (((restartCleared job clear.taskIds
      clear.resourceClass).restrict (clear.restarted.contains ·)).run tasks) := by
    apply carriesTries_run
    intro id row _ _
    rfl
  have hreset : CarriesTries rotated ((resetPending job clear.taskIds clear.retries
      clear.resourceClass).run rotated) := by
    apply carriesTries_run
    intro id row _ _
    rfl
  exact (hrestart.trans (carriesTries_archiveAndInsert hrotated)).trans hreset

theorem carriesTries_finish (finishedId : AttemptId J T) (podUid : String) (skipped : Bool)
    (outcome : Outcome) (output : Option V) (exitCode : Option ℤ) {tasks : TaskTable J T V} :
    CarriesTries tasks ((finish finishedId podUid skipped outcome output exitCode).run tasks) := by
  apply carriesTries_run
  intro id row _ _
  rfl

/-- The job has been planned. -/
def isPlanned (jobs : JobTable J V) (job : J) : Bool :=
  (jobs[job]?).any fun row => row.runId.isSome

/-- The task belongs to the graph of a planned job. -/
def Planned (dagFor : J → Dag T) (jobs : JobTable J V) (job : J) (task : T) : Prop :=
  isPlanned jobs job = true ∧ task ∈ (dagFor job).taskIds

/-- Every planned task has tries `1..n` and exactly one live try, the last. -/
def OneLiveTry (dagFor : J → Dag T) (ledger : Ledger J T V) : Prop :=
  ∀ job task, Planned dagFor ledger.jobs job task →
    ∃ n row, Numbered TaskInstance.live (tries ledger.tasks job task) n ∧
      tries ledger.tasks job task n = some row ∧ row.live = true

/-- What holds of the tries in every reachable state: they are numbered, and they are the tries of
the planned tasks. -/
structure TriesSound (dagFor : J → Dag T) (ledger : Ledger J T V) : Prop where
  numbered : AllNumbered ledger.tasks
  planned : ∀ id : AttemptId J T, id ∈ ledger.tasks → Planned dagFor ledger.jobs id.job id.task
  complete : ∀ job task, Planned dagFor ledger.jobs job task →
    (⟨job, task, 1⟩ : AttemptId J T) ∈ ledger.tasks

theorem oneLiveTry_iff {dagFor : J → Dag T} {ledger : Ledger J T V}
    (hnumbered : AllNumbered ledger.tasks) :
    OneLiveTry dagFor ledger ↔
      ∀ job task, Planned dagFor ledger.jobs job task → HasLive ledger.tasks job task := by
  apply Iff.intro
  · intro hone job task hplanned
    obtain ⟨n, row, _, hrow, hlive⟩ := hone job task hplanned
    exact ⟨n, row, hrow, hlive⟩
  · intro halive job task hplanned
    obtain ⟨number, row, hrow, hlive⟩ := halive job task hplanned
    obtain ⟨n, hn⟩ := hnumbered job task
    cases hn.live_last number row hrow hlive
    exact ⟨number, row, hn, hrow, hlive⟩

omit [LinearOrder T] in
/-- A job update that keeps the run ids plans nothing. -/
theorem isPlanned_run {jobs : JobTable J V} {update : Update J (Job J V)}
    (hkept : ∀ job row, (update.set job row).runId = row.runId) (job : J) :
    isPlanned (update.run jobs) job = isPlanned jobs job := by
  rw [isPlanned, isPlanned, Update.getElem?_run]
  cases jobs[job]? with
  | none => rfl
  | some row =>
      simp only [Option.map_some, Option.any_some, Update.row]
      split
      · rw [hkept]
      · rfl

omit [LinearOrder T] in
theorem isPlanned_statement (jobs : JobTable J V) (statement : JobStatement J V) (job : J) :
    isPlanned (statement.run jobs) job = isPlanned jobs job := by
  cases statement with
  | enqueue enqueued orgId priority params resourceClass =>
      rw [JobStatement.run, enqueue]
      split
      · rfl
      · next habsent =>
          rw [isPlanned, isPlanned, BTreeMap.getElem?_insert_eq_ite]
          split
          · next hsame =>
              subst hsame
              have hnone : jobs[enqueued]? = none := by
                rw [← Option.not_isSome_iff_eq_none, ← Std.ExtTreeMap.contains_eq_isSome_getElem?]
                exact habsent
              rw [hnone]
              rfl
          · rfl
  | claim | refusePlan | cancel | resume =>
      apply isPlanned_run
      intro _ _
      rfl

section Step

variable (render : T → String) (dagFor : J → Dag T)

variable {render dagFor}

/-- Every change but planning and the archiving of a restarting row carries the tries. -/
theorem TaskChange.carriesTries {plane : ControlPlane J T V} {action : Action J T V}
    {later : TaskTable J T V} (hchange : TaskChange dagFor plane action later)
    (hnumbered : AllNumbered plane.ledger.tasks) (hplan : ∀ job, action ≠ .plan job)
    (hrestart : ¬ ArchivesRestarted plane action) :
    CarriesTries plane.ledger.tasks later := by
  cases hchange with
  | same => exact CarriesTries.refl _
  | statement statement =>
      apply carriesTries_run
      intro id row _ hhit
      exact (TaskStatement.quiet hhit).live
  | claimLaunch | claimControl =>
      apply carriesTries_run
      intro id row _ _
      rfl
  | plan job => exact absurd rfl (hplan job)
  | fail id failure now hash row hrow hhit hkept =>
      apply carriesTries_run
      intro k other hother hmatch
      cases archiveTry_only hmatch
      rw [hrow] at hother
      cases hother
      exact (archiveTry_quiet hmatch hkept).live
  | retry id failure now hash row later hrow hhit hretries _ hlater =>
      exact carriesTries_retry hnumbered hrow hhit hretries hlater
  | pass snapshot later _ hlater => exact carriesTries_recordVerdicts hlater
  | archiveRestarted id k8sJobName exitCode terminationReason harchives =>
      exact absurd harchives hrestart
  | insertClearedTry id later _ hlater => exact carriesTries_insertSuccessor hlater
  | clear job now clear archived later _ _ hlater => exact carriesTries_clearTasks hlater
  | finish finishedId podUid skipped outcome output exitCode next =>
      exact carriesTries_finish finishedId podUid skipped outcome output exitCode
  | advance finishedId podUid skipped outcome output exitCode args row =>
      apply (carriesTries_finish finishedId podUid skipped outcome output exitCode).trans
      apply carriesTries_run
      intro id row _ _
      rfl

theorem carriesTries_step {plane : ControlPlane J T V} {action : Action J T V}
    (hnumbered : AllNumbered plane.ledger.tasks) (hplan : ∀ job, action ≠ .plan job)
    (hrestart : ¬ ArchivesRestarted plane action) :
    CarriesTries plane.ledger.tasks (plane.step render dagFor action).ledger.tasks :=
  (taskChange_step plane action).carriesTries hnumbered hplan hrestart

theorem not_hasLive_archiveRestarted {tasks : TaskTable J T V} {id : AttemptId J T}
    {k8sJobName : Option (JobName J T)} {exitCode : Option ℤ} {terminationReason : Option String}
    {row : TaskInstance J T V} (hnumbered : AllNumbered tasks) (hrow : tasks[id]? = some row)
    (hcondition : row.live = true ∧ row.state = .restarting ∧ row.k8sJobName = k8sJobName) :
    ¬ HasLive ((archiveRestarted id k8sJobName exitCode terminationReason).run tasks) id.job
      id.task := by
  intro halive
  obtain ⟨number, new, hnew, hlive⟩ := halive
  obtain ⟨old, hold, hset⟩ := Update.getElem?_run_eq_some_iff.mp hnew
  rw [Update.row] at hset
  split at hset
  · rw [← hset] at hlive
    cases hlive
  · next hmiss =>
      -- another live row of the task contradicts the numbering
      subst hset
      obtain ⟨hkey, rfl⟩ := hnumbered.live_unique hold hlive hrow hcondition.1 rfl rfl
      apply hmiss
      rw [hkey]
      exact archiveRestarted_hit.mpr ⟨rfl, hcondition⟩

/-- Archiving a restarting row keeps the numbering, and leaves its task without a live try. -/
theorem keepsTries_of_archivesRestarted {plane : ControlPlane J T V} {action : Action J T V}
    (hrestart : ArchivesRestarted plane action) :
    KeepsTries plane.ledger.tasks (plane.step render dagFor action).ledger.tasks ∧
      (AllNumbered plane.ledger.tasks →
        ∃ id, id ∈ plane.ledger.tasks ∧
          ¬ HasLive (plane.step render dagFor action).ledger.tasks id.job id.task) := by
  cases action with
  | archiveRestarted id k8sJobName exitCode terminationReason =>
      rcases archiveRestarted_cases render dagFor plane id k8sJobName exitCode
        terminationReason with ⟨_, hnot⟩ | ⟨_, hstep⟩
      · exact absurd hrestart hnot
      · rw [hstep]
        refine ⟨?_, ?_⟩
        · apply keepsTries_of_rewritten
          apply Update.rewritten
          · intro _ _ hlive
            exact hlive
          · intro k old _ _ hlive
            cases hlive
        · intro hnumbered
          obtain ⟨_, _, row, hrow, hcondition⟩ := hrestart
          refine ⟨id, BTreeMap.mem_iff_exists_getElem?.mpr ⟨row, hrow⟩, ?_⟩
          exact not_hasLive_archiveRestarted hnumbered hrow hcondition
  | _ => cases hrestart

theorem JobChange.isPlanned_eq {plane : ControlPlane J T V} {action : Action J T V}
    {later : JobTable J V} (hchange : JobChange render dagFor plane action later)
    (hplan : ∀ job, action ≠ .plan job) (job : J) :
    isPlanned later job = isPlanned plane.ledger.jobs job := by
  cases hchange with
  | same => rfl
  | statement statement => exact isPlanned_statement plane.ledger.jobs statement job
  | plan other => exact absurd rfl (hplan other)
  | settle snapshot effective update _ hupdate =>
      apply isPlanned_run
      obtain ⟨state, errorClass, errorDetail, rfl⟩ := settlement_eq_some hupdate
      intro _ _
      rfl
  | reopen other now =>
      apply isPlanned_run
      intro _ _
      rfl

theorem isPlanned_step {plane : ControlPlane J T V} {action : Action J T V}
    (hplan : ∀ job, action ≠ .plan job) (job : J) :
    isPlanned (plane.step render dagFor action).ledger.jobs job =
      isPlanned plane.ledger.jobs job :=
  (jobChange_step plane action).isPlanned_eq hplan job

omit [LinearOrder T] in
/-- Planning marks its own job. -/
theorem isPlanned_planJob {jobs : JobTable J V} {job : J} {row : Job J V}
    (hrow : jobs[job]? = some row) (hstate : row.state = .dispatching) (other : J) :
    isPlanned ((planJob job).run jobs) other = (decide (other = job) || isPlanned jobs other) := by
  rw [isPlanned, isPlanned, Update.getElem?_run]
  by_cases hsame : other = job
  · subst hsame
    simp [hrow, Update.row, planJob, onJob, hstate]
  · cases jobs[other]? <;> simp [Update.row, planJob, onJob, hsame]

/-- Planning keeps the tries sound, and every task it newly plans has a live try. -/
theorem TriesSound.plan {ledger : Ledger J T V} {job : J} {row : Job J V}
    (hsound : TriesSound dagFor ledger) (hrow : ledger.jobs[job]? = some row)
    (hstate : row.state = .dispatching) :
    TriesSound dagFor
        { jobs := (planJob job).run ledger.jobs
          tasks := (dagFor job).nodes.zipIdx.foldl (planNode job row) ledger.tasks } ∧
      (∀ other task, Planned dagFor ((planJob job).run ledger.jobs) other task →
        Planned dagFor ledger.jobs other task ∨
          HasLive ((dagFor job).nodes.zipIdx.foldl (planNode job row) ledger.tasks) other task) ∧
      (∀ other task, HasLive ledger.tasks other task →
        HasLive ((dagFor job).nodes.zipIdx.foldl (planNode job row) ledger.tasks) other task) := by
  rcases planNodes_spec job row (dagFor job).nodes.zipIdx ledger.tasks with
    ⟨hkept, hadded, hpresent⟩
  have htask (task : T) (hnode : ∃ entry ∈ (dagFor job).nodes.zipIdx, entry.1.taskId = task) :
      task ∈ (dagFor job).taskIds := by
    obtain ⟨entry, hentry, rfl⟩ := hnode
    exact List.mem_map_of_mem (List.mem_of_getElem? (List.mem_zipIdx_iff_getElem?.mp hentry))
  have hfirst (task : T) (hmem : task ∈ (dagFor job).taskIds) :
      ∃ new, ((dagFor job).nodes.zipIdx.foldl (planNode job row) ledger.tasks)[
        (⟨job, task, 1⟩ : AttemptId J T)]? = some new := by
    obtain ⟨node, hnode, rfl⟩ := List.mem_map.mp hmem
    obtain ⟨idx, hidx⟩ := List.mem_iff_getElem?.mp hnode
    exact hpresent (node, idx) (List.mem_zipIdx_iff_getElem?.mpr hidx)
  refine ⟨⟨?_, ?_, ?_⟩, ?_, ?_⟩
  · intro other task
    obtain ⟨n, hn⟩ := hsound.numbered other task
    by_cases hnew : ∃ number new, tries ((dagFor job).nodes.zipIdx.foldl (planNode job row)
        ledger.tasks) other task number = some new ∧ tries ledger.tasks other task number = none
    · -- only a missing first try is added, so the history was empty
      obtain ⟨number, new, hnew, hnone⟩ := hnew
      rcases hadded _ new hnew with hold | ⟨_, _, _, hid, _⟩
      · rw [tries, hold] at hnone
        cases hnone
      · have hnumber : number = 1 := congrArg AttemptId.tryNumber hid
        subst hnumber
        have hempty : n = 0 := by
          have habsent := hn.isSome_iff 1
          rw [hnone, Option.isSome_none] at habsent
          by_contra hpos
          cases habsent.mpr (by omega)
        subst hempty
        refine ⟨1, hn.append ?_ hnew ?_⟩
        · intro halive
          obtain ⟨number, old, hold, _⟩ := halive
          have hbounds := hn.le_of_some hold
          omega
        · intro number hne
          cases hlater : tries ((dagFor job).nodes.zipIdx.foldl (planNode job row)
            ledger.tasks) other task number with
          | none =>
              cases hold : tries ledger.tasks other task number with
              | none => rfl
              | some old =>
                  rw [tries, hkept _ old hold] at hlater
                  cases hlater
          | some later =>
              rcases hadded _ later hlater with hold | ⟨_, _, _, hid, _⟩
              · exact hold.symm
              · exact absurd (congrArg AttemptId.tryNumber hid) hne
    · refine ⟨n, hn.rewrite ?_ ?_⟩
      · intro number
        cases hlater : tries ((dagFor job).nodes.zipIdx.foldl (planNode job row)
          ledger.tasks) other task number with
        | none =>
            cases hold : tries ledger.tasks other task number with
            | none => rfl
            | some old =>
                rw [tries, hkept _ old hold] at hlater
                cases hlater
        | some later =>
            cases hold : tries ledger.tasks other task number with
            | none => exact absurd ⟨number, later, hlater, hold⟩ hnew
            | some old => rfl
      · intro number later hlater hlive
        cases hold : tries ledger.tasks other task number with
        | none => exact absurd ⟨number, later, hlater, hold⟩ hnew
        | some old =>
            have hsame := hkept _ old hold
            rw [tries] at hlater
            rw [hlater] at hsame
            cases hsame
            exact ⟨later, rfl, hlive⟩
  · intro id hid
    obtain ⟨new, hnew⟩ := BTreeMap.mem_iff_exists_getElem?.mp hid
    rw [Planned, isPlanned_planJob hrow hstate]
    rcases hadded id new hnew with hold | ⟨_, entry, hentry, rfl, _⟩
    · rcases hsound.planned id (BTreeMap.mem_iff_exists_getElem?.mpr ⟨new, hold⟩) with
        ⟨hplanned, hmem⟩
      exact ⟨by simp [hplanned], hmem⟩
    · refine ⟨by simp, ?_⟩
      exact htask entry.1.taskId ⟨entry, hentry, rfl⟩
  · intro other task hplanned
    rw [BTreeMap.mem_iff_exists_getElem?]
    rw [Planned, isPlanned_planJob hrow hstate, Bool.or_eq_true, decide_eq_true_eq] at hplanned
    obtain ⟨rfl | hbefore, hmem⟩ := hplanned
    · exact hfirst task hmem
    · rcases BTreeMap.mem_iff_exists_getElem?.mp (hsound.complete other task ⟨hbefore, hmem⟩) with
        ⟨old, hold⟩
      exact ⟨old, hkept _ old hold⟩
  · intro other task hplanned
    rw [Planned, isPlanned_planJob hrow hstate, Bool.or_eq_true, decide_eq_true_eq] at hplanned
    obtain ⟨rfl | hbefore, hmem⟩ := hplanned
    · obtain ⟨new, hnew⟩ := hfirst task hmem
      rcases hadded _ new hnew with hold | ⟨_, _, _, _, rfl⟩
      · exact .inl (hsound.planned _ (BTreeMap.mem_iff_exists_getElem?.mpr ⟨new, hold⟩))
      · exact .inr ⟨1, _, hnew, rfl⟩
    · exact .inl ⟨hbefore, hmem⟩
  · intro other task halive
    obtain ⟨number, old, hold, hlive⟩ := halive
    exact ⟨number, old, hkept _ old hold, hlive⟩

/-- A change of the tables that plans nothing and keeps the tries keeps them sound. -/
theorem TriesSound.keeps {ledger later : Ledger J T V} (hsound : TriesSound dagFor ledger)
    (hplanned : ∀ job, isPlanned later.jobs job = isPlanned ledger.jobs job)
    (hkeeps : KeepsTries ledger.tasks later.tasks) : TriesSound dagFor later where
  numbered := hkeeps.numbered hsound.numbered
  planned id hid := by
    obtain ⟨number, hnumber⟩ := hkeeps.known id hid
    rw [Planned, hplanned]
    exact hsound.planned ⟨id.job, id.task, number⟩ hnumber
  complete job task htask := by
    rw [Planned, hplanned] at htask
    exact hkeeps.kept _ (hsound.complete job task htask)

/-- Every step keeps the tries sound. -/
theorem TriesSound.step {plane : ControlPlane J T V} (hsound : TriesSound dagFor plane.ledger)
    (action : Action J T V) : TriesSound dagFor (plane.step render dagFor action).ledger := by
  by_cases hplan : ∃ job, action = .plan job
  · obtain ⟨job, rfl⟩ := hplan
    rcases plan_cases render dagFor plane job with hsame | ⟨row, hrow, hstate, _, _, hstep⟩
    · rw [hsame]
      exact hsound
    · rw [hstep]
      exact (hsound.plan hrow hstate).1
  · have hother (job : J) : action ≠ .plan job := by
      intro hsame
      exact hplan ⟨job, hsame⟩
    apply hsound.keeps (isPlanned_step hother)
    by_cases hrestart : ArchivesRestarted plane action
    · exact (keepsTries_of_archivesRestarted hrestart).1
    · exact (carriesTries_step hsound.numbered hother hrestart).toKeepsTries

/-- From a state with one live try for every planned task, a step leads to such a state exactly
when it does not archive a restarting row. -/
theorem oneLiveTry_step_iff {plane : ControlPlane J T V} {action : Action J T V}
    (hsound : TriesSound dagFor plane.ledger) (hone : OneLiveTry dagFor plane.ledger) :
    OneLiveTry dagFor (plane.step render dagFor action).ledger ↔
      ¬ ArchivesRestarted plane action := by
  have hlater : TriesSound dagFor (plane.step render dagFor action).ledger := hsound.step action
  rw [oneLiveTry_iff hsound.numbered] at hone
  rw [oneLiveTry_iff hlater.numbered]
  apply Iff.intro
  · intro halive hrestart
    have hlost : KeepsTries plane.ledger.tasks (plane.step render dagFor action).ledger.tasks ∧
        _ := keepsTries_of_archivesRestarted hrestart
    obtain ⟨id, hid, hdead⟩ := hlost.2 hsound.numbered
    exact hdead (halive _ _ (hlater.planned id (hlost.1.kept id hid)))
  · intro hrestart job task hplanned
    by_cases hplan : ∃ planned, action = .plan planned
    · obtain ⟨planned, rfl⟩ := hplan
      rcases plan_cases render dagFor plane planned with hsame | ⟨row, hrow, hstate, _, _, hstep⟩
      · rw [hsame] at hplanned ⊢
        exact hone job task hplanned
      · rw [hstep] at hplanned ⊢
        obtain ⟨_, hnew, hkept⟩ := hsound.plan hrow hstate
        rcases hnew job task hplanned with hbefore | halive
        · exact hkept job task (hone job task hbefore)
        · exact halive
    · have hother (planned : J) : action ≠ .plan planned := by
        intro hsame
        exact hplan ⟨planned, hsame⟩
      apply (carriesTries_step hsound.numbered hother hrestart).alive hsound.numbered
      apply hone
      rw [Planned, isPlanned_step hother] at hplanned
      exact hplanned

theorem triesSound_fresh : TriesSound dagFor (ControlPlane.fresh : ControlPlane J T V).ledger where
  numbered job task := ⟨0, Numbered.empty fun number => by simp [tries, ControlPlane.fresh]⟩
  planned id hid := by simp [ControlPlane.fresh] at hid
  complete job task hplanned := by simp [Planned, isPlanned, ControlPlane.fresh] at hplanned

end Step

section Run

variable (render : T → String) (dagFor : J → Dag T)

/-- In every run of the control plane, every planned task has exactly one live try, the last of
its tries `1..n`, in every state that is reached, exactly when no step archives a restarting row:
the executor inserts the successor in a statement of its own. In every run, whatever its steps,
the tries of every task are numbered `1..n` and at most the last is live. -/
theorem one_live_try_iff (actions : List (Action J T V)) :
    (AfterEach (ControlPlane.step render dagFor)
        (fun _ plane => OneLiveTry dagFor plane.ledger) ControlPlane.fresh actions ↔
      Along (ControlPlane.step render dagFor)
        (fun plane action => ¬ ArchivesRestarted plane action) ControlPlane.fresh actions) ∧
      AfterEach (ControlPlane.step render dagFor)
        (fun _ plane => AllNumbered plane.ledger.tasks) ControlPlane.fresh actions := by
  apply And.intro
  · apply afterEach_iff_along fun plane : ControlPlane J T V =>
      TriesSound dagFor plane.ledger ∧ OneLiveTry dagFor plane.ledger
    · intro action _ plane hinv
      exact oneLiveTry_step_iff hinv.1 hinv.2
    · intro action _ plane hinv hpost
      exact ⟨hinv.1.step action, hpost⟩
    · refine ⟨triesSound_fresh, ?_⟩
      intro job task hplanned
      simp [Planned, isPlanned, ControlPlane.fresh] at hplanned
  · apply afterEach_of_invariant fun plane : ControlPlane J T V =>
      TriesSound dagFor plane.ledger
    · intro action _ plane hsound
      have hlater : TriesSound dagFor (plane.step render dagFor action).ledger :=
        hsound.step action
      exact ⟨hlater, hlater.numbered⟩
    · exact triesSound_fresh

end Run

/-- A graph of one pod task that runs alone. -/
def singleTask : Dag ℕ where
  nodes :=
    [{ taskId := 0
       kind := .pod
       inputNames := []
       writesLake := true
       triggerRule := .allSucceeded
       teardown := false
       policy := { retries := 2, classRule := .fromRun, escalateOnOom := false, segment := none }
       upstream := [] }]
  upstream_lt := by decide
  nodup := by decide

/-- A job is planned and launched, its task is cleared while it runs, the watch archives the row
once the pod is gone, and the executor stops before it inserts the successor. -/
def lostRestart : List (Action ℕ ℕ ℕ) :=
  [.job (.enqueue 0 "org" 0 0 none), .job (.claim 0 0), .plan 0, .openPass 0, .commitPass,
    .claimLaunch "epoch" none 0 1, .openClear 0 [0] 2 none, .archiveCleared 0, .commitClear 0 0,
    .archiveRestarted ⟨0, 0, 1⟩ (some (.launch 0 0 1 1)) none (some "no_pod"), .stop]

/-- After that run the job is planned and its task has no live row. -/
theorem lost_restart_without_live_try :
    ¬ OneLiveTry (fun _ => singleTask)
      (lostRestart.foldl (ControlPlane.step (fun _ => "task") fun _ => singleTask)
        ControlPlane.fresh).ledger := by
  intro hone
  have hplanned : isPlanned (lostRestart.foldl (ControlPlane.step (fun _ => "task")
      fun _ => singleTask) ControlPlane.fresh).ledger.jobs 0 = true := by decide +kernel
  have hdead : liveRow (lostRestart.foldl (ControlPlane.step (fun _ => "task")
      fun _ => singleTask) ControlPlane.fresh).ledger.tasks 0 0 = none := by
    rw [← Option.isNone_iff_eq_none]
    decide +kernel
  obtain ⟨n, row, _, hrow, hlive⟩ := hone 0 0 ⟨hplanned, by decide⟩
  exact not_hasLive_iff.mpr hdead ⟨n, row, hrow, hlive⟩

end EntityResolution.Executor
