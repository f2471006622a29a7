/-
# Upstream tasks that have ended

A work order pins the outputs of the tasks upstream of its node, so those tasks have to stay as
they were read. A task is settled when its live row, if it has one, has ended, and the executor
holds no row of it between the two statements of a completed restart. Only a clear that names a
settled task changes its output.
-/

import EntityResolution.Executor.Fencing

namespace EntityResolution.Executor

open EntityResolution.Collections EntityResolution.Statements

universe u v w

variable {J : Type u} {T : Type v} {V : Type w} [LinearOrder J] [LinearOrder T]

/-- The action commits a clear of the job that names the task. -/
def ClearsTask (plane : ControlPlane J T V) (action : Action J T V) (job : J) (task : T) : Prop :=
  ClearCommits plane action ∧
    ∃ now clear, action = .commitClear job now ∧ plane.clears[job]? = some clear ∧
      task ∈ clear.taskIds

/-- The live row of the task has ended, and no successor of a restarted row is due. -/
structure Settled (plane : ControlPlane J T V) (job : J) (task : T) : Prop where
  ended : ∀ entry, liveRow plane.ledger.tasks job task = some entry →
    entry.2.state.isTerminal = true
  unheld : ∀ id, plane.executor = .restarted id → ¬ (id.job = job ∧ id.task = task)

variable {render : T → String} {dagFor : J → Dag T} {plane : ControlPlane J T V}
  {action : Action J T V}

/-- A live row that has ended stays so, with its output, until a clear names its task. -/
theorem endedRow_step (hnumbered : AllNumbered plane.ledger.tasks) {id : AttemptId J T}
    {old : TaskInstance J T V} (hold : plane.ledger.tasks[id]? = some old)
    (hlive : old.live = true) (hended : old.state.isTerminal = true)
    (hclear : ¬ ClearsTask plane action id.job id.task) :
    ∃ new, (plane.step render dagFor action).ledger.tasks[id]? = some new ∧ new.live = true ∧
      new.state = old.state ∧ new.output = old.output := by
  obtain ⟨new, hnew⟩ := exists_of_getElem? render dagFor plane action hnumbered hold
  have hstep : RowStep dagFor plane action id new := rowStep plane action hnew
  rcases hstep with ⟨row, hrow, hchange⟩ | ⟨hnone, _⟩
  · rw [hold, Option.some.injEq] at hrow
    subst hrow
    have hrowEnded : old.isEnded = true := by
      rw [TaskInstance.isEnded, hended, Bool.or_true]
    have hkeeps := hchange.keepsEnd hrowEnded
    rcases hkeeps.live with hsame | ⟨_, now, clear, rfl, hopen, hnamed⟩
    · exact ⟨new, hnew, hsame.trans hlive, hkeeps.state, hkeeps.output⟩
    · -- the clear names the task, so it does not commit, and leaves the rows alone
      rcases commitClear_cases render dagFor plane id.job now with
        ⟨hledger, _⟩ | ⟨open', archived, later, hopen', harchived, hlater, _⟩
      · rw [hledger, hold, Option.some.injEq] at hnew
        subst hnew
        exact ⟨old, by rw [hledger, hold], hlive, rfl, rfl⟩
      · have hcommits : ClearCommits plane (.commitClear id.job now) :=
          ⟨open', archived, later, hopen', harchived, hlater⟩
        exact absurd ⟨hcommits, now, clear, rfl, hopen, hnamed⟩ hclear
  · rw [hold] at hnone
    cases hnone

/-- A planned task without a live row stays so, unless the executor holds a row of it. -/
theorem deadTask_step {job : J} {task : T}
    (hfirst : (⟨job, task, 1⟩ : AttemptId J T) ∈ plane.ledger.tasks)
    (hdead : liveRow plane.ledger.tasks job task = none)
    (hunheld : ∀ id, plane.executor = .restarted id → ¬ (id.job = job ∧ id.task = task)) :
    liveRow (plane.step render dagFor action).ledger.tasks job task = none := by
  rw [liveRow_eq_none_iff] at hdead ⊢
  intro number new hnew
  have hstep : RowStep dagFor plane action ⟨job, task, number⟩ new := rowStep plane action hnew
  rcases hstep with ⟨old, hold, hchange⟩ | ⟨hnone, hinsert⟩
  · have holdDead := hdead number old hold
    have hended : old.isEnded = true := by
      rw [TaskInstance.isEnded, holdDead]
      rfl
    rcases (hchange.keepsEnd hended).live with hsame | ⟨harchived, _⟩
    · exact hsame.trans holdDead
    · exact harchived
  · -- the inserted rows follow a live row, or the one that the executor holds
    generalize hkey : (⟨job, task, number⟩ : AttemptId J T) = key at hinsert
    cases hinsert with
    | plan planned row entry =>
        cases hkey
        obtain ⟨first, hfirst⟩ := BTreeMap.mem_iff_exists_getElem?.mp hfirst
        rw [hnone] at hfirst
        cases hfirst
    | retry id failure now hash row hrow hhit =>
        cases hkey
        simp only [Executor.archiveTry, Bool.and_eq_true] at hhit
        rw [hdead id.tryNumber row hrow] at hhit
        cases hhit.1.1.1.2
    | restarted id row hexecutor =>
        cases hkey
        exact absurd ⟨rfl, rfl⟩ (hunheld id hexecutor)
    | cleared cleared now clear archived id row _ _ hrow _ hhit =>
        cases hkey
        obtain ⟨_, hlive, _⟩ := archiveCleared_hit.mp hhit
        rw [hdead id.tryNumber row hrow] at hlive
        cases hlive

/-- The executor does not come to hold a row of a settled task. -/
theorem Settled.unheld_step {job : J} {task : T} (hsettled : Settled plane job task)
    (hnumbered : AllNumbered plane.ledger.tasks) (id : AttemptId J T)
    (hexecutor : (plane.step render dagFor action).executor = .restarted id) :
    ¬ (id.job = job ∧ id.task = task) := by
  cases restarted_of_step hexecutor with
  | inl hheld => exact hsettled.unheld id hheld.1
  | inr harchived =>
      obtain ⟨k8sJobName, exitCode, terminationReason, rfl, harchives⟩ := harchived
      rintro ⟨rfl, rfl⟩
      obtain ⟨_, _, row, hrow, hlive, hstate, _⟩ := harchives
      have hended := hsettled.ended _ (hnumbered.liveRow_eq hrow hlive)
      rw [hstate] at hended
      cases hended

/-- A settled task stays settled with the same output until a clear names it. -/
theorem Settled.step {job : J} {task : T} (hsettled : Settled plane job task)
    (hsound : TriesSound dagFor plane.ledger)
    (hfirst : (⟨job, task, 1⟩ : AttemptId J T) ∈ plane.ledger.tasks)
    (hclear : ¬ ClearsTask plane action job task) :
    Settled (plane.step render dagFor action) job task ∧
      liveOutput (plane.step render dagFor action).ledger.tasks job task =
        liveOutput plane.ledger.tasks job task := by
  have hlater : TriesSound dagFor (plane.step render dagFor action).ledger := hsound.step action
  cases hrow : liveRow plane.ledger.tasks job task with
  | none =>
      have hdead : liveRow (plane.step render dagFor action).ledger.tasks job task = none :=
        deadTask_step hfirst hrow hsettled.unheld
      refine ⟨⟨?_, hsettled.unheld_step hsound.numbered⟩, ?_⟩
      · intro entry hentry
        rw [hdead] at hentry
        cases hentry
      · rw [liveOutput, liveOutput, hdead, hrow]
  | some entry =>
      obtain ⟨id, old⟩ := entry
      have hended := hsettled.ended _ hrow
      obtain ⟨hold, rfl, rfl, hlive⟩ := liveRow_some hrow
      obtain ⟨new, hnew, hnewLive, hstate, houtput⟩ :
          ∃ new, (plane.step render dagFor action).ledger.tasks[id]? = some new ∧
            new.live = true ∧ new.state = old.state ∧ new.output = old.output :=
        endedRow_step hsound.numbered hold hlive hended hclear
      have hfound := hlater.numbered.liveRow_eq hnew hnewLive
      refine ⟨⟨?_, hsettled.unheld_step hsound.numbered⟩, ?_⟩
      · intro found hsome
        rw [hfound, Option.some.injEq] at hsome
        subst hsome
        exact (congrArg TaskState.isTerminal hstate).trans hended
      · rw [liveOutput, liveOutput, hfound, hrow]
        exact houtput

/-- A task whose live row has ended is settled while the executor holds no row of it. -/
theorem settled_of_ended {id : AttemptId J T} {row : TaskInstance J T V}
    (hnumbered : AllNumbered plane.ledger.tasks) (hheld : HeldDead plane)
    (hrow : plane.ledger.tasks[id]? = some row) (hlive : row.live = true)
    (hended : row.state.isTerminal = true) : Settled plane id.job id.task where
  ended entry hentry := by
    rw [hnumbered.liveRow_eq hrow hlive, Option.some.injEq] at hentry
    subst hentry
    exact hended
  unheld held hexecutor hsame := by
    obtain ⟨_, _, hdead⟩ := hheld held hexecutor
    rw [hsame.1, hsame.2] at hdead
    exact hdead (hasLive_of_getElem? hrow hlive)

omit [LinearOrder T] in
/-- A job update that keeps the clear numbers. -/
theorem clearNumber_run {jobs : JobTable J V} {update : Update J (Job J V)}
    (hkept : ∀ job row, (update.set job row).clearNumber = row.clearNumber) (job : J) :
    clearNumber (update.run jobs) job = clearNumber jobs job := by
  rw [clearNumber, clearNumber, Update.getElem?_run]
  cases jobs[job]? with
  | none => rfl
  | some row =>
      simp only [Option.map_some, Update.row]
      split
      · rw [hkept]
      · rfl

omit [LinearOrder T] in
/-- No single job statement changes the clear number of a job that exists. -/
theorem clearNumber_statement {jobs : JobTable J V} (statement : JobStatement J V) {job : J}
    {number : ℕ} (hnumber : clearNumber jobs job = some number) :
    clearNumber (statement.run jobs) job = some number := by
  cases statement with
  | enqueue enqueued orgId priority params resourceClass =>
      rw [JobStatement.run, enqueue]
      split
      · exact hnumber
      · next habsent =>
          rw [clearNumber, BTreeMap.getElem?_insert_eq_ite, if_neg]
          · exact hnumber
          · intro hsame
            apply habsent
            rw [clearNumber, Option.map_eq_some_iff] at hnumber
            obtain ⟨row, hrow, _⟩ := hnumber
            rw [Std.ExtTreeMap.contains_eq_isSome_getElem?, hsame, hrow]
            rfl
  | claim | refusePlan | cancel | resume =>
      rw [← hnumber]
      apply clearNumber_run
      intro _ _
      rfl

omit [LinearOrder T] in
/-- Reopening a job raises its clear number, and no other one. -/
theorem clearNumber_reopen {jobs : JobTable J V} (cleared : J) (now : ℤ) {job : J} {number : ℕ}
    (hnumber : clearNumber jobs job = some number) :
    clearNumber ((reopen cleared now).run jobs) job =
      some (if job = cleared then number + 1 else number) := by
  rw [clearNumber, Option.map_eq_some_iff] at hnumber
  obtain ⟨row, hrow, rfl⟩ := hnumber
  rw [clearNumber, Update.getElem?_run, hrow]
  by_cases hsame : job = cleared
  · simp [Update.row, reopen, onJob, hsame]
  · simp [Update.row, reopen, onJob, hsame]

variable (render dagFor action) in
/-- A step raises the clear number of a job when it commits a clear of the job, and otherwise
keeps it. -/
theorem clearNumber_step {job : J} {number : ℕ}
    (hnumber : clearNumber plane.ledger.jobs job = some number) :
    (∃ now, action = .commitClear job now ∧
        clearNumber (plane.step render dagFor action).ledger.jobs job = some (number + 1)) ∨
      clearNumber (plane.step render dagFor action).ledger.jobs job = some number ∧
        ¬ (ClearCommits plane action ∧ ∃ now, action = .commitClear job now) := by
  by_cases hclears : ∃ now, action = .commitClear job now
  · obtain ⟨now, rfl⟩ := hclears
    rcases commitClear_cases render dagFor plane job now with
      ⟨hledger, hnot⟩ | ⟨_, _, _, _, _, _, hledger⟩
    · right
      rw [hledger]
      exact ⟨hnumber, fun hcommits => hnot hcommits.1⟩
    · left
      rw [hledger]
      refine ⟨now, rfl, ?_⟩
      rw [clearNumber_reopen job now hnumber, if_pos rfl]
  · right
    refine ⟨?_, fun hcommits => hclears hcommits.2⟩
    have hchange : JobChange render dagFor plane action
      (plane.step render dagFor action).ledger.jobs := jobChange_step plane action
    generalize (plane.step render dagFor action).ledger.jobs = later at hchange
    cases hchange with
    | same => exact hnumber
    | statement statement => exact clearNumber_statement statement hnumber
    | plan planned =>
        rw [← hnumber]
        apply clearNumber_run
        intro _ _
        rfl
    | settle snapshot effective update _ hupdate =>
        obtain ⟨state, errorClass, errorDetail, rfl⟩ := settlement_eq_some hupdate
        rw [← hnumber]
        apply clearNumber_run
        intro _ _
        rfl
    | reopen cleared now =>
        rw [clearNumber_reopen cleared now hnumber, if_neg]
        rintro rfl
        exact hclears ⟨now, rfl⟩

/-! ## What a session has read -/

/-- While no clear of the job has committed since a snapshot was read, the live rows that it
shows as ended are still there, with the same output. -/
structure SnapshotSound (ledger : Ledger J T V) (snapshot : Snapshot J T V) : Prop where
  number : ∃ number, clearNumber ledger.jobs snapshot.job = some number ∧
    snapshot.clearNumber ≤ number
  job : ∀ (id : AttemptId J T) row, snapshot.rows[id]? = some row → id.job = snapshot.job
  pending : ∀ (id : AttemptId J T) row, snapshot.rows[id]? = some row →
    row.state.isTerminal = false → row.output = none
  ended : clearNumber ledger.jobs snapshot.job = some snapshot.clearNumber →
    ∀ (id : AttemptId J T) row, snapshot.rows[id]? = some row → row.live = true →
      row.state.isTerminal = true →
      ∃ new, ledger.tasks[id]? = some new ∧ new.live = true ∧ new.state = row.state ∧
        new.output = row.output

/-- A row that has not ended has no output. -/
def NoEarlyOutput (tasks : TaskTable J T V) : Prop :=
  ∀ (id : AttemptId J T) row, tasks[id]? = some row → row.state.isTerminal = false →
    row.output = none

/-- A snapshot that has just been read is sound. -/
theorem snapshotSound_read {ledger : Ledger J T V} {job : J} {snapshot : Snapshot J T V}
    (hpending : NoEarlyOutput ledger.tasks) (hread : readJob ledger job = some snapshot) :
    SnapshotSound ledger snapshot := by
  rw [readJob, Option.map_eq_some_iff] at hread
  obtain ⟨row, hrow, rfl⟩ := hread
  have hmem (id : AttemptId J T) (read : TaskInstance J T V)
      (hread : (byJob ledger.tasks job)[id]? = some read) :
      ledger.tasks[id]? = some read ∧ id.job = job := by
    rw [byJob, BTreeMap.getElem?_filter_eq, Option.filter_eq_some_iff] at hread
    exact ⟨hread.1, of_decide_eq_true hread.2⟩
  constructor
  · refine ⟨row.clearNumber, ?_, le_refl _⟩
    rw [clearNumber, hrow]
    rfl
  · intro id read hread
    exact (hmem id read hread).2
  · intro id read hread
    exact hpending id read (hmem id read hread).1
  · intro _ id read hread hlive _
    exact ⟨read, (hmem id read hread).1, hlive, rfl, rfl⟩

/-- Every step keeps what was read sound. -/
theorem SnapshotSound.step {snapshot : Snapshot J T V}
    (hsnapshot : SnapshotSound plane.ledger snapshot) (hnumbered : AllNumbered plane.ledger.tasks) :
    SnapshotSound (plane.step render dagFor action).ledger snapshot := by
  obtain ⟨number, hnumber, hle⟩ := hsnapshot.number
  have hlater := clearNumber_step render dagFor action hnumber
  refine ⟨?_, hsnapshot.job, hsnapshot.pending, ?_⟩
  · rcases hlater with ⟨_, _, hraised⟩ | ⟨hkept, _⟩
    · exact ⟨number + 1, hraised, by omega⟩
    · exact ⟨number, hkept, hle⟩
  · intro hcurrent id row hrow hlive hended
    rcases hlater with ⟨_, _, hraised⟩ | ⟨hkept, hclear⟩
    · -- a clear has overtaken the snapshot
      rw [hraised, Option.some.injEq] at hcurrent
      omega
    · have hsame : clearNumber plane.ledger.jobs snapshot.job = some snapshot.clearNumber := by
        rw [hnumber, ← hkept, hcurrent]
      obtain ⟨old, hold, holdLive, hstate, houtput⟩ :=
        hsnapshot.ended hsame id row hrow hlive hended
      have hid := hsnapshot.job id row hrow
      obtain ⟨new, hnew, hnewLive, hnewState, hnewOutput⟩ :
          ∃ new, (plane.step render dagFor action).ledger.tasks[id]? = some new ∧
            new.live = true ∧ new.state = old.state ∧ new.output = old.output := by
        apply endedRow_step hnumbered hold holdLive
        · rw [hstate]
          exact hended
        · rintro ⟨hcommits, now, _, rfl, _, _⟩
          rw [hid] at hcommits hclear
          exact hclear ⟨hcommits, now, rfl⟩
      exact ⟨new, hnew, hnewLive, hnewState.trans hstate, hnewOutput.trans houtput⟩

/-- A change of a row that has not ended keeps its output until the row ends. -/
theorem RowChange.pendingOutput {id : AttemptId J T} {old new : TaskInstance J T V}
    (hchange : RowChange dagFor plane action id old new)
    (hpending : new.state.isTerminal = false) :
    old.state.isTerminal = false ∧ new.output = old.output := by
  have hold : old.state.isTerminal = false := by
    rw [← Bool.not_eq_true]
    intro hended
    have hrowEnded : old.isEnded = true := by
      rw [TaskInstance.isEnded, hended, Bool.or_true]
    rw [(hchange.keepsEnd hrowEnded).state, hended] at hpending
    cases hpending
  refine ⟨hold, ?_⟩
  cases hchange with
  | same | claimLaunch | claimControl | advance => rfl
  | statement statement _ _ _ _ hhit => exact (TaskStatement.quiet hhit).output hpending
  | archiveTry id failure =>
      have hstate : failure.terminalState.toTaskState.isTerminal = false := hpending
      cases hfailure : failure.terminalState <;> rw [hfailure] at hstate <;> cases hstate
  | verdict _ passAction => cases passAction.2 <;> rfl
  | archiveRestarted => cases hpending
  | clear job now clear archived =>
      rcases clearRow_cases job clear archived id old with
        ⟨_, _, hrow⟩ | ⟨_, _, hrow⟩ | ⟨_, hrow⟩ | ⟨hrow, _⟩ <;> rw [hrow] <;> rfl
  | finish _ skipped => cases skipped <;> cases hpending

/-- Every step keeps the outputs of the rows that have not ended empty. -/
theorem NoEarlyOutput.step (hearly : NoEarlyOutput plane.ledger.tasks) :
    NoEarlyOutput (plane.step render dagFor action).ledger.tasks := by
  intro id new hnew hpending
  have hstep : RowStep dagFor plane action id new := rowStep plane action hnew
  rcases hstep with ⟨old, hold, hchange⟩ | ⟨_, hinsert⟩
  · obtain ⟨holdPending, houtput⟩ := hchange.pendingOutput hpending
    exact houtput.trans (hearly id old hold holdPending)
  · cases hinsert <;> rfl

/-- What a session holds after a step it held before, or has just read. -/
theorem orders_step {snapshot : Snapshot J T V}
    (hmem : snapshot ∈ (plane.step render dagFor action).orders) :
    snapshot ∈ plane.orders ∨ ∃ job, readJob plane.ledger job = some snapshot := by
  cases action with
  | readOrder job =>
      rw [ControlPlane.step] at hmem
      cases hread : readJob plane.ledger job with
      | none =>
          rw [hread] at hmem
          exact .inl hmem
      | some read =>
          rw [hread] at hmem
          rcases List.mem_cons.mp hmem with rfl | hmem
          · exact .inr ⟨job, hread⟩
          · exact .inl hmem
  | job | failOrRetry | handOff | commitPass | insertClearedTry =>
      rw [ControlPlane.step] at hmem
      split at hmem <;> exact .inl hmem
  | task =>
      rw [ControlPlane.step] at hmem
      split at hmem
      · rw [ControlPlane.runTask] at hmem
        split at hmem <;> exact .inl hmem
      · exact .inl hmem
  | claimLaunch | claimControl =>
      rw [ControlPlane.step, ControlPlane.claim] at hmem
      split at hmem <;> exact .inl hmem
  | plan planned =>
      rcases plan_cases render dagFor plane planned with hstep | ⟨_, _, _, _, _, hstep⟩ <;>
        rw [hstep] at hmem <;> exact .inl hmem
  | openPass opened =>
      rw [ControlPlane.step, ControlPlane.whenIdle] at hmem
      split at hmem
      · rw [ControlPlane.openPass] at hmem
        split at hmem
        · exact .inl hmem
        · split at hmem
          · split at hmem <;> exact .inl hmem
          · exact .inl hmem
      · exact .inl hmem
  | archiveRestarted id k8sJobName exitCode terminationReason =>
      rcases archiveRestarted_cases render dagFor plane id k8sJobName exitCode
        terminationReason with ⟨hstep, _⟩ | ⟨_, hstep⟩ <;> rw [hstep] at hmem <;>
        exact .inl hmem
  | stop | abortClear => exact .inl hmem
  | openClear =>
      rw [ControlPlane.step, ControlPlane.openClear] at hmem
      split at hmem
      · exact .inl hmem
      · split at hmem
        · exact .inl hmem
        · split at hmem <;> exact .inl hmem
  | archiveCleared =>
      rw [ControlPlane.step, ControlPlane.archiveCleared] at hmem
      split at hmem
      · split at hmem <;> exact .inl hmem
      · exact .inl hmem
  | commitClear =>
      rw [ControlPlane.step, ControlPlane.commitClear] at hmem
      split at hmem
      · exact .inl hmem
      · split at hmem
        · exact .inl hmem
        · split at hmem <;> exact .inl hmem

/-- What holds of everything that a session has read, in every reachable state: it is sound, and
while a pass is open, no task comes back to life that it found without a live row. -/
structure ReadsSound (dagFor : J → Dag T) (plane : ControlPlane J T V) : Prop where
  tries : TriesSound dagFor plane.ledger
  held : HeldDead plane
  early : NoEarlyOutput plane.ledger.tasks
  orders : ∀ snapshot ∈ plane.orders, SnapshotSound plane.ledger snapshot
  pass : ∀ snapshot, plane.executor = .inPass snapshot → SnapshotSound plane.ledger snapshot
  absent : ∀ snapshot, plane.executor = .inPass snapshot →
    ∀ task, liveRow snapshot.rows snapshot.job task = none →
      liveRow plane.ledger.tasks snapshot.job task = none

/-- While the executor is in a pass, a task without a live row stays so. -/
theorem absent_step {snapshot : Snapshot J T V} (hexecutor : plane.executor = .inPass snapshot)
    {job : J} {task : T} (hnone : liveRow plane.ledger.tasks job task = none) :
    liveRow (plane.step render dagFor action).ledger.tasks job task = none := by
  have htasks : TaskChange dagFor plane action (plane.step render dagFor action).ledger.tasks :=
    taskChange_step plane action
  generalize hlater : (plane.step render dagFor action).ledger.tasks = later at htasks
  by_cases hplan : ∃ planned, action = .plan planned
  · obtain ⟨planned, rfl⟩ := hplan
    rcases plan_cases render dagFor plane planned with hstep | ⟨_, _, _, hidle, _⟩
    · rw [← hlater, hstep]
      exact hnone
    · rw [hexecutor] at hidle
      cases hidle
  by_cases hinsert : action = .insertClearedTry
  · subst hinsert
    rw [← hlater, ControlPlane.step, hexecutor]
    exact hnone
  · rw [← not_hasLive_iff] at hnone ⊢
    exact (htasks.keepsDead (fun planned hsame => hplan ⟨planned, hsame⟩) hinsert).not_hasLive
      hnone

/-- A task without a live row among the rows that were read had none in the table. -/
theorem liveRow_of_readJob {ledger : Ledger J T V} {job : J} {snapshot : Snapshot J T V}
    (hread : readJob ledger job = some snapshot) {task : T}
    (hnone : liveRow snapshot.rows snapshot.job task = none) :
    liveRow ledger.tasks snapshot.job task = none := by
  rw [readJob, Option.map_eq_some_iff] at hread
  obtain ⟨row, _, rfl⟩ := hread
  rw [liveRow_eq_none_iff] at hnone ⊢
  intro number other hother
  apply hnone number other
  rw [byJob, BTreeMap.getElem?_filter_eq, hother, Option.filter_some]
  simp

/-- Every step keeps the reads sound. -/
theorem ReadsSound.step (hsound : ReadsSound dagFor plane) :
    ReadsSound dagFor (plane.step render dagFor action) where
  tries := hsound.tries.step action
  held := hsound.held.step hsound.tries.numbered
  early := hsound.early.step
  orders snapshot hmem := by
    rcases orders_step hmem with hheld | ⟨job, hread⟩
    · exact (hsound.orders snapshot hheld).step hsound.tries.numbered
    · exact (snapshotSound_read hsound.early hread).step hsound.tries.numbered
  pass snapshot hexecutor := by
    cases inPass_of_step hexecutor with
    | inl hopen => exact (hsound.pass snapshot hopen).step hsound.tries.numbered
    | inr hopens =>
        obtain ⟨_, _, _, _, _, _, hread⟩ := hopens
        exact (snapshotSound_read hsound.early hread).step hsound.tries.numbered
  absent snapshot hexecutor task hnone := by
    cases inPass_of_step hexecutor with
    | inl hopen => exact absent_step hopen (hsound.absent snapshot hopen task hnone)
    | inr hopens =>
        obtain ⟨job, _, rfl, _, _, _, hread⟩ := hopens
        have htasks : TaskChange dagFor plane (.openPass job)
            (plane.step render dagFor (.openPass job)).ledger.tasks := taskChange_step plane _
        generalize (plane.step render dagFor (.openPass job)).ledger.tasks = later at htasks ⊢
        cases htasks
        exact liveRow_of_readJob hread hnone

theorem readsSound_fresh :
    ReadsSound dagFor (ControlPlane.fresh : ControlPlane J T V) where
  tries := triesSound_fresh
  held id hexecutor := by cases hexecutor
  early id row hrow := by simp [ControlPlane.fresh] at hrow
  orders snapshot hmem := by cases hmem
  pass snapshot hexecutor := by cases hexecutor
  absent snapshot hexecutor := by cases hexecutor

end EntityResolution.Executor
