/-
# Work orders are never stale

The readiness pass, the hand-off and the retry write the work orders, and a clear takes them
back. The pins of a work order are then the outputs of the live rows upstream, position by
position, for as long as the row is live. The fence is the clear number: a verdict that was
composed before a clear finds another number after it and hits no row.

One window is left open. A clear matches the claimed rows first and the waiting rows last, and a
claim takes neither the lock of the job row nor waits for one. A waiting row that is claimed in
between is matched by no statement of the clear: it runs on with the pins of the archived rows.
-/

import EntityResolution.Executor.Upstream

namespace EntityResolution.Executor

open EntityResolution.Collections EntityResolution.Runs EntityResolution.Statements

universe u v w

variable {J : Type u} {T : Type v} {V : Type w} [LinearOrder J] [LinearOrder T]

/-- The row has a work order whose pins are the outputs of the live rows upstream of its node. -/
def PinsCurrent (dag : Dag T) (tasks : TaskTable J T V) (job : J) (node : Node T)
    (row : TaskInstance J T V) : Prop :=
  ∃ input, row.input = some input ∧
    input.pins = (dag.upstreamTasks node).map (liveOutput tasks job)

/-- The live rows of a job that hold a work order hold a current one. -/
def NeverStale (dag : Dag T) (tasks : TaskTable J T V) (job : J) : Prop :=
  ∀ (id : AttemptId J T) row, tasks[id]? = some row → id.job = job → row.live = true →
    row.state.isPinned = true → ∀ node ∈ dag.nodes, node.taskId = id.task →
      PinsCurrent dag tasks job node row

/-- The clears of the job name sets that hold everything downstream of their tasks. -/
def NamesClosed (dag : Dag T) (job : J) : Action J T V → Prop
  | .openClear cleared taskIds _ _ => cleared = job → dag.DownstreamClosed taskIds
  | _ => True

/-- The snapshot with the row of a member that has just finished. -/
def Snapshot.finishing (snapshot : Snapshot J T V) (finishedId : AttemptId J T) (podUid : String)
    (skipped : Bool) (outcome : Outcome) (output : Option V) (exitCode : Option ℤ) :
    Snapshot J T V :=
  { snapshot with
    rows := (finish finishedId podUid skipped outcome output exitCode).run snapshot.rows }

/-- The handler composes the second half of a hand-off from what it read of the job, as the
readiness pass would once the finished member has ended: the next row is the live row of a node
whose upstream has ended, and its work order is the composed one. -/
def ComposedAsPass (dag : Dag T) (plane : ControlPlane J T V) (job : J) : Action J T V → Prop
  | .handOff finishedId podUid skipped outcome output exitCode (some args) =>
      args.jobId = job → ∃ snapshot ∈ plane.orders, ∃ node ∈ dag.nodes, ∃ row,
        let finished := snapshot.finishing finishedId podUid skipped outcome output exitCode
        snapshot.job = job ∧ args.clearNumber = snapshot.clearNumber ∧
          liveRow finished.rows job node.taskId = some (args.nextTaskInstanceId, row) ∧
          (∀ up ∈ node.upstream, (stateAt (liveStates dag finished) up).isTerminal = true) ∧
          args.input = composeInput dag node finished
  | _ => True

/-- A clear of the job commits only when no live row of a task that it feeds was claimed since its
first statement: the claimed ones are those it marked, and the ended ones those it matched. -/
def NoneClaimedMeanwhile (dag : Dag T) (plane : ControlPlane J T V) (job : J) :
    Action J T V → Prop
  | .commitClear cleared _ =>
      cleared = job → ∀ clear archived, plane.clears[job]? = some clear →
        clear.archived = some archived → ∀ (id : AttemptId J T) row,
          plane.ledger.tasks[id]? = some row → id.job = job → row.live = true →
          (∃ task ∈ clear.taskIds, dag.Feeds task id.task) →
            (row.state.isClaimed = true → id ∈ clear.restarted) ∧
            (row.state.isTerminal = true → row.state.isPinned = true → id ∈ archived)
  | _ => True

variable {render : T → String} {dagFor : J → Dag T} {plane : ControlPlane J T V}
  {action : Action J T V} {job : J}

/-- What a snapshot shows as ended is settled, with the same output, while no clear has committed
since. -/
theorem SnapshotSound.upstream {snapshot : Snapshot J T V}
    (hsnapshot : SnapshotSound plane.ledger snapshot) (hreads : ReadsSound dagFor plane)
    (hnumber : clearNumber plane.ledger.jobs snapshot.job = some snapshot.clearNumber)
    {id : AttemptId J T} {row : TaskInstance J T V} (hrow : snapshot.rows[id]? = some row)
    (hlive : row.live = true) (hended : row.state.isTerminal = true) :
    Settled plane id.job id.task ∧ liveOutput plane.ledger.tasks id.job id.task = row.output := by
  obtain ⟨new, hnew, hnewLive, hstate, houtput⟩ := hsnapshot.ended hnumber id row hrow hlive hended
  have hnewEnded : new.state.isTerminal = true := by
    rw [hstate]
    exact hended
  refine ⟨settled_of_ended hreads.tries.numbered hreads.held hnew hnewLive hnewEnded, ?_⟩
  rw [liveOutput, hreads.tries.numbered.liveRow_eq hnew hnewLive]
  exact houtput

/-- A node reads the state of its live row. -/
theorem stateAt_liveStates {dag : Dag T} {snapshot : Snapshot J T V} {idx : ℕ} {node : Node T}
    (hnode : dag.nodes[idx]? = some node) :
    stateAt (liveStates dag snapshot) idx =
      ((liveRow snapshot.rows snapshot.job node.taskId).map fun entry =>
        entry.2.state).getD .none := by
  rw [stateAt, liveStates, List.getElem?_map, hnode]
  rfl

/-- A node that reads an ended state has a live row that ended. -/
theorem liveRow_of_isTerminal {dag : Dag T} {snapshot : Snapshot J T V} {idx : ℕ} {node : Node T}
    (hnode : dag.nodes[idx]? = some node)
    (hended : (stateAt (liveStates dag snapshot) idx).isTerminal = true) :
    ∃ id row, liveRow snapshot.rows snapshot.job node.taskId = some (id, row) ∧
      row.state.isTerminal = true := by
  rw [stateAt_liveStates hnode] at hended
  cases hread : liveRow snapshot.rows snapshot.job node.taskId with
  | none =>
      rw [hread] at hended
      cases hended
  | some entry =>
      rw [hread] at hended
      exact ⟨entry.1, entry.2, rfl, hended⟩

/-- A propagation that a committed pass records ends its row, without an output. -/
theorem ended_of_propagate {jobs : JobTable J V} {dag : Dag T} {snapshot : Snapshot J T V}
    {tasks later : TaskTable J T V} {states : List TaskState}
    (hlater : (pass dag states).foldlM (recordVerdict jobs dag snapshot) tasks = some later)
    {idx : ℕ} {state : TaskState} (haction : (idx, PassAction.propagate state) ∈ pass dag states)
    {node : Node T} (hnode : dag.nodes[idx]? = some node) {id : AttemptId J T}
    {read : TaskInstance J T V}
    (hread : liveRow snapshot.rows snapshot.job node.taskId = some (id, read))
    (hearly : NoEarlyOutput tasks) :
    ∃ new, later[id]? = some new ∧ new.live = true ∧ new.state.isTerminal = true ∧
      new.output = none := by
  apply foldlM_reaches NoEarlyOutput
    (fun table => ∃ new, table[id]? = some new ∧ new.live = true ∧
      new.state.isTerminal = true ∧ new.output = none) _ _ haction _ hearly hlater
  · intro other hother table next htable hnext k new hnew hpending
    rcases recordVerdict_cases hnext with rfl | ⟨_, _, _, _, _, rfl⟩
    · exact htable k new hnew hpending
    · obtain ⟨old, hold, rfl⟩ := Update.getElem?_run_eq_some_iff.mp hnew
      rw [Update.row] at hpending ⊢
      split at hpending
      · next hhit =>
          obtain ⟨_, _, hnone, _⟩ := verdictUpdate_hit.mp hhit
          rw [if_pos hhit]
          have houtput := htable k old hold (by rw [hnone]; rfl)
          cases other.2 <;> exact houtput
      · next hmiss =>
          rw [if_neg hmiss]
          exact htable k old hold hpending
  · intro other hother table next hgoal hnext
    obtain ⟨new, hnew, hlive, hended, houtput⟩ := hgoal
    rcases recordVerdict_cases hnext with rfl | ⟨_, _, _, _, _, rfl⟩
    · exact ⟨new, hnew, hlive, hended, houtput⟩
    · refine ⟨new, ?_, hlive, hended, houtput⟩
      rw [Update.getElem?_run, hnew, Option.map_some, Update.row, if_neg]
      intro hhit
      obtain ⟨_, _, hnone, _⟩ := verdictUpdate_hit.mp hhit
      rw [hnone] at hended
      cases hended
  · intro table next htable hnext
    rw [recordVerdict, hnode] at hnext
    dsimp only at hnext
    rw [hread] at hnext
    dsimp only at hnext
    split at hnext
    · cases hnext
    · next hbusy =>
        cases hnext
        obtain ⟨k, row, hrow, hhit⟩ :=
          Update.exists_hit_of_idle_eq_false (Bool.not_eq_true _ ▸ hbusy)
        obtain ⟨rfl, hlive, hnone, _⟩ := verdictUpdate_hit.mp hhit
        have hended := TaskState.isTerminal_of_isPropagated (isPropagated_of_mem_pass haction)
        have houtput := htable k row hrow (by rw [hnone]; rfl)
        refine ⟨{ row with state := state }, ?_, hlive, hended, houtput⟩
        rw [Update.getElem?_run, hrow, Option.map_some, Update.row, if_pos hhit]
        rfl

/-- The work order of the row is current, and the tasks upstream of its node are settled. -/
structure OrderSound (dag : Dag T) (plane : ControlPlane J T V) (job : J) (node : Node T)
    (row : TaskInstance J T V) : Prop where
  pins : PinsCurrent dag plane.ledger.tasks job node row
  upstream : ∀ task ∈ dag.upstreamTasks node, Settled plane job task

/-- What holds in every state that the job's steps can reach. -/
structure OrdersSound (dagFor : J → Dag T) (job : J) (plane : ControlPlane J T V) : Prop
    extends ReadsSound dagFor plane where
  current : ∀ (id : AttemptId J T) row, plane.ledger.tasks[id]? = some row → id.job = job →
    row.live = true → row.state.isPinned = true → ∀ node ∈ (dagFor job).nodes,
      node.taskId = id.task → OrderSound (dagFor job) plane job node row
  closed : ∀ clear, plane.clears[job]? = some clear →
    (dagFor job).DownstreamClosed clear.taskIds

/-- The tasks upstream of a planned task have a first try. -/
theorem TriesSound.upstream_first {ledger : Ledger J T V} (hsound : TriesSound dagFor ledger)
    {id : AttemptId J T} {row : TaskInstance J T V} (hrow : ledger.tasks[id]? = some row)
    {node : Node T} {task : T} (htask : task ∈ (dagFor id.job).upstreamTasks node) :
    (⟨id.job, task, 1⟩ : AttemptId J T) ∈ ledger.tasks := by
  have hmem : id ∈ ledger.tasks := BTreeMap.mem_iff_exists_getElem?.mpr ⟨row, hrow⟩
  exact hsound.complete id.job task
    ⟨(hsound.planned id hmem).1, Dag.mem_taskIds_of_mem_upstreamTasks htask⟩

/-- A work order whose pins are read off upstream tasks that the step leaves settled. -/
theorem OrderSound.of_upstream {dag : Dag T} {node : Node T} {row : TaskInstance J T V}
    {input : WorkInput T V} (outputs : T → Option V) (hinput : row.input = some input)
    (hpins : input.pins = (dag.upstreamTasks node).map outputs)
    (hupstream : ∀ task ∈ dag.upstreamTasks node,
      Settled plane job task ∧ liveOutput plane.ledger.tasks job task = outputs task) :
    OrderSound dag plane job node row where
  pins := by
    refine ⟨input, hinput, hpins.trans ?_⟩
    apply List.map_congr_left
    intro task htask
    exact (hupstream task htask).2.symm
  upstream task htask := (hupstream task htask).1

/-- A work order stays sound through a step that clears nothing upstream. -/
theorem OrderSound.step {id : AttemptId J T} {row old new : TaskInstance J T V} {node : Node T}
    (hsound : OrderSound (dagFor id.job) plane id.job node old)
    (htries : TriesSound dagFor plane.ledger) (hrow : plane.ledger.tasks[id]? = some row)
    (hinput : new.input = old.input)
    (hclear : ∀ task ∈ (dagFor id.job).upstreamTasks node, ¬ ClearsTask plane action id.job task) :
    OrderSound (dagFor id.job) (plane.step render dagFor action) id.job node new := by
  obtain ⟨input, hold, hpins⟩ := hsound.pins
  apply OrderSound.of_upstream _ (hinput.trans hold) hpins
  intro task htask
  exact (hsound.upstream task htask).step htries (htries.upstream_first hrow htask)
    (hclear task htask)

theorem TaskState.isPinned_cases {state : TaskState} (hpinned : state.isPinned = true) :
    state.isClaimed = true ∨ state.isWaiting = true ∨ state.isTerminal = true := by
  cases state <;> first | exact .inl rfl | exact .inr (.inl rfl) | exact .inr (.inr rfl) |
    cases hpinned

/-- A clear that commits leaves no work order behind whose upstream it names, unless the row was
claimed meanwhile. -/
theorem clearRow_orders {now : ℤ} {clear : OpenClear J T} {archived : List (AttemptId J T)}
    {id : AttemptId J T} {old : TaskInstance J T V} {node : Node T}
    (hclear : plane.clears[id.job]? = some clear) (harchived : clear.archived = some archived)
    (hclosed : (dagFor id.job).DownstreamClosed clear.taskIds)
    (hmeanwhile : NoneClaimedMeanwhile (dagFor id.job) plane id.job (.commitClear id.job now))
    (hold : plane.ledger.tasks[id]? = some old)
    (hlive : (clearRow id.job clear archived id old).live = true)
    (hpinned : (clearRow id.job clear archived id old).state.isPinned = true)
    (hnode : node ∈ (dagFor id.job).nodes) (hname : node.taskId = id.task) {task : T}
    (htask : task ∈ (dagFor id.job).upstreamTasks node) : task ∉ clear.taskIds := by
  intro hnamed
  have hfeeds : (dagFor id.job).Feeds task id.task := ⟨node, hnode, hname, htask⟩
  have hmem := hclosed task id.task hfeeds hnamed
  rcases clearRow_cases id.job clear archived id old with
    ⟨_, _, hrow⟩ | ⟨_, _, hrow⟩ | ⟨_, hrow⟩ | ⟨hrow, hrestart, harchive, hreset⟩
  · rw [hrow] at hpinned
    cases hpinned
  · rw [hrow] at hlive
    cases hlive
  · rw [hrow] at hpinned
    cases hpinned
  · rw [hrow] at hlive hpinned
    obtain ⟨hclaimed, hended⟩ := hmeanwhile rfl clear archived hclear harchived id old hold rfl
      hlive ⟨task, hnamed, hfeeds⟩
    rcases TaskState.isPinned_cases hpinned with hstate | hstate | hstate
    · have hmiss := hrestart (hclaimed hstate)
      rw [restartCleared_hit.mpr ⟨rfl, hlive, hstate, hmem⟩] at hmiss
      cases hmiss
    · rw [resetPending_hit.mpr ⟨rfl, hlive, hstate, hmem⟩] at hreset
      cases hreset
    · have hmiss := harchive (hended hstate hpinned)
      rw [archiveCleared_hit.mpr ⟨rfl, hlive, hstate, hmem⟩] at hmiss
      cases hmiss

/-! ## The two statements that pin -/

theorem not_clearsTask (hcommit : ¬ ClearCommits plane action) {task : T} :
    ¬ ClearsTask plane action job task :=
  fun hclears => hcommit hclears.1

/-- What the pass found ended upstream of a node that it schedules, or ended itself, is settled
once the pass has committed, with the output that the work order pins. -/
theorem upstream_of_schedule {snapshot : Snapshot J T V} {later : TaskTable J T V}
    (hreads : ReadsSound dagFor plane)
    (hstep : ReadsSound dagFor (plane.step render dagFor .commitPass))
    (hexecutor : plane.executor = .inPass snapshot)
    (hlater : (pass (dagFor snapshot.job) (liveStates (dagFor snapshot.job) snapshot)).foldlM
      (recordVerdict plane.ledger.jobs (dagFor snapshot.job) snapshot) plane.ledger.tasks =
        some later)
    (htasks : (plane.step render dagFor .commitPass).ledger.tasks = later)
    (hnumber : clearNumber plane.ledger.jobs snapshot.job = some snapshot.clearNumber)
    {earlier : List (ℕ × PassAction)}
    (hearlier : ∀ action ∈ earlier, action ∈ pass (dagFor snapshot.job)
      (liveStates (dagFor snapshot.job) snapshot))
    {up : ℕ} {upNode : Node T} (hnode : (dagFor snapshot.job).nodes[up]? = some upNode)
    (hreached : Reached (liveStates (dagFor snapshot.job) snapshot) earlier up)
    (hfirst : (⟨snapshot.job, upNode.taskId, 1⟩ : AttemptId J T) ∈ plane.ledger.tasks) :
    Settled (plane.step render dagFor .commitPass) snapshot.job upNode.taskId ∧
      liveOutput (plane.step render dagFor .commitPass).ledger.tasks snapshot.job upNode.taskId =
        liveOutput snapshot.rows snapshot.job upNode.taskId := by
  have hsnapshot := hreads.pass snapshot hexecutor
  have hkeeps (hsettled : Settled plane snapshot.job upNode.taskId ∧
      liveOutput plane.ledger.tasks snapshot.job upNode.taskId =
        liveOutput snapshot.rows snapshot.job upNode.taskId) :
      Settled (plane.step render dagFor .commitPass) snapshot.job upNode.taskId ∧
        liveOutput (plane.step render dagFor .commitPass).ledger.tasks snapshot.job
          upNode.taskId = liveOutput snapshot.rows snapshot.job upNode.taskId := by
    have hlater : Settled (plane.step render dagFor .commitPass) snapshot.job upNode.taskId ∧ _ :=
      hsettled.1.step hreads.tries hfirst (not_clearsTask (by exact not_false))
    exact ⟨hlater.1, hlater.2.trans hsettled.2⟩
  cases hread : liveRow snapshot.rows snapshot.job upNode.taskId with
  | none =>
      -- the sweep may have propagated to a node without a live row; it stays without one
      apply hkeeps
      have hdead := hreads.absent snapshot hexecutor upNode.taskId hread
      refine ⟨⟨?_, ?_⟩, ?_⟩
      · intro entry hentry
        rw [hdead] at hentry
        cases hentry
      · intro id hheld
        rw [hexecutor] at hheld
        cases hheld
      · rw [liveOutput, liveOutput, hdead, hread]
  | some entry =>
      obtain ⟨id, read⟩ := entry
      obtain ⟨hrow, hjob, htask, hlive⟩ := liveRow_some hread
      dsimp only at hrow hjob htask hlive
      by_cases hended : read.state.isTerminal = true
      · apply hkeeps
        have hsettled := hsnapshot.upstream hreads hnumber hrow hlive hended
        rw [hjob, htask] at hsettled
        refine ⟨hsettled.1, hsettled.2.trans ?_⟩
        rw [liveOutput, hread]
        rfl
      · -- the pass itself ended the row
        rcases hreached with hterminal | ⟨state, _, hpropagate⟩
        · rw [stateAt_liveStates hnode, hread] at hterminal
          exact absurd hterminal hended
        · obtain ⟨new, hnew, hnewLive, hnewEnded, houtput⟩ :=
            ended_of_propagate hlater (hearlier _ hpropagate) hnode hread hreads.early
          rw [← htasks] at hnew
          have hsettled := settled_of_ended hstep.tries.numbered hstep.held hnew hnewLive hnewEnded
          have hfound := hstep.tries.numbered.liveRow_eq hnew hnewLive
          rw [hjob, htask] at hsettled hfound
          refine ⟨hsettled, ?_⟩
          rw [liveOutput, liveOutput, hread, hfound]
          exact houtput.trans (hsnapshot.pending id read hrow (by simpa using hended)).symm

/-- A node that a committed pass schedules gets a sound work order. -/
theorem orderSound_of_schedule {snapshot : Snapshot J T V} {idx : ℕ} {node : Node T}
    {id : AttemptId J T} {read old : TaskInstance J T V} (hreads : ReadsSound dagFor plane)
    (hexecutor : plane.executor = .inPass snapshot)
    (haction : (idx, PassAction.schedule) ∈ pass (dagFor snapshot.job)
      (liveStates (dagFor snapshot.job) snapshot))
    (hnode : (dagFor snapshot.job).nodes[idx]? = some node)
    (hread : liveRow snapshot.rows snapshot.job node.taskId = some (id, read))
    (hhit : (markScheduled plane.ledger.jobs id (composeInput (dagFor snapshot.job) node snapshot)
      snapshot.clearNumber).hit id old = true)
    (hold : plane.ledger.tasks[id]? = some old)
    (hnew : (plane.step render dagFor .commitPass).ledger.tasks[id]? =
      some ((markScheduled plane.ledger.jobs id (composeInput (dagFor snapshot.job) node snapshot)
        snapshot.clearNumber).set id old)) :
    OrderSound (dagFor snapshot.job) (plane.step render dagFor .commitPass) snapshot.job node
      ((markScheduled plane.ledger.jobs id (composeInput (dagFor snapshot.job) node snapshot)
        snapshot.clearNumber).set id old) := by
  have hstep : ReadsSound dagFor (plane.step render dagFor .commitPass) := hreads.step
  obtain ⟨_, hjob, _, _⟩ := liveRow_some hread
  dsimp only at hjob
  obtain ⟨_, _, hcondition⟩ := onLive_hit.mp hhit
  simp only [Bool.and_eq_true, beq_iff_eq] at hcondition
  have hnumber := hcondition.2
  rw [hjob] at hnumber
  have hchange : TaskChange dagFor plane .commitPass
    (plane.step render dagFor .commitPass).ledger.tasks := taskChange_step plane _
  generalize htasks : (plane.step render dagFor .commitPass).ledger.tasks = later at hchange
  cases hchange with
  | same =>
      -- a pass that rolled back schedules nothing
      rw [htasks, hold, Option.some.injEq] at hnew
      have hstate := hcondition.1
      rw [hnew] at hstate
      cases hstate
  | pass held later hheld hlater =>
      rw [hexecutor] at hheld
      cases hheld
      apply OrderSound.of_upstream (liveOutput snapshot.rows snapshot.job) rfl rfl
      intro task htask
      obtain ⟨up, hup, upNode, hupNode, rfl⟩ := Dag.mem_upstreamTasks.mp htask
      obtain ⟨earlier, rest, hsplit⟩ := List.append_of_mem haction
      obtain ⟨justified, hjustified, hreached⟩ := allJustified_pass _ _ earlier _ rest hsplit
      rw [hnode, Option.some.injEq] at hjustified
      subst hjustified
      have hfirst := hreads.tries.upstream_first hold (hjob ▸ htask)
      rw [hjob] at hfirst
      apply upstream_of_schedule hreads hstep hexecutor hlater htasks hnumber _ hupNode
        (hreached up hup) hfirst
      intro other hother
      rw [hsplit]
      exact List.mem_append_left _ hother

section HandOff

variable {finishedId : AttemptId J T} {podUid : String} {skipped : Bool} {outcome : Outcome}
  {output : Option V} {exitCode : Option ℤ} {args : AdvanceArgs J T V}
  {done : TaskInstance J T V}

/-- The tables of a hand-off that finishes its row. -/
theorem handOff_tasks (hfree : handOffLocked plane finishedId (some args) = false)
    (hdone : plane.ledger.tasks[finishedId]? = some done)
    (hfinish : (finish finishedId podUid skipped outcome output exitCode).hit finishedId done =
      true) :
    (plane.step render dagFor
        (.handOff finishedId podUid skipped outcome output exitCode (some args))).ledger.tasks =
      (advanceSegment plane.ledger.jobs args
          ((finish finishedId podUid skipped outcome output exitCode).set finishedId done)
          podUid).run
        ((finish finishedId podUid skipped outcome output exitCode).run plane.ledger.tasks) := by
  rw [ControlPlane.step, hfree]
  simp only [Bool.false_eq_true, if_false, ControlPlane.withTasks, finishAndAdvance, hdone, hfinish,
    if_true]

variable (render dagFor) in
/-- A hand-off leaves the finished row live and ended, with its output. -/
theorem finished_of_handOff (hfree : handOffLocked plane finishedId (some args) = false)
    (hdone : plane.ledger.tasks[finishedId]? = some done)
    (hfinish : (finish finishedId podUid skipped outcome output exitCode).hit finishedId done =
      true) :
    ∃ new, (plane.step render dagFor
        (.handOff finishedId podUid skipped outcome output exitCode
          (some args))).ledger.tasks[finishedId]? = some new ∧ new.live = true ∧
      new.state.isTerminal = true ∧ new.output = output := by
  have hended : ((finish finishedId podUid skipped outcome output exitCode).set finishedId
      done).state.isTerminal = true := by
    cases skipped <;> rfl
  refine ⟨(finish finishedId podUid skipped outcome output exitCode).set finishedId done, ?_,
    (onLive_hit.mp hfinish).2.1, hended, rfl⟩
  rw [handOff_tasks hfree hdone hfinish, Update.getElem?_run, Update.getElem?_run, hdone,
    Option.map_some, Option.map_some, Option.some.injEq]
  rw [Update.row, Update.row, if_pos hfinish, if_neg]
  intro hstart
  obtain ⟨_, _, hcondition⟩ := onLive_hit.mp hstart
  simp only [Bool.and_eq_true, beq_iff_eq] at hcondition
  rw [hcondition.1.1.1.1.2] at hended
  cases hended

/-- The next member of a segment gets a sound work order. -/
theorem orderSound_of_advance (hreads : ReadsSound dagFor plane)
    (hfree : handOffLocked plane finishedId (some args) = false)
    (hdone : plane.ledger.tasks[finishedId]? = some done)
    (hfinish : (finish finishedId podUid skipped outcome output exitCode).hit finishedId done =
      true)
    {id : AttemptId J T} {row : TaskInstance J T V}
    (hhit : (advanceSegment plane.ledger.jobs args
      ((finish finishedId podUid skipped outcome output exitCode).set finishedId done)
      podUid).hit id row = true)
    (hrow : plane.ledger.tasks[id]? = some row)
    (hcomposed : ComposedAsPass (dagFor id.job) plane id.job
      (.handOff finishedId podUid skipped outcome output exitCode (some args)))
    {node : Node T} (hnode : node ∈ (dagFor id.job).nodes) (hname : node.taskId = id.task) :
    OrderSound (dagFor id.job) (plane.step render dagFor
        (.handOff finishedId podUid skipped outcome output exitCode (some args))) id.job node
      ((advanceSegment plane.ledger.jobs args
        ((finish finishedId podUid skipped outcome output exitCode).set finishedId done)
        podUid).set id row) := by
  have hstep : ReadsSound dagFor (plane.step render dagFor
    (.handOff finishedId podUid skipped outcome output exitCode (some args))) := hreads.step
  obtain ⟨rfl, _, hcondition⟩ := onLive_hit.mp hhit
  simp only [Bool.and_eq_true, beq_iff_eq, decide_eq_true_eq] at hcondition
  have hjob := hcondition.1.1.1.2
  obtain ⟨snapshot, hmem, composed, hcomposedNode, read, hsnapshotJob, hclearNumber, hread, hended,
    hinput⟩ := hcomposed hjob.symm
  obtain ⟨_, _, hreadTask, _⟩ := liveRow_some hread
  cases Dag.node_unique hcomposedNode hnode (hreadTask.symm.trans hname.symm)
  have hsnapshot := hreads.orders snapshot hmem
  have hnumber : clearNumber plane.ledger.jobs snapshot.job = some snapshot.clearNumber := by
    rw [hsnapshotJob, ← hclearNumber]
    exact hcondition.2
  apply OrderSound.of_upstream _ rfl (congrArg WorkInput.pins hinput)
  intro task htask
  have hfirst := hreads.tries.upstream_first hrow htask
  obtain ⟨up, hup, upNode, hupNode, rfl⟩ := Dag.mem_upstreamTasks.mp htask
  obtain ⟨upId, upRow, hupRead, hupEnded⟩ := liveRow_of_isTerminal hupNode (hended up hup)
  have houtput : liveOutput (snapshot.finishing finishedId podUid skipped outcome output
      exitCode).rows snapshot.job upNode.taskId = upRow.output := by
    have hread : liveRow (snapshot.finishing finishedId podUid skipped outcome output
        exitCode).rows snapshot.job upNode.taskId = some (upId, upRow) := hupRead
    rw [liveOutput, hread]
    rfl
  obtain ⟨hfound, hupJob, hupTask, hupLive⟩ := liveRow_some hupRead
  dsimp only at hfound hupJob hupTask hupLive
  have hkey : upId.job = args.nextTaskInstanceId.job := hupJob.trans hsnapshotJob
  obtain ⟨base, hbase, hbaseRow⟩ := Update.getElem?_run_eq_some_iff.mp hfound
  change _ ∧ _ = liveOutput (snapshot.finishing finishedId podUid skipped outcome output
    exitCode).rows snapshot.job upNode.taskId
  rw [houtput]
  rw [Update.row] at hbaseRow
  split at hbaseRow
  · -- the finished member itself
    next hmatch =>
      have hsame := (onLive_hit.mp hmatch).1
      subst hsame
      obtain ⟨new, hnew, hnewLive, hnewEnded, hnewOutput⟩ :=
        finished_of_handOff render dagFor hfree hdone hfinish
      have hsettled := settled_of_ended hstep.tries.numbered hstep.held hnew hnewLive hnewEnded
      have hlive := hstep.tries.numbered.liveRow_eq hnew hnewLive
      rw [hkey, hupTask] at hsettled hlive
      refine ⟨hsettled, ?_⟩
      rw [liveOutput, hlive]
      exact hnewOutput.trans (congrArg TaskInstance.output hbaseRow)
  · subst hbaseRow
    have hsettled := hsnapshot.upstream hreads hnumber hbase hupLive hupEnded
    rw [hkey, hupTask] at hsettled
    have hlater : Settled (plane.step render dagFor (.handOff finishedId podUid skipped outcome
        output exitCode (some args))) args.nextTaskInstanceId.job upNode.taskId ∧ _ :=
      hsettled.1.step hreads.tries hfirst (not_clearsTask (by exact not_false))
    exact ⟨hlater.1, hlater.2.trans hsettled.2⟩

end HandOff

/-- A step that the job's part of a run may take. -/
structure OrderStep (dagFor : J → Dag T) (job : J) (plane : ControlPlane J T V)
    (action : Action J T V) : Prop where
  closed : NamesClosed (dagFor job) job action
  composed : ComposedAsPass (dagFor job) plane job action
  unclaimed : NoneClaimedMeanwhile (dagFor job) plane job action

/-- A row that a step changes and leaves live with a work order has a sound one. -/
theorem OrdersSound.changed {id : AttemptId J T} {old new : TaskInstance J T V}
    (hsound : OrdersSound dagFor id.job plane) (hguard : OrderStep dagFor id.job plane action)
    (hold : plane.ledger.tasks[id]? = some old)
    (hnew : (plane.step render dagFor action).ledger.tasks[id]? = some new)
    (hchange : RowChange dagFor plane action id old new) (hlive : new.live = true)
    (hpinned : new.state.isPinned = true) {node : Node T}
    (hnode : node ∈ (dagFor id.job).nodes) (hname : node.taskId = id.task) :
    OrderSound (dagFor id.job) (plane.step render dagFor action) id.job node new := by
  -- most changes keep the work order of a row that had one
  have hkept (holdLive : old.live = true) (holdPinned : old.state.isPinned = true)
      (hinput : new.input = old.input)
      (hclear : ∀ task ∈ (dagFor id.job).upstreamTasks node,
        ¬ ClearsTask plane action id.job task) :
      OrderSound (dagFor id.job) (plane.step render dagFor action) id.job node new :=
    (hsound.current id old hold rfl holdLive holdPinned node hnode hname).step hsound.tries hold
      hinput hclear
  cases hchange with
  | same _ _ _ hcommit =>
      exact hkept hlive hpinned rfl fun _ _ => not_clearsTask hcommit
  | statement statement _ _ _ _ hhit =>
      have hquiet := TaskStatement.quiet hhit
      obtain ⟨holdPinned, hinput⟩ := hquiet.pinned hpinned
      exact hkept (hquiet.live.symm.trans hlive) holdPinned hinput fun _ _ =>
        not_clearsTask (by exact not_false)
  | claimLaunch _ _ _ _ _ _ hclaimable =>
      simp only [launchClaimable, Bool.and_eq_true] at hclaimable
      exact hkept hlive (TaskState.isPinned_of_isClaimable hclaimable.1.1.1.1.2) rfl fun _ _ =>
        not_clearsTask (by exact not_false)
  | claimControl _ _ _ _ hclaimable =>
      simp only [controlClaimable, Bool.and_eq_true] at hclaimable
      exact hkept hlive (TaskState.isPinned_of_isClaimable hclaimable.1.1.2) rfl fun _ _ =>
        not_clearsTask (by exact not_false)
  | archiveTry _ _ _ _ _ hhit =>
      simp only [Executor.archiveTry, Bool.and_eq_true] at hhit
      exact hkept hhit.1.1.1.2 (TaskState.isPinned_of_isClaimed hhit.1.1.2) rfl fun _ _ =>
        not_clearsTask (by exact not_false)
  | verdict snapshot verdict scheduled _ read _ hexecutor haction hscheduled hread hhit =>
      obtain ⟨_, hjob, htask, _⟩ := liveRow_some hread
      dsimp only at hjob htask
      obtain ⟨idx, decision⟩ := verdict
      cases decision with
      | propagate state =>
          have hstate : state.isPinned = true := hpinned
          rw [TaskState.isPinned_of_isPropagated (isPropagated_of_mem_pass haction)] at hstate
          cases hstate
      | schedule =>
          have hmem := List.mem_of_getElem? hscheduled
          rw [hjob] at hnode ⊢
          cases Dag.node_unique hmem hnode (htask.symm.trans hname.symm)
          exact orderSound_of_schedule hsound.toReadsSound hexecutor haction hscheduled hread hhit
            hold hnew
  | archiveRestarted => cases hlive
  | clear cleared now clear archived _ _ hclear harchived =>
      by_cases hjob : cleared = id.job
      · subst hjob
        have hunnamed (task : T) (htask : task ∈ (dagFor id.job).upstreamTasks node) :=
          clearRow_orders hclear harchived (hsound.closed clear hclear) hguard.unclaimed hold hlive
            hpinned hnode hname htask
        rcases clearRow_cases id.job clear archived id old with
          ⟨_, _, hrow⟩ | ⟨_, _, hrow⟩ | ⟨_, hrow⟩ | ⟨hrow, _⟩
        · rw [hrow] at hpinned
          cases hpinned
        · rw [hrow] at hlive
          cases hlive
        · rw [hrow] at hpinned
          cases hpinned
        · rw [hrow] at hlive hpinned
          apply hkept hlive hpinned (by rw [hrow])
          rintro task htask ⟨_, _, other, _, hother, hnamed⟩
          rw [hclear, Option.some.injEq] at hother
          subst hother
          exact hunnamed task htask hnamed
      · have hrow : clearRow cleared clear archived id old = old :=
          clearRow_of_unnamed fun hsame => hjob hsame.1.symm
        rw [hrow] at hlive hpinned
        apply hkept hlive hpinned (by rw [hrow])
        rintro task _ ⟨_, _, _, haction, _⟩
        cases haction
        exact hjob rfl
  | finish _ _ _ _ _ _ _ _ _ hhit =>
      obtain ⟨_, holdLive, hcondition⟩ := onLive_hit.mp hhit
      simp only [Bool.and_eq_true, beq_iff_eq] at hcondition
      exact hkept holdLive (by rw [hcondition.1]; rfl) rfl fun _ _ =>
        not_clearsTask (by exact not_false)
  | advance finishedId podUid skipped outcome output exitCode args done _ _ hfree hdone hfinish
      hhit =>
      exact orderSound_of_advance hsound.toReadsSound hfree hdone hfinish hhit hold
        hguard.composed hnode hname

/-- A row that a step adds holds a work order only when it retries a row that held the same. -/
theorem OrdersSound.inserted {id : AttemptId J T} {new : TaskInstance J T V}
    (hsound : OrdersSound dagFor id.job plane) (hinsert : RowInsert dagFor plane action id new)
    (hpinned : new.state.isPinned = true) {node : Node T}
    (hnode : node ∈ (dagFor id.job).nodes) (hname : node.taskId = id.task) :
    OrderSound (dagFor id.job) (plane.step render dagFor action) id.job node new := by
  cases hinsert with
  | retry failed failure now hash row hrow hhit =>
      simp only [Executor.archiveTry, Bool.and_eq_true] at hhit
      have hcurrent : OrderSound (dagFor failed.job) plane failed.job node row :=
        hsound.current failed row hrow rfl hhit.1.1.1.2
          (TaskState.isPinned_of_isClaimed hhit.1.1.2) node hnode hname
      change OrderSound (dagFor failed.job) _ failed.job node _
      have hinput : (retryTry failed failure.escalate failure.backoff now hash row).input =
          row.input := rfl
      apply hcurrent.step hsound.tries hrow hinput
      intro task _
      exact not_clearsTask (by exact not_false)
  | plan | restarted | cleared => cases hpinned

/-- Every step that meets the conditions keeps the work orders sound. -/
theorem OrdersSound.step (hsound : OrdersSound dagFor job plane)
    (hguard : OrderStep dagFor job plane action) :
    OrdersSound dagFor job (plane.step render dagFor action) where
  toReadsSound := hsound.toReadsSound.step
  current id new hnew hjob hlive hpinned node hnode hname := by
    subst hjob
    have hstep : RowStep dagFor plane action id new := rowStep plane action hnew
    rcases hstep with ⟨old, hold, hchange⟩ | ⟨_, hinsert⟩
    · exact hsound.changed hguard hold hnew hchange hlive hpinned hnode hname
    · exact hsound.inserted hinsert hpinned hnode hname
  closed clear hclear := by
    have hchange : ClearChange plane job action clear := clearChange_step plane action hclear
    cases hchange with
    | kept _ _ hopen => exact hsound.closed clear hopen
    | opened taskIds => exact hguard.closed rfl
    | archived old hopen => exact hsound.closed old hopen

theorem ordersSound_fresh :
    OrdersSound dagFor job (ControlPlane.fresh : ControlPlane J T V) where
  toReadsSound := readsSound_fresh
  current id row hrow := by simp [ControlPlane.fresh] at hrow
  closed clear hclear := by simp [ControlPlane.fresh] at hclear

/-! ## The fence -/

/-- The snapshot is held by a session: by the executor's open pass or by a finish handler. -/
def ControlPlane.Holds (plane : ControlPlane J T V) (snapshot : Snapshot J T V) : Prop :=
  plane.executor = .inPass snapshot ∨ snapshot ∈ plane.orders

/-- No verdict and no hand-off that was composed from the snapshot hits a row. -/
def Overtaken (plane : ControlPlane J T V) (snapshot : Snapshot J T V) : Prop :=
  (∀ (dag : Dag T) node (id : AttemptId J T) decision, id.job = snapshot.job →
    (verdictUpdate plane.ledger.jobs dag snapshot node id decision).idle plane.ledger.tasks =
      true) ∧
  ∀ (args : AdvanceArgs J T V) done podUid, args.jobId = snapshot.job →
    args.clearNumber = snapshot.clearNumber →
    (advanceSegment plane.ledger.jobs args done podUid).idle plane.ledger.tasks = true

/-- The job has seen more clears than the snapshot. -/
def ClearedSince (snapshot : Snapshot J T V) (plane : ControlPlane J T V) : Prop :=
  ∃ number, clearNumber plane.ledger.jobs snapshot.job = some number ∧
    snapshot.clearNumber < number

theorem ClearedSince.step {snapshot : Snapshot J T V} (hsince : ClearedSince snapshot plane) :
    ClearedSince snapshot (plane.step render dagFor action) := by
  obtain ⟨number, hnumber, hlt⟩ := hsince
  rcases clearNumber_step render dagFor action hnumber with ⟨_, _, hraised⟩ | ⟨hkept, _⟩
  · exact ⟨number + 1, hraised, by omega⟩
  · exact ⟨number, hkept, hlt⟩

theorem ClearedSince.overtaken {snapshot : Snapshot J T V} (hsince : ClearedSince snapshot plane) :
    Overtaken plane snapshot := by
  obtain ⟨number, hnumber, hlt⟩ := hsince
  have hother : clearNumber plane.ledger.jobs snapshot.job ≠ some snapshot.clearNumber := by
    rw [hnumber, ne_eq, Option.some.injEq]
    omega
  apply And.intro
  · intro dag node id decision hjob
    rw [Update.idle_eq_true_iff]
    intro k row _
    rw [← Bool.not_eq_true]
    intro hhit
    obtain ⟨_, _, _, hcurrent⟩ := verdictUpdate_hit.mp hhit
    rw [hjob] at hcurrent
    exact hother hcurrent
  · intro args done podUid hjob hclear
    rw [Update.idle_eq_true_iff]
    intro k row _
    rw [← Bool.not_eq_true]
    intro hhit
    obtain ⟨_, _, hcondition⟩ := onLive_hit.mp hhit
    simp only [Bool.and_eq_true, beq_iff_eq, decide_eq_true_eq] at hcondition
    have hcurrent := hcondition.2
    rw [hcondition.1.1.1.2, hjob, hclear] at hcurrent
    exact hother hcurrent

/-- A clear that commits overtakes every snapshot of its job that is held. -/
theorem ReadsSound.clearedSince (hreads : ReadsSound dagFor plane) {now : ℤ}
    {snapshot : Snapshot J T V}
    (hcommits : ClearCommits plane (.commitClear snapshot.job now))
    (hheld : plane.Holds snapshot) :
    ClearedSince snapshot (plane.step render dagFor (.commitClear snapshot.job now)) := by
  have hsnapshot : SnapshotSound plane.ledger snapshot := by
    rcases hheld with hpass | horder
    · exact hreads.pass snapshot hpass
    · exact hreads.orders snapshot horder
  obtain ⟨number, hnumber, hle⟩ := hsnapshot.number
  rcases clearNumber_step render dagFor (.commitClear snapshot.job now) hnumber with
    ⟨_, _, hraised⟩ | ⟨_, hnot⟩
  · exact ⟨number + 1, hraised, by omega⟩
  · exact absurd ⟨hcommits, now, rfl⟩ hnot

variable (render dagFor)

/-- In every run whose clears of a job name downstream-closed sets, and commit when no row they
feed was claimed meanwhile, and whose hand-offs are composed as the readiness pass would, the pins
of every live row of the job that holds a work order are the outputs of the live rows upstream, in
every state that is reached. And a verdict or a hand-off that was composed from what a session
held when a clear of the job committed hits no row after it. -/
theorem work_orders_never_stale (job : J) (actions : List (Action J T V))
    (hrun : Along (ControlPlane.step render dagFor) (OrderStep dagFor job) ControlPlane.fresh
      actions) :
    AfterEach (ControlPlane.step render dagFor)
        (fun _ plane => NeverStale (dagFor job) plane.ledger.tasks job) ControlPlane.fresh
        actions ∧
      ∀ earlier now later, actions = earlier ++ .commitClear job now :: later →
        let before := earlier.foldl (ControlPlane.step render dagFor) ControlPlane.fresh
        ClearCommits before (.commitClear job now) → ∀ snapshot, before.Holds snapshot →
          snapshot.job = job →
            Overtaken (actions.foldl (ControlPlane.step render dagFor) ControlPlane.fresh)
              snapshot := by
  apply And.intro
  · apply afterEach_of_along (OrdersSound dagFor job) _ _ ordersSound_fresh hrun
    · intro plane action hsound hguard
      exact hsound.step hguard
    · intro _ plane hsound id row hrow hjob hlive hpinned node hnode hname
      exact (hsound.current id row hrow hjob hlive hpinned node hnode hname).pins
  · intro earlier now later hsplit before hcommits snapshot hheld hjob
    subst hjob
    have hreads : ReadsSound dagFor before :=
      List.foldlRecOn earlier _ readsSound_fresh fun _ hreads _ _ => hreads.step
    have hsince : ClearedSince snapshot
        (later.foldl (ControlPlane.step render dagFor)
          (before.step render dagFor (.commitClear snapshot.job now))) :=
      List.foldlRecOn later _ (hreads.clearedSince hcommits hheld) fun _ hsince _ _ => hsince.step
    rw [hsplit, List.foldl_append, List.foldl_cons]
    exact hsince.overtaken

/-- A pod task and a control task that reads its output. -/
def pinnedPair : Dag ℕ where
  nodes :=
    [{ taskId := 0
       kind := .pod
       inputNames := []
       writesLake := true
       triggerRule := .allSucceeded
       teardown := false
       policy := { retries := 2, classRule := .fromRun, escalateOnOom := false, segment := none }
       upstream := [] },
     { taskId := 1
       kind := .control
       inputNames := ["first"]
       writesLake := false
       triggerRule := .allSucceeded
       teardown := false
       policy := { retries := 2, classRule := .fromRun, escalateOnOom := false, segment := none }
       upstream := [0] }]
  upstream_lt := by decide
  nodup := by decide

theorem pinnedPair_closed : pinnedPair.DownstreamClosed [0, 1] := by
  intro first second hfeeds _
  obtain ⟨node, hnode, rfl, _⟩ := hfeeds
  have hnames : ∀ node ∈ pinnedPair.nodes, node.taskId ∈ [0, 1] := by decide
  exact hnames node hnode

/-- The pod task runs and succeeds, and the next pass schedules the control task on its output. -/
def secondScheduled : List (Action ℕ ℕ ℕ) :=
  [.job (.enqueue 0 "org" 0 0 none), .job (.claim 0 0), .plan 0, .openPass 0, .commitPass,
    .claimLaunch "epoch" none 0 1, .task (.start ⟨0, 0, 1⟩ (.launch 0 0 1 1) "pod" "uid"),
    .task (.finish ⟨0, 0, 1⟩ "uid" false .done (some 7) (some 0)), .openPass 0, .commitPass]

/-- An operator clears both tasks. -/
def undisturbedClear : List (Action ℕ ℕ ℕ) :=
  secondScheduled ++ [.openClear 0 [0, 1] 2 none, .archiveCleared 0, .commitClear 0 0]

/-- The same clear, with a claim of the control task after the clear has marked the claimed
rows. -/
def racedClear : List (Action ℕ ℕ ℕ) :=
  secondScheduled ++ [.openClear 0 [0, 1] 2 none, .claimControl "epoch" 0, .archiveCleared 0,
    .commitClear 0 0]

/-- The undisturbed clear takes the work order back. -/
theorem undisturbedClear_never_stale :
    AfterEach (ControlPlane.step (fun _ => "task") fun _ => pinnedPair)
      (fun _ plane => NeverStale pinnedPair plane.ledger.tasks 0) ControlPlane.fresh
      undisturbedClear := by
  have hcommit : NoneClaimedMeanwhile pinnedPair
      ((undisturbedClear.take 12).foldl (ControlPlane.step (fun _ => "task") fun _ => pinnedPair)
        ControlPlane.fresh) 0 (.commitClear 0 0) := by
    intro _ clear archived _ _ id row hrow _ _ hfed
    have hwaits : ((undisturbedClear.take 12).foldl (ControlPlane.step (fun _ => "task")
        fun _ => pinnedPair) ControlPlane.fresh).ledger.tasks.toList.all (fun entry =>
          entry.1.task != 1 || entry.2.state == .scheduled) = true := by decide +kernel
    have hreader : ∀ node ∈ pinnedPair.nodes, pinnedPair.upstreamTasks node = [] ∨
        node.taskId = 1 := by decide
    obtain ⟨_, _, node, hnode, hname, hup⟩ := hfed
    have htask : id.task = 1 := by
      rcases hreader node hnode with hnone | hsecond
      · rw [hnone] at hup
        cases hup
      · exact hname.symm.trans hsecond
    have hentry := List.all_eq_true.mp hwaits (id, row) (BTreeMap.mem_toList.mpr hrow)
    simp only [htask, bne_self_eq_false, Bool.false_or, beq_iff_eq] at hentry
    rw [hentry]
    exact ⟨nofun, nofun⟩
  refine (work_orders_never_stale (fun _ => "task") (fun _ => pinnedPair) 0 undisturbedClear
    ?_).1
  simp only [undisturbedClear, secondScheduled, List.cons_append, List.nil_append, Along]
  iterate 10 refine ⟨⟨trivial, trivial, trivial⟩, ?_⟩
  exact ⟨⟨fun _ => pinnedPair_closed, trivial, trivial⟩, ⟨trivial, trivial, trivial⟩,
    ⟨trivial, trivial, hcommit⟩, trivial⟩

/-- After the raced clear the control task runs on the output of the archived row, while the live
row of the pod task has none. -/
theorem raced_clear_leaves_old_pins :
    (∀ action ∈ racedClear, NamesClosed pinnedPair 0 action) ∧
      ¬ NeverStale pinnedPair
        (racedClear.foldl (ControlPlane.step (fun _ => "task") fun _ => pinnedPair)
          ControlPlane.fresh).ledger.tasks 0 := by
  apply And.intro
  · intro action haction
    cases action with
    | openClear cleared taskIds =>
        intro _
        simp only [racedClear, secondScheduled, List.cons_append, List.nil_append, List.mem_cons,
          reduceCtorEq, Action.openClear.injEq, List.not_mem_nil, false_or, or_false] at haction
        rw [haction.2.1]
        exact pinnedPair_closed
    | _ => trivial
  · intro hstale
    have hrow : ((racedClear.foldl (ControlPlane.step (fun _ => "task") fun _ => pinnedPair)
        ControlPlane.fresh).ledger.tasks[(⟨0, 1, 1⟩ : AttemptId ℕ ℕ)]?).any (fun row =>
          row.live && row.state == .running &&
            row.input.map WorkInput.pins == some [some 7]) = true := by decide +kernel
    have houtput : liveOutput (racedClear.foldl (ControlPlane.step (fun _ => "task")
        fun _ => pinnedPair) ControlPlane.fresh).ledger.tasks 0 0 = none := by decide +kernel
    simp only [Option.any_eq_true, Bool.and_eq_true, beq_iff_eq, Option.map_eq_some_iff] at hrow
    obtain ⟨row, hrow, ⟨hlive, hstate⟩, input, hinput, hpins⟩ := hrow
    obtain ⟨current, hcurrent, hcurrentPins⟩ := hstale ⟨0, 1, 1⟩ row hrow rfl hlive
      (by rw [hstate]; rfl) _ (List.mem_cons_of_mem _ List.mem_cons_self) rfl
    rw [hinput, Option.some.injEq] at hcurrent
    rw [← hcurrent, hpins] at hcurrentPins
    change [some 7] = [liveOutput _ 0 0] at hcurrentPins
    rw [houtput] at hcurrentPins
    cases hcurrentPins

end EntityResolution.Executor
