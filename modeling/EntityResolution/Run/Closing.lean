/-
# Who closes the run row

The jobs that open a run row end with a teardown task that closes it. The task waits for the last
stage to be terminal, whatever became of it, and its statement writes `succeeded` always: nothing
tells it how the stages ended, and the statement that would fail a row has no caller.

A stage that succeeded or was skipped has upstream stages that did too. So the row says
`succeeded` of a run that succeeded as long as the last stage is done when the statement runs, and
no stage is cleared under a row that says so.
-/

import EntityResolution.Executor.GraphRuns
import EntityResolution.Executor.Ledger
import EntityResolution.Run.Guard

namespace EntityResolution.Run

open EntityResolution.Executor EntityResolution.Runs EntityResolution.StackSearch

universe u v

variable {J : Type u} {T : Type v}

/-- The default policy of a task, but for the escalation. -/
def defaultPolicy (escalateOnOom : Bool) : NodePolicy :=
  { retries := 2, classRule := .fromRun, escalateOnOom, segment := none }

/-- `then`: a pod task under its data edges. -/
def podTask (taskId : String) (inputNames : List String) (upstream : List ℕ)
    (escalateOnOom : Bool) : Node String where
  taskId := taskId
  kind := .pod
  inputNames := inputNames
  writesLake := true
  triggerRule := .allSucceeded
  teardown := false
  policy := defaultPolicy escalateOnOom
  upstream := upstream

/-- `control`: a task of the dispatcher. -/
def controlTask (taskId : String) (inputNames : List String) (upstream : List ℕ) : Node String where
  taskId := taskId
  kind := .control
  inputNames := inputNames
  writesLake := false
  triggerRule := .allSucceeded
  teardown := false
  policy := defaultPolicy false
  upstream := upstream

/-- `epilogue::<Finish>` after one node, under `all_terminal`. -/
def finishTask (after : ℕ) : Node String where
  taskId := "finish"
  kind := .pod
  inputNames := []
  writesLake := true
  triggerRule := .allTerminal
  teardown := true
  policy := defaultPolicy false
  upstream := [after]

/-- `run_all`. -/
def runAll : Dag String where
  nodes :=
    [podTask "init" [] [] false,
     podTask "ingest" ["run_plan"] [0] false,
     podTask "standardize" ["run_plan", "landed"] [0, 1] false,
     podTask "match" ["run_plan", "standardized"] [0, 2] true,
     podTask "reconcile" ["run_plan", "scored"] [0, 3] true,
     podTask "assemble" ["run_plan", "resolved"] [0, 4] false,
     finishTask 5]
  upstream_lt := by decide
  nodup := by decide

/-- `correct`. -/
def correct : Dag String where
  nodes :=
    [podTask "init" [] [] false,
     podTask "reconcile" ["run_plan"] [0] true,
     podTask "assemble" ["run_plan", "resolved"] [0, 1] false,
     finishTask 2]
  upstream_lt := by decide
  nodup := by decide

/-- `apply_corrections`. -/
def applyCorrections : Dag String where
  nodes :=
    [controlTask "drain_actions" [] [],
     podTask "init" ["drained_actions"] [0] false,
     podTask "apply_staged" ["run_plan"] [1] false,
     podTask "reconcile" ["run_plan", "staged_applied"] [1, 2] true,
     podTask "assemble" ["run_plan", "resolved"] [1, 3] false,
     controlTask "settle_actions" ["staged_applied", "assembled"] [2, 4],
     finishTask 5]
  upstream_lt := by decide
  nodup := by decide

/-- The graph of a job that opens a run row. -/
def RunKind.dag : RunKind → Dag String
  | .runAllFull | .runAllIncremental => runAll
  | .correct => Run.correct
  | .applyCorrections => Run.applyCorrections

theorem RunKind.allSucceed (kind : RunKind) : AllSucceedOutsideTeardown kind.dag := by
  unfold AllSucceedOutsideTeardown
  cases kind <;> decide

/-- What the queue says of the job. -/
inductive JobPhase
  | running
  | canceling
  | settled
  deriving DecidableEq

/-- One job and the lake's run rows: its phase, the states of its tasks, and the rows. -/
structure Execution (J : Type u) where
  phase : JobPhase
  states : List TaskState
  runs : List (RunRow J)

/-- One event. The statements of the two stages that write the row commit whenever they do: a
pod that lost its task may still be at work. -/
inductive Event (J : Type u)
  | pass
  | progress (idx : ℕ) (state : TaskState)
  | complete (idx : ℕ) (outcome : TaskState)
  | cancel
  | cancelPending
  | cancelLive
  | settleCanceled (idx : ℕ)
  | clear (idx : ℕ)
  | restarted (idx : ℕ)
  | openRow (row : RunRow J)
  | closeRow

/-- Write the state of every node. -/
def onNodes (dag : Dag T) (set : Node T × ℕ → TaskState → TaskState) (states : List TaskState) :
    List TaskState :=
  dag.nodes.zipIdx.map fun entry => set entry (stateAt states entry.2)

/-- `cancel_pending.sql`, on one node. -/
def cancelWaiting (entry : Node T × ℕ) (state : TaskState) : TaskState :=
  if state.isWaiting && !entry.1.teardown then .canceled else state

/-- `cancel_live.sql`, on one node. -/
def cancelClaimed (entry : Node T × ℕ) (state : TaskState) : TaskState :=
  if (state.isClaimed || state == .restarting) && !entry.1.teardown then .canceling else state

/-- The clear of a task and of everything that it reaches, on one node: a claimed row is marked,
a terminal one is replaced by a fresh one, and a waiting one is reset. -/
def clearReached (dag : Dag T) (idx : ℕ) (entry : Node T × ℕ) (state : TaskState) : TaskState :=
  if reaches dag.nodes idx entry.2 then
    if state.isClaimed then .restarting
    else if state.isTerminal || state.isWaiting then .none
    else state
  else state

/-- What the executor's pass and the settle check at its end leave. A verdict on a node that is
not a teardown node matches no row of a canceling job, and rolls the pass back. -/
def Execution.pass (dag : Dag T) (execution : Execution J) : Execution J :=
  if execution.phase = .settled ∨ execution.phase = .canceling ∧
      ∃ action ∈ Executor.pass dag execution.states,
        (dag.nodes[action.1]?).any fun node => !node.teardown then execution
  else
    { execution with
      states := sweep dag execution.states
      phase :=
        match settle dag (sweep dag execution.states) with
        | .notYet => execution.phase
        | _ => .settled }

/-- One step of the job of a run. -/
def Execution.step [DecidableEq J] (dag : Dag T) (run : J) (execution : Execution J) :
    Event J → Execution J
  | .pass => execution.pass dag
  | .progress idx state =>
      { execution with states := graphMove dag execution.states (.progress idx state) }
  | .complete idx outcome =>
      { execution with states := graphMove dag execution.states (.complete idx outcome) }
  | .cancel =>
      if execution.phase = .running then { execution with phase := .canceling } else execution
  | .cancelPending =>
      if execution.phase = .canceling then
        { execution with states := onNodes dag cancelWaiting execution.states }
      else execution
  | .cancelLive =>
      if execution.phase = .canceling then
        { execution with states := onNodes dag cancelClaimed execution.states }
      else execution
  | .settleCanceled idx =>
      if stateAt execution.states idx = .canceling then
        { execution with states := execution.states.set idx .canceled }
      else execution
  | .clear idx =>
      if execution.phase = .canceling then execution
      else
        { execution with
          phase := .running
          states := onNodes dag (clearReached dag idx) execution.states }
  | .restarted idx =>
      if stateAt execution.states idx = .restarting then
        { execution with states := execution.states.set idx .none }
      else execution
  | .openRow row =>
      { execution with runs := execution.runs ++ [{ row with id := run, status := .running }] }
  | .closeRow => { execution with runs := finishRun execution.runs run }

/-- A job that was claimed and planned, over the rows of other runs. -/
def Execution.start (dag : Dag T) (runs : List (RunRow J)) : Execution J :=
  ⟨.running, pendingStates dag, runs⟩

/-- A stage succeeded or was skipped. -/
def Done (state : TaskState) : Prop :=
  state.stateClass = .successLike ∨ state.stateClass = .skipLike

instance (state : TaskState) : Decidable (Done state) := inferInstanceAs (Decidable (_ ∨ _))

/-- Every stage succeeded or was skipped. -/
def WorkDone (dag : Dag T) (states : List TaskState) : Prop :=
  ∀ idx, IsWork dag idx → Done (stateAt states idx)

/-- A row of the run says `succeeded` only if every stage succeeded or was skipped. -/
def RowsHonest (dag : Dag T) (run : J) (execution : Execution J) : Prop :=
  ∀ row ∈ execution.runs, row.id = run → row.status = .succeeded → WorkDone dag execution.states

/-- The rows are honest, and so is the one that the guard takes as its baseline. -/
def BaselineHonest [LinearOrder J] (dag : Dag T) (run : J) (execution : Execution J) : Prop :=
  RowsHonest dag run execution ∧
    ∀ base ∈ latestSucceeded execution.runs, base.id = run → WorkDone dag execution.states

/-- A row is closed once the last stage is done, and under a closed row no stage is cleared. -/
def ClosesDone (dag : Dag T) (run : J) (execution : Execution J) : Event J → Prop
  | .closeRow =>
      (∃ row ∈ execution.runs, row.id = run) →
        ∀ leaf ∈ dag.leaves, Done (stateAt execution.states leaf)
  | .clear idx =>
      execution.phase ≠ .canceling →
        (∃ row ∈ execution.runs, row.id = run ∧ row.status = .succeeded) →
          ∀ work, IsWork dag work → reaches dag.nodes idx work = false
  | _ => True

section Graph

variable {dag : Dag T} {states later : List TaskState}

/-- A stage that fired, or ended well, has upstream stages that ended well. -/
def Grounded (dag : Dag T) (states : List TaskState) : Prop :=
  ∀ idx node, dag.nodes[idx]? = some node → node.teardown = false →
    (stateAt states idx).isActive = true ∨ Done (stateAt states idx) →
      ∀ up ∈ node.upstream, Done (stateAt states up)

theorem Done.isTerminal {state : TaskState} (hdone : Done state) : state.isTerminal = true := by
  rw [TaskState.isTerminal, bne_iff_ne]
  intro hpending
  rw [Done, hpending] at hdone
  cases hdone with
  | inl h => cases h
  | inr h => cases h

/-- Done leaves are leaves of a graph whose stages are all done. -/
theorem Grounded.workDone (hgrounded : Grounded dag states)
    (hleaves : ∀ leaf ∈ dag.leaves, Done (stateAt states leaf)) : WorkDone dag states := by
  intro idx hwork
  apply hwork.induction hleaves
  intro idx down node hnode hstage hup hdone
  exact hgrounded down node hnode hstage (.inr hdone) idx hup

/-- States that keep the done stages, and in which nothing new is active or done. -/
theorem Grounded.of_kept (hgrounded : Grounded dag states)
    (hkept : ∀ idx, Done (stateAt states idx) → stateAt later idx = stateAt states idx)
    (hfrom : ∀ idx, (stateAt later idx).isActive = true ∨ Done (stateAt later idx) →
      (stateAt states idx).isActive = true ∨ Done (stateAt states idx)) :
    Grounded dag later := by
  intro idx node hnode hstage hstate up hup
  have hdone := hgrounded idx node hnode hstage (hfrom idx hstate) up hup
  rw [hkept up hdone]
  exact hdone

/-- The step lemma for a pass. -/
theorem Grounded.sweep (hgrounded : Grounded dag states) (hrules : AllSucceedOutsideTeardown dag)
    (hlength : states.length = dag.nodes.length) : Grounded dag (sweep dag states) := by
  intro idx node hnode hstage hstate up hup
  by_cases hpending : stateAt states idx = .none
  · have hrule := hrules node (List.mem_of_getElem? hnode) hstage
    have hdemands := stateAt_sweep_of_eq hlength hnode hpending
    have hmem : stateAt (Executor.sweep dag states) up ∈
        node.upstream.map (stateAt (Executor.sweep dag states)) := List.mem_map_of_mem hup
    cases hverdict : node.verdict (Executor.sweep dag states) with
    | wait =>
        rw [hdemands, hverdict] at hstate
        exact absurd hstate (by decide)
    | fire =>
        rw [Node.verdict, hrule] at hverdict
        have hall := evaluate_allSucceeded hverdict Verdict.noConfusion
        simp only [true_and, reduceCtorEq, false_and, or_self, or_false] at hall
        exact .inl (hall _ hmem)
    | propagate state =>
        rw [hdemands, hverdict] at hstate
        rw [Node.verdict, hrule] at hverdict
        have hall := evaluate_allSucceeded hverdict Verdict.noConfusion
        simp only [reduceCtorEq, false_and, false_or, Verdict.propagate.injEq] at hall
        rcases hall with ⟨_, hskipped⟩ | ⟨rfl, _⟩ | rfl
        · exact hskipped _ hmem
        · exact absurd hstate (by decide)
        · exact absurd hstate (by decide)
  · rw [stateAt_sweep_of_ne hlength hpending] at hstate
    have hdone := hgrounded idx node hnode hstage hstate up hup
    rw [stateAt_sweep_of_ne hlength (TaskState.ne_none_of_isTerminal hdone.isTerminal)]
    exact hdone

theorem length_onNodes (set : Node T × ℕ → TaskState → TaskState) :
    (onNodes dag set states).length = dag.nodes.length := by
  rw [onNodes, List.length_map, List.length_zipIdx]

theorem stateAt_onNodes {set : Node T × ℕ → TaskState → TaskState} {idx : ℕ} {node : Node T}
    (hnode : dag.nodes[idx]? = some node) :
    stateAt (onNodes dag set states) idx = set (node, idx) (stateAt states idx) := by
  rw [stateAt, onNodes, List.getElem?_map, List.getElem?_zipIdx, hnode, Nat.zero_add]
  rfl

/-- A write on a node that is not done keeps the done ones. -/
theorem kept_set {idx : ℕ} (hpending : ¬ Done (stateAt states idx)) (state : TaskState) {other : ℕ}
    (hdone : Done (stateAt states other)) :
    stateAt (states.set idx state) other = stateAt states other := by
  rcases stateAt_set_self_or states state idx other with ⟨_, rfl⟩ | hsame
  · exact absurd hdone hpending
  · exact hsame

/-- A node that is neither done nor made active or done by a write. -/
theorem Grounded.set (hgrounded : Grounded dag states) {idx : ℕ} {state : TaskState}
    (hpending : ¬ Done (stateAt states idx))
    (hfrom : state.isActive = true ∨ Done state → (stateAt states idx).isActive = true) :
    Grounded dag (states.set idx state) := by
  apply hgrounded.of_kept
  · exact fun other => kept_set hpending state
  · intro other hstate
    rcases stateAt_set_self_or states state idx other with ⟨hset, rfl⟩ | hsame
    · rw [hset] at hstate
      exact .inl (hfrom hstate)
    · rwa [hsame] at hstate

/-- A statement over all rows that changes no done stage and leaves what it changes neither active
nor done. -/
def Retires (set : Node T × ℕ → TaskState → TaskState) : Prop :=
  ∀ entry state, set entry state = state ∨ ¬ Done state ∧
    ¬ ((set entry state).isActive = true ∨ Done (set entry state))

theorem Done.unclaimed {state : TaskState} (hdone : Done state) :
    state.isWaiting = false ∧ (state.isClaimed || state == .restarting) = false := by
  cases state <;> first | decide | exact absurd hdone (by decide)

theorem retires_cancelWaiting : Retires (cancelWaiting (T := T)) := by
  intro entry state
  rw [cancelWaiting]
  split
  · next hguard =>
      right
      rw [Bool.and_eq_true] at hguard
      constructor
      · intro hdone
        rw [hdone.unclaimed.1] at hguard
        cases hguard.1
      · decide
  · exact .inl rfl

theorem retires_cancelClaimed : Retires (cancelClaimed (T := T)) := by
  intro entry state
  rw [cancelClaimed]
  split
  · next hguard =>
      right
      rw [Bool.and_eq_true] at hguard
      constructor
      · intro hdone
        rw [hdone.unclaimed.2] at hguard
        cases hguard.1
      · decide
  · exact .inl rfl

theorem stateAt_of_getElem?_none (hlength : states.length = dag.nodes.length) {idx : ℕ}
    (hnone : dag.nodes[idx]? = none) : stateAt states idx = .none := by
  rw [List.getElem?_eq_none_iff, ← hlength] at hnone
  rw [stateAt, List.getElem?_eq_none hnone]
  rfl

theorem kept_onNodes {set : Node T × ℕ → TaskState → TaskState} (hset : Retires set)
    (hlength : states.length = dag.nodes.length) {idx : ℕ} (hdone : Done (stateAt states idx)) :
    stateAt (onNodes dag set states) idx = stateAt states idx := by
  cases hnode : dag.nodes[idx]? with
  | none =>
      rw [stateAt_of_getElem?_none hlength hnode] at hdone
      exact absurd hdone (by decide)
  | some node =>
      rw [stateAt_onNodes hnode]
      exact (hset (node, idx) (stateAt states idx)).resolve_right fun hpending =>
        hpending.1 hdone

theorem Grounded.onNodes {set : Node T × ℕ → TaskState → TaskState}
    (hgrounded : Grounded dag states) (hset : Retires set)
    (hlength : states.length = dag.nodes.length) : Grounded dag (onNodes dag set states) := by
  apply hgrounded.of_kept
  · exact fun idx => kept_onNodes hset hlength
  · intro idx hstate
    cases hnode : dag.nodes[idx]? with
    | none =>
        rw [stateAt_of_getElem?_none (length_onNodes set) hnode] at hstate
        exact absurd hstate (by decide)
    | some node =>
        rw [stateAt_onNodes hnode] at hstate
        cases hset (node, idx) (stateAt states idx) with
        | inl hsame => rwa [hsame] at hstate
        | inr hretired => exact absurd hstate hretired.2

/-- A cleared node is neither active nor done. -/
theorem clearReached_of_reaches {idx : ℕ} {entry : Node T × ℕ} {state : TaskState}
    (hreaches : reaches dag.nodes idx entry.2 = true) :
    ¬ ((clearReached dag idx entry state).isActive = true ∨
      Done (clearReached dag idx entry state)) := by
  rw [clearReached, if_pos hreaches]
  cases state <;> decide

/-- A clear takes everything that it reaches, so what it leaves keeps its upstream. -/
theorem Grounded.clear (hgrounded : Grounded dag states) (idx : ℕ) :
    Grounded dag (Run.onNodes dag (clearReached dag idx) states) := by
  intro other node hnode hstage hstate up hup
  rw [stateAt_onNodes hnode] at hstate
  cases hreaches : reaches dag.nodes idx other with
  | true => exact absurd hstate (clearReached_of_reaches hreaches)
  | false =>
      rw [clearReached, hreaches, if_neg Bool.false_ne_true] at hstate
      have hdone := hgrounded other node hnode hstage hstate up hup
      have hmissed : reaches dag.nodes idx up = false := by
        rw [Bool.eq_false_iff] at hreaches ⊢
        intro hup'
        apply hreaches
        rw [reaches_iff] at hup' ⊢
        exact hup'.tail (mem_downstreamOf.mpr ⟨node, hnode, hup⟩)
      have hbefore := Dag.upstream_lt_of_getElem? hnode hup
      have hlt := (List.getElem?_eq_some_iff.mp hnode).1
      rw [stateAt_onNodes (List.getElem?_eq_getElem (hbefore.trans hlt)), clearReached, hmissed,
        if_neg Bool.false_ne_true]
      exact hdone

end Graph

/-! ## What a step keeps -/

section Steps

variable [LinearOrder J] {dag : Dag T} {run : J} {execution : Execution J}

/-- States that follow grounded ones, with the done stages as they were. -/
structure KeepsDone (dag : Dag T) (states later : List TaskState) : Prop where
  length_eq : later.length = dag.nodes.length
  grounded : Grounded dag later
  kept : ∀ idx, Done (stateAt states idx) → stateAt later idx = stateAt states idx

theorem KeepsDone.graphMove {states : List TaskState} {idx : ℕ} {state : TaskState} {move : Move}
    (hmove : move = .progress idx state ∨ move = .complete idx state)
    (hlength : states.length = dag.nodes.length) (hgrounded : Grounded dag states) :
    KeepsDone dag states (graphMove dag states move) := by
  have hset (hactive : (stateAt states idx).isActive = true) :
      KeepsDone dag states (states.set idx state) := by
    have hpending : ¬ Done (stateAt states idx) := by
      intro hdone
      cases (TaskState.ne_none_of_isActive hactive).2.symm.trans hdone.isTerminal
    refine ⟨?_, hgrounded.set hpending fun _ => hactive, fun other => kept_set hpending state⟩
    rw [List.length_set, hlength]
  have hmoved : KeepsDone dag states (Executor.graphMove dag states move) ∨
      Executor.graphMove dag states move = states := by
    cases hmove with
    | inl hprogress =>
        rw [hprogress, Executor.graphMove]
        split
        · next hguard => exact .inl (hset (Bool.and_eq_true _ _ ▸ hguard).1)
        · exact .inr rfl
    | inr hcomplete =>
        rw [hcomplete, Executor.graphMove]
        split
        · next hguard => exact .inl (hset (Bool.and_eq_true _ _ ▸ hguard).1)
        · exact .inr rfl
  cases hmoved with
  | inl hkeeps => exact hkeeps
  | inr hsame =>
      rw [hsame]
      exact ⟨hlength, hgrounded, fun _ _ => rfl⟩

theorem KeepsDone.set {states : List TaskState} {idx : ℕ} {state : TaskState}
    (hlength : states.length = dag.nodes.length) (hgrounded : Grounded dag states)
    (hpending : ¬ Done (stateAt states idx)) (hstate : ¬ (state.isActive = true ∨ Done state)) :
    KeepsDone dag states (states.set idx state) where
  length_eq := by rw [List.length_set, hlength]
  grounded := hgrounded.set hpending fun h => absurd h hstate
  kept _ hdone := kept_set hpending state hdone

/-- An event that clears nothing keeps the done stages. -/
theorem keepsDone_step (hrules : AllSucceedOutsideTeardown dag)
    (hlength : execution.states.length = dag.nodes.length)
    (hgrounded : Grounded dag execution.states) {event : Event J}
    (hclear : ∀ idx, event ≠ .clear idx) :
    KeepsDone dag execution.states (execution.step dag run event).states := by
  have hsame : KeepsDone dag execution.states execution.states :=
    ⟨hlength, hgrounded, fun _ _ => rfl⟩
  cases event with
  | pass =>
      rw [Execution.step, Execution.pass]
      split
      · exact hsame
      · refine ⟨length_sweep hlength, hgrounded.sweep hrules hlength, ?_⟩
        intro idx hdone
        exact stateAt_sweep_of_ne hlength (TaskState.ne_none_of_isTerminal hdone.isTerminal)
  | progress idx state => exact .graphMove (.inl rfl) hlength hgrounded
  | complete idx outcome => exact .graphMove (.inr rfl) hlength hgrounded
  | cancel =>
      rw [Execution.step]
      split
      · exact hsame
      · exact hsame
  | cancelPending =>
      rw [Execution.step]
      split
      · exact ⟨length_onNodes _, hgrounded.onNodes retires_cancelWaiting hlength,
          fun _ => kept_onNodes retires_cancelWaiting hlength⟩
      · exact hsame
  | cancelLive =>
      rw [Execution.step]
      split
      · exact ⟨length_onNodes _, hgrounded.onNodes retires_cancelClaimed hlength,
          fun _ => kept_onNodes retires_cancelClaimed hlength⟩
      · exact hsame
  | settleCanceled idx =>
      rw [Execution.step]
      split
      · next hstate => exact .set hlength hgrounded (by rw [hstate]; decide) (by decide)
      · exact hsame
  | clear idx => exact absurd rfl (hclear idx)
  | restarted idx =>
      rw [Execution.step]
      split
      · next hstate => exact .set hlength hgrounded (by rw [hstate]; decide) (by decide)
      · exact hsame
  | openRow row => exact hsame
  | closeRow => exact hsame

/-- The invariant: honest rows over grounded states. -/
structure Sound (dag : Dag T) (run : J) (execution : Execution J) : Prop where
  length_eq : execution.states.length = dag.nodes.length
  grounded : Grounded dag execution.states
  honest : RowsHonest dag run execution

theorem Sound.grounded_step (hrules : AllSucceedOutsideTeardown dag)
    (hsound : Sound dag run execution) (event : Event J) :
    (execution.step dag run event).states.length = dag.nodes.length ∧
      Grounded dag (execution.step dag run event).states := by
  by_cases hclear : ∃ idx, event = .clear idx
  · obtain ⟨idx, rfl⟩ := hclear
    rw [Execution.step]
    split
    · exact ⟨hsound.length_eq, hsound.grounded⟩
    · exact ⟨length_onNodes _, hsound.grounded.clear idx⟩
  · have hkeeps : KeepsDone dag execution.states (execution.step dag run event).states :=
      keepsDone_step hrules hsound.length_eq hsound.grounded fun idx hidx => hclear ⟨idx, hidx⟩
    exact ⟨hkeeps.length_eq, hkeeps.grounded⟩

omit [LinearOrder J] in
/-- Rows that were honest stay honest while the done stages stay, and no row is closed. -/
theorem RowsHonest.of_kept {later : Execution J} (hhonest : RowsHonest dag run execution)
    (hkept : ∀ idx, Done (stateAt execution.states idx) →
      stateAt later.states idx = stateAt execution.states idx)
    (hruns : ∀ row ∈ later.runs, row.status = .succeeded → row ∈ execution.runs) :
    RowsHonest dag run later := by
  intro row hrow hid hstatus idx hwork
  have hdone := hhonest row (hruns row hrow hstatus) hid hstatus idx hwork
  rw [hkept idx hdone]
  exact hdone

theorem rowsHonest_clear_iff (hsound : Sound dag run execution) (idx : ℕ) :
    RowsHonest dag run (execution.step dag run (.clear idx)) ↔
      ClosesDone dag run execution (.clear idx) := by
  rw [Execution.step, ClosesDone]
  split
  · next hcanceling => exact iff_of_true hsound.honest fun hother => absurd hcanceling hother
  · next hopen =>
      constructor
      · intro hhonest _ hrow work hwork
        obtain ⟨row, hmem, hid, hstatus⟩ := hrow
        have hdone := hhonest row hmem hid hstatus work hwork
        obtain ⟨node, hnode, _⟩ := hwork
        rw [stateAt_onNodes hnode] at hdone
        rw [← Bool.not_eq_true]
        exact fun hreaches => clearReached_of_reaches hreaches (.inr hdone)
      · intro hguard row hmem hid hstatus work hwork
        have hdone := hsound.honest row hmem hid hstatus work hwork
        have hmissed := hguard hopen ⟨row, hmem, hid, hstatus⟩ work hwork
        obtain ⟨node, hnode, _⟩ := hwork
        rw [stateAt_onNodes hnode, clearReached, hmissed, if_neg Bool.false_ne_true]
        exact hdone

theorem rowsHonest_closeRow_iff (hsound : Sound dag run execution) :
    RowsHonest dag run (execution.step dag run .closeRow) ↔
      ClosesDone dag run execution .closeRow := by
  constructor
  · intro hhonest hrow leaf hleaf
    obtain ⟨row, hmem, hid⟩ := hrow
    have hclosed : { row with status := RunStatus.succeeded } ∈ finishRun execution.runs run :=
      List.mem_map.mpr ⟨row, hmem, if_pos hid⟩
    exact hhonest _ hclosed hid rfl leaf (mem_leaves.mp hleaf).1
  · intro hguard row hmem hid _
    obtain ⟨old, hold, rfl⟩ := List.mem_map.mp hmem
    have hrow : old.id = run := by
      by_cases hsame : old.id = run
      · exact hsame
      · rwa [if_neg hsame] at hid
    exact hsound.grounded.workDone (hguard ⟨old, hold, hrow⟩)

/-- Only the two stages that write the row touch the rows. -/
theorem runs_step {event : Event J} (hopen : ∀ row, event ≠ .openRow row)
    (hclose : event ≠ .closeRow) : (execution.step dag run event).runs = execution.runs := by
  cases event with
  | pass =>
      rw [Execution.step, Execution.pass]
      split
      · rfl
      · rfl
  | progress | complete => rfl
  | cancel | cancelPending | cancelLive | settleCanceled | clear | restarted =>
      rw [Execution.step]
      split
      · rfl
      · rfl
  | openRow row => exact absurd rfl (hopen row)
  | closeRow => exact absurd rfl hclose

theorem mem_runs_of_step {event : Event J} (hclose : event ≠ .closeRow) {row : RunRow J}
    (hrow : row ∈ (execution.step dag run event).runs) (hstatus : row.status = .succeeded) :
    row ∈ execution.runs := by
  by_cases hopen : ∃ opened, event = .openRow opened
  · obtain ⟨opened, rfl⟩ := hopen
    cases List.mem_append.mp hrow with
    | inl hold => exact hold
    | inr hnew =>
        rw [List.mem_singleton.mp hnew] at hstatus
        cases hstatus
  · rwa [runs_step (fun opened hsame => hopen ⟨opened, hsame⟩) hclose] at hrow

theorem rowsHonest_step_iff (hrules : AllSucceedOutsideTeardown dag)
    (hsound : Sound dag run execution) (event : Event J) :
    RowsHonest dag run (execution.step dag run event) ↔ ClosesDone dag run execution event := by
  by_cases hclear : ∃ idx, event = .clear idx
  · obtain ⟨idx, rfl⟩ := hclear
    exact rowsHonest_clear_iff hsound idx
  · by_cases hclose : event = .closeRow
    · subst hclose
      exact rowsHonest_closeRow_iff hsound
    · have hkeeps : KeepsDone dag execution.states (execution.step dag run event).states :=
        keepsDone_step hrules hsound.length_eq hsound.grounded fun idx hidx => hclear ⟨idx, hidx⟩
      apply iff_of_true
      · exact hsound.honest.of_kept hkeeps.kept fun row => mem_runs_of_step hclose
      · cases event with
        | clear idx => exact absurd ⟨idx, rfl⟩ hclear
        | closeRow => exact absurd rfl hclose
        | _ => trivial

theorem baselineHonest_iff : BaselineHonest dag run execution ↔ RowsHonest dag run execution := by
  rw [BaselineHonest, and_iff_left_iff_imp]
  intro hhonest base hbase hid
  have hmem := List.mem_filter.mp (mem_of_latestOf hbase)
  exact hhonest base hmem.1 hid (of_decide_eq_true hmem.2)

omit [LinearOrder J] in
theorem sound_start {runs : List (RunRow J)} (hfresh : ∀ row ∈ runs, row.id ≠ run) :
    Sound dag run (Execution.start dag runs) where
  length_eq := List.length_replicate
  grounded idx node hnode _ hstate := by
    have hpending : stateAt (pendingStates dag) idx = .none := by
      rw [stateAt, pendingStates, List.getElem?_replicate]
      split <;> rfl
    rw [Execution.start, hpending] at hstate
    exact absurd hstate (by decide)
  honest row hrow hid _ := absurd hid (hfresh row hrow)

end Steps

/-- The events of a full run up to its match stage, which ends in the given state, and the rest. -/
def matchEnds (outcome : TaskState) (rest : List (Event ℕ)) : List (Event ℕ) :=
  [.pass, .progress 0 .running,
    .openRow ((sampleRun 7 .runAllFull []).row .full ⟨"v0001", "tf"⟩ (some "l1") none),
    .complete 0 .succeeded, .pass, .complete 1 .succeeded, .pass, .complete 2 .succeeded, .pass,
    .progress 3 .running, .complete 3 outcome, .pass] ++ rest

end EntityResolution.Run
