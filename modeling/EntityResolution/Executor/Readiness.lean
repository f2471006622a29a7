/-
# The compiled graph and its readiness pass

A job runs a graph of tasks whose nodes are in topological order: a node names its upstream
nodes by index, and an index is handed out only for a node that is already registered. The
readiness pass sweeps the nodes once, over a private copy of the states, and decides for every
pending node whether its trigger rule fires, can never fire, or waits. The settle check reads
the outcome of the job from the nodes that have no other downstream than teardown nodes.

The specification of the pass says what justifies an action: a node is scheduled only when
every upstream node is terminal, or became so by an earlier propagation of the same sweep.
-/

import EntityResolution.Foundations.Collections

namespace EntityResolution.Executor

universe u

/-- The states of a task instance. -/
inductive TaskState
  | none
  | scheduled
  | queued
  | running
  | upForRetry
  | restarting
  | canceling
  | succeeded
  | skipped
  | failed
  | timedOut
  | upstreamFailed
  | upstreamSkipped
  | canceled
  deriving DecidableEq

/-- The state classes of the terminal taxonomy. -/
inductive StateClass
  | successLike
  | skipLike
  | failureLike
  | stopLike
  | pending
  deriving DecidableEq

/-- `TaskState::class`. -/
def TaskState.stateClass : TaskState → StateClass
  | .succeeded => .successLike
  | .skipped | .upstreamSkipped => .skipLike
  | .failed | .timedOut | .upstreamFailed => .failureLike
  | .canceled => .stopLike
  | .none | .scheduled | .queued | .running | .upForRetry | .restarting | .canceling => .pending

/-- `TaskState::is_terminal`. -/
def TaskState.isTerminal (state : TaskState) : Bool :=
  state.stateClass != .pending

/-- When a node may be scheduled, once every upstream node is terminal. -/
inductive TriggerRule
  | allSucceeded
  | allTerminal
  | anyFailed
  deriving DecidableEq

/-- One rule evaluation. -/
inductive Verdict
  | fire
  | propagate (state : TaskState)
  | wait
  deriving DecidableEq

/-- `evaluate`: a node with no upstream fires at once. -/
def evaluate (rule : TriggerRule) (upstream : List TaskState) : Verdict :=
  if upstream.any fun state => !state.isTerminal then .wait
  else
    match rule with
    | .allSucceeded =>
        let nonSuccess := (upstream.map TaskState.stateClass).filter (· != .successLike)
        if nonSuccess.isEmpty then .fire
        else if nonSuccess.all (· == .skipLike) then .propagate .upstreamSkipped
        else if nonSuccess.all (· == .stopLike) then .propagate .canceled
        else .propagate .upstreamFailed
    | .allTerminal => .fire
    | .anyFailed =>
        if upstream.any fun state => state.stateClass == .failureLike then .fire
        -- the propagated form of `skipped`, since nothing ran
        else .propagate .upstreamSkipped

/-- The states that a pass can propagate. -/
def TaskState.isPropagated : TaskState → Bool
  | .upstreamSkipped | .canceled | .upstreamFailed => true
  | _ => false

theorem TaskState.isTerminal_of_isPropagated {state : TaskState}
    (hstate : state.isPropagated = true) : state.isTerminal = true := by
  cases state <;> first | rfl | cases hstate

theorem isPropagated_of_evaluate {rule : TriggerRule} {upstream : List TaskState}
    {state : TaskState} (hverdict : evaluate rule upstream = .propagate state) :
    state.isPropagated = true := by
  unfold evaluate at hverdict
  split at hverdict
  · cases hverdict
  · cases rule with
    | allSucceeded =>
        dsimp only at hverdict
        split_ifs at hverdict <;> cases hverdict <;> rfl
    | allTerminal => cases hverdict
    | anyFailed =>
        dsimp only at hverdict
        split_ifs at hverdict
        cases hverdict
        rfl

theorem isTerminal_of_evaluate {rule : TriggerRule} {upstream : List TaskState}
    (hverdict : evaluate rule upstream ≠ .wait) {state : TaskState} (hstate : state ∈ upstream) :
    state.isTerminal = true := by
  by_contra hpending
  apply hverdict
  have hany : upstream.any (fun state => !state.isTerminal) = true := by
    rw [List.any_eq_true]
    exact ⟨state, hstate, by simpa using hpending⟩
  unfold evaluate
  rw [if_pos hany]

/-- Where a task's body runs. -/
inductive NodeKind
  | pod
  | control
  deriving DecidableEq

/-- The resource class of a pod. -/
inductive ResourceClass
  | S
  | M
  | L
  deriving DecidableEq

/-- `ResourceClass::escalated`, as the retry statement spells it: `L` stays `L`. -/
def ResourceClass.escalated : ResourceClass → ResourceClass
  | .S => .M
  | .M => .L
  | .L => .L

/-- How a node's class is resolved at planning. -/
inductive ClassRule
  | fixed (resourceClass : ResourceClass)
  | fromRun
  deriving DecidableEq

/-- The part of `NodePolicy` that the ledger reads. -/
structure NodePolicy where
  retries : ℕ
  classRule : ClassRule
  escalateOnOom : Bool
  segment : Option String
  deriving DecidableEq

/-- One registered node. -/
structure Node (T : Type u) where
  taskId : T
  kind : NodeKind
  inputNames : List String
  writesLake : Bool
  triggerRule : TriggerRule
  teardown : Bool
  policy : NodePolicy
  upstream : List ℕ
  deriving DecidableEq

variable {T : Type u}

/-- Upstream handles name earlier nodes: the builder mints a handle only for a node that is
already registered. -/
def UpstreamEarlier (nodes : List (Node T)) : Prop :=
  ∀ entry ∈ nodes.zipIdx, ∀ up ∈ entry.1.upstream, up < entry.2

instance (nodes : List (Node T)) : Decidable (UpstreamEarlier nodes) :=
  inferInstanceAs (Decidable (∀ entry ∈ nodes.zipIdx, ∀ up ∈ entry.1.upstream, up < entry.2))

/-- `downstream_of`: the nodes that have this one upstream. -/
def downstreamOf (nodes : List (Node T)) (idx : ℕ) : List ℕ :=
  (nodes.zipIdx.filter fun entry => entry.1.upstream.contains idx).map Prod.snd

theorem mem_downstreamOf {nodes : List (Node T)} {idx down : ℕ} :
    down ∈ downstreamOf nodes idx ↔ ∃ node, nodes[down]? = some node ∧ idx ∈ node.upstream := by
  simp only [downstreamOf, List.mem_map, List.mem_filter, List.contains_iff_mem]
  apply Iff.intro
  · intro h
    obtain ⟨entry, ⟨hentry, hup⟩, rfl⟩ := h
    exact ⟨entry.1, List.mem_zipIdx_iff_getElem?.mp hentry, hup⟩
  · intro h
    obtain ⟨node, hnode, hup⟩ := h
    exact ⟨(node, down), ⟨List.mem_zipIdx_iff_getElem?.mpr hnode, hup⟩, rfl⟩

/-- An assembled graph: upstream handles name earlier nodes, and no task name is used twice. -/
structure Dag (T : Type u) where
  nodes : List (Node T)
  upstream_lt : UpstreamEarlier nodes
  nodup : (nodes.map Node.taskId).Nodup

namespace Dag

/-- The task names, in topological order. -/
def taskIds (dag : Dag T) : List T := dag.nodes.map Node.taskId

/-- The task names of a node's upstream, in the order of its handles. -/
def upstreamTasks (dag : Dag T) (node : Node T) : List T :=
  node.upstream.filterMap fun up => (dag.nodes[up]?).map Node.taskId

/-- `first` is upstream of `second`. -/
def Feeds (dag : Dag T) (first second : T) : Prop :=
  ∃ node ∈ dag.nodes, node.taskId = second ∧ first ∈ dag.upstreamTasks node

/-- A set of tasks that holds every task fed by one of its tasks. -/
def DownstreamClosed (dag : Dag T) (taskIds : List T) : Prop :=
  ∀ first second, dag.Feeds first second → first ∈ taskIds → second ∈ taskIds

theorem node_unique {dag : Dag T} {first second : Node T} (hfirst : first ∈ dag.nodes)
    (hsecond : second ∈ dag.nodes) (hsame : first.taskId = second.taskId) : first = second :=
  List.inj_on_of_nodup_map dag.nodup hfirst hsecond hsame

theorem mem_upstreamTasks {dag : Dag T} {node : Node T} {task : T} :
    task ∈ dag.upstreamTasks node ↔
      ∃ up ∈ node.upstream, ∃ upNode, dag.nodes[up]? = some upNode ∧ upNode.taskId = task := by
  simp only [upstreamTasks, List.mem_filterMap, Option.map_eq_some_iff]

theorem mem_taskIds_of_mem_upstreamTasks {dag : Dag T} {node : Node T} {task : T}
    (htask : task ∈ dag.upstreamTasks node) : task ∈ dag.taskIds := by
  rw [mem_upstreamTasks] at htask
  obtain ⟨up, _, upNode, hnode, rfl⟩ := htask
  exact List.mem_map_of_mem (List.mem_of_getElem? hnode)

end Dag

/-- What one pass decided for one node. -/
inductive PassAction
  | schedule
  | propagate (state : TaskState)
  deriving DecidableEq

/-- The state of a node; a graph names no node outside the vector. -/
def stateAt (states : List TaskState) (idx : ℕ) : TaskState :=
  states[idx]?.getD .none

/-- One node of the sweep: its verdict becomes an action, and a propagation is also written
to the sweep's own copy of the states. -/
def passNode (sweep : List TaskState × List (ℕ × PassAction)) (entry : Node T × ℕ) :
    List TaskState × List (ℕ × PassAction) :=
  if stateAt sweep.1 entry.2 ≠ .none then sweep
  else
    match evaluate entry.1.triggerRule (entry.1.upstream.map (stateAt sweep.1)) with
    | .fire => (sweep.1, sweep.2 ++ [(entry.2, .schedule)])
    | .propagate state => (sweep.1.set entry.2 state, sweep.2 ++ [(entry.2, .propagate state)])
    | .wait => sweep

/-- `pass`: one readiness sweep, in topological order. -/
def pass (dag : Dag T) (states : List TaskState) : List (ℕ × PassAction) :=
  (dag.nodes.zipIdx.foldl passNode (states, [])).2

/-- What the actions before it say of a node: it was terminal, or they propagated to it. -/
def Reached (states : List TaskState) (earlier : List (ℕ × PassAction)) (idx : ℕ) : Prop :=
  (stateAt states idx).isTerminal = true ∨
    ∃ state, state.isPropagated = true ∧ (idx, PassAction.propagate state) ∈ earlier

/-- What justifies one action of a sweep, given the actions before it. -/
def Justified (dag : Dag T) (states : List TaskState) (earlier : List (ℕ × PassAction))
    (action : ℕ × PassAction) : Prop :=
  ∃ node, dag.nodes[action.1]? = some node ∧
    match action.2 with
    | .schedule => ∀ up ∈ node.upstream, Reached states earlier up
    | .propagate state => state.isPropagated = true

theorem Reached.mono {states : List TaskState} {earlier : List (ℕ × PassAction)} {idx : ℕ}
    (hreached : Reached states earlier idx) (more : List (ℕ × PassAction)) :
    Reached states (earlier ++ more) idx := by
  rcases hreached with hterminal | ⟨state, hpropagated, hmem⟩
  · exact .inl hterminal
  · exact .inr ⟨state, hpropagated, List.mem_append_left more hmem⟩

/-- Every action is justified by the actions before it. -/
def AllJustified (dag : Dag T) (states : List TaskState) (actions : List (ℕ × PassAction)) :
    Prop :=
  ∀ earlier action later, actions = earlier ++ action :: later →
    Justified dag states earlier action

theorem AllJustified.concat {dag : Dag T} {states : List TaskState}
    {actions : List (ℕ × PassAction)} (hall : AllJustified dag states actions)
    {action : ℕ × PassAction} (haction : Justified dag states actions action) :
    AllJustified dag states (actions ++ [action]) := by
  intro earlier other later hsplit
  rcases List.eq_nil_or_concat later with rfl | ⟨initial, last, rfl⟩
  · obtain ⟨rfl, hlast⟩ := List.append_inj' hsplit rfl
    cases hlast
    exact haction
  · have hregroup : actions ++ [action] = (earlier ++ other :: initial) ++ [last] := by
      rw [hsplit]
      simp
    obtain ⟨hactions, _⟩ := List.append_inj' hregroup rfl
    exact hall earlier other initial hactions

/-- What holds of a sweep after any number of nodes. -/
structure SweepSound (dag : Dag T) (states : List TaskState)
    (sweep : List TaskState × List (ℕ × PassAction)) : Prop where
  reached : ∀ idx, (stateAt sweep.1 idx).isTerminal = true → Reached states sweep.2 idx
  justified : AllJustified dag states sweep.2

theorem lt_of_stateAt_ne {states : List TaskState} {idx : ℕ} (hidx : stateAt states idx ≠ .none) :
    idx < states.length := by
  by_contra hge
  apply hidx
  rw [stateAt, List.getElem?_eq_none (Nat.le_of_not_lt hge)]
  rfl

theorem stateAt_set_self_or (states : List TaskState) (state : TaskState) (idx other : ℕ) :
    stateAt (states.set idx state) other = state ∧ other = idx ∨
      stateAt (states.set idx state) other = stateAt states other := by
  rw [stateAt, stateAt, List.getElem?_set]
  by_cases hsame : idx = other
  · subst hsame
    by_cases hlt : idx < states.length
    · left
      simp [hlt]
    · right
      simp [hlt]
  · right
    simp [hsame]

theorem SweepSound.passNode {dag : Dag T} {states : List TaskState}
    {sweep : List TaskState × List (ℕ × PassAction)} (hsound : SweepSound dag states sweep)
    {entry : Node T × ℕ} (hentry : dag.nodes[entry.2]? = some entry.1) :
    SweepSound dag states (passNode sweep entry) := by
  rw [Executor.passNode]
  split
  · exact hsound
  · have hupstream (hverdict : evaluate entry.1.triggerRule
        (entry.1.upstream.map (stateAt sweep.1)) ≠ .wait) (up : ℕ) (hup : up ∈ entry.1.upstream) :
        Reached states sweep.2 up := by
      apply hsound.reached
      exact isTerminal_of_evaluate hverdict (List.mem_map_of_mem hup)
    split
    · next hfire =>
        constructor
        · intro idx hterminal
          exact (hsound.reached idx hterminal).mono _
        · apply hsound.justified.concat
          exact ⟨entry.1, hentry, hupstream (by rw [hfire]; exact Verdict.noConfusion)⟩
    · next state hpropagate =>
        have hpropagated := isPropagated_of_evaluate hpropagate
        constructor
        · intro idx hterminal
          rcases stateAt_set_self_or sweep.1 state entry.2 idx with ⟨_, rfl⟩ | hsame
          · exact .inr ⟨state, hpropagated, by simp⟩
          · apply Reached.mono
            apply hsound.reached
            rw [← hsame]
            exact hterminal
        · apply hsound.justified.concat
          exact ⟨entry.1, hentry, hpropagated⟩
    · exact hsound

/-- The actions of a pass are justified in the order in which they are recorded. -/
theorem allJustified_pass (dag : Dag T) (states : List TaskState) :
    AllJustified dag states (pass dag states) := by
  have hstart : SweepSound dag states (states, []) := by
    constructor
    · intro idx hterminal
      exact .inl hterminal
    · intro earlier action later hsplit
      simp at hsplit
  have hsweep : ∀ entries : List (Node T × ℕ), (∀ entry ∈ entries, entry ∈ dag.nodes.zipIdx) →
      ∀ sweep, SweepSound dag states sweep →
        SweepSound dag states (entries.foldl Executor.passNode sweep) := by
    intro entries
    induction entries with
    | nil =>
        intro _ sweep hsweep
        exact hsweep
    | cons entry entries ih =>
        intro hentries sweep hsweep
        apply ih
        · intro other hother
          exact hentries other (List.mem_cons_of_mem _ hother)
        · apply hsweep.passNode
          exact List.mem_zipIdx_iff_getElem?.mp (hentries entry List.mem_cons_self)
  exact (hsweep dag.nodes.zipIdx (fun _ hentry => hentry) _ hstart).justified

/-- How a settle check ends. -/
inductive SettleVerdict
  | notYet
  | settled (outcome : TaskState)
  | deadlock (idx : ℕ)
  deriving DecidableEq

/-- The nodes whose downstream nodes are all teardown nodes, teardown nodes left out. -/
def Dag.leaves (dag : Dag T) : List ℕ :=
  (dag.nodes.zipIdx.filter fun entry =>
    !entry.1.teardown && (downstreamOf dag.nodes entry.2).all fun down =>
      (dag.nodes[down]?).any Node.teardown).map Prod.snd

/-- `settle`: the first pending node decides that it is too early, or that the scheduler
missed a node; otherwise the leaves decide the outcome. -/
def settle (dag : Dag T) (states : List TaskState) : SettleVerdict :=
  match states.zipIdx.find? fun entry => !entry.1.isTerminal with
  | some (state, idx) =>
      if state = .none && (dag.nodes[idx]?).any fun node =>
          node.upstream.all fun up => (stateAt states up).isTerminal
      then .deadlock idx
      else .notYet
  | none =>
      let classes := dag.leaves.map fun idx => (stateAt states idx).stateClass
      if classes.contains .failureLike then .settled .failed
      else if classes.contains .stopLike then .settled .canceled
      else .settled .succeeded

end EntityResolution.Executor
