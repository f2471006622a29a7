/-
# Runs of a graph

A run starts with every node pending. Each move is a readiness pass with its actions applied,
progress of an active node (a claim, a start, a retry), or the completion of an active node with
some terminal outcome; nothing is cleared or canceled. A move that does not find its node active
changes nothing.

Everything below follows from one invariant: a node that left the pending state did so because
its trigger rule had fired or could never fire, and its upstream nodes, terminal by then, have
not moved since.
-/

import EntityResolution.Executor.Assembly
import EntityResolution.Executor.Sweep

namespace EntityResolution.Executor

open EntityResolution.StackSearch

universe u

variable {T : Type u}

/-- Scheduled, and not yet terminal. -/
def TaskState.isActive : TaskState → Bool
  | .scheduled | .queued | .running | .upForRetry => true
  | _ => false

/-- One move of a run. -/
inductive Move
  | pass
  | progress (idx : ℕ) (state : TaskState)
  | complete (idx : ℕ) (outcome : TaskState)
  deriving DecidableEq

/-- The states after one move. -/
def graphMove (dag : Dag T) (states : List TaskState) : Move → List TaskState
  | .pass => sweep dag states
  | .progress idx state =>
      if (stateAt states idx).isActive && state.isActive then states.set idx state else states
  | .complete idx outcome =>
      if (stateAt states idx).isActive && outcome.isTerminal then states.set idx outcome
      else states

/-- Every node pending. -/
def pendingStates (dag : Dag T) : List TaskState :=
  List.replicate dag.nodes.length .none

/-- The states after a run. -/
def graphRun (dag : Dag T) (moves : List Move) : List TaskState :=
  moves.foldl (graphMove dag) (pendingStates dag)

/-- Every completion of the run gives a node an outcome it is allowed to have. -/
def Allows (allowed : ℕ → TaskState → Prop) (moves : List Move) : Prop :=
  ∀ idx outcome, Move.complete idx outcome ∈ moves → allowed idx outcome

/-- Why a node is in a state other than `none`: its rule fired, and it is active or has one of
its allowed outcomes; or its rule could never fire, and the state was propagated to it. -/
def NodeExplained (allowed : ℕ → TaskState → Prop) (states : List TaskState) (idx : ℕ)
    (node : Node T) : Prop :=
  node.verdict states = .fire ∧ ((stateAt states idx).isActive = true ∨
      (stateAt states idx).isTerminal = true ∧ allowed idx (stateAt states idx)) ∨
    node.verdict states = .propagate (stateAt states idx)

/-- Every node that is not pending is explained. -/
structure Explained (dag : Dag T) (allowed : ℕ → TaskState → Prop) (states : List TaskState) :
    Prop where
  length_eq : states.length = dag.nodes.length
  explained : ∀ idx node, dag.nodes[idx]? = some node → stateAt states idx ≠ .none →
    NodeExplained allowed states idx node

theorem TaskState.ne_none_of_isActive {state : TaskState} (hactive : state.isActive = true) :
    state ≠ .none ∧ state.isTerminal = false := by
  cases state <;> first | exact ⟨by decide, rfl⟩ | cases hactive

theorem TaskState.ne_none_of_isTerminal {state : TaskState} (hterminal : state.isTerminal = true) :
    state ≠ .none := by
  intro hnone
  rw [hnone] at hterminal
  cases hterminal

variable {dag : Dag T} {allowed : ℕ → TaskState → Prop} {states : List TaskState}

theorem NodeExplained.verdict_ne_wait {idx : ℕ} {node : Node T}
    (hnode : NodeExplained allowed states idx node) : node.verdict states ≠ .wait := by
  rcases hnode with ⟨hfire, _⟩ | hpropagate
  · rw [hfire]
    exact Verdict.noConfusion
  · rw [hpropagate]
    exact Verdict.noConfusion

/-- A node leaves the pending state only after all its upstream nodes are terminal. -/
theorem Explained.upstream_terminal (hstates : Explained dag allowed states) {idx : ℕ}
    {node : Node T} (hnode : dag.nodes[idx]? = some node) (hidx : stateAt states idx ≠ .none)
    {up : ℕ} (hup : up ∈ node.upstream) : (stateAt states up).isTerminal = true :=
  isTerminal_of_evaluate (hstates.explained idx node hnode hidx).verdict_ne_wait
    (List.mem_map_of_mem hup)

theorem Explained.verdict_eq (hstates : Explained dag allowed states) {later : List TaskState}
    (hkept : ∀ idx, (stateAt states idx).isTerminal = true →
      stateAt later idx = stateAt states idx)
    {idx : ℕ} {node : Node T} (hnode : dag.nodes[idx]? = some node)
    (hidx : stateAt states idx ≠ .none) : node.verdict later = node.verdict states := by
  apply Node.verdict_congr
  intro up hup
  exact .inr (hkept up (hstates.upstream_terminal hnode hidx hup))

theorem explained_pendingStates (dag : Dag T) (allowed : ℕ → TaskState → Prop) :
    Explained dag allowed (pendingStates dag) where
  length_eq := List.length_replicate
  explained idx node hnode hidx := by
    exfalso
    apply hidx
    rw [stateAt, pendingStates, List.getElem?_replicate]
    split <;> rfl

/-- The step lemma for a pass. -/
theorem Explained.sweep (hstates : Explained dag allowed states) :
    Explained dag allowed (sweep dag states) where
  length_eq := length_sweep hstates.length_eq
  explained idx node hnode hidx := by
    have hkept (up : ℕ) (hterminal : (stateAt states up).isTerminal = true) :
        stateAt (Executor.sweep dag states) up = stateAt states up :=
      stateAt_sweep_of_ne hstates.length_eq (TaskState.ne_none_of_isTerminal hterminal)
    by_cases hpending : stateAt states idx = .none
    · have hdemands := stateAt_sweep_of_eq hstates.length_eq hnode hpending
      rw [NodeExplained]
      cases hverdict : node.verdict (Executor.sweep dag states) with
      | fire =>
          left
          rw [hdemands, hverdict]
          exact ⟨rfl, .inl rfl⟩
      | propagate state =>
          right
          rw [hdemands, hverdict]
          rfl
      | wait =>
          rw [hdemands, hverdict] at hidx
          exact absurd rfl hidx
    · have hsame := stateAt_sweep_of_ne hstates.length_eq hpending
      rw [NodeExplained, hstates.verdict_eq hkept hnode hpending, hsame]
      exact hstates.explained idx node hnode hpending

/-- The step lemma for a move of one active node. -/
theorem Explained.set (hstates : Explained dag allowed states) {idx : ℕ} {state : TaskState}
    (hactive : (stateAt states idx).isActive = true)
    (hstate : state.isActive = true ∨ state.isTerminal = true ∧ allowed idx state) :
    Explained dag allowed (states.set idx state) where
  length_eq := by
    rw [List.length_set]
    exact hstates.length_eq
  explained other node hnode hother := by
    obtain ⟨hne, hpending⟩ := TaskState.ne_none_of_isActive hactive
    have hset := stateAt_set (lt_of_stateAt_ne hne) state
    have hkept (up : ℕ) (hterminal : (stateAt states up).isTerminal = true) :
        stateAt (states.set idx state) up = stateAt states up := by
      rw [hset up, if_neg]
      intro hsame
      rw [hsame, hpending] at hterminal
      cases hterminal
    have hbefore : stateAt states other ≠ .none := by
      by_cases hsame : other = idx
      · rw [hsame]
        exact hne
      · rw [hset other, if_neg hsame] at hother
        exact hother
    have hexplained := hstates.explained other node hnode hbefore
    rw [NodeExplained, hstates.verdict_eq hkept hnode hbefore, hset other]
    by_cases hsame : other = idx
    · rw [if_pos hsame]
      subst hsame
      -- an active state is never propagated, so the rule of the node has fired
      rcases hexplained with ⟨hfire, _⟩ | hpropagate
      · exact .inl ⟨hfire, hstate⟩
      · have hpropagated := isPropagated_of_evaluate hpropagate
        rw [TaskState.isTerminal_of_isPropagated hpropagated] at hpending
        cases hpending
    · rw [if_neg hsame]
      exact hexplained

/-- What one move preserves. -/
theorem Explained.move (hstates : Explained dag allowed states) {move : Move}
    (hallows : Allows allowed [move]) : Explained dag allowed (graphMove dag states move) := by
  cases move with
  | pass => exact hstates.sweep
  | progress idx state =>
      rw [graphMove]
      split
      · next hguard =>
          rw [Bool.and_eq_true] at hguard
          exact hstates.set hguard.1 (.inl hguard.2)
      · exact hstates
  | complete idx outcome =>
      rw [graphMove]
      split
      · next hguard =>
          rw [Bool.and_eq_true] at hguard
          exact hstates.set hguard.1 (.inr ⟨hguard.2, hallows idx outcome List.mem_cons_self⟩)
      · exact hstates

/-- What a whole run preserves. -/
theorem explained_graphRun {moves : List Move} (hallows : Allows allowed moves) :
    Explained dag allowed (graphRun dag moves) := by
  have hfold (later : List Move) (hlater : Allows allowed later) (states : List TaskState)
      (hstates : Explained dag allowed states) :
      Explained dag allowed (later.foldl (graphMove dag) states) := by
    induction later generalizing states with
    | nil => exact hstates
    | cons move later ih =>
        apply ih
        · intro idx outcome hmem
          exact hlater idx outcome (List.mem_cons_of_mem _ hmem)
        · apply hstates.move
          intro idx outcome hmem
          rw [List.mem_singleton] at hmem
          apply hlater idx outcome
          rw [hmem]
          exact List.mem_cons_self
  exact hfold moves hallows _ (explained_pendingStates dag allowed)

/-- A node that reaches a node that left the pending state is terminal. -/
theorem Explained.terminal_of_reaches (hstates : Explained dag allowed states) {first second : ℕ}
    (hreaches : Reaches (downstreamOf dag.nodes) first second)
    (hsecond : stateAt states second ≠ .none) :
    first = second ∨ (stateAt states first).isTerminal = true := by
  induction hreaches with
  | refl => exact .inl rfl
  | tail _ hedge ih =>
      obtain ⟨node, hnode, hup⟩ := mem_downstreamOf.mp hedge
      have hterminal := hstates.upstream_terminal hnode hsecond hup
      rcases ih (TaskState.ne_none_of_isTerminal hterminal) with rfl | hfirst
      · exact .inr hterminal
      · exact .inr hfirst

theorem Explained.not_both_active (hstates : Explained dag allowed states) {first second : ℕ}
    (hreaches : Reaches (downstreamOf dag.nodes) first second) (hne : first ≠ second) :
    ¬ ((stateAt states first).isActive = true ∧ (stateAt states second).isActive = true) := by
  intro hactive
  have hpending := (TaskState.ne_none_of_isActive hactive.1).2
  rcases hstates.terminal_of_reaches hreaches (TaskState.ne_none_of_isActive hactive.2).1 with
    hsame | hterminal
  · exact hne hsame
  · rw [hpending] at hterminal
    cases hterminal

/-- In a graph that assembly accepts, any two lake-writing nodes are ordered by a path, and no run
has two of them active at the same time, whatever their trigger rules are. -/
theorem one_lake_writer [DecidableEq T] {nodes : List (Node T)} {hearlier : UpstreamEarlier nodes}
    {dag : Dag T} (hdag : assemble nodes hearlier = .ok dag) {first second : ℕ}
    (hfirst : ∃ node, nodes[first]? = some node ∧ node.writesLake = true)
    (hsecond : ∃ node, nodes[second]? = some node ∧ node.writesLake = true) :
    (Reaches (downstreamOf nodes) first second ∨ Reaches (downstreamOf nodes) second first) ∧
      (first ≠ second → ∀ moves : List Move,
        ¬ ((stateAt (graphRun dag moves) first).isActive = true ∧
          (stateAt (graphRun dag moves) second).isActive = true)) := by
  obtain ⟨rfl, hchecked⟩ := assemble_eq_ok hdag
  have hordered := writers_ordered hchecked (mem_lakeWriters.mpr hfirst)
    (mem_lakeWriters.mpr hsecond)
  apply And.intro hordered
  intro hne moves
  have hstates : Explained dag (fun _ _ => True) (graphRun dag moves) :=
    explained_graphRun fun _ _ _ => trivial
  rcases hordered with hforward | hbackward
  · exact hstates.not_both_active hforward hne
  · rw [and_comm]
    exact hstates.not_both_active hbackward hne.symm

/-- Two writers of the lake, one after the other, and a task that waits for both to end. -/
def writerChain : List (Node ℕ) :=
  let policy : NodePolicy :=
    { retries := 2, classRule := .fromRun, escalateOnOom := false, segment := none }
  [{ taskId := 0, kind := .pod, inputNames := [], writesLake := true,
     triggerRule := .allSucceeded, teardown := false, policy, upstream := [] },
   { taskId := 1, kind := .pod, inputNames := ["batch"], writesLake := true,
     triggerRule := .allSucceeded, teardown := false, policy, upstream := [0] },
   { taskId := 2, kind := .control, inputNames := [], writesLake := false,
     triggerRule := .allTerminal, teardown := true, policy, upstream := [0, 1] }]

theorem writerChain_earlier : UpstreamEarlier writerChain := by decide

theorem one_lake_writer_chain :
    ∃ dag, assemble writerChain writerChain_earlier = .ok dag ∧
      ∀ moves : List Move,
        ¬ ((stateAt (graphRun dag moves) 0).isActive = true ∧
          (stateAt (graphRun dag moves) 1).isActive = true) := by
  have hdag : assemble writerChain writerChain_earlier =
      .ok ⟨writerChain, writerChain_earlier, by decide⟩ := rfl
  exact ⟨_, hdag, (one_lake_writer hdag ⟨_, rfl, rfl⟩ ⟨_, rfl, rfl⟩).2 (by decide)⟩

/-! ## No masked failure -/

/-- Every node that is not a teardown node waits for success. -/
def AllSucceedOutsideTeardown (dag : Dag T) : Prop :=
  ∀ node ∈ dag.nodes, node.teardown = false → node.triggerRule = .allSucceeded

/-- No teardown node feeds a node that is not a teardown node. -/
def TeardownLast (dag : Dag T) : Prop :=
  ∀ node ∈ dag.nodes, node.teardown = false → ∀ up ∈ node.upstream,
    ∀ upNode, dag.nodes[up]? = some upNode → upNode.teardown = false

/-- The position of a node that is not a teardown node. -/
def IsWork (dag : Dag T) (idx : ℕ) : Prop :=
  ∃ node, dag.nodes[idx]? = some node ∧ node.teardown = false

theorem mem_leaves {idx : ℕ} :
    idx ∈ dag.leaves ↔
      IsWork dag idx ∧ ∀ down ∈ downstreamOf dag.nodes idx, ¬ IsWork dag down := by
  have hdown (down : ℕ) (hmem : down ∈ downstreamOf dag.nodes idx) :
      (dag.nodes[down]?).any Node.teardown = true ↔ ¬ IsWork dag down := by
    obtain ⟨node, hnode, _⟩ := mem_downstreamOf.mp hmem
    simp [IsWork, hnode]
  simp only [Dag.leaves, List.mem_map, List.mem_filter, Bool.and_eq_true, List.all_eq_true]
  apply Iff.intro
  · intro h
    obtain ⟨entry, ⟨hentry, hwork, hall⟩, rfl⟩ := h
    refine ⟨⟨entry.1, List.mem_zipIdx_iff_getElem?.mp hentry, by simpa using hwork⟩, ?_⟩
    intro down hmem
    exact (hdown down hmem).mp (hall down hmem)
  · intro h
    obtain ⟨⟨node, hnode, hwork⟩, hall⟩ := h
    refine ⟨(node, idx), ⟨List.mem_zipIdx_iff_getElem?.mpr hnode, by simpa using hwork, ?_⟩, rfl⟩
    intro down hmem
    exact (hdown down hmem).mpr (hall down hmem)

/-- The outcome that the leaves decide. -/
def leafOutcome (dag : Dag T) (states : List TaskState) : TaskState :=
  if ∃ leaf ∈ dag.leaves, (stateAt states leaf).stateClass = .failureLike then .failed
  else if ∃ leaf ∈ dag.leaves, (stateAt states leaf).stateClass = .stopLike then .canceled
  else .succeeded

theorem contains_leafClasses {stateClass : StateClass} :
    (dag.leaves.map fun idx => (stateAt states idx).stateClass).contains stateClass = true ↔
      ∃ leaf ∈ dag.leaves, (stateAt states leaf).stateClass = stateClass := by
  rw [List.contains_iff_mem, List.mem_map]

theorem settle_eq_settled_iff {outcome : TaskState} :
    settle dag states = .settled outcome ↔
      (∀ idx < states.length, (stateAt states idx).isTerminal = true) ∧
        outcome = leafOutcome dag states := by
  have hterminal : (states.zipIdx.find? fun entry => !entry.1.isTerminal) = none ↔
      ∀ idx < states.length, (stateAt states idx).isTerminal = true := by
    rw [List.find?_eq_none]
    apply Iff.intro
    · intro hall idx hidx
      have hentry : (states[idx], idx) ∈ states.zipIdx :=
        List.mem_zipIdx_iff_getElem?.mpr (List.getElem?_eq_getElem hidx)
      have hstate := hall _ hentry
      rw [stateAt, List.getElem?_eq_getElem hidx]
      simpa using hstate
    · intro hall entry hentry
      have hget := List.mem_zipIdx_iff_getElem?.mp hentry
      have hstate := hall entry.2 (List.getElem?_eq_some_iff.mp hget).1
      rw [stateAt, hget] at hstate
      simpa using hstate
  rw [← hterminal]
  cases hfind : states.zipIdx.find? fun entry => !entry.1.isTerminal with
  | none =>
      have hleaves : settle dag states = .settled (leafOutcome dag states) := by
        rw [settle, hfind, leafOutcome]
        simp only [contains_leafClasses]
        split_ifs <;> rfl
      rw [hleaves]
      simp [eq_comm]
  | some entry =>
      rw [settle, hfind]
      dsimp only
      split_ifs <;> simp

/-- What `allSucceeded` says once every upstream node is terminal. -/
theorem evaluate_allSucceeded {upstream : List TaskState} {verdict : Verdict}
    (hverdict : evaluate .allSucceeded upstream = verdict) (hwait : verdict ≠ .wait) :
    verdict = .fire ∧ (∀ state ∈ upstream, state.stateClass = .successLike) ∨
      (verdict = .propagate .upstreamSkipped ∧
        ∀ state ∈ upstream, state.stateClass = .successLike ∨ state.stateClass = .skipLike) ∨
      (verdict = .propagate .canceled ∧
        ∀ state ∈ upstream, state.stateClass = .successLike ∨ state.stateClass = .stopLike) ∨
      verdict = .propagate .upstreamFailed := by
  have hothers (other : StateClass)
      (hall : ((upstream.map TaskState.stateClass).filter (· != .successLike)).all
        (· == other) = true) (state : TaskState) (hstate : state ∈ upstream) :
      state.stateClass = .successLike ∨ state.stateClass = other := by
    by_cases hsuccess : state.stateClass = .successLike
    · exact .inl hsuccess
    · right
      rw [List.all_eq_true] at hall
      have hclass := hall state.stateClass (List.mem_filter.mpr
        ⟨List.mem_map_of_mem hstate, by simpa using hsuccess⟩)
      exact eq_of_beq hclass
  subst hverdict
  rw [evaluate] at hwait ⊢
  split at hwait
  · exact absurd rfl hwait
  · next hterminal =>
      rw [if_neg hterminal]
      dsimp only
      split_ifs with hfire hskip hstop
      · left
        refine ⟨rfl, ?_⟩
        intro state hstate
        rw [List.isEmpty_iff, List.filter_eq_nil_iff] at hfire
        simpa using hfire state.stateClass (List.mem_map_of_mem hstate)
      · exact .inr (.inl ⟨rfl, hothers .skipLike hskip⟩)
      · exact .inr (.inr (.inl ⟨rfl, hothers .stopLike hstop⟩))
      · exact .inr (.inr (.inr rfl))

/-- A set of state classes that a node waiting for success inherits from its upstream. -/
def Inherited (classes : List StateClass) : Prop :=
  ∀ upstream state, state ∈ upstream → state.stateClass ∈ classes →
    ∀ verdict, evaluate .allSucceeded upstream = verdict → verdict ≠ .wait →
      ∃ propagated, verdict = .propagate propagated ∧ propagated.stateClass ∈ classes

theorem inherited_failure : Inherited [.failureLike] := by
  intro upstream state hmem hclass verdict hverdict hwait
  rw [List.mem_singleton] at hclass
  rcases evaluate_allSucceeded hverdict hwait with ⟨_, hall⟩ | ⟨_, hall⟩ | ⟨_, hall⟩ | hfailed
  · have hstate := hall state hmem
    simp [hclass] at hstate
  · have hstate := hall state hmem
    simp [hclass] at hstate
  · have hstate := hall state hmem
    simp [hclass] at hstate
  · exact ⟨.upstreamFailed, hfailed, List.mem_cons_self⟩

theorem inherited_failure_or_stop : Inherited [.failureLike, .stopLike] := by
  intro upstream state hmem hclass verdict hverdict hwait
  rcases evaluate_allSucceeded hverdict hwait with ⟨_, hall⟩ | ⟨_, hall⟩ | ⟨hstop, _⟩ | hfailed
  · simp [hall state hmem] at hclass
  · rcases hall state hmem with h | h <;> simp [h] at hclass
  · exact ⟨.canceled, hstop, by decide⟩
  · exact ⟨.upstreamFailed, hfailed, by decide⟩

/-- Induction from the leaves: what holds of the leaves, and of a stage once it holds of a stage
after it, holds of every stage. The induction is on the distance to the end of the topological
order. -/
theorem IsWork.induction {motive : ℕ → Prop} (leaf : ∀ idx ∈ dag.leaves, motive idx)
    (stage : ∀ idx down node, dag.nodes[down]? = some node → node.teardown = false →
      idx ∈ node.upstream → motive down → motive idx) {idx : ℕ} (hwork : IsWork dag idx) :
    motive idx := by
  induction hdistance : dag.nodes.length - idx using Nat.strong_induction_on generalizing idx with
  | _ distance ih =>
      by_cases hleaf : idx ∈ dag.leaves
      · exact leaf idx hleaf
      · have hdown : ∃ down ∈ downstreamOf dag.nodes idx, IsWork dag down := by
          by_contra hnone
          push Not at hnone
          exact hleaf (mem_leaves.mpr ⟨hwork, hnone⟩)
        obtain ⟨down, hmem, hdownWork⟩ := hdown
        obtain ⟨node, hnode, hup⟩ := mem_downstreamOf.mp hmem
        have hlater := Dag.upstream_lt_of_getElem? hnode hup
        have hlt := (List.getElem?_eq_some_iff.mp hnode).1
        have hdown := ih (dag.nodes.length - down) (by omega) hdownWork rfl
        obtain ⟨other, hother, hstage⟩ := hdownWork
        cases hnode.symm.trans hother
        exact stage idx down node hnode hstage hup hdown

/-- When every node is terminal, an inherited class reaches a leaf. -/
theorem Explained.leaf_of_inherited (hstates : Explained dag allowed states)
    (hrules : AllSucceedOutsideTeardown dag)
    (hterminal : ∀ idx < states.length, (stateAt states idx).isTerminal = true)
    {classes : List StateClass} (hclasses : Inherited classes) {idx : ℕ}
    (hwork : IsWork dag idx) (hclass : (stateAt states idx).stateClass ∈ classes) :
    ∃ leaf ∈ dag.leaves, (stateAt states leaf).stateClass ∈ classes := by
  revert hclass
  apply hwork.induction (motive := fun idx => (stateAt states idx).stateClass ∈ classes →
    ∃ leaf ∈ dag.leaves, (stateAt states leaf).stateClass ∈ classes)
  · intro leaf hleaf hclass
    exact ⟨leaf, hleaf, hclass⟩
  · intro idx down node hnode hstage hup hdown hclass
    have hlt := (List.getElem?_eq_some_iff.mp hnode).1
    have hended := hterminal down (hstates.length_eq ▸ hlt)
    have hexplained := hstates.explained down node hnode (TaskState.ne_none_of_isTerminal hended)
    have hrule := hrules node (List.mem_of_getElem? hnode) hstage
    have hverdict : evaluate .allSucceeded (node.upstream.map (stateAt states)) =
        node.verdict states := by
      rw [Node.verdict, hrule]
    obtain ⟨propagated, hpropagated, hinherits⟩ :=
      hclasses _ _ (List.mem_map_of_mem hup) hclass _ hverdict
        hexplained.verdict_ne_wait
    have hstate : stateAt states down = propagated := by
      rcases hexplained with ⟨hfire, _⟩ | hpropagate
      · rw [hfire] at hpropagated
        cases hpropagated
      · rw [hpropagate] at hpropagated
        cases hpropagated
        rfl
    apply hdown
    rw [hstate]
    exact hinherits

/-- An active node that waits for success has only succeeded upstream nodes. -/
theorem Explained.upstream_succeeded (hstates : Explained dag allowed states) {idx : ℕ}
    {node : Node T} (hnode : dag.nodes[idx]? = some node)
    (hrule : node.triggerRule = .allSucceeded)
    (hactive : (stateAt states idx).isActive = true) {up : ℕ} (hup : up ∈ node.upstream) :
    stateAt states up = .succeeded := by
  obtain ⟨hne, hpending⟩ := TaskState.ne_none_of_isActive hactive
  have hexplained := hstates.explained idx node hnode hne
  have hfire : node.verdict states = .fire := by
    rcases hexplained with ⟨hfire, _⟩ | hpropagate
    · exact hfire
    · rw [TaskState.isTerminal_of_isPropagated (isPropagated_of_evaluate hpropagate)] at hpending
      cases hpending
  rw [Node.verdict, hrule] at hfire
  have hsuccess : (stateAt states up).stateClass = .successLike := by
    rcases evaluate_allSucceeded hfire Verdict.noConfusion with ⟨_, hall⟩ | ⟨hskip, _⟩ |
        ⟨hstop, _⟩ | hfailed
    · exact hall _ (List.mem_map_of_mem hup)
    · cases hskip
    · cases hstop
    · cases hfailed
  cases hstate : stateAt states up <;> first | rfl | (rw [hstate] at hsuccess; cases hsuccess)

/-- Two settled runs whose nodes outside teardown are given the same outcomes end alike outside
teardown, when no teardown node feeds such a node. -/
theorem Explained.work_eq {outcome outcome' : ℕ → TaskState} {states' : List TaskState}
    (hstates : Explained dag (fun idx state => state = outcome idx) states)
    (hstates' : Explained dag (fun idx state => state = outcome' idx) states')
    (hterminal : ∀ idx < states.length, (stateAt states idx).isTerminal = true)
    (hterminal' : ∀ idx < states'.length, (stateAt states' idx).isTerminal = true)
    (hlast : TeardownLast dag) (houtcome : ∀ idx, IsWork dag idx → outcome idx = outcome' idx)
    {idx : ℕ} (hwork : IsWork dag idx) : stateAt states idx = stateAt states' idx := by
  induction idx using Nat.strong_induction_on with
  | _ idx ih =>
      obtain ⟨node, hnode, hteardown⟩ := hwork
      have hlt := (List.getElem?_eq_some_iff.mp hnode).1
      have hended := hterminal idx (hstates.length_eq ▸ hlt)
      have hended' := hterminal' idx (hstates'.length_eq ▸ hlt)
      have hverdict : node.verdict states = node.verdict states' := by
        apply Node.verdict_congr
        intro up hup
        have hearlier := Dag.upstream_lt_of_getElem? hnode hup
        have hupNode := List.getElem?_eq_getElem (Nat.lt_trans hearlier hlt)
        right
        apply ih up hearlier
        exact ⟨_, hupNode, hlast node (List.mem_of_getElem? hnode) hteardown up hup _ hupNode⟩
      have hnotActive : (stateAt states idx).isActive ≠ true := by
        intro hactive
        rw [(TaskState.ne_none_of_isActive hactive).2] at hended
        cases hended
      have hnotActive' : (stateAt states' idx).isActive ≠ true := by
        intro hactive
        rw [(TaskState.ne_none_of_isActive hactive).2] at hended'
        cases hended'
      rcases hstates.explained idx node hnode (TaskState.ne_none_of_isTerminal hended) with
          ⟨hfire, hactive | ⟨_, hgiven⟩⟩ | hpropagate
      · exact absurd hactive hnotActive
      · rcases hstates'.explained idx node hnode (TaskState.ne_none_of_isTerminal hended') with
            ⟨_, hactive | ⟨_, hgiven'⟩⟩ | hpropagate'
        · exact absurd hactive hnotActive'
        · rw [hgiven, hgiven', houtcome idx ⟨node, hnode, hteardown⟩]
        · rw [hverdict, hpropagate'] at hfire
          cases hfire
      · rcases hstates'.explained idx node hnode (TaskState.ne_none_of_isTerminal hended') with
            ⟨hfire', _⟩ | hpropagate'
        · rw [hverdict, hfire'] at hpropagate
          cases hpropagate
        · rw [hverdict, hpropagate', Verdict.propagate.injEq] at hpropagate
          exact hpropagate.symm

/-- The outcome of the leaves tells what the nodes outside teardown ended in. -/
theorem Explained.leafOutcome_spec (hstates : Explained dag allowed states)
    (hrules : AllSucceedOutsideTeardown dag)
    (hterminal : ∀ idx < states.length, (stateAt states idx).isTerminal = true) :
    ((∃ idx, IsWork dag idx ∧ (stateAt states idx).stateClass = .failureLike) →
        leafOutcome dag states = .failed) ∧
      (leafOutcome dag states = .succeeded ↔ ∀ idx, IsWork dag idx →
        (stateAt states idx).stateClass ∈ [StateClass.successLike, .skipLike]) := by
  apply And.intro
  · intro hfailed
    obtain ⟨idx, hwork, hclass⟩ := hfailed
    obtain ⟨leaf, hleaf, hinherits⟩ :=
      hstates.leaf_of_inherited hrules hterminal inherited_failure hwork
        (by rw [hclass]; exact List.mem_cons_self)
    rw [leafOutcome, if_pos ⟨leaf, hleaf, List.mem_singleton.mp hinherits⟩]
  · apply Iff.intro
    · intro hsucceeded idx hwork
      by_contra hclass
      have hlt : idx < states.length := by
        obtain ⟨node, hnode, _⟩ := hwork
        rw [hstates.length_eq]
        exact (List.getElem?_eq_some_iff.mp hnode).1
      have hended := hterminal idx hlt
      have hbad : (stateAt states idx).stateClass ∈ [StateClass.failureLike, .stopLike] := by
        cases hstate : (stateAt states idx).stateClass with
        | successLike => simp [hstate] at hclass
        | skipLike => simp [hstate] at hclass
        | failureLike => decide
        | stopLike => decide
        | pending => simp [TaskState.isTerminal, hstate] at hended
      rcases hstates.leaf_of_inherited hrules hterminal inherited_failure_or_stop hwork hbad with
        ⟨leaf, hleaf, hinherits⟩
      rw [leafOutcome] at hsucceeded
      split_ifs at hsucceeded with hfailure hstop
      rcases List.mem_cons.mp hinherits with hclass | hclass
      · exact hfailure ⟨leaf, hleaf, hclass⟩
      · exact hstop ⟨leaf, hleaf, List.mem_singleton.mp hclass⟩
    · intro hall
      have hleaves (leaf : ℕ) (hleaf : leaf ∈ dag.leaves) := hall leaf (mem_leaves.mp hleaf).1
      rw [leafOutcome, if_neg, if_neg]
      · intro h
        obtain ⟨leaf, hleaf, hclass⟩ := h
        have hgood := hleaves leaf hleaf
        simp [hclass] at hgood
      · intro h
        obtain ⟨leaf, hleaf, hclass⟩ := h
        have hgood := hleaves leaf hleaf
        simp [hclass] at hgood

/-- In a graph whose nodes outside teardown all wait for success, a settled run is failed when a
node outside teardown failed or timed out, and succeeded exactly when all of them ended
success-like or skip-like. A node that waits for success is active only when all its upstream
nodes succeeded, and any other node only when they are all terminal. When no teardown node feeds
a node outside teardown, the outcomes of the teardown nodes do not change the verdict. -/
theorem no_masked_failure {dag : Dag T} (hrules : AllSucceedOutsideTeardown dag) :
    (∀ moves outcome, settle dag (graphRun dag moves) = .settled outcome →
      ((∃ idx, IsWork dag idx ∧ (stateAt (graphRun dag moves) idx = .failed ∨
          stateAt (graphRun dag moves) idx = .timedOut)) → outcome = .failed) ∧
        (outcome = .succeeded ↔ ∀ idx, IsWork dag idx →
          (stateAt (graphRun dag moves) idx).stateClass ∈ [StateClass.successLike, .skipLike])) ∧
      (∀ moves idx node, dag.nodes[idx]? = some node →
        (stateAt (graphRun dag moves) idx).isActive = true → ∀ up ∈ node.upstream,
          (stateAt (graphRun dag moves) up).isTerminal = true ∧
            (node.teardown = false ∨ node.triggerRule = .allSucceeded →
              stateAt (graphRun dag moves) up = .succeeded)) ∧
      (TeardownLast dag → ∀ outcomes outcomes' : ℕ → TaskState,
        (∀ idx, IsWork dag idx → outcomes idx = outcomes' idx) →
        ∀ moves moves', Allows (fun idx state => state = outcomes idx) moves →
          Allows (fun idx state => state = outcomes' idx) moves' →
          ∀ outcome outcome', settle dag (graphRun dag moves) = .settled outcome →
            settle dag (graphRun dag moves') = .settled outcome' → outcome = outcome') := by
  refine ⟨?_, ?_, ?_⟩
  · intro moves outcome hsettled
    rw [settle_eq_settled_iff] at hsettled
    obtain ⟨hterminal, rfl⟩ := hsettled
    have hstates : Explained dag (fun _ _ => True) (graphRun dag moves) :=
      explained_graphRun fun _ _ _ => trivial
    have hspec := hstates.leafOutcome_spec hrules hterminal
    refine ⟨?_, hspec.2⟩
    intro hfailed
    obtain ⟨idx, hwork, hstate⟩ := hfailed
    apply hspec.1
    refine ⟨idx, hwork, ?_⟩
    rcases hstate with hstate | hstate
    · rw [hstate]
      rfl
    · rw [hstate]
      rfl
  · intro moves idx node hnode hactive up hup
    have hstates : Explained dag (fun _ _ => True) (graphRun dag moves) :=
      explained_graphRun fun _ _ _ => trivial
    have hne := (TaskState.ne_none_of_isActive hactive).1
    refine ⟨hstates.upstream_terminal hnode hne hup, ?_⟩
    intro hwaits
    have hrule : node.triggerRule = .allSucceeded := by
      rcases hwaits with hwork | hrule
      · exact hrules node (List.mem_of_getElem? hnode) hwork
      · exact hrule
    exact hstates.upstream_succeeded hnode hrule hactive hup
  · intro hlast outcomes outcomes' hsame moves moves' hallows hallows' outcome outcome' hfirst
      hsecond
    rw [settle_eq_settled_iff] at hfirst hsecond
    have hstates : Explained dag _ (graphRun dag moves) := explained_graphRun hallows
    have hstates' : Explained dag _ (graphRun dag moves') := explained_graphRun hallows'
    have hleaf (leaf : ℕ) (hmem : leaf ∈ dag.leaves) :
        stateAt (graphRun dag moves) leaf = stateAt (graphRun dag moves') leaf :=
      hstates.work_eq hstates' hfirst.1 hsecond.1 hlast hsame (mem_leaves.mp hmem).1
    have hclass (stateClass : StateClass) :
        (∃ leaf ∈ dag.leaves, (stateAt (graphRun dag moves) leaf).stateClass = stateClass) ↔
          ∃ leaf ∈ dag.leaves, (stateAt (graphRun dag moves') leaf).stateClass = stateClass := by
      apply exists_congr
      intro leaf
      apply and_congr_right
      intro hmem
      rw [hleaf leaf hmem]
    rw [hfirst.2, hsecond.2, leafOutcome, leafOutcome]
    simp only [hclass]

/-- The chain of two writers, assembled. -/
def writerDag : Dag ℕ := ⟨writerChain, writerChain_earlier, by decide⟩

/-- The first writer fails, the second is never run, and the teardown task succeeds. -/
def failedWriter : List Move :=
  [.pass, .complete 0 .failed, .pass, .complete 2 .succeeded]

theorem no_masked_failure_failedWriter :
    ∃ outcome, settle writerDag (graphRun writerDag failedWriter) = .settled outcome ∧
      outcome = .failed := by
  have hrules : AllSucceedOutsideTeardown writerDag := by
    unfold AllSucceedOutsideTeardown
    decide
  have hsettled : settle writerDag (graphRun writerDag failedWriter) = .settled .failed := by
    decide
  have hspec := (no_masked_failure hrules).1 failedWriter .failed hsettled
  exact ⟨.failed, hsettled, hspec.1 ⟨0, ⟨_, rfl, rfl⟩, .inl (by decide)⟩⟩

/-- A task that depends on a teardown task. -/
def teardownFirst : Dag ℕ where
  nodes :=
    let policy : NodePolicy :=
      { retries := 2, classRule := .fromRun, escalateOnOom := false, segment := none }
    [{ taskId := 0, kind := .control, inputNames := [], writesLake := false,
       triggerRule := .allTerminal, teardown := true, policy, upstream := [] },
     { taskId := 1, kind := .pod, inputNames := ["batch"], writesLake := false,
       triggerRule := .allSucceeded, teardown := false, policy, upstream := [0] }]
  upstream_lt := by decide
  nodup := by decide

/-- After the first writer failed the teardown task is scheduled, with an upstream that did not
succeed. And where a task depends on a teardown task, the teardown task's own outcome decides
between a failed and a succeeded job. -/
theorem teardown_runs_after_failure :
    AllSucceedOutsideTeardown writerDag ∧ AllSucceedOutsideTeardown teardownFirst ∧
      stateAt (graphRun writerDag [.pass, .complete 0 .failed, .pass]) 2 = .scheduled ∧
      stateAt (graphRun writerDag [.pass, .complete 0 .failed, .pass]) 0 = .failed ∧
      settle teardownFirst (graphRun teardownFirst
          [.pass, .complete 0 .failed, .pass]) = .settled .failed ∧
      settle teardownFirst (graphRun teardownFirst
          [.pass, .complete 0 .succeeded, .pass, .complete 1 .succeeded]) =
        .settled .succeeded := by
  unfold AllSucceedOutsideTeardown
  decide

end EntityResolution.Executor
