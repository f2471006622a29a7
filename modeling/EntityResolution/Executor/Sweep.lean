/-
# What a readiness pass leaves

A pass decides its actions over a private copy of the states; the states it leaves are the ones
before it with every action applied. This module characterizes them without the loop: a node that
was not pending keeps its state, and a pending node is in the state that its trigger rule demands
of the states its upstream nodes end the pass in. Since upstream nodes come first, that is a
definition by recursion on the topological order, and everything else about a pass follows from
it: a second pass has nothing to do, and no node is left pending with every upstream terminal.
-/

import EntityResolution.Executor.Readiness

namespace EntityResolution.Executor

universe u

variable {T : Type u}

/-- Apply one action of a pass to the states. -/
def applyAction (states : List TaskState) (action : ℕ × PassAction) : List TaskState :=
  match action.2 with
  | .schedule => states.set action.1 .scheduled
  | .propagate state => states.set action.1 state

/-- The states after a pass and its actions. -/
def sweep (dag : Dag T) (states : List TaskState) : List TaskState :=
  (pass dag states).foldl applyAction states

/-- The state that a verdict demands of a pending node. -/
def Verdict.demands : Verdict → TaskState
  | .fire => .scheduled
  | .propagate state => state
  | .wait => .none

/-- What a node's trigger rule says of the states of its upstream. -/
def Node.verdict (node : Node T) (states : List TaskState) : Verdict :=
  evaluate node.triggerRule (node.upstream.map (stateAt states))

theorem evaluate_eq_wait {rule : TriggerRule} {upstream : List TaskState} {state : TaskState}
    (hmem : state ∈ upstream) (hpending : state.isTerminal = false) :
    evaluate rule upstream = .wait := by
  by_contra hverdict
  rw [isTerminal_of_evaluate hverdict hmem] at hpending
  cases hpending

/-- A rule does not wait once every upstream node is terminal. -/
theorem evaluate_ne_wait {rule : TriggerRule} {upstream : List ℕ} {states : List TaskState}
    (hterminal : ∀ up ∈ upstream, (stateAt states up).isTerminal = true) :
    evaluate rule (upstream.map (stateAt states)) ≠ .wait := by
  have hnone : (upstream.map (stateAt states)).any (fun state => !state.isTerminal) = false := by
    rw [List.any_eq_false]
    intro state hstate
    obtain ⟨up, hup, rfl⟩ := List.mem_map.mp hstate
    simp [hterminal up hup]
  unfold evaluate
  rw [hnone, if_neg Bool.false_ne_true]
  cases rule with
  | allSucceeded =>
      dsimp only
      split_ifs <;> exact Verdict.noConfusion
  | allTerminal => exact Verdict.noConfusion
  | anyFailed =>
      dsimp only
      split_ifs <;> exact Verdict.noConfusion

theorem Node.verdict_congr {node : Node T} {states others : List TaskState}
    (hsame : ∀ up ∈ node.upstream,
      (stateAt states up).isTerminal = false ∧ (stateAt others up).isTerminal = false ∨
        stateAt states up = stateAt others up) :
    node.verdict states = node.verdict others := by
  by_cases hpending : ∃ up ∈ node.upstream, (stateAt states up).isTerminal = false ∧
      (stateAt others up).isTerminal = false
  · obtain ⟨up, hup, hfirst, hsecond⟩ := hpending
    rw [Node.verdict, Node.verdict, evaluate_eq_wait (List.mem_map_of_mem hup) hfirst,
      evaluate_eq_wait (List.mem_map_of_mem hup) hsecond]
  · rw [Node.verdict, Node.verdict]
    congr 1
    apply List.map_congr_left
    intro up hup
    rcases hsame up hup with hboth | hequal
    · exact absurd ⟨up, hup, hboth⟩ hpending
    · exact hequal

theorem stateAt_set {states : List TaskState} {idx : ℕ} (hidx : idx < states.length)
    (state : TaskState) (other : ℕ) :
    stateAt (states.set idx state) other = if other = idx then state else stateAt states other := by
  rw [stateAt, stateAt, List.getElem?_set]
  by_cases hsame : idx = other
  · subst hsame
    simp [hidx]
  · simp [hsame, Ne.symm hsame]

/-- What holds of a sweep that has passed the nodes before `position`: `applied` are the states
with the actions so far, and `effective` is the loop's own copy, in which scheduled nodes still
read as pending. -/
structure Passed (dag : Dag T) (states : List TaskState) (position : ℕ)
    (effective applied : List TaskState) : Prop where
  length_effective : effective.length = dag.nodes.length
  length_applied : applied.length = dag.nodes.length
  agree : ∀ idx, stateAt applied idx = stateAt effective idx ∨
    stateAt effective idx = .none ∧ stateAt applied idx = .scheduled
  ahead : ∀ idx, position ≤ idx → stateAt applied idx = stateAt states idx ∧
    stateAt effective idx = stateAt states idx
  kept : ∀ idx, stateAt states idx ≠ .none → stateAt applied idx = stateAt states idx
  decided : ∀ idx node, idx < position → dag.nodes[idx]? = some node →
    stateAt states idx = .none → stateAt applied idx = (node.verdict applied).demands

theorem Dag.upstream_lt_of_getElem? {dag : Dag T} {idx : ℕ} {node : Node T}
    (hnode : dag.nodes[idx]? = some node) {up : ℕ} (hup : up ∈ node.upstream) : up < idx :=
  dag.upstream_lt (node, idx) (List.mem_zipIdx_iff_getElem?.mpr hnode) up hup

theorem Passed.verdict_eq {dag : Dag T} {states effective applied : List TaskState}
    {position : ℕ} (hpassed : Passed dag states position effective applied) (node : Node T) :
    node.verdict applied = node.verdict effective := by
  apply Node.verdict_congr
  intro up _
  rcases hpassed.agree up with hequal | ⟨hnone, hscheduled⟩
  · exact .inr hequal
  · left
    rw [hnone, hscheduled]
    exact ⟨rfl, rfl⟩

/-- Writing the verdict of the next node moves the position on. -/
theorem Passed.write {dag : Dag T} {states effective applied : List TaskState} {position : ℕ}
    {node : Node T} {state read : TaskState}
    (hpassed : Passed dag states position effective applied)
    (hnode : dag.nodes[position]? = some node) (hnone : stateAt states position = .none)
    (hstate : state = (node.verdict applied).demands)
    (hread : read = state ∨ read = .none ∧ state = .scheduled) :
    Passed dag states (position + 1) (effective.set position read)
      (applied.set position state) := by
  have hlt : position < dag.nodes.length := by
    rw [List.getElem?_eq_some_iff] at hnode
    exact hnode.1
  have happlied := stateAt_set (hpassed.length_applied ▸ hlt) state
  have heffective := stateAt_set (hpassed.length_effective ▸ hlt) read
  refine ⟨?_, ?_, ?_, ?_, ?_, ?_⟩
  · rw [List.length_set]
    exact hpassed.length_effective
  · rw [List.length_set]
    exact hpassed.length_applied
  · intro idx
    rw [happlied idx, heffective idx]
    by_cases hsame : idx = position
    · rw [if_pos hsame, if_pos hsame]
      rcases hread with rfl | ⟨rfl, rfl⟩
      · exact .inl rfl
      · exact .inr ⟨rfl, rfl⟩
    · rw [if_neg hsame, if_neg hsame]
      exact hpassed.agree idx
  · intro idx hahead
    have hne : idx ≠ position := by omega
    rw [happlied idx, heffective idx, if_neg hne, if_neg hne]
    exact hpassed.ahead idx (by omega)
  · intro idx hidx
    have hne : idx ≠ position := by
      intro hsame
      rw [hsame] at hidx
      exact hidx hnone
    rw [happlied idx, if_neg hne]
    exact hpassed.kept idx hidx
  · intro idx other hidx hother hpending
    -- the upstream nodes of `other` come before `position`, so they are not written
    have hverdict : other.verdict (applied.set position state) = other.verdict applied := by
      apply Node.verdict_congr
      intro up hup
      have hup' := Dag.upstream_lt_of_getElem? hother hup
      right
      rw [happlied up, if_neg (by omega)]
    rw [hverdict, happlied idx]
    by_cases hsame : idx = position
    · rw [if_pos hsame]
      subst hsame
      rw [hnode] at hother
      cases hother
      exact hstate
    · rw [if_neg hsame]
      exact hpassed.decided idx other (by omega) hother hpending

/-- A node that writes nothing moves the position on. -/
theorem Passed.skip {dag : Dag T} {states effective applied : List TaskState} {position : ℕ}
    {node : Node T} (hpassed : Passed dag states position effective applied)
    (hnode : dag.nodes[position]? = some node)
    (hskip : stateAt states position ≠ .none ∨ node.verdict applied = .wait) :
    Passed dag states (position + 1) effective applied where
  length_effective := hpassed.length_effective
  length_applied := hpassed.length_applied
  agree := hpassed.agree
  ahead idx hidx := hpassed.ahead idx (by omega)
  kept := hpassed.kept
  decided idx other hidx hother hpending := by
    by_cases hsame : idx = position
    · subst hsame
      rw [hnode] at hother
      cases hother
      rcases hskip with hne | hwait
      · exact absurd hpending hne
      · rw [hwait, (hpassed.ahead idx le_rfl).1]
        exact hpending
    · exact hpassed.decided idx other (by omega) hother hpending

theorem passed_start (dag : Dag T) {states : List TaskState}
    (hlength : states.length = dag.nodes.length) : Passed dag states 0 states states where
  length_effective := hlength
  length_applied := hlength
  agree _ := .inl rfl
  ahead _ _ := ⟨rfl, rfl⟩
  kept _ _ := rfl
  decided _ _ hidx := by omega

/-- One node of the loop. -/
theorem Passed.passNode {dag : Dag T} {states : List TaskState} {position : ℕ} {node : Node T}
    {loop : List TaskState × List (ℕ × PassAction)}
    (hpassed : Passed dag states position loop.1 (loop.2.foldl applyAction states))
    (hnode : dag.nodes[position]? = some node) :
    Passed dag states (position + 1) (passNode loop (node, position)).1
      ((passNode loop (node, position)).2.foldl applyAction states) := by
  have hposition := hpassed.ahead position le_rfl
  have hverdict := hpassed.verdict_eq node
  rw [Executor.passNode]
  split
  · next hne =>
      apply hpassed.skip hnode
      rw [← hposition.2]
      exact .inl hne
  · next hnone =>
      rw [not_not, hposition.2] at hnone
      split
      · next hfire =>
          rw [List.foldl_append]
          have hdemands : TaskState.scheduled =
              (node.verdict (loop.2.foldl applyAction states)).demands := by
            rw [hverdict, Node.verdict, hfire]
            rfl
          have hwritten := hpassed.write hnode hnone hdemands (.inr ⟨rfl, rfl⟩)
          -- the loop leaves a scheduled node pending in its own copy
          have hcopy : loop.1.set position .none = loop.1 := by
            apply List.ext_getElem?
            intro idx
            rw [List.getElem?_set]
            by_cases hsame : position = idx
            · subst hsame
              have hread : stateAt loop.1 position = .none := hposition.2.trans hnone
              rw [stateAt] at hread
              cases hget : loop.1[position]? with
              | none =>
                  rw [List.getElem?_eq_none_iff] at hget
                  simp [Nat.not_lt.mpr hget]
              | some state =>
                  rw [hget, Option.getD_some] at hread
                  subst hread
                  rw [List.getElem?_eq_some_iff] at hget
                  simp [hget.1]
            · simp [hsame]
          rw [hcopy] at hwritten
          exact hwritten
      · next state hpropagate =>
          rw [List.foldl_append]
          apply hpassed.write hnode hnone _ (.inl rfl)
          rw [hverdict, Node.verdict, hpropagate]
          rfl
      · next hwait =>
          apply hpassed.skip hnode
          right
          rw [hverdict]
          exact hwait

theorem passed_foldl {dag : Dag T} {states : List TaskState} {nodes : List (Node T)}
    {position : ℕ} (hnodes : dag.nodes.drop position = nodes)
    {loop : List TaskState × List (ℕ × PassAction)}
    (hpassed : Passed dag states position loop.1 (loop.2.foldl applyAction states)) :
    Passed dag states (position + nodes.length)
      ((nodes.zipIdx position).foldl passNode loop).1
      (((nodes.zipIdx position).foldl passNode loop).2.foldl applyAction states) := by
  induction nodes generalizing position loop with
  | nil => exact hpassed
  | cons node nodes ih =>
      have hnode : dag.nodes[position]? = some node := by
        have hhead := congrArg (·[0]?) hnodes
        simpa [List.getElem?_drop] using hhead
      have hrest : dag.nodes.drop (position + 1) = nodes := by
        rw [← List.drop_drop, hnodes]
        rfl
      rw [List.zipIdx_cons, List.foldl_cons, List.length_cons]
      have hlater := ih hrest (hpassed.passNode hnode)
      rw [show position + (nodes.length + 1) = position + 1 + nodes.length by omega]
      exact hlater

section Spec

variable {dag : Dag T} {states : List TaskState} (hlength : states.length = dag.nodes.length)

include hlength

theorem passed_sweep :
    ∃ effective, Passed dag states dag.nodes.length effective (sweep dag states) := by
  have hpassed : Passed dag states (0 + dag.nodes.length)
      (dag.nodes.zipIdx.foldl passNode (states, [])).1 (sweep dag states) := by
    apply passed_foldl
    · rfl
    · exact passed_start dag hlength
  rw [Nat.zero_add] at hpassed
  exact ⟨_, hpassed⟩

theorem length_sweep : (sweep dag states).length = dag.nodes.length := by
  obtain ⟨_, hpassed⟩ := passed_sweep hlength
  exact hpassed.length_applied

theorem stateAt_sweep_of_ne {idx : ℕ} (hidx : stateAt states idx ≠ .none) :
    stateAt (sweep dag states) idx = stateAt states idx := by
  obtain ⟨_, hpassed⟩ := passed_sweep hlength
  exact hpassed.kept idx hidx

/-- A pending node ends the pass in the state its trigger rule demands of the upstream states
after the pass. -/
theorem stateAt_sweep_of_eq {idx : ℕ} {node : Node T} (hnode : dag.nodes[idx]? = some node)
    (hidx : stateAt states idx = .none) :
    stateAt (sweep dag states) idx = (node.verdict (sweep dag states)).demands := by
  obtain ⟨_, hpassed⟩ := passed_sweep hlength
  rw [List.getElem?_eq_some_iff] at hnode
  exact hpassed.decided idx node hnode.1 (List.getElem?_eq_some_iff.mpr hnode) hidx

omit hlength in
/-- A verdict that leaves a node pending is to wait. -/
theorem verdict_eq_wait {node : Node T} (hdemands : (node.verdict states).demands = .none) :
    node.verdict states = .wait := by
  cases hverdict : node.verdict states with
  | fire =>
      rw [hverdict] at hdemands
      cases hdemands
  | propagate state =>
      rw [hverdict] at hdemands
      have hpropagated := isPropagated_of_evaluate hverdict
      rw [show state = .none from hdemands] at hpropagated
      cases hpropagated
  | wait => rfl

/-- What a pass leaves pending waits for its upstream. -/
theorem verdict_sweep_eq_wait {idx : ℕ} {node : Node T} (hnode : dag.nodes[idx]? = some node)
    (hpending : stateAt (sweep dag states) idx = .none) :
    node.verdict (sweep dag states) = .wait := by
  have hbefore : stateAt states idx = .none := by
    by_contra hne
    rw [stateAt_sweep_of_ne hlength hne] at hpending
    exact hne hpending
  have hdemands := stateAt_sweep_of_eq hlength hnode hbefore
  rw [hpending] at hdemands
  exact verdict_eq_wait hdemands.symm

/-- After a pass, no node is left pending with every upstream terminal. -/
theorem settle_sweep_ne_deadlock (idx : ℕ) : settle dag (sweep dag states) ≠ .deadlock idx := by
  intro hdeadlock
  rw [settle] at hdeadlock
  split at hdeadlock
  · next state other hfind =>
      split at hdeadlock
      · next hguard =>
          have hentry := List.mem_zipIdx_iff_getElem?.mp (List.mem_of_find?_eq_some hfind)
          simp only [Bool.and_eq_true, decide_eq_true_eq, Option.any_eq_true,
            List.all_eq_true] at hguard
          obtain ⟨hnone, node, hnode, hterminal⟩ := hguard
          have hpending : stateAt (sweep dag states) other = .none := by
            rw [stateAt, hentry, Option.getD_some]
            exact hnone
          have hverdict := verdict_sweep_eq_wait hlength hnode hpending
          rw [Node.verdict] at hverdict
          exact evaluate_ne_wait (fun up hup => hterminal up hup) hverdict
      · cases hdeadlock
  · dsimp only at hdeadlock
    split_ifs at hdeadlock

end Spec

end EntityResolution.Executor
