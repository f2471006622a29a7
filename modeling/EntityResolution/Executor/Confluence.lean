/-
# The outcome of a job does not depend on timing

A job makes two kinds of step: a readiness pass with its actions applied, and the completion of
a node that was scheduled. Which comes first is a matter of timing. What a node's body would end
in, if it ran, is not: it is given here as a function of the node.

A run that no step can change has every node terminal, and then each node's state is determined
by the states of its upstream: the outcome of its body where its trigger rule fires, the
propagated state where it never can. Upstream nodes come first, so these equations have one
solution, whatever the order of the steps was. A node was run exactly when its rule fires there.
-/

import EntityResolution.Executor.GraphRuns

namespace EntityResolution.Executor

universe u

variable {T : Type u}

/-- What the body of a node ends in, if it runs. -/
abbrev BodyOutcome : Type := {state : TaskState // state.isTerminal = true}

/-- One step of a job. -/
inductive JobMove
  | pass
  | complete (idx : ℕ)
  deriving DecidableEq

/-- A readiness pass with its actions applied, or the completion of one scheduled node. -/
inductive JobStep (dag : Dag T) (outcome : ℕ → BodyOutcome) :
    List TaskState → JobMove → List TaskState → Prop
  | pass (states : List TaskState) : JobStep dag outcome states .pass (sweep dag states)
  | complete {states : List TaskState} {idx : ℕ} (hscheduled : stateAt states idx = .scheduled) :
      JobStep dag outcome states (.complete idx) (states.set idx (outcome idx).1)

/-- A run from the vector in which every node is pending. -/
inductive JobRun (dag : Dag T) (outcome : ℕ → BodyOutcome) : List JobMove → List TaskState → Prop
  | start : JobRun dag outcome [] (pendingStates dag)
  | step {moves : List JobMove} {states next : List TaskState} {move : JobMove}
      (hrun : JobRun dag outcome moves states) (hstep : JobStep dag outcome states move next) :
      JobRun dag outcome (moves ++ [move]) next

/-- No step changes the states. -/
def Maximal (dag : Dag T) (outcome : ℕ → BodyOutcome) (states : List TaskState) : Prop :=
  ∀ move next, JobStep dag outcome states move next → next = states

/-- The node that a step completes. -/
def JobMove.completes : JobMove → Option ℕ
  | .pass => none
  | .complete idx => some idx

/-- The nodes that a run ran, in the order of their completion. -/
def completed (moves : List JobMove) : List ℕ := moves.filterMap JobMove.completes

@[simp] theorem completed_concat_pass (moves : List JobMove) :
    completed (moves ++ [.pass]) = completed moves := by
  simp [completed, JobMove.completes]

@[simp] theorem completed_concat_complete (moves : List JobMove) (idx : ℕ) :
    completed (moves ++ [.complete idx]) = completed moves ++ [idx] := by
  simp [completed, JobMove.completes]

/-- Vectors of one length that agree on every node are equal. -/
theorem ext_stateAt {states others : List TaskState} (hlength : states.length = others.length)
    (hsame : ∀ idx < states.length, stateAt states idx = stateAt others idx) :
    states = others := by
  apply List.ext_getElem hlength
  intro idx hidx hidx'
  have hat := hsame idx hidx
  simpa [stateAt, List.getElem?_eq_getElem hidx, List.getElem?_eq_getElem hidx'] using hat

section SecondPass

variable {dag : Dag T} {states : List TaskState}

theorem pass_eq_nil (hwait : ∀ idx node, dag.nodes[idx]? = some node →
    stateAt states idx = .none → node.verdict states = .wait) : pass dag states = [] := by
  have hfold (entries : List (Node T × ℕ)) (hentries : ∀ entry ∈ entries,
      dag.nodes[entry.2]? = some entry.1) :
      entries.foldl passNode (states, []) = (states, []) := by
    induction entries with
    | nil => rfl
    | cons entry entries ih =>
        have hnode := hentries entry List.mem_cons_self
        have hskip : passNode (states, []) entry = (states, []) := by
          rw [passNode]
          split
          · rfl
          · next hpending =>
              have hverdict := hwait entry.2 entry.1 hnode (not_not.mp hpending)
              rw [Node.verdict] at hverdict
              rw [hverdict]
        rw [List.foldl_cons, hskip]
        apply ih
        intro other hother
        exact hentries other (List.mem_cons_of_mem _ hother)
  rw [pass, hfold]
  intro entry hentry
  exact List.mem_zipIdx_iff_getElem?.mp hentry

/-- A second pass has no action, from any states. -/
theorem pass_sweep (hlength : states.length = dag.nodes.length) :
    pass dag (sweep dag states) = [] := by
  apply pass_eq_nil
  intro idx node hnode hpending
  exact verdict_sweep_eq_wait hlength hnode hpending

/-- So a repeated pass changes nothing. -/
theorem sweep_sweep (hlength : states.length = dag.nodes.length) :
    sweep dag (sweep dag states) = sweep dag states := by
  rw [sweep, pass_sweep hlength]
  rfl

end SecondPass

/-- The states after a run: a node left the pending state for a reason, an active node is
scheduled and nothing else, and the completed nodes are the terminal ones whose rule fires. -/
structure OnTime (dag : Dag T) (outcome : ℕ → BodyOutcome) (moves : List JobMove)
    (states : List TaskState) : Prop where
  explained : Explained dag (fun idx state => state = (outcome idx).1) states
  scheduled : ∀ idx, (stateAt states idx).isActive = true → stateAt states idx = .scheduled
  ran : ∀ idx node, dag.nodes[idx]? = some node →
    (idx ∈ completed moves ↔ node.verdict states = .fire ∧ (stateAt states idx).isTerminal = true)
  within : ∀ idx ∈ completed moves, idx < dag.nodes.length
  once : (completed moves).Nodup

section Invariant

variable {dag : Dag T} {outcome : ℕ → BodyOutcome} {moves : List JobMove} {states : List TaskState}

theorem stateAt_pendingStates (dag : Dag T) (idx : ℕ) :
    stateAt (pendingStates dag) idx = .none := by
  rw [stateAt, pendingStates, List.getElem?_replicate]
  split <;> rfl

theorem onTime_start (dag : Dag T) (outcome : ℕ → BodyOutcome) :
    OnTime dag outcome [] (pendingStates dag) where
  explained := explained_pendingStates dag _
  scheduled idx hactive := by
    rw [stateAt_pendingStates] at hactive
    cases hactive
  ran idx node _ := by
    rw [stateAt_pendingStates]
    simp [completed, TaskState.isTerminal, TaskState.stateClass]
  within idx hidx := by simp [completed] at hidx
  once := List.nodup_nil

/-- A pass keeps the verdict of every node that is not pending. -/
theorem OnTime.verdict_sweep (htime : OnTime dag outcome moves states) {idx : ℕ} {node : Node T}
    (hnode : dag.nodes[idx]? = some node) (hidx : stateAt states idx ≠ .none) :
    node.verdict (sweep dag states) = node.verdict states := by
  apply htime.explained.verdict_eq _ hnode hidx
  intro up hterminal
  exact stateAt_sweep_of_ne htime.explained.length_eq (TaskState.ne_none_of_isTerminal hterminal)

/-- The step lemma for a pass. -/
theorem OnTime.pass (htime : OnTime dag outcome moves states) :
    OnTime dag outcome (moves ++ [.pass]) (sweep dag states) where
  explained := htime.explained.sweep
  scheduled idx hactive := by
    have hlength := htime.explained.length_eq
    by_cases hpending : stateAt states idx = .none
    · have hidx : idx < dag.nodes.length := by
        rw [← length_sweep hlength]
        exact lt_of_stateAt_ne (TaskState.ne_none_of_isActive hactive).1
      have hdemands := stateAt_sweep_of_eq hlength (List.getElem?_eq_getElem hidx) hpending
      rw [hdemands] at hactive ⊢
      cases hverdict : (dag.nodes[idx]).verdict (sweep dag states) with
      | fire => rfl
      | propagate state =>
          have hterminal := TaskState.isTerminal_of_isPropagated (isPropagated_of_evaluate hverdict)
          rw [hverdict] at hactive
          have hpending' := (TaskState.ne_none_of_isActive hactive).2
          rw [show state.isTerminal = false from hpending'] at hterminal
          cases hterminal
      | wait =>
          rw [hverdict] at hactive
          cases hactive
    · rw [stateAt_sweep_of_ne hlength hpending] at hactive ⊢
      exact htime.scheduled idx hactive
  ran idx node hnode := by
    have hlength := htime.explained.length_eq
    rw [completed_concat_pass, htime.ran idx node hnode]
    by_cases hpending : stateAt states idx = .none
    · have hdemands := stateAt_sweep_of_eq hlength hnode hpending
      apply iff_of_false
      · rw [hpending]
        rintro ⟨_, hterminal⟩
        cases hterminal
      · -- a node that the pass has just scheduled has not run
        rintro ⟨hfire, hterminal⟩
        rw [hdemands, hfire] at hterminal
        cases hterminal
    · rw [htime.verdict_sweep hnode hpending, stateAt_sweep_of_ne hlength hpending]
  within idx hidx := by
    rw [completed_concat_pass] at hidx
    exact htime.within idx hidx
  once := by
    rw [completed_concat_pass]
    exact htime.once

/-- A scheduled node's rule has fired. -/
theorem OnTime.fire_of_scheduled (htime : OnTime dag outcome moves states) {idx : ℕ}
    {node : Node T} (hnode : dag.nodes[idx]? = some node)
    (hscheduled : stateAt states idx = .scheduled) : node.verdict states = .fire := by
  have hne : stateAt states idx ≠ .none := by
    rw [hscheduled]
    exact TaskState.noConfusion
  cases htime.explained.explained idx node hnode hne with
  | inl hfired => exact hfired.1
  | inr hpropagate =>
      have hpropagated := isPropagated_of_evaluate hpropagate
      rw [hscheduled] at hpropagated
      cases hpropagated

/-- The step lemma for the completion of a scheduled node. -/
theorem OnTime.complete (htime : OnTime dag outcome moves states) {idx : ℕ}
    (hscheduled : stateAt states idx = .scheduled) :
    OnTime dag outcome (moves ++ [.complete idx]) (states.set idx (outcome idx).1) := by
  have hactive : (stateAt states idx).isActive = true := by
    rw [hscheduled]
    rfl
  have hne := (TaskState.ne_none_of_isActive hactive).1
  have hlt : idx < states.length := lt_of_stateAt_ne hne
  have hset := stateAt_set hlt (outcome idx).1
  have hlt' : idx < dag.nodes.length := htime.explained.length_eq ▸ hlt
  have hnode : dag.nodes[idx]? = some dag.nodes[idx] := List.getElem?_eq_getElem hlt'
  have hfresh : idx ∉ completed moves := by
    rw [htime.ran idx _ hnode, hscheduled]
    rintro ⟨_, hterminal⟩
    cases hterminal
  -- the only node that moves was active, so no verdict of a node past pending is touched
  have hkept (up : ℕ) (hterminal : (stateAt states up).isTerminal = true) :
      stateAt (states.set idx (outcome idx).1) up = stateAt states up := by
    rw [hset up, if_neg]
    intro hsame
    rw [hsame, hscheduled] at hterminal
    cases hterminal
  constructor
  · exact htime.explained.set hactive (.inr ⟨(outcome idx).2, rfl⟩)
  · intro other hother
    rw [hset other] at hother ⊢
    by_cases hsame : other = idx
    · rw [if_pos hsame] at hother
      have hpending := (TaskState.ne_none_of_isActive hother).2
      rw [(outcome idx).2] at hpending
      cases hpending
    · rw [if_neg hsame] at hother ⊢
      exact htime.scheduled other hother
  · intro other node hother
    rw [completed_concat_complete, List.mem_append, List.mem_singleton, hset other]
    by_cases hsame : other = idx
    · subst hsame
      rw [if_pos rfl, htime.explained.verdict_eq hkept hother hne,
        htime.fire_of_scheduled hother hscheduled]
      exact iff_of_true (.inr rfl) ⟨rfl, (outcome other).2⟩
    · rw [if_neg hsame, or_iff_left hsame, htime.ran other node hother]
      by_cases hpending : stateAt states other = .none
      · rw [hpending]
        apply iff_of_false <;>
        · rintro ⟨_, hterminal⟩
          cases hterminal
      · rw [htime.explained.verdict_eq hkept hother hpending]
  · intro other hother
    rw [completed_concat_complete, List.mem_append, List.mem_singleton] at hother
    cases hother with
    | inl hbefore => exact htime.within other hbefore
    | inr hsame =>
        rw [hsame, ← htime.explained.length_eq]
        exact hlt
  · rw [completed_concat_complete, ← List.concat_eq_append]
    exact htime.once.concat hfresh

/-- What a whole run keeps. -/
theorem JobRun.onTime (hrun : JobRun dag outcome moves states) :
    OnTime dag outcome moves states := by
  induction hrun with
  | start => exact onTime_start dag outcome
  | step _ hstep ih =>
      cases hstep with
      | pass => exact ih.pass
      | complete hscheduled => exact ih.complete hscheduled

end Invariant

/-! ## Where a maximal run ends -/

/-- The state in which a verdict leaves a node for good, when its body ends as given. -/
def Verdict.settles (outcome : BodyOutcome) : Verdict → TaskState
  | .fire => outcome.1
  | .propagate state => state
  | .wait => .none

/-- Every node is in the state that its upstream and its own body leave it in. -/
structure Concluded (dag : Dag T) (outcome : ℕ → BodyOutcome) (states : List TaskState) : Prop where
  length_eq : states.length = dag.nodes.length
  settles : ∀ idx node, dag.nodes[idx]? = some node →
    stateAt states idx = (node.verdict states).settles (outcome idx)

section Maximal

variable {dag : Dag T} {outcome : ℕ → BodyOutcome} {moves : List JobMove} {states : List TaskState}

/-- The equations of a settled job have one solution, by induction on the topological
order. -/
theorem Concluded.unique {others : List TaskState} (hstates : Concluded dag outcome states)
    (hothers : Concluded dag outcome others) : states = others := by
  apply ext_stateAt (hstates.length_eq.trans hothers.length_eq.symm)
  intro idx
  induction idx using Nat.strong_induction_on with
  | _ idx ih =>
      intro hidx
      rw [hstates.length_eq] at hidx
      have hnode : dag.nodes[idx]? = some dag.nodes[idx] := List.getElem?_eq_getElem hidx
      have hverdict : (dag.nodes[idx]).verdict states = (dag.nodes[idx]).verdict others := by
        apply Node.verdict_congr
        intro up hup
        have hearlier := dag.upstream_lt_of_getElem? hnode hup
        have hlength := hstates.length_eq
        exact .inr (ih up hearlier (by omega))
      rw [hstates.settles idx _ hnode, hothers.settles idx _ hnode, hverdict]

theorem Maximal.sweep_eq (hmax : Maximal dag outcome states) : sweep dag states = states :=
  hmax .pass _ (.pass states)

theorem Maximal.not_scheduled (hmax : Maximal dag outcome states) (idx : ℕ) :
    stateAt states idx ≠ .scheduled := by
  intro hscheduled
  have hsame := hmax (.complete idx) _ (.complete hscheduled)
  have hlt : idx < states.length := by
    apply lt_of_stateAt_ne
    rw [hscheduled]
    exact TaskState.noConfusion
  have hset := stateAt_set hlt (outcome idx).1 idx
  rw [hsame, hscheduled, if_pos rfl] at hset
  have hterminal := (outcome idx).2
  rw [← hset] at hterminal
  cases hterminal

theorem stateAt_eq_iff_mem {state : TaskState} (hstate : state ≠ .none) :
    (∃ idx, stateAt states idx = state) ↔ state ∈ states := by
  rw [List.mem_iff_getElem?]
  constructor
  · rintro ⟨idx, hidx⟩
    have hlt : idx < states.length := lt_of_stateAt_ne (hidx ▸ hstate)
    refine ⟨idx, ?_⟩
    simpa [stateAt, List.getElem?_eq_getElem hlt] using hidx
  · rintro ⟨idx, hidx⟩
    exact ⟨idx, by rw [stateAt, hidx, Option.getD_some]⟩

theorem maximal_iff (hlength : states.length = dag.nodes.length) :
    Maximal dag outcome states ↔ pass dag states = [] ∧ .scheduled ∉ states := by
  have hmem : (∃ idx, stateAt states idx = .scheduled) ↔ .scheduled ∈ states :=
    stateAt_eq_iff_mem TaskState.noConfusion
  constructor
  · intro hmax
    have hpass := pass_sweep hlength
    rw [hmax.sweep_eq] at hpass
    refine ⟨hpass, ?_⟩
    intro hscheduled
    obtain ⟨idx, hidx⟩ := hmem.mpr hscheduled
    exact hmax.not_scheduled idx hidx
  · rintro ⟨hpass, hnone⟩ move next hstep
    cases hstep with
    | pass =>
        rw [sweep, hpass]
        rfl
    | @complete idx hscheduled => exact absurd (hmem.mp ⟨idx, hscheduled⟩) hnone

/-- Where nothing can change, every node is terminal, in the state that it settles in. -/
theorem OnTime.terminal (htime : OnTime dag outcome moves states)
    (hmax : Maximal dag outcome states) {idx : ℕ} {node : Node T}
    (hnode : dag.nodes[idx]? = some node) :
    (stateAt states idx).isTerminal = true ∧
      stateAt states idx = (node.verdict states).settles (outcome idx) := by
  induction idx using Nat.strong_induction_on generalizing node with
  | _ idx ih =>
      have hlength := htime.explained.length_eq
      have hup : ∀ up ∈ node.upstream, (stateAt states up).isTerminal = true := by
        intro up hup
        have hearlier := dag.upstream_lt_of_getElem? hnode hup
        have hidx := (List.getElem?_eq_some_iff.mp hnode).1
        have hup' : up < dag.nodes.length := by omega
        have hupNode : dag.nodes[up]? = some dag.nodes[up] := List.getElem?_eq_getElem hup'
        exact (ih up hearlier hupNode).1
      have hne : stateAt states idx ≠ .none := by
        -- a pending node would be decided by one more pass
        intro hpending
        have hdemands := stateAt_sweep_of_eq hlength hnode hpending
        rw [hmax.sweep_eq, hpending] at hdemands
        exact evaluate_ne_wait hup (verdict_eq_wait hdemands.symm)
      cases htime.explained.explained idx node hnode hne with
      | inl hfired =>
          obtain ⟨hfire, hstate⟩ := hfired
          rw [hfire]
          cases hstate with
          | inl hactive => exact absurd (htime.scheduled idx hactive) (hmax.not_scheduled idx)
          | inr hended => exact hended
      | inr hpropagate =>
          rw [hpropagate]
          exact ⟨TaskState.isTerminal_of_isPropagated (isPropagated_of_evaluate hpropagate), rfl⟩

theorem OnTime.concluded (htime : OnTime dag outcome moves states)
    (hmax : Maximal dag outcome states) : Concluded dag outcome states where
  length_eq := htime.explained.length_eq
  settles _ _ hnode := (htime.terminal hmax hnode).2

theorem OnTime.mem_completed (htime : OnTime dag outcome moves states)
    (hmax : Maximal dag outcome states) {idx : ℕ} :
    idx ∈ completed moves ↔ ∃ node, dag.nodes[idx]? = some node ∧ node.verdict states = .fire := by
  constructor
  · intro hidx
    have hlt := htime.within idx hidx
    have hnode : dag.nodes[idx]? = some dag.nodes[idx] := List.getElem?_eq_getElem hlt
    exact ⟨_, hnode, ((htime.ran idx _ hnode).mp hidx).1⟩
  · rintro ⟨node, hnode, hfire⟩
    exact (htime.ran idx node hnode).mpr ⟨hfire, (htime.terminal hmax hnode).1⟩

end Maximal

section Termination

variable {dag : Dag T} {outcome : ℕ → BodyOutcome} {moves : List JobMove}
  {states next : List TaskState} {move : JobMove}

/-- The changes that are left to a node. -/
def TaskState.remaining (state : TaskState) : ℕ :=
  if state = .none then 2 else if state.isTerminal = true then 0 else 1

theorem TaskState.remaining_lt {state : TaskState} (hstate : state ≠ .none) :
    state.remaining < TaskState.none.remaining := by
  cases state <;> first | exact absurd rfl hstate | decide

/-- The changes that are left to the nodes of a graph. -/
def remaining (dag : Dag T) (states : List TaskState) : ℕ :=
  ∑ idx ∈ Finset.range dag.nodes.length, (stateAt states idx).remaining

/-- A vector whose nodes have each changed on or not at all, one of them on, has less left. -/
theorem remaining_lt_of_change (hlength : states.length = dag.nodes.length)
    (hlength' : next.length = dag.nodes.length) (hne : next ≠ states)
    (hchange : ∀ idx, stateAt next idx = stateAt states idx ∨
      (stateAt next idx).remaining < (stateAt states idx).remaining) :
    remaining dag next < remaining dag states := by
  have hsome : ∃ idx < next.length, stateAt next idx ≠ stateAt states idx := by
    by_contra hnone
    apply hne
    apply ext_stateAt (hlength'.trans hlength.symm)
    intro idx hidx
    by_contra hdiffers
    exact hnone ⟨idx, hidx, hdiffers⟩
  apply Finset.sum_lt_sum
  · intro idx _
    cases hchange idx with
    | inl hsame => rw [hsame]
    | inr hless => exact hless.le
  · obtain ⟨idx, hidx, hdiffers⟩ := hsome
    rw [hlength'] at hidx
    exact ⟨idx, Finset.mem_range.mpr hidx, (hchange idx).resolve_left hdiffers⟩

theorem JobStep.remaining_lt (hstep : JobStep dag outcome states move next)
    (hlength : states.length = dag.nodes.length) (hne : next ≠ states) :
    remaining dag next < remaining dag states := by
  cases hstep with
  | pass =>
      apply remaining_lt_of_change hlength (length_sweep hlength) hne
      intro idx
      by_cases hpending : stateAt states idx = .none
      · by_cases hstill : stateAt (sweep dag states) idx = .none
        · exact .inl (hstill.trans hpending.symm)
        · rw [hpending]
          exact .inr (TaskState.remaining_lt hstill)
      · exact .inl (stateAt_sweep_of_ne hlength hpending)
  | @complete idx hscheduled =>
      have hlt : idx < states.length := by
        apply lt_of_stateAt_ne
        rw [hscheduled]
        exact TaskState.noConfusion
      apply remaining_lt_of_change hlength (by rw [List.length_set, hlength]) hne
      intro other
      rw [stateAt_set hlt]
      by_cases hsame : other = idx
      · right
        have hterminal := (outcome idx).2
        rw [if_pos hsame, hsame, hscheduled, TaskState.remaining,
          if_neg (TaskState.ne_none_of_isTerminal hterminal), if_pos hterminal]
        decide
      · rw [if_neg hsame]
        exact .inl rfl

/-- Every run goes on to a maximal one, so the timing decides nothing about an end that is
always reached. -/
theorem JobRun.exists_maximal (hrun : JobRun dag outcome moves states) :
    ∃ more states', JobRun dag outcome (moves ++ more) states' ∧ Maximal dag outcome states' := by
  induction hleft : remaining dag states using Nat.strong_induction_on generalizing moves states
    with
  | _ left ih =>
      by_cases hmax : Maximal dag outcome states
      · exact ⟨[], states, by simpa using hrun, hmax⟩
      · simp only [Maximal, not_forall] at hmax
        obtain ⟨move, next, hstep, hne⟩ := hmax
        have hless := hstep.remaining_lt hrun.onTime.explained.length_eq hne
        rw [hleft] at hless
        obtain ⟨more, states', hrun', hmax'⟩ := ih _ hless (.step hrun hstep) rfl
        exact ⟨move :: more, states', by simpa using hrun', hmax'⟩

end Termination

/-- Every job comes to one end. The graph and the bodies fix the states in which a job ends,
and from whatever a run has reached more steps lead there: every node is terminal, where its
upstream and its own body leave it; the settle check has a verdict; and the nodes that ran by
then are those whose rule fires. -/
theorem job_concludes (dag : Dag T) (outcome : ℕ → BodyOutcome) :
    ∃ ended, Concluded dag outcome ended ∧ Maximal dag outcome ended ∧
      (∀ idx < ended.length, (stateAt ended idx).isTerminal = true) ∧
      settle dag ended = .settled (leafOutcome dag ended) ∧
      ∀ moves states, JobRun dag outcome moves states →
        ∃ more, JobRun dag outcome (moves ++ more) ended ∧
          ∀ idx, idx ∈ completed (moves ++ more) ↔
            ∃ node, dag.nodes[idx]? = some node ∧ node.verdict ended = .fire := by
  obtain ⟨first, ended, hfirst, hmax⟩ :=
    (JobRun.start : JobRun dag outcome [] (pendingStates dag)).exists_maximal
  have hended := hfirst.onTime.concluded hmax
  have hterminal : ∀ idx < ended.length, (stateAt ended idx).isTerminal = true := by
    intro idx hidx
    rw [hended.length_eq] at hidx
    exact (hfirst.onTime.terminal hmax (List.getElem?_eq_getElem hidx)).1
  refine ⟨ended, hended, hmax, hterminal, settle_eq_settled_iff.mpr ⟨hterminal, rfl⟩, ?_⟩
  intro moves states hrun
  obtain ⟨more, others, hothers, hmax'⟩ := hrun.exists_maximal
  -- the equations of a settled job have one solution
  have hsame := (hothers.onTime.concluded hmax').unique hended
  subst hsame
  exact ⟨more, hothers, fun idx => hothers.onTime.mem_completed hmax'⟩

/-- Timing decides nothing. Two maximal runs of a graph whose bodies end the same way run
the same nodes, each once, and end in the same states; and a pass right after a pass has no
action, whatever the states were. -/
theorem job_confluent (dag : Dag T) (outcome : ℕ → BodyOutcome) :
    (∀ moves moves' states states',
      JobRun dag outcome moves states → Maximal dag outcome states →
      JobRun dag outcome moves' states' → Maximal dag outcome states' →
      (completed moves).Perm (completed moves') ∧ states = states') ∧
    (∀ states, states.length = dag.nodes.length →
      pass dag (sweep dag states) = [] ∧ sweep dag (sweep dag states) = sweep dag states) := by
  constructor
  · intro moves moves' states states' hrun hmax hrun' hmax'
    have hsame := (hrun.onTime.concluded hmax).unique (hrun'.onTime.concluded hmax')
    subst hsame
    constructor
    · rw [List.perm_ext_iff_of_nodup hrun.onTime.once hrun'.onTime.once]
      intro idx
      rw [hrun.onTime.mem_completed hmax, hrun'.onTime.mem_completed hmax']
    · rfl
  · intro states hlength
    exact ⟨pass_sweep hlength, sweep_sweep hlength⟩

/-- A graph of every rule: two branches after a source, one that reports a failure of either,
and a teardown node. -/
def branches : Dag ℕ :=
  let policy : NodePolicy :=
    { retries := 2, classRule := .fromRun, escalateOnOom := false, segment := none }
  let node (taskId : ℕ) (triggerRule : TriggerRule) (upstream : List ℕ) : Node ℕ :=
    { taskId, kind := .pod, inputNames := [], writesLake := false, triggerRule,
      teardown := taskId == 5, policy, upstream }
  { nodes := [node 0 .allSucceeded [], node 1 .allSucceeded [0], node 2 .allSucceeded [0],
      node 3 .anyFailed [1, 2], node 4 .allSucceeded [1, 2], node 5 .allTerminal [3, 4]]
    upstream_lt := by decide
    nodup := by decide }

/-- The second branch fails. -/
def secondFails (idx : ℕ) : BodyOutcome :=
  if idx = 2 then ⟨.failed, rfl⟩ else ⟨.succeeded, rfl⟩

theorem JobRun.pass_to {dag : Dag T} {outcome : ℕ → BodyOutcome} {moves : List JobMove}
    {states next : List TaskState} (hrun : JobRun dag outcome moves states)
    (hnext : sweep dag states = next) : JobRun dag outcome (moves ++ [.pass]) next :=
  hnext ▸ .step hrun (.pass states)

theorem JobRun.complete_to {dag : Dag T} {outcome : ℕ → BodyOutcome} {moves : List JobMove}
    {states next : List TaskState} (hrun : JobRun dag outcome moves states) (idx : ℕ)
    (hscheduled : stateAt states idx = .scheduled) (hnext : states.set idx (outcome idx).1 = next) :
    JobRun dag outcome (moves ++ [.complete idx]) next :=
  hnext ▸ .step hrun (.complete hscheduled)

/-- The branches end in either order, and the teardown before or after the report. -/
theorem job_confluent_branches :
    ∃ moves moves' states,
      JobRun branches secondFails moves states ∧ JobRun branches secondFails moves' states ∧
      Maximal branches secondFails states ∧ moves ≠ moves' ∧
      (completed moves).Perm (completed moves') := by
  have hsource : JobRun branches secondFails [.pass, .complete 0, .pass]
      [.succeeded, .scheduled, .scheduled, .none, .none, .none] :=
    ((JobRun.start.pass_to rfl).complete_to 0 rfl rfl).pass_to rfl
  have hfirst := (((((hsource.complete_to 1 rfl rfl).pass_to rfl).complete_to 2 rfl
    rfl).pass_to rfl).complete_to 3 rfl rfl).pass_to rfl |>.complete_to 5 rfl rfl
  have hsecond := ((((hsource.complete_to 2 rfl rfl).complete_to 1 rfl rfl).pass_to
    rfl).complete_to 3 rfl rfl).pass_to rfl |>.complete_to 5 rfl rfl
  have hmax : Maximal branches secondFails
      [.succeeded, .succeeded, .failed, .succeeded, .upstreamFailed, .succeeded] :=
    (maximal_iff rfl).mpr (by decide)
  obtain ⟨hperm, _⟩ := (job_confluent branches secondFails).1 _ _ _ _ hfirst hmax hsecond hmax
  exact ⟨_, _, _, hfirst, hsecond, hmax, by decide, hperm⟩

end EntityResolution.Executor
