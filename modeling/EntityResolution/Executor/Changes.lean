/-
# What the statements change

Most statements move a live row along its lifecycle and leave its work order alone. `KeepsOrder`
says what such a change may do: it keeps the liveness of the row and everything that matters of a
terminal row, and it leads into a state that holds a work order only from such a state, with the
same order. `Quiet` adds that the change claims nothing.

The statements that do more are the two that pin a work order, the archiving ones, and the
inserts; the lemmas on the inserts say which rows they add.
-/

import EntityResolution.Foundations.Histories
import EntityResolution.Executor.ControlPlane

namespace EntityResolution.Executor

open EntityResolution.Collections EntityResolution.Histories EntityResolution.Statements

universe u v w

variable {J : Type u} {T : Type v} {V : Type w} [LinearOrder J] [LinearOrder T]

/-- The states in which a live row holds a work order. -/
def TaskState.isPinned : TaskState → Bool
  | .scheduled | .queued | .running | .upForRetry => true
  | .succeeded | .skipped | .failed | .timedOut => true
  | _ => false

/-- A change that keeps the standing of a row and its work order. -/
structure KeepsOrder (old new : TaskInstance J T V) : Prop where
  live : new.live = old.live
  terminal : old.state.isTerminal = true →
    new.state = old.state ∧ new.output = old.output ∧ new.input = old.input
  pinned : new.state.isPinned = true → old.state.isPinned = true ∧ new.input = old.input
  output : new.state.isTerminal = false → new.output = old.output

/-- A change that claims nothing: a row is claimed, or ends after having run, only if it was
claimed or had ended so. -/
structure Quiet (old new : TaskInstance J T V) : Prop extends KeepsOrder old new where
  claimed : new.state.isClaimed = true → old.state.isClaimed = true
  ended : new.state.isTerminal = true → new.state.isPinned = true →
    old.state = new.state ∨ old.state.isClaimed = true

omit [LinearOrder J] [LinearOrder T] in
/-- A pending row that moves to a state without a work order, with its liveness and its output,
changes quietly. -/
theorem Quiet.of_unpinned {old new : TaskInstance J T V} (hlive : new.live = old.live)
    (houtput : new.output = old.output) (hpending : old.state.isTerminal = false)
    (hunpinned : new.state.isPinned = false) : Quiet old new where
  live := hlive
  terminal hterminal := by
    rw [hpending] at hterminal
    cases hterminal
  pinned hpinned := by
    rw [hunpinned] at hpinned
    cases hpinned
  output _ := houtput
  claimed hclaimed := by
    cases hstate : new.state <;> rw [hstate] at hclaimed hunpinned <;> cases hclaimed <;>
      cases hunpinned
  ended _ hpinned := by
    rw [hunpinned] at hpinned
    cases hpinned

omit [LinearOrder J] [LinearOrder T] in
/-- A claimed row that stays in its states with a work order, the order kept, changes quietly. -/
theorem Quiet.of_claimed {old new : TaskInstance J T V} (hlive : new.live = old.live)
    (hinput : new.input = old.input) (hclaimed : old.state.isClaimed = true)
    (houtput : new.state.isTerminal = false → new.output = old.output) : Quiet old new where
  live := hlive
  terminal hterminal := by
    cases hstate : old.state <;> rw [hstate] at hclaimed hterminal <;> cases hclaimed <;>
      cases hterminal
  pinned _ := by
    refine ⟨?_, hinput⟩
    cases hstate : old.state <;> rw [hstate] at hclaimed <;> first | rfl | cases hclaimed
  output := houtput
  claimed _ := hclaimed
  ended _ _ := .inr hclaimed

omit [LinearOrder J] [LinearOrder T] in
/-- A change of other columns is quiet. -/
theorem Quiet.of_same {old new : TaskInstance J T V} (hlive : new.live = old.live)
    (hstate : new.state = old.state) (hinput : new.input = old.input)
    (houtput : new.output = old.output) : Quiet old new where
  live := hlive
  terminal _ := ⟨hstate, houtput, hinput⟩
  pinned hpinned := ⟨hstate ▸ hpinned, hinput⟩
  output _ := houtput
  claimed hclaimed := hstate ▸ hclaimed
  ended _ _ := .inl hstate.symm

theorem onLive_hit {id k : AttemptId J T} {condition : TaskInstance J T V → Bool}
    {set : TaskInstance J T V → TaskInstance J T V} {row : TaskInstance J T V} :
    (onLive id condition set).hit k row = true ↔
      k = id ∧ row.live = true ∧ condition row = true := by
  simp only [onLive, Bool.and_eq_true, decide_eq_true_eq, and_assoc]

omit [LinearOrder T] in
theorem onLiveOf_hit {job : J} {k : AttemptId J T} {condition : T → TaskInstance J T V → Bool}
    {set : AttemptId J T → TaskInstance J T V → TaskInstance J T V} {row : TaskInstance J T V} :
    (onLiveOf job condition set).hit k row = true ↔
      k.job = job ∧ row.live = true ∧ condition k.task row = true := by
  simp only [onLiveOf, Bool.and_eq_true, decide_eq_true_eq, and_assoc]

theorem TaskState.isTerminal_of_isClaimed {state : TaskState} (hstate : state.isClaimed = true) :
    state.isTerminal = false := by
  cases state <;> first | rfl | cases hstate

theorem TaskState.isTerminal_of_isWaiting {state : TaskState} (hstate : state.isWaiting = true) :
    state.isTerminal = false := by
  cases state <;> first | rfl | cases hstate

theorem TaskState.isPinned_of_isClaimed {state : TaskState} (hstate : state.isClaimed = true) :
    state.isPinned = true := by
  cases state <;> first | rfl | cases hstate

theorem TaskState.isPinned_of_isClaimable {state : TaskState}
    (hstate : state.isClaimable = true) : state.isPinned = true := by
  cases state <;> first | rfl | cases hstate

theorem TaskState.isTerminal_of_isClaimable {state : TaskState}
    (hstate : state.isClaimable = true) : state.isTerminal = false := by
  cases state <;> first | rfl | cases hstate

theorem TaskState.isPinned_of_isPropagated {state : TaskState}
    (hstate : state.isPropagated = true) : state.isPinned = false := by
  cases state <;> first | rfl | cases hstate

/-- Every single task statement is quiet. -/
theorem TaskStatement.quiet {statement : TaskStatement J T V} {id : AttemptId J T}
    {row : TaskInstance J T V} (hhit : statement.update.hit id row = true) :
    Quiet row (statement.update.set id row) := by
  cases statement with
  | start | capacityWait =>
      have hcondition := (onLive_hit.mp hhit).2.2
      simp only [Bool.and_eq_true, beq_iff_eq] at hcondition
      apply Quiet.of_claimed
      · rfl
      · rfl
      · simp [TaskState.isClaimed, hcondition]
      · intro _
        rfl
  | finish _ _ skipped | finishControl _ _ skipped =>
      have hcondition := (onLive_hit.mp hhit).2.2
      simp only [Bool.and_eq_true, beq_iff_eq] at hcondition
      apply Quiet.of_claimed
      · rfl
      · rfl
      · simp [TaskState.isClaimed, hcondition]
      · -- both ends of the row are terminal
        intro hpending
        cases skipped <;> cases hpending
  | requeueLaunch =>
      have hcondition := (onLive_hit.mp hhit).2.2
      simp only [Bool.and_eq_true] at hcondition
      apply Quiet.of_claimed
      · rfl
      · rfl
      · exact hcondition.1.1
      · intro _
        rfl
  | noteInterruption | recordEvidence | adopt =>
      apply Quiet.of_same
      · rfl
      · rfl
      · rfl
      · rfl
  | cancelPending =>
      simp only [TaskStatement.update, Executor.cancelPending, onLiveOf_hit,
        Bool.and_eq_true] at hhit
      have hcondition := hhit.2.2
      apply Quiet.of_unpinned
      · rfl
      · rfl
      · exact TaskState.isTerminal_of_isWaiting hcondition.1
      · rfl
  | cancelLive =>
      simp only [TaskStatement.update, Executor.cancelLive, onLiveOf_hit, Bool.and_eq_true,
        Bool.or_eq_true, beq_iff_eq] at hhit
      have hcondition := hhit.2.2
      apply Quiet.of_unpinned
      · rfl
      · rfl
      · rcases hcondition.1 with hclaimed | hrestarting
        · exact TaskState.isTerminal_of_isClaimed hclaimed
        · rw [hrestarting]
          rfl
      · rfl
  | settleCanceled =>
      have hcondition := (onLive_hit.mp hhit).2.2
      simp only [Bool.and_eq_true, beq_iff_eq] at hcondition
      apply Quiet.of_unpinned
      · rfl
      · rfl
      · rw [hcondition.1]
        rfl
      · rfl

theorem archiveTry_only {jobs : JobTable J V} {id k : AttemptId J T} {failure : TaskFailure J T}
    {row : TaskInstance J T V} (hhit : (archiveTry jobs id failure).hit k row = true) :
    k = id := by
  simp only [archiveTry, Bool.and_eq_true, decide_eq_true_eq] at hhit
  exact hhit.1.1.1.1

/-- A failure that is not retried ends the live row. -/
theorem archiveTry_quiet {jobs : JobTable J V} {id k : AttemptId J T} {failure : TaskFailure J T}
    {row : TaskInstance J T V} (hhit : (archiveTry jobs id failure).hit k row = true)
    (hkept : retries failure k row = false) :
    Quiet row ((archiveTry jobs id failure).set k row) := by
  simp only [archiveTry, Bool.and_eq_true] at hhit
  apply Quiet.of_claimed
  · simp [archiveTry, hkept, hhit]
  · rfl
  · exact hhit.1.1.2
  · intro _
    rfl

theorem claimLaunch_only {id k : AttemptId J T} {ownerEpoch : String}
    {k8sJobName : Option (JobName J T)} {row : TaskInstance J T V}
    (hhit : (claimLaunch id ownerEpoch k8sJobName).hit k row = true) : k = id :=
  of_decide_eq_true hhit

theorem claimControl_only {id k : AttemptId J T} {ownerEpoch : String}
    {row : TaskInstance J T V} (hhit : (claimControl id ownerEpoch).hit k row = true) : k = id :=
  of_decide_eq_true hhit

/-- What an insert of a successor does when it succeeds: nothing, or it adds the next try of an
archived row whose task has no live row. -/
theorem insertSuccessor_cases {tasks later : TaskTable J T V} {id : AttemptId J T}
    {reasons : List ArchivedReason} {successor : TaskInstance J T V → TaskInstance J T V}
    (hlater : insertSuccessor tasks id reasons successor = some later) :
    later = tasks ∨
      ∃ row, tasks[id]? = some row ∧ row.live = false ∧
        (∃ reason ∈ reasons, row.archivedReason = some reason) ∧
        liveRow tasks id.job id.task = none ∧ tasks[id.next]? = none ∧
        later = tasks.insert id.next (successor row) := by
  rw [insertSuccessor] at hlater
  cases hrow : tasks[id]? with
  | none =>
      rw [hrow] at hlater
      cases hlater
      exact .inl rfl
  | some row =>
      rw [hrow] at hlater
      dsimp only at hlater
      split at hlater
      · next hguard =>
          simp only [Bool.and_eq_true, Bool.not_eq_true', Option.isNone_iff_eq_none,
            Option.any_eq_true, List.contains_iff_mem] at hguard
          obtain ⟨⟨hdead, reason, hreason, hmem⟩, hnone⟩ := hguard
          rw [insertRow] at hlater
          split at hlater
          · cases hlater
          · next habsent =>
              cases hlater
              refine .inr ⟨row, rfl, hdead, ⟨reason, hmem, hreason⟩, hnone, ?_, rfl⟩
              rw [← Option.not_isSome_iff_eq_none, ← Std.ExtTreeMap.contains_eq_isSome_getElem?]
              exact habsent
      · cases hlater
        exact .inl rfl

theorem getElem?_of_insertSuccessor {tasks later : TaskTable J T V} {id k : AttemptId J T}
    {reasons : List ArchivedReason} {successor : TaskInstance J T V → TaskInstance J T V}
    {row : TaskInstance J T V} (hlater : insertSuccessor tasks id reasons successor = some later)
    (hrow : tasks[k]? = some row) : later[k]? = some row := by
  rcases insertSuccessor_cases hlater with rfl | ⟨_, _, _, _, _, habsent, rfl⟩
  · exact hrow
  · rw [BTreeMap.getElem?_insert_eq_ite, if_neg]
    · exact hrow
    · intro hsame
      rw [← hsame, habsent] at hrow
      cases hrow

theorem exists_live_of_insertSuccessor {tasks later : TaskTable J T V} {id : AttemptId J T}
    {reasons : List ArchivedReason} {successor : TaskInstance J T V → TaskInstance J T V}
    {row : TaskInstance J T V} {reason : ArchivedReason}
    (hlater : insertSuccessor tasks id reasons successor = some later)
    (hrow : tasks[id]? = some row) (hdead : row.live = false)
    (hreason : row.archivedReason = some reason) (hmem : reason ∈ reasons)
    (hlive : (successor row).live = true) :
    ∃ number new, later[(⟨id.job, id.task, number⟩ : AttemptId J T)]? = some new ∧
      new.live = true := by
  cases htaken : liveRow tasks id.job id.task with
  | some entry =>
      -- another row is live, so the insert does nothing
      obtain ⟨hentry, hjob, htask, hentryLive⟩ := liveRow_some htaken
      have hsame : later = tasks := by
        rcases insertSuccessor_cases hlater with hsame | ⟨_, _, _, _, hnone, _⟩
        · exact hsame
        · rw [htaken] at hnone
          cases hnone
      refine ⟨entry.1.tryNumber, entry.2, ?_, hentryLive⟩
      rw [hsame, ← hjob, ← htask]
      exact hentry
  | none =>
      have hguard : (!row.live && row.archivedReason.any (reasons.contains ·) &&
          (liveRow tasks id.job id.task).isNone) = true := by
        simp [hdead, hreason, htaken, hmem]
      rw [insertSuccessor, hrow] at hlater
      dsimp only at hlater
      rw [if_pos hguard, insertRow] at hlater
      split at hlater
      · cases hlater
      · cases hlater
        refine ⟨id.tryNumber + 1, successor row, ?_, hlive⟩
        exact (BTreeMap.getElem?_insert_eq_ite tasks _ _ _).trans (if_pos rfl)

/-- Planning one node adds its first try unless the key is taken. -/
theorem planNode_spec (jobId : J) (job : Job J V) (tasks : TaskTable J T V)
    (entry : Node T × ℕ) :
    (∀ (id : AttemptId J T) row, tasks[id]? = some row →
      (planNode jobId job tasks entry)[id]? = some row) ∧
    (∀ (id : AttemptId J T) row, (planNode jobId job tasks entry)[id]? = some row →
      tasks[id]? = some row ∨
        tasks[id]? = none ∧ id = ⟨jobId, entry.1.taskId, 1⟩ ∧ row = plannedRow job entry) ∧
    (∃ row, (planNode jobId job tasks entry)[
      (⟨jobId, entry.1.taskId, 1⟩ : AttemptId J T)]? = some row) := by
  rw [planNode]
  by_cases htaken : tasks.contains (⟨jobId, entry.1.taskId, 1⟩ : AttemptId J T) = true
  · rw [if_pos htaken]
    refine ⟨?_, ?_, ?_⟩
    · intro id row hrow
      exact hrow
    · intro id row hrow
      exact .inl hrow
    rw [Std.ExtTreeMap.contains_eq_isSome_getElem?, Option.isSome_iff_exists] at htaken
    exact htaken
  · rw [if_neg htaken]
    have habsent : tasks[(⟨jobId, entry.1.taskId, 1⟩ : AttemptId J T)]? = none := by
      rw [← Option.not_isSome_iff_eq_none, ← Std.ExtTreeMap.contains_eq_isSome_getElem?]
      exact htaken
    refine ⟨?_, ?_, ?_⟩
    · intro id row hrow
      rw [BTreeMap.getElem?_insert_eq_ite, if_neg]
      · exact hrow
      · intro hsame
        rw [← hsame, habsent] at hrow
        cases hrow
    · intro id row hrow
      rw [BTreeMap.getElem?_insert_eq_ite] at hrow
      split at hrow
      · next hsame =>
          cases hrow
          refine .inr ⟨?_, hsame.symm, rfl⟩
          rw [← hsame]
          exact habsent
      · exact .inl hrow
    · rw [BTreeMap.getElem?_insert_eq_ite, if_pos rfl]
      exact ⟨_, rfl⟩

/-- Planning adds first tries of the graph's tasks and changes no row. -/
theorem planNodes_spec (jobId : J) (job : Job J V) (entries : List (Node T × ℕ))
    (tasks : TaskTable J T V) :
    (∀ (id : AttemptId J T) row, tasks[id]? = some row →
      (entries.foldl (planNode jobId job) tasks)[id]? = some row) ∧
    (∀ (id : AttemptId J T) row, (entries.foldl (planNode jobId job) tasks)[id]? = some row →
      tasks[id]? = some row ∨
        tasks[id]? = none ∧ ∃ entry ∈ entries, id = ⟨jobId, entry.1.taskId, 1⟩ ∧
          row = plannedRow job entry) ∧
    (∀ entry ∈ entries, ∃ row, (entries.foldl (planNode jobId job) tasks)[
      (⟨jobId, entry.1.taskId, 1⟩ : AttemptId J T)]? = some row) := by
  induction entries generalizing tasks with
  | nil =>
      refine ⟨fun _ _ hrow => hrow, fun _ _ hrow => .inl hrow, ?_⟩
      intro entry hentry
      cases hentry
  | cons head entries ih =>
      rw [List.foldl_cons]
      obtain ⟨hkept, hadded, hpresent⟩ := planNode_spec jobId job tasks head
      obtain ⟨hkeptLater, haddedLater, hpresentLater⟩ := ih (planNode jobId job tasks head)
      refine ⟨?_, ?_, ?_⟩
      · intro id row hrow
        exact hkeptLater id row (hkept id row hrow)
      · intro id row hrow
        rcases haddedLater id row hrow with hearlier | ⟨habsent, entry, hentry, hid, hplanned⟩
        · rcases hadded id row hearlier with hbefore | ⟨habsent, hid, hplanned⟩
          · exact .inl hbefore
          · exact .inr ⟨habsent, head, List.mem_cons_self, hid, hplanned⟩
        · refine .inr ⟨?_, entry, List.mem_cons_of_mem _ hentry, hid, hplanned⟩
          cases hbefore : tasks[id]? with
          | none => rfl
          | some other =>
              rw [hkept id other hbefore] at habsent
              cases habsent
      · intro entry hentry
        rcases List.mem_cons.mp hentry with rfl | htail
        · obtain ⟨row, hrow⟩ := hpresent
          exact ⟨row, hkeptLater _ row hrow⟩
        · exact hpresentLater entry htail

end EntityResolution.Executor
