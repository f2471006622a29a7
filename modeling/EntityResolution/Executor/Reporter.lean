/-
# The in-process reporter

A dispatcher that runs a job in its own process reports the stages to the same ledger: it walks
the row of a stage through the statements that the executor uses, under the synthetic Job name
`inproc`. Each of its calls is a sequence of statements, every one committed on its own, so that
other dispatchers' statements come between them.

The walk uses the shared claim statements, and these take no row id: they pick the first
claimable row of the whole table. A call therefore stays with the rows of its own job exactly
when, at each of its claims, no claimable row of another job comes before all those of its own.
-/

import EntityResolution.Executor.Transitions

namespace EntityResolution.Executor

open EntityResolution.Collections EntityResolution.Statements

universe u v w

variable {J : Type u} {T : Type v} {V : Type w}

/-- The classes of a dispatcher failure. -/
inductive FailureClass
  | precondition
  | transientIo
  | config
  | internal
  deriving DecidableEq

/-- `FailureClass::as_str`. -/
def FailureClass.asStr : FailureClass → String
  | .precondition => "precondition"
  | .transientIo => "transient_io"
  | .config => "config"
  | .internal => "internal"

/-- The text occurs in the message. -/
def containsText (message text : String) : Bool :=
  message.toList.tails.any (text.toList.isPrefixOf ·)

/-- `FailureClass::classify`, on the texts that the dispatcher produces. -/
def FailureClass.classify (message : String) : FailureClass :=
  let m := message.toLower
  if ["org env missing", "no prior run", "no source deliveries", "no trained model",
      "no model yet", "has no drop_root", "param:"].any (containsText m ·) then .precondition
  else if "config:".toList.isPrefixOf m.toList || containsText m "read config" then .config
  else if ["open lake", "read model", "connection", "timed out", "timeout", "temporarily",
      "i/o error"].any (containsText m ·) then .transientIo
  else .internal

variable [LinearOrder J] [LinearOrder T]

/-- One planned job's task rows, as the reporter drives them; the rows were read by job. -/
structure PlannedRun (J : Type u) (T : Type v) [LinearOrder J] [LinearOrder T] where
  jobId : J
  clearNumber : ℕ
  rows : BTreeMap T (AttemptId J T)
  job_rows : ∀ (task : T) (id : AttemptId J T), rows[task]? = some id → id.job = jobId

/-- The statements that the reporter runs. -/
inductive ReporterStatement (J : Type u) (T : Type v) (V : Type w)
  | markScheduled (id : AttemptId J T) (input : WorkInput T V) (number : ℕ)
  | claimLaunch (ownerEpoch : String) (now : ℤ)
  | claimControl (ownerEpoch : String) (now : ℤ)
  | start (id : AttemptId J T) (podUid : String)
  | finish (id : AttemptId J T) (podUid : String)
  | finishControl (id : AttemptId J T) (ownerEpoch : String) (output : Option V)
  | failOrRetry (id : AttemptId J T) (failure : TaskFailure J T) (now hash : ℤ)
  | propagate (id : AttemptId J T) (state : TaskState) (number : ℕ)

/-- `start.sql` as the reporter calls it: no pod name, and the epoch as the pod's uid. -/
def startInproc (id : AttemptId J T) (podUid : String) : TaskUpdate J T V :=
  onLive id (fun row => row.state == .queued && row.k8sJobName == some .inproc) fun row =>
    { row with state := .running, podName := none, podUid := some podUid }

/-- Run the update of a claim for the row that its select picks. -/
def claimFirst (ledger : Ledger J T V) (locked : AttemptId J T → Bool)
    (claimable : AttemptId J T → TaskInstance J T V → Bool)
    (update : AttemptId J T → TaskUpdate J T V) : TaskTable J T V :=
  match pickClaim ledger locked claimable with
  | none => ledger.tasks
  | some id => (update id).run ledger.tasks

/-- The rows after a statement of the reporter. -/
def ReporterStatement.run (ledger : Ledger J T V) (locked : AttemptId J T → Bool) :
    ReporterStatement J T V → TaskTable J T V
  | .markScheduled id input number =>
      (Executor.markScheduled ledger.jobs id input number).run ledger.tasks
  | .claimLaunch ownerEpoch now =>
      claimFirst ledger locked (launchClaimable ledger now 1000000) fun id =>
        Executor.claimLaunch id ownerEpoch (some .inproc)
  | .claimControl ownerEpoch now =>
      claimFirst ledger locked (controlClaimable ledger now) fun id =>
        Executor.claimControl id ownerEpoch
  | .start id podUid => (startInproc id podUid).run ledger.tasks
  | .finish id podUid => (Executor.finish id podUid false .done none none).run ledger.tasks
  | .finishControl id ownerEpoch output =>
      (Executor.finishControl id ownerEpoch false .done output).run ledger.tasks
  | .failOrRetry id failure now hash => failOrRetryTask ledger id failure now hash
  | .propagate id state number => (Executor.propagate ledger.jobs id state number).run ledger.tasks

/-- The failure that the reporter records: never retried by the task. -/
def reportedFailure (detail : String) (k8sJobName : Option (JobName J T)) (backoff : ℕ × ℕ) :
    TaskFailure J T where
  terminalState := .failed
  retryable := false
  escalate := false
  exitCode := none
  terminationReason := none
  errorClass := some (FailureClass.classify detail).asStr
  errorDetail := some detail
  k8sJobName := k8sJobName
  backoff := backoff

/-- The calls of `AttemptReporter` after planning. -/
inductive ReporterCall (T : Type v) (V : Type w)
  | podStarted (task : T)
  | podSucceeded (task : T)
  | podFailed (task : T) (detail : String)
  | controlStarted (task : T)
  | controlSucceeded (task : T) (output : Option V)
  | controlFailed (task : T) (detail : String)
  | settle

/-- What a call needs besides its run: the epoch, the clock, the hash of its row's key, and the
document that marks a work order as in-process. -/
structure ReporterContext (V : Type w) where
  epoch : String
  now : ℤ
  hash : ℤ
  inproc : V

/-- The state that the settle call records for an action: a rule that would fire on a stopped run
records `canceled`. -/
def settledState : PassAction → TaskState
  | .schedule => .canceled
  | .propagate state => state

/-- The statements of the settle call, from the rows it read. -/
def settleStatements (dag : Dag T) (run : PlannedRun J T) (read : TaskTable J T V) :
    List (ReporterStatement J T V) :=
  let states := dag.nodes.map fun node =>
    ((liveRow read run.jobId node.taskId).map fun entry => entry.2.state).getD .none
  (pass dag states).filterMap fun action =>
    (dag.nodes[action.1]?).bind fun node =>
      (run.rows[node.taskId]?).map fun id =>
        .propagate id (settledState action.2) run.clearNumber

/-- The statements of a call, in order. A call for a task without a row runs none; `read` is what
the settle call reads first. -/
def ReporterCall.statements (dag : Dag T) (context : ReporterContext V) (run : PlannedRun J T)
    (read : TaskTable J T V) : ReporterCall T V → List (ReporterStatement J T V)
  | .podStarted task =>
      match run.rows[task]? with
      | none => []
      | some id =>
          [.markScheduled id ⟨[], context.inproc, none⟩ run.clearNumber,
            .claimLaunch context.epoch context.now, .start id context.epoch]
  | .podSucceeded task =>
      match run.rows[task]? with
      | none => []
      | some id => [.finish id context.epoch]
  | .podFailed task detail =>
      match run.rows[task]? with
      | none => []
      | some id =>
          [.markScheduled id ⟨[], context.inproc, none⟩ run.clearNumber,
            .claimLaunch context.epoch context.now,
            .failOrRetry id (reportedFailure detail (some .inproc) (30, 900)) context.now
              context.hash]
  | .controlStarted task =>
      match run.rows[task]? with
      | none => []
      | some id =>
          [.markScheduled id ⟨[], context.inproc, none⟩ run.clearNumber,
            .claimControl context.epoch context.now]
  | .controlSucceeded task output =>
      match run.rows[task]? with
      | none => []
      | some id => [.finishControl id context.epoch output]
  | .controlFailed task detail =>
      match run.rows[task]? with
      | none => []
      | some id =>
          [.markScheduled id ⟨[], context.inproc, none⟩ run.clearNumber,
            .claimControl context.epoch context.now,
            .failOrRetry id (reportedFailure detail none (5, 60)) context.now context.hash]
  | .settle => settleStatements dag run read

/-- Positions in claim order: by priority, job and sequence number. -/
def ClaimKey (J : Type u) : Type u := ℤ ×ₗ J ×ₗ ℕ

instance : LinearOrder (ClaimKey J) := inferInstanceAs (LinearOrder (ℤ ×ₗ J ×ₗ ℕ))

/-- The position of a row in claim order. -/
def claimKey (jobs : JobTable J V) (entry : AttemptId J T × TaskInstance J T V) : ClaimKey J :=
  toLex (-priorityOf jobs entry.1.job, toLex (entry.1.job, entry.2.seq))

omit [LinearOrder T] in
theorem claimedBefore_iff {jobs : JobTable J V}
    {first second : AttemptId J T × TaskInstance J T V} :
    claimedBefore jobs first second = true ↔ claimKey jobs first < claimKey jobs second := by
  have hlt : claimKey jobs first < claimKey jobs second ↔
      toLex (-priorityOf jobs first.1.job, toLex (first.1.job, first.2.seq)) <
        toLex (-priorityOf jobs second.1.job, toLex (second.1.job, second.2.seq)) := Iff.rfl
  rw [hlt, Prod.Lex.toLex_lt_toLex]
  simp only [claimedBefore, Bool.or_eq_true, Bool.and_eq_true, decide_eq_true_eq, beq_iff_eq,
    neg_lt_neg_iff, neg_inj]
  rw [eq_comm (a := priorityOf jobs second.1.job)]

omit [LinearOrder T] in
theorem job_eq_of_claimKey_eq {jobs : JobTable J V}
    {first second : AttemptId J T × TaskInstance J T V}
    (hkey : claimKey jobs first = claimKey jobs second) : first.1.job = second.1.job := by
  have hpair := congrArg (fun key : ℤ ×ₗ J ×ₗ ℕ => (ofLex (ofLex key).2).1) hkey
  exact hpair

omit [LinearOrder T] in
theorem foldl_keepFirst_spec {jobs : JobTable J V}
    (entries : List (AttemptId J T × TaskInstance J T V))
    (best : Option (AttemptId J T × TaskInstance J T V)) :
    (entries.foldl (keepFirst jobs) best = none → best = none ∧ entries = []) ∧
      ∀ kept, entries.foldl (keepFirst jobs) best = some kept →
        (∀ entry ∈ entries, claimKey jobs kept ≤ claimKey jobs entry) ∧
          ∀ entry, best = some entry → claimKey jobs kept ≤ claimKey jobs entry := by
  induction entries generalizing best with
  | nil =>
      refine ⟨fun hnone => ⟨hnone, rfl⟩, ?_⟩
      intro kept hkept
      refine ⟨by simp, ?_⟩
      intro entry hbest
      rw [List.foldl_nil, hbest, Option.some.injEq] at hkept
      rw [hkept]
  | cons head entries ih =>
      rw [List.foldl_cons]
      obtain ⟨hnone, hsome⟩ := ih (keepFirst jobs best head)
      -- what is kept of the head and the best row so far is at or before both
      have hstep : ∃ next, keepFirst jobs best head = some next ∧
          claimKey jobs next ≤ claimKey jobs head ∧
            ∀ entry, best = some entry → claimKey jobs next ≤ claimKey jobs entry := by
        cases best with
        | none =>
            refine ⟨head, rfl, le_rfl, ?_⟩
            intro entry hentry
            cases hentry
        | some old =>
            by_cases hbefore : claimedBefore jobs head old = true
            · refine ⟨head, by rw [keepFirst, if_pos hbefore], le_rfl, ?_⟩
              intro entry hentry
              cases hentry
              exact (claimedBefore_iff.mp hbefore).le
            · refine ⟨old, by rw [keepFirst, if_neg hbefore], ?_, ?_⟩
              · rw [claimedBefore_iff] at hbefore
                exact not_lt.mp hbefore
              · intro entry hentry
                cases hentry
                exact le_rfl
      obtain ⟨next, hnext, hhead, hbest⟩ := hstep
      refine ⟨?_, ?_⟩
      · intro hempty
        rw [hnext] at hnone
        cases (hnone (by rw [← hnext]; exact hempty)).1
      · intro kept hkept
        obtain ⟨hrest, hkeptNext⟩ := hsome kept hkept
        have hle := hkeptNext next hnext
        refine ⟨?_, ?_⟩
        · intro entry hentry
          rcases List.mem_cons.mp hentry with rfl | htail
          · exact hle.trans hhead
          · exact hrest entry htail
        · intro entry hentry
          exact hle.trans (hbest entry hentry)

/-- A row of another job that the claim may take and that comes before every such row of the
job. -/
def ForeignFirst (ledger : Ledger J T V) (locked : AttemptId J T → Bool)
    (claimable : AttemptId J T → TaskInstance J T V → Bool) (job : J) : Prop :=
  ∃ id row, ledger.tasks[id]? = some row ∧ claimable id row = true ∧ locked id = false ∧
    id.job ≠ job ∧
    ∀ own other, ledger.tasks[own]? = some other → claimable own other = true →
      locked own = false → own.job = job → claimedBefore ledger.jobs (id, row) (own, other) = true

theorem pickClaim_foreign_iff {ledger : Ledger J T V} {locked : AttemptId J T → Bool}
    {claimable : AttemptId J T → TaskInstance J T V → Bool} {job : J} :
    (∃ id, pickClaim ledger locked claimable = some id ∧ id.job ≠ job) ↔
      ForeignFirst ledger locked claimable job := by
  have hmem (entry : AttemptId J T × TaskInstance J T V) :
      entry ∈ ledger.tasks.toList.filter (fun entry =>
          claimable entry.1 entry.2 && !locked entry.1) ↔
        ledger.tasks[entry.1]? = some entry.2 ∧ claimable entry.1 entry.2 = true ∧
          locked entry.1 = false := by
    rw [List.mem_filter, BTreeMap.mem_toList]
    simp
  apply Iff.intro
  · intro h
    obtain ⟨id, hpick, hjob⟩ := h
    rw [pickClaim, Option.map_eq_some_iff] at hpick
    obtain ⟨kept, hkept, rfl⟩ := hpick
    have hkeptMem := (hmem kept).mp ((mem_of_foldl_keepFirst hkept).resolve_right
      (Option.some_ne_none kept).symm)
    refine ⟨kept.1, kept.2, hkeptMem.1, hkeptMem.2.1, hkeptMem.2.2, hjob, ?_⟩
    intro own other hown hclaimable hfree hsame
    have hle := ((foldl_keepFirst_spec _ _).2 kept hkept).1 (own, other)
      ((hmem _).mpr ⟨hown, hclaimable, hfree⟩)
    rw [claimedBefore_iff]
    -- rows of two jobs are never equal in claim order
    apply lt_of_le_of_ne hle
    intro hequal
    apply hjob
    rw [← hsame]
    exact job_eq_of_claimKey_eq hequal
  · intro h
    obtain ⟨id, row, hrow, hclaimable, hfree, hjob, hfirst⟩ := h
    have hentry := (hmem (id, row)).mpr ⟨hrow, hclaimable, hfree⟩
    cases hkept : (ledger.tasks.toList.filter (fun entry =>
        claimable entry.1 entry.2 && !locked entry.1)).foldl (keepFirst ledger.jobs) none with
    | none =>
        rw [((foldl_keepFirst_spec _ _).1 hkept).2] at hentry
        cases hentry
    | some kept =>
        have hkeptMem := (hmem kept).mp ((mem_of_foldl_keepFirst hkept).resolve_right
      (Option.some_ne_none kept).symm)
        refine ⟨kept.1, ?_, ?_⟩
        · rw [pickClaim, hkept, Option.map_some]
        · intro hsame
          have hle := ((foldl_keepFirst_spec _ _).2 kept hkept).1 _ hentry
          have hlt := claimedBefore_iff.mp
            (hfirst kept.1 kept.2 hkeptMem.1 hkeptMem.2.1 hkeptMem.2.2 hsame)
          exact lt_irrefl _ (lt_of_le_of_lt hle hlt)

/-! ## Whose rows a call changes -/

/-- The rows of every other job stay as they are. -/
def ChangesOnly (job : J) (tasks later : TaskTable J T V) : Prop :=
  ∀ id : AttemptId J T, id.job ≠ job → later[id]? = tasks[id]?

/-- At this state the statement is a claim, and a row of another job comes first. -/
def ReporterStatement.TakesForeign (job : J) (ledger : Ledger J T V)
    (locked : AttemptId J T → Bool) : ReporterStatement J T V → Prop
  | .claimLaunch _ now => ForeignFirst ledger locked (launchClaimable ledger now 1000000) job
  | .claimControl _ now => ForeignFirst ledger locked (controlClaimable ledger now) job
  | _ => False

theorem changesOnly_run {tasks : TaskTable J T V} {update : TaskUpdate J T V} {job : J}
    (hhit : ∀ id row, update.hit id row = true → id.job = job) :
    ChangesOnly job tasks (update.run tasks) := by
  intro id hjob
  rw [Update.getElem?_run]
  cases hrow : tasks[id]? with
  | none => rfl
  | some row =>
      rw [Option.map_some, Update.row, if_neg]
      intro hmatch
      exact hjob (hhit id row hmatch)

theorem changesOnly_onLive {tasks : TaskTable J T V} {id : AttemptId J T} {job : J}
    (hjob : id.job = job) (condition : TaskInstance J T V → Bool)
    (set : TaskInstance J T V → TaskInstance J T V) :
    ChangesOnly job tasks ((onLive id condition set).run tasks) := by
  apply changesOnly_run
  intro k row hhit
  rw [(onLive_hit.mp hhit).1]
  exact hjob

/-- Failing a try changes the rows of its task only. -/
theorem changesOnly_failOrRetryTask (ledger : Ledger J T V) {id : AttemptId J T} {job : J}
    (hjob : id.job = job) (failure : TaskFailure J T) (now hash : ℤ) :
    ChangesOnly job ledger.tasks (failOrRetryTask ledger id failure now hash) := by
  have harchive : ChangesOnly job ledger.tasks
      ((archiveTry ledger.jobs id failure).run ledger.tasks) := by
    apply changesOnly_run
    intro k row hhit
    rw [archiveTry_only hhit]
    exact hjob
  rw [failOrRetryTask]
  split
  · exact fun _ _ => rfl
  · split
    · split
      · intro k hk
        cases hlater : insertRetryTry ((archiveTry ledger.jobs id failure).run ledger.tasks) id
            failure.escalate failure.backoff now hash with
        | none => rfl
        | some later =>
            rw [Option.getD_some, ← harchive k hk]
            rcases insertSuccessor_cases hlater with rfl | ⟨_, _, _, _, _, _, rfl⟩
            · rfl
            · rw [BTreeMap.getElem?_insert_eq_ite, if_neg]
              intro hsame
              apply hk
              rw [← hsame]
              exact hjob
      · exact harchive
    · exact fun _ _ => rfl

/-- A claim that changes the row it takes stays with the rows of a job exactly when no row of
another job comes first. -/
theorem changesOnly_claimFirst_iff {ledger : Ledger J T V} {locked : AttemptId J T → Bool}
    {claimable : AttemptId J T → TaskInstance J T V → Bool}
    {update : AttemptId J T → TaskUpdate J T V} {job : J}
    (hhit : ∀ id k row, (update id).hit k row = true ↔ k = id)
    (hchanges : ∀ id row, claimable id row = true → (update id).set id row ≠ row) :
    ChangesOnly job ledger.tasks (claimFirst ledger locked claimable update) ↔
      ¬ ForeignFirst ledger locked claimable job := by
  rw [← pickClaim_foreign_iff]
  apply Iff.intro
  · intro honly hforeign
    obtain ⟨id, hpick, hjob⟩ := hforeign
    obtain ⟨_, row, hrow, hclaimable⟩ := pickClaim_some hpick
    have hsame := honly id hjob
    rw [claimFirst, hpick, Update.getElem?_run, hrow, Option.map_some, Update.row,
      if_pos ((hhit id id row).mpr rfl), Option.some.injEq] at hsame
    exact hchanges id row hclaimable hsame
  · intro hown
    rw [claimFirst]
    split
    · exact fun _ _ => rfl
    · next id hpick =>
        apply changesOnly_run
        intro k row hmatch
        rw [(hhit id k row).mp hmatch]
        by_contra hjob
        exact hown ⟨id, hpick, hjob⟩

/-- The row that a statement names, if it names one. -/
def ReporterStatement.row : ReporterStatement J T V → Option (AttemptId J T)
  | .markScheduled id _ _ | .start id _ | .finish id _ | .finishControl id _ _
  | .failOrRetry id _ _ _ | .propagate id _ _ => some id
  | .claimLaunch _ _ | .claimControl _ _ => none

/-- The rows that a call names are rows of its run. -/
theorem job_of_mem_statements {dag : Dag T} {context : ReporterContext V} {run : PlannedRun J T}
    {read : TaskTable J T V} {call : ReporterCall T V} {statement : ReporterStatement J T V}
    (hstatement : statement ∈ call.statements dag context run read) {id : AttemptId J T}
    (hrow : statement.row = some id) : id.job = run.jobId := by
  cases call with
  | podStarted task | podFailed task | controlFailed task =>
      rw [ReporterCall.statements] at hstatement
      split at hstatement
      · cases hstatement
      · next own hown =>
          simp only [List.mem_cons, List.not_mem_nil, or_false] at hstatement
          obtain rfl | rfl | rfl := hstatement
          · cases hrow
            exact run.job_rows task _ hown
          · cases hrow
          · cases hrow
            exact run.job_rows task _ hown
  | controlStarted task =>
      rw [ReporterCall.statements] at hstatement
      split at hstatement
      · cases hstatement
      · next own hown =>
          simp only [List.mem_cons, List.not_mem_nil, or_false] at hstatement
          obtain rfl | rfl := hstatement
          · cases hrow
            exact run.job_rows task _ hown
          · cases hrow
  | podSucceeded task | controlSucceeded task =>
      rw [ReporterCall.statements] at hstatement
      split at hstatement
      · cases hstatement
      · next own hown =>
          rw [List.mem_singleton] at hstatement
          subst hstatement
          cases hrow
          exact run.job_rows task _ hown
  | settle =>
      rw [ReporterCall.statements, settleStatements, List.mem_filterMap] at hstatement
      obtain ⟨action, _, hnode⟩ := hstatement
      obtain ⟨node, _, hnode⟩ := Option.bind_eq_some_iff.mp hnode
      obtain ⟨own, hown, rfl⟩ := Option.map_eq_some_iff.mp hnode
      cases hrow
      exact run.job_rows node.taskId _ hown

/-- A statement of a call stays with the rows of the run's job exactly when it does not claim a
row of another job. -/
theorem changesOnly_statement_iff {dag : Dag T} {context : ReporterContext V}
    {run : PlannedRun J T} {read : TaskTable J T V} {call : ReporterCall T V}
    {statement : ReporterStatement J T V}
    (hstatement : statement ∈ call.statements dag context run read) (ledger : Ledger J T V)
    (locked : AttemptId J T → Bool) :
    ChangesOnly run.jobId ledger.tasks (statement.run ledger locked) ↔
      ¬ statement.TakesForeign run.jobId ledger locked := by
  cases statement with
  | markScheduled id | start id | finish id | finishControl id | propagate id =>
      have hjob : id.job = run.jobId := job_of_mem_statements hstatement rfl
      apply iff_of_true
      · exact changesOnly_onLive hjob _ _
      · exact not_false
  | failOrRetry id failure now hash =>
      have hjob : id.job = run.jobId := job_of_mem_statements hstatement rfl
      apply iff_of_true
      · exact changesOnly_failOrRetryTask ledger hjob failure now hash
      · exact not_false
  | claimLaunch ownerEpoch now =>
      apply changesOnly_claimFirst_iff
      · intro id k row
        exact ⟨claimLaunch_only, fun hsame => decide_eq_true hsame⟩
      · intro id row hclaimable hsame
        simp only [launchClaimable, Bool.and_eq_true] at hclaimable
        have hstate : row.state = .queued := by rw [← hsame]; rfl
        simp [hstate, TaskState.isClaimable] at hclaimable
  | claimControl ownerEpoch now =>
      apply changesOnly_claimFirst_iff
      · intro id k row
        exact ⟨claimControl_only, fun hsame => decide_eq_true hsame⟩
      · intro id row hclaimable hsame
        simp only [controlClaimable, Bool.and_eq_true] at hclaimable
        have hstate : row.state = .running := by rw [← hsame]; rfl
        simp [hstate, TaskState.isClaimable] at hclaimable

/-- Whatever happens between the statements of a call, the call changes rows of its own job only
exactly when, at each of its claims, no claimable row of another job comes before those of its
own job. The states that the statements meet are arbitrary. -/
theorem call_changes_own_rows_iff (dag : Dag T) (context : ReporterContext V)
    (run : PlannedRun J T) (read : TaskTable J T V) (call : ReporterCall T V)
    (meets : ℕ → Ledger J T V × (AttemptId J T → Bool)) :
    (∀ idx (statement : ReporterStatement J T V),
        (call.statements dag context run read)[idx]? = some statement →
          ChangesOnly run.jobId (meets idx).1.tasks
            (statement.run (meets idx).1 (meets idx).2)) ↔
      ∀ idx (statement : ReporterStatement J T V),
        (call.statements dag context run read)[idx]? = some statement →
          ¬ statement.TakesForeign run.jobId (meets idx).1 (meets idx).2 := by
  apply forall_congr'
  intro idx
  apply forall_congr'
  intro statement
  apply imp_congr_right
  intro hstatement
  exact changesOnly_statement_iff (List.mem_of_getElem? hstatement) _ _

/-- A job of high priority whose only row waits for the executor, and a job that a dispatcher
reports. -/
def twoJobs : Ledger ℕ ℕ ℕ where
  jobs :=
    let job : Job ℕ ℕ :=
      { orgId := "a", priority := 1, params := 0, state := .running, runId := some 0,
        resourceClass := none, clearNumber := 0, notBefore := none, errorClass := none,
        errorDetail := none }
    ((∅ : JobTable ℕ ℕ).insert 0 job).insert 1
      { job with orgId := "b", priority := 0, runId := some 1 }
  tasks :=
    ((∅ : TaskTable ℕ ℕ ℕ).insert ⟨0, 0, 1⟩
      { TaskInstance.fresh .pod 0 false 2 3 with state := .scheduled }).insert ⟨1, 0, 1⟩
        (TaskInstance.fresh .pod 0 false 2 3)

/-- The dispatcher's run of the second job. -/
def reportedRun : PlannedRun ℕ ℕ where
  jobId := 1
  clearNumber := 0
  rows := (∅ : BTreeMap ℕ (AttemptId ℕ ℕ)).insert 0 ⟨1, 0, 1⟩
  job_rows task id hrow := by
    rw [BTreeMap.getElem?_insert_eq_ite] at hrow
    split at hrow
    · cases hrow
      rfl
    · simp at hrow

/-- Reporting the start of the second job's stage, with no other statement in between: the claim
takes the row of the first job, and marks it as launched in process. -/
theorem podStarted_takes_other_row :
    (((((ReporterCall.podStarted 0).statements ⟨[], nofun, List.nodup_nil⟩
    ⟨"epoch", 0, 0, 0⟩ reportedRun
        ∅).foldl (fun ledger statement =>
          { ledger with tasks := statement.run ledger fun _ => false }) twoJobs).tasks[
        (⟨0, 0, 1⟩ : AttemptId ℕ ℕ)]?).map fun row => (row.state, row.k8sJobName)) =
          some (.queued, some .inproc) ∧
      (twoJobs.tasks[(⟨0, 0, 1⟩ : AttemptId ℕ ℕ)]?).map TaskInstance.state =
        some .scheduled := by
  decide +kernel

end EntityResolution.Executor
