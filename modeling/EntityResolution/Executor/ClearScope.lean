/-
# The scope of a clear

A clear re-runs the tasks an operator selects. Its scope is computed on the compiled graph in two
sweeps: downward, everything that can be reached from the seeds; then upward, every input of a
task in the scope whose recorded output no longer exists, and the inputs of that input in turn.
The second sweep does not feed the first: what else reads the output of a drafted-in task stays
out of the scope.

The sweeps index the node list, so a seed outside the graph stops the computation.
-/

import EntityResolution.Executor.Assembly

namespace EntityResolution.Executor

open EntityResolution.StackSearch

universe u

variable {T : Type u}

/-- Does a durable reference still exist? -/
inductive ReferenceExistence
  | present
  | missing
  deriving DecidableEq

/-- The computed scope of a clear, by node index. -/
structure ClearPlan where
  mustRun : Finset ℕ
  demandedUpstream : Finset ℕ
  deriving DecidableEq

/-- The members of a set in ascending order. -/
def ascending (nodes : Finset ℕ) : List ℕ :=
  (List.range (nodes.sup id + 1)).filter fun node => node ∈ nodes

@[simp]
theorem mem_ascending {nodes : Finset ℕ} {node : ℕ} : node ∈ ascending nodes ↔ node ∈ nodes := by
  simp only [ascending, List.mem_filter, List.mem_range, decide_eq_true_eq, and_iff_right_iff_imp]
  intro hnode
  exact Nat.lt_succ_of_le (Finset.le_sup (f := id) hnode)

/-- One demanded input: it joins the scope when it is not in it and its output is missing. -/
def demandInput (probe : ℕ → ReferenceExistence) (sweep : ClearPlan × List ℕ) (up : ℕ) :
    ClearPlan × List ℕ :=
  if up ∈ sweep.1.mustRun then sweep
  else if probe up = .missing then
    ({ mustRun := insert up sweep.1.mustRun
       demandedUpstream := insert up sweep.1.demandedUpstream }, up :: sweep.2)
  else sweep

/-- The upward sweep; the frontier is a stack, and an index outside the graph panics. -/
def demandUpward (nodes : List (Node T)) (probe : ℕ → ReferenceExistence) :
    ℕ → ClearPlan → List ℕ → Option ClearPlan
  | 0, _, _ => none
  | _ + 1, plan, [] => some plan
  | fuel + 1, plan, idx :: frontier =>
      (nodes[idx]?).bind fun node =>
        let sweep := node.upstream.foldl (demandInput probe) (plan, frontier)
        demandUpward nodes probe fuel sweep.1 sweep.2

/-- The downward sweep from the seeds. -/
def closeDownward (nodes : List (Node T)) (seeds : Finset ℕ) : Option (Finset ℕ) :=
  fill (downstreamOf nodes) (seeds.card + nodes.length + 1) (ascending seeds).reverse seeds

/-- `clear_closure`: the downward sweep when it is asked for, then the upward one. -/
def clearClosure (nodes : List (Node T)) (seeds : List ℕ) (includeDownstream : Bool)
    (probe : ℕ → ReferenceExistence) : Option ClearPlan :=
  (if includeDownstream then closeDownward nodes seeds.toFinset else some seeds.toFinset).bind
    fun mustRun =>
      demandUpward nodes probe (mustRun.card + nodes.length + 1) ⟨mustRun, ∅⟩
        (ascending mustRun).reverse

/-- The inputs of a node whose output is missing. -/
def missingInputs (nodes : List (Node T)) (probe : ℕ → ReferenceExistence) (idx : ℕ) : List ℕ :=
  ((nodes[idx]?).elim [] Node.upstream).filter fun up => probe up = .missing

theorem mem_missingInputs {nodes : List (Node T)} {probe : ℕ → ReferenceExistence} {idx up : ℕ} :
    up ∈ missingInputs nodes probe idx ↔ idx ∈ downstreamOf nodes up ∧ probe up = .missing := by
  rw [missingInputs, List.mem_filter, decide_eq_true_eq, mem_downstreamOf]
  cases hnode : nodes[idx]? with
  | none => simp
  | some node => simp

theorem lt_of_mem_downstreamOf {nodes : List (Node T)} {idx down : ℕ}
    (hdown : down ∈ downstreamOf nodes idx) : down < nodes.length := by
  obtain ⟨node, hnode, _⟩ := mem_downstreamOf.mp hdown
  exact (List.getElem?_eq_some_iff.mp hnode).1

theorem UpstreamEarlier.lt {nodes : List (Node T)} (hearlier : UpstreamEarlier nodes)
    {idx up : ℕ} (hdown : idx ∈ downstreamOf nodes up) : up < idx := by
  obtain ⟨node, hnode, hup⟩ := mem_downstreamOf.mp hdown
  exact hearlier (node, idx) (List.mem_zipIdx_iff_getElem?.mpr hnode) up hup

theorem length_ascending (nodes : Finset ℕ) : (ascending nodes).length = nodes.card := by
  have hnodup : (ascending nodes).Nodup := List.nodup_range.filter _
  rw [← List.toFinset_card_of_nodup hnodup]
  congr 1
  ext node
  rw [List.mem_toFinset, mem_ascending]

/-- A frontier that holds the whole set is open for any graph. -/
theorem open_ascending (successors : ℕ → List ℕ) (nodes : Finset ℕ) :
    Open successors (ascending nodes).reverse nodes := by
  apply Open.mk
  · intro node hnode
    rwa [List.mem_reverse, mem_ascending] at hnode
  · intro node hnode
    left
    rwa [List.mem_reverse, mem_ascending]

theorem exists_fill_ascending {successors : ℕ → List ℕ} {size : ℕ} (nodes : Finset ℕ)
    (hbound : ∀ node next, next ∈ successors node → next < size) :
    ∃ filled,
      fill successors (nodes.card + size + 1) (ascending nodes).reverse nodes = some filled ∧
      ∀ node, node ∈ filled ↔ ∃ source ∈ nodes, Reaches successors source node := by
  have hrange : ∀ node next, next ∈ successors node → next ∈ Finset.range size := by
    intro node next hnext
    exact Finset.mem_range.mpr (hbound node next hnext)
  apply exists_fill hrange
  · have hle : (Finset.range size \ nodes).card ≤ size := by
      rw [← Finset.card_range size]
      exact (Finset.card_le_card Finset.sdiff_subset).trans_eq (by rw [Finset.card_range])
    rw [List.length_reverse, length_ascending]
    omega
  · exact open_ascending successors nodes

theorem foldl_demandInput (probe : ℕ → ReferenceExistence) {base : Finset ℕ} (inputs : List ℕ)
    {plan : ClearPlan} (frontier : List ℕ)
    (hplan : plan.demandedUpstream = plan.mustRun \ base) (hbase : base ⊆ plan.mustRun) :
    ∃ later, inputs.foldl (demandInput probe) (plan, frontier) =
        (later, ((inputs.filter fun up => probe up = .missing).foldl push
          (frontier, plan.mustRun)).1) ∧
      later.mustRun = ((inputs.filter fun up => probe up = .missing).foldl push
        (frontier, plan.mustRun)).2 ∧
      later.demandedUpstream = later.mustRun \ base ∧ base ⊆ later.mustRun := by
  induction inputs generalizing plan frontier with
  | nil => exact ⟨plan, rfl, rfl, hplan, hbase⟩
  | cons up inputs ih =>
      rw [List.foldl_cons, demandInput, List.filter_cons]
      by_cases hmissing : probe up = .missing
      · rw [if_pos (decide_eq_true hmissing), List.foldl_cons, push]
        by_cases hmem : up ∈ plan.mustRun
        · rw [if_pos hmem, if_pos hmem]
          exact ih frontier hplan hbase
        · rw [if_neg hmem, if_pos hmissing, if_neg hmem]
          have hfresh : up ∉ base := fun h => hmem (hbase h)
          apply ih (up :: frontier)
          · dsimp only
            rw [hplan, Finset.insert_sdiff_of_notMem _ hfresh]
          · exact hbase.trans (Finset.subset_insert up plan.mustRun)
      · have hsame : (if up ∈ plan.mustRun then (plan, frontier)
            else if probe up = .missing then
              ({ mustRun := insert up plan.mustRun
                 demandedUpstream := insert up plan.demandedUpstream }, up :: frontier)
            else (plan, frontier)) = (plan, frontier) := by
          rw [if_neg hmissing, ite_self]
        rw [hsame, if_neg (by simpa using hmissing)]
        exact ih frontier hplan hbase

/-- Inside the graph the upward sweep is the filling loop over the missing inputs; what it has
added is the demanded part. -/
theorem demandUpward_eq {nodes : List (Node T)} {probe : ℕ → ReferenceExistence}
    (hearlier : UpstreamEarlier nodes) {base : Finset ℕ} {fuel : ℕ} {plan : ClearPlan}
    {frontier : List ℕ} (hplan : plan.demandedUpstream = plan.mustRun \ base)
    (hbase : base ⊆ plan.mustRun) (hin : ∀ idx ∈ frontier, idx < nodes.length) :
    demandUpward nodes probe fuel plan frontier =
      (fill (missingInputs nodes probe) fuel frontier plan.mustRun).map
        fun filled => ⟨filled, filled \ base⟩ := by
  induction fuel generalizing plan frontier with
  | zero => rfl
  | succ fuel ih =>
      cases frontier with
      | nil =>
          rw [demandUpward, fill, Option.map_some, ← hplan]
      | cons idx frontier =>
          have hidx := hin idx List.mem_cons_self
          rw [demandUpward, fill, List.getElem?_eq_getElem hidx, Option.bind_some]
          rcases foldl_demandInput probe (nodes[idx]).upstream frontier hplan hbase with
            ⟨later, hfold, hmust, hdemanded, hlater⟩
          have hinputs : missingInputs nodes probe idx =
              (nodes[idx]).upstream.filter fun up => probe up = .missing := by
            rw [missingInputs, List.getElem?_eq_getElem hidx]
            rfl
          dsimp only
          rw [hfold, hinputs, ← hmust]
          apply ih hdemanded hlater
          intro other hother
          rcases ((foldl_push _ _ _).2.1 other).mp hother with hold | ⟨hnew, _⟩
          · exact hin other (List.mem_cons_of_mem _ hold)
          · rw [← hinputs] at hnew
            exact (hearlier.lt (mem_missingInputs.mp hnew).1).trans hidx

theorem demandUpward_eq_none {nodes : List (Node T)} {probe : ℕ → ReferenceExistence} {fuel : ℕ}
    {plan : ClearPlan} {frontier : List ℕ} {idx : ℕ} (hidx : idx ∈ frontier)
    (hout : nodes.length ≤ idx) : demandUpward nodes probe fuel plan frontier = none := by
  induction fuel generalizing plan frontier with
  | zero => rfl
  | succ fuel ih =>
      cases frontier with
      | nil => cases hidx
      | cons head frontier =>
          rw [demandUpward]
          cases hnode : nodes[head]? with
          | none => rfl
          | some node =>
              rw [Option.bind_some]
              apply ih
              rcases List.mem_cons.mp hidx with rfl | hrest
              · rw [List.getElem?_eq_none hout] at hnode
                cases hnode
              · have hkept (inputs : List ℕ) (sweep : ClearPlan × List ℕ) (hmem : idx ∈ sweep.2) :
                    idx ∈ (inputs.foldl (demandInput probe) sweep).2 := by
                  induction inputs generalizing sweep with
                  | nil => exact hmem
                  | cons up inputs ih =>
                      apply ih
                      rw [demandInput]
                      split_ifs
                      · exact hmem
                      · exact List.mem_cons_of_mem _ hmem
                      · exact hmem
                exact hkept node.upstream (plan, frontier) hrest

/-- What a sweep down from the seeds and a sweep up from there have to cover. -/
structure Swept (nodes : List (Node T)) (seeds : List ℕ) (probe : ℕ → ReferenceExistence)
    (scope : Set ℕ) : Prop where
  seeded : ∀ seed ∈ seeds, seed ∈ scope
  downward : ∀ seed ∈ seeds, ∀ node, Reaches (downstreamOf nodes) seed node → node ∈ scope
  upward : ∀ node ∈ scope, ∀ up, node ∈ downstreamOf nodes up → probe up = .missing → up ∈ scope

/-- A scope closed in both directions at once. -/
structure JointlyClosed (nodes : List (Node T)) (seeds : List ℕ) (probe : ℕ → ReferenceExistence)
    (scope : Set ℕ) : Prop where
  seeded : ∀ seed ∈ seeds, seed ∈ scope
  downward : ∀ node ∈ scope, ∀ down ∈ downstreamOf nodes node, down ∈ scope
  upward : ∀ node ∈ scope, ∀ up, node ∈ downstreamOf nodes up → probe up = .missing → up ∈ scope

theorem JointlyClosed.swept {nodes : List (Node T)} {seeds : List ℕ}
    {probe : ℕ → ReferenceExistence} {scope : Set ℕ}
    (hclosed : JointlyClosed nodes seeds probe scope) : Swept nodes seeds probe scope := by
  apply Swept.mk hclosed.seeded _ hclosed.upward
  intro seed hseed node hreaches
  induction hreaches with
  | refl => exact hclosed.seeded seed hseed
  | tail _ hstep ih => exact hclosed.downward _ ih _ hstep

theorem exists_clearClosure {nodes : List (Node T)} (hearlier : UpstreamEarlier nodes)
    {seeds : List ℕ} (hseeds : ∀ seed ∈ seeds, seed < nodes.length)
    (probe : ℕ → ReferenceExistence) :
    ∃ plan, clearClosure nodes seeds true probe = some plan ∧
      (∀ node, node ∈ plan.mustRun ↔ ∃ seed ∈ seeds, ∃ low,
        Reaches (downstreamOf nodes) seed low ∧ Reaches (missingInputs nodes probe) low node) ∧
      ∀ node, node ∈ plan.demandedUpstream ↔ node ∈ plan.mustRun ∧
        ¬ ∃ seed ∈ seeds, Reaches (downstreamOf nodes) seed node := by
  have hdownBound : ∀ node next, next ∈ downstreamOf nodes node → next < nodes.length :=
    fun _ _ => lt_of_mem_downstreamOf
  obtain ⟨lower, hlower, hmemLower⟩ := exists_fill_ascending seeds.toFinset hdownBound
  have hlowerIn : ∀ node ∈ lower, node < nodes.length := by
    intro node hnode
    obtain ⟨seed, hseed, hreaches⟩ := (hmemLower node).mp hnode
    rcases Relation.ReflTransGen.cases_tail hreaches with rfl | ⟨before, _, hstep⟩
    · exact hseeds _ (List.mem_toFinset.mp hseed)
    · exact lt_of_mem_downstreamOf hstep
  have hupBound : ∀ node next, next ∈ missingInputs nodes probe node → next < nodes.length := by
    intro node next hnext
    have hdown := (mem_missingInputs.mp hnext).1
    exact (hearlier.lt hdown).trans (lt_of_mem_downstreamOf hdown)
  obtain ⟨scope, hscope, hmemScope⟩ := exists_fill_ascending lower hupBound
  have hupward : demandUpward nodes probe (lower.card + nodes.length + 1) ⟨lower, ∅⟩
      (ascending lower).reverse = some ⟨scope, scope \ lower⟩ := by
    have hin : ∀ idx ∈ (ascending lower).reverse, idx < nodes.length := by
      intro idx hidx
      rw [List.mem_reverse, mem_ascending] at hidx
      exact hlowerIn idx hidx
    have hstart : (∅ : Finset ℕ) = lower \ lower := (Finset.sdiff_self lower).symm
    rw [demandUpward_eq hearlier hstart (Finset.Subset.refl lower) hin, hscope]
    rfl
  refine ⟨⟨scope, scope \ lower⟩, ?_, ?_, ?_⟩
  · rw [clearClosure, if_pos rfl, closeDownward, hlower, Option.bind_some, hupward]
  · intro node
    rw [hmemScope]
    apply Iff.intro
    · intro h
      obtain ⟨low, hlow, hup⟩ := h
      obtain ⟨seed, hseed, hdown⟩ := (hmemLower low).mp hlow
      exact ⟨seed, List.mem_toFinset.mp hseed, low, hdown, hup⟩
    · intro h
      obtain ⟨seed, hseed, low, hdown, hup⟩ := h
      exact ⟨low, (hmemLower low).mpr ⟨seed, List.mem_toFinset.mpr hseed, hdown⟩, hup⟩
  · intro node
    rw [Finset.mem_sdiff, hmemLower]
    simp only [List.mem_toFinset]

theorem clearClosure_eq_none {nodes : List (Node T)} {seeds : List ℕ} {seed : ℕ}
    (hseed : seed ∈ seeds) (hout : nodes.length ≤ seed) (probe : ℕ → ReferenceExistence) :
    clearClosure nodes seeds true probe = none := by
  have hdownBound : ∀ node next, next ∈ downstreamOf nodes node → next < nodes.length :=
    fun _ _ => lt_of_mem_downstreamOf
  obtain ⟨lower, hlower, hmemLower⟩ := exists_fill_ascending seeds.toFinset hdownBound
  rw [clearClosure, if_pos rfl, closeDownward, hlower, Option.bind_some]
  have hopen : seed ∈ (ascending lower).reverse := by
    rw [List.mem_reverse, mem_ascending, hmemLower]
    exact ⟨seed, List.mem_toFinset.mpr hseed, .refl⟩
  exact demandUpward_eq_none hopen hout

/-- The two sweeps cover the least scope that holds what can be reached from the seeds and every
missing input of a member. -/
theorem isLeast_mustRun {nodes : List (Node T)} {seeds : List ℕ} {probe : ℕ → ReferenceExistence}
    {mustRun : Finset ℕ}
    (hmem : ∀ node, node ∈ mustRun ↔ ∃ seed ∈ seeds, ∃ low,
      Reaches (downstreamOf nodes) seed low ∧ Reaches (missingInputs nodes probe) low node) :
    IsLeast {scope | Swept nodes seeds probe scope} (mustRun : Set ℕ) := by
  apply And.intro
  · apply Swept.mk
    · intro seed hseed
      exact (hmem seed).mpr ⟨seed, hseed, seed, .refl, .refl⟩
    · intro seed hseed node hreaches
      exact (hmem node).mpr ⟨seed, hseed, node, hreaches, .refl⟩
    · intro node hnode up hup hmissing
      obtain ⟨seed, hseed, low, hdown, hreaches⟩ := (hmem node).mp hnode
      exact (hmem up).mpr
        ⟨seed, hseed, low, hdown, hreaches.tail (mem_missingInputs.mpr ⟨hup, hmissing⟩)⟩
  · intro scope hscope node hnode
    obtain ⟨seed, hseed, low, hdown, hreaches⟩ := (hmem node).mp hnode
    induction hreaches with
    | refl => exact hscope.downward seed hseed low hdown
    | tail hbefore hstep ih =>
        have hinput := mem_missingInputs.mp hstep
        exact hscope.upward _ (ih ((hmem _).mpr ⟨seed, hseed, low, hdown, hbefore⟩)) _ hinput.1
          hinput.2

/-- The scope of a clear that includes the downstream tasks: it is the least set that holds the
seeds, everything that can be reached down from them and every input of a member whose output is
missing; the demanded part is what cannot be reached from the seeds; and only the set of the
seeds matters. A seed outside the graph stops the computation. -/
theorem clear_scope_swept (nodes : List (Node T)) (hearlier : UpstreamEarlier nodes)
    (seeds : List ℕ) (probe : ℕ → ReferenceExistence) :
    ((∀ seed ∈ seeds, seed < nodes.length) →
      ∃ plan, clearClosure nodes seeds true probe = some plan ∧
        IsLeast {scope | Swept nodes seeds probe scope} (plan.mustRun : Set ℕ) ∧
        ∀ node, node ∈ plan.demandedUpstream ↔ node ∈ plan.mustRun ∧
          ¬ ∃ seed ∈ seeds, Reaches (downstreamOf nodes) seed node) ∧
    ((∃ seed ∈ seeds, nodes.length ≤ seed) → clearClosure nodes seeds true probe = none) ∧
    ∀ other : List ℕ, (∀ seed, seed ∈ other ↔ seed ∈ seeds) →
      clearClosure nodes other true probe = clearClosure nodes seeds true probe := by
  refine ⟨?_, ?_, ?_⟩
  · intro hseeds
    obtain ⟨plan, hplan, hmem, hdemanded⟩ := exists_clearClosure hearlier hseeds probe
    exact ⟨plan, hplan, isLeast_mustRun hmem, hdemanded⟩
  · intro hout
    obtain ⟨seed, hseed, hle⟩ := hout
    exact clearClosure_eq_none hseed hle probe
  · intro other hsame
    have hset : other.toFinset = seeds.toFinset := by
      ext seed
      rw [List.mem_toFinset, List.mem_toFinset, hsame]
    rw [clearClosure, clearClosure, hset]

/-- Exactly when the scope is closed in both directions: whatever reads the output of a
drafted-in task is in the scope already. -/
theorem isLeast_jointlyClosed_iff {nodes : List (Node T)} (hearlier : UpstreamEarlier nodes)
    {seeds : List ℕ} (hseeds : ∀ seed ∈ seeds, seed < nodes.length)
    {probe : ℕ → ReferenceExistence} {plan : ClearPlan}
    (hplan : clearClosure nodes seeds true probe = some plan) :
    IsLeast {scope | JointlyClosed nodes seeds probe scope} (plan.mustRun : Set ℕ) ↔
      ∀ node ∈ plan.demandedUpstream, ∀ down ∈ downstreamOf nodes node, down ∈ plan.mustRun := by
  obtain ⟨same, hsame, hmem, hdemanded⟩ := exists_clearClosure hearlier hseeds probe
  rw [hplan, Option.some.injEq] at hsame
  subst hsame
  have hleast := isLeast_mustRun hmem
  apply Iff.intro
  · intro hjoint node hnode down hdown
    exact hjoint.1.downward node ((hdemanded node).mp hnode).1 down hdown
  · intro hclosed
    apply And.intro
    · apply JointlyClosed.mk hleast.1.seeded _ hleast.1.upward
      intro node hnode down hdown
      by_cases hlow : ∃ seed ∈ seeds, Reaches (downstreamOf nodes) seed node
      · obtain ⟨seed, hseed, hreaches⟩ := hlow
        exact hleast.1.downward seed hseed down (hreaches.tail hdown)
      · exact hclosed node ((hdemanded node).mpr ⟨hnode, hlow⟩) down hdown
    · intro scope hscope
      exact hleast.2 hscope.swept

/-- A task of the diamond, with its upstream. -/
def diamondNode (taskId : ℕ) (upstream : List ℕ) : Node ℕ where
  taskId
  kind := .pod
  inputNames := []
  writesLake := true
  triggerRule := .allSucceeded
  teardown := false
  policy := { retries := 0, classRule := .fixed .S, escalateOnOom := false, segment := none }
  upstream

/-- One source whose output two tasks read. -/
def sharedSource : List (Node ℕ) := [diamondNode 0 [], diamondNode 1 [0], diamondNode 2 [0]]

/-- The source's output has expired. -/
def sourceExpired (idx : ℕ) : ReferenceExistence :=
  if idx = 0 then .missing else .present

/-- Clearing one reader of the expired output drafts the source in and leaves the other out. -/
theorem sharedSource_scope_swept :
    UpstreamEarlier sharedSource ∧ (∀ seed ∈ [1], seed < sharedSource.length) ∧
      ∃ plan, clearClosure sharedSource [1] true sourceExpired = some plan ∧
        IsLeast {scope | Swept sharedSource [1] sourceExpired scope} (plan.mustRun : Set ℕ) ∧
        ∀ node, node ∈ plan.demandedUpstream ↔ node ∈ plan.mustRun ∧
          ¬ ∃ seed ∈ [1], Reaches (downstreamOf sharedSource) seed node :=
  ⟨by decide, by decide,
    (clear_scope_swept sharedSource (by decide) [1] sourceExpired).1 (by decide)⟩

/-- Clearing both readers of the expired output leaves nothing of the source outside. -/
theorem isLeast_jointlyClosed_iff_sharedSource :
    UpstreamEarlier sharedSource ∧ (∀ seed ∈ [1, 2], seed < sharedSource.length) ∧
      clearClosure sharedSource [1, 2] true sourceExpired = some ⟨{0, 1, 2}, {0}⟩ ∧
      (IsLeast {scope | JointlyClosed sharedSource [1, 2] sourceExpired scope}
          (({0, 1, 2} : Finset ℕ) : Set ℕ) ↔
        ∀ node ∈ ({0} : Finset ℕ), ∀ down ∈ downstreamOf sharedSource node,
          down ∈ ({0, 1, 2} : Finset ℕ)) :=
  have hplan : clearClosure sharedSource [1, 2] true sourceExpired = some ⟨{0, 1, 2}, {0}⟩ := by
    decide +kernel
  ⟨by decide, by decide, hplan, isLeast_jointlyClosed_iff (by decide) (by decide) hplan⟩

/-- The computed scope need not be closed under downstream tasks. -/
theorem clear_scope_not_jointly_closed :
    ¬ ∀ nodes : List (Node ℕ), UpstreamEarlier nodes → ∀ seeds : List ℕ,
      (∀ seed ∈ seeds, seed < nodes.length) → ∀ probe plan,
        clearClosure nodes seeds true probe = some plan →
          IsLeast {scope | JointlyClosed nodes seeds probe scope} (plan.mustRun : Set ℕ) := by
  intro hall
  have hplan : clearClosure sharedSource [1] true sourceExpired = some ⟨{0, 1}, {0}⟩ := by
    decide +kernel
  have hleast := hall sharedSource (by decide) [1] (by decide) sourceExpired _ hplan
  have hout : (2 : ℕ) ∈ (({0, 1} : Finset ℕ) : Set ℕ) :=
    hleast.1.downward 0 (by simp) 2 (by decide)
  simp at hout

end EntityResolution.Executor
