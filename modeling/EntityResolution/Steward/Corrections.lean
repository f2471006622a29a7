/-
# Corrections over time

What a pass landed is known from its receipt alone, and there is a receipt only if a try of
`apply_staged` ran to its end. A try that stopped after a statement leaves that statement in
the lake with its action still pending, and so does a receipt that `settle_actions` does not
mark to its end: the statement is committed again by the next try or the next pass.

Where no statement is left so, every action lands once and is marked exactly when it has landed.
-/

import EntityResolution.Steward.Staged

namespace EntityResolution.Steward

open EntityResolution.Collections EntityResolution.Runs

universe x y

variable {S : Type x} {E : Type y}

/-- An action that is marked applied has landed, each of its statements once and in their order;
of an action that is not, nothing has. -/
structure LandedOnce (stores : Stores S E) : Prop where
  unknown : ∀ id : String, stores.plane.actions[id]? = none → stores.landed id = []
  unmarked : ∀ (id : String) (row : StagedAction), stores.plane.actions[id]? = some row →
    row.state ≠ .applied → stores.landed id = []
  marked : ∀ (id : String) (row : StagedAction), stores.plane.actions[id]? = some row →
    row.state = .applied → ∃ now, stores.landed id = row.action.statements id now

/-- The actions pending in the pass's dataset are marked. -/
def MarksPending (pass : Pass) (before after : Plane) : Prop :=
  ∀ (id : String) (row : StagedAction), before.actions[id]? = some row →
    row.datasetId = pass.dataset → row.state = .pending →
      ∃ marked : StagedAction, after.actions[id]? = some marked ∧ marked.state = .applied

/-- After the event every action has landed once and is marked exactly then; after a pass that
succeeds this goes for all that were pending at its start. -/
def SettlesExactly (stores : Stores S E) (event : StagedEvent) : Prop :=
  LandedOnce (stores.step event) ∧
    match event with
    | .stage _ => True
    | .pass pass =>
        pass.succeeds = true → MarksPending pass stores.plane (stores.step event).plane

/-- The pending actions of the dataset with their payloads, oldest first. -/
def pendingPayloads (datasetId : String) (plane : Plane) : List (String × StewardAction) :=
  (pendingActions datasetId plane).map fun entry => (entry.1, entry.2.action)

/-- The pass leaves no statement behind. A try of `apply_staged` that fails stops before its
first statement. One that runs to its end has no statement and the pass ends before its marks, or
it was given the pending actions of the dataset in some order, and if it ran a statement, the pass
gets through to its last mark. -/
def LeavesNone (stores : Stores S E) : StagedEvent → Prop
  | .stage _ => True
  | .pass pass =>
      (∀ count ∈ pass.stops,
        (ApplyStaged.program pass.runAt pass.stagedActions).take count = []) ∧
      (pass.applies = true →
        ApplyStaged.program pass.runAt pass.stagedActions = [] ∧ pass.assembles = false ∨
          pass.stagedActions.Perm (pendingPayloads pass.dataset stores.plane) ∧
            (ApplyStaged.program pass.runAt pass.stagedActions ≠ [] →
              pass.assembles = true ∧ pass.settles = true))

section Lake

variable {stores : Stores S E} {id : String}

theorem plane_foldl_commit (entries : List (String × LakeStatement)) :
    (entries.foldl Stores.commit stores).plane = stores.plane := by
  induction entries generalizing stores with
  | nil => rfl
  | cons entry entries ih => exact ih

theorem journal_foldl_commit (entries : List (String × LakeStatement)) :
    (entries.foldl Stores.commit stores).journal = stores.journal ++ entries := by
  induction entries generalizing stores with
  | nil => exact (List.append_nil _).symm
  | cons entry entries ih =>
    rw [List.foldl_cons, ih, Stores.commit, List.append_assoc, List.singleton_append]

theorem landed_foldl_commit (entries : List (String × LakeStatement)) :
    (entries.foldl Stores.commit stores).landed id =
      stores.landed id ++ (entries.filter fun entry => entry.1 = id).map Prod.snd := by
  rw [Stores.landed, journal_foldl_commit, List.filter_append, List.map_append]
  rfl

end Lake

section Program

variable {now : ℤ} {staged : List (String × StewardAction)} {id : String}

theorem filter_program_cons (entry : String × StewardAction) :
    ((ApplyStaged.program now (entry :: staged)).filter fun step => step.1 = id).map Prod.snd =
      (if entry.1 = id then entry.2.statements entry.1 now else []) ++
        ((ApplyStaged.program now staged).filter fun step => step.1 = id).map Prod.snd := by
  rw [ApplyStaged.program, List.flatMap_cons, List.filter_append, List.map_append]
  congr 1
  rw [List.filter_map, List.map_map]
  by_cases hid : entry.1 = id
  · simp [hid, Function.comp_def]
  · simp [hid, Function.comp_def]

theorem filter_program_of_not_mem (hid : id ∉ staged.map Prod.fst) :
    ((ApplyStaged.program now staged).filter fun step => step.1 = id).map Prod.snd = [] := by
  induction staged with
  | nil => rfl
  | cons entry staged ih =>
    rw [List.map_cons, List.mem_cons, not_or] at hid
    rw [filter_program_cons, if_neg (Ne.symm hid.1), List.nil_append]
    exact ih hid.2

theorem filter_program_of_mem {action : StewardAction} (hnodup : (staged.map Prod.fst).Nodup)
    (hmem : (id, action) ∈ staged) :
    ((ApplyStaged.program now staged).filter fun step => step.1 = id).map Prod.snd =
      action.statements id now := by
  induction staged with
  | nil => cases hmem
  | cons entry staged ih =>
    rw [List.map_cons, List.nodup_cons] at hnodup
    rw [filter_program_cons]
    cases List.mem_cons.mp hmem with
    | inl hhead =>
      rw [← hhead] at hnodup ⊢
      rw [if_pos rfl, filter_program_of_not_mem hnodup.1, List.append_nil]
    | inr htail =>
      have hne : entry.1 ≠ id := by
        intro hsame
        rw [hsame] at hnodup
        exact hnodup.1 (List.mem_map_of_mem htail)
      rw [if_neg hne, List.nil_append]
      exact ih hnodup.2 htail

end Program

section Pending

variable {datasetId : String} {plane : Plane} {id : String} {action : StewardAction}

theorem mem_pendingPayloads :
    (id, action) ∈ pendingPayloads datasetId plane ↔
      ∃ row, plane.actions[id]? = some row ∧ row.datasetId = datasetId ∧ row.state = .pending ∧
        row.action = action := by
  simp only [pendingPayloads, List.mem_map, mem_pendingActions, Prod.mk.injEq, Prod.exists]
  constructor
  · intro hmem
    obtain ⟨_, row, ⟨hrow, hdataset, hpending⟩, rfl, rfl⟩ := hmem
    exact ⟨row, hrow, hdataset, hpending, rfl⟩
  · intro hmem
    obtain ⟨row, hrow, hdataset, hpending, rfl⟩ := hmem
    exact ⟨id, row, ⟨hrow, hdataset, hpending⟩, rfl, rfl⟩

theorem nodup_pendingPayloads : ((pendingPayloads datasetId plane).map Prod.fst).Nodup := by
  have hkeys : (plane.actions.toList.map Prod.fst).Nodup := by
    rw [List.Nodup, List.pairwise_map]
    exact (BTreeMap.toList_pairwise_lt _).imp fun hlt => hlt.ne
  rw [pendingPayloads, List.map_map]
  change ((pendingActions datasetId plane).map Prod.fst).Nodup
  rw [pendingActions, ((List.perm_insertionSort _ _).map Prod.fst).nodup_iff]
  exact hkeys.sublist (List.filter_sublist.map _)

end Pending

section Marks

variable {plane : Plane} {id : String}

theorem getElem?_markAll (ids : List String) :
    (SettleActions.run ids plane).actions[id]? =
      (plane.actions[id]?).map fun row =>
        if id ∈ ids then { row with state := .applied } else row := by
  rw [SettleActions.run]
  induction ids generalizing plane with
  | nil => simp
  | cons head ids ih =>
    rw [List.foldl_cons, ih, markApplied, BTreeMap.getElem?_map_eq, Option.map_map]
    congr 1
    funext row
    by_cases hhead : id = head
    · simp [hhead]
    · simp [hhead]

theorem foldl_markUpTo (receipt : List String) (counts : List ℕ) :
    counts.foldl (SettleActions.markUpTo receipt) plane =
      SettleActions.run (counts.flatMap fun count => receipt.take count) plane := by
  induction counts generalizing plane with
  | nil => rfl
  | cons count counts ih =>
    rw [List.foldl_cons, ih, List.flatMap_cons, SettleActions.run, SettleActions.run,
      SettleActions.markUpTo, List.foldl_append]

/-- What a receipt leads to is marks of its own actions: all of them when the pass gets through
to its last mark. -/
theorem exists_marks (pass : Pass) (receipt : List String) :
    ∃ ids, (∀ plane, pass.settle (some receipt) plane = SettleActions.run ids plane) ∧
      ids ⊆ receipt ∧ (pass.assembles = true → pass.settles = true → receipt ⊆ ids) := by
  have hstops : (pass.settleStops.flatMap fun count => receipt.take count) ⊆ receipt := by
    intro id hid
    obtain ⟨count, -, htaken⟩ := List.mem_flatMap.mp hid
    exact List.mem_of_mem_take htaken
  cases hassembles : pass.assembles with
  | false =>
    use []
    constructor
    · intro plane
      simp only [Pass.settle, hassembles]
      rfl
    · exact ⟨List.nil_subset _, fun hfalse => nomatch hfalse⟩
  | true =>
    cases hsettles : pass.settles with
    | false =>
      use pass.settleStops.flatMap fun count => receipt.take count
      constructor
      · intro plane
        simp only [Pass.settle, hassembles, hsettles, foldl_markUpTo]
        rfl
      · exact ⟨hstops, fun _ hfalse => nomatch hfalse⟩
    | true =>
      use (pass.settleStops.flatMap fun count => receipt.take count) ++ receipt
      constructor
      · intro plane
        simp only [Pass.settle, hassembles, hsettles, foldl_markUpTo]
        rw [SettleActions.run, SettleActions.run, SettleActions.run, List.foldl_append]
        rfl
      · exact ⟨List.append_subset.mpr ⟨hstops, List.Subset.refl _⟩,
          fun _ _ => List.subset_append_right _ _⟩

end Marks

/-- The actions are kept as they are, and the new ones are pending. -/
structure KeepsActions (before after : Plane) : Prop where
  kept : ∀ {id : String} {row : StagedAction}, before.actions[id]? = some row →
    after.actions[id]? = some row
  pending : ∀ {id : String} {row : StagedAction}, before.actions[id]? = none →
    after.actions[id]? = some row → row.state = .pending

theorem keepsActions_stage (plane : Plane) (arrival : Arrival) :
    KeepsActions plane (arrival.stage plane) := by
  have hrefl : KeepsActions plane plane := ⟨id, fun hnone hrow => by
    rw [hnone] at hrow
    cases hrow⟩
  rw [Arrival.stage]
  simp only [stageAction]
  by_cases hid : arrival.actionId ∈ plane.actions
  · rw [if_pos hid]
    exact hrefl
  · rw [if_neg hid, Option.getD_some]
    constructor
    · intro id row hrow
      have hne : arrival.actionId ≠ id := by
        intro hsame
        rw [hsame] at hid
        exact hid (BTreeMap.mem_iff_exists_getElem?.mpr ⟨row, hrow⟩)
      rw [BTreeMap.getElem?_insert_eq_ite, if_neg hne]
      exact hrow
    · intro id row hnone hrow
      rw [BTreeMap.getElem?_insert_eq_ite] at hrow
      split at hrow
      · cases hrow
        rfl
      · rw [hnone] at hrow
        cases hrow

theorem KeepsActions.trans {first second third : Plane} (hfirst : KeepsActions first second)
    (hsecond : KeepsActions second third) : KeepsActions first third := by
  constructor
  · intro id row hrow
    exact hsecond.kept (hfirst.kept hrow)
  · intro id row hnone hrow
    cases hmiddle : second.actions[id]? with
    | none => exact hsecond.pending hmiddle hrow
    | some middle =>
      rw [hsecond.kept hmiddle] at hrow
      cases hrow
      exact hfirst.pending hnone hmiddle

theorem keepsActions_arrivals (plane : Plane) (arrivals : List Arrival) :
    KeepsActions plane (arrivals.foldl Arrival.stage plane) := by
  induction arrivals generalizing plane with
  | nil =>
    exact ⟨id, fun hnone hrow => by
      rw [List.foldl_nil, hnone] at hrow
      cases hrow⟩
  | cons arrival arrivals ih => exact (keepsActions_stage plane arrival).trans (ih _)

/-! ## Steps -/

section Steps

variable {stores : Stores S E}

theorem LandedOnce.of_keeps {after : Stores S E} (honce : LandedOnce stores)
    (hkeeps : KeepsActions stores.plane after.plane)
    (hlanded : ∀ id, after.landed id = stores.landed id) : LandedOnce after := by
  constructor
  · intro id hnone
    rw [hlanded]
    cases hrow : stores.plane.actions[id]? with
    | none => exact honce.unknown id hrow
    | some row =>
      rw [hkeeps.kept hrow] at hnone
      cases hnone
  · intro id row hrow hunmarked
    rw [hlanded]
    cases hbefore : stores.plane.actions[id]? with
    | none => exact honce.unknown id hbefore
    | some other =>
      rw [hkeeps.kept hbefore] at hrow
      cases hrow
      exact honce.unmarked id row hbefore hunmarked
  · intro id row hrow hmarked
    rw [hlanded]
    cases hbefore : stores.plane.actions[id]? with
    | none =>
      rw [hkeeps.pending hbefore hrow] at hmarked
      cases hmarked
    | some other =>
      rw [hkeeps.kept hbefore] at hrow
      cases hrow
      exact honce.marked id row hbefore hmarked

theorem foldl_stopAfter_of_none {now : ℤ} {staged : List (String × StewardAction)}
    {counts : List ℕ}
    (hnone : ∀ count ∈ counts, (ApplyStaged.program now staged).take count = []) :
    counts.foldl (ApplyStaged.stopAfter now staged) stores = stores := by
  induction counts with
  | nil => rfl
  | cons count counts ih =>
    have hhead : ApplyStaged.stopAfter now staged stores count = stores := by
      rw [ApplyStaged.stopAfter, hnone count List.mem_cons_self]
      rfl
    rw [List.foldl_cons, hhead]
    exact ih fun other hother => hnone other (List.mem_cons_of_mem _ hother)

/-- The pass's arrivals, in the stores it started from. -/
def Stores.arrive (stores : Stores S E) (pass : Pass) : Stores S E :=
  { stores with plane := pass.arrivals.foldl Arrival.stage stores.plane }

theorem run_of_not_applies {pass : Pass}
    (hstops : ∀ count ∈ pass.stops,
      (ApplyStaged.program pass.runAt pass.stagedActions).take count = [])
    (happlies : pass.applies = false) : pass.run stores = stores.arrive pass := by
  have happly : pass.apply stores = (stores, none) := by
    simp only [Pass.apply, happlies, foldl_stopAfter_of_none hstops]
    rfl
  rw [Pass.run, happly]
  rfl

theorem run_of_idle {pass : Pass} (happlies : pass.applies = true)
    (hstops : ∀ count ∈ pass.stops,
      (ApplyStaged.program pass.runAt pass.stagedActions).take count = [])
    (hidle : ApplyStaged.program pass.runAt pass.stagedActions = [] ∧ pass.assembles = false) :
    pass.run stores = stores.arrive pass := by
  have happly : pass.apply stores = (stores, some (pass.stagedActions.map Prod.fst)) := by
    simp only [Pass.apply, happlies, foldl_stopAfter_of_none hstops, ApplyStaged.run, hidle.1]
    rfl
  rw [Pass.run, happly, Pass.settle, hidle.2]
  rfl

variable (stores) in
/-- A pass with a receipt commits its program once and marks actions of its receipt. -/
theorem run_of_applies {pass : Pass}
    (hstops : ∀ count ∈ pass.stops,
      (ApplyStaged.program pass.runAt pass.stagedActions).take count = [])
    (happlies : pass.applies = true) :
    ∃ ids, ids ⊆ pass.stagedActions.map Prod.fst ∧
      (pass.assembles = true → pass.settles = true → pass.stagedActions.map Prod.fst ⊆ ids) ∧
      (pass.run stores).plane = SettleActions.run ids (stores.arrive pass).plane ∧
      ∀ id, (pass.run stores).landed id = stores.landed id ++
        ((ApplyStaged.program pass.runAt pass.stagedActions).filter fun step =>
          step.1 = id).map Prod.snd := by
  obtain ⟨ids, hsettle, hsubset, hall⟩ := exists_marks pass (pass.stagedActions.map Prod.fst)
  have happly : pass.apply stores =
      (((ApplyStaged.program pass.runAt pass.stagedActions).foldl Stores.commit stores),
        some (pass.stagedActions.map Prod.fst)) := by
    simp only [Pass.apply, happlies, foldl_stopAfter_of_none hstops]
    rfl
  use ids
  apply And.intro hsubset
  apply And.intro hall
  constructor
  · rw [Pass.run, happly]
    simp only [hsettle, plane_foldl_commit]
    rfl
  · intro id
    rw [← landed_foldl_commit, Pass.run, happly]
    rfl

/-- Marks and statements of one list of actions: each listed one lands whole, and not at all unless
it is marked; the others stay as they are. -/
theorem LandedOnce.of_marks {later : Stores S E} {ids listed : List String}
    (honce : LandedOnce stores) (hsubset : ids ⊆ listed)
    (hrows : ∀ id, later.plane.actions[id]? = (stores.plane.actions[id]?).map fun row =>
      if id ∈ ids then { row with state := .applied } else row)
    (hlisted : ∀ id ∈ listed, ∃ row : StagedAction, stores.plane.actions[id]? = some row ∧
      (∃ now, later.landed id = row.action.statements id now) ∧
        (id ∉ ids → later.landed id = []))
    (hunlisted : ∀ id, id ∉ listed → later.landed id = stores.landed id) :
    LandedOnce later := by
  constructor
  · intro id hnone
    rw [hrows, Option.map_eq_none_iff] at hnone
    by_cases hid : id ∈ listed
    · obtain ⟨row, hrow, -⟩ := hlisted id hid
      rw [hrow] at hnone
      cases hnone
    · rw [hunlisted id hid]
      exact honce.unknown id hnone
  · intro id row hrow hunmarked
    rw [hrows] at hrow
    obtain ⟨before, hbefore, rfl⟩ := Option.map_eq_some_iff.mp hrow
    have hnotin : id ∉ ids := by
      intro hin
      rw [if_pos hin] at hunmarked
      exact hunmarked rfl
    by_cases hid : id ∈ listed
    · obtain ⟨_, -, -, hempty⟩ := hlisted id hid
      exact hempty hnotin
    · rw [hunlisted id hid]
      rw [if_neg hnotin] at hunmarked
      exact honce.unmarked id before hbefore hunmarked
  · intro id row hrow hmarked
    rw [hrows] at hrow
    obtain ⟨before, hbefore, rfl⟩ := Option.map_eq_some_iff.mp hrow
    by_cases hid : id ∈ listed
    · obtain ⟨row, hrow, ⟨now, hstatements⟩, -⟩ := hlisted id hid
      rw [hrow] at hbefore
      cases hbefore
      use now
      rw [hstatements]
      split <;> rfl
    · have hnotin : id ∉ ids := fun hin => hid (hsubset hin)
      rw [if_neg hnotin] at hmarked ⊢
      rw [hunlisted id hid]
      exact honce.marked id before hbefore hmarked

/-- An action that a pass lists was pending, and its statements land; or none do, and it is not
marked. -/
theorem landed_of_listed {pass : Pass} {later : Stores S E} {ids : List String}
    (honce : LandedOnce stores)
    (hstaged : pass.stagedActions.Perm (pendingPayloads pass.dataset stores.plane))
    (hthrough : ApplyStaged.program pass.runAt pass.stagedActions ≠ [] →
      pass.stagedActions.map Prod.fst ⊆ ids)
    (hlanded : ∀ id, later.landed id = stores.landed id ++
      ((ApplyStaged.program pass.runAt pass.stagedActions).filter fun step =>
        step.1 = id).map Prod.snd)
    {id : String} (hid : id ∈ pass.stagedActions.map Prod.fst) :
    ∃ row : StagedAction, stores.plane.actions[id]? = some row ∧
      (∃ now, later.landed id = row.action.statements id now) ∧
        (id ∉ ids → later.landed id = []) := by
  obtain ⟨⟨listed, action⟩, hmem, rfl⟩ := List.mem_map.mp hid
  have hmem' := hmem
  rw [hstaged.mem_iff] at hmem'
  obtain ⟨row, hrow, -, hpending, rfl⟩ := mem_pendingPayloads.mp hmem'
  have hbefore : stores.landed listed = [] := by
    apply honce.unmarked listed row hrow
    rw [hpending]
    decide
  have hnodup : (pass.stagedActions.map Prod.fst).Nodup :=
    (hstaged.map Prod.fst).nodup_iff.mpr nodup_pendingPayloads
  have hstatements := hlanded listed
  rw [hbefore, List.nil_append, filter_program_of_mem hnodup hmem] at hstatements
  refine ⟨row, hrow, ⟨pass.runAt, hstatements⟩, ?_⟩
  intro hunmarked
  have hempty : ApplyStaged.program pass.runAt pass.stagedActions = [] := by
    by_contra hsome
    exact hunmarked (hthrough hsome hid)
  rw [hlanded, hbefore, hempty]
  rfl

/-- A pass that leaves no statement behind lands its actions once. -/
theorem landedOnce_run {pass : Pass} (honce : LandedOnce stores)
    (hleaves : LeavesNone stores (.pass pass)) :
    LandedOnce (pass.run stores) ∧
      (pass.succeeds = true → MarksPending pass stores.plane (pass.run stores).plane) := by
  obtain ⟨hstops, hreceipt⟩ := hleaves
  have harrivals : KeepsActions stores.plane (stores.arrive pass).plane :=
    keepsActions_arrivals stores.plane pass.arrivals
  have harrived : LandedOnce (stores.arrive pass) := honce.of_keeps harrivals fun _ => rfl
  cases happlies : pass.applies with
  | false =>
    rw [run_of_not_applies hstops happlies]
    apply And.intro harrived
    intro hsucceeds
    rw [Pass.succeeds, happlies] at hsucceeds
    cases hsucceeds
  | true =>
    rcases hreceipt happlies with hidle | ⟨hstaged, hthrough⟩
    · rw [run_of_idle happlies hstops hidle]
      apply And.intro harrived
      intro hsucceeds
      rw [Pass.succeeds, hidle.2, Bool.and_false] at hsucceeds
      cases hsucceeds
    obtain ⟨ids, hsubset, hall, hplane, hlanded⟩ := run_of_applies stores hstops happlies
    have hrows : ∀ id, (pass.run stores).plane.actions[id]? =
        ((stores.arrive pass).plane.actions[id]?).map fun row =>
          if id ∈ ids then { row with state := .applied } else row := by
      intro id
      rw [hplane, getElem?_markAll]
    constructor
    · apply harrived.of_marks hsubset hrows
      · intro id hid
        obtain ⟨row, hrow, hlands⟩ := landed_of_listed honce hstaged
          (fun hsome => hall (hthrough hsome).1 (hthrough hsome).2) hlanded hid
        exact ⟨row, harrivals.kept hrow, hlands⟩
      · intro id hid
        rw [hlanded, filter_program_of_not_mem hid, List.append_nil]
        rfl
    · intro hsucceeds id row hrow hdataset hpending
      simp only [Pass.succeeds, Bool.and_eq_true] at hsucceeds
      have hid : id ∈ pass.stagedActions.map Prod.fst := by
        rw [(hstaged.map Prod.fst).mem_iff]
        exact List.mem_map.mpr
          ⟨(id, row.action), mem_pendingPayloads.mpr ⟨row, hrow, hdataset, hpending, rfl⟩, rfl⟩
      rw [hrows, harrivals.kept hrow, Option.map_some, if_pos (hall hsucceeds.1.2 hsucceeds.2 hid)]
      exact ⟨_, rfl, rfl⟩

theorem settlesExactly_of_leavesNone {event : StagedEvent} (honce : LandedOnce stores)
    (hleaves : LeavesNone stores event) : SettlesExactly stores event := by
  cases event with
  | stage arrival =>
    apply And.intro _ trivial
    exact honce.of_keeps (keepsActions_stage stores.plane arrival) fun _ => rfl
  | pass pass => exact landedOnce_run honce hleaves

theorem landedOnce_fresh : LandedOnce (Stores.fresh : Stores S E) := by
  constructor
  · intro id _
    rfl
  · intro id row hrow
    have hempty : (Stores.fresh : Stores S E).plane.actions[id]? = none :=
      Std.ExtTreeMap.getElem?_empty
    rw [hempty] at hrow
    cases hrow
  · intro id row hrow
    have hempty : (Stores.fresh : Stores S E).plane.actions[id]? = none :=
      Std.ExtTreeMap.getElem?_empty
    rw [hempty] at hrow
    cases hrow

end Steps

/-- In every run whose passes leave no statement behind, each action lands once and is marked
exactly when it has landed, and a pass that succeeds lands all that were pending. -/
theorem staged_actions_land_once {stores : Stores S E} {events : List StagedEvent}
    (hstart : LandedOnce stores) (hleaves : Along Stores.step LeavesNone stores events) :
    Along Stores.step SettlesExactly stores events := by
  apply along_of_along LandedOnce _ _ hstart hleaves
  · intro state event honce hguard
    exact (settlesExactly_of_leavesNone honce hguard).1
  · intro state event honce hguard
    exact settlesExactly_of_leavesNone honce hguard

/-- A steward asserts that two records are the same. -/
def assertSame : Arrival where
  actionId := "action-1"
  orgId := "acme"
  datasetId := "people"
  action := .addAssertion "a" "b" "always" "ann" none
  createdBy := "ann"
  createdAt := 1

/-- A steward resolves a review. -/
def resolveOne : Arrival where
  actionId := "action-2"
  orgId := "acme"
  datasetId := "people"
  action := .resolveReview "review-1" .matched
  createdBy := "ann"
  createdAt := 2

/-- A pass over the listed actions that gets through, but for the failed tries. -/
def passOver (runAt : ℤ) (staged : List Arrival) (stops : List ℕ) (applies : Bool) : Pass where
  orgId := "acme"
  datasetId := some "people"
  runAt := runAt
  stagedActions := staged.map fun arrival => (arrival.actionId, arrival.action)
  stops := stops
  applies := applies
  assembles := true
  settleStops := []
  settles := true
  arrivals := []

/-- The guard is met by a pass whose first try dies at once and whose second gets through. -/
theorem one_assertion_lands_once :
    Along Stores.step SettlesExactly (Stores.fresh : Stores Unit Unit)
      [.stage assertSame, .pass (passOver 3 [assertSame] [0] true)] := by
  apply staged_actions_land_once landedOnce_fresh
  constructor
  · trivial
  · apply And.intro _ trivial
    constructor
    · intro count hcount
      rw [List.mem_singleton.mp hcount]
      rfl
    · intro _
      refine Or.inr ⟨?_, fun _ => ⟨rfl, rfl⟩⟩
      decide +kernel

/-- The stores after both actions were staged and the second failed. -/
def secondFailed : Stores Unit Unit :=
  [StagedEvent.stage assertSame, .stage resolveOne,
    .pass (passOver 3 [assertSame, resolveOne] [1] false)].foldl Stores.step Stores.fresh

/-- The next pass is given both actions again. -/
def nextPass : Pass := passOver 4 [assertSame, resolveOne] [] true

/-- The second action of a pass fails, and the next pass applies the first again. A pass whose
params list nothing succeeds and applies nothing. -/
theorem landed_action_applied_again :
    ((nextPass.run secondFailed).lake.assertions.map fun row => (row.id, row.createdAt)) =
        [("action-1", 3), ("action-1", 4)] ∧
      ¬ Along Stores.step SettlesExactly (Stores.fresh : Stores Unit Unit)
        [.stage assertSame, .stage resolveOne,
          .pass (passOver 3 [assertSame, resolveOne] [1] false), .pass nextPass] ∧
      ¬ Along Stores.step SettlesExactly (Stores.fresh : Stores Unit Unit)
        [.stage assertSame, .pass (passOver 3 [] [] true)] := by
  apply And.intro (by decide +kernel)
  constructor
  · intro hrun
    have honce : LandedOnce (nextPass.run secondFailed) := hrun.2.2.2.1.1
    have hrow : ((nextPass.run secondFailed).plane.actions["action-1"]?).map
        (fun row => (row.action, row.state)) = some (assertSame.action, .applied) := by
      decide +kernel
    obtain ⟨row, hrow, hpair⟩ := Option.map_eq_some_iff.mp hrow
    have haction : row.action = assertSame.action := congrArg Prod.fst hpair
    obtain ⟨now, hlanded⟩ := honce.marked "action-1" row hrow (congrArg Prod.snd hpair)
    have hlength : ((nextPass.run secondFailed).landed "action-1").length = 2 := by
      decide +kernel
    rw [hlanded, haction] at hlength
    have hone : ((assertSame.action).statements "action-1" now).length = 1 := by
      rw [assertSame]
      simp only [StewardAction.statements]
      split <;> rfl
    rw [hone] at hlength
    cases hlength
  · intro hrun
    have hmarks := hrun.2.1.2 (by decide)
    have hrow : (((Stores.fresh : Stores Unit Unit).step (.stage assertSame)).plane.actions[
        "action-1"]?).map (fun row => (row.datasetId, row.state)) = some ("people", .pending) := by
      decide +kernel
    obtain ⟨row, hrow, hpair⟩ := Option.map_eq_some_iff.mp hrow
    obtain ⟨marked, hafter, hstate⟩ := hmarks "action-1" row hrow (congrArg Prod.fst hpair)
      (congrArg Prod.snd hpair)
    have hpending : (((passOver 3 [] [] true).run
        ((Stores.fresh : Stores Unit Unit).step (.stage assertSame))).plane.actions[
          "action-1"]?).map StagedAction.state = some .pending := by
      decide +kernel
    change ((passOver 3 [] [] true).run
      ((Stores.fresh : Stores Unit Unit).step (.stage assertSame))).plane.actions["action-1"]? =
        some marked at hafter
    rw [hafter, Option.map_some, hstate] at hpending
    cases hpending

end EntityResolution.Steward
