/-
# Histories of reconcile runs

A run sees the live membership only: it is planned on the record-to-entity map, not on
the entities that earlier runs merged or retired. What holds over a whole history
therefore rests on two facts about one run. Every entity named by a plan is either one
that holds records now or one that never existed, and a claimant survives the plan that
merges other entities into it.

The registry is the pair of tables that runs write. Its entity rows form a census in
the sense of `MergeForest`, a run advances that census, and the general theory gives
finality, acyclicity and the ends of the redirect chains.
-/

import EntityResolution.Foundations.MergeForest
import EntityResolution.Reconcile.Replay

namespace EntityResolution.Reconcile

open EntityResolution.Collections EntityResolution.Identity EntityResolution.PointerChain
  EntityResolution.MergeForest

universe u

variable {R E H : Type u}

/-- One `entities` row: the columns that a transition writes. -/
structure EntityRow (E : Type u) where
  status : Status
  mergedInto : Option E
  deriving DecidableEq

/-- The row that a transition writes. -/
def EntityTransition.row (transition : EntityTransition E) : EntityRow E :=
  ⟨transition.status, transition.mergedInto⟩

/-- What an entity row says of the entity. -/
def EntityRow.fate (row : EntityRow E) : Fate E :=
  match row.status, row.mergedInto with
  | .active, _ => .live
  | .merged, some survivor => .movedTo survivor
  | .merged, none => .closed
  | .retired, _ => .closed

variable [LinearOrder R] [LinearOrder E] [LinearOrder H]

/-- The tables that a reconcile writes: `entity_membership` and `entities`. -/
structure Registry (R E : Type u) [LinearOrder R] [LinearOrder E] where
  membership : BTreeMap R E
  entities : BTreeMap E (EntityRow E)

namespace Registry

/-- No records and no entities. -/
def empty : Registry R E := ⟨∅, ∅⟩

/-- The old membership that a run is planned on: every entity's records. -/
def pOld (registry : Registry R E) : BTreeMap E (List R) :=
  BTreeMap.keysByValue registry.membership

/-- Write a plan: assignments overwrite the membership, transitions the entity rows. -/
def apply (registry : Registry R E) (plan : ReconcilePlan R E H) : Registry R E where
  membership := plan.reassign registry.membership
  entities := registry.entities.insertMany
    (plan.transitions.map fun transition => (transition.entityId, transition.row))

/-- The redirect of an entity. -/
def mergedInto (registry : Registry R E) (entity : E) : Option E :=
  registry.entities[entity]?.bind EntityRow.mergedInto

/-- The fates of all entities that ever existed. -/
def census (registry : Registry R E) : Census E := fun entity =>
  registry.entities[entity]?.map EntityRow.fate

end Registry

/-- One reconcile run, on an arbitrary new partition and with ids that no entity of the
registry has ever had. -/
inductive Reconciles (digest : EventDetails R E → H) (registry : Registry R E) :
    Registry R E → Prop
  | run {pNew : List (List R)} {factory : IdFactory E} {plan : ReconcilePlan R E H}
      (hnew : IsPartition pNew) (hfresh : factory.Fresh fun id => id ∈ registry.entities)
      (hplan : reconcilePlan digest registry.pOld pNew factory = some plan) :
      Reconciles digest registry (registry.apply plan)

/-- The registries that a number of runs make out of the empty one. -/
inductive History (digest : EventDetails R E → H) : ℕ → Registry R E → Prop
  | start : History digest 0 .empty
  | next {n : ℕ} {registry later : Registry R E} (hhistory : History digest n registry)
      (hrun : Reconciles digest registry later) : History digest (n + 1) later

omit [LinearOrder H] in
theorem Registry.pOld_isMembership (registry : Registry R E) : IsMembership registry.pOld where
  nonempty entity members hmembers := (BTreeMap.keysByValue_eq_some_iff.mp hmembers).2
  disjoint first second left right hleft hright hne record hmem hmem' := by
    rw [BTreeMap.mem_keysByValue hleft] at hmem
    rw [BTreeMap.mem_keysByValue hright] at hmem'
    exact hne (Option.some.inj (hmem.symm.trans hmem'))

omit [LinearOrder H] in
theorem Registry.membershipBefore_pOld (registry : Registry R E) :
    membershipBefore registry.pOld = registry.membership := by
  apply BTreeMap.ext_some
  intro record entity
  rw [membershipBefore_eq_some_iff registry.pOld_isMembership]
  apply Iff.intro
  · intro hmember
    obtain ⟨members, hmembers, hmem⟩ := hmember
    exact (BTreeMap.mem_keysByValue hmembers).mp hmem
  · intro hrecord
    obtain ⟨members, hmembers⟩ := BTreeMap.exists_keysByValue hrecord
    exact ⟨members, hmembers, (BTreeMap.mem_keysByValue hmembers).mpr hrecord⟩

omit [LinearOrder H] in
/-- A run is planned on the non-empty sets of records that the membership gives to each
entity. -/
theorem Registry.oldSets_pOld_eq_some_iff {registry : Registry R E} {entity : E}
    {before : Finset R} :
    (oldSets registry.pOld)[entity]? = some before ↔ before.Nonempty ∧
      ∀ record, record ∈ before ↔ registry.membership[record]? = some entity := by
  rw [oldSets_eq_some_iff]
  apply Iff.intro
  · intro hbefore
    obtain ⟨members, hmembers, rfl⟩ := hbefore
    have hne := registry.pOld_isMembership.nonempty _ _ hmembers
    refine ⟨by simpa [List.toFinset_nonempty_iff] using hne, fun record => ?_⟩
    rw [List.mem_toFinset]
    exact BTreeMap.mem_keysByValue hmembers
  · intro hbefore
    obtain ⟨⟨record, hrecord⟩, hmem⟩ := hbefore
    obtain ⟨members, hmembers⟩ := BTreeMap.exists_keysByValue ((hmem record).mp hrecord)
    refine ⟨members, hmembers, ?_⟩
    ext other
    rw [List.mem_toFinset, hmem]
    exact BTreeMap.mem_keysByValue hmembers

omit [LinearOrder H] in
theorem Registry.exists_record_of_oldSets {registry : Registry R E} {entity : E}
    {before : Finset R} (hbefore : (oldSets registry.pOld)[entity]? = some before) :
    ∃ record : R, registry.membership[record]? = some entity := by
  obtain ⟨⟨record, hrecord⟩, hmem⟩ := Registry.oldSets_pOld_eq_some_iff.mp hbefore
  exact ⟨record, (hmem record).mp hrecord⟩

/-- What every run keeps: records belong to active entities, active entities have
records, and exactly the merged rows carry a redirect. -/
structure Registry.Sound (registry : Registry R E) : Prop where
  member_active : ∀ {record : R} {entity : E}, registry.membership[record]? = some entity →
    registry.entities[entity]? = some ⟨.active, none⟩
  active_nonempty : ∀ {entity : E} {row : EntityRow E}, registry.entities[entity]? = some row →
    row.status = .active → ∃ record : R, registry.membership[record]? = some entity
  merged_iff : ∀ {entity : E} {row : EntityRow E}, registry.entities[entity]? = some row →
    (row.status = .merged ↔ ∃ survivor, row.mergedInto = some survivor)

section Facts

variable {digest : EventDetails R E → H} {registry : Registry R E}

omit [LinearOrder H]

theorem sound_empty : (Registry.empty : Registry R E).Sound where
  member_active h := by simp [Registry.empty] at h
  active_nonempty h := by simp [Registry.empty] at h
  merged_iff h := by simp [Registry.empty] at h

/-- The redirects of a sound registry are the merge pointers of its census. -/
theorem Registry.Sound.target_census (hsound : registry.Sound) :
    target registry.census = registry.mergedInto := by
  funext entity
  unfold target Registry.census Registry.mergedInto
  cases hrow : registry.entities[entity]? with
  | none => rfl
  | some row =>
      have hmerged := hsound.merged_iff hrow
      obtain ⟨status, survivor⟩ := row
      cases status <;> cases survivor <;> simp [EntityRow.fate] at hmerged ⊢

variable {pNew : List (List R)} {factory : IdFactory E} {groups : BTreeMap R (Finset R)}
  {plan : ReconcilePlan R E H}

theorem Planned.entities_eq_some_iff
    (hrun : Planned digest registry.pOld pNew factory groups plan) {entity : E}
    {row : EntityRow E} :
    (registry.apply plan).entities[entity]? = some row ↔
      (∃ transition, PlansTransition (oldSets registry.pOld) groups factory transition ∧
        transition.entityId = entity ∧ transition.row = row) ∨
      (∀ transition, PlansTransition (oldSets registry.pOld) groups factory transition →
        transition.entityId ≠ entity) ∧ registry.entities[entity]? = some row := by
  have hkeys : (plan.transitions.map fun transition =>
      (transition.entityId, transition.row)).map Prod.fst =
        plan.transitions.map EntityTransition.entityId := by
    simp [Function.comp_def]
  rw [Registry.apply, BTreeMap.getElem?_insertMany_eq_some_iff
    (by rw [hkeys]; exact hrun.facts.transitions_nodup), hkeys]
  simp only [List.mem_map, Prod.mk.injEq, hrun.facts.mem_transitions, not_exists, not_and, ne_eq]

/-- A row that a transition of the plan wrote. -/
theorem Planned.entities_of_transition
    (hrun : Planned digest registry.pOld pNew factory groups plan)
    {transition : EntityTransition E}
    (htransition : PlansTransition (oldSets registry.pOld) groups factory transition) :
    (registry.apply plan).entities[transition.entityId]? = some transition.row :=
  hrun.entities_eq_some_iff.mpr (.inl ⟨transition, htransition, rfl, rfl⟩)

theorem Planned.membership_eq_some_iff
    (hrun : Planned digest registry.pOld pNew factory groups plan) {record : R} {entity : E} :
    (registry.apply plan).membership[record]? = some entity ↔
      Lands (oldSets registry.pOld) groups factory record entity := by
  rw [Registry.apply, ← registry.membershipBefore_pOld]
  exact hrun.after_eq_some_iff

/-- The entities that a plan names hold records now, or never existed. -/
theorem Registry.Sound.active_or_new (hsound : registry.Sound)
    (hrun : Planned digest registry.pOld pNew factory groups plan)
    (hfresh : factory.Fresh fun id => id ∈ registry.entities) {entity : E}
    (horigin : (∃ before, (oldSets registry.pOld)[entity]? = some before) ∨
      ∃ key : R, (mintedIds (oldSets registry.pOld) groups factory)[key]? = some entity) :
    registry.entities[entity]? = some ⟨.active, none⟩ ∨ registry.entities[entity]? = none := by
  rcases horigin with ⟨before, hbefore⟩ | ⟨key, hid⟩
  · obtain ⟨record, hrecord⟩ := Registry.exists_record_of_oldSets hbefore
    exact .inl (hsound.member_active hrecord)
  · obtain ⟨i, _, rfl⟩ := (mintedIds_eq_some_iff hrun.canonical).mp hid
    apply Or.inr
    apply Option.eq_none_iff_forall_ne_some.mpr
    intro row hrow
    exact hfresh.unused i (BTreeMap.mem_iff_exists_getElem?.mpr ⟨row, hrow⟩)

/-- Where a record lands, the entity is active after the plan, if the records were held by
active entities before it. -/
theorem Planned.active_of_lands (hrun : Planned digest registry.pOld pNew factory groups plan)
    (hmember : ∀ {record : R} {entity : E}, registry.membership[record]? = some entity →
      registry.entities[entity]? = some ⟨.active, none⟩) {record : R} {entity : E}
    (hlands : Lands (oldSets registry.pOld) groups factory record entity) :
    (registry.apply plan).entities[entity]? = some ⟨.active, none⟩ := by
  cases hlands with
  | orphan horphan hid => exact hrun.entities_of_transition (.orphan horphan hid)
  | @grouped key _ members _ hkey hmem hholder =>
      cases haccepted : (accepted (oldSets registry.pOld) groups)[key]? with
      | none =>
          rw [holder_of_unclaimed haccepted] at hholder
          exact hrun.entities_of_transition (.created hkey haccepted hholder)
      | some claimant =>
          rw [holder_of_accepted haccepted] at hholder
          cases hholder
          obtain ⟨before, hbefore⟩ := accepted_old haccepted
          by_cases hchanged : before = members
          · -- An unchanged entity has no transition and was active already.
            subst hchanged
            obtain ⟨holding, hholding⟩ := Registry.exists_record_of_oldSets hbefore
            exact hrun.entities_eq_some_iff.mpr (.inr
              ⟨(silent_of_unchanged hrun.disjoint hrun.canonical hrun.freshFor hkey hbefore).1,
                hmember hholding⟩)
          · exact hrun.entities_of_transition (.kept hkey haccepted hbefore hchanged)

/-- A transition into a merge names a survivor that is active after the plan. -/
theorem Registry.Sound.survivor_active (hsound : registry.Sound)
    (hrun : Planned digest registry.pOld pNew factory groups plan)
    {transition : EntityTransition E}
    (htransition : PlansTransition (oldSets registry.pOld) groups factory transition)
    {survivor : E} (hmerged : transition.mergedInto = some survivor) :
    (registry.apply plan).entities[survivor]? = some ⟨.active, none⟩ := by
  cases htransition with
  | created hkey hunclaimed hid => cases hmerged
  | kept hkey haccepted hbefore hchanged => cases hmerged
  | retired hbefore hoffer => cases hmerged
  | orphan horphan hid => cases hmerged
  | merged hoffer haccepted hlost =>
      cases hmerged
      obtain ⟨members, _, hkey, _, _⟩ := offer_mem hoffer
      exact hrun.active_of_lands hsound.member_active
        (.grouped hkey (hrun.canonical.key_mem hkey) (holder_of_accepted haccepted))

/-- An entity that a plan leaves active has a record after it. -/
theorem Registry.Sound.record_of_active (hsound : registry.Sound)
    (hrun : Planned digest registry.pOld pNew factory groups plan) {entity : E}
    {row : EntityRow E} (hrow : (registry.apply plan).entities[entity]? = some row)
    (hactive : row.status = .active) :
    ∃ record, Lands (oldSets registry.pOld) groups factory record entity := by
  have hkept {key : R}
      (haccepted : (accepted (oldSets registry.pOld) groups)[key]? = some entity) :
      ∃ record, Lands (oldSets registry.pOld) groups factory record entity := by
    obtain ⟨members, _, hkey, _, _⟩ := offer_mem (accepted_spec haccepted).1
    exact ⟨key, .grouped hkey (hrun.canonical.key_mem hkey) (holder_of_accepted haccepted)⟩
  rcases hrun.entities_eq_some_iff.mp hrow with ⟨transition, htransition, rfl, rfl⟩ | ⟨hnone, hold⟩
  · cases htransition with
    | created hkey hunclaimed hid =>
        exact ⟨_, .grouped hkey (hrun.canonical.key_mem hkey)
          ((holder_of_unclaimed hunclaimed).trans hid)⟩
    | kept hkey haccepted hbefore hchanged => exact hkept haccepted
    | retired hbefore hoffer => cases hactive
    | merged hoffer haccepted hlost => cases hactive
    | orphan horphan hid => exact ⟨_, .orphan horphan hid⟩
  · -- An untouched active entity held records, so it made an offer and won it.
    obtain ⟨record, hrecord⟩ := hsound.active_nonempty hold hactive
    obtain ⟨members, hmembers⟩ := BTreeMap.exists_keysByValue hrecord
    have hbefore : (oldSets registry.pOld)[entity]? = some members.toFinset :=
      oldSets_eq_some_iff.mpr ⟨members, hmembers, rfl⟩
    rcases oldEntity_cases (oldSets registry.pOld) groups entity with hoffer |
      ⟨key, hoffer, haccepted⟩ | ⟨key, claimant, fragment, hoffer, haccepted, hlost, hcell⟩
    · exact absurd rfl (hnone _ (.retired hbefore hoffer))
    · exact hkept haccepted
    · exact absurd rfl (hnone _ (.merged hoffer haccepted hlost))

/-- The step lemma: a run keeps the invariant. -/
theorem Registry.Sound.apply (hsound : registry.Sound)
    (hrun : Planned digest registry.pOld pNew factory groups plan) :
    (registry.apply plan).Sound where
  member_active hmember :=
    hrun.active_of_lands hsound.member_active (hrun.membership_eq_some_iff.mp hmember)
  active_nonempty hrow hactive := by
    obtain ⟨record, hlands⟩ := hsound.record_of_active hrun hrow hactive
    exact ⟨record, hrun.membership_eq_some_iff.mpr hlands⟩
  merged_iff hrow := by
    rcases hrun.entities_eq_some_iff.mp hrow with ⟨transition, htransition, rfl, rfl⟩ | ⟨_, hold⟩
    · cases htransition <;> simp [EntityTransition.row]
    · exact hsound.merged_iff hold

/-- The step lemma: a run advances the census. -/
theorem Registry.Sound.advances (hsound : registry.Sound)
    (hrun : Planned digest registry.pOld pNew factory groups plan)
    (hfresh : factory.Fresh fun id => id ∈ registry.entities) :
    Advances registry.census (registry.apply plan).census where
  final := by
    intro entity fate hfate hdone
    obtain ⟨row, hrow, rfl⟩ := Option.map_eq_some_iff.mp hfate
    have huntouched (transition : EntityTransition E)
        (htransition : PlansTransition (oldSets registry.pOld) groups factory transition) :
        transition.entityId ≠ entity := by
      intro hentity
      subst hentity
      rcases hsound.active_or_new hrun hfresh htransition.entity_origin with hactive | hnone
      · cases hrow.symm.trans hactive
        exact hdone rfl
      · cases hrow.symm.trans hnone
    exact Option.map_eq_some_iff.mpr
      ⟨row, hrun.entities_eq_some_iff.mpr (.inr ⟨huntouched, hrow⟩), rfl⟩
  known := by
    intro entity hlive
    obtain ⟨row, hrow, _⟩ := Option.map_eq_some_iff.mp hlive
    by_cases htouched : ∃ transition, PlansTransition (oldSets registry.pOld) groups factory
        transition ∧ transition.entityId = entity
    · obtain ⟨transition, htransition, rfl⟩ := htouched
      exact ⟨_, Option.map_eq_some_iff.mpr ⟨_, hrun.entities_of_transition htransition, rfl⟩⟩
    · have huntouched : ∀ transition, PlansTransition (oldSets registry.pOld) groups factory
          transition → transition.entityId ≠ entity :=
        fun transition htransition hentity => htouched ⟨transition, htransition, hentity⟩
      exact ⟨_, Option.map_eq_some_iff.mpr
        ⟨row, hrun.entities_eq_some_iff.mpr (.inr ⟨huntouched, hrow⟩), rfl⟩⟩
  lands := by
    intro entity survivor hmoved hnew
    obtain ⟨row, hrow, hfate⟩ := Option.map_eq_some_iff.mp hmoved
    rcases hrun.entities_eq_some_iff.mp hrow with ⟨transition, htransition, rfl, rfl⟩ | ⟨_, hold⟩
    · have hmerged : transition.mergedInto = some survivor := by
        cases htransition <;> simp [EntityTransition.row, EntityRow.fate] at hfate ⊢
        exact hfate
      have hactive := hsound.survivor_active hrun htransition hmerged
      exact Option.map_eq_some_iff.mpr ⟨_, hactive, rfl⟩
    · exact absurd (Option.map_eq_some_iff.mpr ⟨row, hold, hfate⟩) hnew

end Facts

/-! ## Whole histories -/

section Histories

variable {digest : EventDetails R E → H} {registry later : Registry R E}

omit [LinearOrder H] in
theorem Registry.Sound.fresh_pOld (hsound : registry.Sound) {factory : IdFactory E}
    (hfresh : factory.Fresh fun id => id ∈ registry.entities) :
    factory.Fresh fun id => id ∈ registry.pOld where
  distinct := hfresh.distinct
  unused i hused := by
    obtain ⟨members, hmembers⟩ := BTreeMap.mem_iff_exists_getElem?.mp hused
    rcases Registry.exists_record_of_oldSets (oldSets_eq_some_iff.mpr ⟨members, hmembers, rfl⟩) with
      ⟨record, hrecord⟩
    exact hfresh.unused i
      (BTreeMap.mem_iff_exists_getElem?.mpr ⟨_, hsound.member_active hrecord⟩)

/-- A run keeps the invariant and advances the census. -/
theorem Reconciles.step (hsound : registry.Sound) (hrun : Reconciles digest registry later) :
    later.Sound ∧ Advances registry.census later.census := by
  cases hrun with
  | run hnew hfresh hplan =>
      obtain ⟨groups, hplanned⟩ :=
        planned_of_reconcilePlan registry.pOld_isMembership hnew (hsound.fresh_pOld hfresh)
          hplan
      exact ⟨hsound.apply hplanned, hsound.advances hplanned hfresh⟩

/-- The run lemma: every registry of a history is sound, and every redirect chain in it
ends after at most as many hops as there were runs. -/
theorem History.sound {n : ℕ} (hhistory : History digest n registry) :
    registry.Sound ∧ Grounded n registry.census := by
  induction hhistory with
  | start => exact ⟨sound_empty, grounded_nothing⟩
  | next _ hrun ih =>
      obtain ⟨hsound, hadvances⟩ := hrun.step ih.1
      exact ⟨hsound, hadvances.grounded ih.2⟩

/-- Any further runs keep the invariant and advance the census. -/
theorem steps_of_reflTransGen (hsound : registry.Sound)
    (hruns : Relation.ReflTransGen (Reconciles digest) registry later) :
    later.Sound ∧ Relation.ReflTransGen Advances registry.census later.census := by
  induction hruns with
  | refl => exact ⟨hsound, .refl⟩
  | tail _ hrun ih =>
      obtain ⟨hsound', hadvances⟩ := hrun.step ih.1
      exact ⟨hsound', ih.2.tail hadvances⟩

omit [LinearOrder H] in
/-- In sound registries, rows of one fate other than being live are the same row. -/
theorem row_eq_of_fate (hsound : registry.Sound) (hsound' : later.Sound) {entity : E}
    {row : EntityRow E} (hrow : registry.entities[entity]? = some row)
    (hdone : row.status ≠ .active) (hfate : later.census entity = some row.fate) :
    later.entities[entity]? = some row := by
  obtain ⟨row', hrow', hsame⟩ := Option.map_eq_some_iff.mp hfate
  have hmerged := hsound.merged_iff hrow
  have hmerged' := hsound'.merged_iff hrow'
  obtain ⟨status, survivor⟩ := row
  obtain ⟨status', survivor'⟩ := row'
  rw [hrow']
  cases status <;> cases survivor <;> cases status' <;> cases survivor' <;>
    simp [EntityRow.fate] at hmerged hmerged' hsame hdone ⊢
  exact hsame

/-- The life cycle of entities over whole histories. Records belong to active entities and
active entities have records; a merged or retired entity keeps its row and gets no record
in any continuation; every plan that can follow names each entity in one transition at
most, touches no merged or retired entity, and merges only into entities that are active
after it; and the redirects are acyclic, every chain ending in an active or a retired
entity. -/
theorem entity_lifecycle {n : ℕ} (hhistory : History digest n registry) :
    (∀ (record : R) (entity : E), registry.membership[record]? = some entity →
      ∃ row, registry.entities[entity]? = some row ∧ row.status = .active) ∧
    (∀ (entity : E) (row : EntityRow E), registry.entities[entity]? = some row →
      row.status = .active → ∃ record : R, registry.membership[record]? = some entity) ∧
    (∀ (entity : E) (row : EntityRow E), registry.entities[entity]? = some row →
      row.status ≠ .active → ∀ later, Relation.ReflTransGen (Reconciles digest) registry later →
      later.entities[entity]? = some row ∧
      ∀ record : R, later.membership[record]? ≠ some entity) ∧
    (∀ (pNew : List (List R)) (factory : IdFactory E), IsPartition pNew →
      (factory.Fresh fun id => id ∈ registry.entities) →
      ∃ plan, reconcilePlan digest registry.pOld pNew factory = some plan ∧
        (plan.transitions.map EntityTransition.entityId).Nodup ∧
        (∀ transition ∈ plan.transitions, ∀ survivor, transition.mergedInto = some survivor →
          ∃ row, (registry.apply plan).entities[survivor]? = some row ∧ row.status = .active) ∧
        ∀ (entity : E) (row : EntityRow E), registry.entities[entity]? = some row →
          row.status ≠ .active →
          (∀ assignment ∈ plan.assignments, assignment.entityId ≠ entity) ∧
            ∀ transition ∈ plan.transitions, transition.entityId ≠ entity) ∧
    (∀ (k : ℕ) (entity : E), ¬ Hops registry.mergedInto (k + 1) entity entity) ∧
    ∀ (entity : E) (row : EntityRow E), registry.entities[entity]? = some row →
      ∃ k last row', Settles registry.mergedInto k entity last ∧
        registry.entities[last]? = some row' ∧
        (row'.status = .active ∨ row'.status = .retired) := by
  obtain ⟨hsound, hgrounded⟩ := hhistory.sound
  refine ⟨?_, fun entity row => hsound.active_nonempty, ?_, ?_, ?_, ?_⟩
  · intro record entity hrecord
    exact ⟨_, hsound.member_active hrecord, rfl⟩
  · intro entity row hrow hdone later hruns
    obtain ⟨hsound', hadvances⟩ := steps_of_reflTransGen hsound hruns
    have hnotLive : row.fate ≠ .live := by
      obtain ⟨status, survivor⟩ := row
      cases status <;> cases survivor <;> simp [EntityRow.fate] at hdone ⊢
    have hfate : later.census entity = some row.fate :=
      final_of_reflTransGen hadvances (Option.map_eq_some_iff.mpr ⟨row, hrow, rfl⟩) hnotLive
    have hrow' := row_eq_of_fate hsound hsound' hrow hdone hfate
    refine ⟨hrow', fun record hrecord => hdone ?_⟩
    cases hrow'.symm.trans (hsound'.member_active hrecord)
    rfl
  · intro pNew factory hnew hfresh
    obtain ⟨groups, plan, hplan, hrun⟩ : ∃ groups plan,
        reconcilePlan digest registry.pOld pNew factory = some plan ∧
          Planned digest registry.pOld pNew factory groups plan :=
      exists_planned registry.pOld_isMembership hnew (hsound.fresh_pOld hfresh)
    refine ⟨plan, hplan, hrun.facts.transitions_nodup, ?_, ?_⟩
    · intro transition htransition survivor hsurvivor
      exact ⟨_, hsound.survivor_active hrun ((hrun.facts.mem_transitions _).mp htransition)
        hsurvivor, rfl⟩
    · intro entity row hrow hdone
      have hunnamed (horigin : (∃ before, (oldSets registry.pOld)[entity]? = some before) ∨
          ∃ key : R, (mintedIds (oldSets registry.pOld) groups factory)[key]? = some entity) :
          False := by
        rcases hsound.active_or_new hrun hfresh horigin with hactive | hnone
        · cases hrow.symm.trans hactive
          exact hdone rfl
        · cases hrow.symm.trans hnone
      apply And.intro
      · intro assignment hassignment hentity
        subst hentity
        exact hunnamed ((hrun.facts.mem_assignments _).mp hassignment).1.entity_origin
      · intro transition htransition hentity
        subst hentity
        exact hunnamed ((hrun.facts.mem_transitions _).mp htransition).entity_origin
  · rw [← hsound.target_census]
    exact hgrounded.acyclic
  · intro entity row hrow
    rcases hgrounded entity row.fate (Option.map_eq_some_iff.mpr ⟨row, hrow, rfl⟩) with
      ⟨k, last, _, hsettles, hend⟩
    have hlast : ∃ row', registry.entities[last]? = some row' ∧
        (row'.fate = .live ∨ row'.fate = .closed) := by
      rcases hend with hlive | hclosed
      · obtain ⟨row', hrow', hfate⟩ := Option.map_eq_some_iff.mp hlive
        exact ⟨row', hrow', .inl hfate⟩
      · obtain ⟨row', hrow', hfate⟩ := Option.map_eq_some_iff.mp hclosed
        exact ⟨row', hrow', .inr hfate⟩
    obtain ⟨row', hrow', hfate⟩ := hlast
    rw [hsound.target_census] at hsettles
    refine ⟨k, last, row', hsettles, hrow', ?_⟩
    have hmerged := hsound.merged_iff hrow'
    obtain ⟨status, survivor⟩ := row'
    cases status <;> cases survivor <;> simp [EntityRow.fate] at hmerged hfate ⊢

end Histories

/-- One run on the empty registry, and the entity it gives to record 1. -/
theorem entity_lifecycle_first_run :
    ∃ (registry : Registry ℕ ℕ) (entity : ℕ) (row : EntityRow ℕ),
      History sampleDigest 1 registry ∧ registry.membership[1]? = some entity ∧
        registry.entities[entity]? = some row ∧ row.status = .active := by
  have hnew : IsPartition [[1, 2]] := ⟨by simp, by simp⟩
  have hfresh : sampleFactory.Fresh fun id => id ∈ (Registry.empty : Registry ℕ ℕ).entities :=
    ⟨sampleFactory_fresh.distinct, by simp [Registry.empty]⟩
  obtain ⟨groups, plan, hplan, hrun⟩ : ∃ groups plan,
      reconcilePlan sampleDigest Registry.empty.pOld [[1, 2]] sampleFactory = some plan ∧
        Planned sampleDigest Registry.empty.pOld [[1, 2]] sampleFactory groups plan :=
    exists_planned (Registry.pOld_isMembership _) hnew (sound_empty.fresh_pOld hfresh)
  have hhistory : History sampleDigest 1 (Registry.empty.apply plan) :=
    .next .start (.run hnew hfresh hplan)
  obtain ⟨entity, hlands⟩ : ∃ entity, Lands (oldSets Registry.empty.pOld) groups sampleFactory 1
      entity := exists_lands hrun.canonical (.inl (hrun.mem_clustered_iff.mpr (by decide)))
  have hmember := hrun.membership_eq_some_iff.mpr hlands
  obtain ⟨row, hrow, hactive⟩ := (entity_lifecycle hhistory).1 1 entity hmember
  exact ⟨_, entity, row, hhistory, hmember, hrow, hactive⟩

end EntityResolution.Reconcile
