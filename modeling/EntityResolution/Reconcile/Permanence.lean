/-
# INV-PERM: which ids survive a reconcile

An old entity keeps its id on a group when every record of that group ends up under
that id. The matching decides this: a group keeps the id that it accepted, and a group
that accepted none gets a fresh one. Everything here is read off the offers and
acceptances, so a change to the ranking of fragments reaches only the comparison of
fragment sizes.

Independence of the input order needs no argument about the loops. A plan is a function
of the old sets and of the canonical groups, and the canonical groups are determined by
which sets the clustering lists.
-/

import EntityResolution.Reconcile.Outcome

namespace EntityResolution.Reconcile

open EntityResolution.Collections EntityResolution.Identity

universe u

variable {R E H : Type u} [LinearOrder R] [LinearOrder E] [LinearOrder H]

/-- An old entity keeps its id on a group: the group's records all end up under it. -/
def KeepsId (pOld : BTreeMap E (List R)) (after : BTreeMap R E) (entity : E) (group : List R) :
    Prop :=
  entity ∈ pOld ∧ ∀ record ∈ group, after[record]? = some entity

theorem card_le_of_fragmentRank_le {better worse : Finset R}
    (hrank : fragmentRank better ≤ fragmentRank worse) : worse.card ≤ better.card := by
  have hfirst := Prod.Lex.monotone_fst _ _ hrank
  simp only [fragmentRank, ofLex_toLex] at hfirst
  omega

section Unchanged

variable {old : BTreeMap E (Finset R)} {groups : BTreeMap R (Finset R)} {factory : IdFactory E}

theorem Lands.entity_origin {record : R} {entity : E}
    (hlands : Lands old groups factory record entity) :
    (∃ before, old[entity]? = some before) ∨
      ∃ key : R, (mintedIds old groups factory)[key]? = some entity := by
  cases hlands with
  | @grouped key _ _ _ hkey hmem hholder =>
      cases haccepted : (accepted old groups)[key]? with
      | some claimant =>
          rw [holder_of_accepted haccepted, Option.some.injEq] at hholder
          exact .inl (hholder ▸ accepted_old haccepted)
      | none => exact .inr ⟨key, (holder_of_unclaimed haccepted).symm.trans hholder⟩
  | orphan horphan hid => exact .inr ⟨record, hid⟩

theorem PlansTransition.entity_origin {row : EntityTransition E}
    (hrow : PlansTransition old groups factory row) :
    (∃ before, old[row.entityId]? = some before) ∨
      ∃ key : R, (mintedIds old groups factory)[key]? = some row.entityId := by
  cases hrow with
  | created hkey hunclaimed hid => exact .inr ⟨_, hid⟩
  | kept hkey haccepted hbefore hchanged => exact .inl ⟨_, hbefore⟩
  | retired hbefore hoffer => exact .inl ⟨_, hbefore⟩
  | merged hoffer haccepted hlost =>
      obtain ⟨_, before, _, hbefore, _⟩ := offer_mem hoffer
      exact .inl ⟨before, hbefore⟩
  | orphan horphan hid => exact .inr ⟨_, hid⟩

theorem PlansEvent.entity_origin {entity : E} {eventType : EventType} {details : EventDetails R E}
    (hevent : PlansEvent old groups factory entity eventType details) :
    (∃ before, old[entity]? = some before) ∨
      ∃ key : R, (mintedIds old groups factory)[key]? = some entity := by
  cases hevent with
  | created hkey hunclaimed hid => exact .inr ⟨_, hid⟩
  | memberAdded hkey haccepted hjoined => exact .inl (accepted_old haccepted)
  | memberRemoved hkey haccepted hbefore hleft => exact .inl ⟨_, hbefore⟩
  | split hkey hholder hcell helsewhere =>
      obtain ⟨_, _, hmembers, _, rfl, _, hmem⟩ := cell?_overlapMatrix.mp hcell
      exact Lands.entity_origin (.grouped hmembers (Finset.mem_inter.mp hmem).1 hholder)
  | retired hbefore hoffer => exact .inl ⟨_, hbefore⟩
  | merged hoffer haccepted hlost hcell =>
      obtain ⟨_, before, _, hbefore, _⟩ := offer_mem hoffer
      exact .inl ⟨before, hbefore⟩
  | orphan horphan hid => exact .inr ⟨_, hid⟩

/-- A fragment of an unchanged entity lies in its own group, and the fragments of an
unchanged group are of its own entity. -/
theorem cell_of_unchanged (hold : BTreeMap.SetsDisjoint old) (hgroups : CanonicalGroups groups)
    {key other : R} {entity from_ : E} {members fragment : Finset R}
    (hkey : groups[key]? = some members) (hbefore : old[entity]? = some members)
    (hcell : BTreeMap.cell? (overlapMatrix old groups) other from_ = some fragment) :
    other = key ↔ from_ = entity := by
  obtain ⟨members', before', hother, hfrom, rfl, record, hrecord⟩ := cell?_overlapMatrix.mp hcell
  obtain ⟨hin, hin'⟩ := Finset.mem_inter.mp hrecord
  constructor
  · intro hsame
    subst hsame
    obtain rfl := Option.some.inj (hkey.symm.trans hother)
    exact hold.owner_unique hfrom hbefore hin' hin
  · intro hsame
    subst hsame
    obtain rfl := Option.some.inj (hbefore.symm.trans hfrom)
    exact hgroups.disjoint.owner_unique hother hkey hin hin'

/-- An entity whose member set is a new group offers its id to that group and is
accepted there, having no competitor. -/
theorem accepted_of_unchanged (hold : BTreeMap.SetsDisjoint old) (hgroups : CanonicalGroups groups)
    {key : R} {entity : E} {members : Finset R} (hkey : groups[key]? = some members)
    (hbefore : old[entity]? = some members) :
    (accepted old groups)[key]? = some entity := by
  have hcell : BTreeMap.cell? (overlapMatrix old groups) key entity = some (members ∩ members) :=
    exists_cell_of_mem hkey hbefore (hgroups.key_mem hkey) (hgroups.key_mem hkey)
  obtain ⟨key', hoffer⟩ := exists_offer_of_cell hcell
  obtain ⟨fragment, hcell', _⟩ := offers_spec hoffer
  obtain rfl : key' = key := (cell_of_unchanged hold hgroups hkey hbefore hcell').mpr rfl
  obtain ⟨claimant, haccepted⟩ := exists_accepted_of_offer hoffer
  obtain ⟨fragment', hcell'', _⟩ := offers_spec (accepted_spec haccepted).1
  obtain rfl : claimant = entity := (cell_of_unchanged hold hgroups hkey hbefore hcell'').mp rfl
  exact haccepted

/-- Nothing is planned for an entity whose member set is a new group. -/
theorem silent_of_unchanged (hold : BTreeMap.SetsDisjoint old) (hgroups : CanonicalGroups groups)
    (hfresh : FreshFor factory old) {key : R} {entity : E} {members : Finset R}
    (hkey : groups[key]? = some members) (hbefore : old[entity]? = some members) :
    (∀ row, PlansTransition old groups factory row → row.entityId ≠ entity) ∧
      ∀ eventType details, ¬ PlansEvent old groups factory entity eventType details := by
  have haccepted := accepted_of_unchanged hold hgroups hkey hbefore
  have hoffer := (accepted_spec haccepted).1
  have hminted (other : R) : (mintedIds old groups factory)[other]? ≠ some entity := fun hid =>
    hfresh.minted_not_old hgroups hid members hbefore
  have hsame {other : R} {members' : Finset R} (hother : groups[other]? = some members')
      (haccepted' : (accepted old groups)[other]? = some entity) : members' = members := by
    obtain rfl := accepted_injective haccepted' haccepted
    exact Option.some.inj (hother.symm.trans hkey)
  have hlost {other : R} {claimant : E} (hoffer' : (offers old groups)[entity]? = some other)
      (haccepted' : (accepted old groups)[other]? = some claimant) : claimant = entity := by
    obtain rfl := Option.some.inj (hoffer'.symm.trans hoffer)
    exact Option.some.inj (haccepted'.symm.trans haccepted)
  constructor
  · intro row hrow hentity
    subst hentity
    cases hrow with
    | created hkey' hunclaimed hid => exact hminted _ hid
    | kept hkey' haccepted' hbefore' hchanged =>
        obtain rfl := Option.some.inj (hbefore'.symm.trans hbefore)
        exact hchanged (hsame hkey' haccepted').symm
    | retired hbefore' hoffer' => simp [hoffer] at hoffer'
    | merged hoffer' haccepted' hclaimant => exact hclaimant (hlost hoffer' haccepted')
    | orphan horphan hid => exact hminted _ hid
  · intro eventType details hevent
    cases hevent with
    | created hkey' hunclaimed hid => exact hminted _ hid
    | memberAdded hkey' haccepted' hjoined =>
        obtain rfl := hsame hkey' haccepted'
        apply hjoined
        rw [joined, List.filter_eq_nil_iff]
        intro record hrecord hnew
        have howner : (entityOfRecord old)[record]? = some entity :=
          (BTreeMap.ownerOf_eq_some_iff hold).mpr ⟨_, hbefore, (Finset.mem_sort _).mp hrecord⟩
        have hknown : record ∈ entityOfRecord old :=
          BTreeMap.mem_iff_exists_getElem?.mpr ⟨entity, howner⟩
        simp [hknown] at hnew
    | memberRemoved hkey' haccepted' hbefore' hleft =>
        obtain rfl := hsame hkey' haccepted'
        obtain rfl := Option.some.inj (hbefore'.symm.trans hbefore)
        simp at hleft
    | split hkey' hholder hcell helsewhere =>
        obtain rfl := holder_injective hfresh hgroups hholder (holder_of_accepted haccepted)
        obtain rfl := (cell_of_unchanged hold hgroups hkey hbefore hcell).mp rfl
        exact helsewhere hoffer
    | retired hbefore' hoffer' => simp [hoffer] at hoffer'
    | merged hoffer' haccepted' hclaimant hcell => exact hclaimant (hlost hoffer' haccepted')
    | orphan horphan hid => exact hminted _ hid

end Unchanged

section Runs

variable {digest : EventDetails R E → H} {pOld : BTreeMap E (List R)} {pNew : List (List R)}
  {factory : IdFactory E}

namespace Planned

variable {groups : BTreeMap R (Finset R)} {plan : ReconcilePlan R E H}
  (hrun : Planned digest pOld pNew factory groups plan)

include hrun

omit [LinearOrder H]

theorem keepsId_iff {group : List R} {key : R} {entity : E}
    (hkey : groups[key]? = some group.toFinset) :
    KeepsId pOld (plan.reassign (membershipBefore pOld)) entity group ↔
      (accepted (oldSets pOld) groups)[key]? = some entity := by
  have hmem : key ∈ group := by simpa using hrun.canonical.key_mem hkey
  constructor
  · rintro ⟨hentity, hkeeps⟩
    obtain ⟨holding, hholder⟩ : ∃ holding, holder (oldSets pOld) groups factory key =
      some holding :=
      exists_holder hrun.canonical hkey
    have hsame : holding = entity :=
      (Lands.grouped hkey (hrun.canonical.key_mem hkey) hholder).unique hrun.canonical
        (hrun.after_eq_some_iff.mp (hkeeps key hmem))
    subst hsame
    cases haccepted : (accepted (oldSets pOld) groups)[key]? with
    | some claimant => rw [← hholder, holder_of_accepted haccepted]
    | none =>
        rw [holder_of_unclaimed haccepted] at hholder
        exact absurd hentity (hrun.mintedId_spec hholder).2
  · intro haccepted
    obtain ⟨before, hbefore⟩ := accepted_old haccepted
    refine ⟨mem_of_oldSets hbefore, fun record hrecord => hrun.after_eq_some_iff.mpr ?_⟩
    exact .grouped hkey (by simpa using hrecord) (holder_of_accepted haccepted)

theorem group_unique {first second : List R} {key : R} (hfirst : first ∈ pNew)
    (hsecond : second ∈ pNew) (hleft : groups[key]? = some first.toFinset)
    (hright : groups[key]? = some second.toFinset) : first = second := by
  by_contra hne
  have hdisjoint := hrun.partition.disjoint_of_ne hfirst hsecond hne
  have hmem := hrun.canonical.key_mem hleft
  have hmem' := hrun.canonical.key_mem hright
  exact hdisjoint (by simpa using hmem) (by simpa using hmem')

/-- An id stays with a largest fragment of its entity. -/
theorem keepsId_largest {entity : E} {members group other : List R}
    (hentity : pOld[entity]? = some members) (hgroup : group ∈ pNew) (hother : other ∈ pNew)
    (hkeeps : KeepsId pOld (plan.reassign (membershipBefore pOld)) entity group) :
    (members.toFinset ∩ group.toFinset).Nonempty ∧
      (members.toFinset ∩ other.toFinset).card ≤ (members.toFinset ∩ group.toFinset).card := by
  have hbefore : (oldSets pOld)[entity]? = some members.toFinset :=
    oldSets_eq_some_iff.mpr ⟨members, hentity, rfl⟩
  obtain ⟨key, hkey⟩ := hrun.exists_key hgroup
  obtain ⟨key', hkey'⟩ := hrun.exists_key hother
  obtain ⟨fragment, hcell, hbest⟩ :=
    offers_spec (accepted_spec ((hrun.keepsId_iff hkey).mp hkeeps)).1
  obtain ⟨left, right, hleft, hright, rfl, hnonempty⟩ := cell?_overlapMatrix.mp hcell
  obtain rfl := Option.some.inj (hleft.symm.trans hkey)
  obtain rfl := Option.some.inj (hright.symm.trans hbefore)
  rw [Finset.inter_comm members.toFinset, Finset.inter_comm members.toFinset]
  refine ⟨hnonempty, ?_⟩
  rcases (other.toFinset ∩ members.toFinset).eq_empty_or_nonempty with hempty | ⟨record, hrecord⟩
  · simp [hempty]
  · obtain ⟨hin, hin'⟩ := Finset.mem_inter.mp hrecord
    exact card_le_of_fragmentRank_le (hbest key' _ (exists_cell_of_mem hkey' hbefore hin hin'))

/-- An entity whose member set is a new group keeps its id there, and no row of the plan
is about it or about its records. -/
theorem unchanged {entity : E} {members group : List R} (hentity : pOld[entity]? = some members)
    (hgroup : group ∈ pNew) (hsets : members.toFinset = group.toFinset) :
    KeepsId pOld (plan.reassign (membershipBefore pOld)) entity group ∧
      (∀ row ∈ plan.assignments, row.entityId ≠ entity ∧ row.recordKey ∉ members) ∧
      (∀ row ∈ plan.transitions, row.entityId ≠ entity) ∧
      ∀ event ∈ plan.events, event.entityId ≠ entity := by
  obtain ⟨key, hkey⟩ := hrun.exists_key hgroup
  have hbefore : (oldSets pOld)[entity]? = some group.toFinset :=
    oldSets_eq_some_iff.mpr ⟨members, hentity, hsets⟩
  have haccepted := accepted_of_unchanged hrun.disjoint hrun.canonical hkey hbefore
  obtain ⟨htransitions, hevents⟩ :=
    silent_of_unchanged hrun.disjoint hrun.canonical hrun.freshFor hkey hbefore
  have hlands {record : R} (hrecord : record ∈ group) :
      Lands (oldSets pOld) groups factory record entity :=
    .grouped hkey (by simpa using hrecord) (holder_of_accepted haccepted)
  -- Every record of the entity is already where it lands.
  have hstays {record : R} (hrecord : record ∈ group) :
      (entityOfRecord (oldSets pOld))[record]? = some entity :=
    (BTreeMap.ownerOf_eq_some_iff hrun.disjoint).mpr ⟨_, hbefore, by simpa using hrecord⟩
  have hmem (record : R) : record ∈ members ↔ record ∈ group := by
    rw [← List.mem_toFinset, hsets, List.mem_toFinset]
  have hkeymem : key ∈ group := by simpa using hrun.canonical.key_mem hkey
  refine ⟨(hrun.keepsId_iff hkey).mpr haccepted, ?_, ?_, ?_⟩
  · rintro ⟨record, other⟩ hrow
    obtain ⟨hlands', hchanged⟩ := (hrun.facts.mem_assignments _).mp hrow
    constructor
    · rintro rfl
      rcases (hrun.lands_together_iff (hlands hkeymem)).mp hlands' with
        ⟨group', hgroup', hin, hin'⟩ | ⟨rfl, _⟩
      · obtain ⟨key', hkey'⟩ := hrun.exists_key hgroup'
        obtain rfl := hrun.canonical.disjoint.owner_unique hkey hkey'
          (hrun.canonical.key_mem hkey) (by simpa using hin)
        obtain rfl := hrun.group_unique hgroup' hgroup hkey' hkey
        exact hchanged (hstays hin')
      · exact hchanged (hstays hkeymem)
    · intro hrecord
      have hrecord' := (hmem record).mp hrecord
      obtain rfl := hlands'.unique hrun.canonical (hlands hrecord')
      exact hchanged (hstays hrecord')
  · intro row hrow
    exact htransitions row ((hrun.facts.mem_transitions row).mp hrow)
  · rintro event hevent rfl
    exact hevents _ _ ((hrun.facts.mem_events event).mp hevent).1

theorem mem_mintKeys_iff {key : R} :
    key ∈ mintKeys (oldSets pOld) groups ↔
      (∃ group ∈ pNew, group.toFinset.min = (key : WithTop R) ∧
        ∀ entity, ¬ KeepsId pOld (plan.reassign (membershipBefore pOld)) entity group) ∨
      (∃ (entity : E) (members : List R), pOld[entity]? = some members ∧ key ∈ members) ∧
        ∀ group ∈ pNew, key ∉ group := by
  rw [mem_mintKeys, mem_orphans]
  apply or_congr
  · constructor
    · rintro ⟨⟨members, hkey⟩, hunclaimed⟩
      obtain ⟨⟨group, hgroup, rfl⟩, hleast⟩ := (hrun.groups_eq_some_iff _ _).mp hkey
      refine ⟨group, hgroup, hleast, fun entity hkeeps => ?_⟩
      rw [(hrun.keepsId_iff hkey).mp hkeeps] at hunclaimed
      cases hunclaimed
    · rintro ⟨group, hgroup, hleast, hnone⟩
      have hkey := (hrun.groups_eq_some_iff _ _).mpr ⟨⟨group, hgroup, rfl⟩, hleast⟩
      refine ⟨⟨_, hkey⟩, Option.eq_none_iff_forall_ne_some.mpr fun entity haccepted => ?_⟩
      exact hnone entity ((hrun.keepsId_iff hkey).mpr haccepted)
  · apply and_congr
    · apply exists_congr
      intro entity
      exact membershipBefore_eq_some_iff hrun.membership
    · rw [hrun.mem_clustered_iff]
      simp

/-- The `i`-th mint key ends up under the `i`-th id drawn. -/
theorem after_mintKey {i : ℕ} {key : R} (hi : (mintKeys (oldSets pOld) groups)[i]? = some key) :
    (plan.reassign (membershipBefore pOld))[key]? = some (factory.draw i) := by
  have hid : (mintedIds (oldSets pOld) groups factory)[key]? = some (factory.draw i) :=
    (mintedIds_eq_some_iff hrun.canonical).mpr ⟨i, hi, rfl⟩
  apply hrun.after_eq_some_iff.mpr
  rcases mem_mintKeys.mp (List.mem_of_getElem? hi) with ⟨⟨members, hkey⟩, hunclaimed⟩ | horphan
  · exact .grouped hkey (hrun.canonical.key_mem hkey) ((holder_of_unclaimed hunclaimed).trans hid)
  · exact .orphan horphan hid

/-- Between set-equal partitions there is nothing to do. -/
theorem empty_of_setEqual (hequal : ∀ members : Finset R,
      (∃ (entity : E) (before : List R), pOld[entity]? = some before ∧
        before.toFinset = members) ↔ ∃ group ∈ pNew, group.toFinset = members) :
    plan.isEmpty = true ∧ plan.minted = [] := by
  have hsilent {entity : E} {members : List R} (hentity : pOld[entity]? = some members) :
      (∀ row ∈ plan.assignments, row.entityId ≠ entity ∧ row.recordKey ∉ members) ∧
        (∀ row ∈ plan.transitions, row.entityId ≠ entity) ∧
        ∀ event ∈ plan.events, event.entityId ≠ entity := by
    obtain ⟨group, hgroup, hsets⟩ := (hequal _).mp ⟨entity, members, hentity, rfl⟩
    exact (hrun.unchanged hentity hgroup hsets.symm).2
  -- Every group is an old entity's set and every old record is in a group.
  have hkeys : mintKeys (oldSets pOld) groups = [] := by
    apply List.eq_nil_iff_forall_not_mem.mpr
    intro key hkey
    rcases hrun.mem_mintKeys_iff.mp hkey with
      ⟨group, hgroup, _, hnone⟩ | ⟨⟨entity, members, hentity, hmem⟩, hnowhere⟩
    · obtain ⟨entity, before, hentity, hsets⟩ := (hequal _).mpr ⟨group, hgroup, rfl⟩
      exact hnone entity (hrun.unchanged hentity hgroup hsets).1
    · obtain ⟨group, hgroup, hsets⟩ := (hequal _).mp ⟨entity, members, hentity, rfl⟩
      apply hnowhere group hgroup
      rwa [← List.mem_toFinset, hsets, List.mem_toFinset]
  have horigin {entity : E} (horigin : (∃ before, (oldSets pOld)[entity]? = some before) ∨
      ∃ key : R, (mintedIds (oldSets pOld) groups factory)[key]? = some entity) :
      ∃ members, pOld[entity]? = some members := by
    rcases horigin with ⟨before, hbefore⟩ | ⟨key, hid⟩
    · obtain ⟨members, hmembers, _⟩ := oldSets_eq_some_iff.mp hbefore
      exact ⟨members, hmembers⟩
    · have hmint := mem_mintKeys_of_mintedId hrun.canonical hid
      simp [hkeys] at hmint
  constructor
  · simp only [ReconcilePlan.isEmpty, Bool.and_eq_true, List.isEmpty_iff,
      List.eq_nil_iff_forall_not_mem]
    refine ⟨⟨fun row hrow => ?_, fun row hrow => ?_⟩, fun event hevent => ?_⟩
    · obtain ⟨members, hmembers⟩ :=
        horigin ((hrun.facts.mem_assignments row).mp hrow).1.entity_origin
      exact ((hsilent hmembers).1 row hrow).1 rfl
    · obtain ⟨members, hmembers⟩ := horigin ((hrun.facts.mem_transitions row).mp hrow).entity_origin
      exact (hsilent hmembers).2.1 row hrow rfl
    · obtain ⟨members, hmembers⟩ :=
        horigin ((hrun.facts.mem_events event).mp hevent).1.entity_origin
      exact (hsilent hmembers).2.2 event hevent rfl
  · rw [hrun.facts.minted, hkeys]
    rfl

end Planned

omit [LinearOrder E] [LinearOrder H] in
theorem IsPartition.of_perm_sets {pNew' : List (List R)} (hnew : IsPartition pNew)
    (hperm : (pNew'.map List.toFinset).Perm (pNew.map List.toFinset)) : IsPartition pNew' where
  nonempty group hgroup := by
    obtain ⟨other, hother, hsets⟩ :=
      List.mem_map.mp (hperm.mem_iff.mp (List.mem_map_of_mem hgroup))
    rintro rfl
    exact hnew.nonempty other hother (List.toFinset_eq_empty_iff _ |>.mp hsets)
  disjoint := by
    have hsets : (pNew.map List.toFinset).Pairwise Disjoint :=
      List.pairwise_map.mpr (hnew.disjoint.imp List.disjoint_toFinset_iff_disjoint.mpr)
    have hsets' := (hperm.pairwise_iff fun h => Disjoint.symm h).mpr hsets
    exact (List.pairwise_map.mp hsets').imp List.disjoint_toFinset_iff_disjoint.mp

omit [LinearOrder E] [LinearOrder H] in
theorem canonicalGroups_congr {pNew' : List (List R)} (hnew : IsPartition pNew)
    (hperm : (pNew'.map List.toFinset).Perm (pNew.map List.toFinset)) :
    canonicalGroups pNew' = canonicalGroups pNew := by
  obtain ⟨groups, hgroups, hspec⟩ := canonicalGroups_spec hnew
  obtain ⟨groups', hgroups', hspec'⟩ := canonicalGroups_spec (hnew.of_perm_sets hperm)
  rw [hgroups, hgroups']
  congr 1
  apply BTreeMap.ext_some
  intro key members
  rw [hspec, hspec', ← List.mem_map, ← List.mem_map, hperm.mem_iff]

variable (digest) in
/-- INV-PERM. An id stays on one group at most and a group keeps one old id at most; an
id stays with a largest fragment of its entity; an entity whose member set is unchanged
keeps its id without a trace in the plan; set-equal partitions give the empty plan; the
plan does not depend on how the clustering lists its groups and members; and fresh ids
are handed out in ascending order of the least member of what receives them. -/
theorem id_permanence (hold : IsMembership pOld) (hnew : IsPartition pNew)
    (hfresh : factory.Fresh fun id => id ∈ pOld) :
    ∃ plan, reconcilePlan digest pOld pNew factory = some plan ∧
      (∀ (entity : E), ∀ first ∈ pNew, ∀ second ∈ pNew,
        KeepsId pOld (plan.reassign (membershipBefore pOld)) entity first →
        KeepsId pOld (plan.reassign (membershipBefore pOld)) entity second → first = second) ∧
      (∀ (first second : E), ∀ group ∈ pNew,
        KeepsId pOld (plan.reassign (membershipBefore pOld)) first group →
        KeepsId pOld (plan.reassign (membershipBefore pOld)) second group → first = second) ∧
      (∀ (entity : E) (members : List R), pOld[entity]? = some members → ∀ group ∈ pNew,
        KeepsId pOld (plan.reassign (membershipBefore pOld)) entity group →
        (members.toFinset ∩ group.toFinset).Nonempty ∧ ∀ other ∈ pNew,
          (members.toFinset ∩ other.toFinset).card ≤ (members.toFinset ∩ group.toFinset).card) ∧
      (∀ (entity : E) (members : List R), pOld[entity]? = some members → ∀ group ∈ pNew,
        members.toFinset = group.toFinset →
        KeepsId pOld (plan.reassign (membershipBefore pOld)) entity group ∧
          (∀ row ∈ plan.assignments, row.entityId ≠ entity ∧ row.recordKey ∉ members) ∧
          (∀ row ∈ plan.transitions, row.entityId ≠ entity) ∧
          ∀ event ∈ plan.events, event.entityId ≠ entity) ∧
      ((∀ members : Finset R, (∃ (entity : E) (before : List R), pOld[entity]? = some before ∧
          before.toFinset = members) ↔ ∃ group ∈ pNew, group.toFinset = members) →
        plan.isEmpty = true ∧ plan.minted = []) ∧
      (∀ pNew' : List (List R), (pNew'.map List.toFinset).Perm (pNew.map List.toFinset) →
        reconcilePlan digest pOld pNew' factory = some plan) ∧
      ∃ keys : List R, keys.Pairwise (· < ·) ∧
        (∀ key, key ∈ keys ↔
          (∃ group ∈ pNew, group.toFinset.min = (key : WithTop R) ∧
            ∀ entity, ¬ KeepsId pOld (plan.reassign (membershipBefore pOld)) entity group) ∨
          (∃ (entity : E) (members : List R), pOld[entity]? = some members ∧ key ∈ members) ∧
            ∀ group ∈ pNew, key ∉ group) ∧
        plan.minted = (List.range keys.length).map factory.draw ∧
        ∀ (i : ℕ) (key : R), keys[i]? = some key →
          (plan.reassign (membershipBefore pOld))[key]? = some (factory.draw i) := by
  obtain ⟨groups, plan, hplan, hrun⟩ : ∃ groups plan,
      reconcilePlan digest pOld pNew factory = some plan ∧
        Planned digest pOld pNew factory groups plan := exists_planned hold hnew hfresh
  refine ⟨plan, hplan, ?_, ?_, ?_, ?_, hrun.empty_of_setEqual, ?_, ?_⟩
  · intro entity first hfirst second hsecond hkeeps hkeeps'
    obtain ⟨key, hkey⟩ := hrun.exists_key hfirst
    obtain ⟨key', hkey'⟩ := hrun.exists_key hsecond
    obtain rfl := accepted_injective ((hrun.keepsId_iff hkey).mp hkeeps)
      ((hrun.keepsId_iff hkey').mp hkeeps')
    exact hrun.group_unique hfirst hsecond hkey hkey'
  · intro first second group hgroup hkeeps hkeeps'
    obtain ⟨key, hkey⟩ := hrun.exists_key hgroup
    exact Option.some.inj (((hrun.keepsId_iff hkey).mp hkeeps).symm.trans
      ((hrun.keepsId_iff hkey).mp hkeeps'))
  · intro entity members hentity group hgroup hkeeps
    exact ⟨(hrun.keepsId_largest hentity hgroup hgroup hkeeps).1, fun other hother =>
      (hrun.keepsId_largest hentity hgroup hother hkeeps).2⟩
  · intro entity members hentity group hgroup hsets
    exact hrun.unchanged hentity hgroup hsets
  · intro pNew' hperm
    rw [← hplan, reconcilePlan, reconcilePlan, canonicalGroups_congr hnew hperm]
  · exact ⟨mintKeys (oldSets pOld) groups, mintKeys_pairwise_lt hrun.canonical,
      fun key => hrun.mem_mintKeys_iff, hrun.facts.minted, fun i key hi => hrun.after_mintKey hi⟩

end Runs

/-- Listing the sample's group in another order, with a member repeated, changes nothing,
and its orphan is the one record that draws an id. -/
theorem id_permanence_sample :
    IsMembership sampleOld ∧ IsPartition sampleNew ∧
      (sampleFactory.Fresh fun id => id ∈ sampleOld) ∧
      ∃ plan, reconcilePlan sampleDigest sampleOld sampleNew sampleFactory = some plan ∧
        reconcilePlan sampleDigest sampleOld [[2, 3, 4, 2]] sampleFactory = some plan ∧
        100 ∈ plan.minted := by
  refine ⟨sampleOld_isMembership, sampleNew_isPartition, sampleFactory_fresh, ?_⟩
  obtain ⟨plan, hplan, _, _, _, _, _, horder, keys, _, hkeys, hminted, _⟩ :=
    id_permanence sampleDigest sampleOld_isMembership sampleNew_isPartition sampleFactory_fresh
  have horphan : 1 ∈ keys := (hkeys 1).mpr
    (.inr ⟨⟨10, [1, 2], sampleOld_eq_some_iff.mpr (.inl ⟨rfl, rfl⟩), by decide⟩, by decide⟩)
  refine ⟨plan, hplan, horder [[2, 3, 4, 2]] ?_, ?_⟩
  · rw [show [[2, 3, 4, 2]].map List.toFinset = sampleNew.map List.toFinset by decide]
  · rw [hminted]
    exact List.mem_map.mpr ⟨0, List.mem_range.mpr (List.length_pos_of_mem horphan), rfl⟩

end EntityResolution.Reconcile
