/-
# Merge plans

A merge plan lists the members of an entity with the member that should survive an external merge,
its master. The entities of the export are read off the ledger: those with a `merged` or a
`member_added` event, of which the ones with two members and a master are kept. A policy elects
the master; a protected member overrides it.

A `merged` event is recorded on the entity that lost its records, never on the claimant. So an
entity that only grew by merges is not in the export, and the `merged` events put none in.
-/

import EntityResolution.Golden.Records
import EntityResolution.Reconcile.MergedEvents
import EntityResolution.Reconcile.Settled

namespace EntityResolution.Golden

open EntityResolution.Collections EntityResolution.Identity EntityResolution.Reconcile
  EntityResolution.NeverCut

universe v w x y

variable {R H : Type} [LinearOrder R]

/-- `MASTER_ELECTION_POLICIES`. -/
def masterElectionPolicies : List String :=
  ["most_attributes", "source_priority", "most_recent", "oldest", "most_complete"]

/-- `UNRANKED_SENTINEL`. -/
def unrankedSentinel : ℤ := 2147483647

/-- Why there is no plan. -/
inductive MasterElectionError
  | unknownPolicy (policy : String)
  | noRanks
  /-- The statement is no SQL. -/
  | statement
  deriving DecidableEq

/-- The text of an error, given how a text is quoted; the engine words the last one. -/
def MasterElectionError.message (quoted : String → String) : MasterElectionError → Option String
  | .unknownPolicy policy =>
      some (quoted policy ++ " is not a master-election policy; the vocabulary is [" ++
        ", ".intercalate (masterElectionPolicies.map quoted) ++ "]")
  | .noRanks =>
      some ("the source_priority policy needs the tenant's sources.<name>.priority_rank " ++
        "mapping")
  | .statement => none

/-- An overlay of a record. -/
structure RecordOverlay (R : Type) where
  recordKey : R
  kind : String
  active : Bool

/-- What the export reads: the lake, the standardized records, the golden tables and the overlays.
A membership row carries the source and the record id that its key is cut into. -/
structure PlanTables (R H : Type) [LinearOrder R] where
  lake : Lake R H
  stdRecords : BTreeMap R StdRecord
  lineage : List (LineageRow R V7Id)
  records : List (GoldenRecord V7Id)
  overlays : List (RecordOverlay R)
  sourceOf : R → String × String

/-- The relations that the golden stage reads from a lake. -/
def goldenTables (lake : Lake R H) (stdRecords : BTreeMap R StdRecord) : GoldenTables R V7Id where
  stdRecords
  membership := lake.membership.map fun _ row => row.entityId
  entities := lake.entities.map fun _ entity => entity.status

/-- A row of `plan_groups`. -/
structure PlanGroup (R : Type) where
  entityId : V7Id
  masterKey : R
  memberCount : ℕ

/-- A row of the export. -/
structure MergePlanRow (R : Type) where
  entityId : V7Id
  masterKey : R
  memberCount : ℕ
  sourceSystem : String
  sourceRecordId : String
  recordKey : R
  givenName : Option String
  familyName : Option String
  email : Option String
  phoneE164 : Option String

/-- What an election orders members by: a key of the policy, then the record key. -/
def ElectionKey (R : Type) : Type := ℤ ×ₗ R

instance : LinearOrder (ElectionKey R) :=
  @Prod.Lex.instLinearOrder ℤ R Int.instLinearOrder inferInstance

/-- The place of a member in an election. -/
def electionKey (key : ℤ) (recordKey : R) : ElectionKey R := toLex (key, recordKey)

namespace PlanTables

variable (tables : PlanTables R H)

/-- The members of an entity, by record key. -/
def membersOf (entity : V7Id) : List R :=
  (tables.lake.membership.toList.filter fun row => row.2.entityId = entity).map Prod.fst

/-- The member that won the most attributes of the lineage, the least one of several. -/
def electByLineage (entity : V7Id) : Option R :=
  let won := (tables.lineage.filter fun row => row.entityId = entity).map LineageRow.recordKey
  won.dedup.argmin fun key => electionKey (-(won.count key : ℤ)) key

/-- The first member by a key of its records, the least one of several. -/
def electByOrder (order : R → StdRecord → ℤ) (entity : V7Id) : Option R :=
  (((tables.membersOf entity).filterMap fun key =>
    (tables.stdRecords[key]?).map fun record => (key, record)).argmin fun row =>
      electionKey (order row.1 row.2) row.1).map Prod.fst

/-- `rank_case`. -/
def rankCase (ranks : BTreeMap String ℤ) (key : R) : ℤ :=
  (ranks[(tables.sourceOf key).1]?).getD unrankedSentinel

/-- `completeness_expr`. -/
def completeness (record : StdRecord) : ℤ :=
  ((survivableColumns false).countP fun column => (record.column column).isSome : ℕ)

/-- `masters_cte_sql`: the election of a policy. -/
def mastersCte (policy : String) (sourceRanks : Option (BTreeMap String ℤ)) :
    Except MasterElectionError (V7Id → Option R) :=
  match policy with
  | "most_attributes" => .ok tables.electByLineage
  | "source_priority" =>
      match sourceRanks with
      | none => .error .noRanks
      | some ranks =>
          -- a `CASE` without arms is no SQL
          if ranks.isEmpty then .error .statement
          else .ok (tables.electByOrder fun key _ => tables.rankCase ranks key)
  | "most_recent" =>
      .ok (tables.electByOrder fun _ record => -(record.updatedAtSource.getD record.ingestedAt))
  | "oldest" =>
      .ok (tables.electByOrder fun _ record => record.updatedAtSource.getD record.ingestedAt)
  | "most_complete" => .ok (tables.electByOrder fun _ record => -completeness record)
  | other => .error (.unknownPolicy other)

/-- `protected`: the least member with an active `protect` overlay. -/
def protectedMaster (entity : V7Id) : Option R :=
  ((tables.membersOf entity).filter fun key => tables.overlays.any fun overlay =>
    overlay.recordKey = key && overlay.kind = "protect" && overlay.active).min?

/-- `affected`: the entities with a merge or an addition on the ledger. -/
def affected (since : Option ℕ) : List V7Id :=
  ((tables.lake.events.filter fun row =>
    (row.event.eventType = .merged ∨ row.event.eventType = .memberAdded) ∧
      ∀ start ∈ since, start ≤ row.occurredAt).map fun row => row.event.entityId).dedup

/-- The plan group of an entity, if it has a master and two members. -/
def planGroup (elect : V7Id → Option R) (protect : Bool) (entity : V7Id) :
    Option (PlanGroup R) :=
  match elect entity with
  | none => none
  | some key =>
      if 2 ≤ (tables.membersOf entity).length then
        some
          { entityId := entity
            masterKey := if protect then (tables.protectedMaster entity).getD key else key
            memberCount := (tables.membersOf entity).length }
      else none

/-- `plan_groups`. -/
def planGroups (elect : V7Id → Option R) (protect : Bool) (since limit : Option ℕ) :
    List (PlanGroup R) :=
  let found := ((tables.affected since).filterMap (tables.planGroup elect protect)).insertionSort
    fun first second => first.entityId ≤ second.entityId
  match limit with
  | none => found
  | some count => found.take count

/-- The row of a member, with the golden record that is joined to it, if there is one. -/
def memberRow (group : PlanGroup R) (key : R) (record : Option (GoldenRecord V7Id)) :
    MergePlanRow R :=
  let preview := fun column => (record.bind fun found => found.columns.lookup column).join
  { entityId := group.entityId
    masterKey := group.masterKey
    memberCount := group.memberCount
    sourceSystem := (tables.sourceOf key).1
    sourceRecordId := (tables.sourceOf key).2
    recordKey := key
    givenName := preview "given_name"
    familyName := preview "family_name"
    email := preview "email"
    phoneE164 := preview "phone_e164" }

/-- The rows of a plan group: its members, left-joined with the golden records. -/
def groupRows (group : PlanGroup R) : List (MergePlanRow R) :=
  (tables.membersOf group.entityId).flatMap fun key =>
    match tables.records.filter fun record => record.id = group.entityId with
    | [] => [tables.memberRow group key none]
    | found => found.map fun record => tables.memberRow group key (some record)

/-- `merge_plans_sql`, run over the tables. -/
def mergePlans (policy : String) (sourceRanks : Option (BTreeMap String ℤ)) (protect : Bool)
    (since limit : Option ℕ) : Except MasterElectionError (List (MergePlanRow R)) := do
  let elect ← tables.mastersCte policy sourceRanks
  return (tables.planGroups elect protect since limit).flatMap tables.groupRows

/-- The entity is active. -/
def Active (entity : V7Id) : Prop :=
  (tables.lake.entities[entity]?).map ResolvedEntity.status = some .active

/-- The ledger adds records to the entity. -/
def Added (entity : V7Id) : Prop :=
  ∃ row ∈ tables.lake.events, row.event.eventType = .memberAdded ∧ row.event.entityId = entity

/-- The ledger merges another entity into this one. -/
def Claimed (entity : V7Id) : Prop :=
  ∃ row ∈ tables.lake.events, row.event.eventType = .merged ∧
    row.event.details.mergedInto = some entity

/-- The export lists every active entity with two members that gained some by a merge or an
addition, with one master, which is a member. -/
structure Complete (rows : List (MergePlanRow R)) : Prop where
  listed : ∀ entity, tables.Active entity → 2 ≤ (tables.membersOf entity).length →
    tables.Claimed entity ∨ tables.Added entity → ∃ row ∈ rows, row.entityId = entity
  one_master : ∀ row ∈ rows, ∀ other ∈ rows, row.entityId = other.entityId →
    row.masterKey = other.masterKey
  master_member : ∀ row ∈ rows, row.masterKey ∈ tables.membersOf row.entityId

end PlanTables

namespace PlanTables

variable {tables : PlanTables R H} {entity : V7Id}

theorem mem_membersOf {key : R} :
    key ∈ tables.membersOf entity ↔ tables.lake.entityOf key = some entity := by
  rw [membersOf, List.mem_map, Lake.entityOf, Option.map_eq_some_iff]
  apply Iff.intro
  · rintro ⟨⟨_, row⟩, hrow, rfl⟩
    rw [List.mem_filter, decide_eq_true_eq, BTreeMap.mem_toList] at hrow
    exact ⟨row, hrow⟩
  · rintro ⟨row, hrow, hentity⟩
    refine ⟨(key, row), ?_, rfl⟩
    rw [List.mem_filter, decide_eq_true_eq, BTreeMap.mem_toList]
    exact ⟨hrow, hentity⟩

/-- A policy elects a member of every active entity with members, and nothing but members. -/
structure Elects (tables : PlanTables R H) (elect : V7Id → Option R) : Prop where
  member : ∀ {entity key}, elect entity = some key → key ∈ tables.membersOf entity
  elected : ∀ {entity}, tables.Active entity → tables.membersOf entity ≠ [] →
    ∃ key, elect entity = some key

theorem elects_electByOrder (order : R → StdRecord → ℤ)
    (hcorpus : ∀ record, record ∈ tables.lake.membership → record ∈ tables.stdRecords) :
    Elects tables (tables.electByOrder order) := by
  apply Elects.mk
  · intro entity key helect
    obtain ⟨row, hrow, rfl⟩ := Option.map_eq_some_iff.mp helect
    obtain ⟨key, hkey, hsome⟩ := List.mem_filterMap.mp (List.argmin_mem hrow)
    obtain ⟨record, _, rfl⟩ := Option.map_eq_some_iff.mp hsome
    exact hkey
  · intro entity _ hmembers
    obtain ⟨key, hkey⟩ := List.exists_mem_of_ne_nil _ hmembers
    have hmember : key ∈ tables.lake.membership := by
      obtain ⟨row, hrow, _⟩ := Option.map_eq_some_iff.mp (mem_membersOf.mp hkey)
      exact BTreeMap.mem_iff_exists_getElem?.mpr ⟨row, hrow⟩
    obtain ⟨record, hrecord⟩ := BTreeMap.mem_iff_exists_getElem?.mp (hcorpus key hmember)
    have hlisted : (key, record) ∈ (tables.membersOf entity).filterMap fun key =>
        (tables.stdRecords[key]?).map fun record => (key, record) :=
      List.mem_filterMap.mpr ⟨key, hkey, by rw [hrecord]; rfl⟩
    rw [electByOrder]
    cases hargmin : ((tables.membersOf entity).filterMap fun key =>
        (tables.stdRecords[key]?).map fun record => (key, record)).argmin fun row =>
          electionKey (order row.1 row.2) row.1 with
    | none =>
        rw [List.argmin_eq_none.mp hargmin] at hlisted
        exact absurd hlisted List.not_mem_nil
    | some row => exact ⟨row.1, rfl⟩

theorem tokens_ne_nil (config : Config) (account : Bool) : tokens config account ≠ [] := by
  have hgroups : ∃ group, group ∈ resolvedGroups config account := by
    by_cases haddress : config.survivorshipGroups.contains "address"
    · obtain ⟨group, hgroup⟩ := BTreeMap.mem_iff_exists_getElem?.mp
        (Std.ExtTreeMap.contains_iff_mem.mp haddress)
      refine ⟨⟨"address", group.fields, group.controlling⟩, mem_resolvedGroups.mpr (Or.inr ?_)⟩
      exact List.mem_map.mpr ⟨("address", group), BTreeMap.mem_toList.mpr hgroup, rfl⟩
    · refine ⟨⟨"address", addressColumns account, none⟩, mem_resolvedGroups.mpr (Or.inl ?_)⟩
      rw [builtinGroups, if_neg haddress]
      exact List.mem_singleton_self _
  obtain ⟨group, hgroup⟩ := hgroups
  exact List.ne_nil_of_mem (List.mem_append_right _ (List.mem_map_of_mem hgroup))

/-- The lineage elects members, and someone for every active entity with a member. -/
theorem elects_electByLineage {doubles : Doubles} {config : Config} {account : Bool}
    (hlineage : goldenLineage doubles config account
      (goldenTables tables.lake tables.stdRecords) = .ok tables.lineage)
    (hcorpus : ∀ record, record ∈ tables.lake.membership → record ∈ tables.stdRecords) :
    Elects tables tables.electByLineage := by
  apply Elects.mk
  · intro entity key helect
    have hmem := List.mem_dedup.mp (List.argmin_mem helect)
    obtain ⟨row, hrow, rfl⟩ := List.mem_map.mp hmem
    rw [List.mem_filter, decide_eq_true_eq] at hrow
    obtain ⟨member, hmember, hentity, hkey⟩ := (lineageRow_member hlineage hrow.1).2
    obtain ⟨_, hmembership, _⟩ := mem_members.mp hmember
    rw [goldenTables, BTreeMap.getElem?_map_eq, hkey, hentity, hrow.2] at hmembership
    exact mem_membersOf.mpr hmembership
  · intro entity hactive hmembers
    obtain ⟨key, hkey⟩ := List.exists_mem_of_ne_nil _ hmembers
    have hentityOf := mem_membersOf.mp hkey
    have hmember : key ∈ tables.lake.membership := by
      obtain ⟨row, hrow, _⟩ := Option.map_eq_some_iff.mp hentityOf
      exact BTreeMap.mem_iff_exists_getElem?.mpr ⟨row, hrow⟩
    obtain ⟨record, hrecord⟩ := BTreeMap.mem_iff_exists_getElem?.mp (hcorpus key hmember)
    have hpeopled : Peopled (goldenTables tables.lake tables.stdRecords) entity := by
      refine ⟨⟨entity, key, record⟩, mem_members.mpr ⟨hrecord, ?_, ?_⟩, rfl⟩
      · rw [goldenTables, BTreeMap.getElem?_map_eq]
        exact hentityOf
      · rw [goldenTables, BTreeMap.getElem?_map_eq]
        exact hactive
    obtain ⟨token, htoken⟩ := List.exists_mem_of_ne_nil _ (tokens_ne_nil config account)
    obtain ⟨row, hrow, _, hentity⟩ := exists_lineageRow hlineage hpeopled htoken
    have hwon : row.recordKey ∈ ((tables.lineage.filter fun row =>
        row.entityId = entity).map LineageRow.recordKey).dedup := by
      rw [List.mem_dedup]
      exact List.mem_map_of_mem (List.mem_filter.mpr ⟨hrow, decide_eq_true hentity⟩)
    cases helect : tables.electByLineage entity with
    | none =>
        rw [List.argmin_eq_none.mp helect] at hwon
        exact absurd hwon List.not_mem_nil
    | some elected => exact ⟨elected, rfl⟩

/-- A statement that exists elects members. -/
theorem elects_of_mastersCte {doubles : Doubles} {config : Config} {account : Bool}
    {policy : String} {sourceRanks : Option (BTreeMap String ℤ)} {elect : V7Id → Option R}
    (hlineage : goldenLineage doubles config account
      (goldenTables tables.lake tables.stdRecords) = .ok tables.lineage)
    (hcorpus : ∀ record, record ∈ tables.lake.membership → record ∈ tables.stdRecords)
    (helect : tables.mastersCte policy sourceRanks = .ok elect) : Elects tables elect := by
  unfold mastersCte at helect
  split at helect
  · cases helect
    exact elects_electByLineage hlineage hcorpus
  · cases sourceRanks with
    | none => cases helect
    | some ranks =>
        simp only at helect
        split at helect
        · cases helect
        · cases helect
          exact elects_electByOrder _ hcorpus
  · cases helect
    exact elects_electByOrder _ hcorpus
  · cases helect
    exact elects_electByOrder _ hcorpus
  · cases helect
    exact elects_electByOrder _ hcorpus
  · cases helect

theorem exists_mastersCte (tables : PlanTables R H) {policy : String}
    {sourceRanks : Option (BTreeMap String ℤ)} (hpolicy : policy ∈ masterElectionPolicies) :
    (∃ elect, tables.mastersCte policy sourceRanks = .ok elect) ↔
      (policy = "source_priority" → ∃ ranks, sourceRanks = some ranks ∧ ranks.isEmpty = false) := by
  simp only [masterElectionPolicies, List.mem_cons, List.not_mem_nil, or_false] at hpolicy
  rcases hpolicy with rfl | rfl | rfl | rfl | rfl
  · simp [mastersCte]
  · cases sourceRanks with
    | none => simp [mastersCte]
    | some ranks =>
        by_cases hempty : ranks = ∅
        · simp [mastersCte, hempty]
        · simp [mastersCte, hempty, Std.ExtTreeMap.isEmpty_iff]
  · simp [mastersCte]
  · simp [mastersCte]
  · simp [mastersCte]

/-! ## The rows of the export -/

theorem planGroup_eq_some_iff {elect : V7Id → Option R} {protect : Bool} {group : PlanGroup R} :
    tables.planGroup elect protect entity = some group ↔
      ∃ key, elect entity = some key ∧ 2 ≤ (tables.membersOf entity).length ∧
        group = ⟨entity, if protect then (tables.protectedMaster entity).getD key else key,
          (tables.membersOf entity).length⟩ := by
  rw [planGroup]
  cases elect entity with
  | none => simp
  | some key =>
      by_cases hlength : 2 ≤ (tables.membersOf entity).length
      · simp [hlength, eq_comm]
      · simp [hlength]

theorem mem_affected :
    entity ∈ tables.affected none ↔
      ∃ row ∈ tables.lake.events, row.event.entityId = entity ∧
        (row.event.eventType = .merged ∨ row.event.eventType = .memberAdded) := by
  simp only [affected, List.mem_dedup, List.mem_map, List.mem_filter, decide_eq_true_eq,
    Option.not_mem_none, false_implies, implies_true, and_true]
  apply exists_congr
  intro row
  tauto

theorem mem_planGroups {elect : V7Id → Option R} {protect : Bool} {group : PlanGroup R} :
    group ∈ tables.planGroups elect protect none none ↔
      ∃ entity ∈ tables.affected none, tables.planGroup elect protect entity = some group := by
  rw [planGroups, List.mem_insertionSort, List.mem_filterMap]

/-- A row of a group names the entity and the master of the group. -/
theorem of_mem_groupRows {group : PlanGroup R} {row : MergePlanRow R}
    (hrow : row ∈ tables.groupRows group) :
    row.entityId = group.entityId ∧ row.masterKey = group.masterKey := by
  obtain ⟨key, _, hkey⟩ := List.mem_flatMap.mp hrow
  split at hkey
  · rw [List.mem_singleton.mp hkey]
    exact ⟨rfl, rfl⟩
  · obtain ⟨record, _, rfl⟩ := List.mem_map.mp hkey
    exact ⟨rfl, rfl⟩

theorem exists_mem_groupRows {group : PlanGroup R}
    (hmembers : tables.membersOf group.entityId ≠ []) : ∃ row, row ∈ tables.groupRows group := by
  obtain ⟨key, hkey⟩ := List.exists_mem_of_ne_nil _ hmembers
  cases hfound : tables.records.filter fun record => record.id = group.entityId with
  | nil =>
      refine ⟨tables.memberRow group key none, List.mem_flatMap.mpr ⟨key, hkey, ?_⟩⟩
      rw [hfound]
      exact List.mem_singleton_self _
  | cons record found =>
      refine ⟨tables.memberRow group key (some record), List.mem_flatMap.mpr ⟨key, hkey, ?_⟩⟩
      rw [hfound]
      exact List.mem_map_of_mem (List.mem_cons_self ..)

/-- A row of the export comes from an affected entity with an elected master. -/
theorem of_mem_planRows {elect : V7Id → Option R} {protect : Bool} {row : MergePlanRow R}
    (hrow : row ∈ (tables.planGroups elect protect none none).flatMap tables.groupRows) :
    row.entityId ∈ tables.affected none ∧ ∃ key, elect row.entityId = some key ∧
      row.masterKey =
        if protect then (tables.protectedMaster row.entityId).getD key else key := by
  obtain ⟨group, hgroup, hmem⟩ := List.mem_flatMap.mp hrow
  obtain ⟨entity, haffected, hplan⟩ := mem_planGroups.mp hgroup
  obtain ⟨key, helect, _, rfl⟩ := planGroup_eq_some_iff.mp hplan
  obtain ⟨hentity, hmaster⟩ := of_mem_groupRows hmem
  rw [hentity]
  exact ⟨haffected, key, helect, hmaster⟩

theorem protectedMaster_mem {key : R} (hkey : tables.protectedMaster entity = some key) :
    key ∈ tables.membersOf entity :=
  (List.mem_filter.mp (List.min?_mem hkey)).1

theorem Elects.complete_iff {elect : V7Id → Option R} {protect : Bool}
    (helects : Elects tables elect) :
    tables.Complete ((tables.planGroups elect protect none none).flatMap tables.groupRows) ↔
      ∀ entity, tables.Active entity → 2 ≤ (tables.membersOf entity).length →
        tables.Claimed entity ∨ tables.Added entity → entity ∈ tables.affected none := by
  apply Iff.intro
  · intro hcomplete entity hactive hlength hgained
    obtain ⟨row, hrow, rfl⟩ := hcomplete.listed entity hactive hlength hgained
    exact (of_mem_planRows hrow).1
  · intro haffected
    apply PlanTables.Complete.mk
    · intro entity hactive hlength hgained
      have hmembers : tables.membersOf entity ≠ [] :=
        List.ne_nil_of_length_pos (Nat.lt_of_lt_of_le Nat.zero_lt_two hlength)
      obtain ⟨key, hkey⟩ := helects.elected hactive hmembers
      have hgroup : ∃ group, tables.planGroup elect protect entity = some group ∧
          group.entityId = entity :=
        ⟨_, planGroup_eq_some_iff.mpr ⟨key, hkey, hlength, rfl⟩, rfl⟩
      obtain ⟨group, hgroup, rfl⟩ := hgroup
      obtain ⟨row, hrow⟩ := exists_mem_groupRows hmembers
      refine ⟨row, List.mem_flatMap.mpr ⟨_, mem_planGroups.mpr ⟨_, ?_, hgroup⟩, hrow⟩, ?_⟩
      · exact haffected _ hactive hlength hgained
      · exact (of_mem_groupRows hrow).1
    · intro row hrow other hother hentity
      obtain ⟨key, hkey, hmaster⟩ := (of_mem_planRows hrow).2
      obtain ⟨otherKey, hotherKey, hotherMaster⟩ := (of_mem_planRows hother).2
      rw [hmaster, hotherMaster, ← hentity]
      rw [← hentity, hkey] at hotherKey
      rw [Option.some.inj hotherKey]
    · intro row hrow
      obtain ⟨key, hkey, hmaster⟩ := (of_mem_planRows hrow).2
      rw [hmaster]
      split
      · cases hprotected : tables.protectedMaster row.entityId with
        | none => exact helects.member hkey
        | some master => exact protectedMaster_mem hprotected
      · exact helects.member hkey

end PlanTables

/-- An active entity is affected only by its own additions: a `merged` event stands on an entity
that is no longer active. -/
theorem PlanTables.affected_iff_added {P : Type v} {C : Type w} {V : Type x} {A : Type y}
    [LinearOrder H] [LinearOrder P] [One P] [DecidableEq V] {digest : EventDetails R V7Id → H}
    {tables : PlanTables R H} {minted : List V7Id}
    (hhistory : RunHistory P C V A digest tables.lake minted) {entity : V7Id}
    (hactive : tables.Active entity) : entity ∈ tables.affected none ↔ tables.Added entity := by
  rw [PlanTables.mem_affected]
  apply Iff.intro
  · rintro ⟨row, hrow, hentity, hmerged | hadded⟩
    · obtain ⟨found, hfound, hstatus⟩ := hhistory.merged_of_event hrow hmerged
      obtain ⟨stored, hstored, hstoredStatus⟩ := Option.map_eq_some_iff.mp hactive
      rw [Lake.rowOf, hentity, hstored] at hfound
      rw [← Option.some.inj hfound] at hstatus
      rw [ResolvedEntity.status] at hstoredStatus
      exact absurd (hstatus.symm.trans hstoredStatus) (by decide)
    · exact ⟨row, hrow, hadded, hentity⟩
  · rintro ⟨row, hrow, hadded, hentity⟩
    exact ⟨row, hrow, hentity, Or.inr hadded⟩

/-- What an election finds is complete if every claimant has an addition of its own. -/
theorem PlanTables.Elects.complete_iff_added {P : Type v} {C : Type w} {V : Type x} {A : Type y}
    [LinearOrder H] [LinearOrder P] [One P] [DecidableEq V] {digest : EventDetails R V7Id → H}
    {tables : PlanTables R H} {minted : List V7Id} {elect : V7Id → Option R} {protect : Bool}
    (hhistory : RunHistory P C V A digest tables.lake minted)
    (helects : PlanTables.Elects tables elect) :
    tables.Complete ((tables.planGroups elect protect none none).flatMap tables.groupRows) ↔
      ∀ entity, tables.Active entity → 2 ≤ (tables.membersOf entity).length →
        tables.Claimed entity → tables.Added entity := by
  rw [helects.complete_iff]
  apply forall_congr'
  intro entity
  apply forall_congr'
  intro hactive
  rw [PlanTables.affected_iff_added hhistory hactive]
  tauto

theorem PlanTables.mergePlans_eq_ok_iff {tables : PlanTables R H} {policy : String}
    {sourceRanks : Option (BTreeMap String ℤ)} {protect : Bool} {rows : List (MergePlanRow R)} :
    tables.mergePlans policy sourceRanks protect none none = .ok rows ↔
      ∃ elect, tables.mastersCte policy sourceRanks = .ok elect ∧
        rows = (tables.planGroups elect protect none none).flatMap tables.groupRows := by
  rw [PlanTables.mergePlans]
  cases tables.mastersCte policy sourceRanks with
  | error error => simp [bind, Except.bind]
  | ok elect => simp [bind, Except.bind, pure, Except.pure, eq_comm]

/-- The export is complete if and only if there is a rank for `source_priority` and every active
claimant with two members has an addition of its own on the ledger. -/
theorem merge_plans_complete_iff {P : Type v} {C : Type w} {V : Type x} {A : Type y}
    [LinearOrder H] [LinearOrder P] [One P] [DecidableEq V] (digest : EventDetails R V7Id → H)
    (tables : PlanTables R H) (corpus : List R) (doubles : Doubles) (config : Config)
    (account : Bool) (policy : String) (sourceRanks : Option (BTreeMap String ℤ)) (protect : Bool)
    (hhistory : CorpusHistory P C V A digest tables.lake corpus)
    (hcorpus : ∀ record, record ∈ tables.stdRecords ↔ record ∈ corpus)
    (hlineage : goldenLineage doubles config account
      (goldenTables tables.lake tables.stdRecords) = .ok tables.lineage)
    (hpolicy : policy ∈ masterElectionPolicies) :
    (∃ rows, tables.mergePlans policy sourceRanks protect none none = .ok rows ∧
        tables.Complete rows) ↔
      (policy = "source_priority" → ∃ ranks, sourceRanks = some ranks ∧ ranks.isEmpty = false) ∧
        ∀ entity, tables.Active entity → 2 ≤ (tables.membersOf entity).length →
          tables.Claimed entity → tables.Added entity := by
  obtain ⟨⟨minted, hruns⟩, hmembers⟩ := hhistory.sound
  have hstd : ∀ record, record ∈ tables.lake.membership → record ∈ tables.stdRecords :=
    fun record hrecord => (hcorpus record).mpr (hmembers record hrecord)
  rw [← tables.exists_mastersCte hpolicy]
  apply Iff.intro
  · rintro ⟨rows, hrows, hcomplete⟩
    obtain ⟨elect, helect, rfl⟩ := PlanTables.mergePlans_eq_ok_iff.mp hrows
    have helects := PlanTables.elects_of_mastersCte hlineage hstd helect
    exact ⟨⟨elect, helect⟩, (helects.complete_iff_added hruns).mp hcomplete⟩
  · rintro ⟨⟨elect, helect⟩, hclaimed⟩
    have helects := PlanTables.elects_of_mastersCte hlineage hstd helect
    exact ⟨_, PlanTables.mergePlans_eq_ok_iff.mpr ⟨elect, helect, rfl⟩,
      (helects.complete_iff_added hruns).mpr hclaimed⟩

/-- A standardized record without data. -/
def sampleStdRecord : StdRecord where
  sourceSystem := "crm"
  sourceRecordId := "1"
  updatedAtSource := none
  ingestedAt := 0
  column _ := none
  flag _ := none

/-- A corpus and the assertions of its stewards. -/
def sampleSteward (corpus : List ℕ) (assertions : List (Assertion ℕ (RuleId ℕ ℕ)))
    (hordered : ∀ assertion ∈ assertions, assertion.recAKey < assertion.recBKey)
    (hactive : ∀ assertion ∈ assertions, assertion.active = true) :
    ReconcileInput ℕ ℕ Unit ℕ ℕ where
  constraints := {}
  cutProtectProbability := 1
  maxIterations := 50
  corpus := Std.ExtTreeMap.ofList (corpus.map fun key => (key, fun _ => none)) compare
  scores := []
  assertions
  suppressed := ∅
  protectedRecords := ∅
  scores_ordered := no_scores_ordered
  assertions_ordered := hordered
  assertions_active := hactive

/-- Two records that a steward joins. -/
def sampleJoined : ReconcileInput ℕ ℕ Unit ℕ ℕ :=
  sampleSteward [1, 2] [⟨.steward 1, 1, 2, .always, true⟩] (by simp) (by simp)

/-- What the export reads of a lake over the two records. -/
def sampleTables (lake : Lake ℕ ℕ) (lineage : List (LineageRow ℕ V7Id)) : PlanTables ℕ ℕ where
  lake
  stdRecords := Std.ExtTreeMap.ofList [(1, sampleStdRecord), (2, sampleStdRecord)] compare
  lineage
  records := []
  overlays := []
  sourceOf key := ("crm", toString key)

theorem exists_sampleTables (corpus : List ℕ) (read : Lake ℕ ℕ → Bool)
    (hread : ((afterRun sampleRunDigest (sampleSteward corpus [] (by simp) (by simp)) ⟨"first", 1⟩
      .fresh).toOption.bind fun lake =>
        (afterRun sampleRunDigest sampleJoined ⟨"second", 2⟩ lake).toOption).any read = true) :
    ∃ tables : PlanTables ℕ ℕ,
      CorpusHistory ℕ Unit ℕ ℕ sampleRunDigest tables.lake sampleJoined.corpus.keys ∧
      (∀ record, record ∈ tables.stdRecords ↔ record ∈ sampleJoined.corpus.keys) ∧
      goldenLineage wholeDoubles (fullNameConfig ["most_common"]) false
        (goldenTables tables.lake tables.stdRecords) = .ok tables.lineage ∧
      read tables.lake = true := by
  have hkeys : ∀ lake lineage record, record ∈ (sampleTables lake lineage).stdRecords ↔
      record ∈ sampleJoined.corpus.keys := by
    intro lake lineage record
    rw [BTreeMap.mem_keys]
    simp [sampleTables, sampleJoined, sampleSteward]
  have haccepts := accepts_fullName ℕ V7Id ["most_common"] (by decide +kernel)
  cases hfirst : runPlan sampleRunDigest (sampleSteward corpus [] (by simp) (by simp)) ⟨"first", 1⟩
      .fresh with
  | error error => simp [afterRun, runReconcile, hfirst, Except.toOption, Except.map] at hread
  | ok first =>
      have hhistory := RunHistory.start.run hfirst
      generalize hlake : commit .fresh (statementsOf sampleRunDigest
        (sampleSteward corpus [] (by simp) (by simp)) ⟨"first", 1⟩ .fresh first) = lake at hhistory
      cases hsecond : runPlan sampleRunDigest sampleJoined ⟨"second", 2⟩ lake with
      | error error =>
          simp [afterRun, runReconcile, hfirst, hlake, hsecond, Except.toOption, Except.map]
            at hread
      | ok second =>
          rcases exists_golden (goldenTables (commit lake (statementsOf sampleRunDigest sampleJoined
            ⟨"second", 2⟩ lake second)) (sampleTables lake []).stdRecords) (by decide +kernel)
            (by decide +kernel) (by decide +kernel) haccepts with ⟨lineage, _, hlineage, _⟩
          refine ⟨sampleTables _ lineage, .run hhistory hsecond, hkeys _ _, hlineage, ?_⟩
          simp only [afterRun, runReconcile, hfirst, hlake, hsecond, Except.toOption, Except.map,
            Option.bind_some, Option.any_some] at hread
          exact hread

/-- A record that joins an entity in the second run is exported with it. -/
theorem merge_plans_complete_sample : ∃ tables : PlanTables ℕ ℕ,
    (2 ≤ (tables.membersOf ⟨1, 0⟩).length ∧ tables.Active ⟨1, 0⟩) ∧
      ∃ rows, tables.mergePlans "most_recent" none true none none = .ok rows ∧
        tables.Complete rows := by
  rcases exists_sampleTables [1] (fun lake =>
    decide (2 ≤ ((sampleTables lake []).membersOf ⟨1, 0⟩).length) &&
      decide ((lake.entities[(⟨1, 0⟩ : V7Id)]?).map ResolvedEntity.status = some .active) &&
      lake.events.all fun row => row.event.details.mergedInto.isNone) (by decide_cbv) with
    ⟨tables, hhistory, hcorpus, hlineage, hread⟩
  rw [Bool.and_eq_true, Bool.and_eq_true, decide_eq_true_eq, decide_eq_true_eq] at hread
  refine ⟨tables, hread.1, (merge_plans_complete_iff sampleRunDigest tables _ wholeDoubles
    (fullNameConfig ["most_common"]) false "most_recent" none true hhistory hcorpus hlineage
    (by decide)).mpr ⟨by decide, ?_⟩⟩
  rintro entity _ _ ⟨row, hrow, _, hclaimant⟩
  have hnone := List.all_eq_true.mp hread.2 row hrow
  rw [hclaimant] at hnone
  cases hnone

/-- The members of a set in order, by a sort that the kernel computes. -/
def sortedMembers (members : Finset ℕ) : List ℕ :=
  Quot.liftOn members.val (List.insertionSort (· ≤ ·)) fun _ _ hperm =>
    (((List.perm_insertionSort _ _).trans hperm).trans
      (List.perm_insertionSort _ _).symm).eq_of_pairwise' (r := (· ≤ ·))
      (List.pairwise_insertionSort _ _) (List.pairwise_insertionSort _ _)

theorem sort_eq_sortedMembers (members : Finset ℕ) : members.sort = sortedMembers members := by
  cases members with
  | mk val nodup =>
      induction val using Quot.ind with
      | mk listed =>
          apply List.Perm.eq_of_pairwise' (r := (· ≤ ·))
          · exact Finset.pairwise_sort _ _
          · exact List.pairwise_insertionSort _ _
          · exact (List.mergeSort_perm _ _).trans (List.perm_insertionSort _ _).symm

/-- The second run merges the entity of record 2 into that of record 1, and adds no member. -/
theorem sample_merges :
    ((afterRun sampleRunDigest (sampleSteward [1, 2] [] (by simp) (by simp)) ⟨"first", 1⟩
      .fresh).toOption.bind fun lake =>
        (afterRun sampleRunDigest sampleJoined ⟨"second", 2⟩ lake).toOption).any (fun lake =>
      decide (2 ≤ ((sampleTables lake []).membersOf ⟨1, 0⟩).length) &&
        decide ((lake.entities[(⟨1, 0⟩ : V7Id)]?).map ResolvedEntity.status = some .active) &&
        (lake.events.any fun row => decide (row.event.eventType = .merged) &&
          decide (row.event.details.mergedInto = some ⟨1, 0⟩)) &&
        lake.events.all fun row => decide (row.event.eventType ≠ .memberAdded)) = true := by
  simp only [afterRun, runReconcile, runPlan, reconcilePlan, planOf, planRows, groupRows, ownRows,
    groupAssignments, sort_eq_sortedMembers]
  delta keptRows joined
  simp only [sort_eq_sortedMembers]
  decide +kernel

/-- Two entities are merged in the second run, and no policy exports the claimant. -/
theorem merged_claimant_not_exported : ∃ tables : PlanTables ℕ ℕ,
    CorpusHistory ℕ Unit ℕ ℕ sampleRunDigest tables.lake sampleJoined.corpus.keys ∧
    (∀ record, record ∈ tables.stdRecords ↔ record ∈ sampleJoined.corpus.keys) ∧
    goldenLineage wholeDoubles (fullNameConfig ["most_common"]) false
      (goldenTables tables.lake tables.stdRecords) = .ok tables.lineage ∧
    ∀ policy sourceRanks protect, ¬ ∃ rows,
      tables.mergePlans policy sourceRanks protect none none = .ok rows ∧
        tables.Complete rows := by
  obtain ⟨tables, hhistory, hcorpus, hlineage, hread⟩ := exists_sampleTables _ _ sample_merges
  refine ⟨tables, hhistory, hcorpus, hlineage, ?_⟩
  rintro policy sourceRanks protect ⟨rows, hrows, hcomplete⟩
  rw [Bool.and_eq_true, Bool.and_eq_true, Bool.and_eq_true, decide_eq_true_eq, decide_eq_true_eq,
    List.any_eq_true, List.all_eq_true] at hread
  obtain ⟨⟨⟨hlength, hactive⟩, row, hrow, hclaimed⟩, hadded⟩ := hread
  rw [Bool.and_eq_true, decide_eq_true_eq, decide_eq_true_eq] at hclaimed
  obtain ⟨⟨minted, hruns⟩, hmembers⟩ := hhistory.sound
  obtain ⟨elect, helect, rfl⟩ := PlanTables.mergePlans_eq_ok_iff.mp hrows
  have helects := PlanTables.elects_of_mastersCte hlineage
    (fun record hrecord => (hcorpus record).mpr (hmembers record hrecord)) helect
  rcases (helects.complete_iff_added hruns).mp hcomplete ⟨1, 0⟩ hactive hlength
    ⟨row, hrow, hclaimed⟩ with ⟨other, hother, htype, _⟩
  exact of_decide_eq_true (hadded other hother) htype

end EntityResolution.Golden
