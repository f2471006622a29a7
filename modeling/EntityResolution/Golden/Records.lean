/-
# Golden lineage and golden records

`golden_lineage` decides each scalar in effect and each group in effect, over the members of every
active entity, and names the record and the rule of each decision. `golden_records` reads the
columns of an entity back from the records that the lineage names, and makes the value of a scalar
with a synthesizing chain out of the values of all members.

A group is always read back from the record that its decision names. Where the chain of a group
synthesizes, the lineage names the least record key and the columns are those of that record, not
the aggregates of the entity's values; only the built-in name `address` is refused such a chain.
-/

import EntityResolution.Golden.Survivorship
import EntityResolution.Reconcile.Plan

namespace EntityResolution.Golden

open EntityResolution.Collections EntityResolution.Grouping EntityResolution.Reconcile

universe u v

variable {R : Type u} {E : Type v} [LinearOrder R] [LinearOrder E]

/-- A row of `int_std_records`: its columns as texts, and its validity columns. -/
structure StdRecord where
  sourceSystem : String
  sourceRecordId : String
  updatedAtSource : Option ℤ
  ingestedAt : ℤ
  column : String → Option String
  flag : String → Option Bool

/-- The relations that the golden stage reads, by record key and by entity id. -/
structure GoldenTables (R : Type u) (E : Type v) [LinearOrder R] [LinearOrder E] where
  stdRecords : BTreeMap R StdRecord
  membership : BTreeMap R E
  entities : BTreeMap E Status

/-- A row of `members`. -/
structure Member (R : Type u) (E : Type v) where
  entityId : E
  recordKey : R
  record : StdRecord

/-- `members`: the corpus records of active entities. -/
def GoldenTables.members (tables : GoldenTables R E) : List (Member R E) :=
  tables.stdRecords.toList.filterMap fun row =>
    match tables.membership[row.1]? with
    | none => none
    | some entity =>
        if tables.entities[entity]? = some .active then some ⟨entity, row.1, row.2⟩ else none

/-- `validated_column` and `acct_validated_column`. -/
def validatedColumn (account : Bool) (attr : String) : Option String :=
  if attr = "email" ∧ account = false then some "email_valid"
  else if attr = "phone_e164" then some "phone_valid"
  else none

/-- The row of a scalar attribute for a member. -/
def scalarRow (config : Config) (account : Bool) (attr : String) (member : Member R E) :
    AttrRow R E where
  entityId := member.entityId
  recordKey := member.recordKey
  sourceSystem := member.record.sourceSystem
  updatedAtSource := member.record.updatedAtSource
  ingestedAt := member.record.ingestedAt
  sources := config.sources
  value := member.record.column attr
  valid := (validatedColumn account attr).bind member.record.flag

/-- The fields of a record, joined by the unit separator. -/
def composite (fields : List String) (record : StdRecord) : String :=
  "\x1f".intercalate (fields.map fun field => (record.column field).getD "")

/-- The row of a group for a member: it ranks on the controlling field, or on all fields. -/
def groupRow (config : Config) (group : ResolvedGroup) (member : Member R E) : AttrRow R E where
  entityId := member.entityId
  recordKey := member.recordKey
  sourceSystem := member.record.sourceSystem
  updatedAtSource := member.record.updatedAtSource
  ingestedAt := member.record.ingestedAt
  sources := config.sources
  value := match group.controlling with
    | some field => member.record.column field
    | none => some (composite group.fields member.record)
  valid := none

/-- The relations `attr_*`, under their tokens. -/
def attrRelations (config : Config) (account : Bool) (tables : GoldenTables R E) :
    List (String × List (AttrRow R E)) :=
  ((resolvedScalars config account).map fun attr =>
      (attr, tables.members.map (scalarRow config account attr))) ++
    (resolvedGroups config account).map fun group =>
      (group.token, tables.members.map (groupRow config group))

/-- The vocabulary: the scalars and the groups in effect. -/
def tokens (config : Config) (account : Bool) : List String :=
  resolvedScalars config account ++ (resolvedGroups config account).map ResolvedGroup.token

/-- Why there is no lineage, or there are no records. -/
inductive GoldenError
  | chain (problem : SurvivorshipError)
  /-- The statement is no SQL, or names what is not there. -/
  | statement

/-- Can the character stand in an identifier without quotes? -/
def isIdentifierChar (c : Char) : Bool :=
  c.isAlphanum || c = '_' || c = '$' || 128 ≤ c.toNat

/-- The names of the lineage statement are those of distinct relations and of columns: every token
ends the name of a relation, a group ranks on columns, and no composite is empty. It stands in for
the binder of the database, which also has keywords and limits of its own. -/
structure LineageBinds (config : Config) (account : Bool) : Prop where
  distinct : ((tokens config account).map fun token => token.toList.map Char.toLower).Nodup
  plain : ∀ token ∈ tokens config account, token.toList.all isIdentifierChar
  ranked : ∀ group ∈ resolvedGroups config account,
    match group.controlling with
    | some field => field ∈ intStdRecordColumns account
    | none => group.fields ≠ [] ∧ ∀ field ∈ group.fields, field ∈ intStdRecordColumns account

/-- The validity columns of the lineage statement are there: `validated` is a rule of scalars that
have such a column only. -/
def ValidityBinds (config : Config) (account : Bool) : Prop :=
  ∀ token ∈ tokens config account, ∀ chain ∈ config.survivorship[token]?,
    "validated" ∈ chainWithoutTerminal chain →
      token ∈ resolvedScalars config account ∧ (validatedColumn account token).isSome

/-- The record statement projects scalars and group fields, at least one of each, and these are
columns. -/
structure RecordsBind (config : Config) (account : Bool) : Prop where
  scalars : resolvedScalars config account ≠ []
  fields : (resolvedGroups config account).flatMap ResolvedGroup.fields ≠ []
  columns : ∀ group ∈ resolvedGroups config account, ∀ field ∈ group.fields,
    field ∈ intStdRecordColumns account

instance (config : Config) (account : Bool) : Decidable (LineageBinds config account) :=
  decidable_of_iff
    ((((tokens config account).map fun token => token.toList.map Char.toLower).Nodup ∧
      ∀ token ∈ tokens config account, token.toList.all isIdentifierChar) ∧
      ∀ group ∈ resolvedGroups config account,
        (group.controlling.elim
          (decide (group.fields ≠ [] ∧ ∀ field ∈ group.fields, field ∈ intStdRecordColumns account))
          fun field => decide (field ∈ intStdRecordColumns account)) = true)
    (by
      apply Iff.intro
      · rintro ⟨⟨hdistinct, hplain⟩, hranked⟩
        refine ⟨hdistinct, hplain, fun group hgroup => ?_⟩
        have hbool := hranked group hgroup
        cases hcontrolling : group.controlling <;> simpa [hcontrolling] using hbool
      · intro hbinds
        refine ⟨⟨hbinds.distinct, hbinds.plain⟩, fun group hgroup => ?_⟩
        have hprop := hbinds.ranked group hgroup
        cases hcontrolling : group.controlling <;> simpa [hcontrolling] using hprop)

instance (config : Config) (account : Bool) : Decidable (ValidityBinds config account) := by
  unfold ValidityBinds
  infer_instance

instance (config : Config) (account : Bool) : Decidable (RecordsBind config account) :=
  decidable_of_iff
    ((resolvedScalars config account ≠ [] ∧
      (resolvedGroups config account).flatMap ResolvedGroup.fields ≠ []) ∧
      ∀ group ∈ resolvedGroups config account, ∀ field ∈ group.fields,
        field ∈ intStdRecordColumns account)
    ⟨fun h => ⟨h.1.1, h.1.2, h.2⟩, fun h => ⟨⟨h.scalars, h.fields⟩, h.columns⟩⟩

/-- A row of `golden_lineage`. -/
structure LineageRow (R : Type u) (E : Type v) where
  entityId : E
  attr : String
  recordKey : R
  sourceSystem : String
  sourceRecordId : String
  rule : String

/-- The decisions under a token. -/
def tokenDecisions (doubles : Doubles) (config : Config)
    (relation : String × List (AttrRow R E)) :
    Except SurvivorshipError (String × List (Decision R E)) :=
  match config.survivorship[relation.1]? with
  | none => .error (.missingChain relation.1)
  | some chain => do
      let decisions ← survivorshipDecision doubles relation.1 chain relation.2
      return (relation.1, decisions)

/-- The lineage row of a decision, if its record is there. -/
def lineageRow (tables : GoldenTables R E) (token : String) (decision : Decision R E) :
    Option (LineageRow R E) :=
  (tables.stdRecords[decision.recordKey]?).map fun record =>
    { entityId := decision.entityId
      attr := token
      recordKey := decision.recordKey
      sourceSystem := record.sourceSystem
      sourceRecordId := record.sourceRecordId
      rule := decision.rule }

/-- `golden_lineage_sql` and `acct_golden_lineage_sql`, run over the tables. -/
def goldenLineage (doubles : Doubles) (config : Config) (account : Bool)
    (tables : GoldenTables R E) : Except GoldenError (List (LineageRow R E)) :=
  match (attrRelations config account tables).mapM (tokenDecisions doubles config) with
  | .error problem => .error (.chain problem)
  | .ok decided =>
      if LineageBinds config account ∧ ValidityBinds config account then
        .ok (decided.flatMap fun entry => entry.2.filterMap (lineageRow tables entry.1))
      else .error .statement

/-- A row of `golden_records`: its columns in the order of the statement. -/
structure GoldenRecord (E : Type v) where
  id : E
  columns : List (String × Option String)

/-- `max(r.column) filter (where l.attribute = token)`. -/
def maxFilter (token column : String) (rows : List (LineageRow R E × StdRecord)) :
    Option String :=
  (rows.filterMap fun row => if row.1.attr = token then row.2.column column else none).max?

/-- The chain of a token makes a value of the values of all members. -/
def synthesizes (doubles : Doubles) (config : Config) (token : String) :
    Option (List (Option String) → Option String) :=
  (config.survivorship[token]?).bind (synthesizedValue doubles)

/-- The values of a column over the members of an entity. -/
def memberValues (tables : GoldenTables R E) (entity : E) (column : String) :
    List (Option String) :=
  (tables.members.filter fun member => member.entityId = entity).map fun member =>
    member.record.column column

/-- `scalar_projection`, for the entity of a group of rows. -/
def scalarProjection (doubles : Doubles) (config : Config) (tables : GoldenTables R E)
    (group : E × List (LineageRow R E × StdRecord)) (attr : String) : String × Option String :=
  match synthesizes doubles config attr with
  | some aggregate => (attr, aggregate (memberValues tables group.1 attr))
  | none => (attr, maxFilter attr attr group.2)

/-- `group_projection`, for the entity of a group of rows. -/
def groupProjection (group : E × List (LineageRow R E × StdRecord)) (resolved : ResolvedGroup) :
    List (String × Option String) :=
  resolved.fields.map fun field => (field, maxFilter resolved.token field group.2)

/-- The rows that `survived` groups: lineage with its records, of active entities. -/
def survivedRows (tables : GoldenTables R E) (lineage : List (LineageRow R E)) :
    List (LineageRow R E × StdRecord) :=
  lineage.filterMap fun row =>
    match tables.stdRecords[row.recordKey]? with
    | none => none
    | some record =>
        if tables.entities[row.entityId]? = some .active then some (row, record) else none

/-- `golden_records_sql` and `acct_golden_records_sql`, run over the tables. -/
def goldenRecords (doubles : Doubles) (config : Config) (account : Bool)
    (tables : GoldenTables R E) (lineage : List (LineageRow R E)) :
    Except GoldenError (List (GoldenRecord E)) :=
  if RecordsBind config account then
    .ok ((groups (fun row => row.1.entityId) (survivedRows tables lineage)).map fun group =>
      { id := group.1
        columns := (resolvedScalars config account).map
            (scalarProjection doubles config tables group) ++
          (resolvedGroups config account).flatMap (groupProjection group) })
  else .error .statement

/-! ## What lineage and records should agree on -/

/-- The columns of a golden record under the tokens that decide them. -/
def decidedColumns (config : Config) (account : Bool) : List (String × String) :=
  ((resolvedScalars config account).map fun attr => (attr, attr)) ++
    (resolvedGroups config account).flatMap fun group =>
      group.fields.map fun field => (group.token, field)

/-- The entity is active and has a member in the corpus. -/
def Peopled (tables : GoldenTables R E) (entity : E) : Prop :=
  ∃ member ∈ tables.members, member.entityId = entity

/-- The golden records agree with the lineage. -/
structure Agrees (doubles : Doubles) (config : Config) (account : Bool)
    (tables : GoldenTables R E) (lineage : List (LineageRow R E))
    (records : List (GoldenRecord E)) : Prop where
  lineage_once : ∀ entity, Peopled tables entity → ∀ token ∈ tokens config account,
    (lineage.filter fun row => row.entityId = entity ∧ row.attr = token).length = 1
  lineage_only : ∀ row ∈ lineage, row.attr ∈ tokens config account ∧
    ∃ member ∈ tables.members,
      member.entityId = row.entityId ∧ member.recordKey = row.recordKey
  records_once : ∀ entity, Peopled tables entity →
    (records.filter fun record => record.id = entity).length = 1
  records_only : ∀ record ∈ records, Peopled tables record.id ∧
    record.columns.map Prod.fst = (decidedColumns config account).map Prod.snd
  elected : ∀ record ∈ records, ∀ row ∈ lineage, row.entityId = record.id →
    synthesizes doubles config row.attr = none →
    ∃ source, tables.stdRecords[row.recordKey]? = some source ∧
      ∀ column value, (row.attr, column) ∈ decidedColumns config account →
        (column, value) ∈ record.columns → value = source.column column
  together : ∀ record ∈ records, ∀ group ∈ resolvedGroups config account,
    ∃ member ∈ tables.members, member.entityId = record.id ∧
      ∀ column value, column ∈ group.fields → (column, value) ∈ record.columns →
        value = member.record.column column
  synthesized : ∀ record ∈ records, ∀ token aggregate,
    synthesizes doubles config token = some aggregate →
    ∀ column value, (token, column) ∈ decidedColumns config account →
      (column, value) ∈ record.columns → value = aggregate (memberValues tables record.id column)

theorem mem_members {tables : GoldenTables R E} {member : Member R E} :
    member ∈ tables.members ↔ tables.stdRecords[member.recordKey]? = some member.record ∧
      tables.membership[member.recordKey]? = some member.entityId ∧
        tables.entities[member.entityId]? = some .active := by
  rw [GoldenTables.members, List.mem_filterMap]
  apply Iff.intro
  · rintro ⟨⟨key, record⟩, hrow, hmember⟩
    cases hentity : tables.membership[key]? with
    | none => simp [hentity] at hmember
    | some entity =>
        simp only [hentity, Option.ite_none_right_eq_some, Option.some.injEq] at hmember
        obtain ⟨hactive, rfl⟩ := hmember
        exact ⟨BTreeMap.mem_toList.mp hrow, hentity, hactive⟩
  · rintro ⟨hrecord, hentity, hactive⟩
    refine ⟨(member.recordKey, member.record), BTreeMap.mem_toList.mpr hrecord, ?_⟩
    simp [hentity, hactive]

theorem map_fst_attrRelations (config : Config) (account : Bool) (tables : GoldenTables R E) :
    (attrRelations config account tables).map Prod.fst = tokens config account := by
  simp [attrRelations, tokens, Function.comp_def]

/-- A relation has one row for each member. -/
theorem rows_of_attrRelations {config : Config} {account : Bool} {tables : GoldenTables R E}
    {relation : String × List (AttrRow R E)}
    (hrelation : relation ∈ attrRelations config account tables) :
    ∃ row : Member R E → AttrRow R E, relation.2 = tables.members.map row ∧
      ∀ member, (row member).entityId = member.entityId ∧
        (row member).recordKey = member.recordKey := by
  rcases List.mem_append.mp hrelation with hscalar | hgroup
  · obtain ⟨attr, _, rfl⟩ := List.mem_map.mp hscalar
    exact ⟨_, rfl, fun _ => ⟨rfl, rfl⟩⟩
  · obtain ⟨group, _, rfl⟩ := List.mem_map.mp hgroup
    exact ⟨_, rfl, fun _ => ⟨rfl, rfl⟩⟩

theorem tokenDecisions_eq_ok {doubles : Doubles} {config : Config}
    {relation : String × List (AttrRow R E)} {entry : String × List (Decision R E)}
    (hok : tokenDecisions doubles config relation = .ok entry) :
    entry.1 = relation.1 ∧ ∃ chain, config.survivorship[relation.1]? = some chain ∧
      survivorshipDecision doubles relation.1 chain relation.2 = .ok entry.2 := by
  rw [tokenDecisions] at hok
  cases hchain : config.survivorship[relation.1]? with
  | none =>
      rw [hchain] at hok
      cases hok
  | some chain =>
      rw [hchain] at hok
      cases hdecision : survivorshipDecision doubles relation.1 chain relation.2 with
      | error problem =>
          simp only [hdecision, bind, Except.bind] at hok
          cases hok
      | ok decisions =>
          simp only [hdecision, bind, Except.bind, pure, Except.pure, Except.ok.injEq] at hok
          subst hok
          exact ⟨rfl, chain, rfl, hdecision⟩

/-- There is a lineage when the statement binds and every chain is rendered. -/
theorem goldenLineage_eq_ok {doubles : Doubles} {config : Config} {account : Bool}
    {tables : GoldenTables R E} {lineage : List (LineageRow R E)}
    (hok : goldenLineage doubles config account tables = .ok lineage) :
    LineageBinds config account ∧ ∃ decided,
      (attrRelations config account tables).mapM (tokenDecisions doubles config) = .ok decided ∧
      lineage = decided.flatMap fun entry => entry.2.filterMap (lineageRow tables entry.1) := by
  rw [goldenLineage] at hok
  cases hdecided : (attrRelations config account tables).mapM (tokenDecisions doubles config) with
  | error problem =>
      rw [hdecided] at hok
      cases hok
  | ok decided =>
      rw [hdecided] at hok
      dsimp only at hok
      split at hok
      · rename_i hbinds
        exact ⟨hbinds.1, decided, rfl, (Except.ok.inj hok).symm⟩
      · cases hok

/-- The lineage row of a decision over the relation of a token. -/
structure Decided (doubles : Doubles) (config : Config) (account : Bool)
    (tables : GoldenTables R E) (relation : String × List (AttrRow R E))
    (decisions : List (Decision R E)) : Prop where
  listed : relation ∈ attrRelations config account tables
  rendered : ∃ chain, config.survivorship[relation.1]? = some chain ∧
    survivorshipDecision doubles relation.1 chain relation.2 = .ok decisions

namespace Decided

variable {doubles : Doubles} {config : Config} {account : Bool} {tables : GoldenTables R E}
  {relation : String × List (AttrRow R E)} {decisions : List (Decision R E)}

theorem elects (hdecided : Decided doubles config account tables relation decisions) :
    Elects relation.2 decisions := by
  obtain ⟨_, _, hok⟩ := hdecided.rendered
  exact survivorshipDecision_elects hok

/-- A decision names a member of its entity. -/
theorem member (hdecided : Decided doubles config account tables relation decisions)
    {decision : Decision R E} (hdecision : decision ∈ decisions) :
    ∃ member ∈ tables.members,
      member.entityId = decision.entityId ∧ member.recordKey = decision.recordKey := by
  obtain ⟨rowOf, hrows, hspec⟩ := rows_of_attrRelations hdecided.listed
  obtain ⟨row, hrow, hentity, hkey⟩ := hdecided.elects.member decision hdecision
  rw [hrows] at hrow
  obtain ⟨member, hmember, rfl⟩ := List.mem_map.mp hrow
  exact ⟨member, hmember, (hspec member).1.symm.trans hentity, (hspec member).2.symm.trans hkey⟩

theorem lineageRow_eq (hdecided : Decided doubles config account tables relation decisions)
    {decision : Decision R E} (hdecision : decision ∈ decisions) :
    ∃ row, lineageRow tables relation.1 decision = some row ∧ row.attr = relation.1 ∧
      row.entityId = decision.entityId ∧ row.recordKey = decision.recordKey := by
  obtain ⟨member, hmember, _, hkey⟩ := hdecided.member hdecision
  rw [lineageRow, ← hkey, (mem_members.mp hmember).1]
  exact ⟨_, rfl, rfl, rfl, rfl⟩

theorem map_entityId (hdecided : Decided doubles config account tables relation decisions) :
    decisions.map Decision.entityId = (tables.members.map Member.entityId).dedup := by
  obtain ⟨rowOf, hrows, hspec⟩ := rows_of_attrRelations hdecided.listed
  rw [hdecided.elects.entities, hrows, List.map_map]
  exact congrArg List.dedup (List.map_congr_left fun member _ => (hspec member).1)

end Decided

section Lineage

variable {doubles : Doubles} {config : Config} {account : Bool} {tables : GoldenTables R E}
  {lineage : List (LineageRow R E)}

theorem exists_decision (hok : goldenLineage doubles config account tables = .ok lineage)
    {row : LineageRow R E} (hrow : row ∈ lineage) :
    ∃ relation decisions, Decided doubles config account tables relation decisions ∧
      row.attr = relation.1 ∧ ∃ decision ∈ decisions,
        row.entityId = decision.entityId ∧ row.recordKey = decision.recordKey := by
  obtain ⟨_, decided, hloop, rfl⟩ := goldenLineage_eq_ok hok
  obtain ⟨entry, hentry, hmem⟩ := List.mem_flatMap.mp hrow
  obtain ⟨decision, hdecision, hsome⟩ := List.mem_filterMap.mp hmem
  obtain ⟨relation, hrelation, htoken⟩ := (mem_of_mapM_eq_ok hloop).mp hentry
  obtain ⟨hname, hdecisions⟩ := tokenDecisions_eq_ok htoken
  have hdecided : Decided doubles config account tables relation entry.2 :=
    ⟨hrelation, hdecisions⟩
  obtain ⟨made, hmade, hattr, hentity, hkey⟩ := hdecided.lineageRow_eq hdecision
  rw [hname, hmade] at hsome
  rw [← Option.some.inj hsome]
  exact ⟨relation, entry.2, hdecided, hattr, decision, hdecision, hentity, hkey⟩

theorem map_lineage (hok : goldenLineage doubles config account tables = .ok lineage) :
    lineage.map (fun row => (row.attr, row.entityId)) =
      (tokens config account).flatMap fun token =>
        ((tables.members.map Member.entityId).dedup).map fun entity => (token, entity) := by
  obtain ⟨_, decided, hloop, rfl⟩ := goldenLineage_eq_ok hok
  have hnames : decided.map Prod.fst = tokens config account := by
    rw [← map_fst_attrRelations config account tables]
    exact map_of_mapM_eq_ok hloop fun relation entry htoken => (tokenDecisions_eq_ok htoken).1
  rw [← hnames, List.map_flatMap, List.flatMap_map]
  apply List.flatMap_congr
  intro entry hentry
  obtain ⟨relation, hrelation, htoken⟩ := (mem_of_mapM_eq_ok hloop).mp hentry
  obtain ⟨hname, hdecisions⟩ := tokenDecisions_eq_ok htoken
  have hdecided : Decided doubles config account tables relation entry.2 :=
    ⟨hrelation, hdecisions⟩
  rw [← hdecided.map_entityId, List.map_map, hname]
  apply map_filterMap_eq
  intro decision hdecision
  obtain ⟨row, hrow, hattr, hentity, _⟩ := hdecided.lineageRow_eq hdecision
  exact ⟨row, hrow, Prod.ext hattr hentity⟩

theorem nodup_lineage (hok : goldenLineage doubles config account tables = .ok lineage) :
    (lineage.map fun row => (row.attr, row.entityId)).Nodup := by
  have hdistinct := (goldenLineage_eq_ok hok).1.distinct
  rw [map_lineage hok, List.nodup_flatMap]
  apply And.intro
  · intro token _
    exact (List.nodup_dedup _).map fun first second hsame => (Prod.mk.inj hsame).2
  · apply (List.Nodup.of_map _ hdistinct).imp
    intro first second hne
    rw [Function.onFun, List.disjoint_left]
    intro pair hfirst hsecond
    obtain ⟨_, _, rfl⟩ := List.mem_map.mp hfirst
    obtain ⟨_, _, hsame⟩ := List.mem_map.mp hsecond
    exact hne (Prod.mk.inj hsame).1.symm

theorem exists_lineageRow (hok : goldenLineage doubles config account tables = .ok lineage)
    {entity : E} (hpeopled : Peopled tables entity) {token : String}
    (htoken : token ∈ tokens config account) :
    ∃ row ∈ lineage, row.attr = token ∧ row.entityId = entity := by
  have hmem : (token, entity) ∈ lineage.map fun row => (row.attr, row.entityId) := by
    rw [map_lineage hok, List.mem_flatMap]
    refine ⟨token, htoken, List.mem_map.mpr ⟨entity, ?_, rfl⟩⟩
    rw [List.mem_dedup, List.mem_map]
    exact hpeopled
  obtain ⟨row, hrow, hkey⟩ := List.mem_map.mp hmem
  exact ⟨row, hrow, congrArg Prod.fst hkey, congrArg Prod.snd hkey⟩

/-- A lineage row names a member of its entity, under a token. -/
theorem lineageRow_member (hok : goldenLineage doubles config account tables = .ok lineage)
    {row : LineageRow R E} (hrow : row ∈ lineage) :
    row.attr ∈ tokens config account ∧ ∃ member ∈ tables.members,
      member.entityId = row.entityId ∧ member.recordKey = row.recordKey := by
  rcases exists_decision hok hrow with
    ⟨relation, decisions, hdecided, hattr, decision, hdecision, hentity, hkey⟩
  apply And.intro
  · rw [hattr, ← map_fst_attrRelations config account tables]
    exact List.mem_map_of_mem hdecided.listed
  · rw [hentity, hkey]
    exact hdecided.member hdecision

/-- Under a synthesizing chain the lineage names the least record key of the entity. -/
theorem recordKey_le_of_synthesizes_token
    (hok : goldenLineage doubles config account tables = .ok lineage) {row : LineageRow R E}
    (hrow : row ∈ lineage) (hsynthesizes : (synthesizes doubles config row.attr).isSome)
    {member : Member R E} (hmember : member ∈ tables.members)
    (hentity : member.entityId = row.entityId) : row.recordKey ≤ member.recordKey := by
  rcases exists_decision hok hrow with
    ⟨relation, decisions, hdecided, hattr, decision, hdecision, hdecisionEntity, hkey⟩
  obtain ⟨chain, hchain, hdecisions⟩ := hdecided.rendered
  obtain ⟨rowOf, hrows, hspec⟩ := rows_of_attrRelations hdecided.listed
  rw [synthesizes, hattr, hchain, Option.bind_some] at hsynthesizes
  have hmem : rowOf member ∈ relation.2 := by
    rw [hrows]
    exact List.mem_map_of_mem hmember
  have hsame : (rowOf member).entityId = decision.entityId := by
    rw [(hspec member).1, hentity, hdecisionEntity]
  have hle := recordKey_le_of_synthesizes hdecisions hsynthesizes hdecision hmem hsame
  rw [hkey]
  rwa [(hspec member).2] at hle

end Lineage

/-! ## The records -/

omit [LinearOrder R] [LinearOrder E] in
theorem maxFilter_eq {token column : String} {rows : List (LineageRow R E × StdRecord)}
    {row : LineageRow R E × StdRecord}
    (hone : rows.filter (fun other => other.1.attr = token) = [row]) :
    maxFilter token column rows = row.2.column column := by
  have hvalues : (rows.filterMap fun other =>
      if other.1.attr = token then other.2.column column else none) =
        (rows.filter fun other => other.1.attr = token).filterMap fun other =>
          other.2.column column := by
    rw [List.filterMap_filter]
    simp only [decide_eq_true_eq]
  rw [maxFilter, hvalues, hone]
  cases hvalue : row.2.column column with
  | none => simp [hvalue]
  | some value => simp [hvalue]

section Records

variable {doubles : Doubles} {config : Config} {account : Bool} {tables : GoldenTables R E}
  {lineage : List (LineageRow R E)}

theorem map_fst_survivedRows (hok : goldenLineage doubles config account tables = .ok lineage) :
    (survivedRows tables lineage).map Prod.fst = lineage := by
  have hmade : ∀ row ∈ lineage, ∃ made,
      (match tables.stdRecords[row.recordKey]? with
        | none => none
        | some record =>
            if tables.entities[row.entityId]? = some .active then some (row, record) else none) =
          some made ∧ made.1 = id row := by
    intro row hrow
    obtain ⟨member, hmember, hentity, hkey⟩ := (lineageRow_member hok hrow).2
    obtain ⟨hrecord, _, hactive⟩ := mem_members.mp hmember
    rw [hkey] at hrecord
    rw [hentity] at hactive
    exact ⟨(row, member.record), by simp [hrecord, hactive], rfl⟩
  rw [survivedRows, map_filterMap_eq hmade, List.map_id]

theorem record_of_mem_survivedRows {row : LineageRow R E × StdRecord}
    (hrow : row ∈ survivedRows tables lineage) :
    tables.stdRecords[row.1.recordKey]? = some row.2 := by
  obtain ⟨source, _, hmade⟩ := List.mem_filterMap.mp hrow
  cases hrecord : tables.stdRecords[source.recordKey]? with
  | none => simp [hrecord] at hmade
  | some record =>
      simp only [hrecord, Option.ite_none_right_eq_some, Option.some.injEq] at hmade
      obtain ⟨_, rfl⟩ := hmade
      exact hrecord

/-- The rows of an entity in the record statement. -/
def entityRows (tables : GoldenTables R E) (lineage : List (LineageRow R E)) (entity : E) :
    List (LineageRow R E × StdRecord) :=
  (survivedRows tables lineage).filter fun row => row.1.entityId = entity

/-- The columns of an entity in the record statement. -/
def entityColumns (doubles : Doubles) (config : Config) (account : Bool)
    (tables : GoldenTables R E) (lineage : List (LineageRow R E)) (entity : E) :
    List (String × Option String) :=
  (resolvedScalars config account).map
      (scalarProjection doubles config tables (entity, entityRows tables lineage entity)) ++
    (resolvedGroups config account).flatMap
      (groupProjection (entity, entityRows tables lineage entity))

theorem filter_entityRows (hok : goldenLineage doubles config account tables = .ok lineage)
    {row : LineageRow R E} (hrow : row ∈ lineage) :
    ∃ source, tables.stdRecords[row.recordKey]? = some source ∧
      (entityRows tables lineage row.entityId).filter (fun other => other.1.attr = row.attr) =
        [(row, source)] := by
  rw [← map_fst_survivedRows hok] at hrow
  obtain ⟨⟨lineageRow, source⟩, hsurvived, rfl⟩ := List.mem_map.mp hrow
  have hnodup : ((survivedRows tables lineage).map fun other =>
      (other.1.attr, other.1.entityId)).Nodup := by
    have hkeys := nodup_lineage hok
    rw [← map_fst_survivedRows hok, List.map_map] at hkeys
    exact hkeys
  refine ⟨source, record_of_mem_survivedRows hsurvived, ?_⟩
  rw [← filter_key_eq_singleton hnodup hsurvived, entityRows, List.filter_filter]
  apply List.filter_congr
  intro other _
  simp only [Prod.mk.injEq, Bool.decide_and]

theorem mem_goldenRecords {records : List (GoldenRecord E)}
    (hok : goldenRecords doubles config account tables lineage = .ok records)
    {record : GoldenRecord E} :
    record ∈ records ↔ (∃ row ∈ survivedRows tables lineage, row.1.entityId = record.id) ∧
      record.columns = entityColumns doubles config account tables lineage record.id := by
  rw [goldenRecords] at hok
  split at hok
  · rw [← Except.ok.inj hok, List.mem_map]
    apply Iff.intro
    · rintro ⟨group, hgroup, rfl⟩
      obtain ⟨hrows, hpart⟩ := mem_groups.mp hgroup
      refine ⟨hrows, ?_⟩
      rw [entityColumns, entityRows, ← hpart]
    · rintro ⟨hrows, hcolumns⟩
      refine ⟨(record.id, entityRows tables lineage record.id), mem_groups.mpr ⟨hrows, rfl⟩, ?_⟩
      obtain ⟨id, columns⟩ := record
      exact congrArg (GoldenRecord.mk id) hcolumns.symm
  · cases hok

theorem map_id_goldenRecords {records : List (GoldenRecord E)}
    (hlineage : goldenLineage doubles config account tables = .ok lineage)
    (hok : goldenRecords doubles config account tables lineage = .ok records) :
    (records.map GoldenRecord.id).Nodup ∧
      ∀ entity, entity ∈ records.map GoldenRecord.id ↔ Peopled tables entity := by
  have hids : records.map GoldenRecord.id =
      (((survivedRows tables lineage).map fun row => row.1.entityId)).dedup := by
    rw [goldenRecords] at hok
    split at hok
    · rw [← Except.ok.inj hok, List.map_map, ← map_fst_groups]
      rfl
    · cases hok
  have hbind : resolvedScalars config account ≠ [] := by
    rw [goldenRecords] at hok
    split at hok
    · rename_i hbinds
      exact hbinds.scalars
    · cases hok
  rw [hids]
  apply And.intro (List.nodup_dedup _)
  intro entity
  have hentities : (survivedRows tables lineage).map (fun row => row.1.entityId) =
      lineage.map LineageRow.entityId := by
    have hmap := congrArg (List.map LineageRow.entityId) (map_fst_survivedRows hlineage)
    rw [List.map_map] at hmap
    exact hmap
  rw [List.mem_dedup, hentities, List.mem_map]
  apply Iff.intro
  · rintro ⟨row, hrow, rfl⟩
    obtain ⟨member, hmember, hentity, _⟩ := (lineageRow_member hlineage hrow).2
    exact ⟨member, hmember, hentity⟩
  · intro hpeopled
    obtain ⟨attr, hattr⟩ := List.exists_mem_of_ne_nil _ hbind
    rcases exists_lineageRow hlineage hpeopled (List.mem_append_left _ hattr) with
      ⟨row, hrow, _, hentity⟩
    exact ⟨row, hrow, hentity⟩

end Records

section Columns

variable {doubles : Doubles} {config : Config} {account : Bool} {tables : GoldenTables R E}
  {lineage : List (LineageRow R E)}

theorem mem_resolvedGroups {group : ResolvedGroup} :
    group ∈ resolvedGroups config account ↔
      group ∈ builtinGroups config account ∨ group ∈ declaredGroups config := by
  rw [resolvedGroups, List.mem_insertionSort, List.mem_append]

/-- No group in effect holds a scalar in effect. -/
theorem scalar_notMem_fields {attr : String} (hattr : attr ∈ resolvedScalars config account)
    {group : ResolvedGroup} (hgroup : group ∈ resolvedGroups config account) :
    attr ∉ group.fields := by
  obtain ⟨hscalar, hclaimed⟩ := List.mem_filter.mp hattr
  rcases mem_resolvedGroups.mp hgroup with hbuiltin | hdeclared
  · rw [builtinGroups] at hbuiltin
    split at hbuiltin
    · cases hbuiltin
    · rw [List.mem_singleton.mp hbuiltin]
      exact scalar_not_address account attr hscalar
  · intro hfield
    exact of_decide_eq_true hclaimed (List.mem_flatMap.mpr ⟨group, hdeclared, hfield⟩)

/-- A column that two groups in effect hold is of one group. -/
theorem group_eq_of_mem_fields
    (hdisjoint : (resolvedGroups config account).Pairwise fun first second =>
      first.fields.Disjoint second.fields)
    {first second : ResolvedGroup} (hfirst : first ∈ resolvedGroups config account)
    (hsecond : second ∈ resolvedGroups config account) {column : String}
    (hfirstColumn : column ∈ first.fields) (hsecondColumn : column ∈ second.fields) :
    first = second := by
  by_contra hne
  have : Std.Symm fun first second : ResolvedGroup => first.fields.Disjoint second.fields :=
    ⟨fun _ _ hdisjoint => hdisjoint.symm⟩
  exact hdisjoint.forall hfirst hsecond hne hfirstColumn hsecondColumn

theorem mem_decidedColumns {token column : String} :
    (token, column) ∈ decidedColumns config account ↔
      (token ∈ resolvedScalars config account ∧ column = token) ∨
        ∃ group ∈ resolvedGroups config account, group.token = token ∧ column ∈ group.fields := by
  simp only [decidedColumns, List.mem_append, List.mem_map, List.mem_flatMap, Prod.mk.injEq]
  apply or_congr
  · apply Iff.intro
    · rintro ⟨attr, hattr, rfl, rfl⟩
      exact ⟨hattr, rfl⟩
    · rintro ⟨htoken, rfl⟩
      exact ⟨_, htoken, rfl, rfl⟩
  · apply Iff.intro
    · rintro ⟨group, hgroup, field, hfield, rfl, rfl⟩
      exact ⟨group, hgroup, rfl, hfield⟩
    · rintro ⟨group, hgroup, rfl, hcolumn⟩
      exact ⟨group, hgroup, column, hcolumn, rfl, rfl⟩

theorem map_fst_entityColumns (entity : E) :
    (entityColumns doubles config account tables lineage entity).map Prod.fst =
      (decidedColumns config account).map Prod.snd := by
  have hscalar : ∀ group : E × List (LineageRow R E × StdRecord), ∀ attr,
      (scalarProjection doubles config tables group attr).1 = attr := by
    intro group attr
    rw [scalarProjection]
    split <;> rfl
  rw [entityColumns, decidedColumns, List.map_append, List.map_append, List.map_map, List.map_map,
    List.map_flatMap, List.map_flatMap]
  apply congrArg₂
  · exact List.map_congr_left fun attr _ => hscalar _ attr
  · apply List.flatMap_congr
    intro group _
    rw [groupProjection, List.map_map, List.map_map]
    rfl

/-- A column of a scalar is synthesized, or read from the rows of its token. -/
theorem scalar_value {entity : E} {attr : String} {value : Option String}
    (hattr : attr ∈ resolvedScalars config account)
    (hvalue : (attr, value) ∈ entityColumns doubles config account tables lineage entity) :
    value = match synthesizes doubles config attr with
      | some aggregate => aggregate (memberValues tables entity attr)
      | none => maxFilter attr attr (entityRows tables lineage entity) := by
  rcases List.mem_append.mp hvalue with hscalar | hgrouped
  · obtain ⟨other, _, hpair⟩ := List.mem_map.mp hscalar
    rw [scalarProjection] at hpair
    split at hpair
    · rename_i aggregate haggregate
      obtain ⟨rfl, rfl⟩ := Prod.mk.inj hpair
      rw [haggregate]
    · rename_i hnone
      obtain ⟨rfl, rfl⟩ := Prod.mk.inj hpair
      rw [hnone]
  · obtain ⟨group, hgroup, hfield⟩ := List.mem_flatMap.mp hgrouped
    obtain ⟨field, hmem, hpair⟩ := List.mem_map.mp hfield
    rw [(Prod.mk.inj hpair).1] at hmem
    exact absurd hmem (scalar_notMem_fields hattr hgroup)

/-- A column of a group is read from the rows of its token. -/
theorem group_value
    (hdisjoint : (resolvedGroups config account).Pairwise fun first second =>
      first.fields.Disjoint second.fields)
    {entity : E} {group : ResolvedGroup} (hgroup : group ∈ resolvedGroups config account)
    {column : String} {value : Option String} (hcolumn : column ∈ group.fields)
    (hvalue : (column, value) ∈ entityColumns doubles config account tables lineage entity) :
    value = maxFilter group.token column (entityRows tables lineage entity) := by
  rcases List.mem_append.mp hvalue with hscalar | hgrouped
  · obtain ⟨attr, hattr, hpair⟩ := List.mem_map.mp hscalar
    have hname : attr = column := by
      rw [scalarProjection] at hpair
      split at hpair <;> exact (Prod.mk.inj hpair).1
    rw [← hname] at hcolumn
    exact absurd hcolumn (scalar_notMem_fields hattr hgroup)
  · obtain ⟨other, hother, hfield⟩ := List.mem_flatMap.mp hgrouped
    obtain ⟨field, hmem, hpair⟩ := List.mem_map.mp hfield
    obtain ⟨rfl, rfl⟩ := Prod.mk.inj hpair
    rw [group_eq_of_mem_fields hdisjoint hgroup hother hcolumn hmem]

/-- Tokens of groups are no scalars in effect. -/
theorem token_notMem_scalars (hbinds : LineageBinds config account) {group : ResolvedGroup}
    (hgroup : group ∈ resolvedGroups config account) :
    group.token ∉ resolvedScalars config account := by
  have hdistinct := List.Nodup.of_map _ hbinds.distinct
  rw [tokens, List.nodup_append] at hdistinct
  intro hscalar
  exact hdistinct.2.2 _ hscalar _ (List.mem_map_of_mem hgroup) rfl

/-- A column whose value is not synthesized is that column of the record its lineage row names. -/
theorem value_eq_of_lineageRow
    (hok : goldenLineage doubles config account tables = .ok lineage)
    (hdisjoint : (resolvedGroups config account).Pairwise fun first second =>
      first.fields.Disjoint second.fields)
    {row : LineageRow R E} (hrow : row ∈ lineage) :
    ∃ source, tables.stdRecords[row.recordKey]? = some source ∧
      ∀ column value, (row.attr, column) ∈ decidedColumns config account →
        (column, value) ∈ entityColumns doubles config account tables lineage row.entityId →
        row.attr ∉ resolvedScalars config account ∨ synthesizes doubles config row.attr = none →
        value = source.column column := by
  obtain ⟨source, hsource, hone⟩ := filter_entityRows hok hrow
  refine ⟨source, hsource, fun column value hdecided hvalue hplain => ?_⟩
  rcases mem_decidedColumns.mp hdecided with ⟨hscalar, rfl⟩ | ⟨group, hgroup, htoken, hcolumn⟩
  · have hnone : synthesizes doubles config row.attr = none :=
      hplain.resolve_left (not_not_intro hscalar)
    rw [scalar_value hscalar hvalue, hnone]
    exact maxFilter_eq hone
  · rw [group_value hdisjoint hgroup hcolumn hvalue, htoken]
    exact maxFilter_eq hone

end Columns

/-! ## When they agree -/

/-- No group in effect that has fields makes values of the values of all members. -/
def NoGroupSynthesizes (doubles : Doubles) (config : Config) (account : Bool) : Prop :=
  ∀ group ∈ resolvedGroups config account, group.fields ≠ [] →
    synthesizes doubles config group.token = none

section Agreement

variable {doubles : Doubles} {config : Config} {account : Bool} {tables : GoldenTables R E}
  {lineage : List (LineageRow R E)} {records : List (GoldenRecord E)}

theorem agrees_of_noGroupSynthesizes
    (hlineage : goldenLineage doubles config account tables = .ok lineage)
    (hrecords : goldenRecords doubles config account tables lineage = .ok records)
    (hdisjoint : (resolvedGroups config account).Pairwise fun first second =>
      first.fields.Disjoint second.fields)
    (hgroups : NoGroupSynthesizes doubles config account) :
    Agrees doubles config account tables lineage records := by
  have hbinds := (goldenLineage_eq_ok hlineage).1
  obtain ⟨hnodup, hids⟩ := map_id_goldenRecords hlineage hrecords
  have hpeopled : ∀ record ∈ records, Peopled tables record.id := fun record hrecord =>
    (hids record.id).mp (List.mem_map_of_mem hrecord)
  have hcolumns : ∀ record ∈ records,
      record.columns = entityColumns doubles config account tables lineage record.id :=
    fun record hrecord => ((mem_goldenRecords hrecords).mp hrecord).2
  refine ⟨?_, fun row hrow => lineageRow_member hlineage hrow, ?_, ?_, ?_, ?_, ?_⟩
  · intro entity hentity token htoken
    obtain ⟨row, hrow, rfl, rfl⟩ := exists_lineageRow hlineage hentity htoken
    have hone := filter_key_eq_singleton (nodup_lineage hlineage) hrow
    have hsame : lineage.filter (fun other => other.entityId = row.entityId ∧
        other.attr = row.attr) = [row] := by
      rw [← hone]
      apply List.filter_congr
      intro other _
      simp only [Prod.mk.injEq, and_comm]
    rw [hsame]
    rfl
  · intro entity hentity
    obtain ⟨record, hrecord, rfl⟩ := List.mem_map.mp ((hids entity).mpr hentity)
    rw [filter_key_eq_singleton hnodup hrecord]
    rfl
  · intro record hrecord
    refine ⟨hpeopled record hrecord, ?_⟩
    rw [hcolumns record hrecord]
    exact map_fst_entityColumns record.id
  · intro record hrecord row hrow hentity hnone
    obtain ⟨source, hsource, hvalues⟩ := value_eq_of_lineageRow hlineage hdisjoint hrow
    rw [hcolumns record hrecord, ← hentity]
    exact ⟨source, hsource, fun column value hdecided hvalue =>
      hvalues column value hdecided hvalue (Or.inr hnone)⟩
  · intro record hrecord group hgroup
    have htoken : group.token ∈ tokens config account :=
      List.mem_append_right _ (List.mem_map_of_mem hgroup)
    rcases exists_lineageRow hlineage (hpeopled record hrecord) htoken with
      ⟨row, hrow, hattr, hentity⟩
    obtain ⟨source, hsource, hvalues⟩ := value_eq_of_lineageRow hlineage hdisjoint hrow
    obtain ⟨member, hmember, hmemberEntity, hkey⟩ := (lineageRow_member hlineage hrow).2
    have hrecordOf : member.record = source := by
      rw [← hkey, (mem_members.mp hmember).1] at hsource
      exact Option.some.inj hsource
    refine ⟨member, hmember, hmemberEntity.trans hentity, ?_⟩
    intro column value hcolumn hvalue
    rw [hcolumns record hrecord, ← hentity] at hvalue
    rw [hrecordOf]
    apply hvalues column value _ hvalue
    · rw [hattr]
      exact Or.inl (token_notMem_scalars hbinds hgroup)
    · exact mem_decidedColumns.mpr (Or.inr ⟨group, hgroup, hattr.symm, hcolumn⟩)
  · intro record hrecord token aggregate haggregate column value hdecided hvalue
    rw [hcolumns record hrecord] at hvalue
    rcases mem_decidedColumns.mp hdecided with ⟨hscalar, rfl⟩ | ⟨group, hgroup, rfl, hcolumn⟩
    · rw [scalar_value hscalar hvalue, haggregate]
    · rw [hgroups group hgroup (List.ne_nil_of_mem hcolumn)] at haggregate
      cases haggregate

/-- There is a lineage, and there are records, when the statements bind and every chain is
rendered. -/
theorem exists_golden (tables : GoldenTables R E) (hbinds : LineageBinds config account)
    (hvalidity : ValidityBinds config account) (hrecords : RecordsBind config account)
    (haccepts : ∀ token ∈ tokens config account, ∃ chain,
      config.survivorship[token]? = some chain ∧
        (survivorshipDecision doubles token chain ([] : List (AttrRow R E))).isOk) :
    ∃ lineage records, goldenLineage doubles config account tables = .ok lineage ∧
      goldenRecords doubles config account tables lineage = .ok records := by
  have hloop : ∃ decided,
      (attrRelations config account tables).mapM (tokenDecisions doubles config) = .ok decided := by
    apply exists_mapM_eq_ok
    intro relation hrelation
    have htoken : relation.1 ∈ tokens config account := by
      rw [← map_fst_attrRelations config account tables]
      exact List.mem_map_of_mem hrelation
    obtain ⟨chain, hchain, hok⟩ := haccepts relation.1 htoken
    obtain ⟨decisions, hdecisions⟩ := exists_survivorshipDecision hok relation.2
    rw [tokenDecisions, hchain]
    dsimp only
    rw [hdecisions]
    exact ⟨_, rfl⟩
  obtain ⟨decided, hdecided⟩ := hloop
  rw [goldenLineage, hdecided]
  dsimp only
  rw [if_pos ⟨hbinds, hvalidity⟩]
  have hread : ∀ lineage, ∃ records,
      goldenRecords doubles config account tables lineage = .ok records := by
    intro lineage
    rw [goldenRecords, if_pos hrecords]
    exact ⟨_, rfl⟩
  obtain ⟨records, hread⟩ := hread _
  exact ⟨_, records, rfl, hread⟩

end Agreement

theorem exists_aggregate_ne {doubles : Doubles} {config : Config} {token : String}
    {aggregate : List (Option String) → Option String}
    (hsynthesizes : synthesizes doubles config token = some aggregate) :
    ∃ first second, aggregate [first, second] ≠ first := by
  obtain ⟨chain, _, hchain⟩ := Option.bind_eq_some_iff.mp hsynthesizes
  rw [synthesizedValue] at hchain
  split at hchain
  · rw [bucketBAggregate] at hchain
    split at hchain
    · rw [← Option.some.inj hchain]
      exact ⟨none, some "1", by decide⟩
    · split at hchain
      · rw [← Option.some.inj hchain]
        cases hcast : doubles.tryCast "1" with
        | none => exact ⟨some "1", none, by simp [Doubles.sum, hcast]⟩
        | some number => exact ⟨none, some "1", by simp [Doubles.sum, hcast]⟩
      · cases hchain
  · cases hchain

/-- A record with one value in every column. -/
def uniformRecord (value : Option String) : StdRecord where
  sourceSystem := ""
  sourceRecordId := ""
  updatedAtSource := none
  ingestedAt := 0
  column _ := value
  flag _ := none

/-- An active entity with two records. -/
def pairTables (first second : R) (entity : E) (value other : Option String) :
    GoldenTables R E where
  stdRecords := ((∅ : BTreeMap R StdRecord).insert first (uniformRecord value)).insert second
    (uniformRecord other)
  membership := ((∅ : BTreeMap R E).insert first entity).insert second entity
  entities := (∅ : BTreeMap E Status).insert entity .active

theorem members_pairTables {first second : R} (hlt : first < second) (entity : E)
    (value other : Option String) :
    (pairTables first second entity value other).members =
      [⟨entity, first, uniformRecord value⟩, ⟨entity, second, uniformRecord other⟩] := by
  have hrows : (pairTables first second entity value other).stdRecords.toList =
      [(first, uniformRecord value), (second, uniformRecord other)] := by
    have hirrefl : Std.Irrefl fun first second : R × StdRecord => first.1 < second.1 :=
      ⟨fun row => lt_irrefl row.1⟩
    have hasymm : Std.Antisymm fun first second : R × StdRecord => first.1 < second.1 :=
      ⟨fun _ _ hlt hgt => absurd hgt (lt_asymm hlt)⟩
    apply List.Pairwise.eq_of_mem_iff (BTreeMap.toList_pairwise_lt _)
    · simpa using hlt
    · rintro ⟨key, record⟩
      rw [BTreeMap.mem_toList, pairTables]
      simp only [BTreeMap.getElem?_insert_eq_ite, List.mem_cons, Prod.mk.injEq, List.not_mem_nil,
        or_false]
      by_cases hsecond : second = key
      · have hne : key ≠ first := fun hsame =>
          absurd hlt (by rw [hsecond, hsame]; exact lt_irrefl _)
        simp [hsecond, hne, eq_comm]
      · by_cases hfirst : first = key
        · simp [hsecond, hfirst, eq_comm]
        · simp [hsecond, hfirst, Ne.symm hsecond, Ne.symm hfirst]
  have hne : ¬ second = first := fun hsame => absurd hlt (by rw [hsame]; exact lt_irrefl _)
  rw [GoldenTables.members, hrows]
  simp [pairTables, BTreeMap.getElem?_insert_eq_ite, hne]

/-- Where a group with fields synthesizes, its columns are those of the first record, not the
aggregate. -/
theorem not_agrees_of_synthesizes {doubles : Doubles} {config : Config} {account : Bool}
    (hdisjoint : (resolvedGroups config account).Pairwise fun first second =>
      first.fields.Disjoint second.fields)
    {group : ResolvedGroup} (hgroup : group ∈ resolvedGroups config account)
    (hfields : group.fields ≠ []) {aggregate : List (Option String) → Option String}
    (haggregate : synthesizes doubles config group.token = some aggregate) {first second : R}
    (hlt : first < second) (entity : E) {value other : Option String}
    (hne : aggregate [value, other] ≠ value) {lineage : List (LineageRow R E)}
    {records : List (GoldenRecord E)}
    (hlineage : goldenLineage doubles config account
      (pairTables first second entity value other) = .ok lineage)
    (hrecords : goldenRecords doubles config account
      (pairTables first second entity value other) lineage = .ok records) :
    ¬ Agrees doubles config account (pairTables first second entity value other) lineage
      records := by
  intro hagrees
  have hmembers := members_pairTables hlt entity value other
  have hfirst : (⟨entity, first, uniformRecord value⟩ : Member R E) ∈
      (pairTables first second entity value other).members := by
    rw [hmembers]
    exact List.mem_cons_self
  have hpeopled : Peopled (pairTables first second entity value other) entity := ⟨_, hfirst, rfl⟩
  have htoken : group.token ∈ tokens config account :=
    List.mem_append_right _ (List.mem_map_of_mem hgroup)
  obtain ⟨row, hrow, hattr, hentity⟩ := exists_lineageRow hlineage hpeopled htoken
  -- the lineage names the least record key, so the group is read from the first record
  have hle : row.recordKey ≤ first :=
    recordKey_le_of_synthesizes_token hlineage hrow
      (by rw [hattr, haggregate]; rfl) hfirst hentity.symm
  have hkey : row.recordKey = first := by
    obtain ⟨member, hmember, _, hmemberKey⟩ := (lineageRow_member hlineage hrow).2
    rw [hmembers, List.mem_pair] at hmember
    rcases hmember with rfl | rfl
    · exact hmemberKey.symm
    · rw [← hmemberKey] at hle
      exact absurd hlt (not_lt_of_ge hle)
  obtain ⟨source, hsource, hvalues⟩ := value_eq_of_lineageRow hlineage hdisjoint hrow
  have hsourceOf : source = uniformRecord value := by
    rw [hkey, (mem_members.mp hfirst).1] at hsource
    exact (Option.some.inj hsource).symm
  rcases List.mem_map.mp (((map_id_goldenRecords hlineage hrecords).2 entity).mpr hpeopled) with
    ⟨record, hrecord, hid⟩
  have hcolumns := ((mem_goldenRecords hrecords).mp hrecord).2
  obtain ⟨field, hfield⟩ := List.exists_mem_of_ne_nil _ hfields
  have hdecided : (group.token, field) ∈ decidedColumns config account :=
    mem_decidedColumns.mpr (Or.inr ⟨group, hgroup, rfl, hfield⟩)
  have hlisted : field ∈ record.columns.map Prod.fst := by
    rw [(hagrees.records_only record hrecord).2]
    exact List.mem_map_of_mem hdecided
  obtain ⟨⟨column, read⟩, hread, hcolumn⟩ := List.mem_map.mp hlisted
  have hname : column = field := hcolumn
  rw [hname] at hread
  have hsynthesized :=
    hagrees.synthesized record hrecord group.token aggregate haggregate field read hdecided hread
  have hplain : read = value := by
    rw [hentity, hattr] at hvalues
    rw [hcolumns, hid] at hread
    rw [hvalues field read hdecided hread
      (Or.inl (token_notMem_scalars (goldenLineage_eq_ok hlineage).1 hgroup)), hsourceOf]
    rfl
  have hvaluesOf : memberValues (pairTables first second entity value other) record.id field =
      [value, other] := by
    rw [memberValues, hmembers, hid]
    simp [uniformRecord]
  rw [hplain, hvaluesOf] at hsynthesized
  exact hne hsynthesized.symm

/-- A config with one group besides the built-in one. -/
def fullNameConfig (fullNameChain : List String) : Config where
  entityType := .person
  sources := (∅ : BTreeMap String ℕ).insert "crm" 1
  survivorship := ["email", "phone_e164", "birth_date", "address"].foldl
    (fun chains token => chains.insert token ["recency", "record_key ASC"])
    ((∅ : BTreeMap String (List String)).insert "full_name" fullNameChain)
  survivorshipGroups := (∅ : BTreeMap String SurvivorshipGroup).insert "full_name"
    { fields := ["given_name", "family_name"], controlling := none }
  relatedColumns := []

/-- Doubles that are written without a point. -/
def wholeDoubles : Doubles where
  tryCast text := (text.toNat?).map fun number => (number : ℚ)
  render number := toString number.num ++ ".0"

theorem accepts_fullName (R : Type u) (E : Type v) [LinearOrder R] [LinearOrder E]
    (chain : List String)
    (hok : ((tokens (fullNameConfig chain) false).all fun token =>
      ((fullNameConfig chain).survivorship[token]?).any fun chain =>
        (survivorshipDecision wholeDoubles token chain ([] : List (AttrRow R E))).isOk) = true) :
    ∀ token ∈ tokens (fullNameConfig chain) false, ∃ chain',
      (fullNameConfig chain).survivorship[token]? = some chain' ∧
        (survivorshipDecision wholeDoubles token chain' ([] : List (AttrRow R E))).isOk := by
  intro token htoken
  have hany := List.all_eq_true.mp hok token htoken
  cases hchain : (fullNameConfig chain).survivorship[token]? with
  | none =>
      rw [hchain] at hany
      cases hany
  | some found =>
      rw [hchain] at hany
      exact ⟨found, rfl, hany⟩

theorem disjoint_fullName (chain : List String) :
    (resolvedGroups (fullNameConfig chain) false).Pairwise fun first second =>
      first.fields.Disjoint second.fields := by
  have hapart : (resolvedGroups (fullNameConfig []) false).Pairwise fun first second =>
      ∀ field ∈ first.fields, field ∉ second.fields := by decide +kernel
  exact hapart.imp fun hdisjoint field hfirst hsecond => hdisjoint field hfirst hsecond

end EntityResolution.Golden
