/-
# The entity catalog against a live store

An entity declares a relation and its columns, and the stores it is generated for. A catalog is a
list of entities in which no entity repeats a column and no two entities own the same relation of
one store. The differ compares the entities of one store with the columns that store reports, in
declaration order, and classifies each difference: safe to apply, breaking, or a column the store
carries beyond the catalog.
-/

import EntityResolution.Foundations.Collections

namespace EntityResolution.Schema

open EntityResolution.Collections

/-- A persistence store an entity's DDL is rendered for. -/
inductive Store
  | duckdb
  | postgres
  deriving DecidableEq

def Store.qualifier : Store → String
  | .duckdb => "lake.main"
  | .postgres => "public"

/-- The eight types a declared column may take. -/
inductive ColumnType
  | varchar
  | bigint
  | double
  | boolean
  | date
  | timestamp
  | json
  | listVarchar
  deriving DecidableEq

def ColumnType.ducklakeType : ColumnType → String
  | .varchar => "VARCHAR"
  | .bigint => "BIGINT"
  | .double => "DOUBLE"
  | .boolean => "BOOLEAN"
  | .date => "DATE"
  | .timestamp => "TIMESTAMP"
  | .json => "JSON"
  | .listVarchar => "LIST(VARCHAR)"

def ColumnType.postgresType : ColumnType → String
  | .varchar => "text"
  | .bigint => "bigint"
  | .double => "double precision"
  | .boolean => "boolean"
  | .date => "date"
  | .timestamp => "timestamptz"
  | .json => "jsonb"
  | .listVarchar => "text[]"

/-- The type a column of the given declared type has in a store. -/
def Store.typeName (store : Store) (colType : ColumnType) : String :=
  match store with
  | .postgres => colType.postgresType
  | .duckdb => colType.ducklakeType

/-- A foreign key: the relation and the column it points at. -/
structure Reference where
  relation : String
  column : String
  deriving DecidableEq

/-- One column of an entity. -/
structure Column where
  name : String
  colType : ColumnType
  nullable : Bool := true
  references : Option Reference := none
  deriving DecidableEq

/-- The part of the `generate` block that the stores read. -/
structure GenerateBlock where
  stores : List Store
  history : Bool := false
  deriving DecidableEq

/-- One entity: a table and everything generated from it. -/
structure Entity where
  name : String
  relation : String
  key : List String
  naturalKey : List String := []
  generate : GenerateBlock
  columns : List Column
  deriving DecidableEq

namespace Entity

/-- The declaration-ordered column names. -/
def columnNames (entity : Entity) : List String := entity.columns.map (·.name)

/-- Is the entity generated for the store? -/
def hasStore (entity : Entity) (store : Store) : Bool := decide (store ∈ entity.generate.stores)

/-- The store-qualified name of the entity's relation. -/
def qualifiedName (entity : Entity) (store : Store) : String :=
  store.qualifier ++ "." ++ entity.relation

/-- The relation of the history companion. -/
def companion (entity : Entity) : String := entity.relation ++ "_history"

/-- Does the entity have a history companion in the store? -/
def keepsHistory (entity : Entity) (store : Store) : Bool :=
  decide (store = .postgres) && entity.generate.history

end Entity

/-- A validated set of entities. The fields are what `Catalog::from_entities` refuses: a repeated
column, a key column that is not a column, and two owners of one store's relation. -/
structure Catalog where
  entities : List Entity
  columns_nodup : ∀ entity ∈ entities, entity.columnNames.Nodup
  key_subset : ∀ entity ∈ entities, entity.key ⊆ entity.columnNames
  relations_nodup : (entities.flatMap fun entity =>
    entity.generate.stores.map entity.qualifiedName).Nodup

/-- Every entity generated for the store, in load order. -/
def Catalog.forStore (catalog : Catalog) (store : Store) : List Entity :=
  catalog.entities.filter (·.hasStore store)

/-- `catalog_without`: the catalog of one store, minus the relations in `skip`. -/
def Catalog.without (catalog : Catalog) (store : Store) (skip : List String) : Catalog where
  entities := (catalog.forStore store).filter fun entity => !skip.contains entity.relation
  columns_nodup entity hentity :=
    catalog.columns_nodup entity (List.mem_of_mem_filter (List.mem_of_mem_filter hentity))
  key_subset entity hentity :=
    catalog.key_subset entity (List.mem_of_mem_filter (List.mem_of_mem_filter hentity))
  relations_nodup :=
    List.Nodup.sublist ((List.filter_sublist.trans List.filter_sublist).flatMap _)
      catalog.relations_nodup

theorem Catalog.mem_forStore {catalog : Catalog} {store : Store} {entity : Entity} :
    entity ∈ catalog.forStore store ↔ entity ∈ catalog.entities ∧ entity.hasStore store = true :=
  List.mem_filter

theorem Catalog.relations_forStore_nodup (catalog : Catalog) (store : Store) :
    ((catalog.forStore store).map (·.relation)).Nodup := by
  have hlisted : ∀ entity ∈ catalog.forStore store,
      List.Sublist [entity.qualifiedName store]
        (entity.generate.stores.map entity.qualifiedName) := by
    intro entity hentity
    rw [List.singleton_sublist]
    apply List.mem_map_of_mem
    exact of_decide_eq_true (Catalog.mem_forStore.mp hentity).2
  have hqualified : ((catalog.forStore store).map (·.qualifiedName store)).Nodup := by
    rw [List.map_eq_flatMap]
    have hsublist := (List.Sublist.flatMap_right _ hlisted).trans
      ((List.filter_sublist (l := catalog.entities)).flatMap _)
    exact List.Nodup.sublist hsublist catalog.relations_nodup
  have hnames : (catalog.forStore store).map (·.qualifiedName store) =
      ((catalog.forStore store).map (·.relation)).map (store.qualifier ++ "." ++ ·) := by
    rw [List.map_map]
    rfl
  rw [hnames] at hqualified
  exact hqualified.of_map

theorem Catalog.columns_forStore_nodup {catalog : Catalog} {store : Store} {entity : Entity}
    (hentity : entity ∈ catalog.forStore store) : entity.columnNames.Nodup :=
  catalog.columns_nodup entity (Catalog.mem_forStore.mp hentity).1

/-- One column as the live store reports it. -/
structure LiveColumn where
  name : String
  typeName : String
  nullable : Bool
  deriving DecidableEq

/-- The columns of every relation of a live store, in ordinal order. -/
abbrev LiveStore := BTreeMap String (List LiveColumn)

/-- How severe a difference is. -/
inductive Severity
  | safe
  | breaking
  | ahead
  deriving DecidableEq

/-- One catalog-vs-live difference for a relation. -/
structure DiffItem where
  relation : String
  severity : Severity
  message : String
  deriving DecidableEq

/-- The live column of a name. Collecting into a map, the last column of a name wins. -/
def liveByName (live : List LiveColumn) (name : String) : Option LiveColumn :=
  (live.filter (·.name == name)).getLast?

/-- The differences of one declared column. -/
def diffColumn (store : Store) (relation : String) (live : List LiveColumn) (column : Column) :
    List DiffItem :=
  match liveByName live column.name with
  | none =>
      -- adding a nullable column is safe; a NOT NULL add needs a default
      [⟨relation, if column.nullable then .safe else .breaking,
        s!"column {column.name} is absent; add column"⟩]
  | some found =>
      (if found.typeName ≠ store.typeName column.colType then
        [⟨relation, .breaking,
          s!"column {column.name}: type {found.typeName} -> {store.typeName column.colType}"⟩]
      else []) ++
      (if found.nullable && !column.nullable then
        [⟨relation, .breaking, s!"column {column.name}: nullable -> NOT NULL"⟩]
      else [])

/-- The live columns that the entity does not declare. -/
def diffUndeclared (entity : Entity) (relation : String) (live : List LiveColumn) :
    List DiffItem :=
  (live.filter fun column => !entity.columnNames.contains column.name).map fun column =>
    ⟨relation, .ahead, s!"column {column.name} is in the live store but not declared"⟩

def diffEntity (store : Store) (entity : Entity) (live : List LiveColumn) : List DiffItem :=
  entity.columns.flatMap (diffColumn store (entity.qualifiedName store) live) ++
    diffUndeclared entity (entity.qualifiedName store) live

/-- The differences of one entity's relation. -/
def diffRelation (store : Store) (live : LiveStore) (entity : Entity) : List DiffItem :=
  match live[entity.relation]? with
  | none =>
      [⟨entity.qualifiedName store, .safe,
        s!"relation {entity.relation} is absent; create table"⟩]
  | some columns => diffEntity store entity columns

/-- The difference of one entity's history companion, which is checked for existence only. -/
def diffCompanion (store : Store) (live : LiveStore) (entity : Entity) : List DiffItem :=
  if entity.keepsHistory store && !live.contains entity.companion then
    [⟨store.qualifier ++ "." ++ entity.companion, .safe,
      s!"history companion {entity.companion} is absent; create companion + trigger"⟩]
  else []

/-- Compare one store's entities to its live columns. -/
def diffStore (catalog : Catalog) (store : Store) (live : LiveStore) : List DiffItem :=
  (catalog.forStore store).flatMap (diffRelation store live) ++
    (catalog.forStore store).flatMap (diffCompanion store live)

end EntityResolution.Schema
