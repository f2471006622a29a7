/-
# The migration plan

A plan creates each absent relation and adds each absent nullable column; everything else the
differ finds is refused or only reported. The statements are derived a second time from the
catalog, in an order in which a relation comes after the relations it references, and they are
applied to the store one after the other.

A plan converges when it applies, leaves no safe difference and nothing to plan again, and changes
nothing that was there. It does exactly when every absent lake entity can be rendered: an entity
whose natural key names no column renders to an empty statement, which creates nothing.
-/

import EntityResolution.Foundations.DepthFirst
import EntityResolution.Schema.Catalog

namespace EntityResolution.Schema

open EntityResolution.Collections EntityResolution.DepthFirst

/-- Why an entity has no lake DDL. -/
inductive ConvertError
  | wrongStore (entity : String) (store : Store)
  | duplicateColumn (relation : String)
  | keyColumnMissing (relation column : String)
  deriving DecidableEq

/-- A declared column as the store reports it. -/
def Column.declared (store : Store) (column : Column) : LiveColumn :=
  ⟨column.name, store.typeName column.colType, column.nullable⟩

/-- The column that an `ADD COLUMN` adds. -/
def Column.added (store : Store) (column : Column) : LiveColumn :=
  ⟨column.name, store.typeName column.colType, true⟩

@[simp] theorem Column.declared_name (store : Store) (column : Column) :
    (column.declared store).name = column.name :=
  rfl

@[simp] theorem Column.added_name (store : Store) (column : Column) :
    (column.added store).name = column.name :=
  rfl

/-- The columns an entity declares, as the store reports them. -/
def Entity.declared (entity : Entity) (store : Store) : List LiveColumn :=
  entity.columns.map (Column.declared store)

/-- `to_lake_table_spec`: the columns of the entity's lake relation. -/
def toLakeTableSpec (entity : Entity) : Except ConvertError (List LiveColumn) :=
  if !entity.hasStore .duckdb then .error (.wrongStore entity.name .duckdb)
  else if ¬ entity.columnNames.Nodup then .error (.duplicateColumn entity.relation)
  else
    match (entity.key ++ entity.naturalKey).find? (fun column =>
        !entity.columnNames.contains column) with
    | some column => .error (.keyColumnMissing entity.relation column)
    | none => .ok (entity.declared .duckdb)

/-- `emit_postgres_ddl`: the columns of the entity's table. -/
def emitPostgresDdl (entity : Entity) : Except ConvertError (List LiveColumn) :=
  if !entity.hasStore .postgres then .error (.wrongStore entity.name .postgres)
  else .ok (entity.declared .postgres)

/-- A DDL statement of a plan. -/
inductive Ddl
  | createTable (relation : String) (columns : List LiveColumn) (companion : Option String)
  | addColumn (relation : String) (column : LiveColumn)
  | createCompanion (relation : String)
  | historyPrelude
  | empty
  deriving DecidableEq

/-- One statement a plan applies, with the relation it touches. -/
structure Planned where
  relation : String
  sql : Ddl
  deriving DecidableEq

/-- The history companion of an entity in a store. -/
def Entity.companion? (entity : Entity) (store : Store) : Option String :=
  if entity.keepsHistory store then some entity.companion else none

/-- The `CREATE TABLE` of an entity. An entity that does not render gives the empty text. -/
def createTableSql (store : Store) (entity : Entity) : Ddl :=
  match (match store with
    | .duckdb => toLakeTableSpec entity
    | .postgres => emitPostgresDdl entity) with
  | .ok columns => .createTable entity.relation columns (entity.companion? store)
  | .error _ => .empty

/-- The `ADD COLUMN` of a nullable column. -/
def addColumnSql (store : Store) (relation : String) (column : Column) : Ddl :=
  .addColumn relation (column.added store)

/-- The entities of the list that the columns of an entity reference. -/
def referenced (entities : List Entity) (entity : Entity) : List Entity :=
  entity.columns.filterMap fun column =>
    column.references.bind fun reference =>
      entities.find? (·.relation == reference.relation)

/-- Order entities so that a referenced relation precedes the one that references it. -/
def topoOrder (entities : List Entity) : List Entity :=
  completion Entity.relation (referenced entities) (entities.length + 1) entities

/-- The declared columns that a plan adds to a live relation. -/
def missingColumns (entity : Entity) (live : List LiveColumn) : List Column :=
  entity.columns.filter fun column =>
    !(live.map (·.name)).contains column.name && column.nullable

/-- Does the entity have a table but no companion yet? -/
def lacksCompanion (store : Store) (live : LiveStore) (entity : Entity) : Bool :=
  entity.keepsHistory store && !live.contains entity.companion

/-- The statements of one entity. -/
def entityStatements (store : Store) (live : LiveStore) (entity : Entity) : List Planned :=
  match live[entity.relation]? with
  | none => [⟨entity.qualifiedName store, createTableSql store entity⟩]
  | some columns =>
      (missingColumns entity columns).map (fun column =>
        ⟨entity.qualifiedName store, addColumnSql store entity.relation column⟩) ++
      (if lacksCompanion store live entity then
        [⟨store.qualifier ++ "." ++ entity.companion, .createCompanion entity.companion⟩]
      else [])

/-- Does a statement of the entity call `er_history()`? -/
def needsHistoryPrelude (store : Store) (live : LiveStore) (entity : Entity) : Bool :=
  match live[entity.relation]? with
  | none => entity.keepsHistory store
  | some _ => lacksCompanion store live entity

/-- A migration plan for one store. -/
structure MigrationPlan where
  statements : List Planned
  breaking : List DiffItem
  ahead : List DiffItem

/-- `plan_migration`. -/
def planMigration (catalog : Catalog) (store : Store) (live : LiveStore) : MigrationPlan where
  statements :=
    let order := topoOrder (catalog.forStore store)
    (if order.any (needsHistoryPrelude store live) then
      [⟨"public.er_history()", .historyPrelude⟩] else []) ++
    order.flatMap (entityStatements store live)
  breaking := (diffStore catalog store live).filter (·.severity == .breaking)
  ahead := (diffStore catalog store live).filter (·.severity == .ahead)

/-- The columns of a history companion. -/
def companionColumns : List LiveColumn :=
  [⟨"history_id", "bigint", false⟩, ⟨"row_id", "text", false⟩, ⟨"op", "text", false⟩,
    ⟨"changed_at", "timestamptz", false⟩, ⟨"actor", "text", false⟩, ⟨"old_row", "jsonb", true⟩,
    ⟨"new_row", "jsonb", true⟩]

/-- `CREATE TABLE IF NOT EXISTS`. -/
def createIfAbsent (live : LiveStore) (relation : String) (columns : List LiveColumn) :
    LiveStore :=
  if live.contains relation then live else live.insert relation columns

/-- What a statement makes of the store; adding a column fails where there is no relation, or
one that has a column of that name. -/
def Ddl.apply (live : LiveStore) : Ddl → Option LiveStore
  | .createTable relation columns companion =>
      let created := createIfAbsent live relation columns
      some (companion.elim created (createIfAbsent created · companionColumns))
  | .addColumn relation column =>
      live[relation]?.bind fun columns =>
        if (columns.map (·.name)).contains column.name then none
        else some (live.insert relation (columns ++ [column]))
  | .createCompanion relation => some (createIfAbsent live relation companionColumns)
  | .historyPrelude => some live
  | .empty => some live

/-- Apply the statements of a plan in order. -/
def applyAll (live : LiveStore) (statements : List Planned) : Option LiveStore :=
  statements.foldlM (fun live planned => planned.sql.apply live) live

theorem applyAll_cons (live : LiveStore) (planned : Planned) (rest : List Planned) :
    applyAll live (planned :: rest) =
      (planned.sql.apply live).bind fun next => applyAll next rest :=
  List.foldlM_cons

theorem applyAll_append (live : LiveStore) (first second : List Planned) :
    applyAll live (first ++ second) =
      (applyAll live first).bind fun next => applyAll next second :=
  List.foldlM_append

/-- A lake entity renders when its natural key names columns; a table always does. -/
def Renders (store : Store) (entity : Entity) : Prop :=
  store = .duckdb → entity.naturalKey ⊆ entity.columnNames

instance (store : Store) (entity : Entity) : Decidable (Renders store entity) :=
  inferInstanceAs (Decidable (_ → _))

/-- The columns that a relation has once an entity's statements are applied. -/
def settledColumns (store : Store) (entity : Entity) :
    Option (List LiveColumn) → Option (List LiveColumn)
  | none => if Renders store entity then some (entity.declared store) else none
  | some columns =>
      some (columns ++ (missingColumns entity columns).map (Column.added store))

/-- The relations that an entity's statements touch. -/
def touched (store : Store) (entity : Entity) : List String :=
  entity.relation :: (entity.companion? store).toList

/-- The store after an entity's statements, relation by relation. -/
structure Settled (store : Store) (entity : Entity) (live later : LiveStore) : Prop where
  relation : later[entity.relation]? = settledColumns store entity live[entity.relation]?
  companion : ∀ companion ∈ entity.companion? store,
    later[companion]? = some (live[companion]?.getD companionColumns)
  others : ∀ relation ∉ touched store entity, later[relation]? = live[relation]?

theorem getElem?_createIfAbsent (live : LiveStore) (relation : String)
    (columns : List LiveColumn) (other : String) :
    (createIfAbsent live relation columns)[other]? =
      if other = relation then some (live[relation]?.getD columns) else live[other]? := by
  rw [createIfAbsent]
  cases hfound : live[relation]? with
  | none =>
      have habsent : live.contains relation = false := by
        rw [BTreeMap.contains_eq_decide, decide_eq_false_iff_not,
          BTreeMap.mem_iff_exists_getElem?, hfound]
        simp
      rw [habsent, if_neg Bool.false_ne_true, BTreeMap.getElem?_insert_eq_ite, Option.getD_none]
      simp only [eq_comm]
  | some found =>
      have hpresent : live.contains relation = true := by
        rw [BTreeMap.contains_eq_decide, decide_eq_true_iff, BTreeMap.mem_iff_exists_getElem?]
        exact ⟨found, hfound⟩
      rw [if_pos hpresent]
      split
      · next hsame => rw [hsame, hfound, Option.getD_some]
      · rfl

theorem companion_ne_relation (entity : Entity) : entity.companion ≠ entity.relation := by
  intro hsame
  have hlength := congrArg String.length hsame
  rw [Entity.companion, String.length_append] at hlength
  have hsuffix : "_history".length = 8 := rfl
  omega

theorem eq_of_companion_eq {first second : Entity}
    (hsame : first.companion = second.companion) : first.relation = second.relation :=
  String.append_left_inj _ |>.mp hsame

theorem createTableSql_of_mem {catalog : Catalog} {store : Store} {entity : Entity}
    (hentity : entity ∈ catalog.forStore store) :
    createTableSql store entity =
      if Renders store entity then
        .createTable entity.relation (entity.declared store) (entity.companion? store)
      else .empty := by
  have hstore := (Catalog.mem_forStore.mp hentity).2
  have hcatalog := (Catalog.mem_forStore.mp hentity).1
  cases store with
  | postgres =>
      have hrenders : Renders .postgres entity := fun habsurd => nomatch habsurd
      rw [if_pos hrenders, createTableSql, emitPostgresDdl, hstore]
      rfl
  | duckdb =>
      have hcolumns := catalog.columns_nodup entity hcatalog
      rw [createTableSql, toLakeTableSpec, hstore, if_neg (by simp),
        if_neg (not_not_intro hcolumns)]
      cases hfind : (entity.key ++ entity.naturalKey).find?
          (fun column => !entity.columnNames.contains column) with
      | none =>
          have hrenders : Renders .duckdb entity := by
            intro _ column hcolumn
            have hall := List.find?_eq_none.mp hfind column (List.mem_append_right _ hcolumn)
            simpa using hall
          rw [if_pos hrenders]
      | some column =>
          have hmissing : ¬ Renders .duckdb entity := by
            intro hrenders
            have hcolumn := List.mem_of_find?_eq_some hfind
            have hunknown := List.find?_some hfind
            rw [Bool.not_eq_true', List.contains_eq_mem, decide_eq_false_iff_not] at hunknown
            rcases List.mem_append.mp hcolumn with hkey | hnatural
            · exact hunknown (catalog.key_subset entity hcatalog hkey)
            · exact hunknown (hrenders rfl hnatural)
          rw [if_neg hmissing]

/-- Adding absent columns one after the other appends them. -/
theorem applyAll_addColumns (store : Store) (qualified : String) {relation : String}
    {missing : List Column}
    {live : LiveStore} {columns : List LiveColumn} (hlive : live[relation]? = some columns)
    (hnodup : (missing.map (·.name)).Nodup)
    (habsent : ∀ column ∈ missing, column.name ∉ columns.map (·.name)) :
    ∃ later, applyAll live (missing.map fun column =>
        ⟨qualified, addColumnSql store relation column⟩) = some later ∧
      later[relation]? = some (columns ++ missing.map (Column.added store)) ∧
      ∀ other ≠ relation, later[other]? = live[other]? := by
  induction missing generalizing live columns with
  | nil =>
      refine ⟨live, rfl, ?_, fun _ _ => rfl⟩
      rw [List.map_nil, List.append_nil, hlive]
  | cons head missing ih =>
      rw [List.map_cons, List.nodup_cons] at hnodup
      have hhead : (addColumnSql store relation head).apply live =
          some (live.insert relation (columns ++ [head.added store])) := by
        have hnew : (columns.map (·.name)).contains head.name = false := by
          rw [List.contains_eq_mem, decide_eq_false_iff_not]
          exact habsent head List.mem_cons_self
        rw [addColumnSql, Ddl.apply, hlive, Option.bind_some, Column.added_name, hnew,
          if_neg Bool.false_ne_true]
      have hlater : (live.insert relation (columns ++ [head.added store]))[relation]? =
          some (columns ++ [head.added store]) := by
        rw [BTreeMap.getElem?_insert_eq_ite, if_pos rfl]
      have hrest : ∀ column ∈ missing,
          column.name ∉ (columns ++ [head.added store]).map (·.name) := by
        intro column hcolumn hmem
        rw [List.map_append, List.mem_append] at hmem
        rcases hmem with hold | hhead
        · exact habsent column (List.mem_cons_of_mem _ hcolumn) hold
        · have hname : column.name = head.name := List.mem_singleton.mp hhead
          rw [← hname] at hnodup
          exact hnodup.1 (List.mem_map_of_mem hcolumn)
      obtain ⟨later, happly, hcolumns, hothers⟩ := ih hlater hnodup.2 hrest
      refine ⟨later, ?_, ?_, ?_⟩
      · rw [List.map_cons, applyAll_cons, hhead, Option.bind_some]
        exact happly
      · rw [hcolumns, List.append_assoc]
        rfl
      · intro other hother
        rw [hothers other hother, BTreeMap.getElem?_insert_eq_ite, if_neg (Ne.symm hother)]

theorem companion?_eq_some_iff {store : Store} {entity : Entity} {companion : String} :
    entity.companion? store = some companion ↔
      entity.keepsHistory store = true ∧ companion = entity.companion := by
  rw [Entity.companion?]
  split
  · next hkeeps => simp [hkeeps, eq_comm]
  · next hkeeps => simp [hkeeps]

theorem mem_touched {store : Store} {entity : Entity} {relation : String} :
    relation ∈ touched store entity ↔
      relation = entity.relation ∨ entity.companion? store = some relation := by
  rw [touched, List.mem_cons, Option.mem_toList]

/-- Creating the companion, if there is one to create, settles the entity. -/
theorem settled_of_filled {store : Store} {entity : Entity} {live filled : LiveStore}
    (hrelation : filled[entity.relation]? = settledColumns store entity live[entity.relation]?)
    (hothers : ∀ other ≠ entity.relation, filled[other]? = live[other]?) :
    Settled store entity live
      ((entity.companion? store).elim filled (createIfAbsent filled · companionColumns)) := by
  cases hcompanion : entity.companion? store with
  | none =>
      refine ⟨hrelation, ?_, ?_⟩
      · intro companion hmem
        rw [hcompanion] at hmem
        cases hmem
      · intro other hother
        rw [mem_touched, not_or] at hother
        exact hothers other hother.1
  | some companion =>
      rw [Option.elim_some]
      have hne : companion ≠ entity.relation := by
        rw [(companion?_eq_some_iff.mp hcompanion).2]
        exact companion_ne_relation entity
      refine ⟨?_, ?_, ?_⟩
      · rw [getElem?_createIfAbsent, if_neg (Ne.symm hne), hrelation]
      · intro other hmem
        rw [hcompanion] at hmem
        cases hmem
        rw [getElem?_createIfAbsent, if_pos rfl, hothers companion hne]
      · intro other hother
        rw [mem_touched, not_or, hcompanion] at hother
        rw [getElem?_createIfAbsent, if_neg (fun hsame => hother.2 (congrArg some hsame.symm)),
          hothers other hother.1]

/-- The companion is created where the plan found none, and is there otherwise. -/
theorem applyAll_companion {store : Store} {entity : Entity} {live now filled : LiveStore}
    (hagree : ∀ relation ∈ touched store entity, now[relation]? = live[relation]?)
    (hothers : ∀ other ≠ entity.relation, filled[other]? = now[other]?) :
    applyAll filled (if lacksCompanion store live entity then
        [⟨store.qualifier ++ "." ++ entity.companion, .createCompanion entity.companion⟩]
      else []) =
      some ((entity.companion? store).elim filled (createIfAbsent filled · companionColumns)) := by
  rw [Entity.companion?, lacksCompanion]
  by_cases hkeeps : entity.keepsHistory store = true
  · have hcompanion : filled[entity.companion]? = live[entity.companion]? := by
      rw [hothers _ (companion_ne_relation entity)]
      apply hagree
      rw [mem_touched]
      exact Or.inr (companion?_eq_some_iff.mpr ⟨hkeeps, rfl⟩)
    rw [hkeeps, if_pos rfl, Bool.true_and, Option.elim_some]
    by_cases hpresent : live.contains entity.companion = true
    · have hfilled : filled.contains entity.companion = true := by
        rw [BTreeMap.contains_eq_decide, decide_eq_true_iff, BTreeMap.mem_iff_exists_getElem?]
          at hpresent ⊢
        rw [hcompanion]
        exact hpresent
      rw [hpresent, createIfAbsent, if_pos hfilled]
      rfl
    · rw [Bool.not_eq_true] at hpresent
      rw [hpresent]
      rfl
  · rw [Bool.not_eq_true] at hkeeps
    rw [hkeeps]
    rfl

/-- The statements of an entity, planned against a store that agrees on the relations they touch,
apply and settle the entity. -/
theorem exists_settled {catalog : Catalog} {store : Store} {entity : Entity}
    (hentity : entity ∈ catalog.forStore store) {live now : LiveStore}
    (hagree : ∀ relation ∈ touched store entity, now[relation]? = live[relation]?) :
    ∃ later, applyAll now (entityStatements store live entity) = some later ∧
      Settled store entity now later := by
  have hrelation : now[entity.relation]? = live[entity.relation]? :=
    hagree entity.relation List.mem_cons_self
  rw [entityStatements]
  cases hlive : live[entity.relation]? with
  | none =>
      rw [hlive] at hrelation
      dsimp only
      rw [applyAll_cons, createTableSql_of_mem hentity]
      by_cases hrenders : Renders store entity
      · rw [if_pos hrenders]
        refine ⟨_, rfl, settled_of_filled ?_ ?_⟩
        · rw [getElem?_createIfAbsent, if_pos rfl, hrelation, Option.getD_none, settledColumns,
            if_pos hrenders]
        · intro other hother
          rw [getElem?_createIfAbsent, if_neg hother]
      · rw [if_neg hrenders]
        refine ⟨now, rfl, ?_⟩
        have hcompanion : entity.companion? store = none := by
          have hstore : store = .duckdb := by
            by_contra hne
            exact hrenders fun habsurd => absurd habsurd hne
          rw [hstore]
          rfl
        have hsettled : Settled store entity now
            ((entity.companion? store).elim now (createIfAbsent now · companionColumns)) := by
          apply settled_of_filled
          · rw [hrelation, settledColumns, if_neg hrenders]
          · intro other _
            rfl
        rw [hcompanion] at hsettled
        exact hsettled
  | some columns =>
      rw [hlive] at hrelation
      dsimp only
      have hnodup : ((missingColumns entity columns).map (·.name)).Nodup :=
        List.Nodup.sublist (List.filter_sublist.map _) (Catalog.columns_forStore_nodup hentity)
      have habsent : ∀ column ∈ missingColumns entity columns,
          column.name ∉ columns.map (·.name) := by
        intro column hcolumn
        have hkept := List.of_mem_filter hcolumn
        rw [Bool.and_eq_true, Bool.not_eq_true', List.contains_eq_mem,
          decide_eq_false_iff_not] at hkept
        exact hkept.1
      obtain ⟨filled, hfilled, hcolumns, hothers⟩ :=
        applyAll_addColumns store (entity.qualifiedName store) hrelation
          hnodup habsent
      refine ⟨_, ?_, settled_of_filled ?_ hothers⟩
      · rw [applyAll_append, hfilled, Option.bind_some]
        exact applyAll_companion hagree hothers
      · rw [hcolumns, hrelation, settledColumns]

/-- No relation of the store's catalog is the history companion of an entity. -/
def Catalog.CompanionsApart (catalog : Catalog) (store : Store) : Prop :=
  ∀ first ∈ catalog.forStore store, ∀ second ∈ catalog.forStore store,
    first.keepsHistory store = true → second.relation ≠ first.companion

/-- The store after the statements of several entities. -/
structure SettledAll (store : Store) (entities : List Entity) (live later : LiveStore) : Prop where
  relation : ∀ entity ∈ entities,
    later[entity.relation]? = settledColumns store entity live[entity.relation]?
  companion : ∀ entity ∈ entities, ∀ companion ∈ entity.companion? store,
    later[companion]? = some (live[companion]?.getD companionColumns)
  others : ∀ relation, (∀ entity ∈ entities, relation ∉ touched store entity) →
    later[relation]? = live[relation]?

theorem exists_settledAll {catalog : Catalog} {store : Store} {order : List Entity}
    (hmem : ∀ entity ∈ order, entity ∈ catalog.forStore store)
    (hapart : order.Pairwise fun first second =>
      ∀ relation ∈ touched store second, relation ∉ touched store first)
    {live now : LiveStore} (hagree : ∀ entity ∈ order, ∀ relation ∈ touched store entity,
      now[relation]? = live[relation]?) :
    ∃ later, applyAll now (order.flatMap (entityStatements store live)) = some later ∧
      SettledAll store order now later := by
  induction order generalizing now with
  | nil =>
      refine ⟨now, rfl, ?_, ?_, fun _ _ => rfl⟩
      · intro entity hentity
        cases hentity
      · intro entity hentity
        cases hentity
  | cons head order ih =>
      rw [List.pairwise_cons] at hapart
      rcases exists_settled (hmem head List.mem_cons_self) (hagree head List.mem_cons_self) with
        ⟨mid, hmid, hsettled⟩
      have hframe : ∀ entity ∈ order, ∀ relation ∈ touched store entity,
          mid[relation]? = now[relation]? := fun entity hentity relation hrelation =>
        hsettled.others relation (hapart.1 entity hentity relation hrelation)
      have hrest : ∀ entity ∈ order, ∀ relation ∈ touched store entity,
          mid[relation]? = live[relation]? := by
        intro entity hentity relation hrelation
        rw [hframe entity hentity relation hrelation]
        exact hagree entity (List.mem_cons_of_mem _ hentity) relation hrelation
      obtain ⟨later, hlater, hall⟩ :=
        ih (fun entity hentity => hmem entity (List.mem_cons_of_mem _ hentity)) hapart.2
          hrest
      -- what the head touched is left alone by the rest
      have hhead : ∀ relation ∈ touched store head, later[relation]? = mid[relation]? := by
        intro relation hrelation
        apply hall.others relation
        intro entity hentity hboth
        exact hapart.1 entity hentity relation hboth hrelation
      refine ⟨later, ?_, ?_, ?_, ?_⟩
      · rw [List.flatMap_cons, applyAll_append, hmid, Option.bind_some, hlater]
      · intro entity hentity
        rcases List.mem_cons.mp hentity with rfl | htail
        · rw [hhead _ (mem_touched.mpr (Or.inl rfl)), hsettled.relation]
        · rw [hall.relation entity htail,
            hframe entity htail _ (mem_touched.mpr (Or.inl rfl))]
      · intro entity hentity companion hcompanion
        rcases List.mem_cons.mp hentity with rfl | htail
        · rw [hhead _ (mem_touched.mpr (Or.inr hcompanion)),
            hsettled.companion companion hcompanion]
        · rw [hall.companion entity htail companion hcompanion,
            hframe entity htail _ (mem_touched.mpr (Or.inr hcompanion))]
      · intro relation houtside
        rw [hall.others relation fun entity hentity =>
            houtside entity (List.mem_cons_of_mem _ hentity),
          hsettled.others relation (houtside head List.mem_cons_self)]

/-- The statements of two entities of a catalog touch no relation in common. -/
theorem touched_apart {catalog : Catalog} {store : Store}
    (hcompanions : catalog.CompanionsApart store) {first second : Entity}
    (hfirst : first ∈ catalog.forStore store) (hsecond : second ∈ catalog.forStore store)
    (hne : first.relation ≠ second.relation) :
    ∀ relation ∈ touched store second, relation ∉ touched store first := by
  intro relation hrelation hboth
  rw [mem_touched, companion?_eq_some_iff] at hrelation hboth
  rcases hrelation with hsame | ⟨hkeeps, hsame⟩ <;> rcases hboth with hother | ⟨hkept, hother⟩
  · exact hne (hother.symm.trans hsame)
  · exact hcompanions first hfirst second hsecond hkept (hsame.symm.trans hother)
  · exact hcompanions second hsecond first hfirst hkeeps (hother.symm.trans hsame)
  · exact hne (eq_of_companion_eq (hother.symm.trans hsame))

theorem referenced_subset {entities : List Entity} {entity : Entity} :
    ∀ other ∈ referenced entities entity, other ∈ entities := by
  intro other hother
  rw [referenced, List.mem_filterMap] at hother
  obtain ⟨column, _, hfound⟩ := hother
  obtain ⟨reference, _, hfind⟩ := Option.bind_eq_some_iff.mp hfound
  exact List.mem_of_find?_eq_some hfind

theorem topoOrder_perm (catalog : Catalog) (store : Store) :
    (topoOrder (catalog.forStore store)).Perm (catalog.forStore store) :=
  completion_perm (catalog.relations_forStore_nodup store)
    (fun _ _ other hother => referenced_subset other hother) (Nat.succ_pos _)

/-- A plan applies to every store that agrees on what its statements touch, and settles every
entity of the catalog there. -/
theorem exists_applied {catalog : Catalog} {store : Store}
    (hcompanions : catalog.CompanionsApart store) {live now : LiveStore}
    (hagree : ∀ entity ∈ catalog.forStore store, ∀ relation ∈ touched store entity,
      now[relation]? = live[relation]?) :
    ∃ later, applyAll now (planMigration catalog store live).statements = some later ∧
      SettledAll store (catalog.forStore store) now later := by
  have hperm := topoOrder_perm catalog store
  have hmem : ∀ entity ∈ topoOrder (catalog.forStore store), entity ∈ catalog.forStore store :=
    fun entity hentity => hperm.mem_iff.mp hentity
  have hapart : (topoOrder (catalog.forStore store)).Pairwise fun first second =>
      ∀ relation ∈ touched store second, relation ∉ touched store first := by
    have hnodup : ((topoOrder (catalog.forStore store)).map (·.relation)).Nodup :=
      (hperm.map _).nodup_iff.mpr (catalog.relations_forStore_nodup store)
    rw [List.nodup_iff_pairwise_ne, List.pairwise_map] at hnodup
    exact hnodup.imp_of_mem fun hfirst hsecond hne =>
      touched_apart hcompanions (hmem _ hfirst) (hmem _ hsecond) hne
  obtain ⟨later, hlater, hall⟩ :=
    exists_settledAll hmem hapart fun entity hentity => hagree entity (hmem entity hentity)
  refine ⟨later, ?_, ?_, ?_, ?_⟩
  · rw [planMigration, applyAll_append]
    split
    · rw [applyAll_cons, Ddl.apply, Option.bind_some]
      exact hlater
    · exact hlater
  · exact fun entity hentity => hall.relation entity (hperm.mem_iff.mpr hentity)
  · exact fun entity hentity => hall.companion entity (hperm.mem_iff.mpr hentity)
  · exact fun relation houtside => hall.others relation fun entity hentity =>
      houtside entity (hmem entity hentity)

/-- Settled entities keep every column that was there. -/
theorem SettledAll.keeps {store : Store} {entities : List Entity} {live later : LiveStore}
    (hsettled : SettledAll store entities live later) {relation : String}
    {columns : List LiveColumn} (hlive : live[relation]? = some columns) :
    ∃ added, later[relation]? = some (columns ++ added) := by
  by_cases htouched : ∃ entity ∈ entities, relation ∈ touched store entity
  · obtain ⟨entity, hentity, hrelation⟩ := htouched
    rcases mem_touched.mp hrelation with rfl | hcompanion
    · rw [hsettled.relation entity hentity, hlive]
      exact ⟨_, rfl⟩
    · refine ⟨[], ?_⟩
      rw [hsettled.companion entity hentity relation hcompanion, hlive, Option.getD_some,
        List.append_nil]
  · refine ⟨[], ?_⟩
    rw [hsettled.others relation fun entity hentity hboth => htouched ⟨entity, hentity, hboth⟩,
      hlive, List.append_nil]

/-! ## The differences that remain -/

theorem liveByName_eq_none_iff {live : List LiveColumn} {name : String} :
    liveByName live name = none ↔ name ∉ live.map (·.name) := by
  rw [liveByName, List.getLast?_eq_none_iff, List.filter_eq_nil_iff]
  simp [List.mem_map]

theorem liveByName_append (live added : List LiveColumn) (name : String) :
    liveByName (live ++ added) name = (liveByName added name).or (liveByName live name) := by
  rw [liveByName, List.filter_append, List.getLast?_append]
  rfl

/-- Columns taken over from declared columns are found under their names. -/
theorem liveByName_map {columns : List Column} (report : Column → LiveColumn)
    (hreport : ∀ column, (report column).name = column.name)
    (hnodup : (columns.map (·.name)).Nodup) {column : Column} (hcolumn : column ∈ columns) :
    liveByName (columns.map report) column.name = some (report column) := by
  have honly : columns.filter (fun other => other.name == column.name) = [column] :=
    filter_key_eq_singleton hnodup hcolumn
  rw [liveByName, List.filter_map]
  have hsame : (fun live : LiveColumn => live.name == column.name) ∘ report =
      fun other => other.name == column.name := by
    funext other
    rw [Function.comp_apply, hreport]
  rw [hsame, honly]
  rfl

/-- Is the difference one that a plan does not apply? -/
def DiffItem.kept (item : DiffItem) : Bool := item.severity != .safe

/-- A column that was found, or that may not be added, differs as before. A column that was added
does not differ. -/
theorem diffColumn_settled {store : Store} {entity : Entity} {relation : String}
    (hnodup : entity.columnNames.Nodup) (live : List LiveColumn) {column : Column}
    (hcolumn : column ∈ entity.columns) :
    diffColumn store relation
      (live ++ (missingColumns entity live).map (Column.added store)) column =
      (diffColumn store relation live column).filter DiffItem.kept := by
  have hmissing : ((missingColumns entity live).map (·.name)).Nodup :=
    List.Nodup.sublist (List.filter_sublist.map _) hnodup
  cases hfound : liveByName live column.name with
  | some found =>
      have hlater : liveByName (live ++ (missingColumns entity live).map (Column.added store))
          column.name = some found := by
        have hadded : liveByName ((missingColumns entity live).map (Column.added store))
            column.name = none := by
          rw [liveByName_eq_none_iff, List.map_map]
          intro hmem
          obtain ⟨other, hother, hname⟩ := List.mem_map.mp hmem
          have hkept := List.of_mem_filter hother
          rw [Bool.and_eq_true, Bool.not_eq_true', List.contains_eq_mem,
            decide_eq_false_iff_not, ← liveByName_eq_none_iff] at hkept
          rw [← hname, Function.comp_apply, Column.added_name, hkept.1] at hfound
          cases hfound
        rw [liveByName_append, hadded, Option.none_or, hfound]
      have hall : (diffColumn store relation live column).filter DiffItem.kept =
          diffColumn store relation live column := by
        rw [List.filter_eq_self]
        intro item hitem
        rw [diffColumn, hfound] at hitem
        dsimp only at hitem
        rcases List.mem_append.mp hitem with htype | hnull
        · split at htype
          · rw [List.mem_singleton.mp htype]
            rfl
          · cases htype
        · split at hnull
          · rw [List.mem_singleton.mp hnull]
            rfl
          · cases hnull
      rw [hall, diffColumn, diffColumn, hlater, hfound]
  | none =>
      have hnew := liveByName_eq_none_iff.mp hfound
      by_cases hnullable : column.nullable = true
      · have hmem : column ∈ missingColumns entity live := by
          rw [missingColumns, List.mem_filter, Bool.and_eq_true, Bool.not_eq_true',
            List.contains_eq_mem, decide_eq_false_iff_not]
          exact ⟨hcolumn, hnew, hnullable⟩
        have hlater := liveByName_map (Column.added store) (fun _ => rfl) hmissing hmem
        rw [diffColumn, liveByName_append, hlater, Option.some_or, diffColumn, hfound]
        dsimp only [Column.added]
        rw [if_neg (not_not_intro rfl), hnullable]
        rfl
      · rw [Bool.not_eq_true] at hnullable
        have hlater : liveByName ((missingColumns entity live).map (Column.added store))
            column.name = none := by
          rw [liveByName_eq_none_iff, List.map_map]
          intro hmem
          obtain ⟨other, hother, hname⟩ := List.mem_map.mp hmem
          have hsame : other = column :=
            List.inj_on_of_nodup_map hnodup (List.mem_of_mem_filter hother) hcolumn hname
          have hkept := List.of_mem_filter hother
          rw [hsame, hnullable, Bool.and_false] at hkept
          cases hkept
        rw [diffColumn, liveByName_append, hlater, hfound, diffColumn, hfound, hnullable]
        rfl

theorem diffUndeclared_settled {store : Store} {entity : Entity} {relation : String}
    (live : List LiveColumn) :
    diffUndeclared entity relation (live ++ (missingColumns entity live).map (Column.added store)) =
      (diffUndeclared entity relation live).filter DiffItem.kept := by
  have hadded : ((missingColumns entity live).map (Column.added store)).filter
        (fun column => !entity.columnNames.contains column.name) = [] := by
    rw [List.filter_eq_nil_iff]
    intro added hadded
    obtain ⟨column, hcolumn, rfl⟩ := List.mem_map.mp hadded
    have hdeclared : column.name ∈ entity.columnNames :=
      List.mem_map_of_mem (List.mem_of_mem_filter hcolumn)
    simpa using hdeclared
  have hall : (diffUndeclared entity relation live).filter DiffItem.kept =
      diffUndeclared entity relation live := by
    rw [List.filter_eq_self]
    intro item hitem
    obtain ⟨column, _, rfl⟩ := List.mem_map.mp hitem
    rfl
  rw [hall, diffUndeclared, List.filter_append, hadded, List.append_nil, diffUndeclared]

/-- A relation as declared does not differ. -/
theorem diffEntity_declared {store : Store} {entity : Entity}
    (hnodup : entity.columnNames.Nodup) :
    diffEntity store entity (entity.declared store) = [] := by
  rw [diffEntity, List.append_eq_nil_iff, List.flatMap_eq_nil_iff]
  apply And.intro
  · intro column hcolumn
    have hfound := liveByName_map (Column.declared store) (fun _ => rfl) hnodup hcolumn
    rw [diffColumn, Entity.declared, hfound]
    dsimp only [Column.declared]
    rw [if_neg (not_not_intro rfl), Bool.and_not_self]
    rfl
  · rw [diffUndeclared, List.map_eq_nil_iff, List.filter_eq_nil_iff]
    intro live hlive
    obtain ⟨column, hcolumn, rfl⟩ := List.mem_map.mp hlive
    have hdeclared : column.name ∈ entity.columnNames := List.mem_map_of_mem hcolumn
    simpa using hdeclared

/-- What remains of the differences once every entity of the store is settled, all of them
rendering. -/
theorem diffStore_settled {catalog : Catalog} {store : Store} {live later : LiveStore}
    (hrenders : ∀ entity ∈ catalog.forStore store, live[entity.relation]? = none →
      Renders store entity)
    (hsettled : SettledAll store (catalog.forStore store) live later) :
    diffStore catalog store later = (diffStore catalog store live).filter DiffItem.kept := by
  have hrelations : ∀ entity ∈ catalog.forStore store,
      diffRelation store later entity =
        (diffRelation store live entity).filter DiffItem.kept := by
    intro entity hentity
    have hnodup := Catalog.columns_forStore_nodup hentity
    rw [diffRelation, hsettled.relation entity hentity, diffRelation]
    cases hlive : live[entity.relation]? with
    | none =>
        rw [settledColumns, if_pos (hrenders entity hentity hlive)]
        exact diffEntity_declared hnodup
    | some columns =>
        rw [settledColumns]
        dsimp only
        rw [diffEntity, diffUndeclared_settled, diffEntity, List.filter_append,
          List.filter_flatMap]
        congr 1
        exact List.flatMap_congr fun column hcolumn => diffColumn_settled hnodup columns hcolumn
  have hcompanions : ∀ entity ∈ catalog.forStore store,
      diffCompanion store later entity =
        (diffCompanion store live entity).filter DiffItem.kept := by
    intro entity hentity
    have hsafe : (diffCompanion store live entity).filter DiffItem.kept = [] := by
      rw [diffCompanion]
      split
      · rfl
      · rfl
    rw [hsafe, diffCompanion, if_neg]
    rw [Bool.and_eq_true, Bool.not_eq_true', not_and, Bool.not_eq_false]
    intro hkeeps
    rw [BTreeMap.contains_eq_decide, decide_eq_true_iff, BTreeMap.mem_iff_exists_getElem?]
    exact ⟨_, hsettled.companion entity hentity entity.companion
      (companion?_eq_some_iff.mpr ⟨hkeeps, rfl⟩)⟩
  rw [diffStore, diffStore, List.filter_append, List.filter_flatMap, List.filter_flatMap]
  rw [List.flatMap_congr hrelations, List.flatMap_congr hcompanions]

/-- The relation whose table a statement creates. -/
def Ddl.creates : Ddl → Option String
  | .createTable relation _ _ => some relation
  | _ => none

/-- What a converged plan leaves behind. -/
structure Converged (catalog : Catalog) (store : Store) (live later : LiveStore) : Prop where
  no_safe : ∀ item ∈ diffStore catalog store later, item.severity ≠ .safe
  breaking : (diffStore catalog store later).filter (·.severity == .breaking) =
    (diffStore catalog store live).filter (·.severity == .breaking)
  ahead : (diffStore catalog store later).filter (·.severity == .ahead) =
    (diffStore catalog store live).filter (·.severity == .ahead)
  kept : ∀ (relation : String) columns, live[relation]? = some columns →
    ∃ added, later[relation]? = some (columns ++ added)
  nothing_left : (planMigration catalog store later).statements = []

/-- Every `CREATE TABLE` comes after those of the relations it references, if the references are
acyclic. -/
def CreatesInOrder (catalog : Catalog) (store : Store) (statements : List Planned) : Prop :=
  Acyclic (referenced (catalog.forStore store)) →
    ∀ before planned after, statements = before ++ planned :: after →
      ∀ entity ∈ catalog.forStore store, planned.sql.creates = some entity.relation →
        ∀ column ∈ entity.columns, ∀ reference ∈ column.references,
          ∀ other ∈ statements, other.sql.creates = some reference.relation → other ∈ before

/-- The plan applies, converges and is ordered. -/
def Converges (catalog : Catalog) (store : Store) (live : LiveStore) : Prop :=
  (∃ later, applyAll live (planMigration catalog store live).statements = some later ∧
    Converged catalog store live later) ∧
  CreatesInOrder catalog store (planMigration catalog store live).statements

/-- The columns of a settled relation leave nothing to add. -/
theorem missingColumns_settled {store : Store} {entity : Entity}
    {before : Option (List LiveColumn)} {columns : List LiveColumn}
    (hsettled : settledColumns store entity before = some columns) :
    missingColumns entity columns = [] := by
  rw [missingColumns, List.filter_eq_nil_iff]
  intro column hcolumn hkept
  rw [Bool.and_eq_true, Bool.not_eq_true', List.contains_eq_mem, decide_eq_false_iff_not]
    at hkept
  apply hkept.1
  cases before with
  | none =>
      rw [settledColumns] at hsettled
      split at hsettled
      · cases hsettled
        rw [Entity.declared, List.map_map]
        exact List.mem_map_of_mem hcolumn
      · cases hsettled
  | some old =>
      cases hsettled
      rw [List.map_append, List.mem_append]
      by_cases hold : column.name ∈ old.map (·.name)
      · exact Or.inl hold
      · apply Or.inr
        rw [List.map_map]
        have hmissing : column ∈ missingColumns entity old := by
          rw [missingColumns, List.mem_filter, Bool.and_eq_true, Bool.not_eq_true',
            List.contains_eq_mem, decide_eq_false_iff_not]
          exact ⟨hcolumn, hold, hkept.2⟩
        exact List.mem_map_of_mem hmissing

theorem Converged.of_settled {catalog : Catalog} {store : Store} {live later : LiveStore}
    (hrenders : ∀ entity ∈ catalog.forStore store, live[entity.relation]? = none →
      Renders store entity)
    (hsettled : SettledAll store (catalog.forStore store) live later) :
    Converged catalog store live later := by
  have hdiff := diffStore_settled hrenders hsettled
  have hpresent : ∀ entity ∈ catalog.forStore store, ∃ columns,
      later[entity.relation]? = some columns ∧ missingColumns entity columns = [] := by
    intro entity hentity
    have hrelation := hsettled.relation entity hentity
    cases hlater : later[entity.relation]? with
    | some columns =>
        rw [hlater] at hrelation
        exact ⟨columns, rfl, missingColumns_settled hrelation.symm⟩
    | none =>
        rw [hlater] at hrelation
        cases hlive : live[entity.relation]? with
        | none =>
            rw [hlive, settledColumns, if_pos (hrenders entity hentity hlive)] at hrelation
            cases hrelation
        | some columns =>
            rw [hlive, settledColumns] at hrelation
            cases hrelation
  have hcompanion : ∀ entity ∈ catalog.forStore store,
      lacksCompanion store later entity = false := by
    intro entity hentity
    rw [lacksCompanion]
    by_cases hkeeps : entity.keepsHistory store = true
    · have hpresent : later.contains entity.companion = true := by
        rw [BTreeMap.contains_eq_decide, decide_eq_true_iff, BTreeMap.mem_iff_exists_getElem?]
        exact ⟨_, hsettled.companion entity hentity entity.companion
          (companion?_eq_some_iff.mpr ⟨hkeeps, rfl⟩)⟩
      rw [hpresent, Bool.not_true, Bool.and_false]
    · rw [Bool.not_eq_true] at hkeeps
      rw [hkeeps, Bool.false_and]
  have horder : ∀ entity ∈ topoOrder (catalog.forStore store), entity ∈ catalog.forStore store :=
    fun entity hentity => (topoOrder_perm catalog store).mem_iff.mp hentity
  refine ⟨?_, ?_, ?_, ?_, ?_⟩
  · intro item hitem
    rw [hdiff] at hitem
    have hkept := List.of_mem_filter hitem
    simpa [DiffItem.kept] using hkept
  · rw [hdiff, List.filter_filter]
    apply List.filter_congr
    intro item _
    cases hseverity : item.severity <;> simp [DiffItem.kept, hseverity]
  · rw [hdiff, List.filter_filter]
    apply List.filter_congr
    intro item _
    cases hseverity : item.severity <;> simp [DiffItem.kept, hseverity]
  · exact fun relation columns hlive => hsettled.keeps hlive
  · rw [planMigration]
    dsimp only
    have hnone : (topoOrder (catalog.forStore store)).any
        (needsHistoryPrelude store later) = false := by
      rw [List.any_eq_false]
      intro entity hentity
      obtain ⟨columns, hlater, _⟩ := hpresent entity (horder entity hentity)
      rw [needsHistoryPrelude, hlater, hcompanion entity (horder entity hentity)]
      exact Bool.false_ne_true
    rw [hnone, if_neg Bool.false_ne_true, List.nil_append, List.flatMap_eq_nil_iff]
    intro entity hentity
    obtain ⟨columns, hlater, hmissing⟩ := hpresent entity (horder entity hentity)
    rw [entityStatements, hlater]
    dsimp only
    rw [hmissing, hcompanion entity (horder entity hentity)]
    rfl

/-- An entity's only statement that creates a table creates the entity's own. -/
theorem creates_of_mem_entityStatements {catalog : Catalog} {store : Store} {live : LiveStore}
    {entity : Entity} (hentity : entity ∈ catalog.forStore store) {planned : Planned}
    (hplanned : planned ∈ entityStatements store live entity) {relation : String}
    (hcreates : planned.sql.creates = some relation) : relation = entity.relation := by
  rw [entityStatements] at hplanned
  split at hplanned
  · rw [List.mem_singleton] at hplanned
    rw [hplanned, createTableSql_of_mem hentity] at hcreates
    dsimp only at hcreates
    split at hcreates
    · cases hcreates
      rfl
    · cases hcreates
  · rcases List.mem_append.mp hplanned with hadd | hcompanion
    · obtain ⟨column, _, rfl⟩ := List.mem_map.mp hadd
      cases hcreates
    · split at hcompanion
      · rw [List.mem_singleton.mp hcompanion] at hcreates
        cases hcreates
      · cases hcompanion

theorem mem_referenced {entities : List Entity} (hnodup : (entities.map (·.relation)).Nodup)
    {entity owner : Entity} {column : Column} {reference : Reference}
    (hcolumn : column ∈ entity.columns) (hreference : column.references = some reference)
    (howner : owner ∈ entities) (hrelation : owner.relation = reference.relation) :
    owner ∈ referenced entities entity := by
  rw [referenced, List.mem_filterMap]
  refine ⟨column, hcolumn, ?_⟩
  rw [hreference, Option.bind_some]
  cases hfind : entities.find? (·.relation == reference.relation) with
  | none =>
      have hnone := List.find?_eq_none.mp hfind owner howner
      rw [hrelation] at hnone
      exact absurd (beq_self_eq_true _) hnone
  | some found =>
      have hfound : found.relation = reference.relation := by simpa using List.find?_some hfind
      rw [List.inj_on_of_nodup_map hnodup (List.mem_of_find?_eq_some hfind) howner
        (hfound.trans hrelation.symm)]

/-- What comes first in a plan creates no table. -/
theorem creates_of_mem_prelude {needed : Bool} {planned : Planned}
    (hplanned : planned ∈ if needed then
      [(⟨"public.er_history()", .historyPrelude⟩ : Planned)] else []) :
    planned.sql.creates = none := by
  split at hplanned
  · rw [List.mem_singleton.mp hplanned]
    rfl
  · cases hplanned

theorem createsInOrder (catalog : Catalog) (store : Store) (live : LiveStore) :
    CreatesInOrder catalog store (planMigration catalog store live).statements := by
  intro hacyclic before planned after hsplit entity hentity hcreates column hcolumn reference
    hreference other hother hotherCreates
  have hnodup := catalog.relations_forStore_nodup store
  have hperm := topoOrder_perm catalog store
  have hmem : ∀ entity ∈ topoOrder (catalog.forStore store), entity ∈ catalog.forStore store :=
    fun entity hentity => hperm.mem_iff.mp hentity
  have hfirst : DepsFirst (referenced (catalog.forStore store))
      (topoOrder (catalog.forStore store)) :=
    depsFirst_completion hnodup (fun _ _ dep hdep => referenced_subset dep hdep) hacyclic
      (Nat.le_succ _)
  rw [planMigration] at hsplit hother
  dsimp only at hsplit hother
  -- the prelude creates nothing, so the statement stands among those of the entities
  have hbody : ∃ rest, before = (if (topoOrder (catalog.forStore store)).any
        (needsHistoryPrelude store live) then
        [(⟨"public.er_history()", .historyPrelude⟩ : Planned)] else []) ++ rest ∧
      (topoOrder (catalog.forStore store)).flatMap (entityStatements store live) =
        rest ++ planned :: after := by
    rcases List.append_eq_append_iff.mp hsplit with ⟨rest, hbefore, hrest⟩ | ⟨rest, hfront, hrest⟩
    · exact ⟨rest, hbefore, hrest⟩
    · rcases rest with _ | ⟨head, rest⟩
      · exact ⟨[], by rw [hfront, List.append_nil, List.append_nil], hrest.symm⟩
      · have hin : planned ∈ before ++ head :: rest := by
          rw [(List.cons.inj hrest).1]
          exact List.mem_append_right _ List.mem_cons_self
        rw [← hfront] at hin
        rw [creates_of_mem_prelude hin] at hcreates
        cases hcreates
  obtain ⟨rest, hbefore, hrest⟩ := hbody
  obtain ⟨node, hnode, hplanned, hdeps⟩ := hfirst.flatMap hrest
  have hsame : node = entity := by
    apply List.inj_on_of_nodup_map hnodup (hmem node hnode) hentity
    exact (creates_of_mem_entityStatements (hmem node hnode) hplanned hcreates).symm
  rw [hbefore]
  apply List.mem_append_right
  rcases List.mem_append.mp hother with hprelude | hothers
  · rw [creates_of_mem_prelude hprelude] at hotherCreates
    cases hotherCreates
  · obtain ⟨owner, howner, hstatement⟩ := List.mem_flatMap.mp hothers
    have hrelation := creates_of_mem_entityStatements (hmem owner howner) hstatement hotherCreates
    rw [hsame] at hdeps
    exact hdeps owner (mem_referenced hnodup hcolumn hreference (hmem owner howner)
      hrelation.symm) other hstatement

/-- A plan leaves an absent entity that does not render absent. -/
theorem Converges.renders {catalog : Catalog} {store : Store} {live : LiveStore}
    (hcompanions : catalog.CompanionsApart store) (hconverges : Converges catalog store live)
    {entity : Entity} (hentity : entity ∈ catalog.forStore store)
    (habsent : live[entity.relation]? = none) : Renders store entity := by
  by_contra hmissing
  obtain ⟨later, hlater, hsettled⟩ := exists_applied hcompanions (fun _ _ _ _ => rfl)
  obtain ⟨found, hfound, hconverged⟩ := hconverges.1
  rw [hlater] at hfound
  cases hfound
  have hstill : later[entity.relation]? = none := by
    rw [hsettled.relation entity hentity, habsent, settledColumns, if_neg hmissing]
  have hsafe : (⟨entity.qualifiedName store, .safe,
      s!"relation {entity.relation} is absent; create table"⟩ : DiffItem) ∈
        diffStore catalog store later := by
    rw [diffStore, List.mem_append, List.mem_flatMap]
    refine Or.inl ⟨entity, hentity, ?_⟩
    rw [diffRelation, hstill]
    exact List.mem_singleton_self _
  exact hconverged.no_safe _ hsafe rfl

/-- A plan converges exactly when every absent entity of the store renders. -/
theorem plan_converges_iff (catalog : Catalog) (store : Store) (live : LiveStore)
    (hcompanions : catalog.CompanionsApart store) :
    Converges catalog store live ↔
      ∀ entity ∈ catalog.forStore store, live[entity.relation]? = none →
        Renders store entity := by
  apply Iff.intro
  · exact fun hconverges entity hentity habsent =>
      hconverges.renders hcompanions hentity habsent
  · intro hrenders
    obtain ⟨later, hlater, hsettled⟩ := exists_applied hcompanions (fun _ _ _ _ => rfl)
    exact ⟨⟨later, hlater, Converged.of_settled hrenders hsettled⟩,
      createsInOrder catalog store live⟩

/-- Two control-plane tables: `jobs` references `orgs` and keeps its history. -/
def controlCatalog : Catalog where
  entities := [
    { name := "job", relation := "jobs", key := ["id"],
      generate := { stores := [.postgres], history := true },
      columns := [{ name := "id", colType := .varchar, nullable := false },
        { name := "org_id", colType := .varchar, references := some ⟨"orgs", "id"⟩ }] },
    { name := "org", relation := "orgs", key := ["id"], generate := { stores := [.postgres] },
      columns := [{ name := "id", colType := .varchar, nullable := false }] }]
  columns_nodup := by decide
  key_subset := by decide
  relations_nodup := by decide

example : (planMigration controlCatalog .postgres ∅).statements.map (·.relation) =
    ["public.er_history()", "public.orgs", "public.jobs"] := by decide +kernel

/-- The plan of an empty control plane converges. -/
theorem controlCatalog_converges : Converges controlCatalog .postgres ∅ :=
  (plan_converges_iff controlCatalog .postgres ∅ (by
    unfold Catalog.CompanionsApart
    decide)).mpr (by
      intro entity _ _ habsurd
      cases habsurd)

/-- A lake entity whose natural key names no column, which validation lets through. -/
def misnamedKeyCatalog : Catalog where
  entities := [
    { name := "raw_record", relation := "raw_records", key := ["id"],
      naturalKey := ["source_key"], generate := { stores := [.duckdb] },
      columns := [{ name := "id", colType := .varchar, nullable := false }] }]
  columns_nodup := by decide
  key_subset := by decide
  relations_nodup := by decide

/-- Its relation is planned again for ever: the planned statement is empty. -/
theorem misnamedKey_does_not_converge :
    misnamedKeyCatalog.CompanionsApart .duckdb ∧
      ¬ Converges misnamedKeyCatalog .duckdb ∅ ∧
      (planMigration misnamedKeyCatalog .duckdb ∅).statements =
        [⟨"lake.main.raw_records", .empty⟩] := by
  have hcompanions : misnamedKeyCatalog.CompanionsApart .duckdb := by
    unfold Catalog.CompanionsApart
    decide
  refine ⟨hcompanions, ?_, by decide +kernel⟩
  intro hconverges
  have hrenders := hconverges.renders hcompanions List.mem_cons_self
    (Std.ExtTreeMap.getElem?_empty)
  exact absurd (hrenders rfl List.mem_cons_self) (by decide)

end EntityResolution.Schema
