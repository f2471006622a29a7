/-
# The schema ledger

A reconciliation reads the live columns, plans, refuses a breaking plan, applies the statements
and writes one ledger row for each. The control database does all of it in one transaction. A lake
commits the statements first and writes the rows one after the other, so a call that stops in
between leaves statements that no later call records: the next plan finds them applied.

A call is the list of its operations, each made whole or not at all, and it may stop after any
number of them. The ledger is a relation of the store like any other: it is read and written only
where it is live with the columns that the statement names. Beside the live columns and the ledger
rows, a store carries the statements committed so far, which no code reads.
-/

import EntityResolution.Foundations.Runs
import EntityResolution.Schema.Planning

namespace EntityResolution.Schema

open EntityResolution.Collections EntityResolution.Runs

/-- The control database, and the lake of each tenant. -/
inductive Site (T : Type)
  | control
  | lake (tenant : T)
  deriving DecidableEq

def Site.store {T : Type} : Site T → Store
  | .control => .postgres
  | .lake _ => .duckdb

/-- One row of a `schema_migrations` ledger. -/
structure LedgerRow where
  id : String
  createdAt : ℤ
  catalogHash : String
  kind : String
  relation : Option String
  statement : Option Ddl
  appliedBy : String
  snapshotId : Option ℤ
  deriving DecidableEq

/-- The ledger `kind` that a reconciliation writes. -/
def ledgerKind (applied : Bool) : String := if applied then "applied" else "verified"

/-- A store with its ledger. The statements committed so far are a history variable. -/
structure StoreState where
  live : LiveStore
  ledger : List LedgerRow
  applied : List Planned

/-- The relation that either store keeps its ledger in. -/
def ledgerRelation : String := "schema_migrations"

/-- The columns that `latest` reads. -/
def latestColumns : Store → List String
  | .postgres => ["id", "created_at", "updated_at", "catalog_hash", "kind", "relation",
      "statement", "applied_by"]
  | .duckdb => ["catalog_hash", "kind", "created_at", "id"]

/-- The columns that `record` writes. -/
def recordColumns : Store → List String
  | .postgres => ["id", "catalog_hash", "kind", "relation", "statement", "applied_by"]
  | .duckdb => ["id", "created_at", "updated_at", "catalog_hash", "kind", "relation",
      "statement", "applied_by", "snapshot_id"]

/-- The ledger is live with a column of each name. -/
def ledgerHas (live : LiveStore) (names : List String) : Bool :=
  names.all fun name => live[ledgerRelation]?.any fun columns => columns.any (·.name == name)

/-- `latest`: the newest ledger row. -/
def latest (ledger : List LedgerRow) : Option LedgerRow :=
  ledger.foldl (fun newest row =>
    match newest with
    | none => some row
    | some old =>
        if old.createdAt < row.createdAt ∨ old.createdAt = row.createdAt ∧ old.id < row.id then
          some row
        else some old) none

/-- One call of `reconcile_postgres` or `reconcile_lake`, with the clock, the ids and the snapshot
it meets. A call with a `stop` is cut off after that many operations. -/
structure Call (T : Type) where
  site : Site T
  catalog : Catalog
  appliedBy : String
  now : ℤ
  ids : ℕ → String
  snapshot : Option ℤ
  stop : Option ℕ

/-- Why a reconciliation stopped. -/
inductive ReconcileError
  | breaking (items : List DiffItem)
  | stopped
  deriving DecidableEq

/-- What one reconciliation did. -/
structure Reconciled where
  catalogHash : String
  applied : List Planned
  ahead : List DiffItem
  ledgerWasCurrent : Bool
  deriving DecidableEq

/-- What a store does whole or not at all: statements, a look at the newest ledger row, rows. -/
structure Operation where
  ddl : List Planned
  reads : Bool
  rows : List LedgerRow

/-- What an operation makes of the store. It fails where a statement does not apply, and where it
names a column that the ledger lacks. Any other failure is a `stop`. -/
def Operation.run (store : Store) (operation : Operation) (state : StoreState) :
    Option StoreState :=
  (applyAll state.live operation.ddl).bind fun live =>
    if (!operation.reads || ledgerHas live (latestColumns store)) &&
        (operation.rows.isEmpty || ledgerHas live (recordColumns store)) then
      some ⟨live, state.ledger ++ operation.rows, state.applied ++ operation.ddl⟩
    else none

/-- The operations one after the other, up to the first that fails. -/
def runOperations (store : Store) (state : StoreState) : List Operation → StoreState × Bool
  | [] => (state, true)
  | operation :: operations =>
      match operation.run store state with
      | none => (state, false)
      | some next => runOperations store next operations

/-- The live columns of the given relations. -/
def readColumns (live : LiveStore) (relations : List String) : LiveStore :=
  live.filter fun relation _ => relations.contains relation

section Reconcile

variable {T : Type} (stage : List String) (catalogHash : Catalog → Store → String)

namespace Call

/-- The catalog the call plans from: a lake leaves out the relations its stages materialise. -/
def owned (call : Call T) : Catalog :=
  match call.site with
  | .control => call.catalog
  | .lake _ => call.catalog.without .duckdb stage

/-- `postgres_relations` and `lake_relations`: the relations the call reads. -/
def relations (call : Call T) : List String :=
  ((call.owned stage).forStore call.site.store).flatMap (touched call.site.store)

/-- The plan of the call. -/
def plan (call : Call T) (state : StoreState) : MigrationPlan :=
  planMigration (call.owned stage) call.site.store
    (readColumns state.live (call.relations stage))

/-- The catalog version the call reconciles toward. -/
def version (call : Call T) : String := catalogHash call.catalog call.site.store

/-- The `i`-th ledger row of the call. -/
def row (call : Call T) (i : ℕ) (planned : Option Planned) : LedgerRow where
  id := call.ids i
  createdAt := call.now
  catalogHash := call.version catalogHash
  kind := ledgerKind planned.isSome
  relation := planned.map (·.relation)
  statement := planned.map (·.sql)
  appliedBy := call.appliedBy
  snapshotId :=
    match call.site with
    | .control => none
    | .lake _ => call.snapshot

/-- One `applied` row for each statement. -/
def rows (call : Call T) (statements : List Planned) : List LedgerRow :=
  statements.zipIdx.map fun entry => call.row catalogHash entry.2 (some entry.1)

/-- Did the ledger record this catalog version already? -/
def ledgerWasCurrent (call : Call T) (state : StoreState) : Bool :=
  (latest state.ledger).map (·.catalogHash) == some (call.version catalogHash)

/-- The ledger rows that the call writes. -/
def records (call : Call T) (state : StoreState) : List LedgerRow :=
  let statements := (call.plan stage state).statements
  if statements.isEmpty then
    if call.ledgerWasCurrent catalogHash state then [] else [call.row catalogHash 0 none]
  else call.rows catalogHash statements

/-- The operations of a call. -/
def operations (call : Call T) (state : StoreState) : List Operation :=
  let statements := (call.plan stage state).statements
  let records := call.records stage catalogHash state
  match call.site with
  | .control => [⟨statements, true, records⟩]
  | .lake _ =>
      (if statements.isEmpty then [] else [⟨statements, false, []⟩]) ++
        ⟨[], true, []⟩ :: records.map fun row => ⟨[], false, [row]⟩

/-- `reconcile_postgres` and `reconcile_lake`. -/
def reconcile (call : Call T) (state : StoreState) :
    StoreState × Except ReconcileError Reconciled :=
  let plan := call.plan stage state
  if plan.breaking ≠ [] then (state, .error (.breaking plan.breaking))
  else
    match call.stop with
    | some count =>
        ((runOperations call.site.store state
          ((call.operations stage catalogHash state).take count)).1, .error .stopped)
    | none =>
        let done := runOperations call.site.store state (call.operations stage catalogHash state)
        (done.1,
          if done.2 then
            .ok ⟨call.version catalogHash, plan.statements, plan.ahead,
              call.ledgerWasCurrent catalogHash state⟩
          else .error .stopped)

end Call

/-- One call on its store; the other stores stay as they are. -/
def reconcileStep [DecidableEq T] (world : Site T → StoreState) (call : Call T) :
    Site T → StoreState :=
  Function.update world call.site (call.reconcile stage catalogHash (world call.site)).1

end Reconcile

/-- The effect of a statement is in the store. An empty statement has none. -/
def InEffect (live : LiveStore) : Ddl → Prop
  | .createTable relation columns companion =>
      (∃ added, live[relation]? = some (columns ++ added)) ∧
        ∀ history ∈ companion, history ∈ live
  | .addColumn relation column => ∃ columns, live[relation]? = some columns ∧ column ∈ columns
  | .createCompanion relation => relation ∈ live
  | .historyPrelude => True
  | .empty => False

/-- The ledger holds an applied row of the statement. -/
def Recorded (ledger : List LedgerRow) (planned : Planned) : Prop :=
  ∃ row ∈ ledger, row.kind = "applied" ∧ row.relation = some planned.relation ∧
    row.statement = some planned.sql

/-- Every committed statement whose effect is in the store has a row, and the statement of every
applied row took effect. -/
structure LedgerComplete (state : StoreState) : Prop where
  recorded : ∀ planned ∈ state.applied, InEffect state.live planned.sql →
    Recorded state.ledger planned
  took_effect : ∀ row ∈ state.ledger, row.kind = "applied" →
    ∃ sql, row.statement = some sql ∧ InEffect state.live sql

/-- Every statement of the call's plan has an effect of its own: no relation of the catalog is a
history companion, and every absent entity renders. -/
def Call.Effective {T : Type} (stage : List String) (call : Call T) (state : StoreState) : Prop :=
  (call.owned stage).CompanionsApart call.site.store ∧
    ∀ entity ∈ (call.owned stage).forStore call.site.store,
      state.live[entity.relation]? = none → Renders call.site.store entity

/-- The call is not stopped between the commit of a lake's statements and their last row: one
operation commits, one reads the ledger, and one writes each row. -/
def Call.Unbroken {T : Type} (stage : List String) (call : Call T) (state : StoreState) : Prop :=
  call.site.store = .duckdb → (call.plan stage state).statements ≠ [] → ∀ count ∈ call.stop,
    count = 0 ∨ (call.plan stage state).statements.length + 1 < count

/-- The ledger of the store has a column of the name. -/
def LedgerColumn (live : LiveStore) (name : String) : Prop :=
  ∃ columns, live[ledgerRelation]? = some columns ∧ name ∈ columns.map (·.name)

/-- Where a lake call has statements to apply, each column that its ledger reads and writes name
is live already, or declared by the catalog for the ledger. -/
def Call.KeepsLedger {T : Type} (stage : List String) (call : Call T) (state : StoreState) :
    Prop :=
  call.site.store = .duckdb → (call.plan stage state).statements ≠ [] →
    ∀ name ∈ latestColumns .duckdb ++ recordColumns .duckdb,
      LedgerColumn state.live name ∨
        ∃ entity ∈ (call.owned stage).forStore .duckdb,
          entity.relation = ledgerRelation ∧ name ∈ entity.columnNames

theorem ledgerHas_iff {live : LiveStore} {names : List String} :
    ledgerHas live names = true ↔ ∀ name ∈ names, LedgerColumn live name := by
  simp [ledgerHas, LedgerColumn, Option.any_eq_true]

theorem getElem?_readColumns {live : LiveStore} {relations : List String} {relation : String}
    (hmem : relation ∈ relations) : (readColumns live relations)[relation]? = live[relation]? := by
  rw [readColumns, BTreeMap.getElem?_filter_eq]
  cases live[relation]? with
  | none => rfl
  | some columns =>
      have hcontains : relations.contains relation = true := by simpa using hmem
      rw [Option.filter_some, if_pos hcontains]

/-- An effect stays in a store that keeps its columns. -/
theorem InEffect.mono {live later : LiveStore}
    (hkeeps : ∀ (relation : String) columns, live[relation]? = some columns →
      ∃ added, later[relation]? = some (columns ++ added)) {sql : Ddl}
    (heffect : InEffect live sql) : InEffect later sql := by
  have hmem : ∀ relation ∈ live, relation ∈ later := by
    intro relation hrelation
    rw [BTreeMap.mem_iff_exists_getElem?] at hrelation ⊢
    obtain ⟨columns, hcolumns⟩ := hrelation
    obtain ⟨added, hadded⟩ := hkeeps relation columns hcolumns
    exact ⟨_, hadded⟩
  cases sql with
  | createTable relation columns companion =>
      obtain ⟨⟨old, hold⟩, hcompanion⟩ := heffect
      obtain ⟨added, hadded⟩ := hkeeps relation _ hold
      refine ⟨⟨old ++ added, ?_⟩, fun history hhistory =>
        hmem history (hcompanion history hhistory)⟩
      rw [hadded, List.append_assoc]
  | addColumn relation column =>
      obtain ⟨columns, hcolumns, hcolumn⟩ := heffect
      obtain ⟨added, hadded⟩ := hkeeps relation columns hcolumns
      exact ⟨_, hadded, List.mem_append_left _ hcolumn⟩
  | createCompanion relation => exact hmem relation heffect
  | historyPrelude => trivial
  | empty => exact heffect

/-- The statements of an entity that renders are in effect once the entity is settled. -/
theorem inEffect_of_mem_entityStatements {catalog : Catalog} {store : Store}
    {live now later : LiveStore} {entity : Entity} (hentity : entity ∈ catalog.forStore store)
    (hagree : now[entity.relation]? = live[entity.relation]?)
    (hrenders : now[entity.relation]? = none → Renders store entity)
    (hsettled : SettledAll store (catalog.forStore store) now later) {planned : Planned}
    (hplanned : planned ∈ entityStatements store live entity) : InEffect later planned.sql := by
  have hcompanion : ∀ companion ∈ entity.companion? store, companion ∈ later := by
    intro companion hmem
    rw [BTreeMap.mem_iff_exists_getElem?]
    exact ⟨_, hsettled.companion entity hentity companion hmem⟩
  have hrelation := hsettled.relation entity hentity
  rw [hagree] at hrelation hrenders
  rw [entityStatements] at hplanned
  cases hlive : live[entity.relation]? with
  | none =>
      rw [hlive] at hplanned hrelation
      rw [settledColumns, if_pos (hrenders hlive)] at hrelation
      rw [List.mem_singleton.mp hplanned, createTableSql_of_mem hentity, if_pos (hrenders hlive)]
      refine ⟨⟨[], ?_⟩, hcompanion⟩
      rw [hrelation, List.append_nil]
  | some columns =>
      rw [hlive] at hplanned hrelation
      rw [settledColumns] at hrelation
      rcases List.mem_append.mp hplanned with hadd | hhistory
      · obtain ⟨column, hcolumn, rfl⟩ := List.mem_map.mp hadd
        exact ⟨_, hrelation, List.mem_append_right _ (List.mem_map_of_mem hcolumn)⟩
      · split at hhistory
        · next hlacks =>
            rw [List.mem_singleton.mp hhistory]
            apply hcompanion
            rw [lacksCompanion, Bool.and_eq_true] at hlacks
            exact companion?_eq_some_iff.mpr ⟨hlacks.1, rfl⟩
        · cases hhistory

theorem mem_missingColumns {catalog : Catalog} {store : Store} {live : LiveStore} {entity : Entity}
    {columns : List LiveColumn} {column : Column} (hentity : entity ∈ catalog.forStore store)
    (hlive : live[entity.relation]? = some columns)
    (hbreaking : (planMigration catalog store live).breaking = []) (hmem : column ∈ entity.columns)
    (hlacks : column.name ∉ columns.map (·.name)) : column ∈ missingColumns entity columns := by
  have hnone : liveByName columns column.name = none := liveByName_eq_none_iff.mpr hlacks
  have hnullable : column.nullable = true := by
    by_contra hstrict
    have hitem : ⟨entity.qualifiedName store, .breaking,
        s!"column {column.name} is absent; add column"⟩ ∈
          (planMigration catalog store live).breaking := by
      apply List.mem_filter.mpr ⟨List.mem_append_left _ ?_, rfl⟩
      apply List.mem_flatMap.mpr ⟨entity, hentity, ?_⟩
      rw [diffRelation, hlive]
      apply List.mem_append_left
      apply List.mem_flatMap.mpr ⟨column, hmem, ?_⟩
      rw [diffColumn, hnone]
      dsimp only
      rw [if_neg hstrict]
      exact List.mem_singleton_self _
    rw [hbreaking] at hitem
    cases hitem
  apply List.mem_filter.mpr ⟨hmem, ?_⟩
  rw [hnullable, Bool.and_true, Bool.not_eq_true']
  simpa using hlacks

theorem exists_declared {catalog : Catalog} {store : Store} {live : LiveStore} {entity : Entity}
    (hentity : entity ∈ catalog.forStore store)
    (hbreaking : (planMigration catalog store live).breaking = [])
    (hrenders : live[entity.relation]? = none → Renders store entity) :
    ∃ columns, settledColumns store entity live[entity.relation]? = some columns ∧
      ∀ name ∈ entity.columnNames, name ∈ columns.map (·.name) := by
  cases hlive : live[entity.relation]? with
  | none =>
      refine ⟨entity.declared store, if_pos (hrenders hlive), ?_⟩
      intro name hname
      obtain ⟨column, hcolumn, rfl⟩ := List.mem_map.mp hname
      exact List.mem_map.mpr ⟨_, List.mem_map_of_mem hcolumn, column.declared_name store⟩
  | some columns =>
      refine ⟨_, rfl, ?_⟩
      intro name hname
      obtain ⟨column, hcolumn, rfl⟩ := List.mem_map.mp hname
      rw [List.map_append, List.mem_append]
      by_cases hlisted : column.name ∈ columns.map (·.name)
      · exact Or.inl hlisted
      · have hmissing := mem_missingColumns hentity hlive hbreaking hcolumn hlisted
        exact Or.inr (List.mem_map.mpr
          ⟨_, List.mem_map_of_mem hmissing, column.added_name store⟩)

/-- An effective plan applies, its statements are in effect afterwards, the store keeps its
columns, and every entity of the catalog has its own. -/
theorem Call.exists_applied {T : Type} {stage : List String} {call : Call T} {state : StoreState}
    (heffective : call.Effective stage state) :
    ∃ later, applyAll state.live (call.plan stage state).statements = some later ∧
      (∀ planned ∈ (call.plan stage state).statements, InEffect later planned.sql) ∧
      (∀ (relation : String) columns, state.live[relation]? = some columns →
        ∃ added, later[relation]? = some (columns ++ added)) ∧
      ((call.plan stage state).breaking = [] →
        ∀ entity ∈ (call.owned stage).forStore call.site.store, ∃ columns,
          later[entity.relation]? = some columns ∧
            ∀ name ∈ entity.columnNames, name ∈ columns.map (·.name)) := by
  have hagree : ∀ entity ∈ (call.owned stage).forStore call.site.store,
      ∀ relation ∈ touched call.site.store entity,
        state.live[relation]? = (readColumns state.live (call.relations stage))[relation]? := by
    intro entity hentity relation hrelation
    have hread : relation ∈ call.relations stage :=
      List.mem_flatMap.mpr ⟨entity, hentity, hrelation⟩
    exact (getElem?_readColumns hread).symm
  obtain ⟨later, hlater, hsettled⟩ := Schema.exists_applied heffective.1 hagree
  refine ⟨later, hlater, ?_, fun relation columns hlive => hsettled.keeps hlive, ?_⟩
  · intro planned hplanned
    rw [Call.plan, planMigration] at hplanned
    rcases List.mem_append.mp hplanned with hprelude | hbody
    · split at hprelude
      · rw [List.mem_singleton.mp hprelude]
        trivial
      · cases hprelude
    · obtain ⟨entity, horder, hstatement⟩ := List.mem_flatMap.mp hbody
      have hentity := (topoOrder_perm (call.owned stage) call.site.store).mem_iff.mp horder
      exact inEffect_of_mem_entityStatements hentity
        (hagree entity hentity _ (mem_touched.mpr (Or.inl rfl)))
        (heffective.2 entity hentity) hsettled hstatement
  · intro hbreaking entity hentity
    have hread := hagree entity hentity _ (mem_touched.mpr (Or.inl rfl))
    obtain ⟨columns, hcolumns, hnames⟩ := exists_declared hentity hbreaking
      (hread ▸ heffective.2 entity hentity)
    refine ⟨columns, ?_, hnames⟩
    rw [hsettled.relation entity hentity, hread, hcolumns]

/-- A lake call that keeps its ledger finds every column it names once its statements apply. -/
theorem Call.KeepsLedger.ledgerHas {T : Type} {stage : List String} {call : Call T}
    {state : StoreState} {later : LiveStore} (hkept : call.KeepsLedger stage state)
    (hlake : call.site.store = .duckdb) (hstatements : (call.plan stage state).statements ≠ [])
    (hkeeps : ∀ (relation : String) columns, state.live[relation]? = some columns →
      ∃ added, later[relation]? = some (columns ++ added))
    (hdeclared : ∀ entity ∈ (call.owned stage).forStore call.site.store, ∃ columns,
      later[entity.relation]? = some columns ∧
        ∀ name ∈ entity.columnNames, name ∈ columns.map (·.name)) :
    ledgerHas later (latestColumns .duckdb) = true ∧
      ledgerHas later (recordColumns .duckdb) = true := by
  have hcolumn : ∀ name ∈ latestColumns .duckdb ++ recordColumns .duckdb,
      LedgerColumn later name := by
    intro name hname
    rcases hkept hlake hstatements name hname with
      ⟨columns, hcolumns, hlisted⟩ | ⟨entity, hentity, hrelation, hlisted⟩
    · obtain ⟨added, hadded⟩ := hkeeps _ _ hcolumns
      refine ⟨_, hadded, ?_⟩
      rw [List.map_append]
      exact List.mem_append_left _ hlisted
    · obtain ⟨columns, hcolumns, hnames⟩ := hdeclared entity (hlake ▸ hentity)
      exact ⟨columns, hrelation ▸ hcolumns, hnames name hlisted⟩
  exact ⟨ledgerHas_iff.mpr fun name hname => hcolumn name (List.mem_append_left _ hname),
    ledgerHas_iff.mpr fun name hname => hcolumn name (List.mem_append_right _ hname)⟩

theorem Operation.run_eq_some {store : Store} {operation : Operation} {state next : StoreState}
    (hrun : operation.run store state = some next) :
    ∃ live, applyAll state.live operation.ddl = some live ∧
      next = ⟨live, state.ledger ++ operation.rows, state.applied ++ operation.ddl⟩ := by
  obtain ⟨live, hlive, hrest⟩ := Option.bind_eq_some_iff.mp hrun
  split at hrest
  · exact ⟨live, hlive, (Option.some.inj hrest).symm⟩
  · cases hrest

/-- An operation succeeds where its statements apply and its ledger columns are there. -/
theorem Operation.run_of_ledger {store : Store} {operation : Operation} {state : StoreState}
    {live : LiveStore} (happlied : applyAll state.live operation.ddl = some live)
    (hreads : operation.reads = true → ledgerHas live (latestColumns store) = true)
    (hrows : operation.rows ≠ [] → ledgerHas live (recordColumns store) = true) :
    operation.run store state =
      some ⟨live, state.ledger ++ operation.rows, state.applied ++ operation.ddl⟩ := by
  rw [Operation.run, happlied, Option.bind_some, if_pos]
  rw [Bool.and_eq_true, Bool.or_eq_true, Bool.or_eq_true, Bool.not_eq_true',
    List.isEmpty_iff]
  refine ⟨?_, ?_⟩
  · cases hread : operation.reads with
    | true => exact Or.inr (hreads hread)
    | false => exact Or.inl rfl
  · by_cases hnone : operation.rows = []
    · exact Or.inl hnone
    · exact Or.inr (hrows hnone)

/-- Writing rows one after the other. -/
theorem runOperations_rows {store : Store} {state : StoreState} (rows : List LedgerRow)
    (hledger : ledgerHas state.live (recordColumns store) = true) :
    runOperations store state (rows.map fun row => ⟨[], false, [row]⟩) =
      (⟨state.live, state.ledger ++ rows, state.applied⟩, true) := by
  induction rows generalizing state with
  | nil =>
      rw [List.append_nil]
      rfl
  | cons row rows ih =>
      rw [List.map_cons, runOperations,
        Operation.run_of_ledger rfl (absurd · Bool.false_ne_true) fun _ => hledger]
      dsimp only
      have hrest := @ih ⟨state.live, state.ledger ++ [row], state.applied ++ []⟩ hledger
      rw [hrest, List.append_nil, List.append_assoc]
      rfl

/-- Every committed statement has its row, and every applied row took effect. -/
structure LedgerSound (state : StoreState) : Prop where
  recorded : ∀ planned ∈ state.applied, Recorded state.ledger planned
  took_effect : ∀ row ∈ state.ledger, row.kind = "applied" →
    ∃ sql, row.statement = some sql ∧ InEffect state.live sql

theorem LedgerSound.complete {state : StoreState} (hsound : LedgerSound state) :
    LedgerComplete state where
  recorded planned hplanned _ := hsound.recorded planned hplanned
  took_effect := hsound.took_effect

theorem Recorded.append {ledger : List LedgerRow} {planned : Planned}
    (hrecorded : Recorded ledger planned) (rows : List LedgerRow) :
    Recorded (ledger ++ rows) planned := by
  obtain ⟨row, hrow, hfields⟩ := hrecorded
  exact ⟨row, List.mem_append_left _ hrow, hfields⟩

section Step

variable {T : Type} {stage : List String} {catalogHash : Catalog → Store → String}

theorem mem_rows {call : Call T} {statements : List Planned} {row : LedgerRow}
    (hrow : row ∈ call.rows catalogHash statements) :
    row.kind = "applied" ∧ ∃ planned ∈ statements,
      row.relation = some planned.relation ∧ row.statement = some planned.sql := by
  obtain ⟨⟨planned, i⟩, hentry, rfl⟩ := List.mem_map.mp hrow
  exact ⟨rfl, planned, (List.mem_zipIdx' hentry).2 ▸ List.getElem_mem _, rfl, rfl⟩

theorem recorded_rows {call : Call T} {statements : List Planned} {planned : Planned}
    (hplanned : planned ∈ statements) :
    Recorded (call.rows catalogHash statements) planned := by
  obtain ⟨i, hi, rfl⟩ := List.mem_iff_getElem.mp hplanned
  refine ⟨call.row catalogHash i (some statements[i]), ?_, rfl, rfl, rfl⟩
  apply List.mem_map.mpr
  refine ⟨(statements[i], i), ?_, rfl⟩
  rw [List.mem_zipIdx_iff_getElem?, List.getElem?_eq_getElem hi]

/-- The statements of a plan with all their rows keep the ledger sound. -/
theorem LedgerSound.applied {call : Call T} {state : StoreState} {later : LiveStore}
    {statements : List Planned} (hsound : LedgerSound state)
    (heffect : ∀ planned ∈ statements, InEffect later planned.sql)
    (hkeeps : ∀ (relation : String) columns, state.live[relation]? = some columns →
      ∃ added, later[relation]? = some (columns ++ added)) :
    LedgerSound ⟨later, state.ledger ++ call.rows catalogHash statements,
      state.applied ++ statements⟩ where
  recorded planned hplanned := by
    rcases List.mem_append.mp hplanned with hold | hnew
    · exact (hsound.recorded planned hold).append _
    · have hrecorded : Recorded (call.rows catalogHash statements) planned := recorded_rows hnew
      obtain ⟨row, hrow, hfields⟩ := hrecorded
      exact ⟨row, List.mem_append_right _ hrow, hfields⟩
  took_effect row hrow hkind := by
    rcases List.mem_append.mp hrow with hold | hnew
    · obtain ⟨sql, hsql, hin⟩ := hsound.took_effect row hold hkind
      exact ⟨sql, hsql, hin.mono hkeeps⟩
    · obtain ⟨planned, hplanned, _, hsql⟩ := (mem_rows hnew).2
      exact ⟨planned.sql, hsql, heffect planned hplanned⟩

/-- Operations that apply no statement and record none keep the ledger sound. -/
theorem LedgerSound.quiet {store : Store} {operations : List Operation} {state : StoreState}
    (hsound : LedgerSound state) (hquiet : ∀ operation ∈ operations,
      operation.ddl = [] ∧ ∀ row ∈ operation.rows, row.kind ≠ "applied") :
    LedgerSound (runOperations store state operations).1 := by
  induction operations generalizing state with
  | nil => exact hsound
  | cons operation operations ih =>
      rw [runOperations]
      cases hrun : operation.run store state with
      | none => exact hsound
      | some next =>
          obtain ⟨hddl, hrows⟩ := hquiet operation List.mem_cons_self
          obtain ⟨live, hlive, rfl⟩ := Operation.run_eq_some hrun
          rw [hddl, applyAll, List.foldlM_nil] at hlive
          refine ih ⟨?_, ?_⟩ fun other hother => hquiet other (List.mem_cons_of_mem _ hother)
          · intro planned hplanned
            rw [hddl, List.append_nil] at hplanned
            exact (hsound.recorded planned hplanned).append _
          · intro row hrow hkind
            rcases List.mem_append.mp hrow with hold | hnew
            · rw [← Option.some.inj hlive]
              exact hsound.took_effect row hold hkind
            · exact absurd hkind (hrows row hnew)

variable (catalogHash) in
/-- A call with nothing to apply has quiet operations only. -/
theorem operations_quiet {call : Call T} {state : StoreState}
    (hempty : (call.plan stage state).statements = []) :
    ∀ operation ∈ call.operations stage catalogHash state,
      operation.ddl = [] ∧ ∀ row ∈ operation.rows, row.kind ≠ "applied" := by
  have hrecords : ∀ row ∈ call.records stage catalogHash state, row.kind ≠ "applied" := by
    intro row hrow
    rw [Call.records, hempty] at hrow
    dsimp only [List.isEmpty_nil] at hrow
    rw [if_pos rfl] at hrow
    split at hrow
    · cases hrow
    · rw [List.mem_singleton.mp hrow]
      have hverified : ledgerKind false ≠ "applied" := by decide
      exact hverified
  intro operation hoperation
  rw [Call.operations, hempty] at hoperation
  cases hsite : call.site with
  | control =>
      rw [hsite] at hoperation
      rw [List.mem_singleton.mp hoperation]
      exact ⟨rfl, hrecords⟩
  | lake tenant =>
      rw [hsite] at hoperation
      dsimp only [List.isEmpty_nil] at hoperation
      rw [if_pos rfl, List.nil_append] at hoperation
      rcases List.mem_cons.mp hoperation with rfl | hrow
      · exact ⟨rfl, fun row hrow => nomatch hrow⟩
      · obtain ⟨row, hmem, rfl⟩ := List.mem_map.mp hrow
        refine ⟨rfl, ?_⟩
        intro other hother
        rw [List.mem_singleton.mp hother]
        exact hrecords row hmem

theorem records_of_ne_nil {call : Call T} {state : StoreState}
    (hstatements : (call.plan stage state).statements ≠ []) :
    call.records stage catalogHash state =
      call.rows catalogHash (call.plan stage state).statements := by
  rw [Call.records, List.isEmpty_eq_false_iff.mpr hstatements, if_neg Bool.false_ne_true]

/-- The operations of a lake call with statements to apply. -/
theorem operations_lake {call : Call T} {state : StoreState} {tenant : T}
    (hsite : call.site = .lake tenant) (hstatements : (call.plan stage state).statements ≠ []) :
    call.operations stage catalogHash state =
      ⟨(call.plan stage state).statements, false, []⟩ :: ⟨[], true, []⟩ ::
        (call.rows catalogHash (call.plan stage state).statements).map fun row =>
          ⟨[], false, [row]⟩ := by
  rw [Call.operations, records_of_ne_nil hstatements, hsite,
    List.isEmpty_eq_false_iff.mpr hstatements]
  rfl

/-- All the operations of a lake call whose ledger is there. -/
theorem runOperations_lake {call : Call T} {state : StoreState} {tenant : T} {later : LiveStore}
    (hsite : call.site = .lake tenant) (hstatements : (call.plan stage state).statements ≠ [])
    (happlied : applyAll state.live (call.plan stage state).statements = some later)
    (hlatest : ledgerHas later (latestColumns .duckdb) = true)
    (hrecord : ledgerHas later (recordColumns .duckdb) = true) :
    runOperations .duckdb state (call.operations stage catalogHash state) =
      (⟨later, state.ledger ++ call.rows catalogHash (call.plan stage state).statements,
        state.applied ++ (call.plan stage state).statements⟩, true) := by
  rw [operations_lake hsite hstatements, runOperations,
    Operation.run_of_ledger happlied (absurd · Bool.false_ne_true) fun hrows => absurd rfl hrows]
  dsimp only
  rw [runOperations, Operation.run_of_ledger rfl (fun _ => hlatest) fun hrows => absurd rfl hrows]
  dsimp only
  rw [runOperations_rows _ hrecord]
  dsimp only
  rw [List.append_nil, List.append_nil, List.append_nil]

variable (catalogHash) in
/-- Any number of the operations of a call that is effective, not broken and keeps its ledger. -/
theorem LedgerSound.take {call : Call T} {state : StoreState} (hsound : LedgerSound state)
    (hbreaking : (call.plan stage state).breaking = []) (heffective : call.Effective stage state)
    (hkept : call.KeepsLedger stage state) (count : ℕ)
    (hcount : call.site.store = .duckdb → (call.plan stage state).statements ≠ [] →
      count = 0 ∨ (call.plan stage state).statements.length + 1 < count) :
    LedgerSound (runOperations call.site.store state
      ((call.operations stage catalogHash state).take count)).1 := by
  by_cases hempty : (call.plan stage state).statements = []
  · exact hsound.quiet fun operation hoperation =>
      operations_quiet catalogHash hempty operation (List.mem_of_mem_take hoperation)
  · obtain ⟨later, hlater, heffect, hkeeps, hdeclared⟩ := Call.exists_applied heffective
    by_cases hzero : count = 0
    · rw [hzero, List.take_zero]
      exact hsound
    · cases hsite : call.site with
      | control =>
          obtain ⟨count, rfl⟩ := Nat.exists_eq_succ_of_ne_zero hzero
          rw [Call.operations, records_of_ne_nil hempty, hsite, List.take_succ_cons, List.take_nil,
            runOperations]
          split
          · exact hsound
          · next next hrun =>
              obtain ⟨live, hlive, rfl⟩ := Operation.run_eq_some hrun
              rw [hlater] at hlive
              rw [← Option.some.inj hlive]
              exact hsound.applied heffect hkeeps
      | lake tenant =>
          have hlake : call.site.store = .duckdb := by rw [hsite]; rfl
          obtain ⟨hlatest, hrecord⟩ :=
            hkept.ledgerHas hlake hempty hkeeps (hdeclared hbreaking)
          have hall : (call.operations stage catalogHash state).take count =
              call.operations stage catalogHash state := by
            apply List.take_of_length_le
            have hlong := (hcount hlake hempty).resolve_left hzero
            rw [operations_lake hsite hempty, List.length_cons, List.length_cons, List.length_map,
              Call.rows, List.length_map, List.length_zipIdx]
            omega
          rw [hall, Site.store, runOperations_lake hsite hempty hlater hlatest hrecord]
          exact hsound.applied heffect hkeeps

/-- A call that is effective, not broken and keeps its ledger leaves the ledger sound. -/
theorem LedgerSound.reconcile {call : Call T} {state : StoreState} (hsound : LedgerSound state)
    (hguard : (call.plan stage state).breaking = [] → call.Effective stage state ∧
      call.Unbroken stage state ∧ call.KeepsLedger stage state) :
    LedgerSound (call.reconcile stage catalogHash state).1 := by
  rw [Call.reconcile]
  by_cases hbreaking : (call.plan stage state).breaking = []
  · obtain ⟨heffective, hunbroken, hkept⟩ := hguard hbreaking
    rw [if_neg (not_not_intro hbreaking)]
    cases hstop : call.stop with
    | some count =>
        exact hsound.take catalogHash hbreaking heffective hkept count fun hlake hstatements =>
          hunbroken hlake hstatements count hstop
    | none =>
        have hall := hsound.take catalogHash hbreaking heffective hkept
          ((call.operations stage catalogHash state).length +
            (call.plan stage state).statements.length + 2) fun _ _ => Or.inr (by omega)
        rw [List.take_of_length_le (by omega)] at hall
        exact hall
  · rw [if_pos hbreaking]
    exact hsound

end Step

section Run

variable {T : Type} [DecidableEq T] (stage : List String) (catalogHash : Catalog → Store → String)

/-- A call whose statements have an effect, that is not stopped between the commit of a lake's
statements and their last row, and that finds its ledger there, unless it is refused. -/
def CallGuard (world : Site T → StoreState) (call : Call T) : Prop :=
  (call.plan stage (world call.site)).breaking = [] →
    call.Effective stage (world call.site) ∧ call.Unbroken stage (world call.site) ∧
      call.KeepsLedger stage (world call.site)

/-- Along every run of such calls on stores with empty ledgers, every committed statement has its
row and every applied row took effect. A breaking refusal leaves every store as it is. -/
theorem ledger_complete {start : Site T → StoreState}
    (hstart : ∀ site, (start site).ledger = [] ∧ (start site).applied = []) {calls : List (Call T)}
    (hguard : Along (reconcileStep stage catalogHash) (CallGuard stage) start calls) :
    AfterEach (reconcileStep stage catalogHash)
        (fun _ world => ∀ site, LedgerComplete (world site)) start calls ∧
      ∀ (world : Site T → StoreState) (call : Call T),
        (call.plan stage (world call.site)).breaking ≠ [] →
          reconcileStep stage catalogHash world call = world := by
  apply And.intro
  · apply afterEach_of_along (fun world => ∀ site, LedgerSound (world site)) _ _ _ hguard
    · intro world call hsound hcall site
      rw [reconcileStep]
      by_cases hsite : site = call.site
      · subst hsite
        rw [Function.update_self]
        exact (hsound call.site).reconcile hcall
      · rw [Function.update_of_ne hsite]
        exact hsound site
    · exact fun _ world hsound site => (hsound site).complete
    · intro site
      apply LedgerSound.mk
      · intro planned hplanned
        rw [(hstart site).2] at hplanned
        cases hplanned
      · intro row hrow
        rw [(hstart site).1] at hrow
        cases hrow
  · intro world call hbreaking
    rw [reconcileStep, Call.reconcile, if_pos hbreaking]
    exact Function.update_eq_self _ _

end Run

/-- The catalog of a binary with both ledgers and one table of the lakes. -/
def bootCatalog : Catalog where
  entities := [
    { name := "raw_record", relation := "raw_records", key := ["id"],
      generate := { stores := [.duckdb] },
      columns := [{ name := "id", colType := .varchar, nullable := false }] },
    { name := "lake_schema_migration", relation := "schema_migrations", key := ["id"],
      generate := { stores := [.duckdb] },
      columns := [{ name := "id", colType := .varchar, nullable := false },
        { name := "created_at", colType := .timestamp, nullable := false },
        { name := "updated_at", colType := .timestamp, nullable := false },
        { name := "catalog_hash", colType := .varchar, nullable := false },
        { name := "kind", colType := .varchar, nullable := false },
        { name := "relation", colType := .varchar },
        { name := "statement", colType := .varchar },
        { name := "applied_by", colType := .varchar, nullable := false },
        { name := "snapshot_id", colType := .bigint }] },
    { name := "schema_migration", relation := "schema_migrations", key := ["id"],
      generate := { stores := [.postgres] },
      columns := [{ name := "id", colType := .varchar, nullable := false },
        { name := "created_at", colType := .timestamp, nullable := false },
        { name := "updated_at", colType := .timestamp, nullable := false },
        { name := "catalog_hash", colType := .varchar, nullable := false },
        { name := "kind", colType := .varchar, nullable := false },
        { name := "relation", colType := .varchar },
        { name := "statement", colType := .varchar },
        { name := "applied_by", colType := .varchar, nullable := false }] }]
  columns_nodup := by decide
  key_subset := by decide
  relations_nodup := by decide

/-- A reconciliation of one store by that binary. -/
def bootCall (site : Site Unit) (stop : Option ℕ) : Call Unit :=
  ⟨site, bootCatalog, "er-server 0.1.0", 0, fun i => toString i, some 1, stop⟩

/-- Stores with nothing in them. -/
def freshStores : Site Unit → StoreState := fun _ => ⟨∅, [], []⟩

/-- The control database, a lake call that stops before its commit, and its repetition. -/
theorem freshStores_ledger_complete :
    AfterEach (reconcileStep [] fun _ _ => "v1")
      (fun _ world => ∀ site, LedgerComplete (world site)) freshStores
        [bootCall .control none, bootCall (.lake ()) (some 0), bootCall (.lake ()) none] ∧
      ∀ (world : Site Unit → StoreState) (call : Call Unit),
        (call.plan [] (world call.site)).breaking ≠ [] →
          reconcileStep [] (fun _ _ => "v1") world call = world := by
  have hcontrol : ∀ entity ∈ bootCatalog.forStore .postgres, Renders .postgres entity := by
    decide
  have hlake : ∀ entity ∈ (bootCatalog.without .duckdb []).forStore .duckdb,
      Renders .duckdb entity := by decide
  have hcontrolApart : bootCatalog.CompanionsApart .postgres := by
    unfold Catalog.CompanionsApart
    decide
  have hlakeApart : (bootCatalog.without .duckdb []).CompanionsApart .duckdb := by
    unfold Catalog.CompanionsApart
    decide
  have hledger : ∀ name ∈ latestColumns .duckdb ++ recordColumns .duckdb,
      ∃ entity ∈ (bootCatalog.without .duckdb []).forStore .duckdb,
        entity.relation = ledgerRelation ∧ name ∈ entity.columnNames := by decide
  apply ledger_complete [] (fun _ _ => "v1") (fun _ => ⟨rfl, rfl⟩)
  refine ⟨?_, ?_, ?_, trivial⟩
  · exact fun _ => ⟨⟨hcontrolApart, fun entity hentity _ => hcontrol entity hentity⟩,
      (fun habsurd => nomatch habsurd), (fun habsurd => nomatch habsurd)⟩
  · exact fun _ => ⟨⟨hlakeApart, fun entity hentity _ => hlake entity hentity⟩,
      fun _ _ count hcount => Or.inl (Option.some.inj hcount).symm,
      fun _ _ name hname => Or.inr (hledger name hname)⟩
  · exact fun _ => ⟨⟨hlakeApart, fun entity hentity _ => hlake entity hentity⟩,
      (fun _ _ count hcount => nomatch hcount),
      fun _ _ name hname => Or.inr (hledger name hname)⟩

/-- The stores after a lake call that stops right after its commit. -/
def stoppedStores : Site Unit → StoreState :=
  reconcileStep [] (fun _ _ => "v1") freshStores (bootCall (.lake ()) (some 1))

/-- The lake once a later call has run to its end. -/
def interruptedLake : StoreState :=
  reconcileStep [] (fun _ _ => "v1") stoppedStores (bootCall (.lake ()) none) (.lake ())

/-- The later call completes and finds nothing to apply. The statements of the stopped one took
effect, and none of them has a row. -/
theorem interruptedLake_not_complete :
    ((bootCall (.lake ()) none).reconcile [] (fun _ _ => "v1") (stoppedStores (.lake ()))).2 =
        .ok ⟨"v1", [], [], false⟩ ∧
      interruptedLake.ledger.map (·.kind) = ["verified"] ∧ ¬ LedgerComplete interruptedLake := by
  have hledger : interruptedLake.ledger.map (·.kind) = ["verified"] := by decide +kernel
  refine ⟨by decide +kernel, hledger, ?_⟩
  intro hcomplete
  have hlive : interruptedLake.live["raw_records"]? = some [⟨"id", "VARCHAR", false⟩] := by
    decide +kernel
  have hrecorded := hcomplete.recorded ⟨"lake.main.raw_records",
    .createTable "raw_records" [⟨"id", "VARCHAR", false⟩] none⟩ (by decide +kernel)
    ⟨⟨[], hlive⟩, fun _ habsurd => nomatch habsurd⟩
  obtain ⟨row, hrow, hkind, _⟩ := hrecorded
  have hverified : row.kind ∈ interruptedLake.ledger.map (·.kind) := List.mem_map_of_mem hrow
  rw [hledger, List.mem_singleton, hkind] at hverified
  exact absurd hverified (by decide)

end EntityResolution.Schema
