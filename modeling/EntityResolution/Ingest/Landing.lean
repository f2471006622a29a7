/-
# Landing a full refresh

A delivery of a source appends one row for each record to `raw_records`; a full refresh then
appends a tombstone for each key of the source that has rows under other batches and none under
this one. The table only grows, so a call that is cut off leaves a beginning of its rows, and the
repetition appends after it.

The omitted keys are told from the delivered ones by the batch id alone. A key that the delivery
omits but that has a row under the same batch id from before is taken for a delivered one and keeps
its latest version.
-/

import EntityResolution.Foundations.Versions
import EntityResolution.Ingest.ContentHash

namespace EntityResolution.Ingest

open EntityResolution.Collections EntityResolution.Versions

/-- A row of `raw_records`. -/
structure RawRecord where
  id : String
  sourceSystem : String
  sourceRecordId : String
  /-- The delivered row as a JSON object; `none` on a tombstone. -/
  payload : Option (BTreeMap String String)
  contentHash : String
  isDeleted : Bool
  deletedAt : Option ℤ
  ingestBatchId : String
  ingestedAt : ℤ
  createdAt : ℤ
  updatedAt : ℤ

/-- What versions of a key are ordered by: `(ingested_at, ingest_batch_id)`. -/
def RawRecord.version (row : RawRecord) : ℤ ×ₗ String := toLex (row.ingestedAt, row.ingestBatchId)

/-- The versions of a key of a source. -/
def versions (table : List RawRecord) (source key : String) : List RawRecord :=
  table.filter fun row => row.sourceSystem = source ∧ row.sourceRecordId = key

/-- The content hash of a live key; `none` when its latest row is a tombstone or it has none. -/
def liveHash (latest : Latest RawRecord.version) (table : List RawRecord) (source key : String) :
    Option String :=
  (latest.pick (versions table source key)).bind fun row =>
    if row.isDeleted then none else some row.contentHash

/-- The CSV reader: the header line, and the lines after it. -/
structure CsvReader where
  headers : String → Except String (List String)
  records : String → List (Except String (List String))

/-- What a call is given, except for the time. -/
structure Delivery where
  source : String
  spec : SourceSpec
  csvText : String
  ingestBatchId : String

/-- `natural_id`. -/
def Digests.naturalId (digests : Digests) (relation : String) (parts : List String) : String :=
  digests.sha256Hex (":".intercalate (relation :: parts))

/-- The payload of a record: its fields under their headers, without `persona_id`. -/
def payloadOf (headers record : List String) : DeliveredRow :=
  (headers.zip record).foldl (fun payload field =>
    if field.1 = "persona_id" then payload else payload.insert field.1 (some field.2)) ∅

namespace Delivery

variable (digests : Digests) (reader : CsvReader) (delivery : Delivery)

/-- A line of the delivery under its id. -/
def record (headers line : List String) : Except String (String × DeliveredRow) :=
  let payload := payloadOf headers line
  match payload[delivery.spec.recordIdColumn]?.join with
  | none => .error ("row missing record-id column " ++ delivery.spec.recordIdColumn)
  | some sourceRecordId => .ok (sourceRecordId, payload)

/-- The records of the delivery, or the first failure. -/
def records : Except String (List (String × DeliveredRow)) := do
  let headers ← reader.headers delivery.csvText
  (reader.records delivery.csvText).mapM fun line => do
    let line ← line
    delivery.record headers line

/-- The row that is appended for a record. -/
def landedRow (ingestedAt : ℤ) (record : String × DeliveredRow) : RawRecord :=
  let contentHash := digests.rowContentHash record.2 delivery.spec
  { id := digests.naturalId "raw_records"
      [delivery.source, record.1, contentHash, delivery.ingestBatchId]
    sourceSystem := delivery.source
    sourceRecordId := record.1
    payload := some (record.2.map fun _ value => value.getD "")
    contentHash
    isDeleted := false
    deletedAt := none
    ingestBatchId := delivery.ingestBatchId
    ingestedAt
    createdAt := ingestedAt
    updatedAt := ingestedAt }

/-- `land_base_delivery`: the number of rows landed, and the table after. -/
def landBaseDelivery (table : List RawRecord) (ingestedAt : ℤ) :
    Except String (ℕ × List RawRecord) := do
  let records ← delivery.records reader
  let rows := records.map (delivery.landedRow digests ingestedAt)
  return (rows.length, table ++ rows)

/-- `omitted_keys_live`. -/
def omittedKeysLive (table : List RawRecord) : List String :=
  let batchKeys := (table.filter fun row =>
    row.sourceSystem = delivery.source ∧ row.ingestBatchId = delivery.ingestBatchId).map
      RawRecord.sourceRecordId
  (((table.filter fun row =>
    row.sourceSystem = delivery.source ∧ row.ingestBatchId ≠ delivery.ingestBatchId ∧
      row.sourceRecordId ∉ batchKeys).map RawRecord.sourceRecordId).dedup).insertionSort (· ≤ ·)

/-- The tombstone of an omitted key. -/
def tombstone (ingestedAt : ℤ) (sourceRecordId : String) : RawRecord where
  id := digests.naturalId "raw_records"
    [delivery.source, sourceRecordId, tombstoneContentHash, delivery.ingestBatchId]
  sourceSystem := delivery.source
  sourceRecordId
  payload := none
  contentHash := tombstoneContentHash
  isDeleted := true
  deletedAt := some ingestedAt
  ingestBatchId := delivery.ingestBatchId
  ingestedAt
  createdAt := ingestedAt
  updatedAt := ingestedAt

/-- `land_full_refresh`. -/
def landFullRefresh (table : List RawRecord) (ingestedAt : ℤ) :
    Except String (ℕ × List RawRecord) := do
  let (landed, table) ← delivery.landBaseDelivery digests reader table ingestedAt
  let omitted := delivery.omittedKeysLive table
  return (landed, table ++ omitted.map (delivery.tombstone digests ingestedAt))

/-- Calls at the given times, each cut off after the given number of appended rows. -/
def cutOff (table : List RawRecord) : List (ℕ × ℤ) → Except String (List RawRecord)
  | [] => .ok table
  | (appended, ingestedAt) :: later => do
      let (_, full) ← delivery.landFullRefresh digests reader table ingestedAt
      cutOff (full.take (table.length + appended)) later

/-- The delivered ids with the delivered content hashes. -/
def delivered (records : List (String × DeliveredRow)) : List (String × String) :=
  records.map fun record => (record.1, digests.rowContentHash record.2 delivery.spec)

end Delivery

theorem mem_versions {table : List RawRecord} {source key : String} {row : RawRecord} :
    row ∈ versions table source key ↔
      row ∈ table ∧ row.sourceSystem = source ∧ row.sourceRecordId = key := by
  rw [versions, List.mem_filter, decide_eq_true_eq]

theorem versions_append (table added : List RawRecord) (source key : String) :
    versions (table ++ added) source key = versions table source key ++ versions added source key :=
  List.filter_append _ _

namespace Delivery

variable {digests : Digests} {reader : CsvReader} {delivery : Delivery}

/-- The source has a row of the key under the batch of the delivery. -/
def InBatch (delivery : Delivery) (table : List RawRecord) (key : String) : Prop :=
  ∃ row ∈ table, row.sourceSystem = delivery.source ∧ row.sourceRecordId = key ∧
    row.ingestBatchId = delivery.ingestBatchId

theorem mem_omittedKeysLive {table : List RawRecord} {key : String} :
    key ∈ delivery.omittedKeysLive table ↔
      (∃ row ∈ table, row.sourceSystem = delivery.source ∧ row.sourceRecordId = key ∧
        row.ingestBatchId ≠ delivery.ingestBatchId) ∧ ¬ delivery.InBatch table key := by
  rw [omittedKeysLive, List.mem_insertionSort, List.mem_dedup, List.mem_map]
  simp only [List.mem_filter, List.mem_map, decide_eq_true_eq, InBatch]
  apply Iff.intro
  · rintro ⟨row, ⟨hrow, hsource, hbatch, hnone⟩, rfl⟩
    refine ⟨⟨row, hrow, hsource, rfl, hbatch⟩, ?_⟩
    rintro ⟨other, hother, hotherSource, hkey, hotherBatch⟩
    exact hnone ⟨other, ⟨hother, hotherSource, hotherBatch⟩, hkey⟩
  · rintro ⟨⟨row, hrow, hsource, rfl, hbatch⟩, hnone⟩
    refine ⟨row, ⟨hrow, hsource, hbatch, ?_⟩, rfl⟩
    rintro ⟨other, ⟨hother, hotherSource, hotherBatch⟩, hkey⟩
    exact hnone ⟨other, hother, hotherSource, hkey, hotherBatch⟩

/-- The rows of a complete call. -/
def appendedRows (digests : Digests) (delivery : Delivery) (table : List RawRecord)
    (records : List (String × DeliveredRow)) (ingestedAt : ℤ) : List RawRecord :=
  let landed := records.map (delivery.landedRow digests ingestedAt)
  landed ++ (delivery.omittedKeysLive (table ++ landed)).map
    (delivery.tombstone digests ingestedAt)

theorem landFullRefresh_eq {table : List RawRecord} {records : List (String × DeliveredRow)}
    (hread : delivery.records reader = .ok records) (ingestedAt : ℤ) :
    delivery.landFullRefresh digests reader table ingestedAt =
      .ok (records.length,
        table ++ appendedRows digests delivery table records ingestedAt) := by
  rw [landFullRefresh, landBaseDelivery, hread]
  simp only [appendedRows, bind, Except.bind, pure, Except.pure, List.length_map,
    List.append_assoc]

/-- What is known of the rows that calls of a delivery appended: each is a delivered row, or the
tombstone of a key that is neither delivered nor in the batch before the first call. -/
structure AppendedBy (digests : Digests) (delivery : Delivery) (table : List RawRecord)
    (records : List (String × DeliveredRow)) (times : List ℤ) (row : RawRecord) : Prop where
  source : row.sourceSystem = delivery.source
  batch : row.ingestBatchId = delivery.ingestBatchId
  time : row.ingestedAt ∈ times
  kind : (row.isDeleted = false ∧
      (row.sourceRecordId, row.contentHash) ∈ delivery.delivered digests records) ∨
    (row.isDeleted = true ∧ row.sourceRecordId ∉ records.map Prod.fst ∧
      ¬ delivery.InBatch table row.sourceRecordId)

theorem AppendedBy.mono {table : List RawRecord} {records : List (String × DeliveredRow)}
    {times later : List ℤ} {row : RawRecord} (hrow : AppendedBy digests delivery table records
      times row) (hsub : times ⊆ later) : AppendedBy digests delivery table records later row :=
  ⟨hrow.source, hrow.batch, hsub hrow.time, hrow.kind⟩

theorem InBatch.mono {table added : List RawRecord} {key : String}
    (hkey : delivery.InBatch table key) : delivery.InBatch (table ++ added) key := by
  obtain ⟨row, hrow, hspec⟩ := hkey
  exact ⟨row, List.mem_append_left _ hrow, hspec⟩

theorem exists_landed (digests : Digests) (delivery : Delivery) (ingestedAt : ℤ)
    {records : List (String × DeliveredRow)} {key : String} (hkey : key ∈ records.map Prod.fst) :
    ∃ row ∈ records.map (delivery.landedRow digests ingestedAt),
      row.sourceSystem = delivery.source ∧ row.sourceRecordId = key ∧
        row.ingestBatchId = delivery.ingestBatchId ∧ row.ingestedAt = ingestedAt := by
  obtain ⟨record, hrecord, rfl⟩ := List.mem_map.mp hkey
  exact ⟨_, List.mem_map_of_mem hrecord, rfl, rfl, rfl, rfl⟩

/-- A call appends delivered rows and tombstones of keys that are neither delivered nor in the
batch. -/
theorem appendedBy_of_mem {table added : List RawRecord} {records : List (String × DeliveredRow)}
    {ingestedAt : ℤ} {row : RawRecord}
    (hrow : row ∈ appendedRows digests delivery (table ++ added) records ingestedAt) :
    AppendedBy digests delivery table records [ingestedAt] row := by
  rcases List.mem_append.mp hrow with hlanded | htombstone
  · obtain ⟨record, hrecord, rfl⟩ := List.mem_map.mp hlanded
    exact ⟨rfl, rfl, List.mem_singleton_self _, Or.inl ⟨rfl, List.mem_map_of_mem hrecord⟩⟩
  · obtain ⟨key, hkey, rfl⟩ := List.mem_map.mp htombstone
    have hnone := (mem_omittedKeysLive.mp hkey).2
    refine ⟨rfl, rfl, List.mem_singleton_self _, Or.inr ⟨rfl, ?_, ?_⟩⟩
    · intro hdelivered
      rcases exists_landed digests delivery ingestedAt hdelivered with
        ⟨landed, hlanded, hsource, hid, hbatch, _⟩
      exact hnone ⟨landed, List.mem_append_right _ hlanded, hsource, hid, hbatch⟩
    · exact fun hbatch => hnone hbatch.mono.mono

/-- Calls that are cut off append rows of the delivery to the table. -/
theorem cutOff_spec {table : List RawRecord} {records : List (String × DeliveredRow)}
    (hread : delivery.records reader = .ok records) {cuts : List (ℕ × ℤ)}
    {added : List RawRecord} {times : List ℤ} {reached : List RawRecord}
    (hadded : ∀ row ∈ added, AppendedBy digests delivery table records times row)
    (hcuts : delivery.cutOff digests reader (table ++ added) cuts = .ok reached) :
    ∃ rows, reached = table ++ rows ∧
      ∀ row ∈ rows, AppendedBy digests delivery table records (times ++ cuts.map Prod.snd) row := by
  induction cuts generalizing added times with
  | nil =>
      cases hcuts
      refine ⟨added, rfl, fun row hrow => ?_⟩
      exact (hadded row hrow).mono (List.subset_append_left _ _)
  | cons cut later ih =>
      rw [cutOff, landFullRefresh_eq hread] at hcuts
      have hnext : delivery.cutOff digests reader (table ++ (added ++
          (appendedRows digests delivery (table ++ added) records cut.2).take cut.1)) later =
            .ok reached := by
        rw [← List.append_assoc, ← List.take_length_add_append]
        exact hcuts
      have hstep : ∀ row ∈ added ++
          (appendedRows digests delivery (table ++ added) records cut.2).take cut.1,
          AppendedBy digests delivery table records (times ++ [cut.2]) row := by
        intro row hrow
        rcases List.mem_append.mp hrow with hold | hnew
        · exact (hadded row hold).mono (List.subset_append_left _ _)
        · exact (appendedBy_of_mem (List.mem_of_mem_take hnew)).mono
            (List.subset_append_right _ _)
      obtain ⟨rows, hrows, hspec⟩ := ih hstep hnext
      refine ⟨rows, hrows, fun row hrow => ?_⟩
      rw [List.map_cons, ← List.singleton_append, ← List.append_assoc]
      exact hspec row hrow

end Delivery

/-! ## What a refresh leaves live -/

theorem liveHash_append_of_none (latest : Latest RawRecord.version) {table added : List RawRecord}
    {source key : String}
    (hnone : ∀ row ∈ added, ¬ (row.sourceSystem = source ∧ row.sourceRecordId = key)) :
    liveHash latest (table ++ added) source key = liveHash latest table source key := by
  have hempty : versions added source key = [] := by
    apply List.eq_nil_iff_forall_not_mem.mpr
    intro row hrow
    exact hnone row (mem_versions.mp hrow).1 (mem_versions.mp hrow).2
  rw [liveHash, liveHash, versions_append, hempty, List.append_nil]

/-- When an appended row of the key is later than its older rows, an appended row decides. -/
theorem liveHash_append_of_later (latest : Latest RawRecord.version)
    {table added : List RawRecord} {source key : String} {row : RawRecord} (hrow : row ∈ added)
    (hsource : row.sourceSystem = source) (hkey : row.sourceRecordId = key)
    (hlater : ∀ other ∈ table, other.sourceSystem = source → other.ingestedAt < row.ingestedAt) :
    ∃ picked ∈ added, picked.sourceRecordId = key ∧
      liveHash latest (table ++ added) source key =
        if picked.isDeleted then none else some picked.contentHash := by
  have hver : row ∈ versions added source key := mem_versions.mpr ⟨hrow, hsource, hkey⟩
  have hover : ∀ other ∈ versions table source key, other.version < row.version := by
    intro other hother
    obtain ⟨hmem, hotherSource, _⟩ := mem_versions.mp hother
    exact Prod.Lex.toLex_lt_toLex.mpr (Or.inl (hlater other hmem hotherSource))
  obtain ⟨picked, hpicked, hpick⟩ := latest.pick_append_mem hver hover
  obtain ⟨hmem, _, hid⟩ := mem_versions.mp hpicked
  refine ⟨picked, hmem, hid, ?_⟩
  rw [liveHash, versions_append, hpick, Option.bind_some]

namespace Delivery

variable {digests : Digests} {reader : CsvReader} {delivery : Delivery}

/-- What calls of a delivery, the last one complete, leave behind the table. -/
structure Refreshed (digests : Digests) (delivery : Delivery) (table : List RawRecord)
    (records : List (String × DeliveredRow)) (times : List ℤ) (rows : List RawRecord) : Prop where
  appended : ∀ row ∈ rows, AppendedBy digests delivery table records times row
  landed : ∀ key ∈ records.map Prod.fst, ∃ row ∈ rows,
    row.sourceSystem = delivery.source ∧ row.sourceRecordId = key
  entombed : ∀ key ∉ records.map Prod.fst, versions table delivery.source key ≠ [] →
    ¬ delivery.InBatch table key → ∃ row ∈ rows,
      row.sourceSystem = delivery.source ∧ row.sourceRecordId = key

/-- A complete call after any number of cut ones refreshes the table. -/
theorem refreshed_of_landFullRefresh {table : List RawRecord}
    {records : List (String × DeliveredRow)} (hread : delivery.records reader = .ok records)
    {cuts : List (ℕ × ℤ)} {reached : List RawRecord}
    (hcuts : delivery.cutOff digests reader table cuts = .ok reached) {ingestedAt : ℤ} {landed : ℕ}
    {after : List RawRecord}
    (hland : delivery.landFullRefresh digests reader reached ingestedAt = .ok (landed, after)) :
    ∃ rows, after = table ++ rows ∧
      Refreshed digests delivery table records (cuts.map Prod.snd ++ [ingestedAt]) rows := by
  have hstart : delivery.cutOff digests reader (table ++ []) cuts = .ok reached := by
    rw [List.append_nil]
    exact hcuts
  have hempty : ∀ row ∈ ([] : List RawRecord),
      AppendedBy digests delivery table records [] row := List.forall_mem_nil _
  obtain ⟨added, rfl, hadded⟩ := cutOff_spec hread hempty hstart
  rw [landFullRefresh_eq hread] at hland
  have hafter := (Prod.mk.inj (Except.ok.inj hland)).2
  refine ⟨added ++ appendedRows digests delivery (table ++ added) records ingestedAt,
    hafter.symm.trans (List.append_assoc _ _ _), ?_, ?_, ?_⟩
  · intro row hrow
    rcases List.mem_append.mp hrow with hold | hnew
    · exact (hadded row hold).mono (List.subset_append_left _ _)
    · exact (appendedBy_of_mem hnew).mono (List.subset_append_right _ _)
  · intro key hkey
    obtain ⟨row, hrow, hsource, hid, _⟩ := exists_landed digests delivery ingestedAt hkey
    exact ⟨row, List.mem_append_right _ (List.mem_append_left _ hrow), hsource, hid⟩
  · intro key hkey hversions hbatch
    -- the key has its tombstone from a cut call, or the complete one appends it
    by_cases hin : delivery.InBatch
        (table ++ added ++ records.map (delivery.landedRow digests ingestedAt)) key
    · obtain ⟨row, hrow, hsource, hid, hrowBatch⟩ := hin
      rcases List.mem_append.mp hrow with hbefore | hlanded
      · rcases List.mem_append.mp hbefore with htable | hcut
        · exact absurd ⟨row, htable, hsource, hid, hrowBatch⟩ hbatch
        · exact ⟨row, List.mem_append_left _ hcut, hsource, hid⟩
      · obtain ⟨record, hrecord, rfl⟩ := List.mem_map.mp hlanded
        exact absurd (hid ▸ List.mem_map_of_mem hrecord) hkey
    · obtain ⟨old, hold⟩ := List.exists_mem_of_ne_nil _ hversions
      obtain ⟨hmem, hsource, hid⟩ := mem_versions.mp hold
      have homitted := mem_omittedKeysLive.mpr
        ⟨⟨old, List.mem_append_left _ (List.mem_append_left _ hmem), hsource, hid,
          fun hsame => hbatch ⟨old, hmem, hsource, hid, hsame⟩⟩, hin⟩
      exact ⟨_, List.mem_append_right _ (List.mem_append_right _ (List.mem_map_of_mem homitted)),
        rfl, rfl⟩

namespace Refreshed

variable {table : List RawRecord} {records : List (String × DeliveredRow)} {times : List ℤ}
  {rows : List RawRecord} (latest : Latest RawRecord.version)

/-- No other source is touched. -/
theorem liveHash_other (hrefreshed : Refreshed digests delivery table records times rows)
    {source : String} (hsource : source ≠ delivery.source) (key : String) :
    liveHash latest (table ++ rows) source key = liveHash latest table source key := by
  apply liveHash_append_of_none
  intro row hrow hspec
  exact hsource (hspec.1.symm.trans (hrefreshed.appended row hrow).source)

/-- A delivered key is live with its delivered hash. -/
theorem liveHash_delivered (hrefreshed : Refreshed digests delivery table records times rows)
    (hdistinct : (records.map Prod.fst).Nodup)
    (hlater : ∀ row ∈ table, row.sourceSystem = delivery.source → ∀ time ∈ times,
      row.ingestedAt < time)
    {key hash : String} (hkey : (key, hash) ∈ delivery.delivered digests records) :
    liveHash latest (table ++ rows) delivery.source key = some hash := by
  have hid : key ∈ records.map Prod.fst := by
    obtain ⟨record, hrecord, hpair⟩ := List.mem_map.mp hkey
    exact List.mem_map.mpr ⟨record, hrecord, congrArg Prod.fst hpair⟩
  obtain ⟨row, hrow, hsource, hrowKey⟩ := hrefreshed.landed key hid
  rcases liveHash_append_of_later latest hrow hsource hrowKey fun other hother hotherSource =>
    hlater other hother hotherSource _ (hrefreshed.appended row hrow).time with
    ⟨picked, hpicked, hpickedKey, hlive⟩
  rcases (hrefreshed.appended picked hpicked).kind with ⟨hpresent, hpair⟩ | ⟨_, habsent, _⟩
  · have hkeys : ((delivery.delivered digests records).map Prod.fst).Nodup := by
      rw [delivered, List.map_map]
      exact hdistinct
    rw [hpickedKey] at hpair
    have hsame := (Prod.mk.inj (List.inj_on_of_nodup_map hkeys hkey hpair rfl)).2
    rw [hlive, hpresent, hsame]
    rfl
  · rw [hpickedKey] at habsent
    exact absurd hid habsent

/-- A key that is neither delivered nor in the batch from before is not live. -/
theorem liveHash_omitted (hrefreshed : Refreshed digests delivery table records times rows)
    (hlater : ∀ row ∈ table, row.sourceSystem = delivery.source → ∀ time ∈ times,
      row.ingestedAt < time)
    {key : String} (hkey : key ∉ records.map Prod.fst) (hbatch : ¬ delivery.InBatch table key) :
    liveHash latest (table ++ rows) delivery.source key = none := by
  by_cases hexists : ∃ row ∈ rows, row.sourceSystem = delivery.source ∧ row.sourceRecordId = key
  · obtain ⟨row, hrow, hsource, hrowKey⟩ := hexists
    rcases liveHash_append_of_later latest hrow hsource hrowKey fun other hother hotherSource =>
      hlater other hother hotherSource _ (hrefreshed.appended row hrow).time with
      ⟨picked, hpicked, hpickedKey, hlive⟩
    rcases (hrefreshed.appended picked hpicked).kind with ⟨_, hpair⟩ | ⟨hdeleted, _⟩
    · obtain ⟨record, hrecord, hsame⟩ := List.mem_map.mp hpair
      have hid := congrArg Prod.fst hsame
      exact absurd (List.mem_map.mpr ⟨record, hrecord, hid.trans hpickedKey⟩) hkey
    · rw [hlive, hdeleted]
      rfl
  · have hnone : versions table delivery.source key = [] := by
      by_contra hversions
      exact hexists (hrefreshed.entombed key hkey hversions hbatch)
    rw [liveHash_append_of_none latest fun row hrow hspec => hexists ⟨row, hrow, hspec⟩, liveHash,
      hnone, Latest.pick_nil]
    rfl

/-- A key that is not delivered but in the batch from before keeps its latest version. -/
theorem liveHash_inBatch (hrefreshed : Refreshed digests delivery table records times rows)
    {key : String} (hkey : key ∉ records.map Prod.fst) (hbatch : delivery.InBatch table key) :
    liveHash latest (table ++ rows) delivery.source key =
      liveHash latest table delivery.source key := by
  apply liveHash_append_of_none
  rintro row hrow ⟨_, rfl⟩
  rcases (hrefreshed.appended row hrow).kind with ⟨_, hpair⟩ | ⟨_, _, hnone⟩
  · obtain ⟨record, hrecord, hsame⟩ := List.mem_map.mp hpair
    exact hkey (List.mem_map.mpr ⟨record, hrecord, congrArg Prod.fst hsame⟩)
  · exact hnone hbatch

end Refreshed

end Delivery

/-- After a complete full refresh, and any number of cut ones before it, the live keys of the source
are exactly the delivered ids with their hashes, and no other source is touched, exactly when no
live key that the delivery omits was in the batch before. -/
theorem land_full_refresh_iff (digests : Digests) (reader : CsvReader)
    (latest : Latest RawRecord.version) (delivery : Delivery) (table reached after : List RawRecord)
    (records : List (String × DeliveredRow)) (cuts : List (ℕ × ℤ)) (ingestedAt : ℤ) (landed : ℕ)
    (hread : delivery.records reader = .ok records) (hdistinct : (records.map Prod.fst).Nodup)
    (hlater : ∀ row ∈ table, row.sourceSystem = delivery.source →
      ∀ time ∈ cuts.map Prod.snd ++ [ingestedAt], row.ingestedAt < time)
    (hcuts : delivery.cutOff digests reader table cuts = .ok reached)
    (hland : delivery.landFullRefresh digests reader reached ingestedAt = .ok (landed, after)) :
    ((∀ key hash, liveHash latest after delivery.source key = some hash ↔
          (key, hash) ∈ delivery.delivered digests records) ∧
        ∀ source, source ≠ delivery.source → ∀ key,
          liveHash latest after source key = liveHash latest table source key) ↔
      ∀ key, key ∉ records.map Prod.fst → delivery.InBatch table key →
        liveHash latest table delivery.source key = none := by
  obtain ⟨rows, rfl, hrefreshed⟩ := Delivery.refreshed_of_landFullRefresh hread hcuts hland
  have hmem : ∀ {key hash}, (key, hash) ∈ delivery.delivered digests records →
      key ∈ records.map Prod.fst := by
    intro key hash hpair
    obtain ⟨record, hrecord, hsame⟩ := List.mem_map.mp hpair
    exact List.mem_map.mpr ⟨record, hrecord, congrArg Prod.fst hsame⟩
  apply Iff.intro
  · rintro ⟨hexact, _⟩ key hkey hbatch
    rw [← hrefreshed.liveHash_inBatch latest hkey hbatch]
    cases hlive : liveHash latest (table ++ rows) delivery.source key with
    | none => rfl
    | some hash => exact absurd (hmem ((hexact key hash).mp hlive)) hkey
  · intro hcondition
    apply And.intro _ fun source hsource key => hrefreshed.liveHash_other latest hsource key
    intro key hash
    apply Iff.intro
    · intro hlive
      have hdelivered : key ∈ records.map Prod.fst := by
        by_contra hkey
        by_cases hbatch : delivery.InBatch table key
        · rw [hrefreshed.liveHash_inBatch latest hkey hbatch, hcondition key hkey hbatch] at hlive
          cases hlive
        · rw [hrefreshed.liveHash_omitted latest hlater hkey hbatch] at hlive
          cases hlive
      obtain ⟨record, hrecord, rfl⟩ := List.mem_map.mp hdelivered
      have hpair : (record.1, digests.rowContentHash record.2 delivery.spec) ∈
          delivery.delivered digests records := List.mem_map_of_mem hrecord
      rw [hrefreshed.liveHash_delivered latest hdistinct hlater hpair] at hlive
      rw [← Option.some.inj hlive]
      exact hpair
    · exact hrefreshed.liveHash_delivered latest hdistinct hlater

/-- A file of one record, `C002`, as the reader yields it. -/
def CsvReader.oneRecord : CsvReader where
  headers _ := .ok ["id", "first", "last"]
  records _ := [.ok ["C002", "ada", "lovelace"]]

/-- The delivery of the file under a batch id. -/
def oneRecord (ingestBatchId : String) : Delivery where
  source := "crm"
  spec := people
  csvText := "id,first,last\nC002,ada,lovelace\n"
  ingestBatchId

/-- The record of the file. -/
def secondRecord : String × DeliveredRow :=
  ("C002", payloadOf ["id", "first", "last"] ["C002", "ada", "lovelace"])

/-- The table after an earlier delivery of `C001` alone. -/
def firstLanded : List RawRecord :=
  [(oneRecord "er-batch").landedRow Digests.known 1
    ("C001", payloadOf ["id", "first", "last"] ["C001", "grace", "hopper"])]

theorem records_oneRecord (ingestBatchId : String) :
    (oneRecord ingestBatchId).records CsvReader.oneRecord = .ok [secondRecord] := by
  have hid : (payloadOf ["id", "first", "last"]
      ["C002", "ada", "lovelace"])[(oneRecord ingestBatchId).spec.recordIdColumn]?.join =
        some "C002" := by
    change secondRecord.2["id"]?.join = some "C002"
    decide +kernel
  have hrecord : (oneRecord ingestBatchId).record ["id", "first", "last"]
      ["C002", "ada", "lovelace"] = .ok secondRecord := by
    simp only [Delivery.record, hid]
    rfl
  change (oneRecord ingestBatchId).record _ _ >>= (fun record => pure [record]) = _
  rw [hrecord]
  rfl

/-- Repeated after a cut under a batch id of its own, the refresh leaves only `C002` live. -/
theorem land_full_refresh_iff_of_new_batch :
    (∀ key hash,
        liveHash (Latest.first _)
            (firstLanded ++ ((oneRecord "b2").appendedRows Digests.known firstLanded
                [secondRecord] 2).take 1 ++
              (oneRecord "b2").appendedRows Digests.known (firstLanded ++
                ((oneRecord "b2").appendedRows Digests.known firstLanded [secondRecord] 2).take 1)
                [secondRecord] 3) "crm" key = some hash ↔
          (key, hash) ∈ (oneRecord "b2").delivered Digests.known [secondRecord]) ∧
      ∀ source, source ≠ "crm" → ∀ key,
        liveHash (Latest.first _)
            (firstLanded ++ ((oneRecord "b2").appendedRows Digests.known firstLanded
                [secondRecord] 2).take 1 ++
              (oneRecord "b2").appendedRows Digests.known (firstLanded ++
                ((oneRecord "b2").appendedRows Digests.known firstLanded [secondRecord] 2).take 1)
                [secondRecord] 3) source key =
          liveHash (Latest.first _) firstLanded source key := by
  have hread := records_oneRecord "b2"
  apply (land_full_refresh_iff Digests.known CsvReader.oneRecord (Latest.first _) (oneRecord "b2")
    firstLanded _ _ [secondRecord] [(1, 2)] 3 1 hread (List.nodup_singleton _) ?_ ?_
    (Delivery.landFullRefresh_eq hread 3)).mpr
  · rintro key _ ⟨row, hrow, _, _, hbatch⟩
    rw [List.mem_singleton.mp hrow] at hbatch
    exact absurd hbatch (by decide)
  · rintro row hrow _ time htime
    rw [List.mem_singleton.mp hrow]
    fin_cases htime <;> decide
  · rw [Delivery.cutOff, Delivery.landFullRefresh_eq hread]
    exact congrArg Except.ok (List.take_length_add_append _)

/-- Under the batch id of the earlier delivery, which is the default of both, the omitted `C001`
stays live. -/
theorem same_batch_keeps_omitted_key :
    (oneRecord "er-batch").records CsvReader.oneRecord = .ok [secondRecord] ∧
      (oneRecord "er-batch").landFullRefresh Digests.known CsvReader.oneRecord firstLanded 2 =
        .ok (1, firstLanded ++
          (oneRecord "er-batch").appendedRows Digests.known firstLanded [secondRecord] 2) ∧
      (∃ hash, liveHash (Latest.first _) (firstLanded ++
          (oneRecord "er-batch").appendedRows Digests.known firstLanded [secondRecord] 2)
          "crm" "C001" = some hash ∧
        ("C001", hash) ∉ (oneRecord "er-batch").delivered Digests.known [secondRecord]) := by
  have hread := records_oneRecord "er-batch"
  refine ⟨hread, Delivery.landFullRefresh_eq hread 2,
    "36f55c3a42cfc9f7de47b33477ad077fd9a827d9efc566e8974d09a4598009b6", ?_, ?_⟩
  · decide +kernel
  · decide +kernel

end EntityResolution.Ingest
