/-
# The receipt of a delivery

A receipt compares the rows of a batch with the latest prior row of each key. Every row that is not
a tombstone falls in exactly one of four classes, so the four counts add up to the rows of the batch
that carry content. The table only grows and a repeated call appends its rows again, so rows are
keys only while the batch id is new to the source, the delivery is landed once and no record id
repeats.
-/

import EntityResolution.Foundations.OuterJoins
import EntityResolution.Ingest.Landing

namespace EntityResolution.Ingest

open EntityResolution.OuterJoins EntityResolution.Versions

/-- `BatchReceipt`. -/
structure BatchReceipt where
  new : ℕ
  changed : ℕ
  unchanged : ℕ
  tombstone : ℕ
  resurrected : ℕ

/-- The rows of a source that do not carry the batch id. -/
def priorRows (table : List RawRecord) (source ingestBatchId : String) : List RawRecord :=
  table.filter fun row => row.sourceSystem = source ∧ row.ingestBatchId ≠ ingestBatchId

/-- `this_batch`. -/
def thisBatch (table : List RawRecord) (source ingestBatchId : String) : List RawRecord :=
  table.filter fun row => row.sourceSystem = source ∧ row.ingestBatchId = ingestBatchId

/-- `batch_receipt`. The columns of `prior_latest` are NULL where the join finds no row. -/
def batchReceipt (latest : Latest RawRecord.version) (table : List RawRecord)
    (source ingestBatchId : String) : BatchReceipt :=
  let priorLatest :=
    latest.perKey RawRecord.sourceRecordId (priorRows table source ingestBatchId)
  let joined := leftJoin (thisBatch table source ingestBatchId) priorLatest
    fun tb p => tb.sourceRecordId = p.sourceRecordId
  { new := joined.countP fun (tb, p) =>
      tb.contentHash ≠ tombstoneContentHash ∧ p.isNone
    resurrected := joined.countP fun (tb, p) =>
      tb.contentHash ≠ tombstoneContentHash ∧ p.any (·.contentHash = tombstoneContentHash)
    unchanged := joined.countP fun (tb, p) =>
      tb.contentHash ≠ tombstoneContentHash ∧ p.any (·.contentHash = tb.contentHash)
    changed := joined.countP fun (tb, p) =>
      tb.contentHash ≠ tombstoneContentHash ∧ p.isSome ∧
        p.any (·.contentHash ≠ tombstoneContentHash) ∧ p.any (·.contentHash ≠ tb.contentHash)
    tombstone := joined.countP fun (tb, p) =>
      tb.contentHash = tombstoneContentHash ∧ p.isSome ∧
        p.any (·.contentHash ≠ tombstoneContentHash) }

/-- What a delivered key is next to the prior state of its source. -/
inductive KeyClass where
  | new
  | resurrected
  | unchanged
  | changed
deriving DecidableEq

/-- The class of a content next to the content of the prior row. -/
def KeyClass.of (prior : Option String) (contentHash : String) : KeyClass :=
  match prior with
  | none => .new
  | some p =>
      if p = tombstoneContentHash then .resurrected
      else if p = contentHash then .unchanged
      else .changed

/-- The count of a class. -/
def BatchReceipt.count (receipt : BatchReceipt) : KeyClass → ℕ
  | .new => receipt.new
  | .resurrected => receipt.resurrected
  | .unchanged => receipt.unchanged
  | .changed => receipt.changed

/-- The content of the latest row of a key outside the batch. -/
def priorHash (latest : Latest RawRecord.version) (table : List RawRecord)
    (source ingestBatchId key : String) : Option String :=
  (latest.pick ((priorRows table source ingestBatchId).filter fun row =>
    row.sourceRecordId = key)).map RawRecord.contentHash

/-- The class of a row of a batch. -/
def rowClass (latest : Latest RawRecord.version) (table : List RawRecord)
    (source ingestBatchId : String) (row : RawRecord) : KeyClass :=
  KeyClass.of (priorHash latest table source ingestBatchId row.sourceRecordId) row.contentHash

namespace Delivery

/-- The distinct delivered keys. -/
def keys (records : List (String × DeliveredRow)) : List String :=
  (records.map Prod.fst).dedup

/-- The class of a key by the content of its last record. -/
def keyClass (latest : Latest RawRecord.version) (digests : Digests) (delivery : Delivery)
    (table : List RawRecord) (records : List (String × DeliveredRow)) (key : String) :
    Option KeyClass :=
  (records.reverse.lookup key).map fun payload =>
    KeyClass.of (priorHash latest table delivery.source delivery.ingestBatchId key)
      (digests.rowContentHash payload delivery.spec)

/-- Calls of `land_base_delivery` at the given times. -/
def landAt (digests : Digests) (reader : CsvReader) (delivery : Delivery)
    (table : List RawRecord) : List ℤ → Except String (List RawRecord)
  | [] => .ok table
  | ingestedAt :: later => do
      let (_, full) ← delivery.landBaseDelivery digests reader table ingestedAt
      landAt digests reader delivery full later

end Delivery

/-- The receipt after some landings counts each delivered key once, under its class, and is the
receipt after the first landing. -/
structure CountsKeys (latest : Latest RawRecord.version) (digests : Digests) (delivery : Delivery)
    (records : List (String × DeliveredRow)) (table once after : List RawRecord) : Prop where
  count : ∀ c, (batchReceipt latest after delivery.source delivery.ingestBatchId).count c =
    (Delivery.keys records).countP fun key =>
      delivery.keyClass latest digests table records key = some c
  total :
    let receipt := batchReceipt latest after delivery.source delivery.ingestBatchId
    receipt.new + receipt.resurrected + receipt.unchanged + receipt.changed =
      (Delivery.keys records).length
  retried : ∀ c, (batchReceipt latest after delivery.source delivery.ingestBatchId).count c =
    (batchReceipt latest once delivery.source delivery.ingestBatchId).count c

variable {latest : Latest RawRecord.version} {table : List RawRecord}
  {source ingestBatchId : String}

theorem joined_eq :
    leftJoin (thisBatch table source ingestBatchId)
        (latest.perKey RawRecord.sourceRecordId (priorRows table source ingestBatchId))
        (fun tb p => tb.sourceRecordId = p.sourceRecordId) =
      (thisBatch table source ingestBatchId).map fun tb =>
        (tb, latest.pick ((priorRows table source ingestBatchId).filter fun row =>
          row.sourceRecordId = tb.sourceRecordId)) := by
  apply leftJoin_eq_map_toList
  intro tb _
  rw [← latest.filter_perKey]
  apply List.filter_congr
  intro row _
  exact decide_eq_decide.mpr eq_comm

theorem count_batchReceipt (c : KeyClass) :
    (batchReceipt latest table source ingestBatchId).count c =
      (thisBatch table source ingestBatchId).countP fun row =>
        row.contentHash ≠ tombstoneContentHash ∧
          rowClass latest table source ingestBatchId row = c := by
  cases c with
  | _ =>
    simp only [batchReceipt, BatchReceipt.count]
    rw [joined_eq, List.countP_map]
    apply List.countP_congr
    intro row _
    simp only [Function.comp_apply, decide_eq_true_eq]
    apply and_congr_right
    intro hcontent
    rw [rowClass, priorHash]
    cases latest.pick ((priorRows table source ingestBatchId).filter fun other =>
      other.sourceRecordId = row.sourceRecordId) with
    | none => simp [KeyClass.of]
    | some p =>
        have hother : tombstoneContentHash ≠ row.contentHash := Ne.symm hcontent
        simp only [KeyClass.of, Option.map_some]
        split_ifs <;> simp_all

theorem sum_countP_class {α : Type*} (rows : List α) (p : α → Prop) [DecidablePred p]
    (c : α → KeyClass) :
    rows.countP (fun row => p row ∧ c row = .new) +
        rows.countP (fun row => p row ∧ c row = .resurrected) +
        rows.countP (fun row => p row ∧ c row = .unchanged) +
        rows.countP (fun row => p row ∧ c row = .changed) =
      rows.countP p := by
  induction rows with
  | nil => rfl
  | cons row rows ih =>
      simp only [List.countP_cons]
      by_cases hrow : p row <;> cases hclass : c row <;> simp [hrow] at ih ⊢ <;> omega

theorem sum_batchReceipt (latest : Latest RawRecord.version) (table : List RawRecord)
    (source ingestBatchId : String) :
    let receipt := batchReceipt latest table source ingestBatchId
    receipt.new + receipt.resurrected + receipt.unchanged + receipt.changed =
      (thisBatch table source ingestBatchId).countP fun row =>
        row.contentHash ≠ tombstoneContentHash := by
  intro receipt
  rw [← sum_countP_class _ _ (rowClass latest table source ingestBatchId), ← count_batchReceipt,
    ← count_batchReceipt, ← count_batchReceipt, ← count_batchReceipt]
  rfl

namespace Delivery

variable {digests : Digests} {reader : CsvReader} {delivery : Delivery}
  {records : List (String × DeliveredRow)}

/-- The rows that calls at the given times append. -/
def landedRows (digests : Digests) (delivery : Delivery) (records : List (String × DeliveredRow))
    (times : List ℤ) : List RawRecord :=
  times.flatMap fun ingestedAt => records.map (delivery.landedRow digests ingestedAt)

theorem landAt_eq (hread : delivery.records reader = .ok records) (times : List ℤ) :
    delivery.landAt digests reader table times =
      .ok (table ++ delivery.landedRows digests records times) := by
  induction times generalizing table with
  | nil => rw [landedRows, List.flatMap_nil, List.append_nil, landAt]
  | cons ingestedAt later ih =>
      rw [landAt, landBaseDelivery, hread]
      show landAt digests reader delivery _ later = _
      rw [ih, List.append_assoc, landedRows, landedRows, List.flatMap_cons]

theorem mem_landedRows {times : List ℤ} {row : RawRecord}
    (hrow : row ∈ delivery.landedRows digests records times) :
    ∃ ingestedAt ∈ times, ∃ record ∈ records,
      delivery.landedRow digests ingestedAt record = row := by
  obtain ⟨ingestedAt, htime, hmem⟩ := List.mem_flatMap.mp hrow
  exact ⟨ingestedAt, htime, List.mem_map.mp hmem⟩

/-- Landed rows carry the batch id, so the prior state of the source stays. -/
theorem priorRows_append_landedRows (times : List ℤ) :
    priorRows (table ++ delivery.landedRows digests records times) delivery.source
        delivery.ingestBatchId =
      priorRows table delivery.source delivery.ingestBatchId := by
  have hnone : priorRows (delivery.landedRows digests records times) delivery.source
      delivery.ingestBatchId = [] := by
    apply List.filter_eq_nil_iff.mpr
    intro row hrow hprior
    obtain ⟨ingestedAt, _, record, _, rfl⟩ := mem_landedRows hrow
    exact (of_decide_eq_true hprior).2 rfl
  rw [priorRows, List.filter_append]
  show _ ++ priorRows _ _ _ = _
  rw [hnone, List.append_nil]
  rfl

theorem thisBatch_append_landedRows (times : List ℤ) :
    thisBatch (table ++ delivery.landedRows digests records times) delivery.source
        delivery.ingestBatchId =
      thisBatch table delivery.source delivery.ingestBatchId ++
        delivery.landedRows digests records times := by
  have hall : thisBatch (delivery.landedRows digests records times) delivery.source
      delivery.ingestBatchId = delivery.landedRows digests records times := by
    apply List.filter_eq_self.mpr
    intro row hrow
    obtain ⟨ingestedAt, _, record, _, rfl⟩ := mem_landedRows hrow
    exact decide_eq_true ⟨rfl, rfl⟩
  rw [thisBatch, List.filter_append]
  show _ ++ thisBatch _ _ _ = _
  rw [hall]
  rfl

/-- Every landed row carries content. -/
theorem countP_landedRows
    (hcontent : ∀ record ∈ records,
      digests.rowContentHash record.2 delivery.spec ≠ tombstoneContentHash)
    (times : List ℤ) :
    (delivery.landedRows digests records times).countP
        (fun row => row.contentHash ≠ tombstoneContentHash) =
      times.length * records.length := by
  have hall : (delivery.landedRows digests records times).countP
        (fun row => row.contentHash ≠ tombstoneContentHash) =
      (delivery.landedRows digests records times).length := by
    apply List.countP_eq_length.mpr
    intro row hrow
    obtain ⟨_, _, record, hrecord, rfl⟩ := mem_landedRows hrow
    exact decide_eq_true (hcontent record hrecord)
  rw [hall, landedRows, List.length_flatMap]
  simp only [List.length_map, List.map_const', List.sum_replicate, smul_eq_mul]

theorem count_append_landedRows (times : List ℤ) (c : KeyClass) :
    (batchReceipt latest (table ++ delivery.landedRows digests records times) delivery.source
        delivery.ingestBatchId).count c =
      (batchReceipt latest table delivery.source delivery.ingestBatchId).count c +
        (delivery.landedRows digests records times).countP fun row =>
          row.contentHash ≠ tombstoneContentHash ∧
            rowClass latest table delivery.source delivery.ingestBatchId row = c := by
  have hclass : rowClass latest (table ++ delivery.landedRows digests records times)
      delivery.source delivery.ingestBatchId =
        rowClass latest table delivery.source delivery.ingestBatchId := by
    funext row
    rw [rowClass, priorHash, priorRows_append_landedRows]
    rfl
  rw [count_batchReceipt, count_batchReceipt, hclass, thisBatch_append_landedRows,
    List.countP_append]

theorem keyClass_of_nodup (hdistinct : (records.map Prod.fst).Nodup)
    {record : String × DeliveredRow} (hrecord : record ∈ records) :
    delivery.keyClass latest digests table records record.1 =
      some (KeyClass.of
        (priorHash latest table delivery.source delivery.ingestBatchId record.1)
        (digests.rowContentHash record.2 delivery.spec)) := by
  have hlookup : records.reverse.lookup record.1 = some record.2 := by
    have hin : record ∈ records.reverse := List.mem_reverse.mpr hrecord
    have hnodup : (records.reverse.map Prod.fst).Nodup := by
      rw [List.map_reverse]
      exact List.nodup_reverse.mpr hdistinct
    obtain ⟨before, after, hsplit⟩ := List.append_of_mem hin
    apply List.lookup_eq_some_iff.mpr
    refine ⟨before, after, hsplit, ?_⟩
    intro other hother
    rw [hsplit, List.map_append, List.nodup_append] at hnodup
    have hne := hnodup.2.2 other.1 (List.mem_map_of_mem hother) record.1 (by simp)
    simpa using hne.symm
  rw [keyClass, hlookup, Option.map_some]

/-- The rows of one landing are counted by the classes of their keys. -/
theorem countP_landedRows_singleton (hdistinct : (records.map Prod.fst).Nodup)
    (hcontent : ∀ record ∈ records,
      digests.rowContentHash record.2 delivery.spec ≠ tombstoneContentHash)
    (ingestedAt : ℤ) (c : KeyClass) :
    (delivery.landedRows digests records [ingestedAt]).countP (fun row =>
        row.contentHash ≠ tombstoneContentHash ∧
          rowClass latest table delivery.source delivery.ingestBatchId row = c) =
      (keys records).countP fun key =>
        delivery.keyClass latest digests table records key = some c := by
  rw [landedRows, List.flatMap_singleton, keys, List.dedup_eq_self.mpr hdistinct, List.countP_map,
    List.countP_map]
  apply List.countP_congr
  intro record hrecord
  simp only [Function.comp_apply, decide_eq_true_eq]
  rw [keyClass_of_nodup hdistinct hrecord, Option.some_inj]
  exact and_iff_right (hcontent record hrecord)

end Delivery

/-- A receipt counts each delivered key once, under its class, whatever the table was, exactly when
the source had no row with content under the batch id and either nothing is delivered, or the
delivery has been landed once and no id repeats in it. -/
theorem batch_receipt_counts_keys_iff (digests : Digests) (reader : CsvReader)
    (latest : Latest RawRecord.version) (delivery : Delivery)
    (table once after : List RawRecord) (records : List (String × DeliveredRow)) (first : ℤ)
    (retries : List ℤ) (hread : delivery.records reader = .ok records)
    (hcontent : ∀ record ∈ records,
      digests.rowContentHash record.2 delivery.spec ≠ tombstoneContentHash)
    (honce : delivery.landAt digests reader table [first] = .ok once)
    (hafter : delivery.landAt digests reader table (first :: retries) = .ok after) :
    CountsKeys latest digests delivery records table once after ↔
      (∀ row ∈ table, row.sourceSystem = delivery.source →
          row.ingestBatchId = delivery.ingestBatchId → row.contentHash = tombstoneContentHash) ∧
        (records = [] ∨ retries = [] ∧ (records.map Prod.fst).Nodup) := by
  rw [Delivery.landAt_eq hread, Except.ok.injEq] at honce hafter
  subst honce hafter
  have hold : (thisBatch table delivery.source delivery.ingestBatchId).countP
        (fun row => row.contentHash ≠ tombstoneContentHash) = 0 ↔
      ∀ row ∈ table, row.sourceSystem = delivery.source →
        row.ingestBatchId = delivery.ingestBatchId → row.contentHash = tombstoneContentHash := by
    simp [List.countP_eq_zero, thisBatch]
  have htotal : ∀ receipt, receipt = batchReceipt latest
        (table ++ delivery.landedRows digests records (first :: retries)) delivery.source
          delivery.ingestBatchId →
      receipt.new + receipt.resurrected + receipt.unchanged + receipt.changed =
        (thisBatch table delivery.source delivery.ingestBatchId).countP
            (fun row => row.contentHash ≠ tombstoneContentHash) +
          (retries.length + 1) * records.length := by
    rintro _ rfl
    rw [sum_batchReceipt, Delivery.thisBatch_append_landedRows, List.countP_append,
      Delivery.countP_landedRows hcontent, List.length_cons]
  rw [← hold]
  apply Iff.intro
  · intro hcounts
    have hsum := (htotal _ rfl).symm.trans hcounts.total
    have hkeys : (Delivery.keys records).length ≤ (records.map Prod.fst).length :=
      (List.dedup_sublist _).length_le
    rw [List.length_map] at hkeys
    have hmany : records.length ≤ (retries.length + 1) * records.length :=
      Nat.le_mul_of_pos_left _ (Nat.succ_pos _)
    refine ⟨by omega, ?_⟩
    cases hrecords : records with
    | nil => exact Or.inl rfl
    | cons record rest =>
        rw [← hrecords]
        have hpos : 0 < records.length := by
          rw [hrecords]
          exact Nat.succ_pos _
        have honce : (retries.length + 1) * records.length = 1 * records.length := by omega
        have hretries := Nat.eq_of_mul_eq_mul_right hpos honce
        have hlength : (Delivery.keys records).length = (records.map Prod.fst).length := by
          rw [List.length_map]
          omega
        refine Or.inr ⟨List.length_eq_zero_iff.mp (by omega), ?_⟩
        exact List.dedup_eq_self.mp ((List.dedup_sublist _).eq_of_length hlength)
  · rintro ⟨hnone, hrecords⟩
    have hcount : ∀ c, (batchReceipt latest table delivery.source delivery.ingestBatchId).count c =
        0 := by
      intro c
      rw [count_batchReceipt]
      apply Nat.eq_zero_of_le_zero
      rw [← hnone]
      apply List.countP_mono_left
      intro row _ hrow
      exact decide_eq_true (of_decide_eq_true hrow).1
    rcases hrecords with rfl | ⟨rfl, hdistinct⟩
    · have hempty : ∀ times, delivery.landedRows digests [] times = [] := by
        intro times
        exact List.flatMap_eq_nil_iff.mpr fun _ _ => rfl
      refine ⟨?_, ?_, ?_⟩
      · intro c
        rw [Delivery.count_append_landedRows, hcount, hempty]
        rfl
      · exact (htotal _ rfl).trans (by rw [hnone]; rfl)
      · intro c
        rw [hempty, hempty]
    · refine ⟨?_, ?_, ?_⟩
      · intro c
        rw [Delivery.count_append_landedRows, hcount, Nat.zero_add]
        exact Delivery.countP_landedRows_singleton hdistinct hcontent first c
      · have hkeys : (Delivery.keys records).length = records.length := by
          rw [Delivery.keys, List.dedup_eq_self.mpr hdistinct, List.length_map]
        apply (htotal _ rfl).trans
        rw [hnone, hkeys, List.length_nil, Nat.zero_add, Nat.zero_add, Nat.one_mul]
      · intro c
        rfl

/-- Next to the earlier `C001`, a first landing of `C002` counts one new key. -/
theorem batch_receipt_counts_keys_iff_of_one_landing :
    CountsKeys (Latest.first _) Digests.known (oneRecord "b2") [secondRecord] firstLanded
        (firstLanded ++ (oneRecord "b2").landedRows Digests.known [secondRecord] [2])
        (firstLanded ++ (oneRecord "b2").landedRows Digests.known [secondRecord] [2]) := by
  have hread := records_oneRecord "b2"
  apply (batch_receipt_counts_keys_iff Digests.known CsvReader.oneRecord (Latest.first _)
    (oneRecord "b2") firstLanded _ _ [secondRecord] 2 [] hread ?_
    (Delivery.landAt_eq hread [2]) (Delivery.landAt_eq hread [2])).mpr
  · apply And.intro
    · intro row hrow _ hbatch
      rw [List.mem_singleton.mp hrow] at hbatch
      exact absurd hbatch (by decide)
    · exact Or.inr ⟨rfl, List.nodup_singleton _⟩
  · intro record hrecord
    rw [List.mem_singleton.mp hrecord]
    decide +kernel

/-- Landed again after a crash under the same batch id, the one key counts as two new ones. -/
theorem retry_counts_key_twice :
    (oneRecord "b2").records CsvReader.oneRecord = .ok [secondRecord] ∧
      (oneRecord "b2").landAt Digests.known CsvReader.oneRecord firstLanded [2, 3] =
        .ok (firstLanded ++ (oneRecord "b2").landedRows Digests.known [secondRecord] [2, 3]) ∧
      Delivery.keys [secondRecord] = ["C002"] ∧
      (batchReceipt (Latest.first _) (firstLanded ++
        (oneRecord "b2").landedRows Digests.known [secondRecord] [2, 3]) "crm" "b2").new = 2 ∧
      ¬ CountsKeys (Latest.first _) Digests.known (oneRecord "b2") [secondRecord] firstLanded
        (firstLanded ++ (oneRecord "b2").landedRows Digests.known [secondRecord] [2])
        (firstLanded ++ (oneRecord "b2").landedRows Digests.known [secondRecord] [2, 3]) := by
  have hread := records_oneRecord "b2"
  have hnew : (batchReceipt (Latest.first _) (firstLanded ++
      (oneRecord "b2").landedRows Digests.known [secondRecord] [2, 3]) "crm" "b2").new = 2 := by
    decide +kernel
  have honce : (batchReceipt (Latest.first _) (firstLanded ++
      (oneRecord "b2").landedRows Digests.known [secondRecord] [2]) "crm" "b2").new = 1 := by
    decide +kernel
  refine ⟨hread, Delivery.landAt_eq hread [2, 3], rfl, hnew, ?_⟩
  intro hcounts
  have hsame := hcounts.retried .new
  exact absurd (hnew.symm.trans (hsame.trans honce)) (by decide)

end EntityResolution.Ingest
