/-
# The content hash of a delivered row

The mapped values of a row, in the order the source declares, are normalised, joined by the unit
separator and hashed. When the row carries unmapped fields, that digest is hashed once more with
the digests of their names and values.

The join does not escape the separator. Two rows have the same hash exactly when their content is
the same, unless the values of both split into the same pieces at different places, or the values
of one split into the three pieces of the other's extended form.
-/

import EntityResolution.Foundations.Collections
import EntityResolution.Foundations.Joins

namespace EntityResolution.Ingest

open EntityResolution.Collections EntityResolution.Joins

/-- What the hash takes from outside: SHA-256 as lowercase hex, and the NFC normal form. -/
structure Digests where
  sha256Hex : String → String
  nfc : String → String
  length_sha256Hex : ∀ text, (sha256Hex text).length = 64
  hex_sha256Hex : ∀ text, ∀ c ∈ (sha256Hex text).toList, c ∈ "0123456789abcdef".toList
  nfc_empty : nfc "" = ""

/-- The part of a source's mapping that ingestion reads: the mapped columns in declared order. -/
structure SourceSpec where
  columns : List (String × String)
  recordIdColumn : String
  updatedAtColumn : String

/-- A delivered row: the value of each field, `none` for NULL. -/
abbrev DeliveredRow := BTreeMap String (Option String)

/-- The source columns that carry a canonical attribute. -/
def SourceSpec.mapped (spec : SourceSpec) : List String := spec.columns.map Prod.snd

/-- The fields that are no metadata. -/
def SourceSpec.excluded (spec : SourceSpec) : List String :=
  spec.mapped ++ [spec.recordIdColumn, spec.updatedAtColumn, "persona_id"]

/-- `UNIT_SEPARATOR`. -/
def unitSeparator : Char := '\x1f'

/-- `TOMBSTONE_CONTENT_HASH`. -/
def tombstoneContentHash : String :=
  "0000000000000000000000000000000000000000000000000000000000000000"

/-- `metadata_columns`: the unmapped delivered fields, sorted. -/
def metadataColumns (delivered : List String) (spec : SourceSpec) : List String :=
  ((delivered.filter fun name => !spec.excluded.contains name).insertionSort (· ≤ ·)).dedup

namespace Digests

variable (digests : Digests)

/-- The normalised value of a column; absent and NULL are empty. -/
def value (row : DeliveredRow) (column : String) : String :=
  match row[column]? with
  | some (some value) => digests.nfc value
  | _ => ""

/-- The digest of a name, and of the value under it. -/
def field (row : DeliveredRow) (name : String) : String :=
  digests.sha256Hex name ++
    match row[name]?.join with
    | none => "N"
    | some value => "V" ++ digests.sha256Hex value

/-- The mapped values, joined. -/
def joined (row : DeliveredRow) (columns : List String) : String :=
  (String.singleton unitSeparator).intercalate (columns.map (digests.value row))

/-- The text that is hashed for a row with metadata. -/
def extended (row : DeliveredRow) (columns names : List String) : String :=
  digests.sha256Hex (digests.joined row columns) ++ String.singleton unitSeparator ++
    "metadata-v1" ++ String.singleton unitSeparator ++ String.join (names.map (digests.field row))

/-- `content_hash`. -/
def contentHash (row : DeliveredRow) (columns metadata : List String) : String :=
  if metadata.isEmpty then digests.sha256Hex (digests.joined row columns)
  else
    digests.sha256Hex
      (digests.extended row columns ((metadata.insertionSort (· ≤ ·)).dedup))

/-- `row_content_hash`. -/
def rowContentHash (row : DeliveredRow) (spec : SourceSpec) : String :=
  digests.contentHash row spec.mapped (metadataColumns row.keys spec)

end Digests

/-- The rows agree on every mapped column, up to normal form and up to NULL, absent and empty, and
carry the same unmapped fields with the same values. -/
structure SameContent (digests : Digests) (spec : SourceSpec)
    (row other : DeliveredRow) : Prop where
  mapped : ∀ column ∈ spec.mapped,
    digests.nfc (row[column]?.join.getD "") = digests.nfc (other[column]?.join.getD "")
  unmapped : ∀ name ∉ spec.excluded, row[name]? = other[name]?

/-- The characters of the mapped values of a row. -/
def mappedValues (digests : Digests) (spec : SourceSpec) (row : DeliveredRow) : List (List Char) :=
  spec.mapped.map fun column => (digests.value row column).toList

/-- The three pieces of the extended form of a row. -/
def extendedPieces (digests : Digests) (spec : SourceSpec) (row : DeliveredRow) :
    List (List Char) :=
  [(digests.sha256Hex (digests.joined row spec.mapped)).toList, "metadata-v1".toList,
    (String.join ((metadataColumns row.keys spec).map (digests.field row))).toList]

/-- The rows are not confused by a separator in a value: where they carry the same unmapped fields
and their mapped values split into the same pieces, each column holds as many separators in one
row as in the other; and the values of a row without unmapped fields do not split into the pieces
of the extended form of a row with some. -/
structure Unconfused (digests : Digests) (spec : SourceSpec) (row other : DeliveredRow) : Prop where
  cuts : (∀ name ∉ spec.excluded, row[name]? = other[name]?) →
    pieces unitSeparator (mappedValues digests spec row) =
      pieces unitSeparator (mappedValues digests spec other) →
    cuts unitSeparator (mappedValues digests spec row) =
      cuts unitSeparator (mappedValues digests spec other)
  forward : metadataColumns row.keys spec = [] → metadataColumns other.keys spec ≠ [] →
    pieces unitSeparator (mappedValues digests spec row) ≠ extendedPieces digests spec other
  backward : metadataColumns other.keys spec = [] → metadataColumns row.keys spec ≠ [] →
    pieces unitSeparator (mappedValues digests spec other) ≠ extendedPieces digests spec row

/-- The texts that are hashed for a row. -/
def hashedTexts (digests : Digests) (spec : SourceSpec) (row : DeliveredRow) : List String :=
  let names := metadataColumns row.keys spec
  digests.joined row spec.mapped ::
    (if names = [] then [] else [digests.extended row spec.mapped names]) ++ names ++
      names.filterMap fun name => row[name]?.join

/-- SHA-256 tells the given texts apart. -/
def CollisionFree (digests : Digests) (texts : List String) : Prop :=
  ∀ first ∈ texts, ∀ second ∈ texts,
    digests.sha256Hex first = digests.sha256Hex second → first = second

theorem mem_metadataColumns {row : DeliveredRow} {spec : SourceSpec} {name : String} :
    name ∈ metadataColumns row.keys spec ↔ name ∈ row ∧ name ∉ spec.excluded := by
  rw [metadataColumns, List.mem_dedup, List.mem_insertionSort, List.mem_filter,
    BTreeMap.mem_keys]
  simp

theorem metadataColumns_sorted (delivered : List String) (spec : SourceSpec) :
    (metadataColumns delivered spec).Pairwise (· ≤ ·) :=
  (List.pairwise_insertionSort (· ≤ ·) _).sublist (List.dedup_sublist _)

theorem metadataColumns_nodup (delivered : List String) (spec : SourceSpec) :
    (metadataColumns delivered spec).Nodup :=
  List.nodup_dedup _

theorem rowContentHash_eq (digests : Digests) (row : DeliveredRow) (spec : SourceSpec) :
    digests.rowContentHash row spec =
      if metadataColumns row.keys spec = [] then
        digests.sha256Hex (digests.joined row spec.mapped)
      else
        digests.sha256Hex
          (digests.extended row spec.mapped (metadataColumns row.keys spec)) := by
  rw [Digests.rowContentHash, Digests.contentHash,
    (metadataColumns_sorted row.keys spec).insertionSort_eq,
    (metadataColumns_nodup row.keys spec).dedup]
  simp only [List.isEmpty_iff]

/-- The unmapped fields with their values. -/
def metadataEntries (spec : SourceSpec) (row : DeliveredRow) : List (String × Option String) :=
  (metadataColumns row.keys spec).map fun name => (name, row[name]?.join)

theorem metadataEntries_eq_iff {spec : SourceSpec} {row other : DeliveredRow} :
    metadataEntries spec row = metadataEntries spec other ↔
      ∀ name ∉ spec.excluded, row[name]? = other[name]? := by
  apply Iff.intro
  · intro hsame
    have hnames : metadataColumns row.keys spec = metadataColumns other.keys spec := by
      have hfirst := congrArg (List.map Prod.fst) hsame
      simpa [metadataEntries, List.map_map, Function.comp_def] using hfirst
    intro name hname
    by_cases hrow : name ∈ row
    · have hlisted : name ∈ metadataColumns row.keys spec :=
        mem_metadataColumns.mpr ⟨hrow, hname⟩
      have hother : name ∈ other := by
        rw [hnames] at hlisted
        exact (mem_metadataColumns.mp hlisted).1
      have hvalue : row[name]?.join = other[name]?.join := by
        rw [metadataEntries, metadataEntries, ← hnames, List.map_inj_left] at hsame
        exact (Prod.mk.inj (hsame name hlisted)).2
      obtain ⟨value, hget⟩ := BTreeMap.mem_iff_exists_getElem?.mp hrow
      obtain ⟨otherValue, hotherGet⟩ := BTreeMap.mem_iff_exists_getElem?.mp hother
      rw [hget, hotherGet] at hvalue ⊢
      exact congrArg some hvalue
    · have hother : name ∉ other := by
        intro hmem
        have hlisted : name ∈ metadataColumns other.keys spec :=
          mem_metadataColumns.mpr ⟨hmem, hname⟩
        rw [← hnames] at hlisted
        exact hrow (mem_metadataColumns.mp hlisted).1
      rw [Std.ExtTreeMap.getElem?_eq_none hrow, Std.ExtTreeMap.getElem?_eq_none hother]
  · intro hsame
    have hnames : metadataColumns row.keys spec = metadataColumns other.keys spec := by
      apply List.Perm.eq_of_pairwise (fun _ _ _ _ hle hge => le_antisymm hle hge)
        (metadataColumns_sorted _ _) (metadataColumns_sorted _ _)
      rw [List.perm_ext_iff_of_nodup (metadataColumns_nodup _ _) (metadataColumns_nodup _ _)]
      intro name
      rw [mem_metadataColumns, mem_metadataColumns, and_congr_left_iff]
      intro hname
      rw [BTreeMap.mem_iff_exists_getElem?, BTreeMap.mem_iff_exists_getElem?, hsame name hname]
    rw [metadataEntries, metadataEntries, hnames, List.map_inj_left]
    intro name hlisted
    rw [hsame name (mem_metadataColumns.mp hlisted).2]

theorem metadataEntries_eq_nil_iff {spec : SourceSpec} {row : DeliveredRow} :
    metadataEntries spec row = [] ↔ metadataColumns row.keys spec = [] :=
  List.map_eq_nil_iff

theorem toList_joined (digests : Digests) (spec : SourceSpec) (row : DeliveredRow) :
    (digests.joined row spec.mapped).toList =
      join unitSeparator (mappedValues digests spec row) := by
  rw [Digests.joined, String.toList_intercalate, List.map_map, String.toList_singleton]
  rfl

theorem toList_field (digests : Digests) (row : DeliveredRow) (name : String) :
    (digests.field row name).toList =
      tagged (fun text => (digests.sha256Hex text).toList) 'N' 'V' (name, row[name]?.join) := by
  have hmissing : "N".toList = ['N'] := by decide
  have hpresent : "V".toList = ['V'] := by decide
  rw [Digests.field, String.toList_append, tagged]
  cases row[name]?.join with
  | none =>
      dsimp only
      rw [hmissing]
      rfl
  | some value =>
      dsimp only
      rw [String.toList_append, hpresent]
      rfl

theorem toList_extended (digests : Digests) (spec : SourceSpec) (row : DeliveredRow) :
    (digests.extended row spec.mapped (metadataColumns row.keys spec)).toList =
      join unitSeparator (extendedPieces digests spec row) := by
  rw [Digests.extended, extendedPieces, join, List.intercalate_cons_cons,
    List.intercalate_cons_cons, List.intercalate_singleton]
  simp only [String.toList_append, String.toList_singleton, List.append_assoc]

theorem unitSeparator_notMem_sha256Hex (digests : Digests) (text : String) :
    unitSeparator ∉ (digests.sha256Hex text).toList := by
  intro hmem
  exact absurd (digests.hex_sha256Hex text _ hmem) (by decide)

/-- The pieces of the extended form hold no separator. -/
theorem pieces_extendedPieces (digests : Digests) (spec : SourceSpec) (row : DeliveredRow) :
    pieces unitSeparator (extendedPieces digests spec row) = extendedPieces digests spec row := by
  apply pieces_eq_self
  intro value hvalue
  rw [extendedPieces, List.mem_cons, List.mem_cons, List.mem_singleton] at hvalue
  rcases hvalue with rfl | rfl | rfl
  · exact unitSeparator_notMem_sha256Hex digests _
  · decide
  · rw [String.toList_join, List.mem_flatMap]
    rintro ⟨text, htext, hmem⟩
    obtain ⟨name, _, rfl⟩ := List.mem_map.mp htext
    rw [toList_field, tagged, List.mem_append] at hmem
    rcases hmem with hname | htag
    · exact unitSeparator_notMem_sha256Hex digests _ hname
    · cases hjoin : row[name]?.join with
      | none =>
          rw [hjoin] at htag
          exact absurd (List.mem_singleton.mp htag) (by decide)
      | some text =>
          rw [hjoin] at htag
          rcases List.mem_cons.mp htag with hmark | hdigest
          · exact absurd hmark (by decide)
          · exact unitSeparator_notMem_sha256Hex digests _ hdigest

theorem toList_extras (digests : Digests) (spec : SourceSpec) (row : DeliveredRow) :
    (String.join ((metadataColumns row.keys spec).map (digests.field row))).toList =
      (metadataEntries spec row).flatMap
        (tagged (fun text => (digests.sha256Hex text).toList) 'N' 'V') := by
  rw [String.toList_join, metadataEntries, List.flatMap_map, List.flatMap_map]
  exact List.flatMap_congr fun name _ => toList_field digests row name

theorem value_eq (digests : Digests) (row : DeliveredRow) (column : String) :
    digests.value row column = digests.nfc (row[column]?.join.getD "") := by
  rw [Digests.value]
  rcases row[column]? with _ | _ | value
  · exact digests.nfc_empty.symm
  · exact digests.nfc_empty.symm
  · rfl

theorem sameContent_iff {digests : Digests} {spec : SourceSpec} {row other : DeliveredRow} :
    SameContent digests spec row other ↔
      mappedValues digests spec row = mappedValues digests spec other ∧
        metadataEntries spec row = metadataEntries spec other := by
  rw [mappedValues, mappedValues, List.map_inj_left, metadataEntries_eq_iff]
  apply Iff.intro
  · intro hsame
    apply And.intro _ hsame.unmapped
    intro column hcolumn
    rw [value_eq, value_eq, hsame.mapped column hcolumn]
  · intro hsame
    apply SameContent.mk _ hsame.2
    intro column hcolumn
    rw [← value_eq, ← value_eq]
    exact String.toList_injective (hsame.1 column hcolumn)

/-! ## Rows with the same hash -/

/-- What is joined for the last hash: the mapped values, or the pieces of the extended form. -/
def lastValues (digests : Digests) (spec : SourceSpec) (row : DeliveredRow) : List (List Char) :=
  if metadataColumns row.keys spec = [] then mappedValues digests spec row
  else extendedPieces digests spec row

theorem joined_mem_hashedTexts (digests : Digests) (spec : SourceSpec) (row : DeliveredRow) :
    digests.joined row spec.mapped ∈ hashedTexts digests spec row :=
  List.mem_append_left _ (List.mem_append_left _ List.mem_cons_self)

theorem extended_mem_hashedTexts (digests : Digests) {spec : SourceSpec} {row : DeliveredRow}
    (hnames : metadataColumns row.keys spec ≠ []) :
    digests.extended row spec.mapped (metadataColumns row.keys spec) ∈
      hashedTexts digests spec row := by
  rw [hashedTexts]
  simp [hnames]

theorem rowContentHash_eq_iff {digests : Digests} {spec : SourceSpec} {row other : DeliveredRow}
    (hcollision : CollisionFree digests
      (hashedTexts digests spec row ++ hashedTexts digests spec other)) :
    digests.rowContentHash row spec = digests.rowContentHash other spec ↔
      join unitSeparator (lastValues digests spec row) =
        join unitSeparator (lastValues digests spec other) := by
  have htext : ∀ row : DeliveredRow, ∃ text ∈ hashedTexts digests spec row,
      digests.rowContentHash row spec = digests.sha256Hex text ∧
        text.toList = join unitSeparator (lastValues digests spec row) := by
    intro row
    by_cases hnames : metadataColumns row.keys spec = []
    · rw [rowContentHash_eq, lastValues, if_pos hnames, if_pos hnames]
      exact ⟨_, joined_mem_hashedTexts digests spec row, rfl, toList_joined digests spec row⟩
    · rw [rowContentHash_eq, lastValues, if_neg hnames, if_neg hnames]
      exact ⟨_, extended_mem_hashedTexts digests hnames, rfl, toList_extended digests spec row⟩
  obtain ⟨text, hmem, hhash, hlist⟩ := htext row
  obtain ⟨otherText, hotherMem, hotherHash, hotherList⟩ := htext other
  rw [hhash, hotherHash, ← hlist, ← hotherList, String.toList_inj]
  apply Iff.intro
  · exact hcollision text (List.mem_append_left _ hmem) otherText
      (List.mem_append_right _ hotherMem)
  · intro hsame
    rw [hsame]

theorem length_mappedValues (digests : Digests) (spec : SourceSpec) (row other : DeliveredRow) :
    (mappedValues digests spec row).length = (mappedValues digests spec other).length := by
  rw [mappedValues, mappedValues, List.length_map, List.length_map]

/-- The extended forms of two rows are the same when the values split into the same pieces and the
unmapped fields are the same. -/
theorem extendedPieces_eq_iff {digests : Digests} {spec : SourceSpec} {row other : DeliveredRow}
    (hcollision : CollisionFree digests
      (hashedTexts digests spec row ++ hashedTexts digests spec other)) :
    extendedPieces digests spec row = extendedPieces digests spec other ↔
      pieces unitSeparator (mappedValues digests spec row) =
          pieces unitSeparator (mappedValues digests spec other) ∧
        metadataEntries spec row = metadataEntries spec other := by
  have hentries : ∀ row : DeliveredRow, ∀ entry ∈ metadataEntries spec row,
      entry.1 ∈ hashedTexts digests spec row ∧
        ∀ value ∈ entry.2, value ∈ hashedTexts digests spec row := by
    intro row entry hentry
    obtain ⟨name, hname, rfl⟩ := List.mem_map.mp hentry
    apply And.intro
    · exact List.mem_append_left _ (List.mem_append_right _ hname)
    · intro value hvalue
      exact List.mem_append_right _ (List.mem_filterMap.mpr ⟨name, hname, hvalue⟩)
  rw [← join_eq_join_iff (length_mappedValues digests spec row other), ← toList_joined,
    ← toList_joined, String.toList_inj]
  apply Iff.intro
  · intro hsame
    rw [extendedPieces, extendedPieces, toList_extras, toList_extras] at hsame
    obtain ⟨hdigest, hrest⟩ := List.cons.inj hsame
    apply And.intro
    · exact hcollision _ (List.mem_append_left _ (joined_mem_hashedTexts digests spec row)) _
        (List.mem_append_right _ (joined_mem_hashedTexts digests spec other))
        (String.toList_injective hdigest)
    · have hwidth : ∀ text, (digests.sha256Hex text).toList.length = 64 := by
        intro text
        rw [String.length_toList, digests.length_sha256Hex]
      have hinj : ∀ first second,
          first ∈ hashedTexts digests spec row ++ hashedTexts digests spec other →
          second ∈ hashedTexts digests spec row ++ hashedTexts digests spec other →
          (digests.sha256Hex first).toList = (digests.sha256Hex second).toList →
            first = second := fun first second hfirst hsecond hsame =>
        hcollision first hfirst second hsecond (String.toList_injective hsame)
      apply flatMap_tagged_inj hwidth (by decide) hinj _ _ (List.singleton_inj.mp
        (List.cons.inj hrest).2)
      · intro entry hentry
        obtain ⟨hname, hvalue⟩ := hentries row entry hentry
        exact ⟨List.mem_append_left _ hname,
          fun value hmem => List.mem_append_left _ (hvalue value hmem)⟩
      · intro entry hentry
        obtain ⟨hname, hvalue⟩ := hentries other entry hentry
        exact ⟨List.mem_append_right _ hname,
          fun value hmem => List.mem_append_right _ (hvalue value hmem)⟩
  · intro hsame
    rw [extendedPieces, extendedPieces, toList_extras, toList_extras, hsame.1, hsame.2]

/-- Rows that both carry unmapped fields, or both none, have the same hash when their values split
into the same pieces and their unmapped fields are the same. -/
theorem rowContentHash_eq_iff_of_alike {digests : Digests} {spec : SourceSpec}
    {row other : DeliveredRow}
    (hcollision : CollisionFree digests
      (hashedTexts digests spec row ++ hashedTexts digests spec other))
    (halike : metadataColumns row.keys spec = [] ↔ metadataColumns other.keys spec = []) :
    digests.rowContentHash row spec = digests.rowContentHash other spec ↔
      pieces unitSeparator (mappedValues digests spec row) =
          pieces unitSeparator (mappedValues digests spec other) ∧
        metadataEntries spec row = metadataEntries spec other := by
  rw [rowContentHash_eq_iff hcollision, lastValues, lastValues]
  by_cases hnames : metadataColumns row.keys spec = []
  · have hother := halike.mp hnames
    rw [if_pos hnames, if_pos hother,
      join_eq_join_iff (length_mappedValues digests spec row other),
      metadataEntries_eq_nil_iff.mpr hnames, metadataEntries_eq_nil_iff.mpr hother]
    exact (and_iff_left rfl).symm
  · have hlength : (extendedPieces digests spec row).length =
        (extendedPieces digests spec other).length := rfl
    rw [if_neg hnames, if_neg (fun hother => hnames (halike.mpr hother)),
      join_eq_join_iff hlength, pieces_extendedPieces, pieces_extendedPieces,
      extendedPieces_eq_iff hcollision]

/-- A row without unmapped fields has the hash of a row with some when its values split into the
pieces of the other's extended form. -/
theorem rowContentHash_eq_iff_of_plain {digests : Digests} {spec : SourceSpec}
    {row other : DeliveredRow}
    (hcollision : CollisionFree digests
      (hashedTexts digests spec row ++ hashedTexts digests spec other))
    (hrow : metadataColumns row.keys spec = []) (hother : metadataColumns other.keys spec ≠ []) :
    digests.rowContentHash row spec = digests.rowContentHash other spec ↔
      pieces unitSeparator (mappedValues digests spec row) = extendedPieces digests spec other := by
  rw [rowContentHash_eq_iff hcollision, lastValues, lastValues, if_pos hrow, if_neg hother]
  have hextended : (join unitSeparator (extendedPieces digests spec other)).splitOn unitSeparator =
      extendedPieces digests spec other := by
    have hne : extendedPieces digests spec other ≠ [] := List.cons_ne_nil _ _
    rw [splitOn_join hne, pieces_extendedPieces]
  by_cases hnone : mappedValues digests spec row = []
  · rw [hnone]
    apply iff_of_false
    · intro hsame
      have hsplit := congrArg (List.splitOn unitSeparator) hsame
      rw [hextended, join, List.intercalate_nil, List.splitOn_nil, extendedPieces] at hsplit
      cases (List.cons.inj hsplit).2
    · exact (List.cons_ne_nil _ _).symm
  · apply Iff.intro
    · intro hsame
      rw [← splitOn_join hnone, hsame, hextended]
    · intro hsame
      apply splitOn_inj
      rw [splitOn_join hnone, hsame, hextended]

theorem CollisionFree.symm {digests : Digests} {first second : List String}
    (hcollision : CollisionFree digests (first ++ second)) :
    CollisionFree digests (second ++ first) := by
  intro text htext other hother
  rw [List.mem_append, or_comm, ← List.mem_append] at htext hother
  exact hcollision text htext other hother

theorem metadataEntries_ne {spec : SourceSpec} {row other : DeliveredRow}
    (hrow : metadataColumns row.keys spec = []) (hother : metadataColumns other.keys spec ≠ []) :
    metadataEntries spec row ≠ metadataEntries spec other := by
  intro hsame
  rw [metadataEntries_eq_nil_iff.mpr hrow] at hsame
  exact hother (metadataEntries_eq_nil_iff.mp hsame.symm)

/-- The hashes of two rows are equal for rows with the same content and for no others exactly when
no separator in a value confuses the two. -/
theorem row_content_hash_iff (digests : Digests) (spec : SourceSpec) (row other : DeliveredRow)
    (hcollision : CollisionFree digests
      (hashedTexts digests spec row ++ hashedTexts digests spec other)) :
    (digests.rowContentHash row spec = digests.rowContentHash other spec ↔
        SameContent digests spec row other) ↔
      Unconfused digests spec row other := by
  rw [sameContent_iff]
  by_cases halike : metadataColumns row.keys spec = [] ↔ metadataColumns other.keys spec = []
  · rw [rowContentHash_eq_iff_of_alike hcollision halike]
    apply Iff.intro
    · intro hiff
      refine ⟨?_, fun hrow hother => absurd (halike.mp hrow) hother,
        fun hother hrow => absurd (halike.mpr hother) hrow⟩
      intro hunmapped hpieces
      rw [(hiff.mp ⟨hpieces, metadataEntries_eq_iff.mpr hunmapped⟩).1]
    · intro hunconfused
      apply Iff.intro
      · intro hsame
        have hcuts := hunconfused.cuts (metadataEntries_eq_iff.mp hsame.2) hsame.1
        exact ⟨eq_of_pieces_eq hsame.1 hcuts, hsame.2⟩
      · intro hsame
        rw [hsame.1]
        exact ⟨rfl, hsame.2⟩
  · by_cases hrow : metadataColumns row.keys spec = []
    · have hother : metadataColumns other.keys spec ≠ [] := fun hother =>
        halike (iff_of_true hrow hother)
      have hnever : ¬ (mappedValues digests spec row = mappedValues digests spec other ∧
          metadataEntries spec row = metadataEntries spec other) := fun hsame =>
        metadataEntries_ne hrow hother hsame.2
      rw [rowContentHash_eq_iff_of_plain hcollision hrow hother, iff_false_right hnever]
      apply Iff.intro
      · intro hpieces
        exact ⟨fun hunmapped => absurd (metadataEntries_eq_iff.mpr hunmapped)
            (metadataEntries_ne hrow hother), fun _ _ => hpieces,
          fun habsurd => absurd habsurd hother⟩
      · exact fun hunconfused => hunconfused.forward hrow hother
    · have hother : metadataColumns other.keys spec = [] := by
        by_contra hother
        exact halike (iff_of_false hrow hother)
      have hnever : ¬ (mappedValues digests spec row = mappedValues digests spec other ∧
          metadataEntries spec row = metadataEntries spec other) := fun hsame =>
        metadataEntries_ne hother hrow hsame.2.symm
      rw [eq_comm, rowContentHash_eq_iff_of_plain hcollision.symm hother hrow,
        iff_false_right hnever]
      apply Iff.intro
      · intro hpieces
        exact ⟨fun hunmapped => absurd (metadataEntries_eq_iff.mpr hunmapped).symm
            (metadataEntries_ne hother hrow), fun habsurd => absurd habsurd hrow,
          fun _ _ => hpieces⟩
      · exact fun hunconfused => hunconfused.backward hother hrow

/-- SHA-256 of the texts of the examples. -/
def knownDigests : List (String × String) :=
  [("ada\x1flovelace", "13c9730b2aea9eb76ede12dbf72a0d91659770abb4ecea585942191289835b31"),
    ("note", "edb465624291e4053c6c5ea4b7eb320dec773e10a57d26b95dcf0564f8e310f8"),
    ("vip", "f9505a739a8fb8e851942c3f973d4bbb2d4c4743a6b633090abf2f2be035d572"),
    ("13c9730b2aea9eb76ede12dbf72a0d91659770abb4ecea585942191289835b31" ++ "\x1fmetadata-v1\x1f" ++
      "edb465624291e4053c6c5ea4b7eb320dec773e10a57d26b95dcf0564f8e310f8V" ++
      "f9505a739a8fb8e851942c3f973d4bbb2d4c4743a6b633090abf2f2be035d572",
      "c87b2f349d10fe5fa79bc68dae3943251707e8d50323cb51fb1ba0ef6274e8d7"),
    ("13c9730b2aea9eb76ede12dbf72a0d91659770abb4ecea585942191289835b31" ++ "\x1fmetadata-v1\x1f" ++
      "edb465624291e4053c6c5ea4b7eb320dec773e10a57d26b95dcf0564f8e310f8N",
      "bee49ac881ab81e8a56ae6d2bebae67d73133f52febdce52229584339185f5dd"),
    ("a\x1fb\x1f", "023b8059a924f728a2155e4cc8b907389b6468b5ffba4905e3588ebe872d62d2"),
    ("grace\x1fhopper", "36f55c3a42cfc9f7de47b33477ad077fd9a827d9efc566e8974d09a4598009b6"),
    ("raw_records:crm:C001:" ++
    "36f55c3a42cfc9f7de47b33477ad077fd9a827d9efc566e8974d09a4598009b6" ++
      ":er-batch", "353f6fbad28ab91c7a3cc15663fc1dda03ffa902d4dc20e8037e6146c02747b0"),
    ("raw_records:crm:C002:" ++
    "13c9730b2aea9eb76ede12dbf72a0d91659770abb4ecea585942191289835b31" ++
      ":er-batch", "5ec5fe243eaa56b92ef55916ac3f9fb64d15e62ee2298073cf68fc0bf083d541"),
    ("raw_records:crm:C002:" ++
    "13c9730b2aea9eb76ede12dbf72a0d91659770abb4ecea585942191289835b31" ++
      ":b2", "01a612265d04bbf32d8d7234eb4b066e3d939687cec78d0268c079f664308664"),
    ("raw_records:crm:C001:" ++
    "0000000000000000000000000000000000000000000000000000000000000000" ++
      ":b2", "c828b011bb9643d0d20c7979a2ee4ca067b06a9b41d85d283bf7b5f6e24ff59e")]

/-- The characters of a digest. -/
def hexDigits : List Char :=
  ['0', '1', '2', '3', '4', '5', '6', '7', '8', '9', 'a', 'b', 'c', 'd', 'e', 'f']

theorem hex_of_chars {chars : List Char}
    (hcheck : (chars.length == 64 && chars.all hexDigits.contains) = true) :
    (String.ofList chars).length = 64 ∧ ∀ c ∈ (String.ofList chars).toList, c ∈ hexDigits := by
  rw [Bool.and_eq_true, beq_iff_eq, List.all_eq_true] at hcheck
  rw [String.toList_ofList, String.length_ofList]
  exact ⟨hcheck.1, fun c hc => List.contains_iff_mem.mp (hcheck.2 c hc)⟩

theorem known_hex (text : String) :
    ((knownDigests.lookup text).getD tombstoneContentHash).length = 64 ∧
      ∀ c ∈ ((knownDigests.lookup text).getD tombstoneContentHash).toList,
        c ∈ "0123456789abcdef".toList := by
  have hdigits : "0123456789abcdef".toList = hexDigits := String.toList_ofList
  have hknown : ∀ digest ∈ tombstoneContentHash :: knownDigests.map Prod.snd,
      digest.length = 64 ∧ ∀ c ∈ digest.toList, c ∈ "0123456789abcdef".toList := by
    rw [hdigits, knownDigests, tombstoneContentHash]
    simp only [List.map_cons, List.map_nil, List.forall_mem_cons]
    refine ⟨hex_of_chars ?_, hex_of_chars ?_, hex_of_chars ?_, hex_of_chars ?_, hex_of_chars ?_,
      hex_of_chars ?_, hex_of_chars ?_, hex_of_chars ?_, hex_of_chars ?_, hex_of_chars ?_,
      hex_of_chars ?_, hex_of_chars ?_, List.forall_mem_nil _⟩ <;> decide +kernel
  cases hlookup : knownDigests.lookup text with
  | none => exact hknown _ List.mem_cons_self
  | some digest =>
      apply hknown digest (List.mem_cons_of_mem _ _)
      obtain ⟨before, after, htable, _⟩ := List.lookup_eq_some_iff.mp hlookup
      rw [htable]
      simp

/-- Digests that agree with SHA-256 on the texts of the examples; these are in normal form. -/
def Digests.known : Digests where
  sha256Hex text := (knownDigests.lookup text).getD tombstoneContentHash
  nfc := id
  length_sha256Hex text := (known_hex text).1
  hex_sha256Hex text := (known_hex text).2
  nfc_empty := rfl

/-- A person source with two mapped columns. -/
def people : SourceSpec where
  columns := [("first_name", "first"), ("last_name", "last")]
  recordIdColumn := "id"
  updatedAtColumn := "changed"

/-- A row of the source. -/
def delivery (id first last : String) : DeliveredRow :=
  (((∅ : DeliveredRow).insert "id" (some id)).insert "first" (some first)).insert "last"
    (some last)

theorem row_content_hash_iff_of_notes :
    Digests.known.rowContentHash ((delivery "1" "ada" "lovelace").insert "note" (some "vip"))
        people =
      Digests.known.rowContentHash ((delivery "1" "ada" "lovelace").insert "note" none) people ↔
    SameContent Digests.known people ((delivery "1" "ada" "lovelace").insert "note" (some "vip"))
      ((delivery "1" "ada" "lovelace").insert "note" none) := by
  apply (row_content_hash_iff _ _ _ _ _).mpr
  · refine ⟨?_, ?_, ?_⟩
    · intro hsame
      exact absurd (hsame "note" (by decide)) (by decide +kernel)
    · intro hnone
      exact absurd hnone (by decide +kernel)
    · intro hnone
      exact absurd hnone (by decide +kernel)
  · unfold CollisionFree
    decide +kernel

/-- A separator at the end of one column is not told from a separator at the start of the next. -/
theorem shifted_separator_same_hash :
    CollisionFree Digests.known
        (hashedTexts Digests.known people (delivery "1" "a\x1fb" "") ++
          hashedTexts Digests.known people (delivery "1" "a" "b\x1f")) ∧
      Digests.known.rowContentHash (delivery "1" "a\x1fb" "") people =
        Digests.known.rowContentHash (delivery "1" "a" "b\x1f") people ∧
      ¬ SameContent Digests.known people (delivery "1" "a\x1fb" "")
        (delivery "1" "a" "b\x1f") := by
  apply And.intro
  · unfold CollisionFree
    decide +kernel
  · apply And.intro
    · decide +kernel
    · intro hsame
      exact absurd (hsame.mapped "last" (by decide)) (by decide +kernel)

end EntityResolution.Ingest
