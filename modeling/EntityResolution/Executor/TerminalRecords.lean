/-
# Terminal records under the cap

A pod's last record must fit the message of the kubelet. While its text is too long, the detail is
cut by the bytes that are too many and some more, back to a character boundary; then the output is
dropped, and then the counters. Every round sheds something, so the loop ends, and what is left of a
record whose names are short fits. The text is that of a record that differs from the first only in
what may be shed.
-/

import EntityResolution.Executor.Classify
import EntityResolution.Foundations.Numerals
import EntityResolution.Golden.Survivorship
import EntityResolution.Identity.Stamps

namespace EntityResolution.Executor

open EntityResolution.Golden EntityResolution.Identity EntityResolution.Numerals

universe w

variable {V : Type w}

/-- A 32-bit signed integer. -/
def InI32 (n : ℤ) : Prop := -2 ^ 31 ≤ n ∧ n < 2 ^ 31

/-- `TerminalRecord` with all its fields. -/
structure Record (V : Type w) extends TerminalRecord V where
  v : ℕ
  attempt : String
  snapshotStart : Option ℤ
  snapshotEnd : Option ℤ
  counters : Option V
  exit_bounds : InI32 exit
  snapshotStart_bounds : ∀ n ∈ snapshotStart, InI64 n
  snapshotEnd_bounds : ∀ n ∈ snapshotEnd, InI64 n

/-- What serde_json does with values, and how it reads a record. -/
structure Serde (V : Type w) where
  write : V → List Char
  isNull : V → Bool
  fromStr : String → Option (Record V)

/-- The number of bytes of a text. -/
def byteLength (text : List Char) : ℕ := (text.map Char.utf8Size).sum

/-- A hexadecimal digit in lower case. -/
def hexDigit (n : ℕ) : Char := if n < 10 then Char.ofNat (0x30 + n) else Char.ofNat (0x57 + n)

/-- A character in a string of JSON. -/
def escape (c : Char) : List Char :=
  if c = '"' then ['\\', '"']
  else if c = '\\' then ['\\', '\\']
  else if c.toNat = 0x08 then ['\\', 'b']
  else if c.toNat = 0x09 then ['\\', 't']
  else if c.toNat = 0x0a then ['\\', 'n']
  else if c.toNat = 0x0c then ['\\', 'f']
  else if c.toNat = 0x0d then ['\\', 'r']
  else if c.toNat < 0x20 then
    ['\\', 'u', '0', '0', hexDigit (c.toNat / 16), hexDigit (c.toNat % 16)]
  else [c]

/-- A string of JSON. -/
def jsonString (text : String) : List Char := '"' :: text.toList.flatMap escape ++ ['"']

/-- A member of an object. -/
def member (name : String) (value : List Char) : List Char := jsonString name ++ ':' :: value

/-- A member that is skipped when there is no value. -/
def optionalMember {A : Type*} (name : String) (write : A → List Char) (value : Option A) :
    List (List Char) :=
  (value.map fun value => member name (write value)).toList

/-- The name of a state. -/
def TerminalState.name : TerminalState → String
  | succeeded => "succeeded"
  | skipped => "skipped"
  | failed => "failed"
  | interrupted => "interrupted"

/-- The members of a record, in the order of its fields. -/
def Record.members (write : V → List Char) (record : Record V) : List (List Char) :=
  [member "v" (pad 1 record.v), member "attempt" (jsonString record.attempt),
      member "state" (jsonString record.state.name), member "exit" (padInt 1 record.exit)] ++
    optionalMember "error_class" jsonString record.errorClass ++
    optionalMember "termination_reason" jsonString record.terminationReason ++
    optionalMember "detail" jsonString record.detail ++
    optionalMember "output" write record.output ++
    optionalMember "snapshot_start" (padInt 1) record.snapshotStart ++
    optionalMember "snapshot_end" (padInt 1) record.snapshotEnd ++
    optionalMember "counters" write record.counters

/-- `serde_json::to_string`. Keys of values are strings, so writing never fails. -/
def Record.toJson (write : V → List Char) (record : Record V) : List Char :=
  '\x7b' :: [','].intercalate (record.members write) ++ ['\x7d']

/-- `TERMINATION_MESSAGE_CAP`. -/
def terminationMessageCap : ℕ := 4096

/-- `is_char_boundary`. -/
def isCharBoundary (text : List Char) (index : ℕ) : Bool :=
  (text.inits.map byteLength).contains index

/-- The last character boundary up to an index. -/
def charBoundary (text : List Char) : ℕ → ℕ
  | 0 => 0
  | cut + 1 => if isCharBoundary text (cut + 1) then cut + 1 else charBoundary text cut

/-- `truncate` at a character boundary. -/
def truncate (text : List Char) (index : ℕ) : List Char :=
  (text.inits.find? fun start => byteLength start = index).getD text

/-- The detail without the overflow and 64 bytes more. -/
def cutDetail (detail : String) (overflow : ℕ) : String :=
  let text := detail.toList
  String.ofList (truncate text (charBoundary text (byteLength text - (overflow + 64))))

/-- Without a detail to cut the output is dropped, and then the counters. -/
def Record.dropValue (record : Record V) : Option (Record V) :=
  if record.output.isSome then some { record with output := none }
  else if record.counters.isSome then some { record with counters := none }
  else none

/-- What a round makes of a record whose text is so long; nothing when nothing is left to shed. -/
def Record.shed (record : Record V) (length : ℕ) : Option (Record V) :=
  match record.detail with
  | some detail =>
      if detail ≠ "" then
        some { record with detail := some (cutDetail detail (length - terminationMessageCap)) }
      else record.dropValue
  | none => record.dropValue

theorem byteLength_append (first second : List Char) :
    byteLength (first ++ second) = byteLength first + byteLength second := by
  rw [byteLength, List.map_append, List.sum_append]
  rfl

theorem byteLength_cons (c : Char) (text : List Char) :
    byteLength (c :: text) = c.utf8Size + byteLength text := by
  rw [byteLength, List.map_cons, List.sum_cons]
  rfl

theorem charBoundary_le (text : List Char) (cut : ℕ) : charBoundary text cut ≤ cut := by
  induction cut with
  | zero => exact le_rfl
  | succ cut ih =>
      rw [charBoundary]
      split_ifs
      · exact le_rfl
      · exact ih.trans (Nat.le_succ cut)

theorem isCharBoundary_charBoundary (text : List Char) (cut : ℕ) :
    isCharBoundary text (charBoundary text cut) = true := by
  induction cut with
  | zero =>
      apply List.contains_iff_mem.mpr
      exact List.mem_map.mpr ⟨[], (List.mem_inits _ _).mpr List.nil_prefix, rfl⟩
  | succ cut ih =>
      rw [charBoundary]
      split_ifs with hboundary
      · exact hboundary
      · exact ih

/-- A text is truncated to the prefix of a boundary. -/
theorem truncate_spec {text : List Char} {index : ℕ} (hindex : isCharBoundary text index = true) :
    truncate text index <+: text ∧ byteLength (truncate text index) = index := by
  rw [truncate]
  cases hfind : text.inits.find? fun start => byteLength start = index with
  | none =>
      obtain ⟨start, hstart, hlength⟩ := List.mem_map.mp (List.contains_iff_mem.mp hindex)
      exact absurd (decide_eq_true hlength) (List.find?_eq_none.mp hfind start hstart)
  | some start =>
      have hlength : byteLength start = index := by simpa using List.find?_some hfind
      exact ⟨(List.mem_inits _ _).mp (List.mem_of_find?_eq_some hfind), hlength⟩

/-- The cut detail is a beginning of the detail, in whole characters. -/
theorem cutDetail_prefix (detail : String) (overflow : ℕ) :
    (cutDetail detail overflow).toList <+: detail.toList := by
  rw [cutDetail, String.toList_ofList]
  exact (truncate_spec (isCharBoundary_charBoundary _ _)).1

theorem byteLength_pos {text : String} (htext : text ≠ "") : 0 < byteLength text.toList := by
  cases hlist : text.toList with
  | nil => exact absurd (String.toList_inj.mp hlist) htext
  | cons c rest =>
      rw [byteLength_cons]
      exact Nat.add_pos_left c.utf8Size_pos _

theorem byteLength_cutDetail_lt {detail : String} (hdetail : detail ≠ "") (overflow : ℕ) :
    byteLength (cutDetail detail overflow).toList < byteLength detail.toList := by
  have hpos := byteLength_pos hdetail
  have hle := charBoundary_le detail.toList (byteLength detail.toList - (overflow + 64))
  rw [cutDetail, String.toList_ofList,
    (truncate_spec (isCharBoundary_charBoundary detail.toList _)).2]
  omega

theorem Record.dropValue_eq_some {record next : Record V} (hnext : record.dropValue = some next) :
    (record.output.isSome ∧ next = { record with output := none }) ∨
      (record.counters.isSome ∧ next = { record with counters := none }) := by
  unfold Record.dropValue at hnext
  split_ifs at hnext with houtput hcounters
  · exact Or.inl ⟨houtput, (Option.some.inj hnext).symm⟩
  · exact Or.inr ⟨hcounters, (Option.some.inj hnext).symm⟩

theorem Record.shed_eq_some {record next : Record V} {length : ℕ}
    (hnext : record.shed length = some next) :
    (∃ detail overflow, record.detail = some detail ∧ detail ≠ "" ∧
        next = { record with detail := some (cutDetail detail overflow) }) ∨
      (record.output.isSome ∧ next = { record with output := none }) ∨
      (record.counters.isSome ∧ next = { record with counters := none }) := by
  unfold Record.shed at hnext
  split at hnext
  · rename_i detail hdetail
    split_ifs at hnext with hempty
    · exact Or.inl ⟨detail, _, hdetail, hempty, (Option.some.inj hnext).symm⟩
    · exact Or.inr (dropValue_eq_some hnext)
  · exact Or.inr (dropValue_eq_some hnext)

theorem Record.shed_eq_none {record : Record V} {length : ℕ} (hnone : record.shed length = none) :
    (∀ detail ∈ record.detail, detail = "") ∧ record.output = none ∧ record.counters = none := by
  have hvalues : record.dropValue = none → record.output = none ∧ record.counters = none := by
    intro hdrop
    unfold Record.dropValue at hdrop
    split_ifs at hdrop with houtput hcounters
    exact ⟨by simpa using houtput, by simpa using hcounters⟩
  unfold Record.shed at hnone
  cases hdetail : record.detail with
  | none =>
      rw [hdetail] at hnone
      exact ⟨fun _ h => absurd h (by simp), hvalues hnone⟩
  | some detail =>
      rw [hdetail] at hnone
      dsimp only at hnone
      split_ifs at hnone with hempty
      refine ⟨?_, hvalues hnone⟩
      intro detail' hmem
      rw [← Option.some.inj hmem]
      exact not_not.mp hempty

/-- The bytes of the detail and the values that may be shed. -/
def Record.weight (record : Record V) : ℕ :=
  (record.detail.map fun detail => byteLength detail.toList).getD 0 +
    record.output.isSome.toNat + record.counters.isSome.toNat

theorem Record.weight_shed_lt {record next : Record V} {length : ℕ}
    (hnext : record.shed length = some next) : next.weight < record.weight := by
  rcases shed_eq_some hnext with ⟨detail, overflow, hdetail, hempty, rfl⟩ | ⟨houtput, rfl⟩ |
    ⟨hcounters, rfl⟩
  · have hlt := byteLength_cutDetail_lt hempty overflow
    simp only [Record.weight, hdetail, Option.map_some, Option.getD_some]
    omega
  · simp [Record.weight, houtput]
  · simp [Record.weight, hcounters]

/-- `to_capped_json`. -/
def Record.toCappedJson (write : V → List Char) (record : Record V) : List Char :=
  let json := record.toJson write
  if byteLength json ≤ terminationMessageCap then json
  else
    match _hnext : record.shed (byteLength json) with
    | some next => next.toCappedJson write
    | none => json
termination_by record.weight
decreasing_by exact weight_shed_lt _hnext

/-- `TerminalRecord::parse`. -/
def Serde.parse (serde : Serde V) (message : String) : Option (Record V) :=
  (serde.fromStr (trim message)).filter (·.v = 1)

/-! ## What is shed -/

/-- What may become of a detail: it is cut to a beginning of its characters. -/
def DetailCut : Option String → Option String → Prop
  | none, none => True
  | some detail, some cut => cut.toList <+: detail.toList
  | _, _ => False

/-- A record differs from another only in what may be shed. -/
structure ShedOf (record shed : Record V) : Prop where
  v : shed.v = record.v
  attempt : shed.attempt = record.attempt
  state : shed.state = record.state
  exit : shed.exit = record.exit
  errorClass : shed.errorClass = record.errorClass
  terminationReason : shed.terminationReason = record.terminationReason
  snapshotStart : shed.snapshotStart = record.snapshotStart
  snapshotEnd : shed.snapshotEnd = record.snapshotEnd
  detail : DetailCut record.detail shed.detail
  output : shed.output = record.output ∨ shed.output = none
  counters : shed.counters = record.counters ∨ shed.counters = none

theorem DetailCut.refl (detail : Option String) : DetailCut detail detail := by
  cases detail with
  | none => trivial
  | some detail => exact List.prefix_refl _

theorem DetailCut.trans {first second third : Option String} (hfirst : DetailCut first second)
    (hsecond : DetailCut second third) : DetailCut first third := by
  cases first <;> cases second <;> cases third <;> simp only [DetailCut] at *
  exact hsecond.trans hfirst

theorem ShedOf.refl (record : Record V) : ShedOf record record where
  v := rfl
  attempt := rfl
  state := rfl
  exit := rfl
  errorClass := rfl
  terminationReason := rfl
  snapshotStart := rfl
  snapshotEnd := rfl
  detail := DetailCut.refl _
  output := Or.inl rfl
  counters := Or.inl rfl

theorem ShedOf.trans {first second third : Record V} (hfirst : ShedOf first second)
    (hsecond : ShedOf second third) : ShedOf first third where
  v := hsecond.v.trans hfirst.v
  attempt := hsecond.attempt.trans hfirst.attempt
  state := hsecond.state.trans hfirst.state
  exit := hsecond.exit.trans hfirst.exit
  errorClass := hsecond.errorClass.trans hfirst.errorClass
  terminationReason := hsecond.terminationReason.trans hfirst.terminationReason
  snapshotStart := hsecond.snapshotStart.trans hfirst.snapshotStart
  snapshotEnd := hsecond.snapshotEnd.trans hfirst.snapshotEnd
  detail := hfirst.detail.trans hsecond.detail
  output := hsecond.output.elim (fun h => h ▸ hfirst.output) Or.inr
  counters := hsecond.counters.elim (fun h => h ▸ hfirst.counters) Or.inr

/-- A round sheds only what may be shed. -/
theorem shedOf_of_shed {record next : Record V} {length : ℕ}
    (hnext : record.shed length = some next) : ShedOf record next := by
  have hrefl := ShedOf.refl record
  rcases Record.shed_eq_some hnext with ⟨detail, overflow, hdetail, _, rfl⟩ | ⟨_, rfl⟩ | ⟨_, rfl⟩
  · refine { hrefl with detail := ?_ }
    rw [hdetail]
    exact cutDetail_prefix detail overflow
  · exact { hrefl with output := Or.inr rfl }
  · exact { hrefl with counters := Or.inr rfl }

/-- The text is that of a record from which something was shed, and either it fits or nothing is
left to shed. -/
theorem exists_shedOf_toCappedJson (write : V → List Char) (record : Record V) :
    ∃ shed, ShedOf record shed ∧ record.toCappedJson write = shed.toJson write ∧
      (byteLength (shed.toJson write) ≤ terminationMessageCap ∨
        ∃ length, shed.shed length = none) := by
  induction hweight : record.weight using Nat.strong_induction_on generalizing record with
  | _ weight ih =>
    rw [Record.toCappedJson]
    split_ifs with hfits
    · exact ⟨record, ShedOf.refl record, rfl, Or.inl hfits⟩
    · split
      · rename_i next hnext
        have hlt := Record.weight_shed_lt hnext
        obtain ⟨shed, hshed, htext, hend⟩ := ih next.weight (hweight ▸ hlt) next rfl
        exact ⟨shed, (shedOf_of_shed hnext).trans hshed, htext, hend⟩
      · rename_i hnone
        exact ⟨record, ShedOf.refl record, rfl, Or.inr ⟨_, hnone⟩⟩

/-- The bytes of members with a comma after each. -/
def membersLength (members : List (List Char)) : ℕ :=
  (members.map fun text => byteLength text + 1).sum

theorem membersLength_append (first second : List (List Char)) :
    membersLength (first ++ second) = membersLength first + membersLength second := by
  rw [membersLength, List.map_append, List.sum_append]
  rfl

theorem byteLength_intercalate_cons (first : List Char) (members : List (List Char)) :
    byteLength ([','].intercalate (first :: members)) + 1 = membersLength (first :: members) := by
  induction members generalizing first with
  | nil =>
      show byteLength (first ++ []) + 1 = byteLength first + 1 + 0
      rw [List.append_nil]
  | cons second members ih =>
      have hsplit : [','].intercalate (first :: second :: members) =
          first ++ ',' :: [','].intercalate (second :: members) := rfl
      have hlength : membersLength (first :: second :: members) =
          byteLength first + 1 + membersLength (second :: members) := List.sum_cons
      have hcomma : Char.utf8Size ',' = 1 := by decide
      have hrest := ih second
      rw [hsplit, hlength, byteLength_append, byteLength_cons, hcomma]
      omega

theorem byteLength_member (name : String) (value : List Char) :
    byteLength (member name value) = byteLength (jsonString name) + 1 + byteLength value := by
  rw [member, byteLength_append, byteLength_cons, ← Nat.add_assoc]
  rfl

/-- A member is as long as its name and value, or nothing. -/
theorem membersLength_optionalMember {A : Type*} (name : String) (write : A → List Char)
    (value : Option A) (bound : ℕ) (hbound : ∀ a ∈ value, byteLength (write a) ≤ bound) :
    membersLength (optionalMember name write value) ≤ byteLength (jsonString name) + 2 + bound := by
  cases value with
  | none => exact Nat.zero_le _
  | some a =>
      have hlength := hbound a rfl
      have hmembers : membersLength (optionalMember name write (some a)) =
          byteLength (member name (write a)) + 1 := Nat.add_zero _
      rw [hmembers, byteLength_member]
      omega

theorem utf8Size_of_isDigit {c : Char} (hc : c.isDigit = true) : c.utf8Size = 1 := by
  have hrange : c.val ≤ 57 := by
    simp only [Char.isDigit, Bool.and_eq_true, decide_eq_true_eq] at hc
    exact hc.2
  have hcode : c.val.toNat ≤ 57 := UInt32.le_iff_toNat_le.mp hrange
  exact Char.utf8Size_eq_one_iff.mpr (UInt32.le_iff_toNat_le.mpr (hcode.trans (by decide)))

theorem byteLength_pad_le {width n k : ℕ} (hwidth : width ≤ 1) (hk : 0 < k) (hn : n < 10 ^ k) :
    byteLength (pad width n) ≤ k := by
  have hbytes : byteLength (pad width n) = (pad width n).length := by
    have hsum : ∀ text : List Char, (∀ c ∈ text, c.isDigit = true) →
        byteLength text = text.length := by
      intro text htext
      induction text with
      | nil => rfl
      | cons c text ih =>
          rw [byteLength_cons, ih fun d hd => htext d (List.mem_cons_of_mem _ hd),
            utf8Size_of_isDigit (htext c List.mem_cons_self), List.length_cons, Nat.add_comm]
    exact hsum _ fun c hc => isDigit_of_mem_pad hc
  have hlength : (Nat.toDigits 10 n).length ≤ k :=
    (Nat.length_toDigits_le_iff (by decide) hk).mpr hn
  rw [hbytes, pad, List.length_leftpad]
  omega

theorem byteLength_padInt_le {n : ℤ} {k : ℕ} (hk : 0 < k) (hn : n.natAbs < 10 ^ k) :
    byteLength (padInt 1 n) ≤ k + 1 := by
  have hsign : Char.utf8Size '-' = 1 := by decide
  unfold padInt
  split_ifs
  · rw [byteLength_cons, hsign, Nat.add_comm]
    exact Nat.succ_le_succ (byteLength_pad_le (by decide) hk hn)
  · exact (byteLength_pad_le le_rfl hk hn).trans (Nat.le_succ k)

/-- The bytes of the names that are never shed. -/
def Record.namesLength (record : Record V) : ℕ :=
  byteLength (jsonString record.attempt) +
    (record.errorClass.map fun text => byteLength (jsonString text)).getD 0 +
    (record.terminationReason.map fun text => byteLength (jsonString text)).getD 0

/-- A comma after each member but the last, and the braces. -/
theorem byteLength_toJson (write : V → List Char) (record : Record V) :
    byteLength (record.toJson write) = membersLength (record.members write) + 1 := by
  have hjoined : byteLength ([','].intercalate (record.members write)) + 1 =
      membersLength (record.members write) := byteLength_intercalate_cons _ _
  rw [Record.toJson, List.cons_append, byteLength_cons, byteLength_append]
  show 1 + (_ + 1) = _
  omega

theorem byteLength_toJson_le {write : V → List Char} {record : Record V} (hv : record.v = 1)
    (hdetail : ∀ detail ∈ record.detail, detail = "") (houtput : record.output = none)
    (hcounters : record.counters = none) :
    byteLength (record.toJson write) ≤ record.namesLength + 512 := by
  have hstate : byteLength (jsonString record.state.name) ≤ 13 := by
    cases record.state <;> decide
  have hexit : byteLength (padInt 1 record.exit) ≤ 11 := by
    have hbounds := record.exit_bounds
    unfold InI32 at hbounds
    exact byteLength_padInt_le (k := 10) (by decide) (by omega)
  have hsnapshot : ∀ n, InI64 n → byteLength (padInt 1 n) ≤ 20 := by
    intro n hn
    unfold InI64 at hn
    exact byteLength_padInt_le (k := 19) (by decide) (by omega)
  have herror := membersLength_optionalMember "error_class" jsonString record.errorClass
    ((record.errorClass.map fun text => byteLength (jsonString text)).getD 0)
    (fun text htext => by rw [htext]; exact le_rfl)
  have hreason := membersLength_optionalMember "termination_reason" jsonString
    record.terminationReason
    ((record.terminationReason.map fun text => byteLength (jsonString text)).getD 0)
    (fun text htext => by rw [htext]; exact le_rfl)
  have hcut := membersLength_optionalMember "detail" jsonString record.detail 2
    (fun text htext => by rw [hdetail text htext]; decide)
  have hstart := membersLength_optionalMember "snapshot_start" (padInt 1) record.snapshotStart 20
    (fun n hn => hsnapshot n (record.snapshotStart_bounds n hn))
  have hend := membersLength_optionalMember "snapshot_end" (padInt 1) record.snapshotEnd 20
    (fun n hn => hsnapshot n (record.snapshotEnd_bounds n hn))
  have hnames : byteLength (jsonString "error_class") = 13 ∧
      byteLength (jsonString "termination_reason") = 20 ∧
      byteLength (jsonString "detail") = 8 ∧ byteLength (jsonString "snapshot_start") = 16 ∧
      byteLength (jsonString "snapshot_end") = 14 := by decide
  have hfixed : membersLength [member "v" (pad 1 record.v),
        member "attempt" (jsonString record.attempt),
        member "state" (jsonString record.state.name), member "exit" (padInt 1 record.exit)] ≤
      byteLength (jsonString record.attempt) + 60 := by
    have hv : byteLength (pad 1 record.v) = 1 := by rw [hv]; decide
    have hnames : byteLength (jsonString "v") = 3 ∧ byteLength (jsonString "attempt") = 9 ∧
        byteLength (jsonString "state") = 7 ∧ byteLength (jsonString "exit") = 6 := by decide
    simp only [membersLength, List.map_cons, List.map_nil, List.sum_cons, List.sum_nil,
      byteLength_member]
    omega
  have hmembers : membersLength (record.members write) ≤ record.namesLength + 500 := by
    have hnone : ∀ name, membersLength (optionalMember name write (none : Option V)) = 0 :=
      fun _ => rfl
    simp only [Record.members, membersLength_append, houtput, hcounters, hnone]
    unfold Record.namesLength
    omega
  rw [byteLength_toJson]
  omega

/-- How a record comes back from JSON: a null value is read as none. -/
def Record.readBack (isNull : V → Bool) (record : Record V) : Record V :=
  { record with
    output := record.output.filter fun value => !isNull value
    counters := record.counters.filter fun value => !isNull value }

theorem shedOf_readBack {isNull : V → Bool} {record shed : Record V} (hshed : ShedOf record shed) :
    ShedOf record (shed.readBack isNull) := by
  have hfilter : ∀ {value original : Option V}, (value = original ∨ value = none) →
      value.filter (fun value => !isNull value) = original ∨
        value.filter (fun value => !isNull value) = none := by
    intro value original hvalue
    cases hkept : value.filter fun value => !isNull value with
    | none => exact Or.inr rfl
    | some kept =>
        have hsame := (Option.filter_eq_some_iff.mp hkept).1
        rcases hvalue with rfl | rfl
        · exact Or.inl hsame.symm
        · cases hsame
  exact { hshed with output := hfilter hshed.output, counters := hfilter hshed.counters }

/-- The braces of an object are no white space. -/
theorem trim_toJson (write : V → List Char) (record : Record V) :
    trim (String.ofList (record.toJson write)) = String.ofList (record.toJson write) := by
  have hopen : isWhiteSpace '\x7b' = false := by decide
  have hclose : isWhiteSpace '\x7d' = false := by decide
  rw [trim, String.toList_ofList, Record.toJson, List.cons_append,
    List.dropWhile_cons_of_neg (by simp [hopen]), ← List.cons_append, List.reverse_append,
    List.reverse_singleton, List.singleton_append,
    List.dropWhile_cons_of_neg (by simp [hclose]), List.reverse_cons, List.reverse_reverse]

/-- When JSON is read back as it was written, the capped text of a record whose names are short has
at most 4096 bytes and is parsed as a record that differs only in what may be shed; a record that
fits is written as it is. -/
theorem capped_record_survives (serde : Serde V) (record : Record V) (hv : record.v = 1)
    (hnames : record.namesLength ≤ 2048)
    (hfaithful : ∀ shed, ShedOf record shed →
      serde.fromStr (String.ofList (shed.toJson serde.write)) = some (shed.readBack serde.isNull)) :
    byteLength (record.toCappedJson serde.write) ≤ terminationMessageCap ∧
      (∃ parsed, serde.parse (String.ofList (record.toCappedJson serde.write)) = some parsed ∧
        ShedOf record parsed) ∧
      (byteLength (record.toJson serde.write) ≤ terminationMessageCap →
        record.toCappedJson serde.write = record.toJson serde.write) := by
  obtain ⟨shed, hshed, htext, hend⟩ := exists_shedOf_toCappedJson serde.write record
  refine ⟨?_, ?_, ?_⟩
  · rw [htext]
    rcases hend with hfits | ⟨length, hnone⟩
    · exact hfits
    · obtain ⟨hdetail, houtput, hcounters⟩ := Record.shed_eq_none hnone
      have hsame : shed.namesLength = record.namesLength := by
        rw [Record.namesLength, Record.namesLength, hshed.attempt, hshed.errorClass,
          hshed.terminationReason]
      have hlength : byteLength (shed.toJson serde.write) ≤ shed.namesLength + 512 :=
        byteLength_toJson_le (hshed.v.trans hv) hdetail houtput hcounters
      unfold terminationMessageCap
      omega
  · have hparsed : ShedOf record (shed.readBack serde.isNull) := shedOf_readBack hshed
    refine ⟨_, ?_, hparsed⟩
    rw [htext, Serde.parse, trim_toJson, hfaithful shed hshed, Option.filter_some,
      if_pos (decide_eq_true (hparsed.v.trans hv))]
  · intro hfits
    rw [Record.toCappedJson, if_pos hfits]

/-- A failed attempt with an output. -/
def failedRecord : Record Unit where
  v := 1
  attempt := "a1"
  state := .failed
  exit := 1
  errorClass := some "data"
  terminationReason := none
  detail := none
  output := some ()
  snapshotStart := none
  snapshotEnd := some 12
  counters := none
  exit_bounds := by unfold InI32; decide
  snapshotStart_bounds n hn := by cases hn
  snapshotEnd_bounds n hn := by cases hn; unfold InI64; decide

/-- The record without the output. -/
def cutRecord : Record Unit := { failedRecord with output := none }

/-- A string of 4096 characters. -/
@[irreducible] def longOutput : List Char := '"' :: List.replicate 4096 'x' ++ ['"']

/-- The output is a long string, and the texts of the two records are known. -/
def Serde.known : Serde Unit where
  write _ := longOutput
  isNull _ := false
  fromStr text :=
    if text = String.ofList (failedRecord.toJson fun _ => longOutput) then some failedRecord
    else if text = String.ofList (cutRecord.toJson fun _ => longOutput) then some cutRecord
    else none

theorem eq_of_shedOf_failedRecord {shed : Record Unit} (hshed : ShedOf failedRecord shed) :
    shed = failedRecord ∨ shed = cutRecord := by
  rcases shed with ⟨⟨state, exit, errorClass, terminationReason, detail, output⟩, v, attempt,
    snapshotStart, snapshotEnd, counters, _, _, _⟩
  obtain ⟨rfl, rfl, rfl, rfl, rfl, rfl, rfl, rfl, hdetail, houtput, hcounters⟩ := hshed
  have hvalues : counters = none := hcounters.elim id id
  subst hvalues
  cases detail with
  | some detail => cases hdetail
  | none =>
      rcases houtput with rfl | rfl
      · exact Or.inl rfl
      · exact Or.inr rfl

/-- The output alone is longer than the cap. -/
theorem failedRecord_over_cap :
    terminationMessageCap < byteLength (failedRecord.toJson Serde.known.write) := by
  have hlong : byteLength longOutput = 4098 := by
    rw [longOutput, List.cons_append, byteLength_cons, byteLength_append, byteLength,
      List.map_replicate, List.sum_replicate]
    decide
  have hmembers : failedRecord.members Serde.known.write =
      [member "v" (pad 1 1), member "attempt" (jsonString "a1"),
        member "state" (jsonString "failed"), member "exit" (padInt 1 1),
        member "error_class" (jsonString "data")] ++
      member "output" longOutput :: [member "snapshot_end" (padInt 1 12)] := rfl
  have hcons : ∀ first members,
      membersLength (first :: members) = byteLength first + 1 + membersLength members :=
    fun _ _ => List.sum_cons
  rw [byteLength_toJson, hmembers, membersLength_append, hcons (member "output" longOutput),
    byteLength_member, hlong]
  unfold terminationMessageCap
  omega

theorem cutRecord_within_cap :
    byteLength (cutRecord.toJson Serde.known.write) ≤ terminationMessageCap := by
  have hnames : cutRecord.namesLength = 10 := by decide
  have hlength : byteLength (cutRecord.toJson Serde.known.write) ≤ cutRecord.namesLength + 512 :=
    byteLength_toJson_le rfl (fun _ hdetail => nomatch hdetail) rfl rfl
  unfold terminationMessageCap
  omega

/-- A record over the cap comes back without its output. -/
theorem capped_record_survives_of_failed :
    terminationMessageCap < byteLength (failedRecord.toJson Serde.known.write) ∧
      byteLength (failedRecord.toCappedJson Serde.known.write) ≤ terminationMessageCap ∧
      ∃ parsed, Serde.known.parse
          (String.ofList (failedRecord.toCappedJson Serde.known.write)) = some parsed ∧
        ShedOf failedRecord parsed := by
  have hsurvives := capped_record_survives Serde.known failedRecord rfl (by decide) (by
    intro shed hshed
    have hne : String.ofList (failedRecord.toJson Serde.known.write) ≠
        String.ofList (cutRecord.toJson Serde.known.write) := by
      intro hsame
      have hlong := failedRecord_over_cap
      rw [String.ofList_injective hsame] at hlong
      exact absurd cutRecord_within_cap (Nat.not_le.mpr hlong)
    rcases eq_of_shedOf_failedRecord hshed with rfl | rfl
    · exact if_pos rfl
    · exact (if_neg hne.symm).trans (if_pos rfl))
  exact ⟨failedRecord_over_cap, hsurvives.1, hsurvives.2.1⟩

end EntityResolution.Executor
