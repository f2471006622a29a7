/-
# The text of a minted id

`Ids` tells a deterministic id by its timestamp and its mint counter and orders ids by
the two. The store holds texts, and compares texts. Here the text is built as the engine
builds it: the counter's bytes are laid after two zero bytes, the `uuid` crate sets the
version and the variant over them, and the sixteen bytes are written in hyphenated
hexadecimal.

The crate is a parameter. Of its layout only what RFC 9562 fixes for version 7 is assumed:
48 bits of time, the version, 12 bits, the variant, 62 bits. The version overwrites half of
a byte that is zero, and the variant two bits that are zero below the counter's bound, so
neither takes part in the order, and the text refines the id.
-/

import EntityResolution.Foundations.FixedWidth
import EntityResolution.Identity.Ids

namespace EntityResolution.Identity

open EntityResolution.Collections EntityResolution.FixedWidth

/-- The calls made of the `uuid` crate: `Builder::from_unix_timestamp_millis` with
`into_uuid`, and `to_string`. -/
structure UuidCrate where
  fromUnixTimestampMillis : ℕ → Vector UInt8 10 → Vector UInt8 16
  toString : Vector UInt8 16 → String

/-- The layout of version 7: the time, the version and 12 bits, the variant and 62 bits. -/
def v7Layout (millis : ℕ) (rand : Vector UInt8 10) : List UInt8 :=
  bigEndian 6 millis ++
    ((0x70 : UInt8) ||| (rand[0] &&& 0x0F)) :: rand[1] ::
      ((0x80 : UInt8) ||| (rand[2] &&& 0x3F)) ::
      rand.toList.drop 3

/-- The canonical text: lowercase digits in groups of 8, 4, 4, 4 and 12. -/
def canonicalText (uuid : List UInt8) : String := String.ofList (grouped [4, 2, 2, 2] uuid)

/-- The crate does what RFC 9562 says of version 7 and of the canonical text. -/
structure UuidCrate.Rfc9562 (uuid : UuidCrate) : Prop where
  layout : ∀ millis < 2 ^ 48, ∀ rand,
    (uuid.fromUnixTimestampMillis millis rand).toList = v7Layout millis rand
  text : ∀ bytes, uuid.toString bytes = canonicalText bytes.toList

/-- `u64::to_be_bytes`. -/
def toBeBytes (value : ℕ) : Vector UInt8 8 := ⟨(bigEndian 8 value).toArray, by simp⟩

/-- The panic of `deterministic_v7`. -/
inductive CounterPanic
  | mustFitRandB
  deriving DecidableEq

/-- The text of the panic. -/
def CounterPanic.message : CounterPanic → String
  | .mustFitRandB => "deterministic_v7 counter must fit UUIDv7's 62-bit rand_b field"

/-- The bytes handed to the builder: two zero bytes, then the counter. -/
def randOf (counter : ℕ) : Vector UInt8 10 := (#v[0, 0] : Vector UInt8 2) ++ toBeBytes counter

/-- The text of an id. -/
def V7Id.text (uuid : UuidCrate) (id : V7Id) : String :=
  uuid.toString (uuid.fromUnixTimestampMillis id.unixTsMs (randOf id.counter))

/-- `deterministic_v7`: the text of a timestamp and a counter. -/
def deterministicV7Text (uuid : UuidCrate) (unixTsMs counter : ℕ) : Except CounterPanic String :=
  if counter < 1 <<< 62 then
    .ok (uuid.toString (uuid.fromUnixTimestampMillis unixTsMs (randOf counter)))
  else .error .mustFitRandB

/-- `DeterministicV7Factory`: the run's time and the next counter. -/
structure DeterministicV7Factory where
  unixTsMs : ℕ
  next : ℕ
  deriving DecidableEq

/-- `DeterministicV7Factory::new_id`. -/
def DeterministicV7Factory.newId (uuid : UuidCrate) (factory : DeterministicV7Factory) :
    Except CounterPanic (String × DeterministicV7Factory) := do
  let text ← deterministicV7Text uuid factory.unixTsMs factory.next
  .ok (text, { factory with next := factory.next + 1 })

/-- The ids of the next calls, in the order of the calls. -/
def DeterministicV7Factory.mint (uuid : UuidCrate) :
    ℕ → DeterministicV7Factory → Except CounterPanic (List String)
  | 0, _ => .ok []
  | n + 1, factory => do
      let (text, factory') ← factory.newId uuid
      let rest ← mint uuid n factory'
      .ok (text :: rest)

/-- Below the counter's bound the variant is added to the counter's first byte. -/
theorem variant_byte {first : ℕ} (hfirst : first < 64) :
    (0x80 : UInt8) ||| (UInt8.ofNat first &&& 0x3F) = UInt8.ofNat (128 + first) := by
  have hall : ∀ lead : Fin 64,
      (0x80 : UInt8) ||| (UInt8.ofNat lead &&& 0x3F) = UInt8.ofNat (128 + lead) := by decide
  exact hall ⟨first, hfirst⟩

theorem leading_lt {counter : ℕ} (hcounter : counter < counterBound) :
    counter / 256 ^ 7 < 64 := by
  rw [Nat.div_lt_iff_lt_mul (by norm_num)]
  exact lt_of_lt_of_eq hcounter (by norm_num [counterBound])

theorem toList_randOf (counter : ℕ) :
    (randOf counter).toList = 0 :: 0 :: bigEndian 8 counter := by
  have happend : (randOf counter).toList =
      (#v[0, 0] : Vector UInt8 2).toList ++ (toBeBytes counter).toList := Vector.toList_append
  rw [happend]
  simp [toBeBytes]

/-- The sixteen bytes of a time and a counter. -/
theorem v7Layout_randOf (unixTsMs : ℕ) {counter : ℕ} (hcounter : counter < counterBound) :
    v7Layout unixTsMs (randOf counter) = bigEndian 6 unixTsMs ++
      0x70 :: 0 :: UInt8.ofNat (128 + counter / 256 ^ 7) :: bigEndian 7 (counter % 256 ^ 7) := by
  have hlead := leading_lt hcounter
  have hbytes : (randOf counter).toList = 0 :: 0 :: UInt8.ofNat (counter / 256 ^ 7) ::
      bigEndian 7 (counter % 256 ^ 7) := by
    rw [toList_randOf, bigEndian]
  have hat (i : ℕ) (hi : i < 10) : (randOf counter).toList[i]? = some (randOf counter)[i] := by
    simp
  have hfirst := hat 0 (by omega)
  have hsecond := hat 1 (by omega)
  have hthird := hat 2 (by omega)
  simp only [hbytes, List.getElem?_cons_zero, List.getElem?_cons_succ, Option.some_inj]
    at hfirst hsecond hthird
  rw [v7Layout, ← hfirst, ← hsecond, ← hthird, hbytes, variant_byte hlead]
  rfl

/-- The ids that the builder lays out without loss. -/
structure V7Id.Fits (id : V7Id) : Prop where
  unixTsMs : id.unixTsMs < 2 ^ 48
  counter : id.counter < counterBound

theorem V7Id.lt_iff {id id' : V7Id} :
    id < id' ↔ id.unixTsMs < id'.unixTsMs ∨
      id.unixTsMs = id'.unixTsMs ∧ id.counter < id'.counter :=
  Prod.Lex.toLex_lt_toLex

theorem v7Layout_lt_iff {id id' : V7Id} (hfits : id.Fits) (hfits' : id'.Fits) :
    v7Layout id.unixTsMs (randOf id.counter) < v7Layout id'.unixTsMs (randOf id'.counter) ↔
      id < id' := by
  have hlead := leading_lt hfits.counter
  have hlead' := leading_lt hfits'.counter
  have htime : id.unixTsMs < 256 ^ 6 := lt_of_lt_of_eq hfits.unixTsMs (by norm_num)
  have htime' : id'.unixTsMs < 256 ^ 6 := lt_of_lt_of_eq hfits'.unixTsMs (by norm_num)
  have hlength : (bigEndian 6 id.unixTsMs).length = (bigEndian 6 id'.unixTsMs).length := by simp
  have hpos : 0 < 256 ^ 7 := by norm_num
  have hrest (counter : ℕ) : counter % 256 ^ 7 < 256 ^ 7 := Nat.mod_lt _ hpos
  rw [v7Layout_randOf _ hfits.counter, v7Layout_randOf _ hfits'.counter,
    append_lt_append_iff hlength, bigEndian_lt_bigEndian_iff htime htime',
    bigEndian_inj htime htime', cons_lt_cons_same_iff _ (UInt8.lt_irrefl _),
    cons_lt_cons_same_iff _ (UInt8.lt_irrefl _), List.cons_lt_cons_iff,
    ofNat_lt_ofNat_iff (by omega) (by omega), ofNat_eq_ofNat_iff (by omega) (by omega),
    bigEndian_lt_bigEndian_iff (hrest _) (hrest _), V7Id.lt_iff,
    lt_iff_div_lt_or_mod_lt id.counter id'.counter hpos]
  simp only [Nat.add_lt_add_iff_left, Nat.add_left_cancel_iff]

section Text

variable {uuid : UuidCrate} (hrfc : uuid.Rfc9562)
include hrfc

theorem V7Id.text_eq {id : V7Id} (hfits : id.Fits) :
    id.text uuid = canonicalText (v7Layout id.unixTsMs (randOf id.counter)) := by
  rw [V7Id.text, hrfc.text, hrfc.layout _ hfits.unixTsMs]

theorem V7Id.text_lt_text_iff {id id' : V7Id} (hfits : id.Fits) (hfits' : id'.Fits) :
    id.text uuid < id'.text uuid ↔ id < id' := by
  have hlength : (v7Layout id.unixTsMs (randOf id.counter)).length =
      (v7Layout id'.unixTsMs (randOf id'.counter)).length := by
    simp [v7Layout]
  rw [V7Id.text_eq hrfc hfits, V7Id.text_eq hrfc hfits', String.lt_iff_toList_lt, canonicalText,
    canonicalText, String.toList_ofList, String.toList_ofList, grouped_lt_grouped_iff hlength,
    v7Layout_lt_iff hfits hfits']

theorem V7Id.text_inj {id id' : V7Id} (hfits : id.Fits) (hfits' : id'.Fits) :
    id.text uuid = id'.text uuid ↔ id = id' := by
  constructor
  · intro hsame
    have hlt := V7Id.text_lt_text_iff hrfc hfits hfits'
    have hgt := V7Id.text_lt_text_iff hrfc hfits' hfits
    rw [hsame] at hlt hgt
    have hle : ¬ id < id' := fun hless => lt_irrefl _ (hlt.mpr hless)
    have hge : ¬ id' < id := fun hless => lt_irrefl _ (hgt.mpr hless)
    exact le_antisymm (not_lt.mp hge) (not_lt.mp hle)
  · intro hsame
    rw [hsame]

end Text

section Stream

variable {uuid : UuidCrate}

theorem deterministicV7Text_eq_ok {unixTsMs counter : ℕ} (hcounter : counter < counterBound) :
    deterministicV7Text uuid unixTsMs counter = .ok (V7Id.text uuid ⟨unixTsMs, counter⟩) :=
  if_pos hcounter

theorem deterministicV7Text_ok {unixTsMs counter : ℕ} {text : String}
    (hok : deterministicV7Text uuid unixTsMs counter = .ok text) :
    counter < counterBound ∧ text = V7Id.text uuid ⟨unixTsMs, counter⟩ := by
  by_cases hcounter : counter < counterBound
  · rw [deterministicV7Text_eq_ok hcounter] at hok
    exact ⟨hcounter, (Except.ok.inj hok).symm⟩
  · have herror : deterministicV7Text uuid unixTsMs counter = .error .mustFitRandB :=
      if_neg hcounter
    rw [herror] at hok
    cases hok

theorem draw_eq {unixTsMs : ℕ} (hts : unixTsMs < 2 ^ 48) (start i : ℕ) :
    (deterministicV7Factory unixTsMs start).draw i = ⟨unixTsMs, start + i⟩ := by
  simp only [IdFactory.draw, deterministicV7Factory, deterministicV7, Nat.mod_eq_of_lt hts]

/-- A call inside the bound hands out the text of the counter and advances it. -/
theorem newId_eq_ok {factory : DeterministicV7Factory} (hnext : factory.next < counterBound) :
    factory.newId uuid = .ok (V7Id.text uuid ⟨factory.unixTsMs, factory.next⟩,
      ⟨factory.unixTsMs, factory.next + 1⟩) := by
  rw [DeterministicV7Factory.newId, deterministicV7Text_eq_ok hnext]
  rfl

theorem newId_ok {factory after : DeterministicV7Factory} {text : String}
    (hok : factory.newId uuid = .ok (text, after)) : factory.next < counterBound ∧
      text = V7Id.text uuid ⟨factory.unixTsMs, factory.next⟩ ∧
      after = ⟨factory.unixTsMs, factory.next + 1⟩ := by
  obtain ⟨minted, hminted, hpair⟩ := bind_eq_ok_iff.mp hok
  obtain ⟨hnext, rfl⟩ := deterministicV7Text_ok hminted
  cases hpair
  exact ⟨hnext, rfl, rfl⟩

/-- The ids of the next calls are the texts of the next counters. -/
def textsFrom (uuid : UuidCrate) (n : ℕ) (factory : DeterministicV7Factory) : List String :=
  (List.range n).map fun i => V7Id.text uuid ⟨factory.unixTsMs, factory.next + i⟩

theorem textsFrom_succ (n : ℕ) (factory : DeterministicV7Factory) :
    textsFrom uuid (n + 1) factory = V7Id.text uuid ⟨factory.unixTsMs, factory.next⟩ ::
      textsFrom uuid n ⟨factory.unixTsMs, factory.next + 1⟩ := by
  have hshift (i : ℕ) : factory.next + 1 + i = factory.next + (i + 1) := by omega
  simp only [textsFrom, List.range_succ_eq_map, List.map_cons, List.map_map, Nat.add_zero, hshift]
  rfl

/-- A stream inside the bound does not panic. -/
theorem mint_eq_ok (n : ℕ) {factory : DeterministicV7Factory}
    (hfits : factory.next + n ≤ counterBound) :
    factory.mint uuid n = .ok (textsFrom uuid n factory) := by
  induction n generalizing factory with
  | zero => rfl
  | succ n ih =>
      have hrest : DeterministicV7Factory.mint uuid n ⟨factory.unixTsMs, factory.next + 1⟩ =
          .ok (textsFrom uuid n ⟨factory.unixTsMs, factory.next + 1⟩) := by
        apply ih
        simp only
        omega
      rw [DeterministicV7Factory.mint, newId_eq_ok (by omega), textsFrom_succ]
      simp only [bind, Except.bind, hrest]

/-- A stream that does not panic stays inside the bound. -/
theorem mint_ok (n : ℕ) {factory : DeterministicV7Factory} {ids : List String}
    (hok : factory.mint uuid n = .ok ids) :
    ids = textsFrom uuid n factory ∧ ∀ i < n, factory.next + i < counterBound := by
  induction n generalizing factory ids with
  | zero => exact ⟨(Except.ok.inj hok).symm, by simp⟩
  | succ n ih =>
      rw [DeterministicV7Factory.mint] at hok
      obtain ⟨⟨text, after⟩, hnew, hlater⟩ := bind_eq_ok_iff.mp hok
      obtain ⟨rest, hrest, hids⟩ := bind_eq_ok_iff.mp hlater
      obtain ⟨hnext, rfl, rfl⟩ := newId_ok hnew
      obtain ⟨rfl, hbound⟩ := ih hrest
      constructor
      · rw [textsFrom_succ]
        exact (Except.ok.inj hids).symm
      · intro i hi
        cases i with
        | zero => exact hnext
        | succ i =>
            have hlater : factory.next + 1 + i < counterBound := hbound i (by omega)
            omega

/-- The stream refines the abstract factory: its texts are those of the ids that the
factory of `Ids` draws. -/
theorem textsFrom_eq_draw {unixTsMs : ℕ} (hts : unixTsMs < 2 ^ 48) (start n : ℕ) :
    textsFrom uuid n ⟨unixTsMs, start⟩ =
      (List.range n).map fun i => ((deterministicV7Factory unixTsMs start).draw i).text uuid := by
  simp only [textsFrom, draw_eq hts]

theorem mem_textsFrom {n : ℕ} {factory : DeterministicV7Factory} {text : String} :
    text ∈ textsFrom uuid n factory ↔
      ∃ i < n, V7Id.text uuid ⟨factory.unixTsMs, factory.next + i⟩ = text := by
  simp [textsFrom]

/-- The texts of ascending counters ascend. -/
theorem pairwise_textsFrom (hrfc : uuid.Rfc9562) {n : ℕ} {factory : DeterministicV7Factory}
    (hts : factory.unixTsMs < 2 ^ 48) (hbound : ∀ i < n, factory.next + i < counterBound) :
    (textsFrom uuid n factory).Pairwise (· < ·) := by
  rw [textsFrom, List.pairwise_map]
  apply List.pairwise_lt_range.imp_of_mem
  intro i j hi hj hlt
  rw [V7Id.text_lt_text_iff hrfc ⟨hts, hbound i (List.mem_range.mp hi)⟩
    ⟨hts, hbound j (List.mem_range.mp hj)⟩, V7Id.lt_iff]
  exact .inr ⟨rfl, Nat.add_lt_add_left hlt _⟩

end Stream

/-- Minted ids are ordered and distinct. For a crate that lays version 7 out as the RFC
does, texts sort by the time and then by the counter; a factory's stream ascends for as long
as its counter fits; and two factories of different times, or of one time over disjoint
counters, have no id in common. -/
theorem minted_ids_ordered (uuid : UuidCrate) (hrfc : uuid.Rfc9562) :
    (∀ ts < 2 ^ 48, ∀ ts' < 2 ^ 48, ∀ counter < 2 ^ 62, ∀ counter' < 2 ^ 62,
      ∃ text text', deterministicV7Text uuid ts counter = .ok text ∧
        deterministicV7Text uuid ts' counter' = .ok text' ∧
        (text < text' ↔ toLex (ts, counter) < toLex (ts', counter'))) ∧
    (∀ ts < 2 ^ 48, ∀ start n,
      (start + n ≤ 2 ^ 62 → ∃ ids, DeterministicV7Factory.mint uuid n ⟨ts, start⟩ = .ok ids) ∧
      ∀ ids, DeterministicV7Factory.mint uuid n ⟨ts, start⟩ = .ok ids →
        ids.length = n ∧ ids.Pairwise (· < ·)) ∧
    (∀ ts < 2 ^ 48, ∀ ts' < 2 ^ 48, ∀ start start' n n' ids ids',
      DeterministicV7Factory.mint uuid n ⟨ts, start⟩ = .ok ids →
      DeterministicV7Factory.mint uuid n' ⟨ts', start'⟩ = .ok ids' →
      (ts ≠ ts' ∨ Disjoint (Set.Ico start (start + n)) (Set.Ico start' (start' + n'))) →
      ids.Disjoint ids') := by
  refine ⟨?_, ?_, ?_⟩
  · intro ts hts ts' hts' counter hcounter counter' hcounter'
    have hfits : V7Id.Fits ⟨ts, counter⟩ := ⟨hts, hcounter⟩
    have hfits' : V7Id.Fits ⟨ts', counter'⟩ := ⟨hts', hcounter'⟩
    exact ⟨_, _, deterministicV7Text_eq_ok hcounter, deterministicV7Text_eq_ok hcounter',
      V7Id.text_lt_text_iff hrfc hfits hfits'⟩
  · intro ts hts start n
    constructor
    · intro hfits
      exact ⟨_, mint_eq_ok n hfits⟩
    · intro ids hids
      obtain ⟨rfl, hbound⟩ := mint_ok n hids
      exact ⟨by simp [textsFrom], pairwise_textsFrom hrfc hts hbound⟩
  · intro ts hts ts' hts' start start' n n' ids ids' hids hids' hapart text htext htext'
    obtain ⟨rfl, hbound⟩ := mint_ok n hids
    obtain ⟨rfl, hbound'⟩ := mint_ok n' hids'
    obtain ⟨i, hi, hleft⟩ := mem_textsFrom.mp htext
    obtain ⟨j, hj, hright⟩ := mem_textsFrom.mp htext'
    have hsame := (V7Id.text_inj hrfc ⟨hts, hbound i hi⟩ ⟨hts', hbound' j hj⟩).mp
      (hleft.trans hright.symm)
    have hcounter : start + i = start' + j := congrArg V7Id.counter hsame
    cases hapart with
    | inl htime => exact htime (congrArg V7Id.unixTsMs hsame)
    | inr hcounters =>
        have hmem : start + i ∈ Set.Ico start (start + n) := ⟨by omega, by omega⟩
        have hmem' : start + i ∈ Set.Ico start' (start' + n') := ⟨by omega, by omega⟩
        exact Set.disjoint_left.mp hcounters hmem hmem'

/-- A crate with the layout of the RFC. -/
def rfcUuid : UuidCrate where
  fromUnixTimestampMillis millis rand := ⟨(v7Layout millis rand).toArray, by simp [v7Layout]⟩
  toString bytes := canonicalText bytes.toList

theorem rfcUuid_rfc9562 : rfcUuid.Rfc9562 where
  layout _ _ _ := rfl
  text _ := rfl

/-- The two mints of one millisecond, and the first of the next. -/
theorem minted_ids_ordered_at_one_tick :
    ∃ first second third,
      deterministicV7Text rfcUuid 1700000000000 0 = .ok first ∧
      deterministicV7Text rfcUuid 1700000000000 1 = .ok second ∧
      deterministicV7Text rfcUuid 1700000000001 0 = .ok third ∧
      first < second ∧ second < third := by
  have hordered := (minted_ids_ordered rfcUuid rfcUuid_rfc9562).1
  obtain ⟨first, second, hfirst, hsecond, hlt⟩ :=
    hordered 1700000000000 (by norm_num) 1700000000000 (by norm_num) 0 (by norm_num) 1 (by norm_num)
  obtain ⟨second', third, hsecond', hthird, hlt'⟩ :=
    hordered 1700000000000 (by norm_num) 1700000000001 (by norm_num) 1 (by norm_num) 0 (by norm_num)
  obtain rfl : second = second' := Except.ok.inj (hsecond.symm.trans hsecond')
  exact ⟨first, second, third, hfirst, hsecond, hthird,
    hlt.mpr (Prod.Lex.toLex_lt_toLex.mpr (by simp)),
    hlt'.mpr (Prod.Lex.toLex_lt_toLex.mpr (by simp))⟩

end EntityResolution.Identity
