/-
# Fixed-width numerals sort like their numbers

A number written big-endian in a fixed number of bytes, and bytes written in hexadecimal
with two digits each, keep their order: lists of one length compare at the first place
where they differ. The comparison of two concatenations whose heads have one length is
the rule that everything here rests on. Hyphens set between groups of bytes stand at the
same places in every text, so they do not take part in it.
-/

import Mathlib

namespace EntityResolution.FixedWidth

universe u

section Append

variable {A : Type u}

theorem append_lt_append_iff [LT A] {head head' tail tail' : List A}
    (hlength : head.length = head'.length) :
    head ++ tail < head' ++ tail' ↔ head < head' ∨ head = head' ∧ tail < tail' := by
  induction head generalizing head' with
  | nil =>
      obtain rfl : head' = [] := List.length_eq_zero_iff.mp hlength.symm
      simp
  | cons first rest ih =>
      cases head' with
      | nil => simp at hlength
      | cons first' rest' =>
          have hrest : rest.length = rest'.length := by simpa using hlength
          simp only [List.cons_append, List.cons_lt_cons_iff, List.cons.injEq, ih hrest]
          tauto

theorem cons_lt_cons_same_iff [LT A] (first : A) (hirrefl : ¬ first < first) {tail tail' : List A} :
    first :: tail < first :: tail' ↔ tail < tail' := by
  simp [List.cons_lt_cons_iff, hirrefl]

end Append

/-- The last `width` bytes of a number, most significant first. -/
def bigEndian : ℕ → ℕ → List UInt8
  | 0, _ => []
  | width + 1, value => UInt8.ofNat (value / 256 ^ width) :: bigEndian width (value % 256 ^ width)

@[simp] theorem length_bigEndian (width value : ℕ) : (bigEndian width value).length = width := by
  induction width generalizing value with
  | zero => rfl
  | succ width ih => simp [bigEndian, ih]

theorem lt_iff_div_lt_or_mod_lt (value value' : ℕ) {base : ℕ} (hbase : 0 < base) :
    value < value' ↔ value / base < value' / base ∨
      value / base = value' / base ∧ value % base < value' % base := by
  have hvalue := Nat.div_add_mod value base
  have hvalue' := Nat.div_add_mod value' base
  have hmod := Nat.mod_lt value hbase
  have hmod' := Nat.mod_lt value' hbase
  constructor
  · intro hlt
    have hdiv : value / base ≤ value' / base := Nat.div_le_div_right hlt.le
    cases hdiv.lt_or_eq with
    | inl hless => exact .inl hless
    | inr hsame =>
        rw [hsame] at hvalue
        exact .inr ⟨hsame, by omega⟩
  · intro hcase
    cases hcase with
    | inl hless => exact Nat.lt_of_div_lt_div hless
    | inr hrest =>
        obtain ⟨hsame, hless⟩ := hrest
        rw [hsame] at hvalue
        omega

theorem ofNat_lt_ofNat_iff {first second : ℕ} (hfirst : first < 256) (hsecond : second < 256) :
    UInt8.ofNat first < UInt8.ofNat second ↔ first < second := by
  rw [UInt8.lt_iff_toNat_lt, UInt8.toNat_ofNat_of_lt' hfirst, UInt8.toNat_ofNat_of_lt' hsecond]

theorem ofNat_eq_ofNat_iff {first second : ℕ} (hfirst : first < 256) (hsecond : second < 256) :
    UInt8.ofNat first = UInt8.ofNat second ↔ first = second := by
  rw [← UInt8.toNat_inj, UInt8.toNat_ofNat_of_lt' hfirst, UInt8.toNat_ofNat_of_lt' hsecond]

theorem bigEndian_lt_bigEndian_iff {width value value' : ℕ} (hfits : value < 256 ^ width)
    (hfits' : value' < 256 ^ width) :
    bigEndian width value < bigEndian width value' ↔ value < value' := by
  induction width generalizing value value' with
  | zero =>
      simp only [pow_zero, Nat.lt_one_iff] at hfits hfits'
      subst hfits
      subst hfits'
      simp [bigEndian]
  | succ width ih =>
      have hpos : 0 < 256 ^ width := by positivity
      have hlead : value / 256 ^ width < 256 := by
        rw [Nat.div_lt_iff_lt_mul hpos]
        rwa [pow_succ, mul_comm] at hfits
      have hlead' : value' / 256 ^ width < 256 := by
        rw [Nat.div_lt_iff_lt_mul hpos]
        rwa [pow_succ, mul_comm] at hfits'
      rw [bigEndian, bigEndian, List.cons_lt_cons_iff, ofNat_lt_ofNat_iff hlead hlead',
        ofNat_eq_ofNat_iff hlead hlead', ih (Nat.mod_lt _ hpos) (Nat.mod_lt _ hpos),
        lt_iff_div_lt_or_mod_lt value value' hpos]

theorem bigEndian_inj {width value value' : ℕ} (hfits : value < 256 ^ width)
    (hfits' : value' < 256 ^ width) :
    bigEndian width value = bigEndian width value' ↔ value = value' := by
  constructor
  · intro hsame
    have hlt := bigEndian_lt_bigEndian_iff hfits hfits'
    have hgt := bigEndian_lt_bigEndian_iff hfits' hfits
    rw [hsame] at hlt hgt
    have hirrefl : ¬ bigEndian width value' < bigEndian width value' := List.lt_irrefl _
    have hle : ¬ value < value' := fun hless => hirrefl (hlt.mpr hless)
    have hge : ¬ value' < value := fun hless => hirrefl (hgt.mpr hless)
    omega
  · intro hsame
    rw [hsame]

/-- A lowercase hexadecimal digit. -/
def hexDigit (digit : ℕ) : Char := ("0123456789abcdef".toList).getD digit '0'

/-- A byte as two digits, high half first. -/
def hexByte (byte : UInt8) : List Char := [hexDigit (byte.toNat / 16), hexDigit (byte.toNat % 16)]

/-- Bytes as text without separators. -/
def hex (bytes : List UInt8) : List Char := bytes.flatMap hexByte

@[simp] theorem length_hexByte (byte : UInt8) : (hexByte byte).length = 2 := rfl

@[simp] theorem length_hex (bytes : List UInt8) : (hex bytes).length = 2 * bytes.length := by
  induction bytes with
  | nil => rfl
  | cons byte rest ih =>
      rw [hex, List.flatMap_cons, List.length_append, ← hex, ih, length_hexByte, List.length_cons]
      omega

/-- The digits ascend in the order of characters. -/
theorem hexDigit_strictMono : StrictMono fun digit : Fin 16 => hexDigit digit := by
  decide

theorem hexDigit_lt_hexDigit_iff {first second : ℕ} (hfirst : first < 16)
    (hsecond : second < 16) : hexDigit first < hexDigit second ↔ first < second :=
  hexDigit_strictMono.lt_iff_lt (a := ⟨first, hfirst⟩) (b := ⟨second, hsecond⟩)

theorem hexDigit_inj {first second : ℕ} (hfirst : first < 16) (hsecond : second < 16) :
    hexDigit first = hexDigit second ↔ first = second := by
  have hinj := hexDigit_strictMono.injective.eq_iff (a := ⟨first, hfirst⟩) (b := ⟨second, hsecond⟩)
  simpa using hinj

theorem hexByte_lt_hexByte_iff (first second : UInt8) :
    hexByte first < hexByte second ↔ first < second := by
  have hfirst : first.toNat < 256 := first.toNat_lt
  have hsecond : second.toNat < 256 := second.toNat_lt
  have hhigh : first.toNat / 16 < 16 := by omega
  have hhigh' : second.toNat / 16 < 16 := by omega
  have hlow : first.toNat % 16 < 16 := by omega
  have hlow' : second.toNat % 16 < 16 := by omega
  simp only [hexByte, List.cons_lt_cons_iff, hexDigit_lt_hexDigit_iff hhigh hhigh',
    hexDigit_inj hhigh hhigh', hexDigit_lt_hexDigit_iff hlow hlow', UInt8.lt_iff_toNat_lt,
    lt_irrefl, and_false, or_false]
  exact (lt_iff_div_lt_or_mod_lt first.toNat second.toNat (by norm_num)).symm

theorem hexByte_injective : Function.Injective hexByte := by
  intro first second hsame
  have hnot : ¬ first < second := by
    rw [← hexByte_lt_hexByte_iff, hsame]
    exact lt_irrefl _
  have hnot' : ¬ second < first := by
    rw [← hexByte_lt_hexByte_iff, hsame]
    exact lt_irrefl _
  rw [UInt8.lt_iff_toNat_lt] at hnot hnot'
  exact UInt8.toNat_inj.mp (by omega)

theorem hex_lt_hex_iff {bytes bytes' : List UInt8} (hlength : bytes.length = bytes'.length) :
    hex bytes < hex bytes' ↔ bytes < bytes' := by
  induction bytes generalizing bytes' with
  | nil =>
      obtain rfl : bytes' = [] := List.length_eq_zero_iff.mp hlength.symm
      simp [hex]
  | cons byte rest ih =>
      cases bytes' with
      | nil => simp at hlength
      | cons byte' rest' =>
          have hrest : rest.length = rest'.length := by simpa using hlength
          have hhead : (hexByte byte).length = (hexByte byte').length := rfl
          have htail := ih hrest
          simp only [hex, List.flatMap_cons] at htail ⊢
          rw [append_lt_append_iff hhead, htail, hexByte_lt_hexByte_iff,
            hexByte_injective.eq_iff, List.cons_lt_cons_iff]

theorem hex_inj {bytes bytes' : List UInt8} : hex bytes = hex bytes' ↔ bytes = bytes' := by
  constructor
  · intro hsame
    have hlength : bytes.length = bytes'.length := by
      have hcount := congrArg List.length hsame
      simpa using hcount
    induction bytes generalizing bytes' with
    | nil => exact (List.length_eq_zero_iff.mp hlength.symm).symm
    | cons byte rest ih =>
        cases bytes' with
        | nil => simp at hlength
        | cons byte' rest' =>
            simp only [hex, List.flatMap_cons] at hsame
            obtain ⟨hhead, htail⟩ := List.append_inj hsame rfl
            rw [hexByte_injective hhead, ih htail (by simpa using hlength)]
  · intro hsame
    rw [hsame]

/-- Bytes as text, with a hyphen after each group of the given sizes. -/
def grouped : List ℕ → List UInt8 → List Char
  | [], bytes => hex bytes
  | size :: sizes, bytes => hex (bytes.take size) ++ '-' :: grouped sizes (bytes.drop size)

/-- The hyphens of two texts over one count of bytes stand at the same places, so the texts
are ordered like the bytes. -/
theorem grouped_lt_grouped_iff {sizes : List ℕ} {bytes bytes' : List UInt8}
    (hlength : bytes.length = bytes'.length) :
    grouped sizes bytes < grouped sizes bytes' ↔ bytes < bytes' := by
  induction sizes generalizing bytes bytes' with
  | nil => exact hex_lt_hex_iff hlength
  | cons size sizes ih =>
      have htake : (bytes.take size).length = (bytes'.take size).length := by simp [hlength]
      have hdrop : (bytes.drop size).length = (bytes'.drop size).length := by simp [hlength]
      have hhex : (hex (bytes.take size)).length = (hex (bytes'.take size)).length := by
        simp [hlength]
      calc grouped (size :: sizes) bytes < grouped (size :: sizes) bytes'
          ↔ bytes.take size < bytes'.take size ∨
              bytes.take size = bytes'.take size ∧ bytes.drop size < bytes'.drop size := by
            rw [grouped, grouped, append_lt_append_iff hhex,
              cons_lt_cons_same_iff _ (lt_irrefl _), hex_lt_hex_iff htake, hex_inj, ih hdrop]
        _ ↔ bytes < bytes' := by
            rw [← append_lt_append_iff htake, List.take_append_drop, List.take_append_drop]

end EntityResolution.FixedWidth
