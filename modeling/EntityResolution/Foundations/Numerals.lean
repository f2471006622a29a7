/-
# Decimal numerals

Texts of decimal digits, how integers are read from them with the sign that a parser of machine
integers admits, and how numbers are written with a least width. A number that is written is read
back, and numerals of one width are ordered as their values are.
-/

import Mathlib

namespace EntityResolution.Numerals

/-- The number that a text of decimal digits stands for. -/
def numeral (text : List Char) : Option ℕ :=
  if text ≠ [] ∧ text.all Char.isDigit = true then some (Nat.ofDigitChars 10 text 0) else none

/-- An unsigned integer below a bound, with an optional plus sign. -/
def parseUnsigned (bound : ℕ) : List Char → Option ℕ
  | '+' :: digits => (numeral digits).filter (· < bound)
  | digits => (numeral digits).filter (· < bound)

/-- A signed integer of so many bits, with an optional sign. -/
def parseSigned (bits : ℕ) : List Char → Option ℤ
  | '-' :: digits => ((numeral digits).filter (· ≤ 2 ^ (bits - 1))).map fun n : ℕ => -(n : ℤ)
  | '+' :: digits => ((numeral digits).filter (· < 2 ^ (bits - 1))).map fun n : ℕ => (n : ℤ)
  | digits => ((numeral digits).filter (· < 2 ^ (bits - 1))).map fun n : ℕ => (n : ℤ)

theorem numeral_eq_some_iff {text : List Char} {n : ℕ} : numeral text = some n ↔
    (text ≠ [] ∧ ∀ c ∈ text, c.isDigit = true) ∧ Nat.ofDigitChars 10 text 0 = n := by
  rw [numeral, ← List.all_eq_true]
  split_ifs with hdigits
  · rw [Option.some_inj]
    exact ⟨fun hvalue => ⟨hdigits, hvalue⟩, fun h => h.2⟩
  · exact ⟨fun h => absurd h (by simp), fun h => absurd h.1 hdigits⟩

theorem head_of_numeral {c : Char} {text : List Char} {n : ℕ}
    (hnumeral : numeral (c :: text) = some n) : c.isDigit = true :=
  (numeral_eq_some_iff.mp hnumeral).1.2 c List.mem_cons_self

/-- An unsigned numeral is read as it is. -/
theorem parseSigned_of_numeral {bits n : ℕ} {text : List Char} (hnumeral : numeral text = some n)
    (hbound : n < 2 ^ (bits - 1)) : parseSigned bits text = some (n : ℤ) := by
  have hread : ((numeral text).filter (· < 2 ^ (bits - 1))).map (fun n : ℕ => (n : ℤ)) =
      some (n : ℤ) := by
    rw [hnumeral, Option.filter_some, if_pos (by simpa using hbound), Option.map_some]
  unfold parseSigned
  split
  · exact absurd (head_of_numeral hnumeral) (by decide)
  · exact absurd (head_of_numeral hnumeral) (by decide)
  · exact hread

/-- A number with leading zeros up to a width. -/
def pad (width n : ℕ) : List Char := (Nat.toDigits 10 n).leftpad width '0'

/-- An integer with leading zeros up to a width; the sign counts. -/
def padInt (width : ℕ) (n : ℤ) : List Char :=
  if n < 0 then '-' :: pad (width - 1) n.natAbs else pad width n.natAbs

@[simp]
theorem padInt_natCast (width n : ℕ) : padInt width n = pad width n := by
  rw [padInt, if_neg (by omega), Int.natAbs_natCast]

theorem isDigit_of_mem_pad {width n : ℕ} {c : Char} (hc : c ∈ pad width n) : c.isDigit = true := by
  rw [pad, List.leftpad, List.mem_append] at hc
  rcases hc with hzero | hdigit
  · rw [List.eq_of_mem_replicate hzero]
    rfl
  · exact Nat.isDigit_of_mem_toDigits (by decide) (by decide) hdigit

theorem pad_ne_nil (width n : ℕ) : pad width n ≠ [] := by
  rw [pad, List.leftpad]
  exact List.append_ne_nil_of_right_ne_nil _ Nat.toDigits_ne_nil

/-- What is written is read back. -/
@[simp]
theorem numeral_pad (width n : ℕ) : numeral (pad width n) = some n := by
  rw [numeral_eq_some_iff]
  refine ⟨⟨pad_ne_nil width n, fun c hc => isDigit_of_mem_pad hc⟩, ?_⟩
  rw [pad, List.leftpad, Nat.ofDigitChars_append, Nat.ofDigitChars_replicate_zero, Nat.mul_zero,
    Nat.ofDigitChars_ten_toDigits]

theorem notMem_pad {width n : ℕ} {c : Char} (hc : c.isDigit = false) : c ∉ pad width n := by
  intro hmem
  rw [isDigit_of_mem_pad hmem] at hc
  exact absurd hc (by decide)

theorem length_pad {width n : ℕ} (hwidth : 0 < width) (hn : n < 10 ^ width) :
    (pad width n).length = width := by
  rw [pad, List.length_leftpad]
  exact max_eq_left ((Nat.length_toDigits_le_iff (by decide) hwidth).mpr hn)

theorem append_lt_append {A : Type*} [LinearOrder A] {first second : List A}
    (hlength : first.length = second.length) (hlt : first < second) (rest other : List A) :
    first ++ rest < second ++ other := by
  induction first generalizing second with
  | nil =>
      rw [List.length_nil] at hlength
      rw [List.eq_nil_of_length_eq_zero hlength.symm] at hlt
      exact absurd hlt (lt_irrefl _)
  | cons a first ih =>
      cases second with
      | nil => cases hlength
      | cons b second =>
          rw [List.cons_append, List.cons_append, List.cons_lt_cons_iff]
          rcases List.cons_lt_cons_iff.mp hlt with hhead | ⟨rfl, htail⟩
          · exact .inl hhead
          · exact .inr ⟨rfl, ih (by simpa using hlength) htail⟩

theorem append_lt_append_left {A : Type*} [LinearOrder A] (text : List A) {rest other : List A}
    (hlt : rest < other) : text ++ rest < text ++ other := by
  induction text with
  | nil => exact hlt
  | cons a text ih => exact List.cons_lt_cons_iff.mpr (.inr ⟨rfl, ih⟩)

/-- The value of a digit. -/
def digitValue (c : Char) : ℕ := c.toNat - '0'.toNat

theorem ofDigitChars_cons_eq (c : Char) (text : List Char) :
    Nat.ofDigitChars 10 (c :: text) 0 =
      10 ^ text.length * digitValue c + Nat.ofDigitChars 10 text 0 := by
  rw [Nat.ofDigitChars_cons, Nat.mul_zero, Nat.zero_add, Nat.ofDigitChars_eq_ofDigitChars_zero,
    digitValue]

theorem digitValue_le {c : Char} (hc : c.isDigit = true) :
    digitValue c ≤ 9 ∧ c.toNat = 48 + digitValue c := by
  have hbounds : 48 ≤ c.toNat ∧ c.toNat ≤ 57 := Char.isDigit_iff_toNat.mp hc
  have hzero : '0'.toNat = 48 := rfl
  rw [digitValue, hzero]
  omega

theorem ofDigitChars_lt {text : List Char} (hdigits : ∀ c ∈ text, c.isDigit = true) :
    Nat.ofDigitChars 10 text 0 < 10 ^ text.length := by
  induction text with
  | nil => simp
  | cons c text ih =>
      have hrest := ih fun d hd => hdigits d (List.mem_cons_of_mem _ hd)
      have hc := (digitValue_le (hdigits c List.mem_cons_self)).1
      rw [ofDigitChars_cons_eq, List.length_cons, pow_succ]
      nlinarith

theorem lt_of_ofDigitChars_lt {first second : List Char} (hlength : first.length = second.length)
    (hfirst : ∀ c ∈ first, c.isDigit = true) (hsecond : ∀ c ∈ second, c.isDigit = true)
    (hlt : Nat.ofDigitChars 10 first 0 < Nat.ofDigitChars 10 second 0) : first < second := by
  induction first generalizing second with
  | nil =>
      rw [List.length_nil] at hlength
      rw [List.eq_nil_of_length_eq_zero hlength.symm] at hlt
      exact absurd hlt (lt_irrefl _)
  | cons c first ih =>
      cases second with
      | nil => cases hlength
      | cons d second =>
          have hlength' : first.length = second.length := by simpa using hlength
          have hc := digitValue_le (hfirst c List.mem_cons_self)
          have hd := digitValue_le (hsecond d List.mem_cons_self)
          have hfirst' : ∀ x ∈ first, x.isDigit = true :=
            fun x hx => hfirst x (List.mem_cons_of_mem _ hx)
          have hsecond' : ∀ x ∈ second, x.isDigit = true :=
            fun x hx => hsecond x (List.mem_cons_of_mem _ hx)
          rw [ofDigitChars_cons_eq, ofDigitChars_cons_eq, hlength'] at hlt
          rw [List.cons_lt_cons_iff]
          rcases Nat.lt_trichotomy (digitValue c) (digitValue d) with hbelow | hsame | habove
          · refine .inl (Char.lt_def.mpr (UInt32.lt_iff_toNat_lt.mpr ?_))
            change c.toNat < d.toNat
            omega
          · have hchar : c = d := Char.toNat_inj.mp (by omega)
            rw [hsame] at hlt
            exact .inr ⟨hchar, ih hlength' hfirst' hsecond' (by omega)⟩
          · have hvalue := ofDigitChars_lt hsecond'
            have hstep : 10 ^ second.length * (digitValue d + 1) ≤
                10 ^ second.length * digitValue c := Nat.mul_le_mul_left _ habove
            rw [Nat.mul_succ] at hstep
            omega

/-- Padded to one width, numbers are in the order of their texts. -/
theorem pad_lt_pad {width m n : ℕ} (hlt : m < n) (hn : n < 10 ^ width) :
    pad width m < pad width n := by
  have hwidth : 0 < width := by
    apply Nat.pos_of_ne_zero
    rintro rfl
    omega
  apply lt_of_ofDigitChars_lt
  · rw [length_pad hwidth (by omega), length_pad hwidth hn]
  · exact fun c hc => isDigit_of_mem_pad hc
  · exact fun c hc => isDigit_of_mem_pad hc
  · rw [(numeral_eq_some_iff.mp (numeral_pad width m)).2,
      (numeral_eq_some_iff.mp (numeral_pad width n)).2]
    exact hlt

end EntityResolution.Numerals
