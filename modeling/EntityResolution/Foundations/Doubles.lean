/-
# Doubles

The values of binary64: a rational on the grid, an infinity or NaN. An operation is the exact one
followed by rounding to the nearest value, ties to even, and rounding is odd. The sign of zero is
not kept. The order is the total one of a database, in which NaN is equal to itself and above
everything.
-/

import EntityResolution.Foundations.Numerals

namespace EntityResolution.Doubles

open EntityResolution.Numerals

/-- A value of binary64. -/
inductive Double where
  | finite (value : ℚ)
  | infinite (negative : Bool)
  | nan
  deriving DecidableEq

/-- The nearest integer, an even one where two are nearest. -/
def roundHalfEven (x : ℚ) : ℤ :=
  if x - ⌊x⌋ < 1 / 2 then ⌊x⌋
  else if 1 / 2 < x - ⌊x⌋ then ⌊x⌋ + 1
  else if 2 ∣ ⌊x⌋ then ⌊x⌋
  else ⌊x⌋ + 1

/-- The distance of the values around a rational: 53 bits from its highest one down, but none below
the least subnormal value. -/
def spacing (q : ℚ) : ℚ := 2 ^ (max (Int.log 2 |q|) (-1022) - 52)

/-- The value of a rational, infinite beyond the largest one. -/
def Double.ofRat (q : ℚ) : Double :=
  if |roundHalfEven (q / spacing q) * spacing q| < 2 ^ 1024 then
    .finite (roundHalfEven (q / spacing q) * spacing q)
  else .infinite (q < 0)

/-- An integer is nearest, and even where two are. -/
def IsNearestEven (x : ℚ) (n : ℤ) : Prop := |x - n| < 1 / 2 ∨ |x - n| = 1 / 2 ∧ 2 ∣ n

theorem isNearestEven_roundHalfEven (x : ℚ) : IsNearestEven x (roundHalfEven x) := by
  have hlow := Int.floor_le x
  have hhigh := Int.lt_floor_add_one x
  have hbelow : |x - ⌊x⌋| = x - ⌊x⌋ := abs_of_nonneg (by linarith)
  have habove : |x - ((⌊x⌋ + 1 : ℤ) : ℚ)| = ⌊x⌋ + 1 - x := by
    rw [abs_sub_comm]
    push_cast
    exact abs_of_nonneg (by linarith)
  unfold roundHalfEven IsNearestEven
  split_ifs with hlt hgt heven
  · exact Or.inl (hbelow.trans_lt hlt)
  · exact Or.inl (habove.trans_lt (by linarith))
  · exact Or.inr ⟨hbelow.trans (by linarith), heven⟩
  · exact Or.inr ⟨habove.trans (by linarith), by omega⟩

theorem IsNearestEven.unique {x : ℚ} {m n : ℤ} (hm : IsNearestEven x m)
    (hn : IsNearestEven x n) : m = n := by
  have hdistance : |(m : ℚ) - n| ≤ |x - m| + |x - n| := by
    rw [abs_sub_comm x m]
    exact abs_sub_le _ _ _
  have hinteger : |(m : ℚ) - n| = ((|m - n| : ℤ) : ℚ) := by
    push_cast
    rfl
  rcases hm with hm | ⟨hm, hmEven⟩
  · have hclose : |x - n| ≤ 1 / 2 := hn.elim le_of_lt fun h => h.1.le
    have hlt : ((|m - n| : ℤ) : ℚ) < 1 := by linarith
    have hzero := abs_lt.mp (show |m - n| < 1 by exact_mod_cast hlt)
    omega
  · rcases hn with hn | ⟨hn, hnEven⟩
    · have hlt : ((|m - n| : ℤ) : ℚ) < 1 := by linarith
      have hzero := abs_lt.mp (show |m - n| < 1 by exact_mod_cast hlt)
      omega
    · have hle : ((|m - n| : ℤ) : ℚ) ≤ 1 := by linarith
      have hone := abs_le.mp (show |m - n| ≤ 1 by exact_mod_cast hle)
      omega

theorem roundHalfEven_neg (x : ℚ) : roundHalfEven (-x) = -roundHalfEven x := by
  have hdistance : |-x - ((-roundHalfEven x : ℤ) : ℚ)| = |x - roundHalfEven x| := by
    rw [Int.cast_neg, ← abs_neg]
    ring_nf
  have hneg : IsNearestEven (-x) (-roundHalfEven x) := by
    rw [IsNearestEven, hdistance, Int.dvd_neg]
    exact isNearestEven_roundHalfEven x
  exact (isNearestEven_roundHalfEven (-x)).unique hneg

theorem spacing_neg (q : ℚ) : spacing (-q) = spacing q := by
  rw [spacing, abs_neg, spacing]

theorem spacing_pos (q : ℚ) : 0 < spacing q := by
  unfold spacing
  positivity

/-- A rational of absolute value at most one is a finite value. -/
theorem ofRat_finite_of_abs_le_one {q : ℚ} (hq : |q| ≤ 1) :
    ∃ value, Double.ofRat q = .finite value := by
  have hspacing : spacing q ≤ 1 := by
    have hlog : Int.log 2 |q| ≤ 0 := by
      rcases (abs_nonneg q).eq_or_lt with hzero | hq0
      · exact (Int.log_of_right_le_zero 2 hzero.symm.le).le
      · exact (Int.log_mono_right hq0 hq).trans (Int.log_one_right 2).le
    have hexponent : max (Int.log 2 |q|) (-1022) - 52 ≤ 0 := by omega
    exact zpow_le_one_of_nonpos₀ (by norm_num) hexponent
  have hpos := spacing_pos q
  have hnear : |q / spacing q - roundHalfEven (q / spacing q)| ≤ 1 / 2 :=
    (isNearestEven_roundHalfEven (q / spacing q)).elim le_of_lt fun h => h.1.le
  have hsmall : |roundHalfEven (q / spacing q) * spacing q| ≤ 2 := by
    have hdistance : |q - roundHalfEven (q / spacing q) * spacing q| ≤ 1 / 2 := by
      have hscaled : q - roundHalfEven (q / spacing q) * spacing q =
          (q / spacing q - roundHalfEven (q / spacing q)) * spacing q := by
        field_simp
      rw [hscaled, abs_mul, abs_of_pos hpos]
      calc |q / spacing q - roundHalfEven (q / spacing q)| * spacing q
          ≤ 1 / 2 * 1 := mul_le_mul hnear hspacing hpos.le (by norm_num)
        _ = 1 / 2 := mul_one _
    have htriangle := abs_sub_abs_le_abs_sub (roundHalfEven (q / spacing q) * spacing q) q
    rw [abs_sub_comm] at htriangle
    linarith
  have hlarge : (2 : ℚ) < 2 ^ 1024 := by
    calc (2 : ℚ) = 2 ^ 1 := (pow_one 2).symm
      _ < 2 ^ 1024 := pow_lt_pow_right₀ (by norm_num) (by norm_num)
  exact ⟨_, if_pos (hsmall.trans_lt hlarge)⟩

namespace Double

/-- The value with the other sign. -/
def neg : Double → Double
  | finite value => finite (-value)
  | infinite negative => infinite !negative
  | nan => nan

/-- The value without its sign. -/
def abs : Double → Double
  | finite value => finite |value|
  | infinite _ => infinite false
  | nan => nan

/-- Subtraction. -/
def sub : Double → Double → Double
  | finite x, finite y => ofRat (x - y)
  | finite _, infinite negative => infinite !negative
  | infinite negative, finite _ => infinite negative
  | infinite x, infinite y => if x = y then nan else infinite x
  | nan, _ => nan
  | _, nan => nan

/-- Division. -/
def div : Double → Double → Double
  | finite x, finite y =>
      if y ≠ 0 then ofRat (x / y) else if x ≠ 0 then infinite (x < 0) else nan
  | finite _, infinite _ => finite 0
  | infinite negative, finite y => infinite (negative != decide (y < 0))
  | infinite _, infinite _ => nan
  | nan, _ => nan
  | _, nan => nan

/-- Where a value stands: below, among or above the finite ones, and NaN above all. -/
def place : Double → ℤ ×ₗ ℚ
  | infinite true => toLex (-1, 0)
  | finite value => toLex (0, value)
  | infinite false => toLex (1, 0)
  | nan => toLex (2, 0)

theorem place_injective : Function.Injective place := by
  intro x y hplace
  rcases x with x | ⟨_ | _⟩ | _ <;> rcases y with y | ⟨_ | _⟩ | _ <;>
    simp_all [place, Prod.ext_iff]

instance : LinearOrder Double := LinearOrder.lift' place place_injective

theorem ofRat_neg (q : ℚ) : ofRat (-q) = (ofRat q).neg := by
  have hround : roundHalfEven (-q / spacing (-q)) * spacing (-q) =
      -(roundHalfEven (q / spacing q) * spacing q) := by
    rw [spacing_neg, neg_div, roundHalfEven_neg]
    push_cast
    ring
  have hzero : roundHalfEven 0 = 0 :=
    (isNearestEven_roundHalfEven 0).unique (Or.inl (by norm_num))
  unfold ofRat
  rw [hround, abs_neg]
  split_ifs with hbound
  · rfl
  · have hq : q ≠ 0 := by
      rintro rfl
      apply hbound
      rw [zero_div, hzero, Int.cast_zero, zero_mul, abs_zero]
      positivity
    rcases lt_or_gt_of_ne hq with hneg | hpos
    · simp [neg, hneg, hneg.le]
    · simp [neg, hpos, hpos.le]

theorem sub_eq_neg_sub (x y : Double) : x.sub y = (y.sub x).neg := by
  cases x with
  | finite x =>
      cases y with
      | finite y =>
          show ofRat (x - y) = (ofRat (y - x)).neg
          rw [← ofRat_neg, neg_sub]
      | infinite negative => rfl
      | nan => rfl
  | infinite x =>
      cases y with
      | finite y => exact congrArg infinite (Bool.not_not x).symm
      | infinite y => cases x <;> cases y <;> rfl
      | nan => rfl
  | nan => cases y <;> rfl

/-- A distance does not depend on the order. -/
theorem abs_sub_swap (x y : Double) : (x.sub y).abs = (y.sub x).abs := by
  rw [sub_eq_neg_sub]
  cases y.sub x with
  | finite value => exact congrArg finite (abs_neg value)
  | infinite negative => rfl
  | nan => rfl

/-- The value is in a closed range; NaN is in none. -/
def within (low high : ℚ) : Double → Bool
  | finite value => low ≤ value ∧ value ≤ high
  | _ => false

/-- The value is below zero; NaN is not. -/
def isNegative : Double → Bool
  | finite value => value < 0
  | infinite negative => negative
  | nan => false

/-- The value is a number and no infinity. -/
def IsFinite (x : Double) : Prop := ∃ value, x = finite value

end Double

/-- The digits of a decimal numeral, none of which need be there. -/
def digitsValue (digits : List Char) : Option ℕ :=
  if digits.all Char.isDigit then some (Nat.ofDigitChars 10 digits 0) else none

/-- Digits with an optional point, and at least one digit. -/
def mantissa (text : List Char) : Option ℚ :=
  let whole := text.takeWhile (· ≠ '.')
  let fraction := (text.dropWhile (· ≠ '.')).drop 1
  if whole ++ fraction = [] then none
  else (digitsValue (whole ++ fraction)).map fun n => n / 10 ^ fraction.length

/-- The digits of an exponent, with an optional sign. -/
def exponent : List Char → Option ℤ
  | '-' :: digits => (numeral digits).map fun n => -n
  | '+' :: digits => (numeral digits).map fun n => n
  | digits => (numeral digits).map fun n => n

/-- A decimal number in lower case, with an optional exponent. -/
def decimal (text : List Char) : Option ℚ :=
  if 'e' ∈ text then do
    let significand ← mantissa (text.takeWhile (· ≠ 'e'))
    let power ← exponent ((text.dropWhile (· ≠ 'e')).drop 1)
    return significand * 10 ^ power
  else mantissa text

/-- The value of an unsigned text, in any case. -/
def magnitude (text : List Char) : Option Double :=
  let lower := text.map Char.toLower
  if lower = "inf".toList ∨ lower = "infinity".toList then some (.infinite false)
  else if lower = "nan".toList then some .nan
  else (decimal lower).map Double.ofRat

/-- `f64::from_str`. -/
def parseDouble : List Char → Option Double
  | '-' :: text => (magnitude text).map Double.neg
  | '+' :: text => magnitude text
  | text => magnitude text

end EntityResolution.Doubles
