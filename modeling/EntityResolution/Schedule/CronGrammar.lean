/-
# The grammar of cron expressions and what it denotes

The documented grammar as a relation between texts and terms, and the minutes that an expression
denotes: every term is a set of values, with Sunday both 0 and 7, and of the two day fields either
may match when neither has a `*` term. Parsing is then described term by term: which terms it
reads, and which values it takes from them.
-/

import EntityResolution.Schedule.Cron

namespace EntityResolution.Schedule

open EntityResolution.Collections EntityResolution.Numerals EntityResolution.Identity
  EntityResolution.Golden

/-- The fields of an expression, in their order. -/
inductive FieldKind
  | minute
  | hour
  | dayOfMonth
  | month
  | dayOfWeek
  deriving DecidableEq

namespace FieldKind

/-- The name of a field in its errors. -/
def name : FieldKind → String
  | minute => "minute"
  | hour => "hour"
  | dayOfMonth => "day-of-month"
  | month => "month"
  | dayOfWeek => "day-of-week"

def min : FieldKind → ℕ
  | minute => 0
  | hour => 0
  | dayOfMonth => 1
  | month => 1
  | dayOfWeek => 0

def max : FieldKind → ℕ
  | minute => 59
  | hour => 23
  | dayOfMonth => 31
  | month => 12
  | dayOfWeek => 6

/-- The last value that may be written: Sunday is 7 as well. -/
def last : FieldKind → ℕ
  | dayOfWeek => 7
  | kind => kind.max

/-- The value that a written value stands for. -/
def stands (kind : FieldKind) (v : ℕ) : ℕ := if kind = dayOfWeek then v % 7 else v

end FieldKind

/-- The range part of a term: `*`, `a` or `a-b`. -/
inductive Range
  | star
  | value (a : ℕ)
  | between (a b : ℕ)
  deriving DecidableEq

/-- A term; without a step it steps by one. -/
structure Term where
  range : Range
  step : ℕ
  deriving DecidableEq

/-- The two ends of a range. -/
def Range.ends (kind : FieldKind) : Range → ℕ × ℕ
  | star => (kind.min, kind.max)
  | value a => (a, a)
  | between a b => (a, b)

/-- The ends are in the field's range and in their order. -/
def Range.Within (kind : FieldKind) : Range → Prop
  | star => True
  | value a => kind.min ≤ a ∧ a ≤ kind.last
  | between a b => kind.min ≤ a ∧ a ≤ b ∧ b ≤ kind.last

/-- A term of the grammar. -/
def Term.Valid (kind : FieldKind) (term : Term) : Prop := term.range.Within kind ∧ 1 ≤ term.step

/-- A value of the range, some steps from its begin. -/
def Term.Holds (kind : FieldKind) (term : Term) (w : ℕ) : Prop :=
  (term.range.ends kind).1 ≤ w ∧ w ≤ (term.range.ends kind).2 ∧
    term.step ∣ w - (term.range.ends kind).1

/-- The values that a term denotes. -/
def Term.Denotes (kind : FieldKind) (term : Term) (v : ℕ) : Prop :=
  ∃ w, term.Holds kind w ∧ v = kind.stands w

section Texts

variable (number : List Char → Option ℕ)

/-- The texts of a range, by how numbers are written. -/
inductive RangeText : List Char → Range → Prop
  | star : RangeText ['*'] .star
  | value {text : List Char} {a : ℕ} (ha : number text = some a) : RangeText text (.value a)
  | between {first second : List Char} {a b : ℕ} (ha : number first = some a)
      (hb : number second = some b) : RangeText (first ++ '-' :: second) (.between a b)

/-- The texts of a term. -/
inductive TermText : List Char → Term → Prop
  | plain {text : List Char} {range : Range} (hrange : RangeText number text range) :
      TermText text ⟨range, 1⟩
  | stepped {text digits : List Char} {range : Range} {step : ℕ}
      (hrange : RangeText number text range) (hstep : number digits = some step) :
      TermText (text ++ '/' :: digits) ⟨range, step⟩

/-- An expression of five fields, each a list of valid terms between commas. -/
def Reads (expr : String) (terms : FieldKind → List Term) : Prop :=
  ∃ texts : FieldKind → List Char,
    splitWhitespace expr.toList =
      [texts .minute, texts .hour, texts .dayOfMonth, texts .month, texts .dayOfWeek] ∧
    ∀ kind, List.Forall₂ (TermText number) ((texts kind).splitOn ',') (terms kind) ∧
      ∀ term ∈ terms kind, term.Valid kind

end Texts

/-- The values of a field. -/
def FieldDenotes (kind : FieldKind) (terms : List Term) (v : ℕ) : Prop :=
  ∃ term ∈ terms, term.Denotes kind v

/-- A field without a `*` term. -/
def Restricted (terms : List Term) : Prop := ∀ term ∈ terms, term.range ≠ .star

instance (terms : List Term) : Decidable (Restricted terms) :=
  inferInstanceAs (Decidable (∀ term ∈ terms, term.range ≠ .star))

/-- The minutes that an expression denotes. -/
def Fires (terms : FieldKind → List Term) (minute hour dayOfMonth month dayOfWeek : ℕ) : Prop :=
  (FieldDenotes .minute (terms .minute) minute ∧ FieldDenotes .hour (terms .hour) hour ∧
    FieldDenotes .month (terms .month) month) ∧
    if Restricted (terms .dayOfMonth) ∧ Restricted (terms .dayOfWeek) then
      FieldDenotes .dayOfMonth (terms .dayOfMonth) dayOfMonth ∨
        FieldDenotes .dayOfWeek (terms .dayOfWeek) dayOfWeek
    else FieldDenotes .dayOfMonth (terms .dayOfMonth) dayOfMonth ∧
      FieldDenotes .dayOfWeek (terms .dayOfWeek) dayOfWeek

/-- A number with an optional plus sign, as `u32::from_str` admits it. -/
def signedNumeral : List Char → Option ℕ
  | '+' :: digits => numeral digits
  | digits => numeral digits

theorem parseU32_eq_some_iff {text : List Char} {n : ℕ} :
    parseU32 text = some n ↔ signedNumeral text = some n ∧ n < 2 ^ 32 := by
  rw [parseU32, parseUnsigned.eq_def, signedNumeral.eq_def]
  split <;> simp [Option.filter_eq_some_iff]

/-- The characters of a number. -/
def NumberChars (number : List Char → Option ℕ) : Prop :=
  ∀ text n, number text = some n → text ≠ [] ∧ ∀ c ∈ text, c.isDigit = true ∨ c = '+'

theorem numberChars_numeral : NumberChars numeral := by
  intro text n hnumber
  have hdigits := (numeral_eq_some_iff.mp hnumber).1
  exact ⟨hdigits.1, fun c hc => .inl (hdigits.2 c hc)⟩

theorem numberChars_signedNumeral : NumberChars signedNumeral := by
  intro text n hnumber
  unfold signedNumeral at hnumber
  split at hnumber
  · have hdigits := (numeral_eq_some_iff.mp hnumber).1
    refine ⟨List.cons_ne_nil _ _, ?_⟩
    intro c hc
    rcases List.mem_cons.mp hc with rfl | hc
    · exact .inr rfl
    · exact .inl (hdigits.2 c hc)
  · exact numberChars_numeral _ _ hnumber

/-- What has no sign is read the same way. -/
theorem signedNumeral_of_numeral {text : List Char} {n : ℕ} (hnumeral : numeral text = some n) :
    signedNumeral text = some n := by
  unfold signedNumeral
  split
  · exact absurd (head_of_numeral hnumeral) (by decide)
  · exact hnumeral

section Reading

variable {number : List Char → Option ℕ}

theorem NumberChars.notMem (hchars : NumberChars number) {text : List Char} {n : ℕ}
    (hnumber : number text = some n) {c : Char} (hc : c.isDigit = false ∧ c ≠ '+') :
    c ∉ text := by
  intro hmem
  rcases (hchars text n hnumber).2 c hmem with hdigit | hplus
  · rw [hc.1] at hdigit
    cases hdigit
  · exact hc.2 hplus

/-- The range that a text is read as. -/
def readRange (number : List Char → Option ℕ) (text : List Char) : Option Range :=
  if text = ['*'] then some .star
  else match splitOnce '-' text with
    | some (first, second) => do return .between (← number first) (← number second)
    | none => (number text).map .value

theorem rangeText_iff (hchars : NumberChars number) {text : List Char} {range : Range} :
    RangeText number text range ↔ readRange number text = some range := by
  apply Iff.intro
  · rintro (_ | ⟨ha⟩ | ⟨ha, hb⟩)
    · rfl
    · have hstar := hchars.notMem ha (c := '*') (by decide)
      have hdash := hchars.notMem ha (c := '-') (by decide)
      rw [readRange, if_neg (by rintro rfl; exact hstar List.mem_cons_self),
        splitOnce_eq_none_iff.mpr hdash]
      simp only [ha, Option.map_some]
    · have hdash := hchars.notMem ha (c := '-') (by decide)
      rw [readRange, if_neg, splitOnce_eq_some_iff.mpr ⟨hdash, rfl⟩]
      · simp only [ha, hb]
        rfl
      · intro hstar
        have hmem : '-' ∈ ['*'] := by
          rw [← hstar]
          simp
        exact absurd hmem (by decide)
  · intro hread
    rw [readRange] at hread
    split_ifs at hread with hstar
    · rw [Option.some_inj] at hread
      rw [hstar, ← hread]
      exact .star
    · split at hread
      · next first second hsplit =>
          rw [(splitOnce_eq_some_iff.mp hsplit).2]
          obtain ⟨a, ha, hrest⟩ := Option.bind_eq_some_iff.mp hread
          obtain ⟨b, hb, hpure⟩ := Option.bind_eq_some_iff.mp hrest
          rw [← Option.some_inj.mp hpure]
          exact .between ha hb
      · obtain ⟨a, ha, rfl⟩ := Option.map_eq_some_iff.mp hread
        exact .value ha

/-- The range of a text has no slash. -/
theorem RangeText.notMem_slash (hchars : NumberChars number) {text : List Char} {range : Range}
    (hrange : RangeText number text range) : '/' ∉ text := by
  rcases hrange with _ | ⟨ha⟩ | ⟨ha, hb⟩
  · decide
  · exact hchars.notMem ha (by decide)
  · simp only [List.mem_append, List.mem_cons, not_or]
    exact ⟨hchars.notMem ha (by decide), by decide, hchars.notMem hb (by decide)⟩

/-- The term that a text is read as. -/
def readTerm (number : List Char → Option ℕ) (text : List Char) : Option Term :=
  match splitOnce '/' text with
  | some (range, digits) => do return ⟨← readRange number range, ← number digits⟩
  | none => (readRange number text).map fun range => ⟨range, 1⟩

theorem termText_iff (hchars : NumberChars number) {text : List Char} {term : Term} :
    TermText number text term ↔ readTerm number text = some term := by
  apply Iff.intro
  · rintro (⟨hrange⟩ | ⟨hrange, hstep⟩)
    · rw [readTerm, splitOnce_eq_none_iff.mpr (hrange.notMem_slash hchars)]
      simp only [(rangeText_iff hchars).mp hrange, Option.map_some]
    · rw [readTerm, splitOnce_eq_some_iff.mpr ⟨hrange.notMem_slash hchars, rfl⟩]
      simp only [(rangeText_iff hchars).mp hrange, hstep]
      rfl
  · intro hread
    rw [readTerm] at hread
    split at hread
    · next range digits hsplit =>
        rw [(splitOnce_eq_some_iff.mp hsplit).2]
        obtain ⟨a, ha, hrest⟩ := Option.bind_eq_some_iff.mp hread
        obtain ⟨b, hb, hpure⟩ := Option.bind_eq_some_iff.mp hrest
        rw [← Option.some_inj.mp hpure]
        exact .stepped ((rangeText_iff hchars).mpr ha) hb
    · obtain ⟨a, ha, rfl⟩ := Option.map_eq_some_iff.mp hread
      exact .plain ((rangeText_iff hchars).mpr ha)

/-- A text is read as one term at most. -/
theorem TermText.unique (hchars : NumberChars number) {text : List Char} {first second : Term}
    (hfirst : TermText number text first) (hsecond : TermText number text second) :
    first = second := by
  rw [termText_iff hchars] at hfirst hsecond
  exact Option.some_inj.mp (hfirst.symm.trans hsecond)

/-- Texts that are read without signs are read the same way with them. -/
theorem RangeText.signed {text : List Char} {range : Range}
    (hrange : RangeText numeral text range) :
    RangeText signedNumeral text range := by
  rcases hrange with _ | ⟨ha⟩ | ⟨ha, hb⟩
  · exact .star
  · exact .value (signedNumeral_of_numeral ha)
  · exact .between (signedNumeral_of_numeral ha) (signedNumeral_of_numeral hb)

theorem TermText.signed {text : List Char} {term : Term} (hterm : TermText numeral text term) :
    TermText signedNumeral text term := by
  rcases hterm with ⟨hrange⟩ | ⟨hrange, hstep⟩
  · exact .plain hrange.signed
  · exact .stepped hrange.signed (signedNumeral_of_numeral hstep)

end Reading

/-! ## What a term is taken for -/

/-- The ends of the loop for a term. -/
def Term.low (kind : FieldKind) (term : Term) : ℕ :=
  foldSunday kind.name (term.range.ends kind).1

def Term.high (kind : FieldKind) (term : Term) : ℕ :=
  foldSunday kind.name (term.range.ends kind).2

/-- The values that parsing takes from a term. -/
def Term.Takes (kind : FieldKind) (term : Term) (v : ℕ) : Prop :=
  term.low kind ≤ v ∧ v ≤ term.high kind ∧ term.step ∣ v - term.low kind

/-- The step is a `u32`, and so is the first value after the begin. -/
def Term.Fits (kind : FieldKind) (term : Term) : Prop :=
  term.step < 2 ^ 32 ∧ (term.low kind ≤ term.high kind → term.low kind + term.step < 2 ^ 32)

instance (kind : FieldKind) (term : Term) : Decidable (term.Fits kind) :=
  inferInstanceAs (Decidable (_ ∧ (_ → _)))

theorem foldSunday_eq (kind : FieldKind) (v : ℕ) :
    foldSunday kind.name v = if kind = .dayOfWeek ∧ v = 7 then 0 else v := by
  cases kind <;> simp [foldSunday, FieldKind.name]

theorem dvd_sub_iff {step v w : ℕ} (hw : v ≤ w) :
    step ∣ w - v ↔ w = v ∨ v + step ≤ w ∧ step ∣ w - (v + step) := by
  apply Iff.intro
  · rintro ⟨count, hcount⟩
    cases count with
    | zero => exact .inl (by omega)
    | succ count =>
        rw [Nat.mul_succ] at hcount
        exact .inr ⟨by omega, count, by omega⟩
  · rintro (rfl | ⟨hle, count, hcount⟩)
    · simp
    · exact ⟨count + 1, by rw [Nat.mul_succ]; omega⟩

theorem testBit_or_shift (mask offset i : ℕ) :
    (mask ||| 1 <<< offset).testBit i = true ↔ mask.testBit i = true ∨ i = offset := by
  rw [Nat.testBit_or, Bool.or_eq_true, Nat.one_shiftLeft, Nat.testBit_two_pow, decide_eq_true_iff,
    eq_comm (a := i)]

/-- The loop sets the bits of the progression and keeps the others. -/
theorem fillMask_spec {min hi step : ℕ} (hstep : 1 ≤ step) (hhi : hi < 2 ^ 31) :
    ∀ fuel v mask, min ≤ v → hi < v + fuel → (v ≤ hi → v + step < 2 ^ 32) →
      ∃ filled, fillMask min hi step fuel v mask = .ok filled ∧ ∀ i, filled.testBit i = true ↔
        mask.testBit i = true ∨ v ≤ i + min ∧ i + min ≤ hi ∧ step ∣ i + min - v := by
  intro fuel
  induction fuel with
  | zero =>
      intro v mask hmin hfuel _
      refine ⟨mask, rfl, ?_⟩
      intro i
      rw [or_iff_left (by omega)]
  | succ fuel ih =>
      intro v mask hmin hfuel hfits
      rw [fillMask]
      by_cases hv : v ≤ hi
      · rw [if_pos hv, if_pos (hfits hv)]
        rcases ih (v + step) (mask ||| 1 <<< (v - min)) (by omega) (by omega) (by omega) with
          ⟨filled, hfilled, hbits⟩
        refine ⟨filled, hfilled, ?_⟩
        intro i
        have hfirst : i = v - min ↔ i + min = v := by omega
        rw [hbits, testBit_or_shift, hfirst]
        by_cases hle : v ≤ i + min
        · rw [dvd_sub_iff hle]
          by_cases hsame : i + min = v
          · simp [hsame, hv]
          · simp only [hsame, or_false, false_or, hle, true_and]
            tauto
        · have hne : ¬ i + min = v := by omega
          have hbelow : ¬ v + step ≤ i + min := by omega
          tauto
      · rw [if_neg hv]
        refine ⟨mask, rfl, ?_⟩
        intro i
        rw [or_iff_left (by omega)]

/-- Stepping out of `u32` from the begin is an overflow. -/
theorem fillMask_overflow {min hi step fuel v mask : ℕ} (hv : v ≤ hi) (hover : 2 ^ 32 ≤ v + step) :
    fillMask min hi step (fuel + 1) v mask = .error .overflow := by
  rw [fillMask, if_pos hv, if_neg (by omega)]

theorem numberOr_eq_ok_iff {bad : CronError} {text : List Char} {n : ℕ} :
    numberOr bad text = .ok n ↔ parseU32 text = some n := by
  rw [numberOr]
  cases parseU32 text <;> simp

theorem splitStep_eq_ok_iff {bad zero : CronError} {text range : List Char} {step : ℕ} :
    splitStep bad zero text = .ok (range, step) ↔
      (splitOnce '/' text = none ∧ range = text ∧ step = 1) ∨
        ∃ digits, splitOnce '/' text = some (range, digits) ∧ parseU32 digits = some step ∧
          1 ≤ step := by
  rw [splitStep]
  cases hsplit : splitOnce '/' text with
  | none => simp [eq_comm]
  | some parts =>
      obtain ⟨first, second⟩ := parts
      simp only [bind_eq_ok_iff, numberOr_eq_ok_iff]
      apply Iff.intro
      · rintro ⟨n, hn, hrest⟩
        split_ifs at hrest with hzero
        cases hrest
        exact .inr ⟨second, rfl, hn, by omega⟩
      · rintro (⟨hnone, -⟩ | ⟨digits, hparts, hn, hone⟩)
        · cases hnone
        · cases hparts
          exact ⟨step, hn, if_neg (by omega)⟩

/-- A range runs upwards. -/
def Range.Upward : Range → Prop
  | between a b => a ≤ b
  | _ => True

theorem rangeEnds_eq_ok_iff {bad : CronError} {kind : FieldKind} {text : List Char}
    {ends : ℕ × ℕ} :
    rangeEnds bad kind.min kind.max text = .ok ends ↔
      ∃ range, readRange parseU32 text = some range ∧ range.Upward ∧ ends = range.ends kind := by
  rw [rangeEnds, readRange]
  split_ifs with hstar
  · simp only [Except.ok.injEq, Option.some_inj]
    apply Iff.intro
    · rintro rfl
      exact ⟨.star, rfl, trivial, rfl⟩
    · rintro ⟨range, rfl, -, rfl⟩
      rfl
  · cases hsplit : splitOnce '-' text with
    | none =>
        simp only [bind_eq_ok_iff, numberOr_eq_ok_iff, Option.map_eq_some_iff, Except.ok.injEq]
        apply Iff.intro
        · rintro ⟨v, hv, rfl⟩
          exact ⟨.value v, ⟨v, hv, rfl⟩, trivial, rfl⟩
        · rintro ⟨range, ⟨v, hv, rfl⟩, -, rfl⟩
          exact ⟨v, hv, rfl⟩
    | some parts =>
        obtain ⟨first, second⟩ := parts
        simp only [bind_eq_ok_iff, numberOr_eq_ok_iff]
        apply Iff.intro
        · rintro ⟨a, ha, b, hb, hrest⟩
          split_ifs at hrest with horder
          cases hrest
          refine ⟨.between a b, ?_, not_lt.mp horder, rfl⟩
          rw [ha, hb]
          rfl
        · rintro ⟨range, hread, hupward, rfl⟩
          obtain ⟨a, ha, hrest⟩ := Option.bind_eq_some_iff.mp hread
          obtain ⟨b, hb, hpure⟩ := Option.bind_eq_some_iff.mp hrest
          rw [← Option.some_inj.mp hpure] at hupward ⊢
          exact ⟨a, ha, b, hb, if_neg (not_lt.mpr hupward)⟩

end EntityResolution.Schedule
