/-
# Cron expressions

The scheduler asks once a minute whether an expression of five fields matches. A field is parsed
into a mask of the values it admits, term by term; the numbers are `u32`, and the addition that
steps through a range is checked here: leaving the type is an outcome of its own.
-/

import EntityResolution.Foundations.Numerals
import EntityResolution.Golden.Survivorship
import EntityResolution.Identity.Stamps

namespace EntityResolution.Schedule

open EntityResolution.Numerals EntityResolution.Identity EntityResolution.Golden

/-- One parsed field: bit `i` of the mask admits the value `min + i`. -/
structure Field where
  mask : ℕ
  wildcard : Bool
  deriving DecidableEq

/-- `Field::matches`. -/
def Field.matches (field : Field) (value min : ℕ) : Bool :=
  if min ≤ value then decide (value - min < 64) && (field.mask &&& 1 <<< (value - min)) != 0
  else false

/-- `CronError`. -/
inductive CronError
  | fieldCount (got : ℕ)
  | field (field : String) (value : List Char)
  | range (field : String) (value : List Char) (min max : ℕ)
  | zeroStep (field : String) (value : List Char)
  deriving DecidableEq

/-- What parsing can end in besides a value. -/
inductive Failure
  | overflow
  | refused (error : CronError)
  deriving DecidableEq

/-- A `u32` in a text. -/
def parseU32 (text : List Char) : Option ℕ := parseUnsigned (2 ^ 32) text

/-- A number of a field, or the field refused. -/
def numberOr (bad : CronError) (text : List Char) : Except Failure ℕ :=
  match parseU32 text with
  | some n => .ok n
  | none => .error (.refused bad)

/-- The loop that sets the bits from `v` to `hi`; the step is at least one, so that it ends within
`hi + 1` rounds. -/
def fillMask (min hi step : ℕ) : ℕ → ℕ → ℕ → Except Failure ℕ
  | 0, _, mask => .ok mask
  | fuel + 1, v, mask =>
      if v ≤ hi then
        if v + step < 2 ^ 32 then fillMask min hi step fuel (v + step) (mask ||| 1 <<< (v - min))
        else .error .overflow
      else .ok mask

/-- The range part of a term and its step. -/
def splitStep (bad zero : CronError) (term : List Char) : Except Failure (List Char × ℕ) :=
  match splitOnce '/' term with
  | some (range, step) => do
      let step ← numberOr bad step
      if step = 0 then .error (.refused zero) else .ok (range, step)
  | none => .ok (term, 1)

/-- The two ends of a range part. -/
def rangeEnds (bad : CronError) (min max : ℕ) (range : List Char) : Except Failure (ℕ × ℕ) :=
  if range = ['*'] then .ok (min, max)
  else match splitOnce '-' range with
    | some (a, b) => do
        let a ← numberOr bad a
        let b ← numberOr bad b
        if a > b then .error (.refused bad) else .ok (a, b)
    | none => do
        let v ← numberOr bad range
        .ok (v, v)

/-- Sunday is 0 and 7: an end of 7 becomes 0. -/
def foldSunday (field : String) (v : ℕ) : ℕ := if field = "day-of-week" ∧ v = 7 then 0 else v

/-- One round of the loop of `parse_field`. -/
def parseTerm (spec : List Char) (field : String) (min max : ℕ) (state : Field)
    (term : List Char) : Except Failure Field :=
  if term = [] then .error (.refused (.field field spec))
  else do
    let (range, step) ← splitStep (.field field spec) (.zeroStep field spec) term
    let (lo, hi) ← rangeEnds (.field field spec) min max range
    let lo := foldSunday field lo
    let hi := foldSunday field hi
    if lo < min ∨ hi > max then .error (.refused (.range field spec min max))
    else do
      let mask ← fillMask min hi step (hi + 1) lo state.mask
      return ⟨mask, state.wildcard || range == ['*']⟩

/-- `parse_field`. -/
def parseField (spec : List Char) (field : String) (min max : ℕ) : Except Failure Field := do
  let parsed ← (spec.splitOn ',').foldlM (parseTerm spec field min max) ⟨0, false⟩
  if parsed.mask = 0 then .error (.refused (.field field spec)) else .ok parsed

/-- `Cron`. -/
structure Cron where
  minute : Field
  hour : Field
  dayOfMonth : Field
  month : Field
  dayOfWeek : Field
  deriving DecidableEq

/-- `split_whitespace`. -/
def splitWhitespace (text : List Char) : List (List Char) :=
  (text.splitOnP isWhiteSpace).filter (· ≠ [])

/-- `Cron::parse`. -/
def Cron.parse (expr : String) : Except Failure Cron :=
  match splitWhitespace expr.toList with
  | [minute, hour, dayOfMonth, month, dayOfWeek] => do
      return ⟨← parseField minute "minute" 0 59, ← parseField hour "hour" 0 23,
        ← parseField dayOfMonth "day-of-month" 1 31, ← parseField month "month" 1 12,
        ← parseField dayOfWeek "day-of-week" 0 6⟩
  | fields => .error (.refused (.fieldCount fields.length))

/-- `Cron::matches`. -/
def Cron.matches (cron : Cron) (minute hour dayOfMonth month dayOfWeek : ℕ) : Bool :=
  if !cron.minute.matches minute 0 || !cron.hour.matches hour 0 || !cron.month.matches month 1 then
    false
  else
    let byMonthDay := cron.dayOfMonth.matches dayOfMonth 1
    let byWeekDay := cron.dayOfWeek.matches dayOfWeek 0
    match cron.dayOfMonth.wildcard, cron.dayOfWeek.wildcard with
    | false, false => byMonthDay || byWeekDay
    | _, _ => byMonthDay && byWeekDay

end EntityResolution.Schedule
