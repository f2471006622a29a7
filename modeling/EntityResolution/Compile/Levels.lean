/-
# Comparison levels

`resolve_level` turns a level token of a column into the condition that the engine runs. A token is
a word, or a word with a parameter behind a colon.
-/

import EntityResolution.Compile.Conditions
import EntityResolution.Golden.Survivorship
import EntityResolution.Identity.Stamps

namespace EntityResolution.Compile

open EntityResolution.Doubles EntityResolution.Golden EntityResolution.Identity
  EntityResolution.Numerals

/-- Why a parameter is bad, with the parameter where the message repeats it. -/
inductive ParameterReason where
  | expectedValue
  | notANumber (arg : String)
  | notWholeEdits (arg : String)
  | notWholeCharacters (arg : String)
  | notWholeDays (arg : String)
  | thresholdOutOfUnit
  | zeroCharacters
  | negativeTolerance
  | percentageOutOfRange
  deriving DecidableEq

/-- `CompileError`, as far as comparisons raise it. -/
inductive CompileError where
  | noLevels (column : String)
  | unknownLevel (column level : String)
  | badLevelParameter (column level : String) (reason : ParameterReason)
  deriving DecidableEq

/-- `side`: a column for one side, in double quotes. -/
def side (column suffix : String) : Operand := .column (.quoted (column ++ "_" ++ suffix))

/-- A column for one side, without quotes. -/
def bareSide (column suffix : String) : Operand := .column (.bare (column ++ "_" ++ suffix))

/-- The text behind the first colon, trimmed. -/
def argument (token : String) : Option String :=
  ((splitOnce ':' token.toList).map fun pieces => trim (String.ofList pieces.2)).filter (· ≠ "")

/-- `parameter`. -/
def parameter (column level : String) : Except CompileError String :=
  match argument level with
  | some arg => .ok arg
  | none => .error (.badLevelParameter column level .expectedValue)

/-- `starts_with`. -/
def startsWith (token start : String) : Bool := start.toList.isPrefixOf token.toList

/-- A parameter that is a `u32`. -/
def wholeParameter (column level : String) (reason : String → ParameterReason) :
    Except CompileError ℕ := do
  let arg ← parameter column level
  match parseUnsigned (2 ^ 32) arg.toList with
  | some n => .ok n
  | none => .error (.badLevelParameter column level (reason arg))

/-- A parameter that is an `f64`. -/
def numberParameter (column level : String) : Except CompileError Double := do
  let arg ← parameter column level
  match parseDouble arg.toList with
  | some x => .ok x
  | none => .error (.badLevelParameter column level (.notANumber arg))

/-- `l = r` -/
def equal (l r : Operand) : Condition := .compare .eq l r

/-- `array_length(list_intersect("name_variants_l", "name_variants_r")) >= 1` -/
def variantMatch : Condition :=
  .compare .ge
    (.unary .arrayLength
      (.binary .listIntersect (side "name_variants" "l") (side "name_variants" "r")))
    (.integer 1)

/-- `extract(year from l) = extract(year from r) AND extract(month from l) = extract(day from r) AND
extract(day from l) = extract(month from r)` -/
def dateTransposed (l r : Operand) : Condition :=
  .and
    (.and (equal (.unary .extractYear l) (.unary .extractYear r))
      (equal (.unary .extractMonth l) (.unary .extractDay r)))
    (equal (.unary .extractDay l) (.unary .extractMonth r))

/-- `try_cast(operand AS DOUBLE)` -/
def castDouble (operand : Operand) : Operand := .unary .tryCastDouble operand

/-- `abs(try_cast(l AS DOUBLE) - try_cast(r AS DOUBLE))` -/
def distance (l r : Operand) : Operand := .unary .abs (.binary .minus (castDouble l) (castDouble r))

/-- `greatest(abs(try_cast(l AS DOUBLE)), abs(try_cast(r AS DOUBLE)))` -/
def scale (l r : Operand) : Operand :=
  .binary .greatest (.unary .abs (castDouble l)) (.unary .abs (castDouble r))

/-- `try_cast(l AS DOUBLE) IS NOT NULL AND try_cast(r AS DOUBLE) IS NOT NULL` -/
def bothNumeric (l r : Operand) : Condition :=
  .and (.isNotNull (castDouble l)) (.isNotNull (castDouble r))

/-- The numbers are so far apart at most. -/
def numericWithin (l r : Operand) (tolerance : Double) : Condition :=
  .and (bothNumeric l r) (.compare .le (distance l r) (.double tolerance))

/-- The numbers are apart by such a fraction of the larger at most, which is above zero. -/
def numericWithinPct (l r : Operand) (fraction : Double) : Condition :=
  .and (.and (bothNumeric l r) (.compare .gt (scale l r) (.double (.finite 0))))
    (.compare .le (.binary .divide (distance l r) (scale l r)) (.double fraction))

/-- A component of an address on one side, behind an alias. -/
def component (name column : String) : Operand := .column (.aliased name column)

/-- `l.addr_number = r.addr_number AND l.addr_street = r.addr_street AND
l.addr_postal = r.addr_postal AND l.addr_number IS NOT NULL AND l.addr_street IS NOT NULL` -/
def addressComponents : Condition :=
  .and
    (.and
      (.and
        (.and (equal (component "l" "addr_number") (component "r" "addr_number"))
          (equal (component "l" "addr_street") (component "r" "addr_street")))
        (equal (component "l" "addr_postal") (component "r" "addr_postal")))
      (.isNotNull (component "l" "addr_number")))
    (.isNotNull (component "l" "addr_street"))

/-- `resolve_level`. -/
def resolveLevel (column token : String) : Except CompileError Condition :=
  let l := side column "l"
  let r := side column "r"
  let bad := CompileError.badLevelParameter column token
  if token = "exact" then .ok (equal l r)
  else if token = "variant_match" then .ok variantMatch
  else if token = "username_exact" then
    .ok (equal (.unary (.splitPart 1) (bareSide column "l"))
      (.unary (.splitPart 1) (bareSide column "r")))
  else if token = "domain_exact" then
    .ok (equal (.unary (.splitPart 2) (bareSide column "l"))
      (.unary (.splitPart 2) (bareSide column "r")))
  else if token = "dob_same_year_month" then
    .ok (equal (.unary .dateTruncMonth (bareSide column "l"))
      (.unary .dateTruncMonth (bareSide column "r")))
  else if startsWith token "jaro_winkler:" then do
    let threshold ← numberParameter column token
    if threshold.within 0 1 then
      .ok (.compare .ge (.binary .jaroWinklerSimilarity l r) (.double threshold))
    else .error (bad .thresholdOutOfUnit)
  else if startsWith token "levenshtein:" then do
    let most ← wholeParameter column token .notWholeEdits
    .ok (.compare .le (.binary .levenshtein l r) (.integer most))
  else if startsWith token "first_n:" then do
    let n ← wholeParameter column token .notWholeCharacters
    if n = 0 then .error (bad .zeroCharacters)
    else .ok (equal (.unary (.substr n) l) (.unary (.substr n) r))
  else if startsWith token "date_within_days:" then do
    let days ← wholeParameter column token .notWholeDays
    .ok (.compare .le (.unary .abs (.binary .dateDiffDay l r)) (.integer days))
  else if token = "date_transposed" then .ok (dateTransposed l r)
  else if startsWith token "numeric_within:" then do
    let tolerance ← numberParameter column token
    if tolerance.isNegative then .error (bad .negativeTolerance)
    else .ok (numericWithin l r tolerance)
  else if startsWith token "numeric_within_pct:" then do
    let pct ← numberParameter column token
    if pct.within 0 100 then .ok (numericWithinPct l r (pct.div (.finite 100)))
    else .error (bad .percentageOutOfRange)
  else if token = "address_components" then .ok addressComponents
  else .error (.unknownLevel column token)

end EntityResolution.Compile
