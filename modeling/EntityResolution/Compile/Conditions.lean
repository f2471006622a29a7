/-
# Conditions on a pair

The conditions of comparison levels as syntax: a reference to a column is kept as it is written, a
number as its value. A pair provides two columns for each column that a condition is found to
refer to, one with the suffix `_l` and one with `_r`, and nothing under an alias. A condition has
one of three truth values, or it is refused.
-/

import EntityResolution.Foundations.Calendar
import EntityResolution.Foundations.Doubles
import EntityResolution.Foundations.Relations

namespace EntityResolution.Compile

open EntityResolution.Calendar EntityResolution.Doubles
open EntityResolution.Relations (sqlAnd)

/-- A reference to a column: in double quotes, bare, or behind an alias. -/
inductive Reference where
  | quoted (text : String)
  | bare (text : String)
  | aliased (name column : String)
  deriving DecidableEq

/-- The functions of one column that levels use, with their constant arguments. -/
inductive Unary where
  | splitPart (index : ℕ)
  | substr (length : ℕ)
  | dateTruncMonth
  | extractYear
  | extractMonth
  | extractDay
  | tryCastDouble
  | abs
  | arrayLength

/-- The functions of two arguments that levels use. -/
inductive Binary where
  | jaroWinklerSimilarity
  | levenshtein
  | dateDiffDay
  | listIntersect
  | minus
  | divide
  | greatest

/-- An operand. -/
inductive Operand where
  | column (reference : Reference)
  | integer (value : ℕ)
  | double (value : Double)
  | unary (function : Unary) (argument : Operand)
  | binary (function : Binary) (first second : Operand)

/-- A comparison operator. -/
inductive Comparator where
  | eq
  | le
  | ge
  | gt

/-- A condition. -/
inductive Condition where
  | compare (comparator : Comparator) (first second : Operand)
  | isNotNull (operand : Operand)
  | and (first second : Condition)

/-- The references of an operand. -/
def Operand.references : Operand → List Reference
  | column reference => [reference]
  | integer _ => []
  | double _ => []
  | unary _ argument => argument.references
  | binary _ first second => first.references ++ second.references

/-- The references of a condition. -/
def Condition.references : Condition → List Reference
  | compare _ first second => first.references ++ second.references
  | isNotNull operand => operand.references
  | and first second => first.references ++ second.references

/-- The doubles of an operand. -/
def Operand.doubles : Operand → List Double
  | column _ => []
  | integer _ => []
  | double value => [value]
  | unary _ argument => argument.doubles
  | binary _ first second => first.doubles ++ second.doubles

/-- The doubles of a condition. -/
def Condition.doubles : Condition → List Double
  | compare _ first second => first.doubles ++ second.doubles
  | isNotNull operand => operand.doubles
  | and first second => first.doubles ++ second.doubles

/-- May a character begin an unquoted name? Every character outside ASCII may. -/
def isNameStart (c : Char) : Bool := c.isAlpha || c == '_' || 0x80 ≤ c.toNat

/-- May a character be in an unquoted name? -/
def isNameChar (c : Char) : Bool := isNameStart c || c.isDigit || c == '$'

/-- Is the text one unquoted name? -/
def isName (text : String) : Bool :=
  (text.toList.head?.any isNameStart) && text.toList.all isNameChar

/-- The name of a column that the reference is read as. A text with a quote in it is not one quoted
name. -/
def Reference.column : Reference → Option String
  | quoted text => if '"' ∈ text.toList then none else some text
  | bare text => if isName text then some text else none
  | aliased _ column => some column

/-- `strip_lr_suffix`. -/
def stripLrSuffix (name : String) : String :=
  let ending := (name.toList.drop (name.toList.length - 2)).map Char.toLower
  if ending = "_l".toList ∨ ending = "_r".toList then
    String.ofList (name.toList.take (name.toList.length - 2))
  else name

/-- `input_columns`: the columns of the records that a condition refers to. -/
def Condition.inputColumns (condition : Condition) : List String :=
  ((condition.references.filterMap Reference.column).map stripLrSuffix).dedup

/-- The columns of a pair, by the select list of `blocked_with_cols`. No column has an empty
name. -/
def pairColumns (columns : List String) : List String :=
  (columns.filter (· ≠ "")).flatMap fun column => [column ++ "_l", column ++ "_r"]

/-- The reference is to a column of the pair. A pair has no aliases. -/
def Reference.ProvidedBy (columns : List String) : Reference → Prop
  | aliased _ _ => False
  | reference => ∃ name ∈ reference.column, name ∈ pairColumns columns

/-- A value of a column or an operand. -/
inductive Scalar where
  | text (value : String)
  | date (value : Date)
  | list (elements : List (Option String))
  | integer (value : ℤ)
  | double (value : Double)
  deriving DecidableEq

/-- A statement that does not bind. -/
inductive Refusal where
  | unbound

/-- A record: its values by column, with NULL. -/
def Record : Type := String → Option Scalar

/-- The string functions of the database, which are symmetric, and its cast to a double. -/
structure Functions where
  jaroWinklerSimilarity : String → String → Double
  levenshtein : String → String → ℕ
  tryCastDouble : Scalar → Option Double
  jaroWinklerSimilarity_comm : ∀ first second,
    jaroWinklerSimilarity first second = jaroWinklerSimilarity second first
  levenshtein_comm : ∀ first second, levenshtein first second = levenshtein second first

/-- `date_trunc('month', date)`. -/
def truncMonth (date : Date) : Date :=
  ⟨date.year, date.month, 1, date.month_bounds, le_rfl, one_le_monthLength _ _⟩

/-- `list_intersect`: the elements in both lists, without NULL and without duplicates. -/
def listIntersect (first second : List (Option String)) : List (Option String) :=
  (first.dedup.filter (· ∈ second)).filter Option.isSome

/-- A function of one value. -/
def Unary.apply (functions : Functions) : Unary → Scalar → Except Refusal (Option Scalar)
  | splitPart index, .text value =>
      .ok (some (.text (String.ofList ((value.toList.splitOn '@').getD (index - 1) []))))
  | substr length, .text value => .ok (some (.text (String.ofList (value.toList.take length))))
  | dateTruncMonth, .date value => .ok (some (.date (truncMonth value)))
  | extractYear, .date value => .ok (some (.integer value.year))
  | extractMonth, .date value => .ok (some (.integer value.month))
  | extractDay, .date value => .ok (some (.integer value.day))
  | tryCastDouble, value => .ok ((functions.tryCastDouble value).map .double)
  | abs, .integer value => .ok (some (.integer |value|))
  | abs, .double value => .ok (some (.double value.abs))
  | arrayLength, .list elements => .ok (some (.integer elements.length))
  | _, _ => .error .unbound

/-- A function of two values. -/
def Binary.apply (functions : Functions) : Binary → Scalar → Scalar →
    Except Refusal (Option Scalar)
  | jaroWinklerSimilarity, .text first, .text second =>
      .ok (some (.double (functions.jaroWinklerSimilarity first second)))
  | levenshtein, .text first, .text second =>
      .ok (some (.integer (functions.levenshtein first second)))
  | dateDiffDay, .date first, .date second =>
      .ok (some (.integer (second.dayNumber - first.dayNumber)))
  | listIntersect, .list first, .list second =>
      .ok (some (.list (Compile.listIntersect first second)))
  | minus, .double first, .double second => .ok (some (.double (first.sub second)))
  | divide, .double first, .double second => .ok (some (.double (first.div second)))
  | greatest, .double first, .double second => .ok (some (.double (max first second)))
  | _, _, _ => .error .unbound

/-- A comparison of two values. -/
def Comparator.apply : Comparator → Scalar → Scalar → Except Refusal Bool
  | eq, first, second => .ok (first = second)
  | le, .integer first, .integer second => .ok (first ≤ second)
  | le, .double first, .double second => .ok (first ≤ second)
  | ge, .integer first, .integer second => .ok (second ≤ first)
  | ge, .double first, .double second => .ok (second ≤ first)
  | gt, .integer first, .integer second => .ok (second < first)
  | gt, .double first, .double second => .ok (second < first)
  | _, _, _ => .error .unbound

/-- The value of a column of the pair of two records. -/
def pairValue (columns : List String) (left right : Record) (name : String) :
    Except Refusal (Option Scalar) :=
  if name ∈ pairColumns columns then
    if (name.toList.drop (name.toList.length - 2)) =
      "_l".toList then .ok (left (stripLrSuffix name))
    else .ok (right (stripLrSuffix name))
  else .error .unbound

/-- The value of a reference on the pair of two records. -/
def Reference.value (columns : List String) (left right : Record) :
    Reference → Except Refusal (Option Scalar)
  | aliased _ _ => .error .unbound
  | reference =>
      match reference.column with
      | some name => pairValue columns left right name
      | none => .error .unbound

section

variable (functions : Functions)

/-- A function of NULL is NULL. -/
def Unary.value (function : Unary) : Option Scalar → Except Refusal (Option Scalar)
  | some value => function.apply functions value
  | none => .ok none

/-- A function of NULL is NULL, but `greatest` passes over it. -/
def Binary.value : Binary → Option Scalar → Option Scalar → Except Refusal (Option Scalar)
  | function, some first, some second => function.apply functions first second
  | greatest, some value, none => .ok (some value)
  | greatest, none, some value => .ok (some value)
  | _, _, _ => .ok none

/-- A comparison with NULL is NULL. -/
def Comparator.truth (comparator : Comparator) :
    Option Scalar → Option Scalar → Except Refusal (Option Bool)
  | some first, some second => (comparator.apply first second).map some
  | _, _ => .ok none

variable (environment : Reference → Except Refusal (Option Scalar))

/-- The value of an operand. -/
def Operand.value : Operand → Except Refusal (Option Scalar)
  | column reference => environment reference
  | integer value => .ok (some (.integer value))
  | double value => .ok (some (.double value))
  | unary function argument => do
      let argument ← argument.value
      function.value functions argument
  | binary function first second => do
      let first ← first.value
      let second ← second.value
      function.value functions first second

/-- The truth value of a condition. -/
def Condition.truth : Condition → Except Refusal (Option Bool)
  | compare comparator first second => do
      let first ← first.value functions environment
      let second ← second.value functions environment
      comparator.truth first second
  | isNotNull operand => do
      let value ← operand.value functions environment
      return some value.isSome
  | and first second => do
      let first ← first.truth
      let second ← second.truth
      return sqlAnd first second

end

end EntityResolution.Compile
