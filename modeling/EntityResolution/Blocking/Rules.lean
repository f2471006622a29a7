/-
# Blocking rules and the pairs they generate

A record comes into blocking with its rendered unique id, its source dataset and the
columns of the concat. A blocking rule is an SQL condition on a left and a right record,
with the array columns it explodes first; conditions are three-valued, since a comparison
with `NULL` is `NULL`, and a join keeps the pairs a condition is true of.

The tables below are the ones the stage materializes, each as the list of its rows:
`UNION ALL` is append, the joins, `SELECT DISTINCT` and `GROUP BY` are those of
`Foundations.Relations`. The engine that evaluates a condition's text is outside the
repository, so a condition is given by its value on two rows.
-/

import EntityResolution.Foundations.Relations

namespace EntityResolution.Blocking

open EntityResolution.Relations

/-- A column of the concat, by name. -/
abbrev Column := String

/-- The value of a column: `NULL`, a scalar in its text form, or a list. -/
inductive Value where
  | null
  | text (value : String)
  | list (elements : List Value)
  deriving Repr

/-- What `unnest` makes a row of. `NULL` and the empty list give none; on a scalar the
statement does not bind, and no row stands for that either. -/
def Value.elements : Value → List Value
  | .list elements => elements
  | _ => []

mutual

/-- The two values are the same, lists element by element. -/
def Value.same : Value → Value → Bool
  | .null, .null => true
  | .text value, .text other => value == other
  | .list elements, .list others => Value.sameAll elements others
  | _, _ => false

def Value.sameAll : List Value → List Value → Bool
  | [], [] => true
  | value :: rest, other :: others => value.same other && Value.sameAll rest others
  | _, _ => false

end

/-- The SQL `=`, which is `NULL` on a `NULL`. -/
def Value.sqlEq : Value → Value → Option Bool
  | .null, _ => none
  | _, .null => none
  | value, other => some (value.same other)

/-- A row of the concat, with what the unique-id expression and the source dataset column
evaluate to on it. -/
structure Record (Id : Type) where
  uid : Id
  source : String
  cols : Column → Value

variable {Id : Type}

/-- Two rows that an expression over `columns` cannot tell apart. -/
def Record.AgreesOn (columns : List Column) (row other : Record Id) : Prop :=
  row.uid = other.uid ∧ row.source = other.source ∧ ∀ c ∈ columns, row.cols c = other.cols c

/-- A row with `columns` and nothing else. The id and the source are always carried. -/
def Record.project (columns : List Column) (row : Record Id) : Record Id :=
  { row with cols := fun c => if c ∈ columns then row.cols c else .null }

/-- `SELECT unnest(column) AS column, …`: one row for each element. -/
def Record.unnest (column : Column) (row : Record Id) : List (Record Id) :=
  (row.cols column).elements.map fun element =>
    { row with cols := fun c => if c = column then element else row.cols c }

/-- Every choice of elements of the exploded arrays. -/
def Record.choices (columns : List Column) (row : Record Id) : List (Record Id) :=
  columns.foldl (fun rows column => rows.flatMap (Record.unnest column)) [row]

/-- A declared blocking rule. `sql` is the value of the condition on two rows, and
`referencedColumns` are the columns found in its text, which are all the columns it
reads: on a row without one of them the condition would not bind. -/
structure BlockingRuleJson (Id : Type) where
  sql : Record Id → Record Id → Option Bool
  referencedColumns : List Column
  arraysToExplode : List Column
  reads : ∀ l l' r r' : Record Id, l.AgreesOn referencedColumns l' →
    r.AgreesOn referencedColumns r' → sql l r = sql l' r'

/-- The rule `l.column = r.column`, on the elements of `column` when it is exploded. -/
def equiRule (column : Column) (arraysToExplode : List Column) : BlockingRuleJson Id where
  sql := fun l r => (l.cols column).sqlEq (r.cols column)
  referencedColumns := [column]
  arraysToExplode := arraysToExplode
  reads := by
    intro l l' r r' hl hr
    rw [hl.2.2 column List.mem_cons_self, hr.2.2 column List.mem_cons_self]

/-- A blocking rule of the compiled settings. -/
structure BlockingRule (Id : Type) extends BlockingRuleJson Id where
  /-- The position in the list, printed as the match key. -/
  index : ℕ

def BlockingRule.isExploding (rule : BlockingRule Id) : Bool :=
  !rule.arraysToExplode.isEmpty

/-- The join keeps a pair: the condition is true, neither false nor `NULL`. -/
def BlockingRule.holds (rule : BlockingRule Id) (l r : Record Id) : Bool :=
  rule.sql l r == some true

def compileBlockingRule (index : ℕ) (br : BlockingRuleJson Id) : BlockingRule Id :=
  { br with index := index }

inductive LinkType where
  | dedupeOnly
  | linkAndDedupe
  | linkOnly
  deriving DecidableEq, Repr

/-- What blocking reads of the settings. -/
structure Settings (Id : Type) where
  linkType : LinkType
  blockingRulesToGeneratePredictions : List (BlockingRuleJson Id)

def Settings.blockingRules (settings : Settings Id) : List (BlockingRule Id) :=
  settings.blockingRulesToGeneratePredictions.mapIdx compileBlockingRule

/-- The literal `1=1` rule that stands in for an empty list. -/
def cartesianRule : BlockingRule Id where
  index := 0
  sql := fun _ _ => some true
  referencedColumns := []
  arraysToExplode := []
  reads := fun _ _ _ _ _ _ => rfl

/-- The rules the statements are generated from. -/
def rulesOrCartesian (rules : List (BlockingRule Id)) : List (BlockingRule Id) :=
  if rules.isEmpty then [cartesianRule] else rules

def whereCondition [LinearOrder Id] (linkType : LinkType) (l r : Record Id) : Bool :=
  match linkType with
  | .dedupeOnly | .linkAndDedupe => l.uid < r.uid
  | .linkOnly => l.uid < r.uid && l.source != r.source

/-- `AND (hash(uid_r) % n) = i`, on the right record of a pair. -/
def rightChunkFilter (hash : Id → ℕ) (chunk : Option (ℕ × ℕ)) (uidR : Id) : Bool :=
  match chunk with
  | some (i, n) => if 1 < n then hash uidR % n == i else true
  | none => true

@[simp] theorem rightChunkFilter_none (hash : Id → ℕ) (uidR : Id) :
    rightChunkFilter hash none uidR = true :=
  rfl

/-- `AND NOT (…)` over the preceding rules: a scalar rule contributes its condition, an
exploding one the literal `false`. -/
def excludePreceding (preceding : List (BlockingRule Id)) (l r : Record Id) : Bool :=
  !preceding.any fun rule => if rule.isExploding then false else (rule.sql l r).getD false

/-- A row of the blocked id pairs. -/
structure BlockedPair (Id : Type) where
  matchKey : String
  joinKeyL : Id
  joinKeyR : Id
  deriving DecidableEq, Repr

def BlockedPair.keys (row : BlockedPair Id) : Id × Id :=
  (row.joinKeyL, row.joinKeyR)

section Tables

variable [LinearOrder Id] (hash : Id → ℕ)

/-- The columns the unnested concat carries besides the exploded ones. The unique id and
the source dataset are fields of a row here and are not listed. -/
def blockingRetainColumns (preceding : List (BlockingRule Id)) (rule : BlockingRule Id) :
    List Column :=
  ((preceding ++ [rule]).flatMap fun br => br.referencedColumns).dedup.filter
    fun c => c ∉ rule.arraysToExplode

/-- The concat with `columns` unnested, the first of them in the innermost query. -/
def explodeArrays (tbl : List (Record Id)) (columns retain : List Column) :
    List (Record Id) :=
  columns.foldl (fun rows column => rows.flatMap (Record.unnest column))
    (tbl.map (Record.project (retain ++ columns)))

/-- The id pairs of one exploding rule, from a self-join of the unnested concat. -/
def marginalExplodedIdPairs (rule : BlockingRule Id) (preceding : List (BlockingRule Id))
    (linkType : LinkType) (unnested : List (Record Id)) (rightChunk : Option (ℕ × ℕ)) :
    List (Id × Id) :=
  ((innerJoin unnested unnested fun l r =>
      rule.holds l r && whereCondition linkType l r && excludePreceding preceding l r &&
        rightChunkFilter hash rightChunk r.uid).map
    fun row => (row.1.uid, row.2.uid)).dedup

/-- One arm of the `UNION ALL`. An exploding rule reads its marginal table, to which the
conditions were applied when it was built. -/
def blockedIdPairsArm (preceding : List (BlockingRule Id)) (rule : BlockingRule Id)
    (linkType : LinkType) (input : List (Record Id)) (marginals : List (ℕ × List (Id × Id)))
    (rightChunk : Option (ℕ × ℕ)) : List (BlockedPair Id) :=
  if rule.isExploding then
    match marginals.find? fun marginal => marginal.1 == rule.index with
    | some marginal => marginal.2.map fun keys => ⟨toString rule.index, keys.1, keys.2⟩
    | none => []
  else
    (innerJoin input input fun l r =>
        rule.holds l r && whereCondition linkType l r && excludePreceding preceding l r &&
          rightChunkFilter hash rightChunk r.uid).map
      fun row => ⟨toString rule.index, row.1.uid, row.2.uid⟩

/-- `__dedupe__blocked_id_pairs`, one arm for each rule. -/
def blockedIdPairs (rules : List (BlockingRule Id)) (linkType : LinkType)
    (input : List (Record Id)) (marginals : List (ℕ × List (Id × Id)))
    (rightChunk : Option (ℕ × ℕ)) : List (BlockedPair Id) :=
  let rules := rulesOrCartesian rules
  rules.zipIdx.flatMap fun entry =>
    blockedIdPairsArm hash (rules.take entry.2) entry.1 linkType input marginals rightChunk

/-- `min(match_key) … GROUP BY join_key_l, join_key_r`. The match keys are strings and
compare as strings. -/
def dedupNonUnique (rows : List (BlockedPair Id)) : List (BlockedPair Id) :=
  (groupMin BlockedPair.keys BlockedPair.matchKey rows).map fun group =>
    ⟨group.1, group.2.1, group.2.2⟩

/-- The marginal table of each exploding rule, under the rule's index. -/
def marginalTables (rules : List (BlockingRule Id)) (linkType : LinkType)
    (concat : List (Record Id)) (rightChunk : Option (ℕ × ℕ)) : List (ℕ × List (Id × Id)) :=
  rules.zipIdx.filterMap fun entry =>
    if entry.1.isExploding then
      let preceding := rules.take entry.2
      let unnested := explodeArrays concat entry.1.arraysToExplode
        (blockingRetainColumns preceding entry.1)
      some (entry.1.index,
        marginalExplodedIdPairs hash entry.1 preceding linkType unnested rightChunk)
    else none

def materializeBlockedPairsExploding (settings : Settings Id) (concat : List (Record Id))
    (rightChunk : Option (ℕ × ℕ)) : List (BlockedPair Id) :=
  let rules := settings.blockingRules
  dedupNonUnique (blockedIdPairs hash rules settings.linkType concat
    (marginalTables hash rules settings.linkType concat rightChunk) rightChunk)

/-- The blocked pairs of one hash chunk of the right-hand records. Without an exploding
rule the arms are the result as they stand. -/
def materializeBlockedPairsChunk (settings : Settings Id) (concat : List (Record Id))
    (rightChunk : Option (ℕ × ℕ)) : List (BlockedPair Id) :=
  if settings.blockingRules.any BlockingRule.isExploding then
    materializeBlockedPairsExploding hash settings concat rightChunk
  else
    blockedIdPairs hash settings.blockingRules settings.linkType concat [] rightChunk

def materializeBlockedPairs (settings : Settings Id) (concat : List (Record Id)) :
    List (BlockedPair Id) :=
  materializeBlockedPairsChunk hash settings concat none

end Tables

end EntityResolution.Blocking
