/-
# Survivorship decisions

A survivorship chain ranks the members of an entity by its rules, one after the other, and by their
record keys last; the first member wins, and the decision names the first rule that tells it from
the second. A chain whose only rule is `combined_list` or `sum` elects nobody: it makes a value of
the values of all members, and names the least record key.

A null sorts last in either direction. Rules are written into the statement under an alias, in
which every character but ASCII letters, digits and `_` becomes `_`; where two aliases agree but
for case, the first stands for both.
-/

import EntityResolution.Foundations.Grouping
import EntityResolution.Golden.Groups

namespace EntityResolution.Golden

open EntityResolution.Collections EntityResolution.Grouping

universe u v

variable {R : Type u} {E : Type v} [LinearOrder R] [LinearOrder E]

/-- `TERMINAL_SURVIVORSHIP_RULE`. -/
def terminalSurvivorshipRule : String := "record_key ASC"

/-- `TIEBREAK_RULE_NAME`. -/
def tiebreakRuleName : String := "tiebreak_deterministic"

/-- Is this a Unicode white space character? -/
def isWhiteSpace (c : Char) : Bool :=
  (9 ≤ c.toNat && c.toNat ≤ 13) || (0x2000 ≤ c.toNat && c.toNat ≤ 0x200a) ||
    [0x20, 0x85, 0xa0, 0x1680, 0x2028, 0x2029, 0x202f, 0x205f, 0x3000].contains c.toNat

/-- The text without white space around it. -/
def trim (text : String) : String :=
  String.ofList (((text.toList.dropWhile isWhiteSpace).reverse.dropWhile isWhiteSpace).reverse)

/-- `chain_without_terminal`. -/
def chainWithoutTerminal (chain : List String) : List String :=
  (chain.map trim).filter fun rule => rule ≠ trim terminalSurvivorshipRule

/-- The texts that are doubles, and how a double is written. -/
structure Doubles where
  tryCast : String → Option ℚ
  render : ℚ → String

/-- The distinct non-empty values, sorted and joined. -/
def combinedList (values : List (Option String)) : Option String :=
  let listed := (((values.filterMap id).filter (· ≠ "")).dedup).insertionSort (· ≤ ·)
  if listed = [] then none else some ("; ".intercalate listed)

/-- The total of the values that are doubles. -/
def Doubles.sum (doubles : Doubles) (values : List (Option String)) : Option String :=
  let summands := values.filterMap fun value => value.bind doubles.tryCast
  if summands = [] then none else some (doubles.render summands.sum)

/-- `bucket_b_aggregate`: the rules that make a value of the values of all members. -/
def bucketBAggregate (doubles : Doubles) (rule : String) :
    Option (List (Option String) → Option String) :=
  if rule = "combined_list" then some combinedList
  else if rule = "sum" then some doubles.sum
  else none

/-- `synthesized_value_expr`: only a sole rule may synthesize. -/
def synthesizedValue (doubles : Doubles) (chain : List String) :
    Option (List (Option String) → Option String) :=
  match chainWithoutTerminal chain with
  | [rule] => bucketBAggregate doubles rule
  | _ => none

/-- A row of the relation of an attribute: its value and what the rules read. -/
structure AttrRow (R : Type u) (E : Type v) where
  entityId : E
  recordKey : R
  sourceSystem : String
  updatedAtSource : Option ℤ
  ingestedAt : ℤ
  sources : BTreeMap String ℕ
  value : Option String
  valid : Option Bool

/-- The direction of a sort key. -/
inductive Direction
  | asc
  | desc

/-- A sort key of a row among the rows of its entity. -/
abbrev SortKey (R : Type u) (E : Type v) := List (AttrRow R E) → AttrRow R E → Option ℚ

/-- A term of the order, under its alias. -/
structure Term (R : Type u) (E : Type v) where
  termAlias : String
  key : SortKey R E
  direction : Direction

/-- Why a chain is not rendered. -/
inductive SurvivorshipError
  | missingChain (attr : String)
  | unknownRule (rule : String)
  | compositeSynthesis (rule : String)
  | mixedSynthesis (rule : String)
  deriving DecidableEq

/-- The text of an error, given how a text is quoted. -/
def SurvivorshipError.message (quoted : String → String) : SurvivorshipError → String
  | .missingChain attr => "survivorship chain missing for attribute " ++ quoted attr
  | .unknownRule rule =>
      "survivorship: unknown rule " ++ quoted rule ++ " (S4.6 defines source_priority, recency, " ++
        "frequency, completeness, validated; PR 1.6 adds longest, shortest, numeric_max, " ++
        "numeric_min, most_common, prioritized:<v1|v2|...>; PR 1.6b adds the " ++
        "value-synthesizing combined_list, sum)"
  | .compositeSynthesis rule =>
      "survivorship: rule " ++ quoted rule ++ " cannot apply to the composite `address` " ++
        "attribute (combined_list/sum synthesize a scalar value)"
  | .mixedSynthesis rule =>
      "survivorship: rule " ++ quoted rule ++ " synthesizes a value across members and must be " ++
        "the only rule for its attribute — it cannot be combined with ranking rules"

/-- The listed values of a rule `prioritized:v1|v2`. -/
def prioritizedValues (rule : String) : Option (List String) :=
  let tag := "prioritized:".toList
  if tag.isPrefixOf rule.toList then
    some ((((rule.toList.drop tag.length).splitOn '|').filter (· ≠ [])).map String.ofList)
  else none

/-- The rank of a value among the listed ones; an unlisted one comes last. -/
def priorityOf (values : List String) (value : Option String) : ℕ :=
  (value.bind fun text => values.idxOf? text).getD 2147483647

/-- A truth value as a sort key. -/
def truthKey (truth : Bool) : ℚ := if truth then 1 else 0

/-- `rule_terms`: the sort keys of a rule with their directions. -/
def ruleTerms (doubles : Doubles) (rule : String) :
    Except SurvivorshipError (List (SortKey R E × Direction)) :=
  match rule with
  | "source_priority" =>
      .ok [(fun _ row => (row.sources[row.sourceSystem]?).map fun rank => (rank : ℚ), .asc)]
  | "recency" => .ok [(fun _ row =>
    some ((row.updatedAtSource.getD row.ingestedAt : ℤ) : ℚ), .desc)]
  | "frequency" | "most_common" =>
      .ok [(fun rows row => some (rows.countP fun other => other.value = row.value), .desc)]
  | "completeness" =>
      .ok [(fun _ row => some (truthKey row.value.isSome), .desc),
        (fun _ row => row.value.map fun text => (text.length : ℚ), .desc)]
  | "validated" => .ok [(fun _ row => row.valid.map truthKey, .desc)]
  | "longest" => .ok [(fun _ row => row.value.map fun text => (text.length : ℚ), .desc)]
  | "shortest" => .ok [(fun _ row => row.value.map fun text => (text.length : ℚ), .asc)]
  | "numeric_max" => .ok [(fun _ row => row.value.bind doubles.tryCast, .desc)]
  | "numeric_min" => .ok [(fun _ row => row.value.bind doubles.tryCast, .asc)]
  | other =>
      match prioritizedValues other with
      | some values => .ok [(fun _ row => some (priorityOf values row.value : ℚ), .asc)]
      | none => .error (.unknownRule other)

/-- `alias_key`. -/
def aliasKey (rule : String) : String :=
  String.ofList (rule.toList.map fun c => if c.isAlphanum || c = '_' then c else '_')

/-- The terms of a rule under their aliases. -/
def aliasedTerms (doubles : Doubles) (rule : String) :
    Except SurvivorshipError (List (Term R E)) := do
  let terms ← ruleTerms doubles rule
  return terms.zipIdx.map fun entry =>
    { termAlias := "_k_" ++ aliasKey rule ++ "_" ++ toString entry.2
      key := entry.1.1
      direction := entry.1.2 }

/-- The key that the alias of a term stands for. -/
def resolvedKey (terms : List (Term R E)) (term : Term R E) : SortKey R E :=
  ((terms.find? fun other =>
    other.termAlias.toList.map Char.toLower = term.termAlias.toList.map Char.toLower).getD term).key

/-- The order of two keys; a null comes last. -/
def keyOrder (direction : Direction) : Option ℚ → Option ℚ → Ordering
  | some first, some second =>
      match direction with
      | .asc => compare first second
      | .desc => compare second first
  | some _, none => .lt
  | none, some _ => .gt
  | none, none => .eq

/-- The order of two rows by the terms, and by the record key last. -/
def rankOrder (terms : List (Term R E)) (rows : List (AttrRow R E)) (first second : AttrRow R E) :
    Ordering :=
  terms.foldr (fun term later =>
      (keyOrder term.direction (resolvedKey terms term rows first)
        (resolvedKey terms term rows second)).then later)
    (compare first.recordKey second.recordKey)

/-- The rows of an entity as ranked. -/
def ranked (terms : List (Term R E)) (rows : List (AttrRow R E)) : List (AttrRow R E) :=
  rows.insertionSort fun first second => rankOrder terms rows first second ≠ .gt

/-- The first rule with a key that differs between the first row and the second. -/
def decidingRule (rules : List (String × List (Term R E))) (rows : List (AttrRow R E))
    (winner : AttrRow R E) (second : Option (AttrRow R E)) : String :=
  match second with
  | none => tiebreakRuleName
  | some other =>
      let terms := rules.flatMap Prod.snd
      ((rules.find? fun rule => rule.2.any fun term =>
        resolvedKey terms term rows winner ≠ resolvedKey terms term rows other).map Prod.fst).getD
        tiebreakRuleName

/-- What a chain decides for an entity. -/
structure Decision (R : Type u) (E : Type v) where
  entityId : E
  value : Option String
  recordKey : R
  rule : String

/-- The decision of a ranking chain for an entity. -/
def elect (rules : List (String × List (Term R E))) (group : E × List (AttrRow R E)) :
    Option (Decision R E) :=
  match ranked (rules.flatMap Prod.snd) group.2 with
  | [] => none
  | winner :: others =>
      some
        { entityId := group.1
          value := winner.value
          recordKey := winner.recordKey
          rule := decidingRule rules group.2 winner others.head? }

/-- The decision of a synthesizing chain for an entity. -/
def synthesize (aggregate : List (Option String) → Option String) (rule : String)
    (group : E × List (AttrRow R E)) : Option (Decision R E) :=
  (group.2.map AttrRow.recordKey).min?.map fun recordKey =>
    { entityId := group.1
      value := aggregate (group.2.map AttrRow.value)
      recordKey
      rule }

/-- The rules of a ranking chain with their terms, if the chain is rendered. -/
def rankingRules (doubles : Doubles) (rules : List String) :
    Except SurvivorshipError (List (String × List (Term R E))) :=
  match rules.find? fun rule => (bucketBAggregate doubles rule).isSome with
  | some rule => .error (.mixedSynthesis rule)
  | none => rules.mapM fun rule => do
      let terms ← aliasedTerms doubles rule
      return (rule, terms)

/-- `survivorship_decision_sql`: one row for each entity of the relation. -/
def survivorshipDecision (doubles : Doubles) (attr : String) (chain : List String)
    (relation : List (AttrRow R E)) : Except SurvivorshipError (List (Decision R E)) :=
  let ranking := do
    let rules ← rankingRules doubles (chainWithoutTerminal chain)
    return (groups AttrRow.entityId relation).filterMap (elect rules)
  match chainWithoutTerminal chain with
  | [rule] =>
      match bucketBAggregate doubles rule with
      | some aggregate =>
          if attr = "address" then .error (.compositeSynthesis rule)
          else .ok ((groups AttrRow.entityId relation).filterMap (synthesize aggregate rule))
      | none => ranking
  | _ => ranking

/-! ## What a decision is -/

omit [LinearOrder E] in
theorem mem_ranked {terms : List (Term R E)} {rows : List (AttrRow R E)} {row : AttrRow R E} :
    row ∈ ranked terms rows ↔ row ∈ rows := by
  rw [ranked, List.mem_insertionSort]

omit [LinearOrder E] in
theorem elect_eq_some (rules : List (String × List (Term R E))) {group : E × List (AttrRow R E)}
    (hne : group.2 ≠ []) : ∃ decision row, elect rules group = some decision ∧ row ∈ group.2 ∧
      decision.entityId = group.1 ∧ decision.recordKey = row.recordKey := by
  rw [elect]
  cases hranked : ranked (rules.flatMap Prod.snd) group.2 with
  | nil =>
      obtain ⟨row, hrow⟩ := List.exists_mem_of_ne_nil _ hne
      have hmem : row ∈ ranked (rules.flatMap Prod.snd) group.2 := mem_ranked.mpr hrow
      rw [hranked] at hmem
      exact absurd hmem List.not_mem_nil
  | cons winner others =>
      have hmem : winner ∈ ranked (rules.flatMap Prod.snd) group.2 := by
        rw [hranked]
        exact List.mem_cons_self
      exact ⟨_, winner, rfl, mem_ranked.mp hmem, rfl, rfl⟩

omit [LinearOrder E] in
theorem synthesize_eq_some (aggregate : List (Option String) → Option String) (rule : String)
    {group : E × List (AttrRow R E)} (hne : group.2 ≠ []) :
    ∃ decision row, synthesize aggregate rule group = some decision ∧ row ∈ group.2 ∧
      decision.entityId = group.1 ∧ decision.recordKey = row.recordKey ∧
        ∀ other ∈ group.2, decision.recordKey ≤ other.recordKey := by
  have hkeys : group.2.map AttrRow.recordKey ≠ [] := fun hnil => hne (List.map_eq_nil_iff.mp hnil)
  cases hmin : (group.2.map AttrRow.recordKey).min? with
  | none => exact absurd (List.min?_eq_none_iff.mp hmin) hkeys
  | some least =>
      obtain ⟨hmem, hleast⟩ := List.min?_eq_some_iff.mp hmin
      obtain ⟨row, hrow, hkey⟩ := List.mem_map.mp hmem
      rw [synthesize, hmin]
      refine ⟨_, row, rfl, hrow, rfl, hkey.symm, fun other hother => ?_⟩
      exact hleast _ (List.mem_map_of_mem hother)

/-- A chain that is rendered ranks, or its sole rule synthesizes. -/
theorem survivorshipDecision_cases {doubles : Doubles} {attr : String} {chain : List String}
    {relation : List (AttrRow R E)} {decisions : List (Decision R E)}
    (hok : survivorshipDecision doubles attr chain relation = .ok decisions) :
    (synthesizedValue doubles chain = none ∧ ∃ rules : List (String × List (Term R E)),
        decisions = (groups AttrRow.entityId relation).filterMap (elect rules)) ∨
      ∃ aggregate rule, synthesizedValue doubles chain = some aggregate ∧
        decisions = (groups AttrRow.entityId relation).filterMap (synthesize aggregate rule) := by
  have hranking : ∀ {rules : List String},
      (do
        let rules ← rankingRules doubles rules
        return (groups AttrRow.entityId relation).filterMap (elect rules) :
        Except SurvivorshipError (List (Decision R E))) = .ok decisions →
      ∃ rules : List (String × List (Term R E)),
        decisions = (groups AttrRow.entityId relation).filterMap (elect rules) := by
    intro rules hrun
    cases hrules : (rankingRules doubles rules :
        Except SurvivorshipError (List (String × List (Term R E)))) with
    | error problem =>
        rw [hrules] at hrun
        cases hrun
    | ok rendered =>
        rw [hrules] at hrun
        exact ⟨rendered, (Except.ok.inj hrun).symm⟩
  rw [survivorshipDecision] at hok
  rw [synthesizedValue]
  rcases hchain : chainWithoutTerminal chain with _ | ⟨rule, _ | ⟨second, rest⟩⟩
  · rw [hchain] at hok
    exact Or.inl ⟨rfl, hranking hok⟩
  · rw [hchain] at hok
    dsimp only at hok ⊢
    cases hrule : bucketBAggregate doubles rule with
    | none =>
        rw [hrule] at hok
        exact Or.inl ⟨rfl, hranking hok⟩
    | some aggregate =>
        rw [hrule] at hok
        dsimp only at hok
        split at hok
        · cases hok
        · exact Or.inr ⟨aggregate, rule, rfl, (Except.ok.inj hok).symm⟩
  · rw [hchain] at hok
    exact Or.inl ⟨rfl, hranking hok⟩

/-- There is one decision for each entity of the relation, and it names a row of it. -/
structure Elects (relation : List (AttrRow R E)) (decisions : List (Decision R E)) : Prop where
  entities : decisions.map Decision.entityId = (relation.map AttrRow.entityId).dedup
  member : ∀ decision ∈ decisions, ∃ row ∈ relation,
    row.entityId = decision.entityId ∧ row.recordKey = decision.recordKey

omit [LinearOrder R] in
/-- A statement that decides each group by one of its rows elects. -/
theorem elects_filterMap {relation : List (AttrRow R E)}
    {decide : E × List (AttrRow R E) → Option (Decision R E)}
    (hdecide : ∀ group : E × List (AttrRow R E), group.2 ≠ [] →
      ∃ decision row, decide group = some decision ∧ row ∈ group.2 ∧
        decision.entityId = group.1 ∧ decision.recordKey = row.recordKey) :
    Elects relation ((groups AttrRow.entityId relation).filterMap decide) := by
  apply Elects.mk
  · rw [← map_fst_groups]
    apply map_filterMap_eq
    intro group hgroup
    obtain ⟨decision, _, hsome, _, hentity, _⟩ := hdecide group (ne_nil_of_mem_groups hgroup)
    exact ⟨decision, hsome, hentity⟩
  · intro decision hdecision
    obtain ⟨group, hgroup, hsome⟩ := List.mem_filterMap.mp hdecision
    rcases hdecide group (ne_nil_of_mem_groups hgroup) with
      ⟨made, row, hmade, hrow, hentity, hkey⟩
    rw [hsome] at hmade
    rw [Option.some.inj hmade, hentity, hkey]
    rw [(mem_groups.mp hgroup).2, List.mem_filter, decide_eq_true_eq] at hrow
    exact ⟨row, hrow.1, hrow.2, rfl⟩

theorem survivorshipDecision_elects {doubles : Doubles} {attr : String} {chain : List String}
    {relation : List (AttrRow R E)} {decisions : List (Decision R E)}
    (hok : survivorshipDecision doubles attr chain relation = .ok decisions) :
    Elects relation decisions := by
  rcases survivorshipDecision_cases hok with ⟨_, rules, rfl⟩ | ⟨aggregate, rule, _, rfl⟩
  · exact elects_filterMap fun group hne => elect_eq_some rules hne
  · apply elects_filterMap
    intro group hne
    rcases synthesize_eq_some aggregate rule hne with
      ⟨decision, row, hsome, hrow, hentity, hkey, _⟩
    exact ⟨decision, row, hsome, hrow, hentity, hkey⟩

/-- The decision of a synthesizing chain names the least record key of the entity. -/
theorem recordKey_le_of_synthesizes {doubles : Doubles} {attr : String} {chain : List String}
    {relation : List (AttrRow R E)} {decisions : List (Decision R E)}
    (hok : survivorshipDecision doubles attr chain relation = .ok decisions)
    (hsynthesizes : (synthesizedValue doubles chain).isSome) {decision : Decision R E}
    (hdecision : decision ∈ decisions) {row : AttrRow R E} (hrow : row ∈ relation)
    (hentity : row.entityId = decision.entityId) : decision.recordKey ≤ row.recordKey := by
  rcases survivorshipDecision_cases hok with ⟨hnone, _⟩ | ⟨aggregate, rule, _, rfl⟩
  · rw [hnone] at hsynthesizes
    cases hsynthesizes
  · obtain ⟨group, hgroup, hsome⟩ := List.mem_filterMap.mp hdecision
    rcases synthesize_eq_some aggregate rule (ne_nil_of_mem_groups hgroup) with
      ⟨made, _, hmade, _, hmadeEntity, _, hleast⟩
    rw [hsome] at hmade
    rw [Option.some.inj hmade] at hentity ⊢
    apply hleast
    rw [(mem_groups.mp hgroup).2, List.mem_filter, decide_eq_true_eq]
    exact ⟨hrow, hentity.trans hmadeEntity⟩

theorem exists_survivorshipDecision {doubles : Doubles} {attr : String} {chain : List String}
    {other : List (AttrRow R E)} (hok : (survivorshipDecision doubles attr chain other).isOk)
    (relation : List (AttrRow R E)) :
    ∃ decisions, survivorshipDecision doubles attr chain relation = .ok decisions := by
  have hranking : ∀ {rules : List String},
      (do
        let rules ← rankingRules doubles rules
        return (groups AttrRow.entityId other).filterMap (elect rules) :
        Except SurvivorshipError (List (Decision R E))).isOk →
      ∃ decisions, (do
        let rules ← rankingRules doubles rules
        return (groups AttrRow.entityId relation).filterMap (elect rules) :
        Except SurvivorshipError (List (Decision R E))) = .ok decisions := by
    intro rules hrun
    cases hrules : (rankingRules doubles rules :
        Except SurvivorshipError (List (String × List (Term R E)))) with
    | error problem =>
        rw [hrules] at hrun
        cases hrun
    | ok rendered => exact ⟨_, rfl⟩
  rw [survivorshipDecision] at hok ⊢
  rcases hchain : chainWithoutTerminal chain with _ | ⟨rule, _ | ⟨second, rest⟩⟩
  · rw [hchain] at hok
    exact hranking hok
  · rw [hchain] at hok
    dsimp only at hok ⊢
    cases hrule : bucketBAggregate doubles rule with
    | none =>
        rw [hrule] at hok
        exact hranking hok
    | some aggregate =>
        rw [hrule] at hok
        dsimp only at hok ⊢
        split at hok
        · cases hok
        · rename_i hattr
          rw [if_neg hattr]
          exact ⟨_, rfl⟩
  · rw [hchain] at hok
    exact hranking hok

end EntityResolution.Golden
