/-
# Electing by a chain

The order of a chain compares two members of an entity by the keys of every rule, in the order of
the list, and by their record keys last. The statement reads the keys under aliases, and an alias
stands for the first term that has it. Two terms have one alias when they are of one rule, or when
both are lists of prioritized values that differ in case or punctuation only; the later list is
then not read.

The statement elects by the order of the chain exactly when a list that is not read never decides.
-/

import EntityResolution.Foundations.Ranking
import EntityResolution.Golden.Survivorship

namespace EntityResolution.Golden

open EntityResolution.Collections EntityResolution.Grouping EntityResolution.Ranking

universe u v

variable {R : Type u} {E : Type v} [LinearOrder R] [LinearOrder E]

theorem keyOrder_eq_iff {direction : Direction} {first second : Option ℚ} :
    keyOrder direction first second = .eq ↔ first = second := by
  cases first with
  | none => cases second <;> simp [keyOrder]
  | some first =>
      cases second with
      | none => simp [keyOrder]
      | some second =>
          cases direction with
          | asc => rw [keyOrder, compare_eq_iff_eq, Option.some.injEq]
          | desc => rw [keyOrder, compare_eq_iff_eq, Option.some.injEq, eq_comm]

instance (direction : Direction) : Std.OrientedCmp (keyOrder direction) where
  eq_swap {first second} := by
    cases first with
    | none => cases second <;> rfl
    | some first =>
        cases second with
        | none => rfl
        | some second =>
            cases direction with
            | asc => exact Std.OrientedOrd.eq_swap
            | desc => exact Std.OrientedOrd.eq_swap

instance (direction : Direction) : Std.TransCmp (keyOrder direction) where
  isLE_trans {first second third} hle hle' := by
    cases first with
    | none =>
        cases second with
        | none => exact hle'
        | some second => cases hle
    | some first =>
        cases third with
        | none => rfl
        | some third =>
            cases second with
            | none => cases hle'
            | some second =>
                cases direction with
                | asc => exact Std.TransOrd.isLE_trans hle hle'
                | desc => exact Std.TransOrd.isLE_trans hle' hle

/-- The order of two rows by one term. -/
def termOrder (rows : List (AttrRow R E)) (key : SortKey R E) (direction : Direction)
    (first second : AttrRow R E) : Ordering :=
  keyOrder direction (key rows first) (key rows second)

omit [LinearOrder R] [LinearOrder E] in
theorem transCmp_termOrder (rows : List (AttrRow R E)) (key : SortKey R E)
    (direction : Direction) : Std.TransCmp (termOrder rows key direction) where
  eq_swap {first second} :=
    have hswap : keyOrder direction (key rows first) (key rows second) =
        (keyOrder direction (key rows second) (key rows first)).swap := Std.OrientedCmp.eq_swap
    hswap
  isLE_trans {first _ third} hle hle' :=
    have htrans : (keyOrder direction (key rows first) (key rows third)).isLE :=
      Std.TransCmp.isLE_trans hle hle'
    htrans

/-- The order of a chain: by the keys of every rule, and by the record key last. -/
def chainOrder (terms : List (Term R E)) (rows : List (AttrRow R E)) :
    AttrRow R E → AttrRow R E → Ordering :=
  lexOrder (fun term => termOrder rows term.key term.direction) (compareOn AttrRow.recordKey) terms

/-- The first rule of a chain with a key that differs between two rows. -/
def tellingRule (rules : List (String × List (Term R E))) (rows : List (AttrRow R E))
    (first second : AttrRow R E) : String :=
  ((rules.find? fun rule => rule.2.any fun term => term.key rows first ≠ term.key rows second).map
    Prod.fst).getD tiebreakRuleName

omit [LinearOrder E] in
theorem rankOrder_eq (terms : List (Term R E)) (rows : List (AttrRow R E)) :
    rankOrder terms rows = lexOrder (fun term => termOrder rows (resolvedKey terms term)
      term.direction) (compareOn AttrRow.recordKey) terms := rfl

omit [LinearOrder E] in
theorem transCmp_rankOrder (terms : List (Term R E)) (rows : List (AttrRow R E)) :
    Std.TransCmp (rankOrder terms rows) := by
  rw [rankOrder_eq]
  apply transCmp_lexOrder
  intro term
  exact transCmp_termOrder rows _ term.direction

/-- The rules other than lists of prioritized values. -/
def namedRules : List String :=
  ["source_priority", "recency", "frequency", "most_common", "completeness", "validated",
    "longest", "shortest", "numeric_max", "numeric_min"]

/-- How often a value is among the rows. -/
def frequencyKey : SortKey R E := fun rows row =>
  some (rows.countP fun other => other.value = row.value)

/-- A key that reads the row alone. -/
def ReadsRow (key : SortKey R E) : Prop := ∃ read : AttrRow R E → Option ℚ, key = fun _ => read

/-- The key of a list of prioritized values. -/
def priorityKey (values : List String) : SortKey R E := fun _ row =>
  some (priorityOf values row.value : ℚ)

omit [LinearOrder R] [LinearOrder E] in
/-- A rule has a name of its own and at most two keys, or it lists prioritized values. -/
theorem ruleTerms_cases {doubles : Doubles} {rule : String}
    {terms : List (SortKey R E × Direction)} (hterms : ruleTerms doubles rule = .ok terms) :
    (rule ∈ namedRules ∧ terms.length ≤ 2 ∧
      ∀ term ∈ terms, ReadsRow term.1 ∨ term.1 = frequencyKey) ∨
    ∃ values, prioritizedValues rule = some values ∧ terms = [(priorityKey values, .asc)] := by
  unfold ruleTerms at hterms
  split at hterms
  case h_5 =>
    cases hterms
    refine .inl ⟨by decide, Nat.le_refl 2, ?_⟩
    rw [List.forall_mem_cons, List.forall_mem_singleton]
    exact ⟨.inl ⟨_, rfl⟩, .inl ⟨_, rfl⟩⟩
  case h_11 =>
    cases hvalues : prioritizedValues rule with
    | none =>
        rw [hvalues] at hterms
        cases hterms
    | some values =>
        rw [hvalues] at hterms
        exact .inr ⟨values, rfl, (Except.ok.inj hterms).symm⟩
  case h_3 =>
    cases hterms
    exact .inl ⟨by decide, Nat.le_succ 1, List.forall_mem_singleton.mpr (.inr rfl)⟩
  case h_4 =>
    cases hterms
    exact .inl ⟨by decide, Nat.le_succ 1, List.forall_mem_singleton.mpr (.inr rfl)⟩
  -- the other rules have one key, of the row
  all_goals
    cases hterms
    exact .inl ⟨by decide, Nat.le_succ 1, List.forall_mem_singleton.mpr (.inl ⟨_, rfl⟩)⟩

/-- An alias as it is compared. -/
def foldedAlias (term : Term R E) : List Char := term.termAlias.toList.map Char.toLower

/-- The part of an alias that the rule makes. -/
def foldedRule (rule : String) : List Char :=
  rule.toList.map fun c => (if c.isAlphanum || c = '_' then c else '_').toLower

omit [LinearOrder R] [LinearOrder E] in
theorem resolvedKey_eq (terms : List (Term R E)) (term : Term R E) :
    resolvedKey terms term = (resolved foldedAlias terms term).key := rfl

omit [LinearOrder R] [LinearOrder E] in
theorem mem_aliasedTerms {doubles : Doubles} {rule : String} {terms : List (Term R E)}
    (haliased : aliasedTerms doubles rule = .ok terms) :
    ∃ keys, ruleTerms doubles rule = .ok keys ∧ terms.length = keys.length ∧
      ∀ term ∈ terms, ∃ (idx : ℕ) (hidx : idx < keys.length), term.key = (keys[idx]).1 ∧
        foldedAlias term = "_k_".toList ++ foldedRule rule ++
          '_' :: (toString idx).toList.map Char.toLower := by
  cases hkeys : (ruleTerms doubles rule :
      Except SurvivorshipError (List (SortKey R E × Direction))) with
  | error problem =>
      rw [aliasedTerms, hkeys] at haliased
      cases haliased
  | ok keys =>
      rw [aliasedTerms, hkeys] at haliased
      cases haliased
      refine ⟨keys, rfl, by simp, ?_⟩
      intro term hterm
      obtain ⟨⟨entry, idx⟩, hentry, rfl⟩ := List.mem_map.mp hterm
      have hget := List.mem_zipIdx' hentry
      refine ⟨idx, hget.1, ?_, ?_⟩
      · rw [← hget.2]
      · simp [foldedAlias, foldedRule, aliasKey, Function.comp_def]

/-- An alias gives back what its rule makes of it, and the number of the key. -/
theorem alias_parts {rule rule' : String} {idx idx' : ℕ} (hidx : idx < 2) (hidx' : idx' < 2)
    (hsame : "_k_".toList ++ foldedRule rule ++ '_' :: (toString idx).toList.map Char.toLower =
      "_k_".toList ++ foldedRule rule' ++ '_' :: (toString idx').toList.map Char.toLower) :
    foldedRule rule = foldedRule rule' ∧ idx = idx' := by
  have hlength : ∀ i < 2, ('_' :: (toString i).toList.map Char.toLower).length = 2 := by decide
  have hdigit : ∀ i < 2, ∀ j < 2, '_' :: (toString i).toList.map Char.toLower =
      '_' :: (toString j).toList.map Char.toLower → i = j := by decide
  have hparts := List.append_inj' hsame ((hlength idx hidx).trans (hlength idx' hidx').symm)
  exact ⟨List.append_cancel_left hparts.1, hdigit idx hidx idx' hidx' hparts.2⟩

/-- Named rules keep their names in their aliases. -/
theorem foldedRule_named : ∀ rule ∈ namedRules, foldedRule rule = rule.toList := by
  decide

theorem foldedRule_ne {rule named : String} {values : List String}
    (hvalues : prioritizedValues rule = some values) (hnamed : named ∈ namedRules) :
    foldedRule rule ≠ foldedRule named := by
  have hothers : ∀ named ∈ namedRules, ¬ "prioritized_".toList <+: foldedRule named := by decide
  rw [prioritizedValues] at hvalues
  split at hvalues
  · rename_i htag
    intro hsame
    apply hothers named hnamed
    obtain ⟨rest, hrest⟩ := List.isPrefixOf_iff_prefix.mp htag
    rw [← hsame, foldedRule, ← hrest, List.map_append]
    have hfolded : "prioritized:".toList.map (fun c =>
        (if c.isAlphanum || c = '_' then c else '_').toLower) = "prioritized_".toList := by decide
    rw [hfolded]
    exact List.prefix_append _ _
  · cases hvalues

omit [LinearOrder R] [LinearOrder E] in
/-- Terms of one alias have one key, or the second is the only one of its rule and reads a row. -/
theorem key_eq_or_single {doubles : Doubles} {rule rule' : String} {terms terms' : List (Term R E)}
    {term term' : Term R E} (haliased : aliasedTerms doubles rule = .ok terms)
    (haliased' : aliasedTerms doubles rule' = .ok terms') (hterm : term ∈ terms)
    (hterm' : term' ∈ terms') (hsame : foldedAlias term = foldedAlias term') :
    term.key = term'.key ∨ (terms' = [term'] ∧ ReadsRow term'.key) := by
  obtain ⟨keys, hkeys, _, hparts⟩ := mem_aliasedTerms haliased
  obtain ⟨keys', hkeys', hlength', hparts'⟩ := mem_aliasedTerms haliased'
  obtain ⟨idx, hidx, hkey, hfolded⟩ := hparts term hterm
  obtain ⟨idx', hidx', hkey', hfolded'⟩ := hparts' term' hterm'
  have htwo : ∀ {rule : String} {keys : List (SortKey R E × Direction)},
      ruleTerms doubles rule = .ok keys → keys.length ≤ 2 := by
    intro rule keys hkeys
    rcases ruleTerms_cases hkeys with ⟨_, hle, _⟩ | ⟨values, _, rfl⟩
    · exact hle
    · exact Nat.le_succ 1
  rw [hfolded, hfolded'] at hsame
  rcases alias_parts (hidx.trans_le (htwo hkeys)) (hidx'.trans_le (htwo hkeys')) hsame with
    ⟨hrule, rfl⟩
  rcases ruleTerms_cases hkeys with ⟨hnamed, _⟩ | ⟨values, hvalues, _⟩
  · rcases ruleTerms_cases hkeys' with ⟨hnamed', _⟩ | ⟨values', hvalues', _⟩
    · -- both are named, so they are one rule
      rw [foldedRule_named rule hnamed, foldedRule_named rule' hnamed'] at hrule
      rw [String.toList_inj.mp hrule, hkeys'] at hkeys
      cases hkeys
      exact .inl (hkey.trans hkey'.symm)
    · exact absurd hrule.symm (foldedRule_ne hvalues' hnamed)
  · rcases ruleTerms_cases hkeys' with ⟨hnamed', _⟩ | ⟨values', _, rfl⟩
    · exact absurd hrule (foldedRule_ne hvalues hnamed')
    · right
      apply And.intro
      · obtain ⟨only, honly⟩ := List.length_eq_one_iff.mp hlength'
        rw [honly] at hterm' ⊢
        rw [List.mem_singleton.mp hterm']
      · rw [hkey']
        simp only [List.length_singleton, Nat.lt_one_iff] at hidx'
        subst hidx'
        exact ⟨_, rfl⟩

/-! ## Chains that are accepted -/

section Chain

variable {doubles : Doubles} {attr : String} {chain : List String}
  {rules : List (String × List (Term R E))}

omit [LinearOrder R] [LinearOrder E] in
theorem aliasedTerms_of_mem (hrules : rankingRules doubles chain = .ok rules)
    {rule : String × List (Term R E)} (hrule : rule ∈ rules) :
    aliasedTerms doubles rule.1 = .ok rule.2 := by
  rw [rankingRules] at hrules
  split at hrules
  · cases hrules
  · obtain ⟨name, _, hname⟩ := (mem_of_mapM_eq_ok hrules).mp hrule
    cases hterms : (aliasedTerms doubles name : Except SurvivorshipError (List (Term R E))) with
    | error problem =>
        rw [hterms] at hname
        cases hname
    | ok terms =>
        rw [hterms] at hname
        cases hname
        exact hterms

theorem survivorshipDecision_eq (hrules : rankingRules doubles (chainWithoutTerminal chain) =
    .ok rules) (relation : List (AttrRow R E)) : survivorshipDecision doubles attr chain relation =
      .ok ((groups AttrRow.entityId relation).filterMap (elect rules)) := by
  have hnone : ∀ rule ∈ chainWithoutTerminal chain, bucketBAggregate doubles rule = none := by
    rw [rankingRules] at hrules
    split at hrules
    · cases hrules
    · rename_i hfind
      intro rule hrule
      have hplain := List.find?_eq_none.mp hfind rule hrule
      rwa [Option.isSome_iff_ne_none, not_not] at hplain
  rw [survivorshipDecision]
  rcases hchain : chainWithoutTerminal chain with _ | ⟨rule, _ | ⟨second, rest⟩⟩
  · rw [hchain] at hrules
    rw [hrules]
    rfl
  · rw [hchain] at hrules hnone
    dsimp only
    rw [hnone rule List.mem_cons_self, hrules]
    rfl
  · rw [hchain] at hrules
    rw [hrules]
    rfl

/-- The rows of an entity. -/
def rowsOf (relation : List (AttrRow R E)) (entityId : E) : List (AttrRow R E) :=
  relation.filter fun row => row.entityId = entityId

/-- The decision is the least member in the order of the chain, and its rule is the first one that
tells it from the second member. -/
def WellElected (rules : List (String × List (Term R E))) (relation : List (AttrRow R E))
    (decision : Decision R E) : Prop :=
  ∃ winner ∈ rowsOf relation decision.entityId,
    winner.recordKey = decision.recordKey ∧ winner.value = decision.value ∧
    (∀ other ∈ rowsOf relation decision.entityId, other.recordKey ≠ winner.recordKey →
      chainOrder (rules.flatMap Prod.snd) (rowsOf relation decision.entityId) winner other =
        .lt) ∧
    ((∀ other ∈ rowsOf relation decision.entityId, other.recordKey = winner.recordKey) →
      decision.rule = tiebreakRuleName) ∧
    ∀ second ∈ rowsOf relation decision.entityId, second.recordKey ≠ winner.recordKey →
      (∀ other ∈ rowsOf relation decision.entityId, other.recordKey ≠ winner.recordKey →
        other.recordKey ≠ second.recordKey →
        chainOrder (rules.flatMap Prod.snd) (rowsOf relation decision.entityId) second other =
          .lt) →
      decision.rule =
        tellingRule rules (rowsOf relation decision.entityId) winner second

/-- One decision for each entity, each well elected. -/
structure ElectsByChain (rules : List (String × List (Term R E))) (relation : List (AttrRow R E))
    (decisions : List (Decision R E)) : Prop where
  entities : (decisions.map Decision.entityId).Perm (relation.map AttrRow.entityId).dedup
  elected : ∀ decision ∈ decisions, WellElected rules relation decision

/-- A term whose alias stands for an earlier one never tells two members of an entity apart that the
earlier terms leave tied, when they are the entity's only members. -/
def ShadowedNeverDecide (terms : List (Term R E)) : Prop :=
  ∀ before term after, terms = before ++ term :: after →
    (∃ other ∈ before, foldedAlias other = foldedAlias term) →
    ∀ a b : AttrRow R E, a.entityId = b.entityId → a.recordKey ≠ b.recordKey →
      (∀ other ∈ before, other.key [a, b] a = other.key [a, b] b) →
      term.key [a, b] a = term.key [a, b] b

omit [LinearOrder R] [LinearOrder E] in
/-- Every term of an accepted chain counts a value or reads its row. -/
theorem readsRow_or_frequency (hrules : rankingRules doubles chain = .ok rules) {term : Term R E}
    (hterm : term ∈ rules.flatMap Prod.snd) : ReadsRow term.key ∨ term.key = frequencyKey := by
  obtain ⟨rule, hrule, hterm⟩ := List.mem_flatMap.mp hterm
  obtain ⟨keys, hkeys, _, hparts⟩ := mem_aliasedTerms (aliasedTerms_of_mem hrules hrule)
  obtain ⟨idx, hidx, hkey, _⟩ := hparts term hterm
  rw [hkey]
  rcases ruleTerms_cases hkeys with ⟨_, _, hread⟩ | ⟨values, _, rfl⟩
  · exact hread _ (List.getElem_mem hidx)
  · have hone : idx = 0 := by simpa using hidx
    subst hone
    exact .inl ⟨_, rfl⟩

omit [LinearOrder R] [LinearOrder E] in
/-- Two members that a term leaves tied are tied when they are the only members. -/
theorem tie_pair {rows : List (AttrRow R E)} {a b : AttrRow R E} {key : SortKey R E}
    (hkey : ReadsRow key ∨ key = frequencyKey) (htie : key rows a = key rows b) :
    key [a, b] a = key [a, b] b := by
  rcases hkey with ⟨read, rfl⟩ | rfl
  · exact htie
  · simp only [frequencyKey, List.countP_cons, List.countP_nil, eq_comm (a := b.value)]
    split <;> simp

omit [LinearOrder R] [LinearOrder E] in
/-- Two distinct members of an entity: what is never decided for two rows is not for these. -/
theorem neverDecides_of_shadowed (hrules : rankingRules doubles chain = .ok rules)
    (hshadowed : ShadowedNeverDecide (rules.flatMap Prod.snd)) {rows : List (AttrRow R E)}
    {a b : AttrRow R E} (hentity : a.entityId = b.entityId) (hne : a.recordKey ≠ b.recordKey) :
    NeverDecides foldedAlias (rules.flatMap Prod.snd) fun term =>
      term.key rows a ≠ term.key rows b := by
  intro before term after hterms hearlier htie
  have hmem : ∀ other ∈ before, other ∈ rules.flatMap Prod.snd := by
    intro other hother
    rw [hterms]
    exact List.mem_append_left _ hother
  have hterm : term ∈ rules.flatMap Prod.snd := by
    rw [hterms]
    exact List.mem_append_right _ List.mem_cons_self
  have hrows : ∀ other ∈ before, other.key rows a = other.key rows b := by
    intro other hother
    exact not_not.mp (of_decide_eq_false (htie other hother))
  rw [decide_eq_false_iff_not, not_not]
  rcases readsRow_or_frequency hrules hterm with ⟨read, hread⟩ | hfrequency
  · have hpair := hshadowed before term after hterms hearlier a b hentity hne fun other hother =>
      tie_pair (readsRow_or_frequency hrules (hmem other hother)) (hrows other hother)
    rw [hread] at hpair ⊢
    exact hpair
  · -- a count is behind the same count only
    obtain ⟨other, hother, hsame⟩ := hearlier
    obtain ⟨rule, hrule, hin⟩ := List.mem_flatMap.mp (hmem other hother)
    obtain ⟨rule', hrule', hin'⟩ := List.mem_flatMap.mp hterm
    rcases key_eq_or_single (aliasedTerms_of_mem hrules hrule) (aliasedTerms_of_mem hrules hrule')
      hin hin' hsame with hkey | ⟨_, read, hread⟩
    · rw [← hkey]
      exact hrows other hother
    · have hpair := hshadowed before term after hterms ⟨other, hother, hsame⟩ a b hentity hne
        fun other hother =>
          tie_pair (readsRow_or_frequency hrules (hmem other hother)) (hrows other hother)
      rw [hread] at hpair ⊢
      exact hpair

omit [LinearOrder E] in
/-- The statement orders two members as the chain does. -/
theorem rankOrder_eq_chainOrder (hrules : rankingRules doubles chain = .ok rules)
    (hshadowed : ShadowedNeverDecide (rules.flatMap Prod.snd)) {rows : List (AttrRow R E)}
    {a b : AttrRow R E} (hentity : a.entityId = b.entityId) (hne : a.recordKey ≠ b.recordKey) :
    rankOrder (rules.flatMap Prod.snd) rows a b = chainOrder (rules.flatMap Prod.snd) rows a b := by
  have hnever : NeverDecides foldedAlias (rules.flatMap Prod.snd) fun term =>
      term.key rows a ≠ term.key rows b :=
    neverDecides_of_shadowed hrules hshadowed hentity hne
  have hties : ∀ term other : Term R E, decide (other.key rows a ≠ other.key rows b) = false →
      keyOrder term.direction (other.key rows a) (other.key rows b) = .eq := by
    intro term other htie
    rw [keyOrder_eq_iff]
    exact not_not.mp (of_decide_eq_false htie)
  have htells : ∀ term : Term R E,
      keyOrder term.direction (term.key rows a) (term.key rows b) = .eq →
        decide (term.key rows a ≠ term.key rows b) = false := by
    intro term heq
    rw [decide_eq_false_iff_not, not_not]
    exact keyOrder_eq_iff.mp heq
  exact foldr_resolved hnever hties htells _

omit [LinearOrder R] [LinearOrder E] in
/-- The statement names the rule that the chain does. -/
theorem decidingRule_eq_tellingRule (hrules : rankingRules doubles chain = .ok rules)
    (hshadowed : ShadowedNeverDecide (rules.flatMap Prod.snd)) {rows : List (AttrRow R E)}
    {a b : AttrRow R E} (hentity : a.entityId = b.entityId) (hne : a.recordKey ≠ b.recordKey) :
    decidingRule rules rows a (some b) = tellingRule rules rows a b := by
  have hnever : NeverDecides foldedAlias (rules.flatMap Prod.snd) fun term =>
      term.key rows a ≠ term.key rows b :=
    neverDecides_of_shadowed hrules hshadowed hentity hne
  exact congrArg (fun found => (found.map Prod.fst).getD tiebreakRuleName) (find?_resolved hnever)

omit [LinearOrder E] in
theorem eq_of_rankOrder {terms : List (Term R E)} {rows : List (AttrRow R E)}
    (hkeys : (rows.map AttrRow.recordKey).Nodup) :
    ∀ a ∈ rows, ∀ b ∈ rows, rankOrder terms rows a b = .eq → a = b := by
  intro a ha b hb heq
  rw [rankOrder_eq] at heq
  have hlast := eq_last_of_lexOrder heq
  exact List.inj_on_of_nodup_map hkeys ha hb (compare_eq_iff_eq.mp hlast)

omit [LinearOrder E] in
/-- The second row as ranked is a row with another record key. -/
theorem second_of_ranked {terms : List (Term R E)} {rows others : List (AttrRow R E)}
    {winner second : AttrRow R E} (hkeys : (rows.map AttrRow.recordKey).Nodup)
    (hranked : ranked terms rows = winner :: second :: others) :
    second ∈ rows ∧ second.recordKey ≠ winner.recordKey := by
  have hperm := (perm_ranking (rankOrder terms rows) rows).map AttrRow.recordKey
  have hnodup := hperm.nodup_iff.mpr hkeys
  change ((ranked terms rows).map AttrRow.recordKey).Nodup at hnodup
  rw [hranked, List.map_cons, List.map_cons, List.nodup_cons] at hnodup
  apply And.intro
  · exact mem_ranked.mp (hranked ▸ List.mem_cons_of_mem _ List.mem_cons_self)
  · intro hsame
    exact hnodup.1 (hsame ▸ List.mem_cons_self)

/-- An entity's decision is well elected. -/
theorem wellElected_of_elect (hrules : rankingRules doubles chain = .ok rules)
    (hshadowed : ShadowedNeverDecide (rules.flatMap Prod.snd)) {relation : List (AttrRow R E)}
    (hkeys : (relation.map AttrRow.recordKey).Nodup) {entityId : E} {decision : Decision R E}
    (helect : elect rules (entityId, rowsOf relation entityId) = some decision) :
    WellElected rules relation decision := by
  have hrowKeys : ((rowsOf relation entityId).map AttrRow.recordKey).Nodup :=
    hkeys.sublist (List.filter_sublist.map _)
  have hentity : ∀ row ∈ rowsOf relation entityId, row.entityId = entityId := by
    intro row hrow
    exact of_decide_eq_true (List.mem_filter.mp hrow).2
  have horder : ∀ a ∈ rowsOf relation entityId, ∀ b ∈ rowsOf relation entityId,
      a.recordKey ≠ b.recordKey →
        rankOrder (rules.flatMap Prod.snd) (rowsOf relation entityId) a b =
        chainOrder (rules.flatMap Prod.snd) (rowsOf relation entityId) a b := by
    intro a ha b hb hne
    exact rankOrder_eq_chainOrder hrules hshadowed ((hentity a ha).trans (hentity b hb).symm) hne
  have htrans := transCmp_rankOrder (rules.flatMap Prod.snd) (rowsOf relation entityId)
  have hdistinct : ∀ a ∈ rowsOf relation entityId, ∀ b ∈ rowsOf relation entityId,
      rankOrder (rules.flatMap Prod.snd) (rowsOf relation entityId) a b = .eq → a = b :=
    eq_of_rankOrder hrowKeys
  rw [elect] at helect
  cases hranked : ranked (rules.flatMap Prod.snd) (rowsOf relation entityId) with
  | nil =>
      rw [hranked] at helect
      cases helect
  | cons winner others =>
      rw [hranked] at helect
      cases helect
      have hwinner : winner ∈ rowsOf relation entityId :=
        mem_ranked.mp (hranked ▸ List.mem_cons_self)
      refine ⟨winner, hwinner, rfl, rfl, ?_, ?_, ?_⟩
      · intro other hother hne
        rw [← horder winner hwinner other hother hne.symm]
        exact first_lt hdistinct hranked hother fun hsame => hne (congrArg _ hsame)
      · intro hlone
        cases others with
        | nil => rfl
        | cons second others =>
            obtain ⟨hsecond, hne⟩ := second_of_ranked hrowKeys hranked
            exact absurd (hlone second hsecond) hne
      · intro second hsecond hne hleast
        cases others with
        | nil =>
            have hin : second ∈ ranked (rules.flatMap Prod.snd) (rowsOf relation entityId) :=
              mem_ranked.mpr hsecond
            rw [hranked, List.mem_singleton] at hin
            exact absurd (congrArg _ hin) hne
        | cons other others =>
            obtain ⟨hother, hne'⟩ := second_of_ranked hrowKeys hranked
            have hsame : other = second := by
              by_contra hdiffer
              have hkeyNe : other.recordKey ≠ second.recordKey := by
                intro hkey
                exact hdiffer (List.inj_on_of_nodup_map hrowKeys hother hsecond hkey)
              have hback := hleast other hother hne' hkeyNe
              rw [← horder second hsecond other hother hkeyNe.symm] at hback
              have hforth := second_lt hdistinct hranked hsecond (fun h => hne (congrArg _ h))
                (fun h => hdiffer h.symm)
              have hswap : rankOrder (rules.flatMap Prod.snd) (rowsOf relation entityId) other
                  second = (rankOrder (rules.flatMap Prod.snd) (rowsOf relation entityId) second
                    other).swap := Std.OrientedCmp.eq_swap
              rw [hswap, hback] at hforth
              cases hforth
            rw [← hsame]
            exact decidingRule_eq_tellingRule hrules hshadowed
              ((hentity winner hwinner).trans (hentity other hother).symm) hne'.symm

/-! ## The order of the rows -/

omit [LinearOrder R] [LinearOrder E] in
theorem key_perm (hrules : rankingRules doubles chain = .ok rules) {term : Term R E}
    (hterm : term ∈ rules.flatMap Prod.snd) {rows rows' : List (AttrRow R E)}
    (hperm : rows.Perm rows') : resolvedKey (rules.flatMap Prod.snd) term rows =
      resolvedKey (rules.flatMap Prod.snd) term rows' := by
  have hresolved : resolved foldedAlias (rules.flatMap Prod.snd) term ∈ rules.flatMap Prod.snd :=
    resolved_mem hterm
  rw [resolvedKey_eq]
  rcases readsRow_or_frequency hrules hresolved with ⟨read, hread⟩ | hfrequency
  · rw [hread]
  · rw [hfrequency]
    funext row
    rw [frequencyKey, frequencyKey, hperm.countP_eq]

omit [LinearOrder E] in
theorem elect_perm (hrules : rankingRules doubles chain = .ok rules) (entityId : E)
    {rows rows' : List (AttrRow R E)} (hkeys : (rows.map AttrRow.recordKey).Nodup)
    (hperm : rows.Perm rows') : elect rules (entityId, rows) = elect rules (entityId, rows') := by
  have horder : rankOrder (rules.flatMap Prod.snd) rows =
      rankOrder (rules.flatMap Prod.snd) rows' := by
    funext a b
    apply List.foldr_ext
    intro term hterm later
    rw [key_perm hrules hterm hperm]
  have hranked : ranked (rules.flatMap Prod.snd) rows = ranked (rules.flatMap Prod.snd) rows' := by
    have htrans := transCmp_rankOrder (rules.flatMap Prod.snd) rows
    have hsame : ranking (rankOrder (rules.flatMap Prod.snd) rows) rows =
        ranking (rankOrder (rules.flatMap Prod.snd) rows) rows' :=
      ranking_eq_of_perm (eq_of_rankOrder hkeys) hperm
    exact hsame.trans (congrArg (fun order => ranking order rows') horder)
  have hdeciding : ∀ winner second, decidingRule rules rows winner second =
      decidingRule rules rows' winner second := by
    intro winner second
    cases second with
    | none => rfl
    | some second =>
        have hfind : (rules.find? fun rule => rule.2.any fun term =>
            resolvedKey (rules.flatMap Prod.snd) term rows winner ≠
              resolvedKey (rules.flatMap Prod.snd) term rows second) =
            rules.find? fun rule => rule.2.any fun term =>
              resolvedKey (rules.flatMap Prod.snd) term rows' winner ≠
                resolvedKey (rules.flatMap Prod.snd) term rows' second := by
          apply List.find?_congr
          intro rule hrule
          rw [Bool.eq_iff_iff, List.any_eq_true, List.any_eq_true]
          apply exists_congr
          intro term
          apply and_congr_right
          intro hterm
          rw [key_perm hrules (List.mem_flatMap.mpr ⟨rule, hrule, hterm⟩) hperm]
        exact congrArg (fun found => (found.map Prod.fst).getD tiebreakRuleName) hfind
  rw [elect, elect, hranked]
  simp only [hdeciding]

theorem decisions_perm (hrules : rankingRules doubles chain = .ok rules)
    {relation relation' : List (AttrRow R E)} (hkeys : (relation.map AttrRow.recordKey).Nodup)
    (hperm : relation.Perm relation') :
    ((groups AttrRow.entityId relation).filterMap (elect rules)).Perm
      ((groups AttrRow.entityId relation').filterMap (elect rules)) := by
  rw [groups, groups, List.filterMap_map, List.filterMap_map]
  have hentities := ((hperm.map AttrRow.entityId).dedup).filterMap
    (elect rules ∘ fun entityId => (entityId, relation.filter fun row => row.entityId = entityId))
  apply hentities.trans
  have hsame : (elect rules ∘ fun entityId =>
      (entityId, relation.filter fun row => row.entityId = entityId)) =
      elect rules ∘ fun entityId =>
        (entityId, relation'.filter fun row => row.entityId = entityId) := by
    funext entityId
    exact elect_perm hrules entityId (hkeys.sublist (List.filter_sublist.map _))
      (hperm.filter _)
  rw [hsame]

omit [LinearOrder R] [LinearOrder E] in
theorem ne_tiebreak_of_aliased {rule : String} {terms : List (Term R E)}
    (haliased : aliasedTerms doubles rule = .ok terms) : rule ≠ tiebreakRuleName := by
  rintro rfl
  obtain ⟨keys, hkeys, _⟩ := mem_aliasedTerms haliased
  rcases ruleTerms_cases hkeys with ⟨hnamed, _⟩ | ⟨values, hvalues, _⟩
  · revert hnamed
    decide
  · have hnone : prioritizedValues tiebreakRuleName = none := by decide
    rw [hnone] at hvalues
    cases hvalues

omit [LinearOrder R] [LinearOrder E] in
/-- Where a term that is not read tells two rows apart, the statement names another rule. -/
theorem decidingRule_ne_tellingRule (hrules : rankingRules doubles chain = .ok rules)
    {before after : List (Term R E)} {term : Term R E}
    (hterms : rules.flatMap Prod.snd = before ++ term :: after)
    (hearlier : ∃ other ∈ before, foldedAlias other = foldedAlias term)
    {rows : List (AttrRow R E)} {first second : AttrRow R E}
    (htie : ∀ other ∈ before, other.key rows first = other.key rows second)
    (htells : term.key rows first ≠ term.key rows second) :
    decidingRule rules rows first (some second) ≠ tellingRule rules rows first second := by
  have htie' : ∀ other ∈ before,
      decide (other.key rows first ≠ other.key rows second) = false := by
    intro other hother
    rw [decide_eq_false_iff_not, not_not]
    exact htie other hother
  obtain ⟨rule, hrule, hfind, hin⟩ := find?_of_first hterms htie' (decide_eq_true htells)
  have htelling : tellingRule rules rows first second = rule.1 := by
    rw [tellingRule, hfind]
    rfl
  -- the term is the only one of its rule
  have honly : rule.2 = [term] := by
    obtain ⟨other, hother, hsame⟩ := hearlier
    have hmem : other ∈ rules.flatMap Prod.snd := by
      rw [hterms]
      exact List.mem_append_left _ hother
    obtain ⟨rule', hrule', hin'⟩ := List.mem_flatMap.mp hmem
    rcases key_eq_or_single (aliasedTerms_of_mem hrules hrule') (aliasedTerms_of_mem hrules hrule)
      hin' hin hsame with hkey | ⟨honly, _⟩
    · exact absurd (hkey ▸ htie other hother) htells
    · exact honly
  have hread : resolved foldedAlias (rules.flatMap Prod.snd) term ∈ before :=
    resolved_mem_before hterms hearlier
  rw [htelling, decidingRule]
  cases hdeciding : rules.find? fun rule => rule.2.any fun term =>
      resolvedKey (rules.flatMap Prod.snd) term rows first ≠
        resolvedKey (rules.flatMap Prod.snd) term rows second with
  | none => exact (ne_tiebreak_of_aliased (aliasedTerms_of_mem hrules hrule)).symm
  | some found =>
      intro hname
      change found.1 = rule.1 at hname
      have hfound := aliasedTerms_of_mem hrules (List.mem_of_find?_eq_some hdeciding)
      rw [hname, aliasedTerms_of_mem hrules hrule, honly] at hfound
      have hany := List.find?_some hdeciding
      rw [← Except.ok.inj hfound, List.any_cons, List.any_nil, Bool.or_false,
        decide_eq_true_eq] at hany
      exact hany (htie _ hread)

/-- A chain elects as it should, whatever the rows: the least member of each entity in the order of
the chain, named after the rule that decides, in whatever order the rows are listed. -/
def ElectsInOrder (doubles : Doubles) (attr : String) (chain : List String)
    (rules : List (String × List (Term R E))) : Prop :=
  ∀ relation : List (AttrRow R E), (relation.map AttrRow.recordKey).Nodup →
    ∃ decisions, survivorshipDecision doubles attr chain relation = .ok decisions ∧
      ElectsByChain rules relation decisions ∧
      ∀ relation', relation.Perm relation' → ∃ decisions',
        survivorshipDecision doubles attr chain relation' = .ok decisions' ∧
          decisions.Perm decisions'

theorem not_electsInOrder (hrules : rankingRules doubles (chainWithoutTerminal chain) = .ok rules)
    {before after : List (Term R E)} {term : Term R E}
    (hterms : rules.flatMap Prod.snd = before ++ term :: after)
    (hearlier : ∃ other ∈ before, foldedAlias other = foldedAlias term) {a b : AttrRow R E}
    (hentity : a.entityId = b.entityId) (hne : a.recordKey ≠ b.recordKey)
    (htie : ∀ other ∈ before, other.key [a, b] a = other.key [a, b] b)
    (htells : term.key [a, b] a ≠ term.key [a, b] b) :
    ¬ ElectsInOrder doubles attr chain rules := by
  intro helects
  have hkeys : ([a, b].map AttrRow.recordKey).Nodup := by simpa using hne
  obtain ⟨decisions, hdecisions, helected, _⟩ := helects [a, b] hkeys
  rw [survivorshipDecision_eq hrules, Except.ok.injEq] at hdecisions
  have hrows : rowsOf [a, b] a.entityId = [a, b] := by
    rw [rowsOf, List.filter_eq_self]
    simp [hentity]
  have hgroup : (a.entityId, [a, b]) ∈ groups AttrRow.entityId [a, b] :=
    mem_groups.mpr ⟨⟨a, List.mem_cons_self, rfl⟩, hrows.symm⟩
  have hlength : (ranked (rules.flatMap Prod.snd) [a, b]).length = 2 :=
    List.length_insertionSort _ _
  obtain ⟨winner, second, hranked⟩ := List.length_eq_two.mp hlength
  obtain ⟨hsecond, hdiffer⟩ := second_of_ranked hkeys hranked
  have hwinner : winner ∈ [a, b] := mem_ranked.mp (hranked ▸ List.mem_cons_self)
  have helect : elect rules (a.entityId, [a, b]) = some ⟨a.entityId, winner.value,
      winner.recordKey, decidingRule rules [a, b] winner (some second)⟩ := by
    rw [elect]
    dsimp only
    rw [hranked]
    rfl
  have hwell := helected.elected _ (hdecisions ▸ List.mem_filterMap.mpr ⟨_, hgroup, helect⟩)
  obtain ⟨elected, hin, hkey, _, _, _, htelling⟩ := hwell
  dsimp only at hin hkey htelling
  rw [hrows] at hin htelling
  have hsame : elected = winner := List.inj_on_of_nodup_map hkeys hin hwinner hkey
  rw [hsame] at htelling
  have hpair : (winner = a ∧ second = b) ∨ (winner = b ∧ second = a) := by
    simp only [List.mem_cons, List.not_mem_nil, or_false] at hwinner hsecond
    rcases hwinner with rfl | rfl
    · rcases hsecond with rfl | rfl
      · exact absurd rfl hdiffer
      · exact .inl ⟨rfl, rfl⟩
    · rcases hsecond with rfl | rfl
      · exact .inr ⟨rfl, rfl⟩
      · exact absurd rfl hdiffer
  have hleast : ∀ other ∈ [a, b], other.recordKey ≠ winner.recordKey →
      other.recordKey ≠ second.recordKey →
      chainOrder (rules.flatMap Prod.snd) [a, b] second other = .lt := by
    intro other hother hfirst hother'
    simp only [List.mem_cons, List.not_mem_nil, or_false] at hother
    rcases hpair with ⟨rfl, rfl⟩ | ⟨rfl, rfl⟩ <;> rcases hother with rfl | rfl <;>
      first | exact absurd rfl hfirst | exact absurd rfl hother'
  have hrule := htelling second hsecond hdiffer hleast
  rcases hpair with ⟨rfl, rfl⟩ | ⟨rfl, rfl⟩
  · exact decidingRule_ne_tellingRule hrules hterms hearlier htie htells hrule
  · exact decidingRule_ne_tellingRule hrules hterms hearlier (fun other hother =>
      (htie other hother).symm) htells.symm hrule

/-- A chain elects in order exactly when a list that is not read never decides. -/
theorem survivorship_elects_in_order_iff
    (hrules : rankingRules doubles (chainWithoutTerminal chain) = .ok rules) :
    ElectsInOrder doubles attr chain rules ↔ ShadowedNeverDecide (rules.flatMap Prod.snd) := by
  apply Iff.intro
  · intro helects before term after hterms hearlier a b hentity hne htie
    by_contra htells
    exact not_electsInOrder hrules hterms hearlier hentity hne htie htells helects
  · intro hshadowed relation hkeys
    refine ⟨_, survivorshipDecision_eq hrules relation, ?_, ?_⟩
    · apply ElectsByChain.mk
      · have hdecisions : survivorshipDecision doubles attr chain relation = _ :=
          survivorshipDecision_eq hrules relation
        rw [(survivorshipDecision_elects hdecisions).entities]
      · intro decision hdecision
        obtain ⟨group, hgroup, helect⟩ := List.mem_filterMap.mp hdecision
        obtain ⟨_, hrows⟩ := mem_groups.mp hgroup
        apply wellElected_of_elect hrules hshadowed hkeys
        change elect rules (group.1, relation.filter fun row => row.entityId = group.1) = _
        rw [← hrows]
        exact helect
    · intro relation' hperm
      exact ⟨_, survivorshipDecision_eq hrules relation', decisions_perm hrules hkeys hperm⟩

end Chain

/-- No text is a double. -/
def wordsOnly : Doubles where
  tryCast _ := none
  render _ := ""

/-- A member with a value. -/
def memberRow (recordKey : ℕ) (value : String) : AttrRow ℕ ℕ where
  entityId := 7
  recordKey := recordKey
  sourceSystem := "crm"
  updatedAtSource := none
  ingestedAt := 0
  sources := ∅
  value := some value
  valid := none

omit [LinearOrder R] [LinearOrder E] in
theorem shadowedNeverDecide_of_nodup {terms : List (Term R E)}
    (hnodup : (terms.map foldedAlias).Nodup) : ShadowedNeverDecide terms := by
  rintro before term after rfl ⟨other, hother, hsame⟩
  rw [List.map_append, List.nodup_append] at hnodup
  exact absurd hsame (hnodup.2.2 _ (List.mem_map_of_mem hother) _
    (List.mem_map_of_mem List.mem_cons_self))

theorem survivorship_elects_in_order_sample :
    ∃ rules : List (String × List (Term ℕ ℕ)),
      rankingRules wordsOnly (chainWithoutTerminal ["frequency", "prioritized:a|b"]) = .ok rules ∧
        ElectsInOrder wordsOnly "full_name" ["frequency", "prioritized:a|b"] rules := by
  have hok : ((rankingRules wordsOnly (chainWithoutTerminal ["frequency", "prioritized:a|b"]) :
      Except SurvivorshipError (List (String × List (Term ℕ ℕ)))).toOption.map fun rules =>
        decide ((rules.flatMap Prod.snd).map foldedAlias).Nodup) = some true := by
    decide +kernel
  cases hrules : (rankingRules wordsOnly
      (chainWithoutTerminal ["frequency", "prioritized:a|b"]) :
        Except SurvivorshipError (List (String × List (Term ℕ ℕ)))) with
  | error problem =>
      rw [hrules] at hok
      cases hok
  | ok rules =>
      rw [hrules] at hok
      exact ⟨rules, rfl, (survivorship_elects_in_order_iff hrules).mpr
        (shadowedNeverDecide_of_nodup (of_decide_eq_true (Option.some.inj hok)))⟩

/-- The lists `a|b` and `a_b` share an alias, so that the second one is not read: record 1 wins with
a value that neither lists, where the chain puts record 2 with the value `a_b` first. -/
theorem prioritized_list_is_not_read :
    ∃ rules : List (String × List (Term ℕ ℕ)),
      rankingRules wordsOnly (chainWithoutTerminal ["prioritized:a|b", "prioritized:a_b"]) =
        .ok rules ∧
      chainOrder (rules.flatMap Prod.snd) [memberRow 1 "x", memberRow 2 "a_b"]
        (memberRow 2 "a_b") (memberRow 1 "x") = .lt ∧
      ((survivorshipDecision wordsOnly "full_name" ["prioritized:a|b", "prioritized:a_b"]
        [memberRow 1 "x", memberRow 2 "a_b"]).toOption.map fun decisions =>
          decisions.map Decision.recordKey) = some [1] ∧
      ¬ ElectsInOrder wordsOnly "full_name" ["prioritized:a|b", "prioritized:a_b"] rules := by
  have horder : ((rankingRules wordsOnly
      (chainWithoutTerminal ["prioritized:a|b", "prioritized:a_b"]) :
        Except SurvivorshipError (List (String × List (Term ℕ ℕ)))).toOption.map fun rules =>
      (chainOrder (rules.flatMap Prod.snd) [memberRow 1 "x", memberRow 2 "a_b"]
        (memberRow 2 "a_b") (memberRow 1 "x"),
       chainOrder (rules.flatMap Prod.snd) [memberRow 1 "x", memberRow 2 "a_b"]
        (memberRow 1 "x") (memberRow 2 "a_b"))) = some (.lt, .gt) := by
    decide +kernel
  have hdecides : ((survivorshipDecision wordsOnly "full_name"
      ["prioritized:a|b", "prioritized:a_b"]
        [memberRow 1 "x", memberRow 2 "a_b"]).toOption.map fun decisions =>
          decisions.map Decision.recordKey) = some [1] := by
    decide +kernel
  have hentities : ((survivorshipDecision wordsOnly "full_name"
      ["prioritized:a|b", "prioritized:a_b"]
        [memberRow 1 "x", memberRow 2 "a_b"]).toOption.map fun decisions =>
          decisions.map Decision.entityId) = some [7] := by
    decide +kernel
  cases hrules : (rankingRules wordsOnly
      (chainWithoutTerminal ["prioritized:a|b", "prioritized:a_b"]) :
        Except SurvivorshipError (List (String × List (Term ℕ ℕ)))) with
  | error problem =>
      rw [hrules] at horder
      cases horder
  | ok rules =>
      rw [hrules] at horder
      have hpair := Prod.mk.inj (Option.some.inj horder)
      refine ⟨rules, rfl, hpair.1, hdecides, ?_⟩
      intro helects
      rcases helects [memberRow 1 "x", memberRow 2 "a_b"] (by decide) with
        ⟨decisions, hdecisions, helected, _⟩
      rw [hdecisions] at hdecides hentities
      have hkeys : decisions.map Decision.recordKey = [1] := Option.some.inj hdecides
      have hentity : decisions.map Decision.entityId = [7] := Option.some.inj hentities
      obtain ⟨decision, rfl⟩ := List.length_eq_one_iff.mp ((List.length_map _).symm.trans
        (congrArg List.length hkeys))
      have hkey : decision.recordKey = 1 := List.head_eq_of_cons_eq hkeys
      have hseven : decision.entityId = 7 := List.head_eq_of_cons_eq hentity
      obtain ⟨winner, hwinner, hwon, _, hfirst, _⟩ := helected.elected decision List.mem_cons_self
      have hrows : rowsOf [memberRow 1 "x", memberRow 2 "a_b"] decision.entityId =
          [memberRow 1 "x", memberRow 2 "a_b"] := by
        rw [hseven]
        rfl
      rw [hrows] at hwinner hfirst
      rw [hkey] at hwon
      rcases List.mem_cons.mp hwinner with rfl | hwinner
      · have hlt := hfirst (memberRow 2 "a_b") (by simp) (by decide)
        rw [hpair.2] at hlt
        cases hlt
      · cases List.mem_singleton.mp hwinner
        exact absurd hwon (by decide)

end EntityResolution.Golden
