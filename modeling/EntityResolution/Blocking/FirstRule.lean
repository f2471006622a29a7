/-
# Blocking and the first rule that admits a pair

Blocking is exact when each eligible pair comes out once under the position of the first
declared rule that admits it, and not at all when none does. It is exact for a pair as long
as the arm of that rule generates it, and no rule that generates it prints a smaller
position. With ten rules or fewer, and no rule over a column that a later rule explodes,
that is always so; the pair at the end of the module is lost because its rules break the
second half.
-/

import EntityResolution.Blocking.Exactness

namespace EntityResolution.Blocking

open EntityResolution.Collections EntityResolution.Relations

variable {Id : Type}

/-- The position of the first declared rule that admits the pair. -/
def firstAdmitting (settings : Settings Id) (l r : Record Id) : Option ℕ :=
  settings.blockingRules.findIdx? fun rule => rule.admits l r

theorem not_generatesAt_of_firstAdmitting_eq_none {settings : Settings Id} {l r : Record Id}
    (hdeclared : settings.blockingRules ≠ []) (hnone : firstAdmitting settings l r = none)
    (i : ℕ) : ¬ settings.GeneratesAt i l r := by
  intro hgen
  obtain ⟨rule, hrule, hgen⟩ := hgen
  rw [Settings.effectiveRules_of_ne_nil hdeclared] at hrule
  rw [firstAdmitting, List.findIdx?_eq_none_iff] at hnone
  have hfalse := hnone rule (List.mem_of_getElem? hrule)
  rw [BlockingRule.admits_of_generates hgen] at hfalse
  exact absurd hfalse (by decide)

/-- What the rules must do on a pair for blocking to be exact on it: some rule is declared;
the first rule that admits the pair holds for a choice of elements on which no scalar rule
before it holds; and no rule that generates the pair prints a smaller position. -/
structure FirstRuleWins (settings : Settings Id) (l r : Record Id) : Prop where
  declared : settings.blockingRules ≠ []
  unmasked : ∀ k, firstAdmitting settings l r = some k → settings.GeneratesAt k l r
  least : ∀ k j, firstAdmitting settings l r = some k → settings.GeneratesAt j l r →
    toString k ≤ toString j

/-- The rule lists on which the first rule always wins: some rule is declared, the
positions are single digits, and no scalar rule reads a column that a later rule explodes. -/
structure RulesApart (settings : Settings Id) : Prop where
  declared : settings.blockingRules ≠ []
  digits : settings.blockingRules.length ≤ 10
  apart : ∀ (i j : ℕ) (rule later : BlockingRule Id), i < j →
    settings.blockingRules[i]? = some rule →
    settings.blockingRules[j]? = some later → rule.isExploding = false →
    ∀ c ∈ rule.referencedColumns, c ∉ later.arraysToExplode

/-- Single digits compare as the numbers do. -/
theorem toString_le_of_digits {k j : ℕ} (hle : k ≤ j) (hj : j < 10) :
    toString k ≤ toString j := by
  have hdigits : ∀ k j : Fin 10, k ≤ j → toString k.val ≤ toString j.val := by decide +kernel
  exact hdigits ⟨k, by omega⟩ ⟨j, hj⟩ hle

/-- A rule reads the same on choices of columns it does not read. -/
theorem holds_of_choices {rule : BlockingRule Id} {columns : List Column} {l l' r r' : Record Id}
    (hapart : ∀ c ∈ rule.referencedColumns, c ∉ columns) (hl : l' ∈ l.choices columns)
    (hr : r' ∈ r.choices columns) : rule.holds l' r' = rule.holds l r := by
  have hlc := Record.choices_carries hl
  have hrc := Record.choices_carries hr
  have hsql : rule.sql l' r' = rule.sql l r := by
    apply rule.reads
    · exact ⟨hlc.1, hlc.2.1, fun c hc => hlc.2.2 c (hapart c hc)⟩
    · exact ⟨hrc.1, hrc.2.1, fun c hc => hrc.2.2 c (hapart c hc)⟩
  rw [BlockingRule.holds, BlockingRule.holds, hsql]

theorem RulesApart.firstRuleWins {settings : Settings Id} (hapart : RulesApart settings)
    (l r : Record Id) : FirstRuleWins settings l r := by
  have heffective := Settings.effectiveRules_of_ne_nil hapart.declared
  constructor
  · exact hapart.declared
  · intro k hfirst
    rw [firstAdmitting, List.findIdx?_eq_some_iff_getElem] at hfirst
    obtain ⟨hk, hadmits, hbefore⟩ := hfirst
    have hrule := List.getElem?_eq_getElem hk
    refine ⟨settings.blockingRules[k], by rw [heffective, hrule], ?_⟩
    rw [BlockingRule.admits, List.any_eq_true] at hadmits
    obtain ⟨l', hl', hadmits⟩ := hadmits
    obtain ⟨r', hr', hholds⟩ := List.any_eq_true.mp hadmits
    apply BlockingRule.generates_eq_true_iff.mpr
    refine ⟨l', hl', r', hr', hholds, ?_⟩
    rw [excludePreceding_eq_true_iff, heffective]
    intro earlier hearlier hscalar
    obtain ⟨i, hi, rfl⟩ := List.mem_take_iff_getElem.mp hearlier
    have hik : i < k := by omega
    have hnot := hbefore i hik
    rw [BlockingRule.admits_of_scalar hscalar] at hnot
    rw [holds_of_choices (hapart.apart i k _ _ hik (List.getElem?_eq_getElem _) hrule hscalar)
      hl' hr']
    simpa using hnot
  · intro k j hfirst hj
    obtain ⟨rule, hrule, hgen⟩ := hj
    rw [heffective] at hrule
    rw [firstAdmitting, List.findIdx?_eq_some_iff_getElem] at hfirst
    obtain ⟨hk, -, hbefore⟩ := hfirst
    obtain ⟨hjlen, rfl⟩ := List.getElem?_eq_some_iff.mp hrule
    have hdigits := hapart.digits
    apply toString_le_of_digits
    · by_contra hlt
      exact hbefore j (by omega) (BlockingRule.admits_of_generates hgen)
    · omega

variable [LinearOrder Id] (hash : Id → ℕ) (settings : Settings Id) (concat : Concat Id)

/-- Blocking yields each eligible pair once under the first rule that admits it, and no
other row. -/
structure BlocksExactly : Prop where
  only : ∀ row ∈ materializeBlockedPairs hash settings concat.records,
    ∃ l ∈ concat.records, ∃ r ∈ concat.records,
      whereCondition settings.linkType l r = true ∧ row.keys = (l.uid, r.uid)
  each : ∀ l ∈ concat.records, ∀ r ∈ concat.records,
    whereCondition settings.linkType l r = true →
      (materializeBlockedPairs hash settings concat.records).filter
          (fun row => row.keys = (l.uid, r.uid)) =
        ((firstAdmitting settings l r).map fun k =>
          (⟨toString k, l.uid, r.uid⟩ : BlockedPair Id)).toList

section FirstRule

variable {hash settings concat} {l r : Record Id}

theorem filter_keys_eq_singleton {row : BlockedPair Id}
    (hrow : row ∈ materializeBlockedPairs hash settings concat.records) :
    (materializeBlockedPairs hash settings concat.records).filter
        (fun other => other.keys = row.keys) = [row] :=
  filter_key_eq_singleton (nodup_keys_materializeBlockedPairs hash concat) hrow

theorem mem_materializeBlockedPairs_pair (hl : l ∈ concat.records) (hr : r ∈ concat.records)
    {k : ℕ}
    (hrow : ⟨toString k, l.uid, r.uid⟩ ∈ materializeBlockedPairs hash settings concat.records) :
    settings.GeneratesAt k l r ∧ ∀ j, settings.GeneratesAt j l r → toString k ≤ toString j := by
  obtain ⟨l', hl', r', hr', i, -, hgen, hleast, hsame⟩ :=
    (mem_materializeBlockedPairs hash concat).mp hrow
  obtain ⟨hkey, hlsame, hrsame⟩ := BlockedPair.mk.inj hsame
  have hl'eq : l = l' := concat.eq_of_uid hl hl' hlsame
  have hr'eq : r = r' := concat.eq_of_uid hr hr' hrsame
  have hk : k = i := Nat.repr_injective hkey
  subst hl'eq hr'eq hk
  exact ⟨hgen, hleast⟩

end FirstRule

/-- On a pair that comes out as it should, the first rule won. -/
theorem BlocksExactly.firstRuleWins {hash : Id → ℕ} {settings : Settings Id}
    {concat : Concat Id} (hexact : BlocksExactly hash settings concat) {l r : Record Id}
    (hl : l ∈ concat.records) (hr : r ∈ concat.records)
    (hwhere : whereCondition settings.linkType l r = true) : FirstRuleWins settings l r := by
  have heach := hexact.each l hl r hr hwhere
  have hin : ∀ k, firstAdmitting settings l r = some k →
      (⟨toString k, l.uid, r.uid⟩ : BlockedPair Id) ∈
        materializeBlockedPairs hash settings concat.records := by
    intro k hfirst
    rw [hfirst, Option.map_some, Option.toList_some] at heach
    exact List.mem_of_mem_filter (heach ▸ List.mem_singleton_self _)
  constructor
  · intro hempty
    -- the literal rule generates the pair, and no declared rule admits it
    have hcartesian : settings.effectiveRules = [cartesianRule] := by
      simp [Settings.effectiveRules, rulesOrCartesian, hempty]
    have hgen : settings.GeneratesAt 0 l r := by
      refine ⟨cartesianRule, by rw [hcartesian]; rfl, ?_⟩
      rw [BlockingRule.generates_of_scalar rfl]
      rfl
    have hzero : ∀ j, settings.GeneratesAt j l r → toString 0 ≤ toString j := by
      intro j hj
      obtain ⟨rule, hrule, -⟩ := hj
      rw [hcartesian, List.getElem?_singleton] at hrule
      split at hrule
      · rename_i hj
        rw [hj]
      · cases hrule
    have hrow := (mem_materializeBlockedPairs hash concat).mpr
      ⟨l, hl, r, hr, 0, hwhere, hgen, hzero, rfl⟩
    have hnone : firstAdmitting settings l r = none := by
      rw [firstAdmitting, hempty]
      rfl
    rw [hnone, Option.map_none, Option.toList_none, List.filter_eq_nil_iff] at heach
    exact heach _ hrow (by simp [BlockedPair.keys])
  · intro k hfirst
    exact (mem_materializeBlockedPairs_pair hl hr (hin k hfirst)).1
  · intro k j hfirst hj
    exact (mem_materializeBlockedPairs_pair hl hr (hin k hfirst)).2 j hj

/-- Where the first rule wins on every eligible pair, blocking is exact. -/
theorem blocksExactly_of_firstRuleWins
    (hwins : ∀ l ∈ concat.records, ∀ r ∈ concat.records,
      whereCondition settings.linkType l r = true → FirstRuleWins settings l r) :
    BlocksExactly hash settings concat := by
  constructor
  · intro row hrow
    obtain ⟨l, hl, r, hr, i, hwhere, -, -, rfl⟩ := (mem_materializeBlockedPairs hash concat).mp hrow
    exact ⟨l, hl, r, hr, hwhere, rfl⟩
  · intro l hl r hr hwhere
    have hpair := hwins l hl r hr hwhere
    cases hfirst : firstAdmitting settings l r with
    | none =>
      rw [Option.map_none, Option.toList_none, List.filter_eq_nil_iff]
      intro row hrow
      simp only [decide_eq_true_eq]
      intro hkeys
      obtain ⟨l', hl', r', hr', i, -, hgen, -, rfl⟩ :=
        (mem_materializeBlockedPairs hash concat).mp hrow
      obtain ⟨hlsame, hrsame⟩ := Prod.mk.inj hkeys
      rw [concat.eq_of_uid hl' hl hlsame, concat.eq_of_uid hr' hr hrsame] at hgen
      exact not_generatesAt_of_firstAdmitting_eq_none hpair.declared hfirst i hgen
    | some k =>
      rw [Option.map_some, Option.toList_some]
      exact filter_keys_eq_singleton ((mem_materializeBlockedPairs hash concat).mpr
        ⟨l, hl, r, hr, k, hwhere, hpair.unmasked k hfirst,
          fun j hj => hpair.least k j hfirst hj, rfl⟩)

/-- Blocking is exact if and only if the first rule wins on every eligible pair. -/
theorem blocksExactly_iff :
    BlocksExactly hash settings concat ↔
      ∀ l ∈ concat.records, ∀ r ∈ concat.records,
        whereCondition settings.linkType l r = true → FirstRuleWins settings l r := by
  constructor
  · intro hexact l hl r hr hwhere
    exact hexact.firstRuleWins hl hr hwhere
  · exact blocksExactly_of_firstRuleWins hash settings concat

/-- Rules that keep apart block exactly, on every table. -/
theorem RulesApart.blocksExactly {settings : Settings Id} (hapart : RulesApart settings) :
    BlocksExactly hash settings concat :=
  blocksExactly_of_firstRuleWins hash settings concat fun l _ r _ _ => hapart.firstRuleWins l r

/-- Two records that share the token `a`. -/
def tokenRecord (uid : ℕ) (other : String) : Record ℕ where
  uid := uid
  source := "people"
  cols := fun c => if c = "tokens" then .list [.text "a", .text other] else .null

/-- Equal token lists first, then a shared token. -/
def tokenSettings : Settings ℕ where
  linkType := .dedupeOnly
  blockingRulesToGeneratePredictions :=
    [equiRule "tokens" [], equiRule "tokens" ["tokens"]]

def tokenConcat : Concat ℕ where
  records := [tokenRecord 1 "b", tokenRecord 2 "c"]
  distinct := by decide

/-- The second rule admits the pair, and the arm of the second rule drops it: read on the
exploded rows, the first rule compares tokens. -/
theorem tokens_lost : ¬ BlocksExactly id tokenSettings tokenConcat := by
  intro hexact
  have hnone : materializeBlockedPairs id tokenSettings tokenConcat.records = [] := by
    decide +kernel
  have hfirst : firstAdmitting tokenSettings (tokenRecord 1 "b") (tokenRecord 2 "c") = some 1 := by
    decide +kernel
  have heach := hexact.each (tokenRecord 1 "b") (by simp [tokenConcat]) (tokenRecord 2 "c")
    (by simp [tokenConcat]) (by decide)
  rw [hnone, hfirst] at heach
  cases heach

/-- A shared token first, then equal names. -/
def apartSettings : Settings ℕ where
  linkType := .dedupeOnly
  blockingRulesToGeneratePredictions := [equiRule "tokens" ["tokens"], equiRule "name" []]

theorem rulesApart_blocksExactly_tokens :
    RulesApart apartSettings ∧ BlocksExactly id apartSettings tokenConcat := by
  have hapart : RulesApart apartSettings := by
    constructor
    · decide
    · decide
    · intro i j rule later hij hrule hlater hscalar
      -- only the last of the two rules is scalar
      have hj : j < 2 := (List.getElem?_eq_some_iff.mp hlater).1
      obtain rfl : i = 0 := by omega
      cases hrule
      cases hscalar
  exact ⟨hapart, hapart.blocksExactly id tokenConcat⟩

end EntityResolution.Blocking
