/-
# Incremental candidates

A new batch is scored against the established records by one generator and within itself
by another. The second is ordinary blocking. The first joins the two tables on each rule
as it stands: it explodes no array, filters no source, and keeps every arm's row. So the
two together give the candidates of a full pass with an endpoint in the batch exactly when,
on every pair across, reading the rules that way finds what blocking finds, and once.
-/

import EntityResolution.Blocking.FirstRule
import Mathlib.Data.Sym.Sym2

namespace EntityResolution.Blocking

open EntityResolution.Collections EntityResolution.Relations

variable {Id : Type}

section Cross

/-- One arm of the cross-table blocked pairs. -/
def blockedIdPairsCrossArm (preceding : List (BlockingRule Id)) (rule : BlockingRule Id)
    (left right : List (Record Id)) : List (BlockedPair Id) :=
  (innerJoin left right fun l r => rule.holds l r && excludePreceding preceding l r).map
    fun row => ⟨toString rule.index, row.1.uid, row.2.uid⟩

/-- Inner join of left and right on each rule, with `where 1=1`. -/
def blockedIdPairsCross (rules : List (BlockingRule Id)) (left right : List (Record Id)) :
    List (BlockedPair Id) :=
  let rules := rulesOrCartesian rules
  rules.zipIdx.flatMap fun entry =>
    blockedIdPairsCrossArm (rules.take entry.2) entry.1 left right

variable [LinearOrder Id] {Score : Type} [LE Score] [DecidableLE Score] (hash : Id → ℕ)

/-- Score the candidates between the existing records and a new batch. -/
def predictBetween (score : Record Id → Record Id → Score) (settings : Settings Id)
    (threshold : Option Score) (existing new : List (Record Id)) :
    List (Prediction Id Score) :=
  predictTables score threshold existing new
    (blockedIdPairsCross settings.blockingRules existing new)

/-- Score the candidates within a batch. -/
def predictWithin (score : Record Id → Record Id → Score) (settings : Settings Id)
    (threshold : Option Score) (batch : List (Record Id)) : List (Prediction Id Score) :=
  predictPipeline score threshold batch (materializeBlockedPairs hash settings batch)

end Cross

/-- The records a prediction is about, in either order. -/
def Prediction.pair {Score : Type} (row : Prediction Id Score) : Sym2 Id :=
  s(row.left.uid, row.right.uid)

def BlockedPair.pair (row : BlockedPair Id) : Sym2 Id :=
  s(row.joinKeyL, row.joinKeyR)

/-- Joining the records back gives one row for each blocked pair of records the tables
hold, so without a threshold the predictions are about the blocked pairs. -/
theorem map_pair_predictTables [LinearOrder Id] {Score : Type} [LE Score] [DecidableLE Score]
    (score : Record Id → Record Id → Score) {left right : List (Record Id)}
    (hleft : (left.map Record.uid).Nodup) (hright : (right.map Record.uid).Nodup)
    {blocked : List (BlockedPair Id)}
    (hheld : ∀ b ∈ blocked, b.joinKeyL ∈ left.map Record.uid ∧
      b.joinKeyR ∈ right.map Record.uid) :
    (predictTables score none left right blocked).map Prediction.pair =
      blocked.map BlockedPair.pair := by
  have hone : ∀ {tbl : List (Record Id)}, (tbl.map Record.uid).Nodup → ∀ {id : Id},
      id ∈ tbl.map Record.uid → ∃ row, tbl.filter (fun other => other.uid == id) = [row] ∧
        row.uid = id := by
    intro tbl htbl id hid
    obtain ⟨row, hrow, rfl⟩ := List.mem_map.mp hid
    refine ⟨row, ?_, rfl⟩
    have hsingle := filter_key_eq_singleton htbl hrow
    simpa only [beq_eq_decide] using hsingle
  simp only [predictTables, List.map_flatMap]
  induction blocked with
  | nil => rfl
  | cons b rest ih =>
    obtain ⟨hl, hr⟩ := hheld b List.mem_cons_self
    obtain ⟨l, hlfilter, hluid⟩ := hone hleft hl
    obtain ⟨r, hrfilter, hruid⟩ := hone hright hr
    have hjoin : innerJoin left right
        (fun l r => l.uid == b.joinKeyL && r.uid == b.joinKeyR) = [(l, r)] := by
      rw [innerJoin_and, hlfilter, hrfilter]
      rfl
    rw [List.flatMap_cons, List.map_cons, ih fun b' hb' => hheld b' (List.mem_cons_of_mem b hb'),
      hjoin]
    simp [Prediction.pair, BlockedPair.pair, hluid, hruid]

/-- A rule that reads its two records alike. -/
def BlockingRuleJson.Symmetric (rule : BlockingRuleJson Id) : Prop :=
  ∀ l r : Record Id, rule.sql l r = rule.sql r l

section Symmetric

variable {rule : BlockingRule Id} {preceding : List (BlockingRule Id)} {l r : Record Id}

theorem holds_comm (hsym : rule.Symmetric) : rule.holds l r = rule.holds r l := by
  rw [BlockingRule.holds, BlockingRule.holds, hsym]

theorem excludePreceding_comm (hsym : ∀ br ∈ preceding, br.Symmetric) :
    excludePreceding preceding l r = excludePreceding preceding r l :=
  excludePreceding_congr fun br hbr => hsym br hbr l r

theorem generates_comm (hsym : rule.Symmetric) (hpreceding : ∀ br ∈ preceding, br.Symmetric)
    (hgen : rule.generates preceding l r = true) : rule.generates preceding r l = true := by
  obtain ⟨l', hl', r', hr', hholds, hexclude⟩ := BlockingRule.generates_eq_true_iff.mp hgen
  apply BlockingRule.generates_eq_true_iff.mpr
  refine ⟨r', hr', l', hl', ?_, ?_⟩
  · rw [holds_comm hsym]
    exact hholds
  · rw [excludePreceding_comm hpreceding]
    exact hexclude

end Symmetric

namespace Settings

variable (settings : Settings Id)

/-- Every declared rule reads its two records alike. -/
def SymmetricRules : Prop :=
  ∀ br ∈ settings.blockingRulesToGeneratePredictions, br.Symmetric

/-- The cross arm at position `i` generates the pair: the rule holds of the two records as
they stand and no scalar rule before it does. -/
def CrossGeneratesAt (i : ℕ) (a b : Record Id) : Prop :=
  ∃ rule, settings.effectiveRules[i]? = some rule ∧ rule.holds a b = true ∧
    excludePreceding (settings.effectiveRules.take i) a b = true

variable {settings}

theorem SymmetricRules.effective (hsym : settings.SymmetricRules) :
    ∀ rule ∈ settings.effectiveRules, rule.Symmetric := by
  intro rule hrule
  by_cases hdeclared : settings.blockingRules = []
  · simp only [effectiveRules, rulesOrCartesian, hdeclared, List.isEmpty_nil, ↓reduceIte,
      List.mem_singleton] at hrule
    subst hrule
    intro l r
    rfl
  · rw [effectiveRules_of_ne_nil hdeclared] at hrule
    obtain ⟨i, hi, rfl⟩ := List.mem_mapIdx.mp hrule
    exact hsym _ (List.getElem_mem hi)

theorem SymmetricRules.generatesAt_comm (hsym : settings.SymmetricRules) {i : ℕ}
    {l r : Record Id} (hgen : settings.GeneratesAt i l r) : settings.GeneratesAt i r l := by
  obtain ⟨rule, hrule, hgen⟩ := hgen
  refine ⟨rule, hrule, generates_comm ?_ ?_ hgen⟩
  · exact hsym.effective rule (List.mem_of_getElem? hrule)
  · intro br hbr
    exact hsym.effective br (List.mem_of_mem_take hbr)

theorem exists_crossGeneratesAt_iff {a b : Record Id} :
    (∃ i, settings.CrossGeneratesAt i a b) ↔
      ∃ rule ∈ settings.effectiveRules, rule.holds a b = true := by
  constructor
  · intro hgen
    obtain ⟨i, rule, hrule, hholds, -⟩ := hgen
    exact ⟨rule, List.mem_of_getElem? hrule, hholds⟩
  · intro hsome
    obtain ⟨rule, hrule, hholds⟩ := hsome
    have hfirst : (settings.effectiveRules.findIdx? fun rule => rule.holds a b).isSome = true := by
      rw [List.findIdx?_isSome, List.any_eq_true]
      exact ⟨rule, hrule, hholds⟩
    obtain ⟨i, hi⟩ := Option.isSome_iff_exists.mp hfirst
    rw [List.findIdx?_eq_some_iff_getElem] at hi
    obtain ⟨hlen, hholds, hbefore⟩ := hi
    refine ⟨i, _, List.getElem?_eq_getElem hlen, hholds, ?_⟩
    rw [excludePreceding_eq_true_iff]
    intro earlier hearlier _
    obtain ⟨j, hj, rfl⟩ := List.mem_take_iff_getElem.mp hearlier
    simpa using hbefore j (by omega)

end Settings

section Pairs

variable {settings : Settings Id}

theorem exists_least_generatesAt {l r : Record Id} (hgen : ∃ i, settings.GeneratesAt i l r) :
    ∃ i, settings.GeneratesAt i l r ∧
      ∀ j, settings.GeneratesAt j l r → toString i ≤ toString j := by
  classical
  have hbound : ∀ i, settings.GeneratesAt i l r → i < settings.effectiveRules.length := by
    intro i hi
    obtain ⟨rule, hrule, -⟩ := hi
    exact (List.getElem?_eq_some_iff.mp hrule).1
  let positions := (Finset.range settings.effectiveRules.length).filter
    fun i => settings.GeneratesAt i l r
  have hpositions : ∀ i, i ∈ positions ↔ settings.GeneratesAt i l r := by
    intro i
    rw [Finset.mem_filter, Finset.mem_range]
    exact ⟨fun hi => hi.2, fun hi => ⟨hbound i hi, hi⟩⟩
  obtain ⟨i₀, hi₀⟩ := hgen
  obtain ⟨i, hi, hleast⟩ := Finset.exists_min_image positions (fun i => toString i)
    ⟨i₀, (hpositions i₀).mpr hi₀⟩
  exact ⟨i, (hpositions i).mp hi, fun j hj => hleast j ((hpositions j).mpr hj)⟩

theorem mem_map_pair_crossArm {left right : List (Record Id)} {i : ℕ} {rule : BlockingRule Id}
    (hrule : settings.effectiveRules[i]? = some rule) {pair : Sym2 Id} :
    pair ∈ (blockedIdPairsCrossArm (settings.effectiveRules.take i) rule left right).map
        BlockedPair.pair ↔
      ∃ a ∈ left, ∃ b ∈ right, settings.CrossGeneratesAt i a b ∧ pair = s(a.uid, b.uid) := by
  simp only [blockedIdPairsCrossArm, List.mem_map, mem_innerJoin, Prod.exists,
    Bool.and_eq_true]
  constructor
  · intro hpair
    obtain ⟨row, ⟨a, b, ⟨ha, hb, hholds, hexclude⟩, rfl⟩, rfl⟩ := hpair
    exact ⟨a, ha, b, hb, ⟨rule, hrule, hholds, hexclude⟩, rfl⟩
  · intro hpair
    obtain ⟨a, ha, b, hb, ⟨rule', hrule', hholds, hexclude⟩, rfl⟩ := hpair
    have hsame : rule' = rule := Option.some_inj.mp (hrule'.symm.trans hrule)
    subst hsame
    exact ⟨_, ⟨a, b, ⟨ha, hb, hholds, hexclude⟩, rfl⟩, rfl⟩

theorem mem_map_pair_cross {left right : List (Record Id)} {pair : Sym2 Id} :
    pair ∈ (blockedIdPairsCross settings.blockingRules left right).map BlockedPair.pair ↔
      ∃ a ∈ left, ∃ b ∈ right, (∃ i, settings.CrossGeneratesAt i a b) ∧
        pair = s(a.uid, b.uid) := by
  simp only [blockedIdPairsCross, List.map_flatMap, List.mem_flatMap, Prod.exists,
    List.mem_zipIdx_iff_getElem?]
  constructor
  · intro hpair
    obtain ⟨rule, i, hrule, hpair⟩ := hpair
    obtain ⟨a, ha, b, hb, hgen, rfl⟩ := (mem_map_pair_crossArm hrule).mp hpair
    exact ⟨a, ha, b, hb, ⟨i, hgen⟩, rfl⟩
  · intro hpair
    obtain ⟨a, ha, b, hb, ⟨i, rule, hrule, hholds⟩, rfl⟩ := hpair
    exact ⟨rule, i, hrule, (mem_map_pair_crossArm hrule).mpr
      ⟨a, ha, b, hb, ⟨rule, hrule, hholds⟩, rfl⟩⟩

variable [LinearOrder Id]

theorem mem_map_pair_blocked (hash : Id → ℕ) (concat : Concat Id) {pair : Sym2 Id} :
    pair ∈ (materializeBlockedPairs hash settings concat.records).map BlockedPair.pair ↔
      ∃ l ∈ concat.records, ∃ r ∈ concat.records, whereCondition settings.linkType l r = true ∧
        (∃ i, settings.GeneratesAt i l r) ∧ pair = s(l.uid, r.uid) := by
  simp only [List.mem_map, mem_materializeBlockedPairs hash concat]
  constructor
  · intro hpair
    obtain ⟨row, ⟨l, hl, r, hr, i, hwhere, hgen, -, rfl⟩, rfl⟩ := hpair
    exact ⟨l, hl, r, hr, hwhere, ⟨i, hgen⟩, rfl⟩
  · intro hpair
    obtain ⟨l, hl, r, hr, hwhere, hgen, rfl⟩ := hpair
    obtain ⟨i, hi, hleast⟩ := exists_least_generatesAt hgen
    exact ⟨_, ⟨l, hl, r, hr, i, hwhere, hi, hleast, rfl⟩, rfl⟩

/-- The where clause orders the ids of a pair. -/
theorem uid_lt_of_whereCondition {linkType : LinkType} {l r : Record Id}
    (hwhere : whereCondition linkType l r = true) : l.uid < r.uid := by
  cases linkType with
  | dedupeOnly => simpa [whereCondition] using hwhere
  | linkAndDedupe => simpa [whereCondition] using hwhere
  | linkOnly =>
    rw [whereCondition, Bool.and_eq_true] at hwhere
    simpa using hwhere.1

theorem nodup_map_pair_blocked (hash : Id → ℕ) (concat : Concat Id) :
    ((materializeBlockedPairs hash settings concat.records).map BlockedPair.pair).Nodup := by
  have hkeys : ((materializeBlockedPairs hash settings concat.records).map
      BlockedPair.keys).Nodup := nodup_keys_materializeBlockedPairs hash concat
  rw [List.Nodup, List.pairwise_map] at hkeys ⊢
  apply hkeys.imp_of_mem
  intro row row' hrow hrow' hne hsame
  obtain ⟨l, -, r, -, i, hwhere, -, -, rfl⟩ := (mem_materializeBlockedPairs hash concat).mp hrow
  obtain ⟨l', -, r', -, i', hwhere', -, -, rfl⟩ :=
    (mem_materializeBlockedPairs hash concat).mp hrow'
  have hlt := uid_lt_of_whereCondition hwhere
  have hlt' := uid_lt_of_whereCondition hwhere'
  cases Sym2.eq_iff.mp hsame with
  | inl hstraight => exact hne (Prod.mk.injEq .. ▸ hstraight)
  | inr hcrossed =>
    have hl : l.uid = r'.uid := hcrossed.1
    have hr : r.uid = l'.uid := hcrossed.2
    rw [← hl, ← hr] at hlt'
    exact absurd hlt (lt_asymm hlt')

end Pairs

/-! ## A batch -/

/-- Established records and a new batch, with distinct ids. -/
structure Batch (Id : Type) where
  kept : List (Record Id)
  delta : List (Record Id)
  distinct : ((kept ++ delta).map Record.uid).Nodup

namespace Batch

variable (batch : Batch Id)

/-- The records of a full pass. -/
def whole : Concat Id :=
  ⟨batch.kept ++ batch.delta, batch.distinct⟩

theorem nodup_kept : (batch.kept.map Record.uid).Nodup := by
  have hdistinct := batch.distinct
  rw [List.map_append] at hdistinct
  exact (List.nodup_append.mp hdistinct).1

theorem nodup_delta : (batch.delta.map Record.uid).Nodup := by
  have hdistinct := batch.distinct
  rw [List.map_append] at hdistinct
  exact (List.nodup_append.mp hdistinct).2.1

/-- The records of the pass within the batch. -/
def new : Concat Id :=
  ⟨batch.delta, batch.nodup_delta⟩

variable {batch} {a b : Record Id}

theorem uid_ne (ha : a ∈ batch.kept) (hb : b ∈ batch.delta) : a.uid ≠ b.uid := by
  have hdistinct := batch.distinct
  rw [List.map_append] at hdistinct
  exact (List.nodup_append.mp hdistinct).2.2 _ (List.mem_map_of_mem ha) _ (List.mem_map_of_mem hb)

theorem eq_of_uid_delta (ha : a ∈ batch.delta) (hb : b ∈ batch.delta)
    (huid : a.uid = b.uid) : a = b :=
  batch.new.eq_of_uid ha hb huid

theorem eq_of_uid_kept (ha : a ∈ batch.kept) (hb : b ∈ batch.kept) (huid : a.uid = b.uid) :
    a = b :=
  List.inj_on_of_nodup_map batch.nodup_kept ha hb huid

theorem eq_of_pair {a' b' : Record Id} (ha : a ∈ batch.kept) (hb : b ∈ batch.delta)
    (ha' : a' ∈ batch.kept) (hb' : b' ∈ batch.delta)
    (hpair : s(a.uid, b.uid) = s(a'.uid, b'.uid)) : a = a' ∧ b = b' := by
  cases Sym2.eq_iff.mp hpair with
  | inl hstraight =>
    exact ⟨eq_of_uid_kept ha ha' hstraight.1, eq_of_uid_delta hb hb' hstraight.2⟩
  | inr hcrossed => exact absurd hcrossed.1 (uid_ne ha hb')

/-- A pair within the batch is not a pair across. -/
theorem pair_ne_within {l r : Record Id} (ha : a ∈ batch.kept)
    (hl : l ∈ batch.delta) (hr : r ∈ batch.delta) : s(a.uid, b.uid) ≠ s(l.uid, r.uid) := by
  intro hpair
  cases Sym2.eq_iff.mp hpair with
  | inl hstraight => exact uid_ne ha hl hstraight.1
  | inr hcrossed => exact uid_ne ha hr hcrossed.1

end Batch

theorem nodup_map_pair_cross_iff {settings : Settings Id} {batch : Batch Id} :
    ((blockedIdPairsCross settings.blockingRules batch.kept batch.delta).map
        BlockedPair.pair).Nodup ↔
      ∀ a ∈ batch.kept, ∀ b ∈ batch.delta, ∀ i j, settings.CrossGeneratesAt i a b →
        settings.CrossGeneratesAt j a b → i = j := by
  have harm : ∀ (preceding : List (BlockingRule Id)) (rule : BlockingRule Id),
      ((blockedIdPairsCrossArm preceding rule batch.kept batch.delta).map
        BlockedPair.pair).Nodup := by
    intro preceding rule
    rw [blockedIdPairsCrossArm, List.map_map, List.Nodup, List.pairwise_map]
    have hkeys : ((innerJoin batch.kept batch.delta fun l r =>
        rule.holds l r && excludePreceding preceding l r).map
          (Prod.map Record.uid Record.uid)).Nodup :=
      nodup_map_innerJoin batch.nodup_kept batch.nodup_delta
    rw [List.Nodup, List.pairwise_map] at hkeys
    apply hkeys.imp_of_mem
    intro row row' hrow hrow' hne hsame
    rw [mem_innerJoin] at hrow hrow'
    obtain ⟨ha, hb⟩ := Batch.eq_of_pair hrow.1 hrow.2.1 hrow'.1 hrow'.2.1 hsame
    exact hne (by rw [Prod.map, Prod.map, ha, hb])
  have hblocks : (blockedIdPairsCross settings.blockingRules batch.kept batch.delta).map
      BlockedPair.pair = settings.effectiveRules.zipIdx.flatMap fun entry =>
        (blockedIdPairsCrossArm (settings.effectiveRules.take entry.2) entry.1 batch.kept
          batch.delta).map BlockedPair.pair := by
    simp only [blockedIdPairsCross, List.map_flatMap]
    rfl
  rw [hblocks, List.nodup_flatMap, List.pairwise_iff_getElem]
  constructor
  · intro hapart a ha b hb
    have hnever : ∀ i j, settings.CrossGeneratesAt i a b → settings.CrossGeneratesAt j a b →
        ¬ i < j := by
      intro i j hi hj hlt
      obtain ⟨rule, hrule, hholds⟩ := hi
      obtain ⟨later, hlater, hholdsLater⟩ := hj
      obtain ⟨hilen, hirule⟩ := List.getElem?_eq_some_iff.mp hrule
      obtain ⟨hjlen, hjrule⟩ := List.getElem?_eq_some_iff.mp hlater
      have hdisjoint := hapart.2 i j (by simpa using hilen) (by simpa using hjlen) hlt
      simp only [Function.onFun, List.getElem_zipIdx, Nat.zero_add] at hdisjoint
      rw [hirule, hjrule] at hdisjoint
      exact hdisjoint ((mem_map_pair_crossArm hrule).mpr ⟨a, ha, b, hb, ⟨rule, hrule, hholds⟩, rfl⟩)
        ((mem_map_pair_crossArm hlater).mpr ⟨a, ha, b, hb, ⟨later, hlater, hholdsLater⟩, rfl⟩)
    intro i j hi hj
    have hij := hnever i j hi hj
    have hji := hnever j i hj hi
    omega
  · intro honce
    constructor
    · intro entry _
      exact harm _ _
    · intro i j hi hj hlt pair hpair hpair'
      simp only [List.getElem_zipIdx, Nat.zero_add] at hpair hpair'
      obtain ⟨a, ha, b, hb, hgen, rfl⟩ :=
        (mem_map_pair_crossArm (List.getElem?_eq_getElem _)).mp hpair
      obtain ⟨a', ha', b', hb', hgen', hsame⟩ :=
        (mem_map_pair_crossArm (List.getElem?_eq_getElem _)).mp hpair'
      obtain ⟨rfl, rfl⟩ := Batch.eq_of_pair ha hb ha' hb' hsame
      exact absurd (honce a ha b hb i j hgen hgen') (by omega)

/-- What the rules must do on a pair across, each read on the two records as they stand.
Under `link_only` none holds of two records of one source. Otherwise some rule holds if and
only if blocking generates the pair. And no two rules that hold are without a scalar rule
before them that holds. -/
structure CrossAgrees (settings : Settings Id) (a b : Record Id) : Prop where
  sources : settings.linkType = .linkOnly → a.source = b.source →
    ∀ rule ∈ settings.effectiveRules, rule.holds a b = false
  found : (settings.linkType = .linkOnly → a.source ≠ b.source) →
    ((∃ rule ∈ settings.effectiveRules, rule.holds a b = true) ↔
      ∃ i, settings.GeneratesAt i a b)
  once : ∀ i j, settings.CrossGeneratesAt i a b → settings.CrossGeneratesAt j a b → i = j

/-- Scalar rules agree across the tables, unless the link type filters sources. -/
theorem crossAgrees_of_scalar {settings : Settings Id}
    (hscalar : ∀ rule ∈ settings.effectiveRules, rule.isExploding = false)
    (hlink : settings.linkType ≠ .linkOnly) (a b : Record Id) : CrossAgrees settings a b := by
  have hsame : ∀ i, settings.CrossGeneratesAt i a b ↔ settings.GeneratesAt i a b := by
    intro i
    apply exists_congr
    intro rule
    apply and_congr_right
    intro hrule
    rw [BlockingRule.generates_of_scalar (hscalar rule (List.mem_of_getElem? hrule)),
      Bool.and_eq_true]
  constructor
  · intro honly
    exact absurd honly hlink
  · intro _
    rw [← Settings.exists_crossGeneratesAt_iff]
    exact exists_congr hsame
  · intro i j hi hj
    exact ((hsame i).mp hi).unique hscalar ((hsame j).mp hj)

section Matching

variable [LinearOrder Id] (hash : Id → ℕ) {Score : Type} [LE Score] [DecidableLE Score]
  (score : Record Id → Record Id → Score) (settings : Settings Id) (batch : Batch Id)

/-- The pairs of an incremental pass. -/
def incrementalPairs : List (Sym2 Id) :=
  (predictBetween score settings none batch.kept batch.delta).map Prediction.pair ++
    (predictWithin hash score settings none batch.delta).map Prediction.pair

/-- The incremental pairs are the pairs of a full pass with an endpoint in the batch, each
once. -/
structure IncrementalMatchesFull : Prop where
  once : (incrementalPairs hash score settings batch).Nodup
  same : ∀ pair, pair ∈ incrementalPairs hash score settings batch ↔
    pair ∈ (materializeBlockedPairs hash settings batch.whole.records).map BlockedPair.pair ∧
      ∃ row ∈ batch.delta, row.uid ∈ pair

variable {hash score settings batch}

theorem incrementalPairs_eq :
    incrementalPairs hash score settings batch =
      (blockedIdPairsCross settings.blockingRules batch.kept batch.delta).map BlockedPair.pair ++
        (materializeBlockedPairs hash settings batch.delta).map BlockedPair.pair := by
  rw [incrementalPairs, predictBetween, predictWithin, predictPipeline,
    map_pair_predictTables score batch.nodup_kept batch.nodup_delta,
    map_pair_predictTables score batch.nodup_delta batch.nodup_delta]
  · intro row hrow
    obtain ⟨l, hl, r, hr, -, -, -, -, rfl⟩ :=
      (mem_materializeBlockedPairs hash batch.new).mp hrow
    exact ⟨List.mem_map_of_mem hl, List.mem_map_of_mem hr⟩
  · intro row hrow
    simp only [blockedIdPairsCross, blockedIdPairsCrossArm, List.mem_flatMap, List.mem_map,
      mem_innerJoin] at hrow
    obtain ⟨entry, -, ⟨a, b⟩, ⟨ha, hb, -⟩, rfl⟩ := hrow
    exact ⟨List.mem_map_of_mem ha, List.mem_map_of_mem hb⟩

theorem whereCondition_iff {linkType : LinkType} {l r : Record Id} :
    whereCondition linkType l r = true ↔
      l.uid < r.uid ∧ (linkType = .linkOnly → l.source ≠ r.source) := by
  cases linkType <;> simp [whereCondition]

theorem mem_incrementalPairs {pair : Sym2 Id} :
    pair ∈ incrementalPairs hash score settings batch ↔
      (∃ a ∈ batch.kept, ∃ b ∈ batch.delta,
        (∃ rule ∈ settings.effectiveRules, rule.holds a b = true) ∧ pair = s(a.uid, b.uid)) ∨
      ∃ l ∈ batch.delta, ∃ r ∈ batch.delta, whereCondition settings.linkType l r = true ∧
        (∃ i, settings.GeneratesAt i l r) ∧ pair = s(l.uid, r.uid) := by
  rw [incrementalPairs_eq, List.mem_append, mem_map_pair_cross]
  simp only [Settings.exists_crossGeneratesAt_iff]
  exact or_congr_right (mem_map_pair_blocked hash batch.new)

theorem mem_fullPairs (hsym : settings.SymmetricRules) {pair : Sym2 Id} :
    (pair ∈ (materializeBlockedPairs hash settings batch.whole.records).map BlockedPair.pair ∧
        ∃ row ∈ batch.delta, row.uid ∈ pair) ↔
      (∃ a ∈ batch.kept, ∃ b ∈ batch.delta,
        (settings.linkType = .linkOnly → a.source ≠ b.source) ∧
          (∃ i, settings.GeneratesAt i a b) ∧ pair = s(a.uid, b.uid)) ∨
      ∃ l ∈ batch.delta, ∃ r ∈ batch.delta, whereCondition settings.linkType l r = true ∧
        (∃ i, settings.GeneratesAt i l r) ∧ pair = s(l.uid, r.uid) := by
  have hrecords : ∀ {row : Record Id}, row ∈ batch.whole.records ↔
      row ∈ batch.kept ∨ row ∈ batch.delta := List.mem_append
  rw [mem_map_pair_blocked]
  constructor
  · intro hpair
    obtain ⟨⟨l, hl, r, hr, hwhere, ⟨i, hgen⟩, rfl⟩, row, hrow, hend⟩ := hpair
    have heligible := (whereCondition_iff.mp hwhere).2
    cases hrecords.mp hl with
    | inl hlkept =>
      cases hrecords.mp hr with
      | inl hrkept =>
        cases Sym2.mem_iff.mp hend with
        | inl hsame => exact absurd hsame.symm (Batch.uid_ne hlkept hrow)
        | inr hsame => exact absurd hsame.symm (Batch.uid_ne hrkept hrow)
      | inr hrdelta => exact Or.inl ⟨l, hlkept, r, hrdelta, heligible, ⟨i, hgen⟩, rfl⟩
    | inr hldelta =>
      cases hrecords.mp hr with
      | inl hrkept =>
        exact Or.inl ⟨r, hrkept, l, hldelta, fun hlink => (heligible hlink).symm,
          ⟨i, hsym.generatesAt_comm hgen⟩, Sym2.eq_swap⟩
      | inr hrdelta => exact Or.inr ⟨l, hldelta, r, hrdelta, hwhere, ⟨i, hgen⟩, rfl⟩
  · intro hpair
    cases hpair with
    | inl hacross =>
      obtain ⟨a, ha, b, hb, heligible, ⟨i, hgen⟩, rfl⟩ := hacross
      constructor
      · cases lt_or_gt_of_ne (Batch.uid_ne ha hb) with
        | inl hlt =>
          exact ⟨a, hrecords.mpr (Or.inl ha), b, hrecords.mpr (Or.inr hb),
            whereCondition_iff.mpr ⟨hlt, heligible⟩, ⟨i, hgen⟩, rfl⟩
        | inr hgt =>
          exact ⟨b, hrecords.mpr (Or.inr hb), a, hrecords.mpr (Or.inl ha),
            whereCondition_iff.mpr ⟨hgt, fun hlink => (heligible hlink).symm⟩,
            ⟨i, hsym.generatesAt_comm hgen⟩, Sym2.eq_swap⟩
      · exact ⟨b, hb, Sym2.mem_mk_right _ _⟩
    | inr hwithin =>
      obtain ⟨l, hl, r, hr, hwhere, hgen, rfl⟩ := hwithin
      exact ⟨⟨l, hrecords.mpr (Or.inr hl), r, hrecords.mpr (Or.inr hr), hwhere, hgen, rfl⟩,
        l, hl, Sym2.mem_mk_left _ _⟩

theorem same_iff (hsym : settings.SymmetricRules) :
    (∀ pair, pair ∈ incrementalPairs hash score settings batch ↔
      pair ∈ (materializeBlockedPairs hash settings batch.whole.records).map BlockedPair.pair ∧
        ∃ row ∈ batch.delta, row.uid ∈ pair) ↔
      ∀ a ∈ batch.kept, ∀ b ∈ batch.delta,
        ((∃ rule ∈ settings.effectiveRules, rule.holds a b = true) ↔
          (settings.linkType = .linkOnly → a.source ≠ b.source) ∧
            ∃ i, settings.GeneratesAt i a b) := by
  simp only [mem_incrementalPairs, mem_fullPairs hsym]
  constructor
  · intro hsame a ha b hb
    constructor
    · intro hholds
      cases (hsame s(a.uid, b.uid)).mp (Or.inl ⟨a, ha, b, hb, hholds, rfl⟩) with
      | inl hacross =>
        obtain ⟨a', ha', b', hb', heligible, hgen, hpair⟩ := hacross
        obtain ⟨rfl, rfl⟩ := Batch.eq_of_pair ha hb ha' hb' hpair
        exact ⟨heligible, hgen⟩
      | inr hwithin =>
        obtain ⟨l, hl, r, hr, -, -, hpair⟩ := hwithin
        exact absurd hpair (Batch.pair_ne_within ha hl hr)
    · intro hfull
      cases (hsame s(a.uid, b.uid)).mpr (Or.inl ⟨a, ha, b, hb, hfull.1, hfull.2, rfl⟩) with
      | inl hacross =>
        obtain ⟨a', ha', b', hb', hholds, hpair⟩ := hacross
        obtain ⟨rfl, rfl⟩ := Batch.eq_of_pair ha hb ha' hb' hpair
        exact hholds
      | inr hwithin =>
        obtain ⟨l, hl, r, hr, -, -, hpair⟩ := hwithin
        exact absurd hpair (Batch.pair_ne_within ha hl hr)
  · intro hagree pair
    apply or_congr_left
    constructor
    · intro hacross
      obtain ⟨a, ha, b, hb, hholds, hpair⟩ := hacross
      obtain ⟨heligible, hgen⟩ := (hagree a ha b hb).mp hholds
      exact ⟨a, ha, b, hb, heligible, hgen, hpair⟩
    · intro hacross
      obtain ⟨a, ha, b, hb, heligible, hgen, hpair⟩ := hacross
      exact ⟨a, ha, b, hb, (hagree a ha b hb).mpr ⟨heligible, hgen⟩, hpair⟩

theorem once_iff :
    (incrementalPairs hash score settings batch).Nodup ↔
      ∀ a ∈ batch.kept, ∀ b ∈ batch.delta, ∀ i j, settings.CrossGeneratesAt i a b →
        settings.CrossGeneratesAt j a b → i = j := by
  have hwithin : ((materializeBlockedPairs hash settings batch.delta).map
      BlockedPair.pair).Nodup := nodup_map_pair_blocked hash batch.new
  rw [incrementalPairs_eq, List.nodup_append, nodup_map_pair_cross_iff]
  constructor
  · intro hnodup
    exact hnodup.1
  · intro honce
    refine ⟨honce, hwithin, ?_⟩
    intro pair hpair pair' hpair' hsame
    obtain ⟨a, ha, b, -, -, rfl⟩ := mem_map_pair_cross.mp hpair
    obtain ⟨l, hl, r, hr, -, -, rfl⟩ := (mem_map_pair_blocked hash batch.new).mp hpair'
    exact Batch.pair_ne_within ha hl hr hsame

/-- An incremental pass finds the candidates of a full pass if and only if the cross
generator agrees with blocking on every pair across. -/
theorem incrementalMatchesFull_iff (hsym : settings.SymmetricRules) :
    IncrementalMatchesFull hash score settings batch ↔
      ∀ a ∈ batch.kept, ∀ b ∈ batch.delta, CrossAgrees settings a b := by
  constructor
  · intro hmatches a ha b hb
    have hsame := (same_iff hsym).mp hmatches.same a ha b hb
    constructor
    · intro hlink hsource rule hrule
      by_contra hholds
      have hfull := hsame.mp ⟨rule, hrule, by simpa using hholds⟩
      exact hfull.1 hlink hsource
    · intro heligible
      rw [hsame]
      exact ⟨fun hfull => hfull.2, fun hgen => ⟨heligible, hgen⟩⟩
    · exact once_iff.mp hmatches.once a ha b hb
  · intro hagrees
    constructor
    · exact once_iff.mpr fun a ha b hb => (hagrees a ha b hb).once
    · apply (same_iff hsym).mpr
      intro a ha b hb
      have hpair := hagrees a ha b hb
      constructor
      · intro hholds
        have heligible : settings.linkType = .linkOnly → a.source ≠ b.source := by
          intro hlink hsource
          obtain ⟨rule, hrule, hrholds⟩ := hholds
          rw [hpair.sources hlink hsource rule hrule] at hrholds
          cases hrholds
        exact ⟨heligible, (hpair.found heligible).mp hholds⟩
      · intro hfull
        exact (hpair.found hfull.1).mpr hfull.2

end Matching

/-- Block on a shared token. -/
def sharedToken : Settings ℕ where
  linkType := .dedupeOnly
  blockingRulesToGeneratePredictions := [equiRule "tokens" ["tokens"]]

def tokenBatch : Batch ℕ where
  kept := [tokenRecord 1 "b"]
  delta := [tokenRecord 2 "c"]
  distinct := by decide

mutual

theorem Value.same_comm : ∀ value other : Value, value.same other = other.same value
  | .null, .null => rfl
  | .null, .text _ => rfl
  | .null, .list _ => rfl
  | .text _, .null => rfl
  | .text value, .text other => by rw [Value.same, Value.same, Bool.beq_comm]
  | .text _, .list _ => rfl
  | .list _, .null => rfl
  | .list _, .text _ => rfl
  | .list elements, .list others => by
    rw [Value.same, Value.same, Value.sameAll_comm elements others]

theorem Value.sameAll_comm :
    ∀ elements others : List Value, Value.sameAll elements others = Value.sameAll others elements
  | [], [] => rfl
  | [], _ :: _ => rfl
  | _ :: _, [] => rfl
  | value :: rest, other :: others => by
    rw [Value.sameAll, Value.sameAll, Value.same_comm value other,
      Value.sameAll_comm rest others]

end

theorem equiRule_symmetric (column : Column) (arraysToExplode : List Column) :
    (equiRule column arraysToExplode : BlockingRuleJson Id).Symmetric := by
  intro l r
  change (l.cols column).sqlEq (r.cols column) = (r.cols column).sqlEq (l.cols column)
  cases l.cols column <;> cases r.cols column <;>
    simp only [Value.sqlEq, Value.same_comm]

theorem sharedToken_symmetric : sharedToken.SymmetricRules := by
  intro br hbr
  rw [sharedToken, List.mem_singleton] at hbr
  subst hbr
  exact equiRule_symmetric _ _

/-- Blocking admits the pair through the shared token, and across the tables the two lists
are compared whole. -/
theorem sharedToken_lost :
    sharedToken.SymmetricRules ∧
      ¬ IncrementalMatchesFull id (fun _ _ => (0 : ℕ)) sharedToken tokenBatch := by
  constructor
  · exact sharedToken_symmetric
  · intro hmatches
    have hnone : incrementalPairs id (fun _ _ => (0 : ℕ)) sharedToken tokenBatch = [] := by
      rw [incrementalPairs_eq]
      decide +kernel
    have hfull : s(1, 2) ∈ (materializeBlockedPairs id sharedToken
        tokenBatch.whole.records).map BlockedPair.pair := by
      decide +kernel
    have hfound := (hmatches.same s(1, 2)).mpr ⟨hfull, tokenRecord 2 "c", by simp [tokenBatch],
      Sym2.mem_mk_right 1 2⟩
    rw [hnone] at hfound
    cases hfound

/-- Block on equal token lists. -/
def equalTokens : Settings ℕ where
  linkType := .dedupeOnly
  blockingRulesToGeneratePredictions := [equiRule "tokens" []]

/-- A scalar rule finds across the tables what it finds within one. -/
theorem incrementalMatchesFull_iff_equalTokens :
    equalTokens.SymmetricRules ∧
      IncrementalMatchesFull id (fun _ _ => (0 : ℕ)) equalTokens tokenBatch := by
  have hsym : equalTokens.SymmetricRules := by
    intro br hbr
    rw [equalTokens, List.mem_singleton] at hbr
    subst hbr
    exact equiRule_symmetric _ _
  constructor
  · exact hsym
  · apply (incrementalMatchesFull_iff hsym).mpr
    intro a _ b _
    apply crossAgrees_of_scalar
    · exact Settings.scalar_effectiveRules (by decide)
    · decide

end EntityResolution.Blocking
