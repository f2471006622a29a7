/-
# What blocking generates

An arm generates a pair when its rule holds for some choice of the exploded elements on
which no scalar rule before it holds. A scalar rule before an exploding one is read on the
exploded rows there, not on the records, and this is where blocking departs from "every
pair some rule admits": an earlier rule over a column that a later rule explodes compares
elements, and can mask pairs it does not generate itself. The second departure is in the
match key, which is least as a string, so that rule 10 comes before rule 2.
-/

import EntityResolution.Blocking.Chunks

namespace EntityResolution.Blocking

open EntityResolution.Relations

variable {Id : Type}

namespace Record

/-- A choice changes the exploded columns and nothing else. -/
theorem unnest_carries {column : Column} {row choice : Record Id}
    (hchoice : choice ∈ row.unnest column) :
    choice.uid = row.uid ∧ choice.source = row.source ∧
      ∀ c, c ≠ column → choice.cols c = row.cols c := by
  obtain ⟨element, -, rfl⟩ := List.mem_map.mp hchoice
  exact ⟨rfl, rfl, fun c hc => if_neg hc⟩

theorem foldl_unnest_carries (columns : List Column) {rows : List (Record Id)}
    {choice : Record Id}
    (hchoice : choice ∈ columns.foldl (fun rows c => rows.flatMap (unnest c)) rows) :
    ∃ row ∈ rows, choice.uid = row.uid ∧ choice.source = row.source ∧
      ∀ c ∉ columns, choice.cols c = row.cols c := by
  induction columns generalizing rows with
  | nil => exact ⟨choice, hchoice, rfl, rfl, fun _ _ => rfl⟩
  | cons column rest ih =>
    obtain ⟨mid, hmid, huid, hsource, hcols⟩ := ih hchoice
    obtain ⟨row, hrow, hunnest⟩ := List.mem_flatMap.mp hmid
    have hcarried := unnest_carries hunnest
    refine ⟨row, hrow, huid.trans hcarried.1, hsource.trans hcarried.2.1, ?_⟩
    intro c hc
    rw [List.mem_cons, not_or] at hc
    exact (hcols c hc.2).trans (hcarried.2.2 c hc.1)

theorem choices_carries {columns : List Column} {row choice : Record Id}
    (hchoice : choice ∈ row.choices columns) :
    choice.uid = row.uid ∧ choice.source = row.source ∧
      ∀ c ∉ columns, choice.cols c = row.cols c := by
  obtain ⟨base, hbase, hcarried⟩ := foldl_unnest_carries columns hchoice
  rw [List.mem_singleton] at hbase
  rwa [hbase] at hcarried

@[simp] theorem choices_nil (row : Record Id) : row.choices [] = [row] :=
  rfl

/-- Dropping columns that are not exploded commutes with the explosion. -/
theorem unnest_project {column : Column} {kept : List Column} (hkept : column ∈ kept)
    (row : Record Id) :
    (row.project kept).unnest column = (row.unnest column).map (project kept) := by
  have helements : (row.project kept).cols column = row.cols column := if_pos hkept
  rw [unnest, unnest, List.map_map, helements]
  apply List.map_congr_left
  intro element _
  simp only [project, Function.comp_apply, Record.mk.injEq, true_and]
  funext c
  by_cases hc : c = column
  · rw [if_pos hc, if_pos hc, hc, if_pos hkept]
  · rw [if_neg hc, if_neg hc]

theorem foldl_unnest_project {columns kept : List Column} (hkept : columns ⊆ kept)
    (rows : List (Record Id)) :
    columns.foldl (fun rows c => rows.flatMap (unnest c)) (rows.map (project kept)) =
      (columns.foldl (fun rows c => rows.flatMap (unnest c)) rows).map (project kept) := by
  induction columns generalizing rows with
  | nil => rfl
  | cons column rest ih =>
    have hcolumn : column ∈ kept := hkept List.mem_cons_self
    have hrest : rest ⊆ kept := fun c hc => hkept (List.mem_cons_of_mem column hc)
    have hhead : (rows.map (project kept)).flatMap (unnest column) =
        (rows.flatMap (unnest column)).map (project kept) := by
      rw [List.flatMap_map, List.map_flatMap]
      apply List.flatMap_congr
      intro row _
      exact unnest_project hcolumn row
    rw [List.foldl_cons, List.foldl_cons, hhead, ih hrest]

theorem foldl_unnest_flatMap (columns : List Column) (rows : List (Record Id)) :
    columns.foldl (fun rows c => rows.flatMap (unnest c)) rows =
      rows.flatMap (choices columns) := by
  induction columns generalizing rows with
  | nil => exact (List.flatMap_singleton' rows).symm
  | cons column rest ih =>
    have hchoices : ∀ row : Record Id,
        row.choices (column :: rest) = (row.unnest column).flatMap (choices rest) := by
      intro row
      rw [choices, List.foldl_cons, ih, List.flatMap_singleton]
    rw [List.foldl_cons, ih, List.flatMap_assoc]
    apply List.flatMap_congr
    intro row _
    exact (hchoices row).symm

theorem project_agreesOn {columns kept : List Column} (hkept : columns ⊆ kept)
    (row : Record Id) : (row.project kept).AgreesOn columns row :=
  ⟨rfl, rfl, fun _ hc => if_pos (hkept hc)⟩

end Record

theorem explodeArrays_eq (tbl : List (Record Id)) (columns retain : List Column) :
    explodeArrays tbl columns retain =
      (tbl.flatMap (Record.choices columns)).map (Record.project (retain ++ columns)) := by
  have hkept : columns ⊆ retain ++ columns := List.subset_append_right retain columns
  rw [explodeArrays, Record.foldl_unnest_project hkept, Record.foldl_unnest_flatMap]

/-- The columns carried are all that the rule and the rules before it read. -/
theorem referencedColumns_subset_retained {preceding : List (BlockingRule Id)}
    {rule br : BlockingRule Id} (hbr : br ∈ preceding ++ [rule]) :
    br.referencedColumns ⊆ blockingRetainColumns preceding rule ++ rule.arraysToExplode := by
  intro c hc
  rw [List.mem_append]
  by_cases hexploded : c ∈ rule.arraysToExplode
  · exact Or.inr hexploded
  · apply Or.inl
    rw [blockingRetainColumns, List.mem_filter, List.mem_dedup, List.mem_flatMap]
    exact ⟨⟨br, hbr, hc⟩, by simpa using hexploded⟩

theorem excludePreceding_congr {preceding : List (BlockingRule Id)} {l l' r r' : Record Id}
    (hsame : ∀ rule ∈ preceding, rule.sql l r = rule.sql l' r') :
    excludePreceding preceding l r = excludePreceding preceding l' r' := by
  rw [excludePreceding, excludePreceding]
  congr 1
  induction preceding with
  | nil => rfl
  | cons rule rest ih =>
    rw [List.any_cons, List.any_cons, hsame rule List.mem_cons_self,
      ih fun br hbr => hsame br (List.mem_cons_of_mem rule hbr)]

section Retained

variable {preceding : List (BlockingRule Id)} {rule : BlockingRule Id} {kept : List Column}

theorem sql_project {br : BlockingRule Id} (hkept : br.referencedColumns ⊆ kept)
    (l r : Record Id) : br.sql (l.project kept) (r.project kept) = br.sql l r :=
  br.reads _ _ _ _ (Record.project_agreesOn hkept l) (Record.project_agreesOn hkept r)

theorem holds_project (hkept : rule.referencedColumns ⊆ kept) (l r : Record Id) :
    rule.holds (l.project kept) (r.project kept) = rule.holds l r := by
  rw [BlockingRule.holds, BlockingRule.holds, sql_project hkept]

theorem excludePreceding_project (hkept : ∀ br ∈ preceding, br.referencedColumns ⊆ kept)
    (l r : Record Id) :
    excludePreceding preceding (l.project kept) (r.project kept) =
      excludePreceding preceding l r :=
  excludePreceding_congr fun br hbr => sql_project (hkept br hbr) l r

end Retained

theorem excludePreceding_eq_true_iff {preceding : List (BlockingRule Id)} {l r : Record Id} :
    excludePreceding preceding l r = true ↔
      ∀ rule ∈ preceding, rule.isExploding = false → rule.holds l r = false := by
  rw [excludePreceding, Bool.not_eq_true', List.any_eq_false]
  constructor
  · intro hnone rule hrule hscalar
    have hfalse := hnone rule hrule
    simp only [hscalar, Bool.false_eq_true, ↓reduceIte] at hfalse
    cases hsql : rule.sql l r with
    | none => simp [BlockingRule.holds, hsql]
    | some value => simp_all [BlockingRule.holds]
  · intro hnone rule hrule
    by_cases hexp : rule.isExploding
    · simp [hexp]
    · have hfalse := hnone rule hrule (by simpa using hexp)
      cases hsql : rule.sql l r with
      | none => simp
      | some value => simp_all [BlockingRule.holds]

/-- A rule admits a pair: it holds for some choice of elements of its exploded arrays. -/
def BlockingRule.admits (rule : BlockingRule Id) (l r : Record Id) : Bool :=
  (l.choices rule.arraysToExplode).any fun l' =>
    (r.choices rule.arraysToExplode).any fun r' => rule.holds l' r'

/-- An arm generates a pair: its rule holds for some choice of elements on which no scalar
rule before it holds. -/
def BlockingRule.generates (rule : BlockingRule Id) (preceding : List (BlockingRule Id))
    (l r : Record Id) : Bool :=
  (l.choices rule.arraysToExplode).any fun l' =>
    (r.choices rule.arraysToExplode).any fun r' =>
      rule.holds l' r' && excludePreceding preceding l' r'

namespace BlockingRule

variable {rule : BlockingRule Id} {preceding : List (BlockingRule Id)} {l r : Record Id}

/-- A scalar rule is read on the two records as they stand. -/
theorem arrays_eq_nil_of_scalar (hscalar : rule.isExploding = false) :
    rule.arraysToExplode = [] := by
  simpa [isExploding] using hscalar

theorem admits_of_scalar (hscalar : rule.isExploding = false) :
    rule.admits l r = rule.holds l r := by
  simp [admits, arrays_eq_nil_of_scalar hscalar]

theorem generates_of_scalar (hscalar : rule.isExploding = false) :
    rule.generates preceding l r = (rule.holds l r && excludePreceding preceding l r) := by
  simp [generates, arrays_eq_nil_of_scalar hscalar]

theorem generates_eq_true_iff :
    rule.generates preceding l r = true ↔
      ∃ l' ∈ l.choices rule.arraysToExplode, ∃ r' ∈ r.choices rule.arraysToExplode,
        rule.holds l' r' = true ∧ excludePreceding preceding l' r' = true := by
  simp [generates]

theorem admits_of_generates (hgen : rule.generates preceding l r = true) :
    rule.admits l r = true := by
  obtain ⟨l', hl', r', hr', hholds, -⟩ := generates_eq_true_iff.mp hgen
  rw [admits, List.any_eq_true]
  exact ⟨l', hl', List.any_eq_true.mpr ⟨r', hr', hholds⟩⟩

end BlockingRule

section Arms

variable [LinearOrder Id] {hash : Id → ℕ} {linkType : LinkType} {concat : List (Record Id)}
  {rule : BlockingRule Id} {preceding : List (BlockingRule Id)}

theorem whereCondition_congr {l l' r r' : Record Id}
    (hl : l'.uid = l.uid ∧ l'.source = l.source) (hr : r'.uid = r.uid ∧ r'.source = r.source) :
    whereCondition linkType l' r' = whereCondition linkType l r := by
  cases linkType <;> simp only [whereCondition, hl.1, hl.2, hr.1, hr.2]

theorem mem_marginalExplodedIdPairs {a b : Id} :
    (a, b) ∈ marginalExplodedIdPairs hash rule preceding linkType
        (explodeArrays concat rule.arraysToExplode (blockingRetainColumns preceding rule))
        none ↔
      ∃ l ∈ concat, ∃ r ∈ concat, l.uid = a ∧ r.uid = b ∧
        whereCondition linkType l r = true ∧ rule.generates preceding l r = true := by
  have hrule : rule.referencedColumns ⊆
      blockingRetainColumns preceding rule ++ rule.arraysToExplode :=
    referencedColumns_subset_retained (by simp)
  have hpreceding : ∀ br ∈ preceding, br.referencedColumns ⊆
      blockingRetainColumns preceding rule ++ rule.arraysToExplode := fun br hbr =>
    referencedColumns_subset_retained (by simp [hbr])
  rw [explodeArrays_eq]
  simp only [marginalExplodedIdPairs, List.mem_dedup, List.mem_map, mem_innerJoin, Prod.exists,
    Prod.mk.injEq, rightChunkFilter_none, Bool.and_true, Bool.and_eq_true]
  constructor
  · intro hrow
    obtain ⟨l₀, r₀, ⟨⟨l', hl', rfl⟩, ⟨r', hr', rfl⟩, ⟨hholds, hwhere⟩, hexclude⟩, rfl, rfl⟩ := hrow
    obtain ⟨l, hl, hlchoice⟩ := List.mem_flatMap.mp hl'
    obtain ⟨r, hr, hrchoice⟩ := List.mem_flatMap.mp hr'
    have hlc := Record.choices_carries hlchoice
    have hrc := Record.choices_carries hrchoice
    rw [holds_project hrule] at hholds
    rw [excludePreceding_project hpreceding] at hexclude
    refine ⟨l, hl, r, hr, hlc.1.symm, hrc.1.symm, ?_, ?_⟩
    · rw [← hwhere]
      exact (whereCondition_congr ⟨hlc.1, hlc.2.1⟩ ⟨hrc.1, hrc.2.1⟩).symm
    · exact BlockingRule.generates_eq_true_iff.mpr
        ⟨l', hlchoice, r', hrchoice, hholds, hexclude⟩
  · intro hrow
    obtain ⟨l, hl, r, hr, rfl, rfl, hwhere, hgen⟩ := hrow
    obtain ⟨l', hlchoice, r', hrchoice, hholds, hexclude⟩ :=
      BlockingRule.generates_eq_true_iff.mp hgen
    have hlc := Record.choices_carries hlchoice
    have hrc := Record.choices_carries hrchoice
    refine ⟨_, _, ⟨⟨l', List.mem_flatMap.mpr ⟨l, hl, hlchoice⟩, rfl⟩,
      ⟨r', List.mem_flatMap.mpr ⟨r, hr, hrchoice⟩, rfl⟩, ⟨?_, ?_⟩, ?_⟩, hlc.1, hrc.1⟩
    · rw [holds_project hrule]
      exact hholds
    · rw [← hwhere]
      exact whereCondition_congr ⟨hlc.1, hlc.2.1⟩ ⟨hrc.1, hrc.2.1⟩
    · rw [excludePreceding_project hpreceding]
      exact hexclude

theorem mem_blockedIdPairsArm {marginals : List (ℕ × List (Id × Id))}
    (hmarginal : rule.isExploding = true →
      marginals.find? (fun m => m.1 == rule.index) = some (rule.index,
        marginalExplodedIdPairs hash rule preceding linkType
          (explodeArrays concat rule.arraysToExplode (blockingRetainColumns preceding rule))
          none))
    {row : BlockedPair Id} :
    row ∈ blockedIdPairsArm hash preceding rule linkType concat marginals none ↔
      ∃ l ∈ concat, ∃ r ∈ concat, whereCondition linkType l r = true ∧
        rule.generates preceding l r = true ∧ row = ⟨toString rule.index, l.uid, r.uid⟩ := by
  unfold blockedIdPairsArm
  by_cases hexp : rule.isExploding
  · rw [if_pos hexp, hmarginal hexp]
    simp only [List.mem_map, Prod.exists, mem_marginalExplodedIdPairs]
    constructor
    · intro hrow
      obtain ⟨a, b, ⟨l, hl, r, hr, rfl, rfl, hwhere, hgen⟩, rfl⟩ := hrow
      exact ⟨l, hl, r, hr, hwhere, hgen, rfl⟩
    · intro hrow
      obtain ⟨l, hl, r, hr, hwhere, hgen, rfl⟩ := hrow
      exact ⟨l.uid, r.uid, ⟨l, hl, r, hr, rfl, rfl, hwhere, hgen⟩, rfl⟩
  · have hscalar : rule.isExploding = false := by simpa using hexp
    rw [if_neg hexp]
    simp only [List.mem_map, mem_innerJoin, Prod.exists, rightChunkFilter_none, Bool.and_true,
      Bool.and_eq_true, BlockingRule.generates_of_scalar hscalar]
    constructor
    · intro hrow
      obtain ⟨l, r, ⟨hl, hr, ⟨hholds, hwhere⟩, hexclude⟩, rfl⟩ := hrow
      exact ⟨l, hl, r, hr, hwhere, ⟨hholds, hexclude⟩, rfl⟩
    · intro hrow
      obtain ⟨l, hl, r, hr, hwhere, ⟨hholds, hexclude⟩, rfl⟩ := hrow
      exact ⟨l, r, ⟨hl, hr, ⟨hholds, hwhere⟩, hexclude⟩, rfl⟩

end Arms

/-! ## The rule list -/

namespace Settings

variable (settings : Settings Id)

/-- The rules that generate: the declared ones, or the literal `1=1` when there is none. -/
def effectiveRules : List (BlockingRule Id) :=
  rulesOrCartesian settings.blockingRules

/-- The rule at position `i` generates the pair. -/
def GeneratesAt (i : ℕ) (l r : Record Id) : Prop :=
  ∃ rule, settings.effectiveRules[i]? = some rule ∧
    rule.generates (settings.effectiveRules.take i) l r = true

variable {settings}

theorem index_blockingRules {i : ℕ} {rule : BlockingRule Id}
    (hrule : settings.blockingRules[i]? = some rule) : rule.index = i := by
  rw [blockingRules, List.getElem?_mapIdx, Option.map_eq_some_iff] at hrule
  obtain ⟨br, -, rfl⟩ := hrule
  rfl

theorem effectiveRules_of_ne_nil (hdeclared : settings.blockingRules ≠ []) :
    settings.effectiveRules = settings.blockingRules := by
  simp [effectiveRules, rulesOrCartesian, hdeclared]

/-- A rule's index is its position. -/
theorem index_effectiveRules {i : ℕ} {rule : BlockingRule Id}
    (hrule : settings.effectiveRules[i]? = some rule) : rule.index = i := by
  by_cases hdeclared : settings.blockingRules = []
  · simp only [effectiveRules, rulesOrCartesian, hdeclared, List.isEmpty_nil, ↓reduceIte,
      List.getElem?_singleton] at hrule
    split at hrule
    · cases hrule
      simp_all [cartesianRule]
    · cases hrule
  · rw [effectiveRules_of_ne_nil hdeclared] at hrule
    exact index_blockingRules hrule

/-- Without an exploding rule the effective rules are scalar. -/
theorem scalar_effectiveRules
    (hnone : ¬ settings.blockingRules.any BlockingRule.isExploding = true) :
    ∀ rule ∈ settings.effectiveRules, rule.isExploding = false := by
  intro rule hrule
  by_cases hdeclared : settings.blockingRules = []
  · simp only [effectiveRules, rulesOrCartesian, hdeclared, List.isEmpty_nil,
      ↓reduceIte, List.mem_singleton] at hrule
    subst hrule
    rfl
  · rw [effectiveRules_of_ne_nil hdeclared] at hrule
    by_contra hexp
    exact hnone (List.any_eq_true.mpr ⟨rule, hrule, by simpa using hexp⟩)

/-- Without an exploding rule a pair is generated by one rule at most. -/
theorem GeneratesAt.unique (hscalar : ∀ rule ∈ settings.effectiveRules, rule.isExploding = false)
    {i j : ℕ} {l r : Record Id} (hi : settings.GeneratesAt i l r)
    (hj : settings.GeneratesAt j l r) : i = j := by
  have hnever : ∀ {i j : ℕ}, settings.GeneratesAt i l r → settings.GeneratesAt j l r →
      ¬ i < j := by
    intro i j hi hj hlt
    obtain ⟨rule, hrule, hgen⟩ := hi
    obtain ⟨later, hlater, hgenLater⟩ := hj
    have hmem := List.mem_of_getElem? hrule
    have hmemLater := List.mem_of_getElem? hlater
    rw [BlockingRule.generates_of_scalar (hscalar rule hmem), Bool.and_eq_true] at hgen
    rw [BlockingRule.generates_of_scalar (hscalar later hmemLater), Bool.and_eq_true,
      excludePreceding_eq_true_iff] at hgenLater
    have hbefore : rule ∈ settings.effectiveRules.take j := by
      apply List.mem_of_getElem? (i := i)
      rw [List.getElem?_take, if_pos hlt, hrule]
    have hfalse := hgenLater.2 rule hbefore (hscalar rule hmem)
    rw [hgen.1] at hfalse
    exact absurd hfalse (by decide)
  have hij := hnever hi hj
  have hji := hnever hj hi
  omega

end Settings

/-- A concat whose records have distinct unique ids. -/
structure Concat (Id : Type) where
  records : List (Record Id)
  distinct : (records.map Record.uid).Nodup

theorem Concat.eq_of_uid (concat : Concat Id) {l r : Record Id} (hl : l ∈ concat.records)
    (hr : r ∈ concat.records) (huid : l.uid = r.uid) : l = r :=
  List.inj_on_of_nodup_map concat.distinct hl hr huid

section Blocked

variable [LinearOrder Id] {hash : Id → ℕ} {settings : Settings Id}

theorem find_marginalTables {concat : List (Record Id)} {i : ℕ} {rule : BlockingRule Id}
    (hrule : settings.blockingRules[i]? = some rule) (hexp : rule.isExploding = true) :
    (marginalTables hash settings.blockingRules settings.linkType concat none).find?
        (fun m => m.1 == rule.index) =
      some (rule.index, marginalExplodedIdPairs hash rule (settings.blockingRules.take i)
        settings.linkType (explodeArrays concat rule.arraysToExplode
          (blockingRetainColumns (settings.blockingRules.take i) rule)) none) := by
  have hindex := Settings.index_blockingRules hrule
  have hmem : (rule.index, marginalExplodedIdPairs hash rule (settings.blockingRules.take i)
      settings.linkType (explodeArrays concat rule.arraysToExplode
        (blockingRetainColumns (settings.blockingRules.take i) rule)) none) ∈
      marginalTables hash settings.blockingRules settings.linkType concat none := by
    rw [marginalTables, List.mem_filterMap]
    refine ⟨(rule, i), List.mem_zipIdx_iff_getElem?.mpr hrule, ?_⟩
    rw [if_pos hexp]
  have hfound : ((marginalTables hash settings.blockingRules settings.linkType concat none).find?
      fun m => m.1 == rule.index).isSome = true := by
    rw [List.find?_isSome]
    exact ⟨_, hmem, by simp⟩
  obtain ⟨found, hfind⟩ := Option.isSome_iff_exists.mp hfound
  have hsame : found.1 = rule.index := by simpa using List.find?_some hfind
  have hin := List.mem_of_find?_eq_some hfind
  rw [marginalTables, List.mem_filterMap] at hin
  obtain ⟨⟨rule', i'⟩, hentry, htable⟩ := hin
  rw [List.mem_zipIdx_iff_getElem?] at hentry
  have hindex' := Settings.index_blockingRules hentry
  split at htable
  · rw [Option.some_inj] at htable
    subst htable
    have hpos : i' = i := hindex'.symm.trans (hsame.trans hindex)
    subst hpos
    have hrule' : rule' = rule := Option.some_inj.mp (hentry.symm.trans hrule)
    subst hrule'
    exact hfind
  · cases htable

theorem mem_blockedIdPairs {concat : List (Record Id)} {marginals : List (ℕ × List (Id × Id))}
    (hmarginals : settings.blockingRules.any BlockingRule.isExploding = true →
      marginals = marginalTables hash settings.blockingRules settings.linkType concat none)
    {row : BlockedPair Id} :
    row ∈ blockedIdPairs hash settings.blockingRules settings.linkType concat marginals none ↔
      ∃ l ∈ concat, ∃ r ∈ concat, ∃ i, whereCondition settings.linkType l r = true ∧
        settings.GeneratesAt i l r ∧ row = ⟨toString i, l.uid, r.uid⟩ := by
  have harm : ∀ {i : ℕ} {rule : BlockingRule Id}, settings.effectiveRules[i]? = some rule →
      (row ∈ blockedIdPairsArm hash (settings.effectiveRules.take i) rule settings.linkType
          concat marginals none ↔
        ∃ l ∈ concat, ∃ r ∈ concat, whereCondition settings.linkType l r = true ∧
          rule.generates (settings.effectiveRules.take i) l r = true ∧
          row = ⟨toString i, l.uid, r.uid⟩) := by
    intro i rule hrule
    have hindex := Settings.index_effectiveRules hrule
    rw [mem_blockedIdPairsArm, hindex]
    intro hexp
    by_cases hdeclared : settings.blockingRules = []
    · have hcartesian := List.mem_of_getElem? hrule
      simp only [Settings.effectiveRules, rulesOrCartesian, hdeclared, List.isEmpty_nil,
        ↓reduceIte, List.mem_singleton] at hcartesian
      subst hcartesian
      simp [BlockingRule.isExploding, cartesianRule] at hexp
    · rw [Settings.effectiveRules_of_ne_nil hdeclared] at hrule ⊢
      have hany : settings.blockingRules.any BlockingRule.isExploding = true :=
        List.any_eq_true.mpr ⟨rule, List.mem_of_getElem? hrule, hexp⟩
      rw [hmarginals hany]
      exact find_marginalTables hrule hexp
  simp only [blockedIdPairs, List.mem_flatMap, Prod.exists, List.mem_zipIdx_iff_getElem?]
  constructor
  · intro hrow
    obtain ⟨rule, i, hrule, hrow⟩ := hrow
    obtain ⟨l, hl, r, hr, hwhere, hgen, heq⟩ := (harm hrule).mp hrow
    exact ⟨l, hl, r, hr, i, hwhere, ⟨rule, hrule, hgen⟩, heq⟩
  · intro hrow
    obtain ⟨l, hl, r, hr, i, hwhere, ⟨rule, hrule, hgen⟩, heq⟩ := hrow
    exact ⟨rule, i, hrule, (harm hrule).mpr ⟨l, hl, r, hr, hwhere, hgen, heq⟩⟩

variable (hash) (concat : Concat Id)

/-- The blocked pairs: each generated pair, under the least of the printed positions of
the rules that generate it. -/
theorem mem_materializeBlockedPairs {row : BlockedPair Id} :
    row ∈ materializeBlockedPairs hash settings concat.records ↔
      ∃ l ∈ concat.records, ∃ r ∈ concat.records, ∃ i,
        whereCondition settings.linkType l r = true ∧ settings.GeneratesAt i l r ∧
        (∀ j, settings.GeneratesAt j l r → toString i ≤ toString j) ∧
        row = ⟨toString i, l.uid, r.uid⟩ := by
  unfold materializeBlockedPairs materializeBlockedPairsChunk
  by_cases hexp : settings.blockingRules.any BlockingRule.isExploding
  · rw [if_pos hexp]
    have hmem : ∀ {row : BlockedPair Id},
        row ∈ blockedIdPairs hash settings.blockingRules settings.linkType concat.records
            (marginalTables hash settings.blockingRules settings.linkType concat.records none)
            none ↔
          ∃ l ∈ concat.records, ∃ r ∈ concat.records, ∃ i,
            whereCondition settings.linkType l r = true ∧ settings.GeneratesAt i l r ∧
            row = ⟨toString i, l.uid, r.uid⟩ :=
      mem_blockedIdPairs fun _ => rfl
    simp only [materializeBlockedPairsExploding, dedupNonUnique, List.mem_map, Prod.exists,
      mem_groupMin]
    constructor
    · intro hrow
      obtain ⟨key, a, b, ⟨⟨row', hrow', hkeys, hkey⟩, hleast⟩, rfl⟩ := hrow
      obtain ⟨l, hl, r, hr, i, hwhere, hgen, rfl⟩ := hmem.mp hrow'
      obtain ⟨rfl, rfl⟩ := Prod.mk.inj hkeys
      refine ⟨l, hl, r, hr, i, hwhere, hgen, ?_, by rw [← hkey]⟩
      intro j hj
      have hother := hleast ⟨toString j, l.uid, r.uid⟩
        (hmem.mpr ⟨l, hl, r, hr, j, hwhere, hj, rfl⟩) rfl
      rw [← hkey] at hother
      exact hother
    · intro hrow
      obtain ⟨l, hl, r, hr, i, hwhere, hgen, hleast, rfl⟩ := hrow
      refine ⟨toString i, l.uid, r.uid, ⟨⟨⟨toString i, l.uid, r.uid⟩,
        hmem.mpr ⟨l, hl, r, hr, i, hwhere, hgen, rfl⟩, rfl, rfl⟩, ?_⟩, rfl⟩
      intro other hother hkeys
      obtain ⟨l', hl', r', hr', j, -, hgen', rfl⟩ := hmem.mp hother
      obtain ⟨hlsame, hrsame⟩ := Prod.mk.inj hkeys
      rw [concat.eq_of_uid hl' hl hlsame, concat.eq_of_uid hr' hr hrsame] at hgen'
      exact hleast j hgen'
  · rw [if_neg hexp, mem_blockedIdPairs (fun hsome => absurd hsome hexp)]
    constructor
    · intro hrow
      obtain ⟨l, hl, r, hr, i, hwhere, hgen, rfl⟩ := hrow
      refine ⟨l, hl, r, hr, i, hwhere, hgen, ?_, rfl⟩
      intro j hj
      rw [hgen.unique (Settings.scalar_effectiveRules hexp) hj]
    · intro hrow
      obtain ⟨l, hl, r, hr, i, hwhere, hgen, -, rfl⟩ := hrow
      exact ⟨l, hl, r, hr, i, hwhere, hgen, rfl⟩

theorem nodup_keys_materializeBlockedPairs :
    ((materializeBlockedPairs hash settings concat.records).map BlockedPair.keys).Nodup := by
  unfold materializeBlockedPairs materializeBlockedPairsChunk
  by_cases hexp : settings.blockingRules.any BlockingRule.isExploding
  · rw [if_pos hexp]
    simp only [materializeBlockedPairsExploding, dedupNonUnique, List.map_map]
    exact nodup_map_groupMin _ _ _
  · rw [if_neg hexp]
    have hscalar := Settings.scalar_effectiveRules hexp
    simp only [blockedIdPairs]
    change ((settings.effectiveRules.zipIdx.flatMap fun entry =>
      blockedIdPairsArm hash (settings.effectiveRules.take entry.2) entry.1 settings.linkType
        concat.records [] none).map BlockedPair.keys).Nodup
    rw [List.map_flatMap, List.nodup_flatMap]
    constructor
    · intro entry hentry
      rw [blockedIdPairsArm, if_neg (by simp [hscalar entry.1 (List.fst_mem_of_mem_zipIdx hentry)]),
        List.map_map]
      exact nodup_map_innerJoin concat.distinct concat.distinct
    · have hfrom : ∀ {rule : BlockingRule Id} {i : ℕ} {keys : Id × Id},
          settings.effectiveRules[i]? = some rule →
          keys ∈ (blockedIdPairsArm hash (settings.effectiveRules.take i) rule
            settings.linkType concat.records [] none).map BlockedPair.keys →
          ∃ l ∈ concat.records, ∃ r ∈ concat.records, settings.GeneratesAt i l r ∧
            keys = (l.uid, r.uid) := by
        intro rule i keys hrule hkeys
        have hrscalar := hscalar rule (List.mem_of_getElem? hrule)
        obtain ⟨row, hrow, rfl⟩ := List.mem_map.mp hkeys
        rw [mem_blockedIdPairsArm (by simp [hrscalar])] at hrow
        obtain ⟨l, hl, r, hr, -, hgen, rfl⟩ := hrow
        exact ⟨l, hl, r, hr, ⟨rule, hrule, hgen⟩, rfl⟩
      rw [List.pairwise_iff_getElem]
      intro i j hi hj hlt keys hkeys hkeys'
      simp only [List.getElem_zipIdx, Nat.zero_add] at hkeys hkeys'
      obtain ⟨l, hl, r, hr, hgen, rfl⟩ := hfrom (List.getElem?_eq_getElem _) hkeys
      obtain ⟨l', hl', r', hr', hgen', hsame⟩ := hfrom (List.getElem?_eq_getElem _) hkeys'
      obtain ⟨hlsame, hrsame⟩ := Prod.mk.inj hsame
      rw [← concat.eq_of_uid hl hl' hlsame, ← concat.eq_of_uid hr hr' hrsame] at hgen'
      exact absurd (hgen.unique hscalar hgen') (by omega)

end Blocked

end EntityResolution.Blocking
