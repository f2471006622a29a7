/-
# The bits of a compiled comparison

The levels of a comparison get target bits: the declared ones falling shares of the field's
agreement bits, the catch-all a negative share, and a level for blanks that counts as agreement a
share of the weight itself. The last is not scaled by the agreement bits, so it lies below the
declared levels only when these are loud enough for their number.
-/

import EntityResolution.Compile.Levels

namespace EntityResolution.Compile

open EntityResolution.Collections

/-- `NullPolicy`: what a missing value means. -/
inductive NullPolicy where
  | never
  | bothBlankMatches
  | eitherBlankMatches
  deriving DecidableEq

/-- `ComparisonSpec`; a null token stands for the null level. -/
structure ComparisonSpec where
  levels : List (Option String)
  tf : Bool
  nullPolicy : NullPolicy

/-- `CompileOptions`, with exact numbers. -/
structure CompileOptions where
  fullAgreementBits : ℚ
  disagreementRatio : ℚ

/-- What a level tests. -/
inductive LevelTest where
  /-- `l IS NULL OR r IS NULL` -/
  | eitherNull (l r : Operand)
  /-- `l IS NULL AND r IS NULL` -/
  | bothNull (l r : Operand)
  | declared (condition : Condition)
  | otherwise

/-- `ComparisonLevelJson`, with the target bits in place of the probabilities that are made of
them. -/
structure ComparisonLevel where
  test : LevelTest
  isNullLevel : Bool
  bits : Option ℚ
  tfAdjustmentColumn : Option String

/-- A level with target bits. -/
def weightedLevel (test : LevelTest) (bits : ℚ) : ComparisonLevel where
  test
  isNullLevel := false
  bits := some bits
  tfAdjustmentColumn := none

/-- A level that offers no evidence. -/
def nullLevel (test : LevelTest) : ComparisonLevel where
  test
  isNullLevel := true
  bits := none
  tfAdjustmentColumn := none

/-- The declared tokens. -/
def ComparisonSpec.tokens (spec : ComparisonSpec) : List String := spec.levels.filterMap id

/-- What the weight is divided by for blanks: one more than the tokens, or 1 when that is no
`u32`. -/
def blankDivisor (tokens : List String) : ℕ :=
  if tokens.length + 1 < 2 ^ 32 then tokens.length + 1 else 1

/-- The levels for missing values. -/
def nullLevels (column : String) (spec : ComparisonSpec) (weight : ℚ) : List ComparisonLevel :=
  let l := side column "l"
  let r := side column "r"
  match spec.nullPolicy with
  | .never => [nullLevel (.eitherNull l r)]
  | .bothBlankMatches =>
      [weightedLevel (.bothNull l r) (weight / blankDivisor spec.tokens),
        nullLevel (.eitherNull l r)]
  | .eitherBlankMatches =>
      [weightedLevel (.eitherNull l r) (weight / blankDivisor spec.tokens)]

/-- The bits of the declared level of an index. -/
def declaredBits (options : CompileOptions) (weight : ℚ) (n i : ℕ) : ℚ :=
  options.fullAgreementBits * (weight / 100) * ((n - i) / n)

/-- A declared level. -/
def declaredLevel (column : String) (spec : ComparisonSpec) (weight : ℚ)
    (options : CompileOptions) (token : String × ℕ) : Except CompileError ComparisonLevel := do
  let resolved ← resolveLevel column token.1
  return { weightedLevel (.declared resolved)
      (declaredBits options weight spec.tokens.length token.2) with
    tfAdjustmentColumn := if spec.tf ∧ token.2 = 0 then some column else none }

/-- `compile_comparison`. -/
def compileComparison (column : String) (spec : ComparisonSpec) (weight : ℚ)
    (options : CompileOptions) : Except CompileError (List ComparisonLevel) := do
  if spec.tokens = [] then throw (.noLevels column)
  let declared ← spec.tokens.zipIdx.mapM (declaredLevel column spec weight options)
  let against := -options.fullAgreementBits * (weight / 100) * options.disagreementRatio
  return nullLevels column spec weight ++ declared ++ [weightedLevel .otherwise against]

/-- A test for missing values. -/
def LevelTest.isBlank : LevelTest → Bool
  | eitherNull _ _ => true
  | bothNull _ _ => true
  | _ => false

/-- A declared test. -/
def LevelTest.isDeclared : LevelTest → Bool
  | declared _ => true
  | _ => false

/-- The catch-all. -/
def LevelTest.isOtherwise : LevelTest → Bool
  | otherwise => true
  | _ => false

/-- The bits of the levels of a kind, in their order. -/
def bitsOf (kind : LevelTest → Bool) (levels : List ComparisonLevel) : List ℚ :=
  (levels.filter fun level => kind level.test).filterMap ComparisonLevel.bits

/-- The declared levels carry falling positive bits from the field's share on, a level for blanks
that matches lies below them, and the catch-all is no evidence for a match. -/
structure OrderedBits (spec : ComparisonSpec) (weight : ℚ) (options : CompileOptions)
    (levels : List ComparisonLevel) : Prop where
  length : (bitsOf LevelTest.isDeclared levels).length = spec.tokens.length
  positive : ∀ bits ∈ bitsOf LevelTest.isDeclared levels, 0 < bits
  decreasing : (bitsOf LevelTest.isDeclared levels).Pairwise (· > ·)
  first : (bitsOf LevelTest.isDeclared levels).head? =
    some (options.fullAgreementBits * weight / 100)
  blank : spec.nullPolicy ≠ .never → ∃ blank, bitsOf LevelTest.isBlank levels = [blank] ∧
    0 < blank ∧ ∀ bits ∈ bitsOf LevelTest.isDeclared levels, blank < bits
  otherwise : ∃ bits, bitsOf LevelTest.isOtherwise levels = [bits] ∧ bits ≤ 0

section Bits

variable {column : String} {spec : ComparisonSpec} {weight : ℚ} {options : CompileOptions}
  {levels : List ComparisonLevel}

theorem bitsOf_append (kind : LevelTest → Bool) (first second : List ComparisonLevel) :
    bitsOf kind (first ++ second) = bitsOf kind first ++ bitsOf kind second := by
  rw [bitsOf, List.filter_append, List.filterMap_append]
  rfl

/-- The levels of the tokens are declared ones with their bits. -/
theorem forall₂_of_mapM {tokens : List (String × ℕ)} {declared : List ComparisonLevel}
    (hdeclared : tokens.mapM (declaredLevel column spec weight options) = .ok declared) :
    List.Forall₂ (fun token level => level.test.isDeclared = true ∧
      level.bits = some (declaredBits options weight spec.tokens.length token.2)) tokens
        declared := by
  apply (forall₂_of_mapM_eq_ok hdeclared).imp
  intro token level hlevel
  obtain ⟨resolved, _, hlevel⟩ := bind_eq_ok_iff.mp hlevel
  cases hlevel
  exact ⟨rfl, rfl⟩

theorem bitsOf_declared {tokens : List (String × ℕ)} {declared : List ComparisonLevel}
    (hdeclared : List.Forall₂ (fun token level => level.test.isDeclared = true ∧
      level.bits = some (declaredBits options weight spec.tokens.length token.2)) tokens declared) :
    bitsOf LevelTest.isDeclared declared =
      tokens.map fun token => declaredBits options weight spec.tokens.length token.2 := by
  induction hdeclared with
  | nil => rfl
  | cons hlevel _ ih =>
      rw [bitsOf, List.filter_cons_of_pos (by exact hlevel.1), List.filterMap_cons, hlevel.2,
        List.map_cons, ← ih]
      rfl

theorem isDeclared_of_forall₂ {tokens : List (String × ℕ)} {declared : List ComparisonLevel}
    (hdeclared : List.Forall₂ (fun token level => level.test.isDeclared = true ∧
      level.bits = some (declaredBits options weight spec.tokens.length token.2)) tokens declared) :
    ∀ level ∈ declared, level.test.isDeclared = true := by
  induction hdeclared with
  | nil => exact List.forall_mem_nil _
  | cons hlevel _ ih => exact List.forall_mem_cons.mpr ⟨hlevel.1, ih⟩

theorem bitsOf_other {kind : LevelTest → Bool} {levels : List ComparisonLevel}
    (hother : ∀ level ∈ levels, kind level.test = false) : bitsOf kind levels = [] := by
  rw [bitsOf, List.filter_eq_nil_iff.mpr]
  · rfl
  · intro level hlevel hkind
    rw [hother level hlevel] at hkind
    cases hkind

theorem nullLevels_isBlank (column : String) (spec : ComparisonSpec) (weight : ℚ) :
    ∀ level ∈ nullLevels column spec weight, level.test.isBlank = true := by
  unfold nullLevels
  cases spec.nullPolicy <;> simp [nullLevel, weightedLevel, LevelTest.isBlank]

theorem LevelTest.not_declared_of_isBlank {test : LevelTest} (hblank : test.isBlank = true) :
    test.isDeclared = false ∧ test.isOtherwise = false := by
  cases test <;> first | exact ⟨rfl, rfl⟩ | cases hblank

theorem LevelTest.not_blank_of_isDeclared {test : LevelTest} (hdeclared : test.isDeclared = true) :
    test.isBlank = false ∧ test.isOtherwise = false := by
  cases test <;> first | exact ⟨rfl, rfl⟩ | cases hdeclared

/-- The bits of the levels of a comparison, by kind. -/
theorem bitsOf_compileComparison (hcompile : compileComparison column spec weight options =
      .ok levels) :
    0 < spec.tokens.length ∧
      bitsOf LevelTest.isDeclared levels = (List.range spec.tokens.length).map
        (declaredBits options weight spec.tokens.length) ∧
      bitsOf LevelTest.isBlank levels =
        bitsOf LevelTest.isBlank (nullLevels column spec weight) ∧
      bitsOf LevelTest.isOtherwise levels =
        [-options.fullAgreementBits * (weight / 100) * options.disagreementRatio] := by
  unfold compileComparison at hcompile
  by_cases hnone : spec.tokens = []
  · rw [if_pos hnone] at hcompile
    cases hcompile
  rw [if_neg hnone] at hcompile
  obtain ⟨declared, hdeclared, hlevels⟩ := bind_eq_ok_iff.mp hcompile
  cases hlevels
  have hpairs := forall₂_of_mapM hdeclared
  have hmem := isDeclared_of_forall₂ hpairs
  have hzip : spec.tokens.zipIdx.map (fun token =>
      declaredBits options weight spec.tokens.length token.2) =
        (List.range spec.tokens.length).map (declaredBits options weight spec.tokens.length) := by
    rw [List.range_eq_range', ← List.zipIdx_map_snd, List.map_map]
    rfl
  refine ⟨List.length_pos_of_ne_nil hnone, ?_, ?_, ?_⟩
  · rw [bitsOf_append, bitsOf_append, bitsOf_declared hpairs, hzip,
      bitsOf_other fun level hlevel => (LevelTest.not_declared_of_isBlank
        (nullLevels_isBlank column spec weight level hlevel)).1, List.nil_append]
    exact List.append_nil _
  · rw [bitsOf_append, bitsOf_append, bitsOf_other fun level hlevel =>
      (LevelTest.not_blank_of_isDeclared (hmem level hlevel)).1, List.append_nil]
    exact List.append_nil _
  · rw [bitsOf_append, bitsOf_append, bitsOf_other fun level hlevel =>
      (LevelTest.not_blank_of_isDeclared (hmem level hlevel)).2,
      bitsOf_other fun level hlevel =>
        (LevelTest.not_declared_of_isBlank (nullLevels_isBlank column spec weight level hlevel)).2]
    rfl

/-- The one level for blanks that carries bits. -/
theorem bitsOf_nullLevels (hpolicy : spec.nullPolicy ≠ .never) :
    bitsOf LevelTest.isBlank (nullLevels column spec weight) =
      [weight / blankDivisor spec.tokens] := by
  unfold nullLevels
  cases hcase : spec.nullPolicy with
  | never => exact absurd hcase hpolicy
  | bothBlankMatches => rfl
  | eitherBlankMatches => rfl

theorem declaredBits_lt (hweight : 0 < weight) (hfull : 0 < options.fullAgreementBits) {n i j : ℕ}
    (hn : 0 < n) (hij : i < j) :
    declaredBits options weight n j < declaredBits options weight n i := by
  have hscale : 0 < options.fullAgreementBits * (weight / 100) := by positivity
  have hindex : (i : ℚ) < j := by exact_mod_cast hij
  have hcount : (0 : ℚ) < n := by exact_mod_cast hn
  apply mul_lt_mul_of_pos_left _ hscale
  apply div_lt_div_of_pos_right _ hcount
  linarith

theorem last_le_declaredBits (hweight : 0 < weight) (hfull : 0 < options.fullAgreementBits)
    {n i : ℕ} (hi : i < n) :
    declaredBits options weight n (n - 1) ≤ declaredBits options weight n i := by
  rcases Nat.lt_or_ge i (n - 1) with hlt | hge
  · exact (declaredBits_lt hweight hfull (by omega) hlt).le
  · rw [show i = n - 1 by omega]

theorem declaredBits_last {n : ℕ} (hn : 0 < n) :
    declaredBits options weight n (n - 1) = options.fullAgreementBits * weight / (100 * n) := by
  have hcount : (n : ℚ) ≠ 0 := by exact_mod_cast hn.ne'
  rw [declaredBits, Nat.cast_sub hn, Nat.cast_one]
  field_simp
  ring

theorem blankDivisor_pos (tokens : List String) : 0 < blankDivisor tokens := by
  unfold blankDivisor
  split_ifs <;> omega

/-- The level for blanks lies below the last declared one when the agreement bits are loud
enough. -/
theorem blank_lt_last_iff (hweight : 0 < weight) (hn : 0 < spec.tokens.length) :
    weight / blankDivisor spec.tokens <
        declaredBits options weight spec.tokens.length (spec.tokens.length - 1) ↔
      100 * (spec.tokens.length : ℚ) < options.fullAgreementBits * blankDivisor spec.tokens := by
  have hdivisor : (0 : ℚ) < blankDivisor spec.tokens := by
    exact_mod_cast blankDivisor_pos spec.tokens
  have hcount : (0 : ℚ) < spec.tokens.length := by exact_mod_cast hn
  rw [declaredBits_last hn, div_lt_div_iff₀ hdivisor (by positivity),
    mul_comm options.fullAgreementBits weight, mul_assoc]
  exact mul_lt_mul_iff_right₀ hweight

end Bits

/-- For positive weights and agreement bits, and a disagreement that is no evidence for a match, the
bits of a compiled comparison are ordered exactly when blanks are no evidence, or the agreement bits
exceed `100 n` over what the weight is divided by for blanks, `n + 1`. -/
theorem compile_comparison_ordered_iff (column : String) (spec : ComparisonSpec) (weight : ℚ)
    (options : CompileOptions) (levels : List ComparisonLevel) (hweight : 0 < weight)
    (hfull : 0 < options.fullAgreementBits) (hratio : 0 ≤ options.disagreementRatio)
    (hcompile : compileComparison column spec weight options = .ok levels) :
    OrderedBits spec weight options levels ↔
      spec.nullPolicy = .never ∨
        100 * (spec.tokens.length : ℚ) < options.fullAgreementBits * blankDivisor spec.tokens := by
  obtain ⟨hn, hdeclared, hblank, hotherwise⟩ := bitsOf_compileComparison hcompile
  have hlast : declaredBits options weight spec.tokens.length (spec.tokens.length - 1) ∈
      bitsOf LevelTest.isDeclared levels := by
    rw [hdeclared]
    exact List.mem_map_of_mem (List.mem_range.mpr (by omega))
  apply Iff.intro
  · intro hordered
    by_cases hpolicy : spec.nullPolicy = .never
    · exact Or.inl hpolicy
    · obtain ⟨blank, hbits, _, hlt⟩ := hordered.blank hpolicy
      rw [hblank, bitsOf_nullLevels hpolicy] at hbits
      cases hbits
      exact Or.inr ((blank_lt_last_iff hweight hn).mp (hlt _ hlast))
  · intro hcondition
    have hcount : (0 : ℚ) < spec.tokens.length := by exact_mod_cast hn
    refine ⟨?_, ?_, ?_, ?_, ?_, ?_⟩
    · rw [hdeclared, List.length_map, List.length_range]
    · intro bits hbits
      rw [hdeclared] at hbits
      obtain ⟨i, hi, rfl⟩ := List.mem_map.mp hbits
      have hindex : (i : ℚ) < spec.tokens.length := by exact_mod_cast List.mem_range.mp hi
      have hshare : 0 < ((spec.tokens.length : ℚ) - i) / spec.tokens.length :=
        div_pos (by linarith) hcount
      have hscale : 0 < options.fullAgreementBits * (weight / 100) := by positivity
      exact mul_pos hscale hshare
    · rw [hdeclared, List.pairwise_map]
      exact List.pairwise_lt_range.imp fun hij => declaredBits_lt hweight hfull hn hij
    · rw [hdeclared, List.head?_map, List.head?_range, if_neg hn.ne']
      apply congrArg some
      rw [declaredBits, Nat.cast_zero, sub_zero, div_self hcount.ne', mul_one, mul_div_assoc]
    · intro hpolicy
      refine ⟨_, hblank.trans (bitsOf_nullLevels hpolicy), ?_, ?_⟩
      · have hdivisor : (0 : ℚ) < blankDivisor spec.tokens := by
          exact_mod_cast blankDivisor_pos spec.tokens
        positivity
      · intro bits hbits
        rw [hdeclared] at hbits
        obtain ⟨i, hi, rfl⟩ := List.mem_map.mp hbits
        exact ((blank_lt_last_iff hweight hn).mpr (hcondition.resolve_left hpolicy)).trans_le
          (last_le_declaredBits hweight hfull (List.mem_range.mp hi))
    · refine ⟨_, hotherwise, ?_⟩
      have hcost : 0 ≤ options.fullAgreementBits * (weight / 100) * options.disagreementRatio := by
        positivity
      linarith

/-- The default options. -/
def CompileOptions.default : CompileOptions where
  fullAgreementBits := 60
  disagreementRatio := 1 / 5

/-- One exact level under the default options. -/
theorem compile_comparison_ordered_iff_of_one_level :
    OrderedBits ⟨[some "exact"], false, .bothBlankMatches⟩ 100 .default
      (nullLevels "email" ⟨[some "exact"], false, .bothBlankMatches⟩ 100 ++
        [weightedLevel (.declared (equal (side "email" "l") (side "email" "r")))
            (declaredBits .default 100 1 0),
          weightedLevel .otherwise (-60 * (100 / 100) * (1 / 5))]) := by
  apply (compile_comparison_ordered_iff "email" ⟨[some "exact"], false, .bothBlankMatches⟩ 100
    .default _ (by norm_num) (by norm_num [CompileOptions.default])
    (by norm_num [CompileOptions.default]) rfl).mpr
  right
  have htokens : (⟨[some "exact"], false, .bothBlankMatches⟩ : ComparisonSpec).tokens =
      ["exact"] := rfl
  have hdivisor : blankDivisor ["exact"] = 2 := rfl
  rw [htokens, hdivisor]
  norm_num [CompileOptions.default]

/-- With two levels two blanks are worth more than the second, also under the default options. -/
theorem blanks_above_second_level :
    ∃ levels, compileComparison "email"
        ⟨[some "exact", some "username_exact"], false, .bothBlankMatches⟩ 100
          .default = .ok levels ∧
      bitsOf LevelTest.isBlank levels = [100 / 3] ∧
      bitsOf LevelTest.isDeclared levels = [60, 30] ∧
      ¬ OrderedBits ⟨[some "exact", some "username_exact"], false, .bothBlankMatches⟩ 100 .default
        levels := by
  obtain ⟨levels, hcompile⟩ : ∃ levels, compileComparison "email"
      ⟨[some "exact", some "username_exact"], false, .bothBlankMatches⟩ 100 .default =
        .ok levels := ⟨_, rfl⟩
  obtain ⟨_, hdeclared, hblank, _⟩ := bitsOf_compileComparison hcompile
  have htwo : bitsOf LevelTest.isDeclared levels = [60, 30] := by
    apply hdeclared.trans
    show [declaredBits .default 100 2 0, declaredBits .default 100 2 1] = [60, 30]
    norm_num [declaredBits, CompileOptions.default]
  have hthird : bitsOf LevelTest.isBlank levels = [100 / 3] :=
    hblank.trans (bitsOf_nullLevels (by decide))
  refine ⟨levels, hcompile, hthird, htwo, ?_⟩
  intro hordered
  obtain ⟨blank, hbits, _, hlt⟩ := hordered.blank (by decide)
  rw [hthird] at hbits
  cases hbits
  have hsecond := hlt 30 (by rw [htwo]; decide)
  norm_num at hsecond

end EntityResolution.Compile
