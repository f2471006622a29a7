/-
# Which accepted levels are symmetric tests

Every accepted level puts the two sides of a column in a symmetric form, but for the components of
an address, which stand behind aliases that a pair does not have. What decides is how the column is
written and whether a tolerance is finite: NaN and infinity are read as numbers, and neither is
negative.
-/

import EntityResolution.Compile.Symmetry

namespace EntityResolution.Compile

open EntityResolution.Collections EntityResolution.Doubles EntityResolution.Golden
  EntityResolution.Identity EntityResolution.Numerals

/-- The tokens whose condition names the column without quotes. -/
def bareTokens : List String := ["username_exact", "domain_exact", "dob_same_year_month"]

/-- The column can be written as the level writes it, and the tolerance is finite. -/
structure WellWritten (column token : String) : Prop where
  not_components : token ≠ "address_components"
  bare : token ∈ bareTokens → isName column = true
  quoted : token ∉ bareTokens → token ≠ "variant_match" → column ≠ "" ∧ '"' ∉ column.toList
  finite : startsWith token "numeric_within:" = true → ∀ arg ∈ argument token,
    ∀ x ∈ parseDouble arg.toList, x.IsFinite

variable {functions : Functions} {columns : List String}

/-- The references to both sides of a column, and what they are read as. -/
structure Sides (column : String) (l r : Reference) : Prop where
  left : l.column = some (column ++ "_l")
  right : r.column = some (column ++ "_r")
  left_unaliased : ∀ name text, l ≠ .aliased name text
  right_unaliased : ∀ name text, r ≠ .aliased name text

theorem append_l (column : String) : column ++ "_" ++ "l" = column ++ "_l" :=
  String.append_assoc

theorem append_r (column : String) : column ++ "_" ++ "r" = column ++ "_r" :=
  String.append_assoc

theorem sides_quoted {column : String} (hquote : '"' ∉ column.toList) :
    Sides column (.quoted (column ++ "_" ++ "l")) (.quoted (column ++ "_" ++ "r")) where
  left := by
    rw [append_l]
    exact if_neg (by simpa using hquote)
  right := by
    rw [append_r]
    exact if_neg (by simpa using hquote)
  left_unaliased _ _ h := by cases h
  right_unaliased _ _ h := by cases h

theorem isName_append {column suffix : String} (hne : column ≠ "")
    (hsuffix : suffix = "_l" ∨ suffix = "_r") : isName (column ++ suffix) = isName column := by
  have hword : suffix.toList.all isNameChar = true := by
    rcases hsuffix with rfl | rfl <;> decide
  have hhead : (column ++ suffix).toList.head? = column.toList.head? := by
    rw [String.toList_append]
    cases htext : column.toList with
    | nil => exact absurd (String.toList_inj.mp htext) hne
    | cons c text => rfl
  rw [isName, isName, hhead, String.toList_append, List.all_append, hword, Bool.and_true]

theorem sides_bare {column : String} (hname : isName column = true) :
    Sides column (.bare (column ++ "_" ++ "l")) (.bare (column ++ "_" ++ "r")) where
  left := by
    have hne : column ≠ "" := by
      rintro rfl
      exact absurd hname (by decide)
    rw [append_l]
    exact if_pos ((isName_append hne (Or.inl rfl)).trans hname)
  right := by
    have hne : column ≠ "" := by
      rintro rfl
      exact absurd hname (by decide)
    rw [append_r]
    exact if_pos ((isName_append hne (Or.inr rfl)).trans hname)
  left_unaliased _ _ h := by cases h
  right_unaliased _ _ h := by cases h

theorem Reference.value_of_unaliased {reference : Reference} {name : String}
    (hcolumn : reference.column = some name) (halias : ∀ name text, reference ≠ .aliased name text)
    (left right : Record) :
    reference.value columns left right = pairValue columns left right name := by
  cases reference with
  | quoted text => simp only [Reference.value, hcolumn]
  | bare text => simp only [Reference.value, hcolumn]
  | aliased first text => exact absurd rfl (halias first text)

theorem Reference.providedBy_iff {reference : Reference} {name : String}
    (hcolumn : reference.column = some name)
    (halias : ∀ name text, reference ≠ .aliased name text) :
    reference.ProvidedBy columns ↔ name ∈ pairColumns columns := by
  cases reference with
  | quoted text => simp [Reference.ProvidedBy, hcolumn]
  | bare text => simp [Reference.ProvidedBy, hcolumn]
  | aliased first text => exact absurd rfl (halias first text)

/-- Swapping the records swaps the sides. -/
theorem Sides.mirrored {column : String} {l r : Reference} (hsides : Sides column l r)
    (left right : Record) :
    Mirrored functions (Reference.value columns left right) (Reference.value columns right left)
      (.column l) (.column r) where
  left := by
    show l.value columns left right = r.value columns right left
    rw [Reference.value_of_unaliased hsides.left hsides.left_unaliased,
      Reference.value_of_unaliased hsides.right hsides.right_unaliased, pairValue_left,
      pairValue_right]
  right := by
    show r.value columns left right = l.value columns right left
    rw [Reference.value_of_unaliased hsides.left hsides.left_unaliased,
      Reference.value_of_unaliased hsides.right hsides.right_unaliased, pairValue_left,
      pairValue_right]

/-- A form of the sides of a column is a symmetric test when its numbers are finite. -/
theorem TwoSided.symmetricTest {numbers : List Double} {form : Operand → Operand → Condition}
    (hform : TwoSided functions numbers form) {column : String} {l r : Reference}
    (hsides : Sides column l r) (hne : column ≠ "")
    (hcolumns : (form (.column l) (.column r)).inputColumns ⊆ columns)
    (hfinite : ∀ x ∈ numbers, x.IsFinite) :
    SymmetricTest functions columns (form (.column l) (.column r)) where
  provided := by
    have hin : column ∈ columns := by
      apply hcolumns
      apply List.mem_dedup.mpr
      apply List.mem_map.mpr
      refine ⟨column ++ "_l", ?_, stripLrSuffix_append (Or.inl rfl)⟩
      exact List.mem_filterMap.mpr ⟨l, (hform.references l r l).mpr (Or.inl rfl), hsides.left⟩
    intro reference hreference
    rcases (hform.references l r reference).mp hreference with rfl | rfl
    · exact (Reference.providedBy_iff hsides.left hsides.left_unaliased).mpr
        ((append_mem_pairColumns (Or.inl rfl)).mpr ⟨hin, hne⟩)
    · exact (Reference.providedBy_iff hsides.right hsides.right_unaliased).mpr
        ((append_mem_pairColumns (Or.inr rfl)).mpr ⟨hin, hne⟩)
  finite := by
    rw [hform.numbers]
    exact hfinite
  symmetric left right := hform.fixed (hsides.mirrored left right)

/-- What a provided quoted reference says of the column. -/
theorem quoted_of_provided {column : String}
    (hprovided : (Reference.quoted (column ++ "_" ++ "l")).ProvidedBy columns) :
    column ≠ "" ∧ '"' ∉ column.toList := by
  obtain ⟨name, hname, hin⟩ := hprovided
  rw [append_l] at hname
  have hquote : '"' ∉ (column ++ "_l").toList := by
    intro hquote
    rw [Reference.column, if_pos hquote] at hname
    cases hname
  rw [Reference.column, if_neg hquote] at hname
  cases hname
  refine ⟨((append_mem_pairColumns (Or.inl rfl)).mp hin).2, ?_⟩
  intro hmem
  apply hquote
  rw [String.toList_append]
  exact List.mem_append_left _ hmem

/-- What a provided bare reference says of the column. -/
theorem isName_of_provided {column : String}
    (hprovided : (Reference.bare (column ++ "_" ++ "l")).ProvidedBy columns) :
    isName column = true := by
  obtain ⟨name, hname, hin⟩ := hprovided
  rw [append_l] at hname
  have htext : isName (column ++ "_l") = true := by
    by_contra hbad
    rw [Reference.column, if_neg hbad] at hname
    cases hname
  rw [Reference.column, if_pos htext] at hname
  cases hname
  rw [← isName_append ((append_mem_pairColumns (Or.inl rfl)).mp hin).2 (Or.inl rfl)]
  exact htext

theorem TwoSided.quoted_iff {numbers : List Double} {form : Operand → Operand → Condition}
    (hform : TwoSided functions numbers form) {column : String}
    (hcolumns : (form (side column "l") (side column "r")).inputColumns ⊆ columns) :
    SymmetricTest functions columns (form (side column "l") (side column "r")) ↔
      (column ≠ "" ∧ '"' ∉ column.toList) ∧ ∀ x ∈ numbers, x.IsFinite := by
  apply Iff.intro
  · intro htest
    have hl := htest.provided _ ((hform.references _ _ _).mpr (Or.inl rfl))
    have hfinite := htest.finite
    rw [side, side, hform.numbers] at hfinite
    exact ⟨quoted_of_provided hl, hfinite⟩
  · rintro ⟨⟨hne, hquote⟩, hfinite⟩
    exact hform.symmetricTest (sides_quoted hquote) hne hcolumns hfinite

theorem TwoSided.bare_iff {form : Operand → Operand → Condition}
    (hform : TwoSided functions [] form) {column : String}
    (hcolumns : (form (bareSide column "l") (bareSide column "r")).inputColumns ⊆ columns) :
    SymmetricTest functions columns (form (bareSide column "l") (bareSide column "r")) ↔
      isName column = true := by
  apply Iff.intro
  · intro htest
    exact isName_of_provided (htest.provided _ ((hform.references _ _ _).mpr (Or.inl rfl)))
  · intro hname
    have hne : column ≠ "" := by
      rintro rfl
      exact absurd hname (by decide)
    exact hform.symmetricTest (sides_bare hname) hne hcolumns (List.forall_mem_nil _)

/-- The condition of an accepted token. -/
inductive Resolved (column token : String) : Condition → Prop
  | quoted (numbers : List Double) (form : Operand → Operand → Condition)
      (hbare : token ∉ bareTokens) (hvariant : token ≠ "variant_match")
      (hcomponents : token ≠ "address_components")
      (hform : ∀ functions, TwoSided functions numbers form)
      (hfinite : (∀ x ∈ numbers, x.IsFinite) ↔
        (startsWith token "numeric_within:" = true → ∀ arg ∈ argument token,
          ∀ x ∈ parseDouble arg.toList, x.IsFinite)) :
      Resolved column token (form (side column "l") (side column "r"))
  | bare (form : Operand → Operand → Condition) (hbare : token ∈ bareTokens)
      (hform : ∀ functions, TwoSided functions [] form) :
      Resolved column token (form (bareSide column "l") (bareSide column "r"))
  | variantMatch (hvariant : token = "variant_match") : Resolved column token variantMatch
  | addressComponents (hcomponents : token = "address_components") :
      Resolved column token addressComponents

theorem startsWith_iff {token start : String} :
    startsWith token start = true ↔ start.toList <+: token.toList :=
  List.isPrefixOf_iff_prefix

theorem ne_of_startsWith {token start word : String} (hstart : startsWith token start = true)
    (hword : startsWith word start = false) : token ≠ word := by
  rintro rfl
  rw [hstart] at hword
  cases hword

theorem not_startsWith {token start other : String} (hstart : startsWith token start = true)
    (hother : startsWith start other = false) (hstart' : startsWith other start = false) :
    startsWith token other = false := by
  cases hboth : startsWith token other with
  | false => rfl
  | true =>
      rcases List.prefix_or_prefix_of_prefix (startsWith_iff.mp hstart)
        (startsWith_iff.mp hboth) with h | h
      · rw [startsWith_iff.mpr h] at hstart'
        cases hstart'
      · rw [startsWith_iff.mpr h] at hother
        cases hother

theorem numberParameter_eq_ok {column token : String} {x : Double}
    (hparameter : numberParameter column token = .ok x) :
    ∃ arg, argument token = some arg ∧ parseDouble arg.toList = some x := by
  unfold numberParameter parameter at hparameter
  cases harg : argument token with
  | none =>
      rw [harg] at hparameter
      cases hparameter
  | some arg =>
      rw [harg] at hparameter
      cases hparse : parseDouble arg.toList with
      | none =>
          simp only [bind, Except.bind, hparse] at hparameter
          cases hparameter
      | some y =>
          simp only [bind, Except.bind, hparse] at hparameter
          cases hparameter
          exact ⟨arg, rfl, hparse⟩

theorem isFinite_of_within {low high : ℚ} {x : Double} (hx : x.within low high = true) :
    x.IsFinite := by
  cases x with
  | finite value => exact ⟨value, rfl⟩
  | infinite negative => cases hx
  | nan => cases hx

/-- A percentage is a finite fraction. -/
theorem isFinite_fraction {pct : Double} (hpct : pct.within 0 100 = true) :
    (pct.div (.finite 100)).IsFinite := by
  cases pct with
  | finite value =>
      have hrange : 0 ≤ value ∧ value ≤ 100 := of_decide_eq_true hpct
      have hsmall : |value / 100| ≤ 1 := by
        rw [abs_of_nonneg (by linarith [hrange.1])]
        linarith [hrange.2]
      exact ofRat_finite_of_abs_le_one hsmall
  | infinite negative => cases hpct
  | nan => cases hpct

/-- A token that has no tolerance holds finite numbers. -/
theorem finite_iff_of_not_startsWith {token : String} {numbers : List Double}
    (htoken : startsWith token "numeric_within:" = false) (hnumbers : ∀ x ∈ numbers, x.IsFinite) :
    (∀ x ∈ numbers, x.IsFinite) ↔
      (startsWith token "numeric_within:" = true → ∀ arg ∈ argument token,
        ∀ x ∈ parseDouble arg.toList, x.IsFinite) := by
  rw [htoken]
  exact iff_of_true hnumbers fun h => absurd h (by decide)

/-- A level with a parameter and without a tolerance. -/
theorem Resolved.of_startsWith {column token start : String} {numbers : List Double}
    {form : Operand → Operand → Condition} (hstart : startsWith token start = true)
    (hwords : ∀ word ∈ "variant_match" :: "address_components" :: bareTokens,
      startsWith word start = false)
    (hother : startsWith start "numeric_within:" = false)
    (hstart' : startsWith "numeric_within:" start = false)
    (hform : ∀ functions, TwoSided functions numbers form) (hnumbers : ∀ x ∈ numbers, x.IsFinite) :
    Resolved column token (form (side column "l") (side column "r")) := by
  apply Resolved.quoted numbers form
  · intro hbare
    have hword := hwords token (List.mem_cons_of_mem _ (List.mem_cons_of_mem _ hbare))
    rw [hstart] at hword
    cases hword
  · exact ne_of_startsWith hstart (hwords _ List.mem_cons_self)
  · exact ne_of_startsWith hstart (hwords _ (List.mem_cons_of_mem _ List.mem_cons_self))
  · exact hform
  · exact finite_iff_of_not_startsWith (not_startsWith hstart hother hstart') hnumbers

/-- A level of a word. -/
theorem Resolved.of_word {column token : String} {form : Operand → Operand → Condition}
    (hbare : token ∉ bareTokens) (hvariant : token ≠ "variant_match")
    (hcomponents : token ≠ "address_components")
    (htolerance : startsWith token "numeric_within:" = false)
    (hform : ∀ functions, TwoSided functions [] form) :
    Resolved column token (form (side column "l") (side column "r")) :=
  .quoted [] form hbare hvariant hcomponents hform
    (finite_iff_of_not_startsWith htolerance (List.forall_mem_nil _))

/-- A level with a threshold in the unit interval. -/
theorem Resolved.of_jaroWinkler {column token : String} {threshold : Double}
    (hjaro : startsWith token "jaro_winkler:" = true) (hrange : threshold.within 0 1 = true) :
    Resolved column token (.compare .ge (.binary .jaroWinklerSimilarity (side column "l")
      (side column "r")) (.double threshold)) := by
  have hfinite : ∀ x ∈ [threshold], x.IsFinite := by
    intro x hx
    rw [List.mem_singleton.mp hx]
    exact isFinite_of_within hrange
  exact .of_startsWith hjaro (by decide) (by decide) (by decide)
    (fun functions =>
      twoSided_compare_binary functions (jaroWinklerSimilarity_swap functions) .ge threshold)
    hfinite

/-- A level with a tolerance, which is finite or not. -/
theorem Resolved.of_numericWithin {column token : String} {tolerance : Double}
    (hwithin : startsWith token "numeric_within:" = true)
    (hparameter : numberParameter column token = .ok tolerance) :
    Resolved column token
      (numericWithin (side column "l") (side column "r") tolerance) := by
  apply Resolved.quoted [tolerance] fun l r => numericWithin l r tolerance
  · intro hbare
    have hword : ∀ word ∈ bareTokens, startsWith word "numeric_within:" = false := by decide
    rw [hword token hbare] at hwithin
    cases hwithin
  · exact ne_of_startsWith hwithin (by decide)
  · exact ne_of_startsWith hwithin (by decide)
  · exact fun functions => twoSided_numericWithin tolerance
  · obtain ⟨arg, harg, hparse⟩ := numberParameter_eq_ok hparameter
    apply Iff.intro
    · intro hfinite _ arg' harg' x hx
      rw [harg, Option.mem_some_iff] at harg'
      subst harg'
      rw [hparse, Option.mem_some_iff] at hx
      exact hx ▸ hfinite tolerance List.mem_cons_self
    · intro hfinite x hx
      rw [List.mem_singleton.mp hx]
      exact hfinite hwithin arg harg tolerance hparse

/-- A level with a percentage. -/
theorem Resolved.of_numericWithinPct {column token : String} {pct : Double}
    (hpct : startsWith token "numeric_within_pct:" = true) (hrange : pct.within 0 100 = true) :
    Resolved column token
      (numericWithinPct (side column "l") (side column "r") (pct.div (.finite 100))) := by
  have hfinite : ∀ x ∈ [.finite 0, pct.div (.finite 100)], x.IsFinite := by
    intro x hx
    rcases List.mem_pair.mp hx with rfl | rfl
    · exact ⟨0, rfl⟩
    · exact isFinite_fraction hrange
  exact .of_startsWith hpct (by decide) (by decide) (by decide)
    (fun functions => twoSided_numericWithinPct (pct.div (.finite 100))) hfinite

theorem ite_eq_ok_iff {p : Prop} [Decidable p] {accepted condition : Condition}
    {error : CompileError} : (if p then Except.ok accepted else .error error) = .ok condition ↔
      p ∧ accepted = condition := by
  split <;> simp_all

theorem resolved_of_resolveLevel {column token : String} {condition : Condition}
    (hlevel : resolveLevel column token = .ok condition) : Resolved column token condition := by
  unfold resolveLevel at hlevel
  dsimp only at hlevel
  rcases ite_eq_iff.mp hlevel with ⟨hexact, hlevel⟩ | ⟨-, hlevel⟩
  · cases hlevel
    subst hexact
    exact .of_word (by decide) (by decide) (by decide) (by decide) twoSided_equal
  rcases ite_eq_iff.mp hlevel with ⟨hvariant, hlevel⟩ | ⟨-, hlevel⟩
  · cases hlevel
    exact .variantMatch hvariant
  rcases ite_eq_iff.mp hlevel with ⟨husername, hlevel⟩ | ⟨-, hlevel⟩
  · cases hlevel
    subst husername
    exact .bare _ (by decide) fun functions => twoSided_equal_unary functions (.splitPart 1)
  rcases ite_eq_iff.mp hlevel with ⟨hdomain, hlevel⟩ | ⟨-, hlevel⟩
  · cases hlevel
    subst hdomain
    exact .bare _ (by decide) fun functions => twoSided_equal_unary functions (.splitPart 2)
  rcases ite_eq_iff.mp hlevel with ⟨hmonth, hlevel⟩ | ⟨-, hlevel⟩
  · cases hlevel
    subst hmonth
    exact .bare _ (by decide) fun functions => twoSided_equal_unary functions .dateTruncMonth
  rcases ite_eq_iff.mp hlevel with ⟨hjaro, hlevel⟩ | ⟨-, hlevel⟩
  · obtain ⟨threshold, _, hlevel⟩ := bind_eq_ok_iff.mp hlevel
    obtain ⟨hrange, rfl⟩ := ite_eq_ok_iff.mp hlevel
    exact .of_jaroWinkler hjaro hrange
  rcases ite_eq_iff.mp hlevel with ⟨hlevenshtein, hlevel⟩ | ⟨-, hlevel⟩
  · obtain ⟨most, _, hlevel⟩ := bind_eq_ok_iff.mp hlevel
    cases hlevel
    exact .of_startsWith hlevenshtein (by decide) (by decide) (by decide)
      (fun functions => twoSided_compare_levenshtein functions most) (List.forall_mem_nil _)
  rcases ite_eq_iff.mp hlevel with ⟨hfirst, hlevel⟩ | ⟨-, hlevel⟩
  · obtain ⟨n, _, hlevel⟩ := bind_eq_ok_iff.mp hlevel
    by_cases hzero : n = 0
    · rw [if_pos hzero] at hlevel
      cases hlevel
    · rw [if_neg hzero] at hlevel
      cases hlevel
      exact .of_startsWith hfirst (by decide) (by decide) (by decide)
        (fun functions => twoSided_equal_unary functions (.substr n)) (List.forall_mem_nil _)
  rcases ite_eq_iff.mp hlevel with ⟨hdays, hlevel⟩ | ⟨-, hlevel⟩
  · obtain ⟨days, _, hlevel⟩ := bind_eq_ok_iff.mp hlevel
    cases hlevel
    exact .of_startsWith hdays (by decide) (by decide) (by decide)
      (fun functions =>
        twoSided_compare_unary_binary functions (abs_dateDiffDay_swap functions) .le days)
      (List.forall_mem_nil _)
  rcases ite_eq_iff.mp hlevel with ⟨htransposed, hlevel⟩ | ⟨-, hlevel⟩
  · cases hlevel
    subst htransposed
    exact .of_word (by decide) (by decide) (by decide) (by decide) twoSided_dateTransposed
  rcases ite_eq_iff.mp hlevel with ⟨hwithin, hlevel⟩ | ⟨-, hlevel⟩
  · obtain ⟨tolerance, hparameter, hlevel⟩ := bind_eq_ok_iff.mp hlevel
    by_cases hnegative : tolerance.isNegative = true
    · rw [if_pos hnegative] at hlevel
      cases hlevel
    · rw [if_neg hnegative] at hlevel
      cases hlevel
      exact .of_numericWithin hwithin hparameter
  rcases ite_eq_iff.mp hlevel with ⟨hpct, hlevel⟩ | ⟨-, hlevel⟩
  · obtain ⟨pct, _, hlevel⟩ := bind_eq_ok_iff.mp hlevel
    obtain ⟨hrange, rfl⟩ := ite_eq_ok_iff.mp hlevel
    exact .of_numericWithinPct hpct hrange
  rcases ite_eq_iff.mp hlevel with ⟨hcomponents, hlevel⟩ | ⟨-, hlevel⟩
  · cases hlevel
    exact .addressComponents hcomponents
  · cases hlevel

theorem not_symmetricTest_addressComponents :
    ¬ SymmetricTest functions columns addressComponents := by
  intro htest
  exact htest.provided (.aliased "l" "addr_number") (by decide)

theorem symmetricTest_variantMatch (hcolumns : variantMatch.inputColumns ⊆ columns) :
    SymmetricTest functions columns variantMatch := by
  have hform : TwoSided functions [] fun l r =>
      .compare .ge (.unary .arrayLength (.binary .listIntersect l r)) (.integer 1) :=
    twoSided_compare_unary_binary functions (arrayLength_listIntersect_swap functions) .ge 1
  exact (hform.quoted_iff hcolumns).mpr ⟨by decide, List.forall_mem_nil _⟩

/-- Functions that tell texts apart. -/
def Functions.discrete : Functions where
  jaroWinklerSimilarity first second := .finite (if first = second then 1 else 0)
  levenshtein first second := if first = second then 0 else max first.length second.length
  tryCastDouble
    | .double value => some value
    | _ => none
  jaroWinklerSimilarity_comm first second := by
    rw [if_congr eq_comm rfl rfl]
  levenshtein_comm first second := by
    rw [if_congr eq_comm rfl rfl, max_comm]

end EntityResolution.Compile
