/-
# Levels are symmetric tests

A level is a form in which the two sides of a column are put. Swapping the records swaps the values
of the sides, and every form keeps its truth value: what it computes of both sides is symmetric, or
its conjuncts change places. So a level is a symmetric test as soon as its references are columns of
the pair and its numbers finite; both fail for some levels that are accepted.
-/

import EntityResolution.Compile.Levels

namespace EntityResolution.Compile

open EntityResolution.Calendar EntityResolution.Doubles EntityResolution.Golden
  EntityResolution.Identity EntityResolution.Numerals
open EntityResolution.Relations (sqlAnd sqlAnd_comm sqlAnd_right_comm)

/-- The condition of a level refers to columns of the pair, holds finite numbers, and has the same
truth value on swapped records. -/
structure SymmetricTest (functions : Functions) (columns : List String) (condition : Condition) :
    Prop where
  provided : ∀ reference ∈ condition.references, reference.ProvidedBy columns
  finite : ∀ x ∈ condition.doubles, x.IsFinite
  symmetric : ∀ left right : Record,
    condition.truth functions (Reference.value columns left right) =
      condition.truth functions (Reference.value columns right left)

theorem mem_pairColumns {columns : List String} {name : String} :
    name ∈ pairColumns columns ↔
      ∃ column ∈ columns, column ≠ "" ∧ (name = column ++ "_l" ∨ name = column ++ "_r") := by
  simp [pairColumns, and_assoc]

theorem stripLrSuffix_append {column suffix : String} (hsuffix : suffix = "_l" ∨ suffix = "_r") :
    stripLrSuffix (column ++ suffix) = column := by
  have hlength : suffix.toList.length = 2 := by rcases hsuffix with rfl | rfl <;> rfl
  have hend : suffix.toList.map Char.toLower = "_l".toList ∨
      suffix.toList.map Char.toLower = "_r".toList := by
    rcases hsuffix with rfl | rfl
    · exact Or.inl (by decide)
    · exact Or.inr (by decide)
  have hstart : (column ++ suffix).toList.length - 2 = column.toList.length := by
    rw [String.toList_append, List.length_append, hlength, Nat.add_sub_cancel]
  rw [stripLrSuffix, hstart, String.toList_append, List.drop_left, List.take_left, if_pos hend,
    String.ofList_toList]

theorem append_mem_pairColumns {columns : List String} {column suffix : String}
    (hsuffix : suffix = "_l" ∨ suffix = "_r") :
    column ++ suffix ∈ pairColumns columns ↔ column ∈ columns ∧ column ≠ "" := by
  rw [mem_pairColumns]
  apply Iff.intro
  · rintro ⟨other, hother, hne, hname⟩
    have hsame : other = column := by
      have hstrip : stripLrSuffix (column ++ suffix) = column := stripLrSuffix_append hsuffix
      rcases hname with hname | hname
      · rw [hname, stripLrSuffix_append (Or.inl rfl)] at hstrip
        exact hstrip
      · rw [hname, stripLrSuffix_append (Or.inr rfl)] at hstrip
        exact hstrip
    exact hsame ▸ ⟨hother, hne⟩
  · rintro ⟨hcolumn, hne⟩
    rcases hsuffix with rfl | rfl
    · exact ⟨column, hcolumn, hne, Or.inl rfl⟩
    · exact ⟨column, hcolumn, hne, Or.inr rfl⟩

theorem pairValue_left (columns : List String) (left right : Record) (column : String) :
    pairValue columns left right (column ++ "_l") =
      if column ∈ columns ∧ column ≠ "" then .ok (left column) else .error .unbound := by
  have hdrop : (column ++ "_l").toList.drop ((column ++ "_l").toList.length - 2) = "_l".toList := by
    rw [String.toList_append, List.length_append]
    exact List.drop_left
  rw [pairValue, if_congr (append_mem_pairColumns (Or.inl rfl)) rfl rfl, if_pos hdrop,
    stripLrSuffix_append (Or.inl rfl)]

theorem pairValue_right (columns : List String) (left right : Record) (column : String) :
    pairValue columns left right (column ++ "_r") =
      if column ∈ columns ∧ column ≠ "" then .ok (right column) else .error .unbound := by
  have hdrop : (column ++ "_r").toList.drop ((column ++ "_r").toList.length - 2) ≠
      "_l".toList := by
    rw [String.toList_append, List.length_append]
    show (column.toList ++ "_r".toList).drop column.toList.length ≠ _
    rw [List.drop_left]
    decide
  rw [pairValue, if_congr (append_mem_pairColumns (Or.inr rfl)) rfl rfl, if_neg hdrop,
    stripLrSuffix_append (Or.inr rfl)]

section Forms

variable (functions : Functions) (environment swapped : Reference → Except Refusal (Option Scalar))

/-- Two operands change their values when the records are swapped. -/
structure Mirrored (l r : Operand) : Prop where
  left : l.value functions environment = r.value functions swapped
  right : r.value functions environment = l.value functions swapped

/-- An operand keeps its value when the records are swapped. -/
def Operand.Fixed (operand : Operand) : Prop :=
  operand.value functions environment = operand.value functions swapped

/-- A condition keeps its truth value when the records are swapped. -/
def Condition.Fixed (condition : Condition) : Prop :=
  condition.truth functions environment = condition.truth functions swapped

variable {functions environment swapped} {l r : Operand}

/-- The order in which two operands are evaluated does not matter. -/
theorem bind_swap {A B : Type} (first second : Except Refusal A) (f : A → A → Except Refusal B)
    (hf : ∀ a b, f a b = f b a) :
    (first >>= fun a => second >>= fun b => f a b) =
      (second >>= fun a => first >>= fun b => f a b) := by
  cases first with
  | error e =>
      cases e
      cases second with
      | error e => cases e; rfl
      | ok b => rfl
  | ok a =>
      cases second with
      | error e => rfl
      | ok b => exact hf a b

theorem Mirrored.unary (hmirrored : Mirrored functions environment swapped l r)
    (function : Unary) :
    Mirrored functions environment swapped (.unary function l) (.unary function r) where
  left := congrArg (· >>= function.value functions) hmirrored.left
  right := congrArg (· >>= function.value functions) hmirrored.right

/-- A symmetric function of both sides keeps its value. -/
theorem Mirrored.binary (hmirrored : Mirrored functions environment swapped l r)
    {function : Binary}
    (hcomm : ∀ a b, function.value functions a b = function.value functions b a) :
    (Operand.binary function l r).Fixed functions environment swapped := by
  show (l.value functions environment >>= fun a => r.value functions environment >>= fun b =>
    function.value functions a b) = (l.value functions swapped >>= fun a =>
      r.value functions swapped >>= fun b => function.value functions a b)
  rw [hmirrored.left, hmirrored.right]
  exact bind_swap _ _ _ hcomm

/-- A function of both sides keeps its value where another function of it is symmetric. -/
theorem Mirrored.unary_binary (hmirrored : Mirrored functions environment swapped l r)
    {outer : Unary} {inner : Binary}
    (hcomm : ∀ a b, (inner.value functions a b >>= outer.value functions) =
      (inner.value functions b a >>= outer.value functions)) :
    (Operand.unary outer (.binary inner l r)).Fixed functions environment swapped := by
  show ((l.value functions environment >>= fun a => r.value functions environment >>= fun b =>
    inner.value functions a b) >>= outer.value functions) =
      ((l.value functions swapped >>= fun a => r.value functions swapped >>= fun b =>
        inner.value functions a b) >>= outer.value functions)
  rw [hmirrored.left, hmirrored.right]
  simp only [bind_assoc]
  exact bind_swap _ _ _ hcomm

theorem Operand.Fixed.binary {first second : Operand}
    (hfirst : first.Fixed functions environment swapped)
    (hsecond : second.Fixed functions environment swapped) (function : Binary) :
    (Operand.binary function first second).Fixed functions environment swapped := by
  show (_ >>= fun a => _ >>= fun b => function.value functions a b) = _
  rw [hfirst, hsecond]
  rfl

theorem Operand.Fixed.compare {first second : Operand}
    (hfirst : first.Fixed functions environment swapped)
    (hsecond : second.Fixed functions environment swapped) (comparator : Comparator) :
    (Condition.compare comparator first second).Fixed functions environment swapped := by
  show (_ >>= fun a => _ >>= fun b => comparator.truth a b) = _
  rw [hfirst, hsecond]
  rfl

theorem eq_truth_swap (a b : Option Scalar) : Comparator.eq.truth a b =
    Comparator.eq.truth b a := by
  cases a with
  | none => cases b <;> rfl
  | some a =>
      cases b with
      | none => rfl
      | some b =>
          show Except.ok (some (decide (a = b))) = Except.ok (some (decide (b = a)))
          rw [decide_eq_decide.mpr eq_comm]

/-- Equations may be turned around. -/
theorem truth_equal_swap (first second : Operand) :
    (equal first second).truth functions environment =
      (equal second first).truth functions environment :=
  bind_swap _ _ _ eq_truth_swap

theorem truth_equal_congr {first second first' second' : Operand}
    (hfirst : first.value functions environment = first'.value functions swapped)
    (hsecond : second.value functions environment = second'.value functions swapped) :
    (equal first second).truth functions environment =
      (equal first' second').truth functions swapped := by
  show (_ >>= fun a => _ >>= fun b => Comparator.eq.truth a b) = _
  rw [hfirst, hsecond]
  rfl

theorem Mirrored.equal (hmirrored : Mirrored functions environment swapped l r) :
    (equal l r).Fixed functions environment swapped :=
  (truth_equal_congr hmirrored.left hmirrored.right).trans (truth_equal_swap r l)

theorem Condition.Fixed.and {first second : Condition}
    (hfirst : first.Fixed functions environment swapped)
    (hsecond : second.Fixed functions environment swapped) :
    (Condition.and first second).Fixed functions environment swapped := by
  show (_ >>= fun p => _ >>= fun q => pure (sqlAnd p q)) = _
  rw [hfirst, hsecond]
  rfl

/-- Conjuncts that change places. -/
theorem and_fixed_of_swap {first second : Condition}
    (hfirst : first.truth functions environment = second.truth functions swapped)
    (hsecond : second.truth functions environment = first.truth functions swapped) :
    (Condition.and first second).Fixed functions environment swapped := by
  show (first.truth functions environment >>= fun p => second.truth functions environment >>=
    fun q => pure (sqlAnd p q)) = (first.truth functions swapped >>= fun p =>
      second.truth functions swapped >>= fun q => pure (sqlAnd p q))
  rw [hfirst, hsecond]
  exact bind_swap _ _ _ fun p q => congrArg pure (sqlAnd_comm p q)

/-- Of three conjuncts the last two change places. -/
theorem and_and_fixed_of_swap {first second third : Condition}
    (hfirst : first.Fixed functions environment swapped)
    (hsecond : second.truth functions environment = third.truth functions swapped)
    (hthird : third.truth functions environment = second.truth functions swapped) :
    (Condition.and (.and first second) third).Fixed functions environment swapped := by
  show ((first.truth functions environment >>= fun p => second.truth functions environment >>=
    fun q => pure (sqlAnd p q)) >>= fun p => third.truth functions environment >>= fun q =>
      pure (sqlAnd p q)) = ((first.truth functions swapped >>= fun p =>
        second.truth functions swapped >>= fun q => pure (sqlAnd p q)) >>= fun p =>
          third.truth functions swapped >>= fun q => pure (sqlAnd p q))
  rw [hfirst, hsecond, hthird]
  simp only [bind_assoc, pure_bind]
  apply congrArg
  funext p
  exact bind_swap _ _ _ fun q r => congrArg pure (sqlAnd_right_comm p q r)

theorem Mirrored.isNotNull (hmirrored : Mirrored functions environment swapped l r) :
    (Condition.isNotNull l).truth functions environment =
        (Condition.isNotNull r).truth functions swapped ∧
      (Condition.isNotNull r).truth functions environment =
        (Condition.isNotNull l).truth functions swapped := by
  apply And.intro
  · rw [Condition.truth, Condition.truth, hmirrored.left]
  · rw [Condition.truth, Condition.truth, hmirrored.right]

theorem fixed_double (x : Double) : (Operand.double x).Fixed functions environment swapped := rfl

theorem fixed_integer (n : ℕ) : (Operand.integer n).Fixed functions environment swapped := rfl

end Forms

/-- A form in which two columns are put: it refers to both and to nothing else, it holds the given
numbers, and it is symmetric. -/
structure TwoSided (functions : Functions) (numbers : List Double)
    (form : Operand → Operand → Condition) : Prop where
  references : ∀ a b reference,
    reference ∈ (form (.column a) (.column b)).references ↔ reference = a ∨ reference = b
  numbers : ∀ a b, (form (.column a) (.column b)).doubles = numbers
  fixed : ∀ {environment swapped l r}, Mirrored functions environment swapped l r →
    (form l r).Fixed functions environment swapped

/-! ## The forms of the levels -/

section Levels

variable (functions : Functions)

theorem twoSided_equal : TwoSided functions [] equal where
  references a b reference := by simp [equal, Condition.references, Operand.references]
  numbers a b := rfl
  fixed hmirrored := hmirrored.equal

theorem twoSided_equal_unary (function : Unary) :
    TwoSided functions [] fun l r => equal (.unary function l) (.unary function r) where
  references a b reference := by simp [equal, Condition.references, Operand.references]
  numbers a b := rfl
  fixed hmirrored := (hmirrored.unary function).equal

theorem jaroWinklerSimilarity_swap (a b : Option Scalar) :
    Binary.jaroWinklerSimilarity.value functions a b =
      Binary.jaroWinklerSimilarity.value functions b a := by
  rcases a with _ | a <;> rcases b with _ | b <;> try rfl
  cases a <;> cases b <;> try rfl
  simp only [Binary.value, Binary.apply, functions.jaroWinklerSimilarity_comm]

theorem levenshtein_swap (a b : Option Scalar) :
    Binary.levenshtein.value functions a b = Binary.levenshtein.value functions b a := by
  rcases a with _ | a <;> rcases b with _ | b <;> try rfl
  cases a <;> cases b <;> try rfl
  simp only [Binary.value, Binary.apply, functions.levenshtein_comm]

theorem greatest_swap (a b : Option Scalar) :
    Binary.greatest.value functions a b = Binary.greatest.value functions b a := by
  rcases a with _ | a <;> rcases b with _ | b <;> try rfl
  cases a <;> cases b <;> try rfl
  simp only [Binary.value, Binary.apply, max_comm]

/-- The number of days between two dates. -/
theorem abs_dateDiffDay_swap (a b : Option Scalar) :
    (Binary.dateDiffDay.value functions a b >>= Unary.abs.value functions) =
      (Binary.dateDiffDay.value functions b a >>= Unary.abs.value functions) := by
  rcases a with _ | a <;> rcases b with _ | b <;> try rfl
  cases a <;> cases b <;> try rfl
  show Except.ok (some (Scalar.integer |_ - _|)) = Except.ok (some (Scalar.integer |_ - _|))
  rw [abs_sub_comm]

theorem abs_minus_swap (a b : Option Scalar) :
    (Binary.minus.value functions a b >>= Unary.abs.value functions) =
      (Binary.minus.value functions b a >>= Unary.abs.value functions) := by
  rcases a with _ | a <;> rcases b with _ | b <;> try rfl
  cases a <;> cases b <;> try rfl
  show Except.ok (some (Scalar.double (Double.abs _))) =
    Except.ok (some (Scalar.double (Double.abs _)))
  rw [Double.abs_sub_swap]

theorem length_listIntersect_swap (first second : List (Option String)) :
    (listIntersect first second).length = (listIntersect second first).length := by
  apply List.Perm.length_eq
  apply (List.perm_ext_iff_of_nodup ?_ ?_).mpr
  · intro element
    simp only [listIntersect, List.mem_filter, List.mem_dedup, decide_eq_true_eq]
    tauto
  · exact ((List.nodup_dedup _).filter _).filter _
  · exact ((List.nodup_dedup _).filter _).filter _

theorem arrayLength_listIntersect_swap (a b : Option Scalar) :
    (Binary.listIntersect.value functions a b >>= Unary.arrayLength.value functions) =
      (Binary.listIntersect.value functions b a >>= Unary.arrayLength.value functions) := by
  rcases a with _ | a <;> rcases b with _ | b <;> try rfl
  cases a <;> cases b <;> try rfl
  show Except.ok (some (Scalar.integer _)) = Except.ok (some (Scalar.integer _))
  rw [length_listIntersect_swap]

/-- A measure of both sides next to a constant. -/
theorem twoSided_compare_binary {function : Binary}
    (hcomm : ∀ a b, function.value functions a b = function.value functions b a)
    (comparator : Comparator) (x : Double) :
    TwoSided functions [x] fun l r =>
      .compare comparator (.binary function l r) (.double x) where
  references a b reference := by simp [Condition.references, Operand.references]
  numbers a b := rfl
  fixed hmirrored := (hmirrored.binary hcomm).compare (fixed_double x) comparator

theorem twoSided_compare_levenshtein (n : ℕ) :
    TwoSided functions [] fun l r =>
      .compare .le (.binary .levenshtein l r) (.integer n) where
  references a b reference := by simp [Condition.references, Operand.references]
  numbers a b := rfl
  fixed hmirrored := (hmirrored.binary (levenshtein_swap functions)).compare (fixed_integer n) .le

theorem twoSided_compare_unary_binary {outer : Unary} {inner : Binary}
    (hcomm : ∀ a b, (inner.value functions a b >>= outer.value functions) =
      (inner.value functions b a >>= outer.value functions)) (comparator : Comparator) (n : ℕ) :
    TwoSided functions [] fun l r =>
      .compare comparator (.unary outer (.binary inner l r)) (.integer n) where
  references a b reference := by simp [Condition.references, Operand.references]
  numbers a b := rfl
  fixed hmirrored := (hmirrored.unary_binary hcomm).compare (fixed_integer n) comparator

/-- The month of one side is the day of the other, both ways. -/
theorem twoSided_dateTransposed : TwoSided functions [] dateTransposed where
  references a b reference := by
    simp only [dateTransposed, equal, Condition.references, Operand.references, List.mem_append,
      List.mem_singleton]
    tauto
  numbers a b := rfl
  fixed {environment swapped l r} hmirrored := by
    have hmonth := hmirrored.unary .extractMonth
    have hday := hmirrored.unary .extractDay
    apply and_and_fixed_of_swap (hmirrored.unary .extractYear).equal
    · exact (truth_equal_congr hmonth.left hday.right).trans (truth_equal_swap _ _)
    · exact (truth_equal_congr hday.left hmonth.right).trans (truth_equal_swap _ _)

variable {functions} {environment swapped : Reference → Except Refusal (Option Scalar)}
  {l r : Operand}

theorem Mirrored.distance (hmirrored : Mirrored functions environment swapped l r) :
    (distance l r).Fixed functions environment swapped :=
  (hmirrored.unary .tryCastDouble).unary_binary (abs_minus_swap functions)

theorem Mirrored.scale (hmirrored : Mirrored functions environment swapped l r) :
    (scale l r).Fixed functions environment swapped :=
  ((hmirrored.unary .tryCastDouble).unary .abs).binary (greatest_swap functions)

theorem Mirrored.bothNumeric (hmirrored : Mirrored functions environment swapped l r) :
    (bothNumeric l r).Fixed functions environment swapped :=
  have hnull := (hmirrored.unary .tryCastDouble).isNotNull
  and_fixed_of_swap hnull.1 hnull.2

theorem twoSided_numericWithin (tolerance : Double) :
    TwoSided functions [tolerance] fun l r => numericWithin l r tolerance where
  references a b reference := by
    simp only [numericWithin, Compile.bothNumeric, Compile.distance, castDouble,
      Condition.references, Operand.references, List.mem_append, List.mem_singleton]
    tauto
  numbers a b := rfl
  fixed hmirrored :=
    hmirrored.bothNumeric.and (hmirrored.distance.compare (fixed_double tolerance) .le)

theorem twoSided_numericWithinPct (fraction : Double) :
    TwoSided functions [.finite 0, fraction] fun l r => numericWithinPct l r fraction where
  references a b reference := by
    simp only [numericWithinPct, Compile.bothNumeric, Compile.distance, Compile.scale, castDouble,
      Condition.references, Operand.references, List.mem_append, List.mem_singleton]
    tauto
  numbers a b := rfl
  fixed hmirrored :=
    (hmirrored.bothNumeric.and (hmirrored.scale.compare (fixed_double (.finite 0)) .gt)).and
      ((hmirrored.distance.binary hmirrored.scale .divide).compare (fixed_double fraction) .le)

end Levels

end EntityResolution.Compile
