/-
# Delimiter joins and tagged digests

Values joined by a separator, without escaping, tell how the joined text splits but not where one
value ends and the next begins. Two lists of values of the same length have the same join exactly
when they split into the same pieces, and they are equal when, besides, every value holds as many
separators in one list as in the other.

Digests of one width need no separator: a list of optional digests under a fixed width, with one
mark for a missing value and another for a present one, can be read back.
-/

import Mathlib

namespace EntityResolution.Joins

universe u v w

variable {A : Type u}

section Joins

variable [DecidableEq A] (sep : A)

/-- The values, one after the other, with the separator between them. -/
def join (values : List (List A)) : List A := [sep].intercalate values

/-- The pieces between separators. -/
def pieces (values : List (List A)) : List (List A) := values.flatMap (List.splitOn sep)

/-- How many separators each value holds. -/
def cuts (values : List (List A)) : List ℕ := values.map (List.count sep)

variable {sep}

/-- A join splits into the pieces of its values. -/
theorem splitOn_join {values : List (List A)} (hne : values ≠ []) :
    (join sep values).splitOn sep = pieces sep values := by
  induction values with
  | nil => exact absurd rfl hne
  | cons head values ih =>
      cases values with
      | nil => rw [join, List.intercalate_singleton, pieces, List.flatMap_singleton]
      | cons second rest =>
          have hjoin : join sep (head :: second :: rest) =
              head ++ sep :: join sep (second :: rest) := by
            rw [join, List.intercalate_cons_cons, List.append_assoc, List.singleton_append]
            rfl
          rw [hjoin, List.splitOn_append_cons_self, ih (List.cons_ne_nil _ _)]
          rfl

theorem splitOn_inj {first second : List A} (hsame : first.splitOn sep = second.splitOn sep) :
    first = second := by
  have hfirst : [sep].intercalate (first.splitOn sep) = first := List.intercalate_splitOn sep
  rw [hsame, List.intercalate_splitOn sep] at hfirst
  exact hfirst.symm

theorem join_eq_join_iff {first second : List (List A)} (hlength : first.length = second.length) :
    join sep first = join sep second ↔ pieces sep first = pieces sep second := by
  by_cases hfirst : first = []
  · rw [hfirst] at hlength ⊢
    rw [List.eq_nil_of_length_eq_zero hlength.symm]
    simp
  · have hsecond : second ≠ [] := by
      intro hnil
      rw [hnil] at hlength
      exact hfirst (List.eq_nil_of_length_eq_zero hlength)
    rw [← splitOn_join hfirst, ← splitOn_join hsecond]
    apply Iff.intro
    · intro hsame
      rw [hsame]
    · exact splitOn_inj

theorem length_splitOn (text : List A) : (text.splitOn sep).length = text.count sep + 1 := by
  induction text with
  | nil => rfl
  | cons head text ih =>
      rw [List.splitOn_cons_eq_if_modifyHead, List.count_cons]
      split
      · rw [List.length_cons, ih]
      · rw [List.length_modifyHead, ih, Nat.add_zero]

theorem eq_of_pieces_eq {first second : List (List A)}
    (hpieces : pieces sep first = pieces sep second) (hcuts : cuts sep first = cuts sep second) :
    first = second := by
  induction first generalizing second with
  | nil =>
      cases second with
      | nil => rfl
      | cons head second => cases hcuts
  | cons head first ih =>
      cases second with
      | nil => cases hcuts
      | cons other second =>
          obtain ⟨hcount, hrest⟩ := List.cons.inj hcuts
          have hlength : (head.splitOn sep).length = (other.splitOn sep).length := by
            rw [length_splitOn, length_splitOn, hcount]
          rw [pieces, pieces, List.flatMap_cons, List.flatMap_cons] at hpieces
          obtain ⟨hhead, htail⟩ := List.append_inj hpieces hlength
          rw [splitOn_inj hhead, ih htail hrest]

theorem pieces_eq_self {values : List (List A)} (hnone : ∀ value ∈ values, sep ∉ value) :
    pieces sep values = values := by
  induction values with
  | nil => rfl
  | cons head values ih =>
      rw [pieces, List.flatMap_cons, List.splitOn_eq_singleton (hnone head List.mem_cons_self),
        List.singleton_append]
      exact congrArg (head :: ·)
        (ih fun value hvalue => hnone value (List.mem_cons_of_mem _ hvalue))

end Joins

section Digests

variable {B : Type v} {digest : B → List A} {missing present : A}

/-- A name under its digest, and the digest of its value if there is one. -/
def tagged (digest : B → List A) (missing present : A) (entry : B × Option B) : List A :=
  digest entry.1 ++ entry.2.elim [missing] fun value => present :: digest value

theorem flatMap_tagged_inj {width : ℕ} (hwidth : ∀ value, (digest value).length = width)
    (htags : missing ≠ present) {hashed : B → Prop}
    (hinj : ∀ first second, hashed first → hashed second → digest first = digest second →
      first = second)
    {first second : List (B × Option B)}
    (hfirst : ∀ entry ∈ first, hashed entry.1 ∧ ∀ value ∈ entry.2, hashed value)
    (hsecond : ∀ entry ∈ second, hashed entry.1 ∧ ∀ value ∈ entry.2, hashed value)
    (hsame : first.flatMap (tagged digest missing present) =
      second.flatMap (tagged digest missing present)) : first = second := by
  have hne : ∀ entry, tagged digest missing present entry ≠ [] := by
    intro entry hnil
    have htail := (List.append_eq_nil_iff.mp hnil).2
    cases hvalue : entry.2 with
    | none =>
        rw [hvalue] at htail
        cases htail
    | some value =>
        rw [hvalue] at htail
        cases htail
  induction first generalizing second with
  | nil =>
      cases second with
      | nil => rfl
      | cons other second =>
          exact absurd (List.append_eq_nil_iff.mp hsame.symm).1 (hne other)
  | cons entry first ih =>
      cases second with
      | nil => exact absurd (List.append_eq_nil_iff.mp hsame).1 (hne entry)
      | cons other second =>
          obtain ⟨name, value⟩ := entry
          obtain ⟨otherName, otherValue⟩ := other
          have hentry := hfirst _ List.mem_cons_self
          have hother := hsecond _ List.mem_cons_self
          rw [List.flatMap_cons, List.flatMap_cons, tagged, tagged, List.append_assoc,
            List.append_assoc] at hsame
          obtain ⟨hnames, hrest⟩ := List.append_inj hsame (by rw [hwidth, hwidth])
          have hname : name = otherName := hinj _ _ hentry.1 hother.1 hnames
          have htail := fun later hlater => hfirst later (List.mem_cons_of_mem _ hlater)
          have hotherTail := fun later hlater => hsecond later (List.mem_cons_of_mem _ hlater)
          -- the mark after the name says whether a value follows
          cases value with
          | none =>
              cases otherValue with
              | none =>
                  rw [hname, ih htail hotherTail (List.cons.inj hrest).2]
              | some otherText => exact absurd (List.cons.inj hrest).1 htags
          | some text =>
              cases otherValue with
              | none => exact absurd (List.cons.inj hrest).1.symm htags
              | some otherText =>
                  rcases List.append_inj (List.cons.inj hrest).2 (by rw [hwidth, hwidth]) with
                    ⟨htexts, hlater⟩
                  have htext : text = otherText :=
                    hinj _ _ (hentry.2 text rfl) (hother.2 otherText rfl) htexts
                  rw [hname, htext,
                    ih htail hotherTail hlater]

end Digests

end EntityResolution.Joins
