/-
# Texts

The text functions of the database that the standardization is written in, the Unicode operations
among them through what is known of them, and the two steps that every standardized column begins
and ends with: a text is trimmed and lowered, and what stands for a missing value is dropped.
-/

import Mathlib
import EntityResolution.Foundations.Patterns

namespace EntityResolution.Standardize

open Patterns

/-- Texts are compared character by character. -/
instance lawfulBEq_text : LawfulBEq (List Char) :=
  inferInstance

/-- The Unicode operations of the database. -/
structure UnicodeOperations where
  nfcNormalize : List Char → List Char
  lower : List Char → List Char
  toUppercase : List Char → List Char
  stripAccents : List Char → List Char

namespace UnicodeOperations

variable (ops : UnicodeOperations)

/-- A character that lowering leaves alone. -/
def IsLower (c : Char) : Prop := ops.lower [c] = [c]

/-- A character without accents that stands for itself. -/
def Plain (c : Char) : Prop := ops.nfcNormalize [c] = [c] ∧ ops.stripAccents [c] = [c]

/-- A text in normal form C. -/
def IsNfc (text : List Char) : Prop := ops.nfcNormalize text = text

end UnicodeOperations

/-- A character of ASCII. -/
def IsAscii (c : Char) : Prop := c.toNat < 128

instance : DecidablePred IsAscii := fun c => inferInstanceAs (Decidable (c.toNat < 128))

/-- What is known of the Unicode operations. -/
structure Unicode extends UnicodeOperations where
  /-- Normalizing gives a text in normal form. -/
  isNfc_nfcNormalize (text : List Char) : toUnicodeOperations.IsNfc (nfcNormalize text)
  /-- The normal form is closed under parts. -/
  isNfc_of_isInfix {text part : List Char} : toUnicodeOperations.IsNfc text → part <:+: text →
    toUnicodeOperations.IsNfc part
  /-- A text of ASCII is in normal form. -/
  isNfc_ascii {text : List Char} : (∀ c ∈ text, IsAscii c) → toUnicodeOperations.IsNfc text
  /-- A space and an at sign compose with nothing. -/
  isNfc_append_cons {text rest : List Char} {c : Char} : c = ' ' ∨ c = '@' →
    toUnicodeOperations.IsNfc text → toUnicodeOperations.IsNfc rest →
    toUnicodeOperations.IsNfc (text ++ c :: rest)
  /-- Plain characters compose with their neighbours only. -/
  isNfc_of_neighbours {text : List Char} : (∀ c ∈ text, toUnicodeOperations.Plain c) →
    (∀ a b, [a, b] <:+: text → toUnicodeOperations.IsNfc [a, b]) → toUnicodeOperations.IsNfc text
  /-- Composing plain characters makes the text shorter. -/
  length_nfcNormalize_lt {text : List Char} : (∀ c ∈ text, toUnicodeOperations.Plain c) →
    ¬ toUnicodeOperations.IsNfc text → (nfcNormalize text).length < text.length
  /-- Plain characters compose to plain characters. -/
  plain_of_mem_nfcNormalize {text : List Char} : (∀ c ∈ text, toUnicodeOperations.Plain c) →
    ∀ c ∈ nfcNormalize text, toUnicodeOperations.Plain c
  /-- Lowering gives characters that it leaves alone. -/
  isLower_of_mem_lower {text : List Char} {c : Char} : c ∈ lower text →
    toUnicodeOperations.IsLower c
  /-- Lowering leaves a text alone if it leaves its characters alone. -/
  lower_eq_self {text : List Char} : (∀ c ∈ text, toUnicodeOperations.IsLower c) →
    lower text = text
  /-- Lowering changes letters only. -/
  isLower_ascii {c : Char} : IsAscii c → c.isUpper = false → toUnicodeOperations.IsLower c
  /-- The normal form of a lower text is lower. -/
  isLower_of_mem_nfcNormalize {text : List Char} :
    (∀ c ∈ text, toUnicodeOperations.IsLower c) →
    ∀ c ∈ nfcNormalize text, toUnicodeOperations.IsLower c
  /-- Without its accents a lower text is lower. -/
  isLower_of_mem_stripAccents {text : List Char} :
    (∀ c ∈ text, toUnicodeOperations.IsLower c) →
    ∀ c ∈ stripAccents text, toUnicodeOperations.IsLower c
  /-- ASCII has no accents. -/
  stripAccents_ascii {text : List Char} : (∀ c ∈ text, IsAscii c) → stripAccents text = text
  /-- What is left without the accents is plain. -/
  plain_of_mem_stripAccents {text : List Char} {c : Char} :
    c ∈ nfcNormalize (stripAccents text) → toUnicodeOperations.Plain c
  /-- Plain characters have no accents to lose. -/
  nfcNormalize_stripAccents {text : List Char} : (∀ c ∈ text, toUnicodeOperations.Plain c) →
    nfcNormalize (stripAccents text) = nfcNormalize text

/-- A text without the spaces (U+0020) at its ends. No other white space goes: the one-argument
`trim` of the database is read as the trim of spaces that the address parser names. -/
def trim (text : List Char) : List Char := Words.trim (· = ' ') text

theorem trim_isInfix (text : List Char) : trim text <:+: text := Words.trim_isInfix _ _

/-- A value, or none if it is the other one. -/
def nullif (col : Option (List Char)) (other : List Char) : Option (List Char) :=
  col.filter (· ≠ other)

theorem nullif_eq_some_iff {col : Option (List Char)} {other text : List Char} :
    nullif col other = some text ↔ col = some text ∧ text ≠ other := by
  rw [nullif, Option.filter_eq_some_iff, decide_eq_true_iff]

theorem nullif_some (text other : List Char) :
    nullif (some text) other = if text = other then none else some text := by
  rw [nullif, Option.filter_some]
  by_cases h : text = other
  · rw [if_pos h, if_neg (by simp [h])]
  · rw [if_neg h, if_pos (by simp [h])]

/-- The first match of a pattern replaced. -/
def regexpReplace (r : Regex) (by' : List Char) (col : Option (List Char)) : Option (List Char) :=
  col.map (replaceFirst r by')

/-- Every character of a class replaced. -/
def regexpReplaceEach (c : CharClass) (by' : List Char) (col : Option (List Char)) :
    Option (List Char) :=
  col.map (c.replaceEach by')

/-- Every run of a class replaced. -/
def regexpReplaceRuns (c : CharClass) (by' : Char) (col : Option (List Char)) :
    Option (List Char) :=
  col.map (c.replaceRuns by')

/-- What a group of the first match took, an empty text without a match. -/
def regexpExtract (r : Regex) (number : ℕ) (col : Option (List Char)) : Option (List Char) :=
  col.map (extract r number)

/-- `[[:space:]]` -/
def spaceClass : CharClass := .among [.space]

theorem spaceClass_holds : spaceClass.holds = isSpace := by
  funext c
  simp [spaceClass, CharClass.holds, Item.holds]

theorem ne_space_of_isSpace {c : Char} (hc : isSpace c = false) : decide (c = ' ') = false := by
  refine decide_eq_false ?_
  rintro rfl
  exact Bool.noConfusion hc

section

variable (u : Unicode)

/-- A text normalized, trimmed, lowered and normalized again. -/
def lowerTrim (text : List Char) : List Char :=
  u.nfcNormalize (u.lower (trim (u.nfcNormalize text)))

/-- A lowered and trimmed text; an empty one is absent. -/
def lowercaseTrim (col : Option (List Char)) : Option (List Char) :=
  nullif (col.map (lowerTrim u)) []

/-- The texts that stand for a missing value. -/
def nullSentinels : List (List Char) :=
  [[], "null".toList, "n/a".toList, "-".toList, "unknown".toList]

/-- The texts that stand for a missing value are dropped; any other is kept as it is. -/
def nullSemantics (col : Option (List Char)) : Option (List Char) :=
  col.bind fun text => if u.lower (trim text) ∈ nullSentinels then none else some text

/-- A text without its accents, normalized. -/
def fold (text : List Char) : List Char := u.nfcNormalize (u.stripAccents text)

/-- Accents folded. -/
def folded (col : Option (List Char)) : Option (List Char) := col.map (fold u)

end

variable {u : Unicode} {text : List Char}

/-- A text that trimming and lowering leave alone. -/
structure Lowered (u : Unicode) (text : List Char) : Prop where
  isLower : ∀ c ∈ text, u.IsLower c
  trimmed : trim text = text

theorem Lowered.lowercaseTrim (hlowered : Lowered u text) (hnfc : u.IsNfc text) :
    lowercaseTrim u (some text) = nullif (some text) [] := by
  have hself : lowerTrim u text = text := by
    rw [lowerTrim, hnfc, hlowered.trimmed, u.lower_eq_self hlowered.isLower, hnfc]
  rw [Standardize.lowercaseTrim, Option.map_some, hself]

theorem Lowered.nullSemantics (hlowered : Lowered u text) :
    nullSemantics u (nullif (some text) []) =
      if text ∈ nullSentinels then none else some text := by
  have hlower : u.lower (trim text) = text := by
    rw [hlowered.trimmed, u.lower_eq_self hlowered.isLower]
  by_cases hempty : text = []
  · rw [hempty]
    rfl
  · have hpresent : nullif (some text) [] = some text :=
      Option.filter_eq_some_iff.mpr ⟨rfl, decide_eq_true hempty⟩
    rw [hpresent, Standardize.nullSemantics, Option.bind_some, hlower]

/-- What lowering and trimming give is lower and in normal form. -/
theorem of_lowercaseTrim {col : Option (List Char)} (hlowered : lowercaseTrim u col = some text) :
    u.IsNfc text ∧ (∀ c ∈ text, u.IsLower c) ∧ text ≠ [] := by
  obtain ⟨hpresent, hne⟩ := nullif_eq_some_iff.mp hlowered
  obtain ⟨input, -, rfl⟩ := Option.map_eq_some_iff.mp hpresent
  exact ⟨u.isNfc_nfcNormalize _, u.isLower_of_mem_nfcNormalize fun _ => u.isLower_of_mem_lower,
    hne⟩

theorem eq_of_nullSemantics {col : Option (List Char)}
    (hpresent : nullSemantics u (nullif col []) = some text) : col = some text := by
  rw [nullSemantics, Option.bind_eq_some_iff] at hpresent
  obtain ⟨text', hcol, hpresent⟩ := hpresent
  split_ifs at hpresent
  rw [Option.some_inj.mp hpresent] at hcol
  exact (nullif_eq_some_iff.mp hcol).1

theorem isAscii_of_mem_nullSentinels (hsentinel : text ∈ nullSentinels) :
    ∀ c ∈ text, IsAscii c := by
  have hall : (nullSentinels.all fun text => text.all fun c => decide (IsAscii c)) = true := by
    decide
  have htext := List.all_eq_true.mp hall text hsentinel
  exact fun c hc => of_decide_eq_true (List.all_eq_true.mp htext c hc)

end EntityResolution.Standardize
