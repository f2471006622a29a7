/-
# The columns of an account

The match keys of company names and of domains, and what happens when they are standardized again.
Of a company name one legal suffix is dropped, of a domain one scheme and one `www.`; what that
leaves can have another one.
-/

import Mathlib
import EntityResolution.Standardize.Domain
import EntityResolution.Standardize.Jamo
import EntityResolution.Standardize.Keys

namespace EntityResolution.Standardize

open Patterns Words

variable {u : Unicode}

/-- `[.,'’&]` -/
def companyPunctuation : CharClass :=
  .among [.char '.', .char ',', .char '\x27', .char '’', .char '&']

/-- A hyphen, a slash or an underscore. -/
def companySeparators : CharClass := .among [.char '-', .char '/', .char '_']

/-- The legal suffixes. -/
def legalSuffixes : List (List Char) :=
  ["inc".toList, "incorporated".toList, "llc".toList, "corp".toList, "corporation".toList,
    "ltd".toList, "limited".toList, "co".toList, "company".toList, "gmbh".toList, "plc".toList,
    "llp".toList, "lp".toList]

/-- A legal suffix at the end. -/
def legalSuffix : Regex := .seq (.one spaceClass) (.seq (.group 1 (.oneOf legalSuffixes)) .finish)

example : legalSuffix.text =
    ("[[:space:]](inc|incorporated|llc|corp|corporation|ltd|limited|co|company|gmbh|plc|llp|lp)$"
      ).toList := by decide

/-- The match key of a company name. -/
def companyNameNorm (u : Unicode) (col : Option (List Char)) : Option (List Char) :=
  let lowered := lowercaseTrim u col
  let folded := folded u lowered
  let depunct := regexpReplaceEach companyPunctuation [] folded
  let spaced := regexpReplaceEach companySeparators [' '] depunct
  let collapsed := (regexpReplaceRuns spaceClass ' ' spaced).map trim
  let desuffixed := (regexpReplace legalSuffix [] collapsed).map trim
  nullSemantics u (nullif desuffixed [])

/-- The punctuation of a company name. -/
def companyMarks : Punctuation where
  dropped := companyPunctuation
  spaced := companySeparators
  disjoint c hc := by
    have hcases : c = '-' ∨ c = '/' ∨ c = '_' := by
      simpa [companySeparators, CharClass.holds, Item.holds] using hc
    rcases hcases with rfl | rfl | rfl <;> rfl
  space_kept := rfl

/-- A text without the legal suffix at its end. -/
def desuffix (text : List Char) : List Char := trim (replaceFirst legalSuffix [] text)

theorem companyNameNorm_eq_keyed :
    companyNameNorm u = keyed u fun text => desuffix (companyMarks.tidy text) := by
  funext col
  rw [companyNameNorm, keyed, regexpReplaceRuns, regexpReplaceEach, regexpReplaceEach,
    regexpReplace, Option.map_map, Option.map_map, Option.map_map, Option.map_map, Option.map_map]
  rfl

/-- Words without the last one, if it is a legal suffix and not the only one. -/
def withoutSuffix (ws : List (List Char)) : List (List Char) :=
  if ws.dropLast ≠ [] ∧ ∃ s ∈ ws.getLast?, s ∈ legalSuffixes then ws.dropLast else ws

theorem withoutSuffix_append {ws : List (List Char)} {s : List Char} (hws : ws ≠ [])
    (hs : s ∈ legalSuffixes) : withoutSuffix (ws ++ [s]) = ws := by
  rw [withoutSuffix, if_pos, List.dropLast_concat]
  exact ⟨by rwa [List.dropLast_concat], s, by simp, hs⟩

/-- Either the last of several words goes, a legal suffix, or all stay. -/
theorem withoutSuffix_cases (ws : List (List Char)) :
    (∃ init s, ws = init ++ [s] ∧ init ≠ [] ∧ s ∈ legalSuffixes ∧ withoutSuffix ws = init) ∨
      (withoutSuffix ws = ws ∧
        ∀ init s, ws = init ++ [s] → init ≠ [] → s ∉ legalSuffixes) := by
  by_cases hsuffix : ∃ init s, ws = init ++ [s] ∧ init ≠ [] ∧ s ∈ legalSuffixes
  · obtain ⟨init, s, rfl, hinit, hs⟩ := hsuffix
    exact .inl ⟨init, s, rfl, hinit, hs, withoutSuffix_append hinit hs⟩
  · refine .inr ⟨?_, fun init s hws hinit hs => hsuffix ⟨init, s, hws, hinit, hs⟩⟩
    rw [withoutSuffix, if_neg]
    rintro ⟨hne, s, hlast, hs⟩
    exact hsuffix ⟨_, s, (List.dropLast_append_getLast? s hlast).symm, hne, hs⟩

theorem isWord_of_mem_legalSuffixes {s : List Char} (hs : s ∈ legalSuffixes) :
    IsWord isSpace s ∧ ∀ c ∈ s, IsAscii c := by
  have hall : (legalSuffixes.all fun s => !s.isEmpty && s.all fun c =>
      !isSpace c && decide (IsAscii c)) = true := by decide
  have hsuffix := List.all_eq_true.mp hall s hs
  simp only [Bool.and_eq_true, List.all_eq_true, Bool.not_eq_true', List.isEmpty_eq_false_iff,
    decide_eq_true_eq] at hsuffix
  exact ⟨⟨hsuffix.1, fun c hc => (hsuffix.2 c hc).1⟩, fun c hc => (hsuffix.2 c hc).2⟩

theorem accepts_legalSuffix {b : Bool} {part rest : List Char} :
    Accepts legalSuffix b part rest ↔
      ∃ c s, part = c :: s ∧ isSpace c = true ∧ s ∈ legalSuffixes ∧ rest = [] := by
  constructor
  · rintro ⟨_, _, rfl, ⟨c, hc, rfl⟩, s, _, rfl, hs, rfl, rfl⟩
    rw [spaceClass_holds] at hc
    exact ⟨c, s, by simp, hc, accepts_oneOf.mp hs, rfl⟩
  · rintro ⟨c, s, rfl, hc, hs, rfl⟩
    rw [← spaceClass_holds] at hc
    exact ⟨[c], s, rfl, ⟨c, hc, rfl⟩, s, [], (List.append_nil s).symm, accepts_oneOf.mpr hs,
      rfl, rfl⟩

/-- Of joined words the last one goes when it is a legal suffix. -/
theorem desuffix_unwords {ws : List (List Char)} (hws : ∀ w ∈ ws, IsWord isSpace w) :
    desuffix (unwords ' ' ws) = unwords ' ' (withoutSuffix ws) := by
  have htrim : ∀ {vs : List (List Char)}, (∀ w ∈ vs, IsWord isSpace w) →
      trim (unwords ' ' vs) = unwords ' ' vs := by
    intro vs hvs
    rw [trim, trim_eq_self_iff]
    have hends := unwords_ends ' ' hvs
    exact ⟨fun c hc => ne_space_of_isSpace (hends.1 c hc),
      fun c hc => ne_space_of_isSpace (hends.2 c hc)⟩
  rw [desuffix]
  rcases replaceFirst_cases legalSuffix [] (unwords ' ' ws) with ⟨hsame, hnone⟩ |
    ⟨before, part, rest, htext, haccepts, -, hreplaced⟩
  · rcases withoutSuffix_cases ws with ⟨init, s, rfl, hinit, hs, -⟩ | ⟨hkeep, -⟩
    · refine absurd (accepts_legalSuffix.mpr ⟨' ', s, rfl, rfl, hs, rfl⟩)
        (hnone (unwords ' ' init) (' ' :: s) [] ?_)
      rw [unwords_append_singleton hinit, List.append_nil]
    · rw [hsame, hkeep, htrim hws]
  · obtain ⟨c, s, rfl, hc, hs, rfl⟩ := accepts_legalSuffix.mp haccepts
    rw [List.append_nil] at htext
    -- The words before the suffix are the words of what stands before it.
    have hwords : ws = words isSpace before ++ [s] := by
      have hjoined : words isSpace (unwords ' ' ws) = ws := words_unwords rfl hws
      rw [← hjoined, htext, words_append_cons hc,
        words_of_isWord (isWord_of_mem_legalSuffixes hs).1]
    have hne : words isSpace before ≠ [] := by
      intro hnil
      have hlength := congrArg List.length htext
      rw [hwords, hnil, List.nil_append, unwords_singleton, List.length_append,
        List.length_cons] at hlength
      omega
    have hbefore : before = unwords ' ' (words isSpace before) := by
      have hsplit := htext
      rw [hwords, unwords_append_singleton hne] at hsplit
      exact (List.append_inj_left' hsplit rfl).symm
    have hkeep : withoutSuffix ws = words isSpace before := by
      rw [hwords]
      exact withoutSuffix_append hne hs
    rw [hreplaced, List.append_nil, List.append_nil, hkeep]
    exact (congrArg trim hbefore).trans (htrim fun _ => isWord_of_mem_words)

theorem withoutSuffix_again_iff (ws : List (List Char)) :
    withoutSuffix (withoutSuffix ws) = withoutSuffix ws ↔
      ¬ ∃ name s t, ws = name ++ [s, t] ∧ name ≠ [] ∧ s ∈ legalSuffixes ∧ t ∈ legalSuffixes := by
  rcases withoutSuffix_cases ws with ⟨init, t, rfl, hinit, ht, hinitEq⟩ | ⟨hkeep, hnone⟩
  · rw [hinitEq]
    rcases withoutSuffix_cases init with ⟨name, s, rfl, hname, hs, hnameEq⟩ | ⟨hkeep, hnone⟩
    · rw [hnameEq]
      refine iff_of_false (fun h => ?_) (not_not.mpr ⟨name, s, t, by simp, hname, hs, ht⟩)
      have hlength := congrArg List.length h
      rw [List.length_append, List.length_singleton] at hlength
      omega
    · refine iff_of_true hkeep ?_
      rintro ⟨name, s, t', heq, hname, hs, -⟩
      have heq' : init ++ [t] = (name ++ [s]) ++ [t'] := by rw [heq]; simp
      exact hnone name s (List.append_inj_left' heq' rfl) hname hs
  · rw [hkeep]
    refine iff_of_true hkeep ?_
    rintro ⟨name, s, t, heq, -, -, ht⟩
    exact hnone (name ++ [s]) t (by rw [heq]; simp) (by simp) ht

theorem withoutSuffix_subset (ws : List (List Char)) : withoutSuffix ws ⊆ ws := by
  rcases withoutSuffix_cases ws with ⟨init, s, rfl, -, -, heq⟩ | ⟨heq, -⟩
  · rw [heq]
    exact List.subset_append_left _ _
  · rw [heq]
    exact List.Subset.refl ws

theorem isNfc_withoutSuffix_iff {ws : List (List Char)} :
    u.IsNfc (unwords ' ' (withoutSuffix ws)) ↔ u.IsNfc (unwords ' ' ws) := by
  rcases withoutSuffix_cases ws with ⟨init, s, rfl, hinit, hs, heq⟩ | ⟨heq, -⟩
  · rw [heq, unwords_append_singleton hinit]
    refine ⟨fun hnfc => u.isNfc_append_cons (.inl rfl) hnfc
      (u.isNfc_ascii (isWord_of_mem_legalSuffixes hs).2), fun hnfc => ?_⟩
    exact u.isNfc_of_isInfix hnfc (List.prefix_append _ _).isInfix
  · rw [heq]

/-- The key of a company name is stable exactly when no two characters of the folded text compose
that only dropped punctuation keeps apart, and what follows its first word does not end with two
legal suffixes. -/
theorem companyNameNorm_stable_iff (u : Unicode) (text : List Char) :
    companyNameNorm u (companyNameNorm u (some text)) = companyNameNorm u (some text) ↔
      ∀ name, folded u (lowercaseTrim u (some text)) = some name →
        companyMarks.Parted u name ∧ ¬ ∃ ws s t, companyMarks.pieces name = ws ++ [s, t] ∧
          ws ≠ [] ∧ s ∈ legalSuffixes ∧ t ∈ legalSuffixes := by
  have hkey : ∀ name, desuffix (companyMarks.tidy name) =
      unwords ' ' (withoutSuffix (companyMarks.pieces name)) := fun name => by
    rw [Punctuation.tidy_eq_unwords,
      desuffix_unwords (Punctuation.isWord_of_mem (List.Subset.refl _))]
  have hsubset : ∀ name, withoutSuffix (companyMarks.pieces name) ⊆ companyMarks.pieces name :=
    fun name => withoutSuffix_subset _
  have hlength : ∀ name, (desuffix (companyMarks.tidy name)).length ≤ name.length := fun name =>
    (length_trim_le _ _).trans ((length_replaceFirst_nil_le _ _).trans
      Punctuation.length_tidy_le)
  rw [companyNameNorm_eq_keyed, keyed_stable_iff hlength fun name hlower hplain => by
    rw [hkey]
    exact Punctuation.foldable_joined (hsubset name) hlower hplain]
  refine forall₂_congr fun name hname => ?_
  have hnfc : u.IsNfc (desuffix (companyMarks.tidy name)) ↔ companyMarks.Parted u name := by
    rw [hkey, isNfc_withoutSuffix_iff, ← Punctuation.tidy_eq_unwords,
      Punctuation.isNfc_tidy_iff (of_folded hname).2]
  have hagain : desuffix (companyMarks.tidy (desuffix (companyMarks.tidy name))) =
      desuffix (companyMarks.tidy name) ↔
        withoutSuffix (withoutSuffix (companyMarks.pieces name)) =
          withoutSuffix (companyMarks.pieces name) := by
    have hjoined := Punctuation.pieces_joined (hsubset name)
    rw [hkey (desuffix _), hkey name, hjoined]
    refine ⟨fun h => ?_, fun h => by rw [h]⟩
    have hwords := congrArg (words isSpace) h
    have hsubset' := List.Subset.trans (withoutSuffix_subset _) (hsubset name)
    rwa [words_unwords rfl (Punctuation.isWord_of_mem hsubset'),
      words_unwords rfl (Punctuation.isWord_of_mem (hsubset name))] at hwords
  rw [hnfc, hagain, withoutSuffix_again_iff]
  refine ⟨fun h => ?_, fun h _ => h⟩
  by_cases hsentinel : desuffix (companyMarks.tidy name) ∈ nullSentinels
  · refine ⟨hnfc.mp (u.isNfc_ascii (isAscii_of_mem_nullSentinels hsentinel)), ?_⟩
    rintro ⟨ws, s, t, hpieces, hws, hs, ht⟩
    -- What is left would have two words, and no text that stands for a missing value has.
    have hspaces : ∀ text ∈ nullSentinels, ' ' ∉ text := by decide
    have hleft : companyMarks.pieces name = (ws ++ [s]) ++ [t] := by rw [hpieces]; simp
    refine hspaces _ hsentinel ?_
    rw [hkey, hleft, withoutSuffix_append (by simp) ht, unwords_append_singleton hws]
    exact List.mem_append_right _ List.mem_cons_self
  · exact h hsentinel

/-- The key of a company name is stable exactly when no two characters of its folded text compose
that only dropped punctuation keeps apart and it does not end, after a first word, with two legal
suffixes; the key of a domain exactly when its host stands for a missing value, or has no space at
its ends and begins with no scheme and no `www.`. -/
theorem account_keys_stable_iff (u : Unicode) (text : List Char) :
    (companyNameNorm u (companyNameNorm u (some text)) = companyNameNorm u (some text) ↔
      ∀ name, folded u (lowercaseTrim u (some text)) = some name →
        companyMarks.Parted u name ∧ ¬ ∃ ws s t, companyMarks.pieces name = ws ++ [s, t] ∧
          ws ≠ [] ∧ s ∈ legalSuffixes ∧ t ∈ legalSuffixes) ∧
    (domainNorm u (domainNorm u (some text)) = domainNorm u (some text) ↔
      ∀ address, lowercaseTrim u (some text) = some address →
        ∀ p : AddressParts, p.Of address → trim p.host ∈ nullSentinels ∨
          (trim p.host = p.host ∧ (∀ s ∈ schemes, ¬ s <+: p.host) ∧
            ¬ "www.".toList <+: p.host)) :=
  ⟨companyNameNorm_stable_iff u text, domainNorm_stable_iff u text⟩

/-- A second legal suffix and a second `www.` go the second time, with Unicode steps that are
idempotent. -/
theorem second_suffix_and_www_go_later :
    (∀ text, lowerTrim Jamo.unicode (lowerTrim Jamo.unicode text) = lowerTrim Jamo.unicode text) ∧
    (∀ text, fold Jamo.unicode (fold Jamo.unicode text) = fold Jamo.unicode text) ∧
    companyNameNorm Jamo.unicode (some "Acme Co Inc".toList) = some "acme co".toList ∧
    companyNameNorm Jamo.unicode (some "acme co".toList) = some "acme".toList ∧
    companyNameNorm Jamo.unicode (companyNameNorm Jamo.unicode (some "Acme Co Inc".toList)) ≠
      companyNameNorm Jamo.unicode (some "Acme Co Inc".toList) ∧
    domainNorm Jamo.unicode (some "www.www.x.com".toList) = some "www.x.com".toList ∧
    domainNorm Jamo.unicode (some "www.x.com".toList) = some "x.com".toList ∧
    domainNorm Jamo.unicode (domainNorm Jamo.unicode (some "www.www.x.com".toList)) ≠
      domainNorm Jamo.unicode (some "www.www.x.com".toList) := by
  refine ⟨Jamo.lowerTrim_lowerTrim, Jamo.fold_fold, ?_, ?_, ?_, ?_, ?_, ?_⟩
  all_goals decide

end EntityResolution.Standardize
