/-
# The columns of a person

Names, phone numbers and e-mail addresses as the standardization writes them, and what happens when
they are standardized again. A phone number and an e-mail address stay as they are; a name does
unless dropping its punctuation brings two characters together that compose.
-/

import Mathlib
import EntityResolution.Standardize.Jamo
import EntityResolution.Standardize.Keys

namespace EntityResolution.Standardize

open Patterns Words

variable {u : Unicode}

/-- `[-_]` -/
def nameSeparators : CharClass := .among [.char '-', .char '_']

/-- `[.'’,]` -/
def namePunctuation : CharClass := .among [.char '.', .char '\x27', .char '’', .char ',']

/-- A given or family name: lowered, folded, without punctuation and with single spaces. -/
def nameNorm (u : Unicode) (col : Option (List Char)) : Option (List Char) :=
  let lowered := lowercaseTrim u col
  let folded := folded u lowered
  let separators := regexpReplaceEach nameSeparators [' '] folded
  let punctuated := regexpReplaceEach namePunctuation [] separators
  let collapsed := (regexpReplaceRuns spaceClass ' ' punctuated).map trim
  nullSemantics u (nullif collapsed [])

/-- The punctuation of a name. -/
def nameMarks : Punctuation where
  dropped := namePunctuation
  spaced := nameSeparators
  disjoint c hc := by
    have hcases : c = '-' ∨ c = '_' := by
      simpa [nameSeparators, CharClass.holds, Item.holds] using hc
    rcases hcases with rfl | rfl <;> rfl
  space_kept := rfl

theorem nameNorm_eq_keyed : nameNorm u = keyed u nameMarks.tidy := by
  funext col
  have htidy : nameMarks.tidy = fun text => trim (spaceClass.replaceRuns ' '
      (namePunctuation.replaceEach [] (nameSeparators.replaceEach [' '] text))) := by
    funext text
    exact congrArg (fun text => trim (spaceClass.replaceRuns ' ' text))
      nameMarks.clean_eq_filter_map.symm
  rw [nameNorm, keyed, htidy, regexpReplaceRuns, regexpReplaceEach, regexpReplaceEach,
    Option.map_map, Option.map_map, Option.map_map]
  rfl

/-- A name is stable exactly when in its folded text no two characters compose that only dropped
punctuation keeps apart. -/
theorem nameNorm_stable_iff (u : Unicode) (text : List Char) :
    nameNorm u (nameNorm u (some text)) = nameNorm u (some text) ↔
      ∀ name, folded u (lowercaseTrim u (some text)) = some name → nameMarks.Parted u name := by
  have hsubset : ∀ name, nameMarks.pieces name ⊆ nameMarks.pieces name := fun _ =>
    List.Subset.refl _
  have htidy : ∀ name, nameMarks.tidy (nameMarks.tidy name) = nameMarks.tidy name := by
    intro name
    have hname : nameMarks.tidy name = unwords ' ' (nameMarks.pieces name) :=
      Punctuation.tidy_eq_unwords
    rw [hname, Punctuation.tidy_eq_unwords, Punctuation.pieces_joined (hsubset name)]
  rw [nameNorm_eq_keyed, keyed_stable_iff (fun _ => Punctuation.length_tidy_le)
    fun name hlower hplain => by
      rw [Punctuation.tidy_eq_unwords]
      exact Punctuation.foldable_joined (hsubset name) hlower hplain]
  refine forall₂_congr fun name hname => ?_
  rw [htidy, and_iff_left rfl, ← Punctuation.isNfc_tidy_iff (of_folded hname).2]
  refine ⟨fun h => ?_, fun h _ => h⟩
  by_cases hsentinel : nameMarks.tidy name ∈ nullSentinels
  · exact u.isNfc_ascii (isAscii_of_mem_nullSentinels hsentinel)
  · exact h hsentinel

/-- `[^0-9]` -/
def notDigit : CharClass := .notAmong [.range '0' '9']

/-- A phone number in E.164 and whether it is valid; only the region of the United States has
numbers without a prefix. -/
def phoneE164 (u : Unicode) (col : Option (List Char)) (region : List Char) :
    Option (List Char) × Option Bool :=
  let region := u.toUppercase region
  let present := nullSemantics u (lowercaseTrim u col)
  let rendered := present.bind fun text =>
    let digits := notDigit.replaceEach [] text
    let e164Ok := (7 ≤ digits.length ∧ digits.length ≤ 15) ∧ ¬ ['0'] <+: digits
    if ['+'] <+: text then if e164Ok then some ('+' :: digits) else none
    else if region = "US".toList then
      if digits.length = 10 then some ("+1".toList ++ digits)
      else if digits.length = 11 ∧ ['1'] <+: digits then some ('+' :: digits)
      else none
    else none
  (rendered, present.map fun _ => rendered.isSome)

/-- A number in E.164. -/
def IsE164 (number : List Char) : Prop :=
  ∃ digits, number = '+' :: digits ∧ (∀ c ∈ digits, notDigit.holds c = false) ∧
    (7 ≤ digits.length ∧ digits.length ≤ 15) ∧ ¬ ['0'] <+: digits

theorem isE164_of_phoneE164 {col : Option (List Char)} {region number : List Char}
    (hnumber : (phoneE164 u col region).1 = some number) : IsE164 number := by
  rw [phoneE164, Option.bind_eq_some_iff] at hnumber
  obtain ⟨text, -, hnumber⟩ := hnumber
  have hdigits : ∀ c ∈ notDigit.replaceEach [] text, notDigit.holds c = false := by
    intro c hc
    rw [CharClass.replaceEach_nil] at hc
    simpa using (List.mem_filter.mp hc).2
  dsimp only at hnumber
  split_ifs at hnumber with hplus hok hregion hten heleven
  · exact ⟨_, (Option.some_inj.mp hnumber).symm, hdigits, hok.1, hok.2⟩
  · refine ⟨'1' :: notDigit.replaceEach [] text, (Option.some_inj.mp hnumber).symm, ?_, ?_, ?_⟩
    · exact List.forall_mem_cons.mpr ⟨rfl, hdigits⟩
    · rw [List.length_cons, hten]
      decide
    · rw [List.cons_prefix_cons]
      exact fun h => absurd h.1 (by decide)
  · obtain ⟨heleven, rest, hrest⟩ := heleven
    refine ⟨_, (Option.some_inj.mp hnumber).symm, hdigits, ?_, ?_⟩
    · rw [heleven]
      decide
    · rw [← hrest, List.singleton_append, List.cons_prefix_cons]
      exact fun h => absurd h.1 (by decide)

theorem digit_of_notDigit {c : Char} (hc : notDigit.holds c = false) : '0' ≤ c ∧ c ≤ '9' := by
  simpa [notDigit, CharClass.holds, Item.holds] using hc

theorem isUpper_eq_false {c : Char} (hc : c.toNat < 65) : c.isUpper = false := by
  have hnot : ¬ 65 ≤ c.val.toNat := Nat.not_le.mpr hc
  simpa [Char.isUpper, UInt32.le_iff_toNat_le] using fun h => absurd h hnot

/-- A number in E.164 is lowered, in normal form and present. -/
theorem IsE164.present {number : List Char} (hnumber : IsE164 number) :
    nullSemantics u (lowercaseTrim u (some number)) = some number := by
  obtain ⟨digits, rfl, hdigits, -, -⟩ := hnumber
  have hchars : ∀ c ∈ '+' :: digits, IsAscii c ∧ c.isUpper = false ∧ decide (c = ' ') = false := by
    intro c hc
    rcases List.mem_cons.mp hc with rfl | hc
    · decide
    · obtain ⟨hlow, hhigh⟩ := digit_of_notDigit (hdigits c hc)
      have hlow' : 48 ≤ c.toNat := hlow
      have hhigh' : c.toNat ≤ 57 := hhigh
      refine ⟨Nat.lt_of_le_of_lt hhigh' (by decide), ?_, decide_eq_false ?_⟩
      · exact isUpper_eq_false (Nat.lt_of_le_of_lt hhigh' (by decide))
      · rintro rfl
        exact absurd hlow' (by decide)
  have hlowered : Lowered u ('+' :: digits) := by
    refine ⟨fun c hc => u.isLower_ascii (hchars c hc).1 (hchars c hc).2.1, ?_⟩
    rw [trim, Words.trim_eq_self_iff]
    exact ⟨fun c hc => (hchars c (List.mem_of_mem_head? hc)).2.2,
      fun c hc => (hchars c (List.mem_of_mem_getLast? hc)).2.2⟩
  have hsentinel : '+' :: digits ∉ nullSentinels := by
    have hheads : ∀ text ∈ nullSentinels, text.head? ≠ some '+' := by decide
    exact fun h => hheads _ h rfl
  rw [hlowered.lowercaseTrim (u.isNfc_ascii fun c hc => (hchars c hc).1), hlowered.nullSemantics,
    if_neg hsentinel]

theorem phoneE164_of_isE164 {number : List Char} (hnumber : IsE164 number) (region : List Char) :
    phoneE164 u (some number) region = (some number, some true) := by
  have hpresent : nullSemantics u (lowercaseTrim u (some number)) = some number := hnumber.present
  obtain ⟨digits, rfl, hdigits, hlength, hzero⟩ := hnumber
  have hreplace : notDigit.replaceEach [] ('+' :: digits) = digits := by
    rw [CharClass.replaceEach_nil, List.filter_cons_of_neg (by decide), List.filter_eq_self]
    exact fun c hc => by rw [hdigits c hc]; rfl
  have hplus : ['+'] <+: '+' :: digits := List.cons_prefix_cons.mpr ⟨rfl, List.nil_prefix⟩
  rw [phoneE164, hpresent]
  simp only [Option.bind_some, hreplace, if_pos hplus, if_pos (And.intro hlength hzero),
    Option.map_some, Option.isSome_some]

/-- A `+` with what follows it in the local part. -/
def plusAddressing : Regex :=
  .seq (.one (.among [.char '+'])) (.seq (.star (.notAmong [.char '@'])) (.one (.lit '@')))

/-- A character that an address may hold beside its `@`. -/
def addressChar : CharClass := .notAmong [.char '@', .space]

/-- The form of an address. -/
def emailPattern : Regex :=
  .seq (.plus addressChar) (.seq (.one (.lit '@')) (.seq (.plus addressChar)
    (.seq (.one (.among [.char '.'])) (.plus addressChar))))

example : plusAddressing.text = "[+][^@]*@".toList ∧
    emailPattern.text = "[^@[:space:]]+@[^@[:space:]]+[.][^@[:space:]]+".toList := by decide

/-- An e-mail address and whether it is valid; a placeholder is absent. -/
def emailNorm (u : Unicode) (col : Option (List Char)) (stripPlusAddressing : Bool)
    (placeholders : List (List Char)) : Option (List Char) × Option Bool :=
  let lowered := lowercaseTrim u col
  let normalized :=
    if stripPlusAddressing then regexpReplace plusAddressing ['@'] lowered else lowered
  (normalized.bind fun text =>
      if text ∈ placeholders ∨ ¬ fullMatch emailPattern text = true then none else some text,
    normalized.bind fun text =>
      if text ∈ placeholders then none else some (fullMatch emailPattern text))

theorem addressChar_of_holds {c : Char} (hc : addressChar.holds c = true) :
    c ≠ '@' ∧ isSpace c = false := by
  simpa [addressChar, CharClass.holds, Item.holds] using hc

/-- A valid address has one `@` and no white space at its ends. -/
theorem of_fullMatch_emailPattern {text : List Char} (hvalid : fullMatch emailPattern text = true) :
    (∃ name host, text = name ++ '@' :: host ∧ '@' ∉ name ∧ '@' ∉ host) ∧
      (∀ c, text.head? = some c → isSpace c = false) ∧
      (∀ c, text.getLast? = some c → isSpace c = false) := by
  have hnot : ∀ {part : List Char}, (∀ c ∈ part, addressChar.holds c = true) → '@' ∉ part :=
    fun hpart hmem => (addressChar_of_holds (hpart _ hmem)).1 rfl
  obtain ⟨name, _, rfl, ⟨hname, hnameChars⟩, _, _, rfl, ⟨sign, hsign, rfl⟩, domain, _, rfl,
    ⟨-, hdomainChars⟩, _, top, rfl, ⟨dot, hdot, rfl⟩, htop, htopChars⟩ := fullMatch_iff.mp hvalid
  obtain rfl : sign = '@' := of_decide_eq_true hsign
  obtain rfl : dot = '.' := by simpa [CharClass.holds, Item.holds] using hdot
  refine ⟨⟨name, domain ++ ('.' :: top), rfl, hnot hnameChars, ?_⟩, ?_, ?_⟩
  · rw [List.mem_append, List.mem_cons, not_or, not_or]
    exact ⟨hnot hdomainChars, by decide, hnot htopChars⟩
  · intro c hc
    rw [List.head?_append_of_ne_nil _ hname] at hc
    exact (addressChar_of_holds (hnameChars c (List.mem_of_mem_head? hc))).2
  · intro c hc
    have htail : (['@'] ++ (domain ++ (['.'] ++ top))).getLast? = top.getLast? := by
      rw [List.getLast?_append_of_ne_nil _ (by simp), List.getLast?_append_of_ne_nil _ (by simp),
        List.getLast?_append_of_ne_nil _ htop]
    rw [List.getLast?_append_of_ne_nil _ (by simp), htail] at hc
    exact (addressChar_of_holds (htopChars c (List.mem_of_mem_getLast? hc))).2

/-- What the `+` pattern accepts: a `+`, no `@`, and an `@`. -/
theorem accepts_plusAddressing {s : Bool} {part rest : List Char} :
    Accepts plusAddressing s part rest ↔
      ∃ tag, part = '+' :: tag ++ ['@'] ∧ ∀ c ∈ tag, c ≠ '@' := by
  constructor
  · rintro ⟨_, _, rfl, ⟨plus, hplus, rfl⟩, tag, _, rfl, htag, sign, hsign, rfl⟩
    obtain rfl : plus = '+' := by simpa [CharClass.holds, Item.holds] using hplus
    obtain rfl : sign = '@' := of_decide_eq_true hsign
    exact ⟨tag, rfl, fun c hc => by simpa [CharClass.holds, Item.holds] using htag c hc⟩
  · rintro ⟨tag, rfl, htag⟩
    exact ⟨['+'], _, rfl, ⟨'+', rfl, rfl⟩, tag, ['@'], rfl,
      fun c hc => by simpa [CharClass.holds, Item.holds] using htag c hc, '@', rfl, rfl⟩

/-- Once the tag of a valid address is gone there is no other one. -/
theorem replaceFirst_plusAddressing_again {text : List Char}
    (hvalid : fullMatch emailPattern (replaceFirst plusAddressing ['@'] text) = true) :
    replaceFirst plusAddressing ['@'] (replaceFirst plusAddressing ['@'] text) =
      replaceFirst plusAddressing ['@'] text := by
  obtain ⟨⟨name, host, hsplit, hname, hhost⟩, -, -⟩ := of_fullMatch_emailPattern hvalid
  rcases replaceFirst_cases plusAddressing ['@'] text with ⟨hsame, hnone⟩ | hfound
  · rw [hsame, hsame]
  · obtain ⟨before, part, rest, htext, haccepts, hleft, hreplaced⟩ := hfound
    obtain ⟨tag, rfl, htag⟩ := accepts_plusAddressing.mp haccepts
    refine replaceFirst_eq_self fun before' part' rest' htext' haccepts' => ?_
    obtain ⟨tag', rfl, htag'⟩ := accepts_plusAddressing.mp haccepts'
    -- The result has one `@`, so a tag in it ends where the first one did.
    rw [hreplaced] at hsplit htext'
    have hfirst : name = before := by
      have heq : name ++ '@' :: host = before ++ '@' :: rest := by
        rw [← hsplit, List.append_assoc, List.singleton_append]
      exact ((List.append_cons_inj_of_notMem hname hhost).mp heq).1
    have hsecond : name = before' ++ '+' :: tag' := by
      have heq : name ++ '@' :: host = (before' ++ '+' :: tag') ++ '@' :: rest' := by
        rw [← hsplit, htext']
        simp
      exact ((List.append_cons_inj_of_notMem hname hhost).mp heq).1
    -- Then the pattern accepts further left in the text.
    have hearlier : AcceptsAt plusAddressing true before'
        ('+' :: (tag' ++ '+' :: tag) ++ ['@']) rest := by
      refine accepts_plusAddressing.mpr ⟨_, rfl, fun c hc => ?_⟩
      rcases List.mem_append.mp hc with hc | hc
      · exact htag' c hc
      · rcases List.mem_cons.mp hc with rfl | hc
        · decide
        · exact htag c hc
    have hlength := hleft before' _ rest (by rw [htext, ← hfirst, hsecond]; simp) hearlier
    rw [← hfirst, hsecond, List.length_append, List.length_cons] at hlength
    omega

/-- What is left of a text in normal form without its first tag is in normal form, and of the same
characters. -/
theorem isNfc_replaceFirst_plusAddressing {text : List Char} (hnfc : u.IsNfc text) :
    u.IsNfc (replaceFirst plusAddressing ['@'] text) ∧
      replaceFirst plusAddressing ['@'] text ⊆ text := by
  rcases replaceFirst_cases plusAddressing ['@'] text with ⟨hsame, -⟩ | hfound
  · rw [hsame]
    exact ⟨hnfc, List.Subset.refl _⟩
  · obtain ⟨before, part, rest, rfl, haccepts, -, hreplaced⟩ := hfound
    obtain ⟨tag, rfl, -⟩ := accepts_plusAddressing.mp haccepts
    rw [hreplaced, List.append_assoc, List.singleton_append]
    constructor
    · exact u.isNfc_append_cons (.inr rfl)
        (u.isNfc_of_isInfix hnfc (List.prefix_append _ _).isInfix)
        (u.isNfc_of_isInfix hnfc ((List.suffix_append _ _).trans (List.suffix_append _ _)).isInfix)
    · intro c hc
      simp only [List.mem_append, List.mem_cons] at hc ⊢
      tauto

/-- A present e-mail address is fixed by the same settings and valid. -/
theorem emailNorm_again {col : Option (List Char)} {strip : Bool}
    {placeholders : List (List Char)} {address : List Char}
    (haddress : (emailNorm u col strip placeholders).1 = some address) :
    emailNorm u (some address) strip placeholders = (some address, some true) := by
  rw [emailNorm, Option.bind_eq_some_iff] at haddress
  obtain ⟨address', hnormalized, haddress⟩ := haddress
  split_ifs at haddress with hrefused
  obtain rfl := Option.some_inj.mp haddress
  rw [not_or, not_not] at hrefused
  obtain ⟨hplaceholder, hvalid⟩ := hrefused
  obtain ⟨⟨name, host, hsplit, -, -⟩, hhead, hlast⟩ := of_fullMatch_emailPattern hvalid
  -- The address is in normal form, lower, and without a tag if tags are stripped.
  have hfixed : u.IsNfc address' ∧ (∀ c ∈ address', u.IsLower c) ∧
      (strip = true → replaceFirst plusAddressing ['@'] address' = address') := by
    cases strip with
    | false =>
      rw [if_neg Bool.false_ne_true] at hnormalized
      obtain ⟨hnfc, hlower, -⟩ := of_lowercaseTrim hnormalized
      exact ⟨hnfc, hlower, fun h => absurd h Bool.false_ne_true⟩
    | true =>
      rw [if_pos rfl, regexpReplace, Option.map_eq_some_iff] at hnormalized
      obtain ⟨text, hlowered, rfl⟩ := hnormalized
      obtain ⟨hnfc, hlower, -⟩ := of_lowercaseTrim hlowered
      obtain ⟨hnfc', hsubset⟩ := isNfc_replaceFirst_plusAddressing hnfc
      exact ⟨hnfc', fun c hc => hlower c (hsubset hc), fun _ =>
        replaceFirst_plusAddressing_again hvalid⟩
  obtain ⟨hnfc, hlower, hstrip⟩ := hfixed
  have hlowered : Lowered u address' := by
    refine ⟨hlower, ?_⟩
    rw [trim, Words.trim_eq_self_iff]
    exact ⟨fun c hc => ne_space_of_isSpace (hhead c hc),
      fun c hc => ne_space_of_isSpace (hlast c hc)⟩
  have hpresent : lowercaseTrim u (some address') = some address' := by
    rw [hlowered.lowercaseTrim hnfc]
    refine nullif_eq_some_iff.mpr ⟨rfl, ?_⟩
    rw [hsplit]
    simp
  have hnormalizedAgain : (if strip then
      regexpReplace plusAddressing ['@'] (lowercaseTrim u (some address'))
      else lowercaseTrim u (some address')) = some address' := by
    rw [hpresent]
    split_ifs with hon
    · rw [regexpReplace, Option.map_some, hstrip hon]
    · rfl
  rw [emailNorm, hnormalizedAgain, Option.bind_some, Option.bind_some, if_neg hplaceholder,
    if_neg (not_or.mpr ⟨hplaceholder, not_not.mpr hvalid⟩), hvalid]

/-- A phone number and an e-mail address are fixed and valid again under the same settings, and a
name is fixed exactly when no two characters of its folded text compose that only dropped
punctuation keeps apart. -/
theorem person_stable_iff (u : Unicode) (text : List Char) :
    (nameNorm u (nameNorm u (some text)) = nameNorm u (some text) ↔
      ∀ name, folded u (lowercaseTrim u (some text)) = some name → nameMarks.Parted u name) ∧
    (∀ region number, (phoneE164 u (some text) region).1 = some number →
      phoneE164 u (some number) region = (some number, some true)) ∧
    (∀ strip placeholders address, (emailNorm u (some text) strip placeholders).1 = some address →
      emailNorm u (some address) strip placeholders = (some address, some true)) :=
  ⟨nameNorm_stable_iff u text,
    fun region _ hnumber => phoneE164_of_isE164 (isE164_of_phoneE164 hnumber) region,
    fun _ _ _ haddress => emailNorm_again haddress⟩

/-- Two letters of Hangul with a full stop between them compose when it is dropped, and the name
becomes another one the second time. The two Unicode steps are idempotent here and bring back no
punctuation. -/
theorem name_composes_over_full_stop :
    (∀ text, lowerTrim Jamo.unicode (lowerTrim Jamo.unicode text) = lowerTrim Jamo.unicode text) ∧
    (∀ text, fold Jamo.unicode (fold Jamo.unicode text) = fold Jamo.unicode text) ∧
    (∀ text c, nameSeparators.holds c = true ∨ namePunctuation.holds c = true →
      (c ∈ lowerTrim Jamo.unicode text → c ∈ text) ∧ (c ∈ fold Jamo.unicode text → c ∈ text)) ∧
    nameNorm Jamo.unicode (some ['ᄀ', '.', 'ᅡ']) = some ['ᄀ', 'ᅡ'] ∧
    nameNorm Jamo.unicode (nameNorm Jamo.unicode (some ['ᄀ', '.', 'ᅡ'])) = some ['가'] ∧
    nameNorm Jamo.unicode (nameNorm Jamo.unicode (some ['ᄀ', '.', 'ᅡ'])) ≠
      nameNorm Jamo.unicode (some ['ᄀ', '.', 'ᅡ']) := by
  have hmarks : ∀ c, nameSeparators.holds c = true ∨ namePunctuation.holds c = true →
      c.isLower = false ∧ c ≠ '가' := by
    intro c hc
    have hcases : (c = '-' ∨ c = '_') ∨ c = '.' ∨ c = '\x27' ∨ c = '’' ∨ c = ',' := by
      simpa [nameSeparators, namePunctuation, CharClass.holds, Item.holds] using hc
    rcases hcases with (rfl | rfl) | rfl | rfl | rfl | rfl <;> decide
  refine ⟨Jamo.lowerTrim_lowerTrim, Jamo.fold_fold, fun text c hc => ?_, ?_, ?_, ?_⟩
  · obtain ⟨hlower, hne⟩ := hmarks c hc
    exact ⟨fun h => Jamo.mem_of_mem_lowerTrim h hlower hne, fun h => Jamo.mem_of_mem_fold h hne⟩
  · decide
  · decide
  · decide

end EntityResolution.Standardize
