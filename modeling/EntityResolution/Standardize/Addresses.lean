/-
# Address lines

The two parsers of an address line, the expressions of the database and the parser beside it. They
share three patterns and read them alike; they differ in how a missing part is told, by an empty
text or by an absent group. Every line has the same components in both.
-/

import Mathlib
import EntityResolution.Standardize.Jamo

namespace EntityResolution.Standardize

open Patterns Words

variable {u : Unicode}

/-- The words that come before the number of a unit. -/
def unitKeywords : List (List Char) :=
  ["apt".toList, "apartment".toList, "unit".toList, "ste".toList, "suite".toList, "fl".toList,
    "floor".toList, "rm".toList, "room".toList]

/-- `[a-z0-9-]` -/
def designator : CharClass := .among [.range 'a' 'z', .range '0' '9', .char '-']

/-- A unit at the end of a line. -/
def addressUnitPattern : Regex :=
  .seq (.group 1 (.alt .start (.one (.lit ' '))))
    (.seq (.group 2 (.alt
        (.seq (.group 3 (.oneOf unitKeywords)) (.seq (.one (.lit ' ')) (.plus designator)))
        (.seq (.one (.lit '#')) (.plus designator))))
      .finish)

/-- A post office box. -/
def addressPoBoxPattern : Regex :=
  .seq .start
    (.seq (.group 1 (.alt
        (.seq (.one (.lit 'p')) (.seq (.maybe (.one (.lit ' '))) (.one (.lit 'o'))))
        (.word "post office".toList)))
      (.seq (.word " box".toList)
        (.seq (.maybe (.group 2 (.seq (.one (.lit ' ')) (.star .any)))) .finish)))

/-- A house number at the beginning of a line. -/
def addressNumberPattern : Regex :=
  .seq .start
    (.seq (.group 1 (.seq (.plus (.among [.range '0' '9']))
        (.maybe (.one (.among [.range 'a' 'z'])))))
      (.group 2 (.alt (.one (.lit ' ')) .finish)))

example : addressUnitPattern.text =
      "(^| )((apt|apartment|unit|ste|suite|fl|floor|rm|room) [a-z0-9-]+|#[a-z0-9-]+)$".toList ∧
    addressPoBoxPattern.text = "^(p ?o|post office) box( .*)?$".toList ∧
    addressNumberPattern.text = "^([0-9]+[a-z]?)( |$)".toList := by decide

/-- `[.,]` -/
def linePunctuation : CharClass := .among [.char '.', .char ',']

/-- The components of an address line. -/
structure AddressComponents where
  addrNumber : Option (List Char)
  addrStreet : Option (List Char)
  addrUnit : Option (List Char)
  deriving DecidableEq, Repr

/-- A line that is not recognised. -/
def AddressComponents.none : AddressComponents := ⟨.none, .none, .none⟩

/-- The components as the database computes them. -/
def addressParse (u : Unicode) (addressLine : Option (List Char)) : AddressComponents :=
  let stripped := regexpReplaceEach linePunctuation [] (lowercaseTrim u addressLine)
  let collapsed := nullif ((regexpReplaceRuns spaceClass ' ' stripped).map trim) []
  let vocabulary := nullSemantics u collapsed
  let line := vocabulary.bind fun text =>
    if fullMatch addressPoBoxPattern text then .none else some text
  let unit := nullif (regexpExtract addressUnitPattern 2 line) []
  let rest := (regexpReplace addressUnitPattern [] line).map trim
  let number := nullif (regexpExtract addressNumberPattern 1 rest) []
  let street := nullif ((regexpReplace addressNumberPattern [] rest).map trim) []
  { addrNumber := if street.isNone then .none else number
    addrStreet := street
    addrUnit := if street.isNone then .none else unit }

/-- The text operations of the parser beside the database. -/
structure ParserOperations where
  nfc : List Char → List Char
  toLowercase : List Char → List Char

/-- The ASCII white space, character by character. -/
def whitespace : CharClass :=
  .among [.char ' ', .char '\t', .char '\n', .char '\x0b', .char '\x0c', .char '\x0d']

/-- A line lowered and without its punctuation, unless it stands for a missing value or is a post
office box. -/
def normalize (ops : ParserOperations) (addressLine : Option (List Char)) : Option (List Char) :=
  addressLine.bind fun addressLine =>
    let first := ops.nfc addressLine
    let text := ops.nfc (ops.toLowercase (trim first))
    if text = [] then .none
    else
      let text := linePunctuation.replaceEach [] text
      let text := whitespace.replaceRuns ' ' text
      let text := trim text
      if text = [] ∨ text ∈ nullSentinels then .none
      else if (search addressPoBoxPattern text).isSome then .none
      else some text

/-- The components as the parser beside the database computes them. -/
def parse (ops : ParserOperations) (addressLine : Option (List Char)) : AddressComponents :=
  match normalize ops addressLine with
  | .none => AddressComponents.none
  | some line =>
    let unit := captured addressUnitPattern 2 line
    let rest := trim (replaceFirst addressUnitPattern [] line)
    let number := captured addressNumberPattern 1 rest
    let street := trim (replaceFirst addressNumberPattern [] rest)
    if street = [] then AddressComponents.none else ⟨number, some street, unit⟩

theorem of_accepts_poBox {b : Bool} {part rest : List Char}
    (haccepts : Accepts addressPoBoxPattern b part rest) : b = true ∧ rest = [] := by
  obtain ⟨_, _, rfl, ⟨rfl, hb⟩, _, _, rfl, -, _, _, rfl, -, _, _, rfl, -, rfl, hrest⟩ := haccepts
  exact ⟨hb, hrest⟩

/-- A post office box is the whole line for both. -/
theorem search_poBox (text : List Char) :
    (search addressPoBoxPattern text).isSome = fullMatch addressPoBoxPattern text := by
  rw [Bool.eq_iff_iff, search_isSome_iff, fullMatch_iff]
  constructor
  · rintro ⟨before, part, rest, rfl, haccepts⟩
    obtain ⟨hstart, rfl⟩ := of_accepts_poBox haccepts
    rw [Bool.true_and, List.isEmpty_iff] at hstart
    rw [hstart, List.nil_append, List.append_nil]
    rw [AcceptsAt, hstart] at haccepts
    exact haccepts
  · intro haccepts
    exact ⟨[], text, [], by rw [List.nil_append, List.append_nil], haccepts⟩

/-- A unit is absent exactly when nothing is extracted. -/
theorem captured_unit (text : List Char) : captured addressUnitPattern 2 text =
    nullif (some (extract addressUnitPattern 2 text)) [] := by
  rw [nullif_some]
  refine captured_eq_ite fun body hbody s w haccepts => ?_
  have hunit : body = .alt
      (.seq (.group 3 (.oneOf unitKeywords)) (.seq (.one (.lit ' ')) (.plus designator)))
      (.seq (.one (.lit '#')) (.plus designator)) := by
    simpa [addressUnitPattern, Regex.groups] using hbody
  subst hunit
  rcases haccepts with ⟨keyword, _, hsplit, -, _, _, rfl, ⟨c, -, rfl⟩, -⟩ |
    ⟨_, number, hsplit, ⟨c, -, rfl⟩, -⟩
  · simp at hsplit
  · simp at hsplit

/-- A house number is absent exactly when nothing is extracted. -/
theorem captured_number (text : List Char) : captured addressNumberPattern 1 text =
    nullif (some (extract addressNumberPattern 1 text)) [] := by
  rw [nullif_some]
  refine captured_eq_ite fun body hbody s w haccepts => ?_
  have hnumber : body = .seq (.plus (.among [.range '0' '9']))
      (.maybe (.one (.among [.range 'a' 'z']))) := by
    simpa [addressNumberPattern, Regex.groups] using hbody
  subst hnumber
  obtain ⟨digits, letter, hsplit, ⟨hne, -⟩, -⟩ := haccepts
  exact hne (List.append_eq_nil_iff.mp hsplit.symm).1

/-- The line that the database parses. -/
def parsedLine (u : Unicode) (addressLine : Option (List Char)) : Option (List Char) :=
  (nullSemantics u (nullif ((regexpReplaceRuns spaceClass ' ' (regexpReplaceEach linePunctuation []
    (lowercaseTrim u addressLine))).map trim) [])).bind fun text =>
      if fullMatch addressPoBoxPattern text then .none else some text

theorem whitespace_holds : whitespace.holds = spaceClass.holds := by
  rw [spaceClass_holds]
  funext c
  simp [whitespace, CharClass.holds, Item.holds, isSpace, Bool.or_assoc]

/-- Without its punctuation and with single spaces a lowered text is lowered and trimmed. -/
theorem lowered_line {text : List Char} (hlower : ∀ c ∈ text, u.IsLower c) :
    Lowered u (trim (spaceClass.replaceRuns ' ' (linePunctuation.replaceEach [] text))) := by
  refine ⟨fun c hc => ?_, trim_trim _ _⟩
  rcases mem_collapse ((trim_isInfix _).subset hc) with rfl | hmem
  · exact u.isLower_ascii (by decide) (by decide)
  · rw [CharClass.replaceEach_nil] at hmem
    exact hlower c (List.mem_filter.mp hmem).1

/-- Both parse the same line. -/
theorem normalize_eq_parsedLine {ops : ParserOperations} (hnfc : ops.nfc = u.nfcNormalize)
    (hlower : ops.toLowercase = u.lower) (addressLine : Option (List Char)) :
    normalize ops addressLine = parsedLine u addressLine := by
  cases addressLine with
  | none => rfl
  | some text =>
    have hfirst : ops.nfc (ops.toLowercase (trim (ops.nfc text))) = lowerTrim u text := by
      rw [hnfc, hlower]
      rfl
    have hruns : whitespace.replaceRuns ' ' (linePunctuation.replaceEach [] (lowerTrim u text)) =
        spaceClass.replaceRuns ' ' (linePunctuation.replaceEach [] (lowerTrim u text)) := by
      rw [CharClass.replaceRuns, CharClass.replaceRuns, whitespace_holds]
    simp only [normalize, Option.bind_some, hfirst, hruns, search_poBox]
    rw [parsedLine, lowercaseTrim, Option.map_some, nullif_some]
    by_cases hempty : lowerTrim u text = []
    · rw [if_pos hempty, if_pos hempty]
      rfl
    · have hlowered : lowercaseTrim u (some text) = some (lowerTrim u text) :=
        nullif_eq_some_iff.mpr ⟨rfl, hempty⟩
      have hline := lowered_line (of_lowercaseTrim hlowered).2.1
      rw [if_neg hempty, if_neg hempty, regexpReplaceEach, Option.map_some, regexpReplaceRuns,
        Option.map_some, Option.map_some, hline.nullSemantics]
      generalize trim (spaceClass.replaceRuns ' ' (linePunctuation.replaceEach []
        (lowerTrim u text))) = line
      by_cases hsentinel : line ∈ nullSentinels
      · rw [if_pos (.inr hsentinel), if_pos hsentinel, Option.bind_none]
      · have hne : line ≠ [] := fun h => hsentinel (h ▸ List.mem_cons_self)
        rw [if_neg (not_or.mpr ⟨hne, hsentinel⟩), if_neg hsentinel, Option.bind_some]

/-- A line is not recognised, or it has a street, which is not empty and trimmed. -/
theorem parse_cases (ops : ParserOperations) (addressLine : Option (List Char)) :
    parse ops addressLine = AddressComponents.none ∨
      ∃ street, street ≠ [] ∧ trim street = street ∧
        (parse ops addressLine).addrStreet = some street := by
  rw [parse]
  split
  · exact .inl rfl
  · dsimp only
    split_ifs with hstreet
    · exact .inl rfl
    · exact .inr ⟨_, hstreet, trim_trim _ _, rfl⟩

/-- The two parsers agree on every line; without a street there is nothing, and a street has no
space at its ends. -/
theorem address_parsers_agree (u : Unicode) (ops : ParserOperations)
    (hnfc : ops.nfc = u.nfcNormalize) (hlower : ops.toLowercase = u.lower)
    (addressLine : Option (List Char)) :
    addressParse u addressLine = parse ops addressLine ∧
    ((parse ops addressLine).addrStreet = .none →
      parse ops addressLine = AddressComponents.none) ∧
    ∀ street, (parse ops addressLine).addrStreet = some street →
      street ≠ [] ∧ street.head? ≠ some ' ' ∧ street.getLast? ≠ some ' ' := by
  have hline := normalize_eq_parsedLine hnfc hlower addressLine
  refine ⟨?_, ?_, ?_⟩
  · rw [addressParse, ← parsedLine, parse, hline]
    rcases parsedLine u addressLine with _ | line
    · rfl
    · simp only [regexpExtract, regexpReplace, Option.map_some, captured_unit, captured_number]
      by_cases hstreet : trim (replaceFirst addressNumberPattern []
          (trim (replaceFirst addressUnitPattern [] line))) = []
      · simp [hstreet, nullif_some, AddressComponents.none]
      · simp [hstreet, nullif_some]
  · intro hnone
    rcases parse_cases ops addressLine with h | ⟨street, -, -, hstreet⟩
    · exact h
    · exact absurd (hstreet.symm.trans hnone) (Option.some_ne_none _)
  · intro street hsome
    rcases parse_cases ops addressLine with h | ⟨street', hne, htrim, hstreet⟩
    · rw [h] at hsome
      exact absurd hsome.symm (Option.some_ne_none _)
    · obtain rfl := Option.some_inj.mp (hstreet.symm.trans hsome)
      rw [trim, trim_eq_self_iff] at htrim
      refine ⟨hne, fun h => ?_, fun h => ?_⟩
      · exact absurd (htrim.1 _ h) (by decide)
      · exact absurd (htrim.2 _ h) (by decide)

/-- A line with a number, a street and a unit, and the operations of ASCII in both parsers. -/
theorem address_parsers_agree_of_line :
    Jamo.unicode.nfcNormalize = Jamo.compose ∧ Jamo.unicode.lower = List.map Char.toLower ∧
    addressParse Jamo.unicode (some "123 Main St., Apt 4".toList) =
      parse ⟨Jamo.compose, List.map Char.toLower⟩ (some "123 Main St., Apt 4".toList) ∧
    parse ⟨Jamo.compose, List.map Char.toLower⟩ (some "123 Main St., Apt 4".toList) =
      ⟨some "123".toList, some "main st".toList, some "apt 4".toList⟩ :=
  ⟨rfl, rfl, (address_parsers_agree Jamo.unicode ⟨Jamo.compose, List.map Char.toLower⟩ rfl rfl
    (some "123 Main St., Apt 4".toList)).1, by decide⟩

end EntityResolution.Standardize
