/-
# Qualifying a blocking expression

`qualify` scans a blocking expression once and puts a prefix before every word and every
double-quoted name that it takes for a column. It looks at bytes: what is copied byte by byte is
pushed as one character a byte, so that a character outside ASCII becomes several. Words are ASCII,
and the bytes of other characters are never quotes, dots or parts of words, so that the scan is
the one of the characters.
-/

import EntityResolution.Golden.Survivorship

namespace EntityResolution.Compile

open EntityResolution.Golden

/-- `SQL_WORDS`. -/
def sqlWords : List String :=
  ["and", "or", "not", "null", "case", "when", "then", "else", "end", "true", "false", "is",
    "like", "between"]

/-- May a character begin a word? -/
def isWordStart (c : Char) : Bool := c.isAlpha || c == '_'

/-- May a character be in a word? -/
def isWordChar (c : Char) : Bool := c.isAlphanum || c == '_'

/-- Is the word listed, in any case? -/
def isSqlWord (word : List Char) : Bool :=
  sqlWords.contains (String.ofList (word.map Char.toLower))

/-- A character as it is copied: each byte is pushed as a character. -/
def pushBytes (c : Char) : List Char :=
  (String.utf8EncodeChar c).map fun byte => Char.ofNat byte.toNat

/-- A string literal after its first quote: what is pushed, and what is left. -/
def literalTail : List Char → List Char × List Char
  | [] => ([], [])
  -- a doubled quote is an escaped quote
  | '\'' :: '\'' :: rest => ('\'' :: '\'' :: (literalTail rest).1, (literalTail rest).2)
  | '\'' :: rest => (['\''], rest)
  | c :: rest => (pushBytes c ++ (literalTail rest).1, (literalTail rest).2)

/-- A double-quoted name after its first quote, and what is left. -/
def quotedTail (text : List Char) : List Char × List Char :=
  (text.takeWhile (· ≠ '"') ++ (text.dropWhile (· ≠ '"')).take 1,
    (text.dropWhile (· ≠ '"')).drop 1)

/-- The next character that is no white space is an opening parenthesis. -/
def isCall (after : List Char) : Bool := (after.dropWhile isWhiteSpace).head? == some '('

/-- A word stays as it is: one half of a qualified name, a call or a listed word. -/
def staysBare (prev : Option Char) (word after : List Char) : Bool :=
  prev == some '.' || after.head? == some '.' || isCall after || isSqlWord word

/-- The loop of `qualify`, after a character and before the rest of the text. -/
def scan (side : Char) : ℕ → Option Char → List Char → List Char
  | 0, _, _ => []
  | _ + 1, _, [] => []
  | fuel + 1, prev, c :: rest =>
      if c = '\'' then
        c :: (literalTail rest).1 ++ scan side fuel (some '\'') (literalTail rest).2
      else if c = '"' then
        side :: '.' :: c :: (quotedTail rest).1 ++ scan side fuel (some '"') (quotedTail rest).2
      else if isWordStart c then
        let word := c :: rest.takeWhile isWordChar
        let after := rest.dropWhile isWordChar
        (if staysBare prev word after then word else side :: '.' :: word) ++
          scan side fuel word.getLast? after
      else pushBytes c ++ scan side fuel (some c) rest

/-- `qualify`; every turn of the loop reads a character. -/
def qualify (expr : String) (side : Char) : String :=
  String.ofList (scan side expr.toList.length none expr.toList)

/-- `blocking_predicate`. -/
def blockingPredicate (expr : String) : String :=
  qualify expr 'l' ++ " = " ++ qualify expr 'r'

theorem pushBytes_ascii {c : Char} (hascii : c.val ≤ 127) : pushBytes c = [c] := by
  have hnat : c.val.toNat ≤ 127 := UInt32.le_iff_toNat_le.mp hascii
  have hbyte : c.val.toUInt8.toNat = c.toNat := by
    rw [UInt32.toNat_toUInt8]
    exact Nat.mod_eq_of_lt (by omega)
  rw [pushBytes, String.utf8EncodeChar_eq_singleton (Char.utf8Size_eq_one_iff.mpr hascii),
    List.map_singleton, hbyte, Char.ofNat_toNat]

theorem two_le_length_pushBytes {c : Char} (hnot : ¬ c.val ≤ 127) : 2 ≤ (pushBytes c).length := by
  rw [pushBytes, List.length_map, String.length_utf8EncodeChar]
  have hpos := Char.utf8Size_pos c
  have hne : c.utf8Size ≠ 1 := fun hone => hnot (Char.utf8Size_eq_one_iff.mp hone)
  omega

theorem isWordChar_of_isWordStart {c : Char} (hstart : isWordStart c = true) :
    isWordChar c = true := by
  rw [isWordStart, Bool.or_eq_true] at hstart
  rw [isWordChar, Bool.or_eq_true, Char.isAlphanum, Bool.or_eq_true]
  exact hstart.imp_left .inl

theorem ascii_of_isWordChar {c : Char} (hword : isWordChar c = true) : c.val ≤ 127 := by
  rw [isWordChar, Bool.or_eq_true, beq_iff_eq] at hword
  rcases hword with hletter | rfl
  · simp only [Char.isAlphanum, Char.isAlpha, Char.isUpper, Char.isLower, Char.isDigit,
      Bool.or_eq_true, Bool.and_eq_true, decide_eq_true_eq, UInt32.le_iff_toNat_le,
      ge_iff_le] at hletter ⊢
    have hupper : 'Z'.val.toNat = 90 := rfl
    have hlower : 'z'.val.toNat = 122 := rfl
    have hdigit : '9'.val.toNat = 57 := rfl
    have hbound : (127 : UInt32).toNat = 127 := rfl
    omega
  · decide

theorem length_literalTail (text : List Char) : (literalTail text).2.length ≤ text.length := by
  fun_induction literalTail text with
  | case1 => simp
  | case2 rest ih => simp; omega
  | case3 rest => simp
  | case4 c rest => simp; omega

theorem length_quotedTail (text : List Char) : (quotedTail text).2.length ≤ text.length := by
  have hdrop := (List.dropWhile_suffix (p := (· ≠ '"')) (l := text)).length_le
  rw [quotedTail, List.length_drop]
  omega

theorem length_dropWhile (text : List Char) :
    (text.dropWhile isWordChar).length ≤ text.length :=
  (List.dropWhile_suffix _).length_le

/-- Enough fuel reads the whole text. -/
theorem scan_fuel {side : Char} {fuel fuel' : ℕ} {prev : Option Char} {text : List Char}
    (hfuel : text.length ≤ fuel) (hfuel' : text.length ≤ fuel') :
    scan side fuel prev text = scan side fuel' prev text := by
  induction fuel generalizing fuel' prev text with
  | zero =>
      cases text with
      | nil => cases fuel' <;> rfl
      | cons c rest => simp at hfuel
  | succ fuel ih =>
      cases text with
      | nil => cases fuel' <;> rfl
      | cons c rest =>
          cases fuel' with
          | zero => simp at hfuel'
          | succ fuel' =>
              simp only [List.length_cons, Nat.add_le_add_iff_right] at hfuel hfuel'
              have hliteral := length_literalTail rest
              have hquoted := length_quotedTail rest
              have hword := length_dropWhile rest
              rw [scan, scan, ih (hliteral.trans hfuel) (hliteral.trans hfuel'),
                ih (hquoted.trans hfuel) (hquoted.trans hfuel'), ih hfuel hfuel']
              dsimp only
              rw [ih (hword.trans hfuel) (hword.trans hfuel')]

/-- The rest of the scan, with fuel for the text that is left. -/
def scanned (side : Char) (prev : Option Char) (text : List Char) : List Char :=
  scan side text.length prev text

section Steps

variable (side : Char) (prev : Option Char)

theorem scanned_literal (rest : List Char) : scanned side prev ('\'' :: rest) =
    '\'' :: (literalTail rest).1 ++ scanned side (some '\'') (literalTail rest).2 := by
  rw [scanned, List.length_cons, scan, if_pos rfl, scanned,
    scan_fuel (length_literalTail rest) le_rfl]

theorem scanned_quoted (rest : List Char) : scanned side prev ('"' :: rest) =
    side :: '.' :: '"' :: (quotedTail rest).1 ++ scanned side (some '"') (quotedTail rest).2 := by
  rw [scanned, List.length_cons, scan, if_neg (by decide), if_pos rfl, scanned,
    scan_fuel (length_quotedTail rest) le_rfl]

theorem scanned_other {c : Char} (hstart : isWordStart c = false) (hliteral : c ≠ '\'')
    (hquoted : c ≠ '"') (rest : List Char) :
    scanned side prev (c :: rest) = pushBytes c ++ scanned side (some c) rest := by
  rw [scanned, List.length_cons, scan, if_neg hliteral, if_neg hquoted, hstart,
    if_neg Bool.false_ne_true, scanned]

/-- A character that is copied. -/
theorem scanned_copied {c : Char} (hascii : c.val ≤ 127) (hstart : isWordStart c = false)
    (hliteral : c ≠ '\'') (hquoted : c ≠ '"') (rest : List Char) :
    scanned side prev (c :: rest) = c :: scanned side (some c) rest := by
  rw [scanned_other side prev hstart hliteral hquoted, pushBytes_ascii hascii]
  rfl

/-- A word: it begins with a letter or an underscore. -/
def IsWord (word : List Char) : Prop :=
  (∃ c, word.head? = some c ∧ isWordStart c = true) ∧ ∀ c ∈ word, isWordChar c = true

/-- The text does not go on with a word character. -/
def Apart (rest : List Char) : Prop := ∀ c, rest.head? = some c → isWordChar c = false

/-- A whole word is read at once. -/
theorem scanned_word {word rest : List Char} (hword : IsWord word) (hapart : Apart rest) :
    scanned side prev (word ++ rest) =
      (if staysBare prev word rest then word else side :: '.' :: word) ++
        scanned side word.getLast? rest := by
  cases word with
  | nil =>
      obtain ⟨c, hhead, _⟩ := hword.1
      cases hhead
  | cons c word =>
      obtain ⟨first, hhead, hstart⟩ := hword.1
      cases Option.some.inj hhead
      have hchars : ∀ other ∈ word, isWordChar other = true := fun other hother =>
        hword.2 other (List.mem_cons_of_mem _ hother)
      have hnone : rest.takeWhile isWordChar = [] ∧ rest.dropWhile isWordChar = rest := by
        cases rest with
        | nil => exact ⟨rfl, rfl⟩
        | cons next rest =>
            have hnext : ¬ isWordChar next = true := Bool.not_eq_true _ ▸ hapart next rfl
            exact ⟨List.takeWhile_cons_of_neg hnext, List.dropWhile_cons_of_neg hnext⟩
      have htake : (word ++ rest).takeWhile isWordChar = word := by
        rw [List.takeWhile_append_of_pos hchars, hnone.1, List.append_nil]
      have hdrop : (word ++ rest).dropWhile isWordChar = rest := by
        rw [List.dropWhile_append_of_pos hchars, hnone.2]
      have hliteral : c ≠ '\'' := by
        rintro rfl
        exact absurd hstart (by decide)
      have hquoted : c ≠ '"' := by
        rintro rfl
        exact absurd hstart (by decide)
      have hlength : rest.length ≤ (word ++ rest).length := by
        rw [List.length_append]
        omega
      rw [scanned, List.cons_append, List.length_cons, scan, if_neg hliteral, if_neg hquoted,
        if_pos hstart]
      dsimp only
      rw [htake, hdrop, scan_fuel hlength le_rfl]
      rfl

end Steps

end EntityResolution.Compile
