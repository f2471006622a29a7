/-
# Prefixes only

The expression with its prefixes is made of the pieces that were there and the prefixes in between.
What `qualify` pushes for a token is never shorter than its pieces, and as long exactly for a token
that is handled soundly; so the lengths of the whole decide. A second run meets no unqualified
column, but it puts a prefix before every quoted name, also behind a prefix.
-/

import EntityResolution.Compile.Expressions

namespace EntityResolution.Compile

/-- A piece of the expression with prefixes. -/
inductive Piece
  | kept (text : List Char)
  | inserted (text : List Char)

/-- A piece as it is written. -/
def Piece.written : Piece → List Char
  | .kept text => text
  | .inserted text => text

/-- A piece when what was inserted is removed. -/
def Piece.original : Piece → List Char
  | .kept text => text
  | .inserted _ => []

/-- An unqualified column is written behind a prefix. -/
def Token.pieces (side : Char) : Token → List Piece
  | .column name => [.inserted [side, '.'], .kept name.written]
  | token => [.kept token.written]

/-- The expression with a prefix before each unqualified column. -/
def piecesOf (side : Char) (tokens : List Token) : List Piece := tokens.flatMap (Token.pieces side)

/-- The text of an expression as a string. -/
def expression (tokens : List Token) : String := String.ofList (textOf tokens)

/-- `qualify` inserts a prefix before each unqualified column and changes nothing else, and a second
run changes nothing. -/
structure OnlyAddsPrefixes (side : Char) (tokens : List Token) : Prop where
  prefixes : qualify (expression tokens) side =
    String.ofList ((piecesOf side tokens).flatMap Piece.written)
  removed : (piecesOf side tokens).flatMap Piece.original = textOf tokens
  idempotent : qualify (qualify (expression tokens) side) side = qualify (expression tokens) side

/-- What is pushed for the token is the token, with a prefix before an unqualified column. -/
def Token.Sound (rest : List Char) : Token → Prop
  | .literal text => ∀ c ∈ text, c.val ≤ 127
  | .number body run _ => run = [] ∨ body.getLast? = some '.'
  | .symbol c => c.val ≤ 127
  | .keyword word => isCall rest = true ∨ isSqlWord word = true
  | .call _ => True
  | .column (.bare _) => True
  | .column (.quoted text) => '"' ∉ text
  | .qualified first names => ∀ name ∈ first :: names, ∃ word, name = .bare word

/-- Every token of the expression is. -/
def AllSound : List Token → Prop
  | [] => True
  | token :: tokens => token.Sound (textOf tokens) ∧ AllSound tokens

/-- A token with its prefix. -/
def Token.prefixed (side : Char) (token : Token) : List Char :=
  (token.pieces side).flatMap Piece.written

section Lengths

variable {side : Char} {rest : List Char}

theorem flatMap_pushBytes_ascii {text : List Char} (hascii : ∀ c ∈ text, c.val ≤ 127) :
    text.flatMap pushBytes = text := by
  induction text with
  | nil => rfl
  | cons c text ih =>
      rw [List.flatMap_cons, pushBytes_ascii (hascii c List.mem_cons_self),
        ih fun other hother => hascii other (List.mem_cons_of_mem _ hother)]
      rfl

theorem length_le_flatMap {A : Type*} {B : Type*} {items : List A} {short long : A → List B}
    (hle : ∀ item ∈ items, (short item).length ≤ (long item).length) :
    (items.flatMap short).length ≤ (items.flatMap long).length := by
  induction items with
  | nil => exact le_rfl
  | cons item items ih =>
      rw [List.flatMap_cons, List.flatMap_cons, List.length_append, List.length_append]
      exact Nat.add_le_add (hle item List.mem_cons_self)
        (ih fun other hother => hle other (List.mem_cons_of_mem _ hother))

theorem length_lt_flatMap {A : Type*} {B : Type*} {items : List A} {short long : A → List B}
    (hle : ∀ item ∈ items, (short item).length ≤ (long item).length)
    (hlt : ∃ item ∈ items, (short item).length < (long item).length) :
    (items.flatMap short).length < (items.flatMap long).length := by
  induction items with
  | nil =>
      obtain ⟨item, hitem, _⟩ := hlt
      exact absurd hitem List.not_mem_nil
  | cons item items ih =>
      have hhead := hle item List.mem_cons_self
      have hrest : ∀ other ∈ items, (short other).length ≤ (long other).length :=
        fun other hother => hle other (List.mem_cons_of_mem _ hother)
      have htail := length_le_flatMap hrest
      rw [List.flatMap_cons, List.flatMap_cons, List.length_append, List.length_append]
      obtain ⟨longer, hlonger, hlt⟩ := hlt
      rcases List.mem_cons.mp hlonger with rfl | hlonger
      · omega
      · have hstrict := ih hrest ⟨longer, hlonger, hlt⟩
        omega

theorem mem_doubled {quote c : Char} {text : List Char} : c ∈ doubled quote text ↔ c ∈ text := by
  rw [doubled, List.mem_flatMap]
  apply Iff.intro
  · rintro ⟨other, hother, hc⟩
    split at hc
    · rename_i hsame
      simp only [List.mem_cons, List.not_mem_nil, or_false, or_self] at hc
      rw [hc, ← hsame]
      exact hother
    · rw [List.mem_singleton.mp hc]
      exact hother
  · intro hc
    refine ⟨c, hc, ?_⟩
    split
    · rename_i hsame
      rw [hsame]
      exact List.mem_cons_self
    · exact List.mem_singleton_self c

theorem one_le_length_pushBytes (c : Char) : 1 ≤ (pushBytes c).length := by
  by_cases hascii : c.val ≤ 127
  · rw [pushBytes_ascii hascii]
    exact le_rfl
  · exact (Nat.le_succ 1).trans (two_le_length_pushBytes hascii)

theorem length_pushBytes (text : List Char) :
    text.length ≤ (text.flatMap pushBytes).length ∧
      ((∃ c ∈ text, ¬ c.val ≤ 127) → text.length < (text.flatMap pushBytes).length) := by
  have hsame : text.flatMap (fun c => [c]) = text := by simp
  have hle : ∀ c ∈ text, [c].length ≤ (pushBytes c).length := fun c _ =>
    one_le_length_pushBytes c
  have hlength := length_le_flatMap hle
  rw [hsame] at hlength
  refine ⟨hlength, ?_⟩
  rintro ⟨c, hc, hnot⟩
  have hstrict := length_lt_flatMap hle ⟨c, hc, two_le_length_pushBytes hnot⟩
  rwa [hsame] at hstrict

theorem length_broken (text : List Char) :
    (doubled '"' text).length ≤ (broken side text).length ∧
      ('"' ∈ text → (doubled '"' text).length < (broken side text).length) := by
  have hle : ∀ c ∈ text, (if c = '"' then ['"', '"'] else [c]).length ≤
      (if c = '"' then ['"', side, '.', '"'] else [c]).length := by
    intro c _
    split
    · exact Nat.le_add_right 2 2
    · exact le_rfl
  refine ⟨length_le_flatMap hle, fun hquote => length_lt_flatMap hle ⟨'"', hquote, ?_⟩⟩
  rw [if_pos rfl, if_pos rfl]
  exact Nat.lt_add_of_pos_right (Nat.succ_pos 1)

theorem broken_eq {text : List Char}
    (hnone : '"' ∉ text) : broken side text = doubled '"' text := by
  apply List.flatMap_congr
  intro c hc
  have hne : c ≠ '"' := fun h => hnone (h ▸ hc)
  rw [if_neg hne, if_neg hne]

theorem length_pushed_name (name : Name) :
    name.written.length ≤ (name.pushed side).length ∧
      ((¬ ∃ word, name = .bare word) → name.written.length < (name.pushed side).length) := by
  cases name with
  | bare word => exact ⟨le_rfl, fun hnot => absurd ⟨word, rfl⟩ hnot⟩
  | quoted text =>
      have hbroken : (doubled '"' text).length ≤ (broken side text).length := (length_broken text).1
      have hlt : (Name.quoted text).written.length < ((Name.quoted text).pushed side).length := by
        simp only [Name.written, Name.pushed, List.length_append, List.length_cons, List.length_nil]
        omega
      exact ⟨hlt.le, fun _ => hlt⟩

theorem prefixed_of_not_column {token : Token} (hnot : ∀ name, token ≠ .column name) :
    token.prefixed side = token.written := by
  cases token with
  | column name => exact absurd rfl (hnot name)
  | _ => exact List.append_nil _

theorem prefixed_column (name : Name) :
    (Token.column name).prefixed side = side :: '.' :: name.written := by
  change [side, '.'] ++ (name.written ++ []) = _
  rw [List.append_nil]
  rfl

theorem pushed_of_sound {token : Token} (hsound : token.Sound rest) :
    token.pushed side rest = token.prefixed side := by
  cases token with
  | literal text =>
      rw [prefixed_of_not_column (by simp), Token.pushed, flatMap_pushBytes_ascii]
      · rfl
      · intro c hc
        exact hsound c (mem_doubled.mp hc)
  | number body run signed =>
      have hplain : run = [] ∨ body.getLast? = some '.' := hsound
      rw [prefixed_of_not_column (by simp), Token.pushed, if_pos hplain]
      rfl
  | symbol c =>
      rw [prefixed_of_not_column (by simp)]
      exact pushBytes_ascii hsound
  | keyword word =>
      rw [prefixed_of_not_column (by simp), Token.pushed, if_pos (Bool.or_eq_true_iff.mpr hsound)]
      rfl
  | call name =>
      rw [prefixed_of_not_column (by simp)]
      rfl
  | column name =>
      rw [prefixed_column]
      cases name with
      | bare word => rfl
      | quoted text =>
          rw [Token.pushed, Name.pushed, broken_eq hsound]
          rfl
  | qualified first names =>
      rw [prefixed_of_not_column (by simp), Token.pushed, Token.written]
      have hname : ∀ name ∈ first :: names, name.pushed side = name.written := by
        intro name hname
        obtain ⟨word, rfl⟩ := hsound name hname
        rfl
      rw [hname first List.mem_cons_self]
      congr 1
      apply List.flatMap_congr
      intro name hin
      rw [hname name (List.mem_cons_of_mem _ hin)]

theorem length_lt_of_not_sound {token : Token} (hnot : ¬ token.Sound rest) :
    (token.prefixed side).length < (token.pushed side rest).length := by
  cases token with
  | literal text =>
      rw [prefixed_of_not_column (by simp)]
      simp only [Token.Sound, not_forall] at hnot
      obtain ⟨c, hc, hascii⟩ := hnot
      have hlt := (length_pushBytes (doubled '\'' text)).2 ⟨c, mem_doubled.mpr hc, hascii⟩
      simp only [Token.written, Token.pushed, List.length_append, List.length_cons]
      omega
  | number body run signed =>
      have hexposed : ¬ (run = [] ∨ body.getLast? = some '.') := hnot
      rw [prefixed_of_not_column (by simp), Token.pushed, if_neg hexposed]
      simp only [Token.written, List.length_append, List.length_cons]
      omega
  | symbol c =>
      rw [prefixed_of_not_column (by simp)]
      exact two_le_length_pushBytes hnot
  | keyword word =>
      rw [prefixed_of_not_column (by simp), Token.pushed,
        if_neg fun hstays => hnot (Bool.or_eq_true_iff.mp hstays)]
      simp only [Token.written, List.length_cons]
      omega
  | call name => exact absurd trivial hnot
  | column name =>
      rw [prefixed_column]
      cases name with
      | bare word => exact absurd trivial hnot
      | quoted text =>
          have hlt : (doubled '"' text).length < (broken side text).length :=
            (length_broken text).2 (not_not.mp hnot)
          simp only [Token.pushed, Name.pushed, Name.written, List.length_append, List.length_cons]
          omega
  | qualified first names =>
      rw [prefixed_of_not_column (by simp), Token.pushed, Token.written, List.length_append,
        List.length_append]
      have hle : ∀ name ∈ names, ('.' :: name.written).length ≤ ('.' :: name.pushed side).length :=
        fun name _ => Nat.succ_le_succ (length_pushed_name name).1
      have hnames := length_le_flatMap hle
      have hfirst : first.written.length ≤ (first.pushed side).length :=
        (length_pushed_name first).1
      simp only [Token.Sound, not_forall] at hnot
      obtain ⟨name, hname, hquoted⟩ := hnot
      have hlonger : name.written.length < (name.pushed side).length :=
        (length_pushed_name name).2 hquoted
      rcases List.mem_cons.mp hname with rfl | hname
      · omega
      · have hlt := length_lt_flatMap hle ⟨name, hname, Nat.succ_lt_succ hlonger⟩
        omega

/-- The text with its prefixes. -/
def prefixedText (side : Char) (tokens : List Token) : List Char :=
  tokens.flatMap (Token.prefixed side)

theorem prefixedText_eq (side : Char) (tokens : List Token) :
    (piecesOf side tokens).flatMap Piece.written = prefixedText side tokens := by
  rw [piecesOf, prefixedText, List.flatMap_assoc]
  rfl

theorem pushedAll_of_sound {tokens : List Token} (hsound : AllSound tokens) :
    pushedAll side tokens = prefixedText side tokens := by
  induction tokens with
  | nil => rfl
  | cons token tokens ih =>
      rw [pushedAll, pushed_of_sound hsound.1, ih hsound.2]
      rfl

theorem length_pushedAll (tokens : List Token) :
    (prefixedText side tokens).length ≤ (pushedAll side tokens).length ∧
      ((pushedAll side tokens).length = (prefixedText side tokens).length → AllSound tokens) := by
  induction tokens with
  | nil => exact ⟨le_rfl, fun _ => trivial⟩
  | cons token tokens ih =>
      have hprefixed : (prefixedText side (token :: tokens)).length =
          (token.prefixed side).length + (prefixedText side tokens).length := List.length_append
      have hpushed : (pushedAll side (token :: tokens)).length =
          (token.pushed side (textOf tokens)).length + (pushedAll side tokens).length :=
        List.length_append
      rw [hprefixed, hpushed]
      by_cases hsound : token.Sound (textOf tokens)
      · rw [pushed_of_sound hsound]
        exact ⟨by omega, fun hlength => ⟨hsound, ih.2 (by omega)⟩⟩
      · have hlt : (token.prefixed side).length < (token.pushed side (textOf tokens)).length :=
          length_lt_of_not_sound hsound
        exact ⟨by omega, fun hlength => by omega⟩

/-- What was inserted can be removed. -/
theorem original_pieces (side : Char) (tokens : List Token) :
    (piecesOf side tokens).flatMap Piece.original = textOf tokens := by
  rw [piecesOf, textOf, List.flatMap_assoc]
  apply List.flatMap_congr
  intro token _
  cases token <;> exact List.append_nil _

end Lengths

/-! ## Quoted names in any text -/

/-- What the scan is in. -/
inductive Mode
  | outside
  | literal
  | quoted

/-- The quoted names that a scan of the text begins. -/
def quotedNames : Mode → List Char → ℕ
  | _, [] => 0
  | .outside, c :: rest =>
      if c = '\'' then quotedNames .literal rest
      else if c = '"' then 1 + quotedNames .quoted rest
      else quotedNames .outside rest
  | .literal, c :: rest =>
      if c = '\'' then quotedNames .outside rest else quotedNames .literal rest
  | .quoted, c :: rest =>
      if c = '"' then quotedNames .outside rest else quotedNames .quoted rest

section Quotes

variable {side : Char}

theorem quotedNames_literalTail (text : List Char) :
    quotedNames .literal text = quotedNames .outside (literalTail text).2 ∧
      text.length ≤ (literalTail text).1.length + (literalTail text).2.length := by
  fun_induction literalTail text with
  | case1 => exact ⟨rfl, le_rfl⟩
  | case2 rest ih =>
      refine ⟨ih.1, ?_⟩
      simp only [List.length_cons]
      omega
  | case3 rest =>
      refine ⟨rfl, ?_⟩
      simp only [List.length_cons, List.length_nil]
      omega
  | case4 c rest hdouble hsingle ih =>
      have hne : c ≠ '\'' := fun h => hsingle h
      have hone := one_le_length_pushBytes c
      rw [quotedNames, if_neg hne]
      refine ⟨ih.1, ?_⟩
      simp only [List.length_append, List.length_cons]
      omega

theorem quotedNames_quotedTail (text : List Char) :
    quotedNames .quoted text = quotedNames .outside (quotedTail text).2 ∧
      text.length = (quotedTail text).1.length + (quotedTail text).2.length := by
  induction text with
  | nil => exact ⟨rfl, rfl⟩
  | cons c text ih =>
      by_cases hquote : c = '"'
      · subst hquote
        simp [quotedNames, quotedTail]
        omega
      · have htail : quotedTail (c :: text) = (c :: (quotedTail text).1, (quotedTail text).2) := by
          simp [quotedTail, hquote]
        rw [quotedNames, if_neg hquote, htail]
        refine ⟨ih.1, ?_⟩
        simp only [List.length_cons]
        omega

/-- Characters other than quotes begin no name. -/
theorem quotedNames_plain {text : List Char} (hplain : ∀ c ∈ text, c ≠ '\'' ∧ c ≠ '"')
    (rest : List Char) : quotedNames .outside (text ++ rest) = quotedNames .outside rest := by
  induction text with
  | nil => rfl
  | cons c text ih =>
      obtain ⟨hliteral, hquoted⟩ := hplain c List.mem_cons_self
      rw [List.cons_append, quotedNames, if_neg hliteral, if_neg hquoted,
        ih fun other hother => hplain other (List.mem_cons_of_mem _ hother)]

theorem plain_of_isWordChar {c : Char} (hword : isWordChar c = true) : c ≠ '\'' ∧ c ≠ '"' := by
  apply And.intro
  · rintro rfl
    exact absurd hword (by decide)
  · rintro rfl
    exact absurd hword (by decide)

theorem exists_word {c : Char} (hstart : isWordStart c = true) (rest : List Char) :
    ∃ word after, c :: rest = word ++ after ∧ IsWord word ∧ Apart after ∧
      after.length ≤ rest.length := by
  refine ⟨c :: rest.takeWhile isWordChar, rest.dropWhile isWordChar, ?_, ⟨⟨c, rfl, hstart⟩, ?_⟩, ?_,
    length_dropWhile rest⟩
  · rw [List.cons_append, List.takeWhile_append_dropWhile]
  · intro other hother
    rcases List.mem_cons.mp hother with rfl | hother
    · exact isWordChar_of_isWordStart hstart
    · exact List.mem_takeWhile_imp hother
  · intro next hnext
    have hnot := List.head?_dropWhile_not isWordChar rest
    rw [hnext] at hnot
    exact hnot

theorem length_scanned (text : List Char) (prev : Option Char) :
    text.length + quotedNames .outside text ≤ (scanned side prev text).length := by
  induction hlength : text.length using Nat.strong_induction_on generalizing text prev with
  | _ length ih =>
      subst hlength
      cases text with
      | nil => exact le_rfl
      | cons c rest =>
          by_cases hliteral : c = '\''
          · subst hliteral
            have htail := quotedNames_literalTail rest
            have hrest := ih _ (Nat.lt_succ_of_le (length_literalTail rest)) (literalTail rest).2
              (some '\'') rfl
            have hcount : quotedNames .outside ('\'' :: rest) = quotedNames .literal rest := rfl
            rw [scanned_literal, hcount, htail.1]
            simp only [List.length_append, List.length_cons]
            omega
          · by_cases hquoted : c = '"'
            · subst hquoted
              have htail := quotedNames_quotedTail rest
              have hrest := ih _ (Nat.lt_succ_of_le (length_quotedTail rest)) (quotedTail rest).2
                (some '"') rfl
              have hcount : quotedNames .outside ('"' :: rest) = 1 + quotedNames .quoted rest := rfl
              rw [scanned_quoted, hcount, htail.1]
              simp only [List.length_append, List.length_cons]
              omega
            · by_cases hstart : isWordStart c = true
              · obtain ⟨word, after, htext, hword, hapart, hafter⟩ := exists_word hstart rest
                have hrest := ih _ (Nat.lt_succ_of_le hafter) after word.getLast? rfl
                have hpushed : word.length ≤
                    (if staysBare prev word after then word else side :: '.' :: word).length := by
                  split
                  · exact le_rfl
                  · exact Nat.le_add_right _ 2
                rw [htext, scanned_word side prev hword hapart,
                  quotedNames_plain fun other hother => plain_of_isWordChar (hword.2 other hother)]
                rw [List.length_append, List.length_append]
                omega
              · rw [Bool.not_eq_true] at hstart
                have hrest := ih _ (Nat.lt_succ_self _) rest (some c) rfl
                have hone := one_le_length_pushBytes c
                rw [scanned_other side prev hstart hliteral hquoted, quotedNames, if_neg hliteral,
                  if_neg hquoted, List.length_append, List.length_cons]
                omega

theorem quotedNames_literal (text rest : List Char) :
    quotedNames .literal (doubled '\'' text ++ '\'' :: rest) = quotedNames .outside rest := by
  induction text with
  | nil => rfl
  | cons c text ih =>
      by_cases hquote : c = '\''
      · subst hquote
        exact ih
      · have hcons : doubled '\'' (c :: text) = c :: doubled '\'' text := by
          rw [doubled, List.flatMap_cons, if_neg hquote]
          rfl
        rw [hcons, List.cons_append, quotedNames, if_neg hquote, ih]

theorem quotedNames_quoted (text rest : List Char) :
    quotedNames .outside rest ≤ quotedNames .quoted (doubled '"' text ++ '"' :: rest) := by
  induction text with
  | nil => exact le_rfl
  | cons c text ih =>
      by_cases hquote : c = '"'
      · subst hquote
        change _ ≤ 1 + quotedNames .quoted (doubled '"' text ++ '"' :: rest)
        omega
      · have hcons : doubled '"' (c :: text) = c :: doubled '"' text := by
          rw [doubled, List.flatMap_cons, if_neg hquote]
          rfl
        rw [hcons, List.cons_append, quotedNames, if_neg hquote]
        exact ih

/-- A name begins as many quoted names as it is quoted, at least. -/
theorem quotedNames_name {name : Name} (hword : ∀ word, name = .bare word → IsWord word)
    (rest : List Char) :
    quotedNames .outside rest ≤ quotedNames .outside (name.written ++ rest) ∧
      ∀ text, name = .quoted text →
        quotedNames .outside rest < quotedNames .outside (name.written ++ rest) := by
  cases name with
  | bare word =>
      rw [Name.written, quotedNames_plain fun c hc => plain_of_isWordChar ((hword word rfl).2 c hc)]
      exact ⟨le_rfl, fun text hquoted => by cases hquoted⟩
  | quoted text =>
      have hcount : quotedNames .outside ((Name.quoted text).written ++ rest) =
          1 + quotedNames .quoted (doubled '"' text ++ '"' :: rest) := by
        have hwritten : (Name.quoted text).written ++ rest =
            '"' :: (doubled '"' text ++ '"' :: rest) := by
          simp [Name.written]
        rw [hwritten]
        rfl
      have hle := quotedNames_quoted text rest
      rw [hcount]
      exact ⟨by omega, fun _ _ => by omega⟩

/-- A token loses no quoted name that comes after it, and a quoted column is one more. -/
theorem quotedNames_token (hside : isWordStart side = true) {token : Token} {after : List Char}
    (hfits : token.Fits after) (rest : List Char) :
    quotedNames .outside rest ≤ quotedNames .outside (token.prefixed side ++ rest) ∧
      ∀ text, token = .column (.quoted text) →
        quotedNames .outside rest < quotedNames .outside (token.prefixed side ++ rest) := by
  have hplain : ∀ text : List Char, (∀ c ∈ text, c ≠ '\'' ∧ c ≠ '"') →
      quotedNames .outside rest ≤ quotedNames .outside (text ++ rest) := fun text hplain =>
    (quotedNames_plain hplain rest).ge
  have hwords : ∀ word, IsWord word → ∀ c ∈ word, c ≠ '\'' ∧ c ≠ '"' := fun word hword c hc =>
    plain_of_isWordChar (hword.2 c hc)
  cases token with
  | literal text =>
      rw [prefixed_of_not_column (by simp)]
      have hwritten : (Token.literal text).written ++ rest =
          '\'' :: (doubled '\'' text ++ '\'' :: rest) := by
        simp [Token.written]
      rw [hwritten]
      exact ⟨(quotedNames_literal text rest).ge, by simp⟩
  | number body run signed =>
      rw [prefixed_of_not_column (by simp)]
      refine ⟨hplain _ ?_, by simp⟩
      obtain ⟨⟨_, hbody⟩, hrun, _⟩ := hfits
      intro c hc
      have hdigit : ∀ {c : Char}, c.isDigit = true ∨ c = '.' → c ≠ '\'' ∧ c ≠ '"' := fun h =>
        (plain_of_digit h).2.2
      rcases List.mem_append.mp hc with hc | hc
      · rcases List.mem_append.mp hc with hc | hc
        · exact hdigit (hbody c hc)
        · rcases hrun with ⟨rfl, _⟩ | ⟨hword, _⟩
          · exact absurd hc List.not_mem_nil
          · exact hwords run hword c hc
      · rcases hrun with ⟨_, rfl⟩ | ⟨_, _, _, rfl | ⟨sign, digits, rfl, hsign, hdigits⟩⟩
        · exact absurd hc List.not_mem_nil
        · exact absurd hc List.not_mem_nil
        · rcases List.mem_cons.mp hc with rfl | hc
          · rcases hsign with rfl | rfl
            · decide
            · decide
          · exact hdigit (.inl (hdigits c hc))
  | symbol c =>
      rw [prefixed_of_not_column (by simp)]
      refine ⟨hplain [c] ?_, by simp⟩
      intro other hother
      rw [List.mem_singleton.mp hother]
      exact ⟨hfits.2.1, hfits.2.2.1⟩
  | keyword word =>
      rw [prefixed_of_not_column (by simp)]
      exact ⟨hplain word (hwords word hfits.1), by simp⟩
  | call name =>
      rw [prefixed_of_not_column (by simp)]
      exact ⟨hplain name (hwords name hfits.1), by simp⟩
  | column name =>
      have hbare : ∀ word, name = .bare word → IsWord word := by
        rintro word rfl
        exact hfits.1.1
      have hname := quotedNames_name hbare rest
      have hside' : ∀ c ∈ [side, '.'], c ≠ '\'' ∧ c ≠ '"' := by
        intro c hc
        simp only [List.mem_cons, List.not_mem_nil, or_false] at hc
        rcases hc with rfl | rfl
        · exact plain_of_isWordChar (isWordChar_of_isWordStart hside)
        · decide
      have hcount : quotedNames .outside ((Token.column name).prefixed side ++ rest) =
          quotedNames .outside (name.written ++ rest) := by
        rw [prefixed_column]
        exact quotedNames_plain hside' (name.written ++ rest)
      rw [hcount]
      refine ⟨hname.1, ?_⟩
      intro text hquoted
      exact hname.2 text (Token.column.inj hquoted)
  | qualified first names =>
      rw [prefixed_of_not_column (by simp)]
      refine ⟨?_, by simp⟩
      obtain ⟨hfirst, hne, hparts, hlast⟩ := hfits
      have hnames : quotedNames .outside rest ≤
          quotedNames .outside ((names.flatMap fun name => '.' :: name.written) ++ rest) := by
        clear hfirst hne hlast
        induction names with
        | nil => exact le_rfl
        | cons name names ih =>
            have hlater := ih fun other hother => hparts other (List.mem_cons_of_mem _ hother)
            have hname := (quotedNames_name (hparts name List.mem_cons_self)
              ((names.flatMap fun name => '.' :: name.written) ++ rest)).1
            rw [List.flatMap_cons, List.append_assoc]
            exact hlater.trans hname
      rw [Token.written, List.append_assoc]
      exact hnames.trans (quotedNames_name hfirst _).1

theorem quotedNames_pos (hside : isWordStart side = true) {tokens : List Token}
    (hwell : WellFormed tokens) {text : List Char}
    (hcolumn : Token.column (.quoted text) ∈ tokens) :
    0 < quotedNames .outside (prefixedText side tokens) := by
  induction tokens with
  | nil => exact absurd hcolumn List.not_mem_nil
  | cons token tokens ih =>
      have htoken := quotedNames_token hside hwell.1 (prefixedText side tokens)
      change 0 < quotedNames .outside (token.prefixed side ++ prefixedText side tokens)
      rcases List.mem_cons.mp hcolumn with rfl | hcolumn
      · exact (Nat.zero_le _).trans_lt (htoken.2 text rfl)
      · exact (ih hwell.2 hcolumn).trans_le htoken.1

end Quotes

/-! ## A second run -/

section SecondRun

variable {side : Char}

/-- A token whose column is qualified. -/
def Token.qualify (side : Char) : Token → Token
  | .column name => .qualified (.bare [side]) [name]
  | token => token

theorem written_qualify (side : Char) (token : Token) :
    (token.qualify side).written = token.prefixed side := by
  cases token with
  | column name =>
      rw [prefixed_column, Token.qualify, Token.written, List.flatMap_singleton]
      rfl
  | _ => exact (List.append_nil _).symm

theorem textOf_qualify (side : Char) (tokens : List Token) :
    textOf (tokens.map (Token.qualify side)) = prefixedText side tokens := by
  rw [textOf, prefixedText, List.flatMap_map]
  apply List.flatMap_congr
  intro token _
  exact written_qualify side token

/-- Two texts that fit behind the same tokens. -/
structure Alike (rest rest' : List Char) : Prop where
  head : rest.head? = rest'.head? ∨
    ∃ c c', rest.head? = some c ∧ rest'.head? = some c' ∧ isWordStart c = true ∧
      isWordStart c' = true
  call : isCall rest = isCall rest'

theorem isCall_append {rest rest' : List Char} (hcall : isCall rest = isCall rest')
    (text : List Char) : isCall (text ++ rest) = isCall (text ++ rest') := by
  rw [isCall, isCall, List.dropWhile_append, List.dropWhile_append]
  split
  · exact hcall
  · rename_i hnonempty
    cases hdrop : text.dropWhile Golden.isWhiteSpace with
    | nil =>
        rw [hdrop] at hnonempty
        exact absurd rfl hnonempty
    | cons c text' => rfl

theorem Alike.append {rest rest' : List Char} (halike : Alike rest rest') {text : List Char}
    (hne : text ≠ []) : Alike (text ++ rest) (text ++ rest') where
  head := by
    cases text with
    | nil => exact absurd rfl hne
    | cons c text => exact .inl rfl
  call := isCall_append halike.call text

theorem Alike.ended {rest rest' : List Char} (halike : Alike rest rest') (hended : Ended rest) :
    Ended rest' := by
  rcases halike.head with hsame | ⟨c, _, hhead, _, hstart, _⟩
  · rw [Ended, Apart, ← hsame]
    exact hended
  · have hword := hended.1 c hhead
    rw [isWordChar_of_isWordStart hstart] at hword
    cases hword

theorem Alike.head_ne {rest rest' : List Char} (halike : Alike rest rest') {c : Char}
    (hplain : isWordStart c = false) (hne : rest.head? ≠ some c) : rest'.head? ≠ some c := by
  rcases halike.head with hsame | ⟨_, c', _, hhead, _, hstart⟩
  · rwa [← hsame]
  · intro hback
    rw [hhead] at hback
    cases Option.some.inj hback
    rw [hplain] at hstart
    cases hstart

theorem Alike.name_fits {rest rest' : List Char} (halike : Alike rest rest') {name : Name}
    (hfits : name.Fits rest) : name.Fits rest' := by
  cases name with
  | bare word => exact ⟨hfits.1, halike.ended hfits.2⟩
  | quoted text => exact ⟨halike.head_ne (by decide) hfits.1, halike.head_ne (by decide) hfits.2⟩

/-- A token fits before alike texts. -/
theorem Alike.fits {rest rest' : List Char} (halike : Alike rest rest') {token : Token}
    (hfits : token.Fits rest) : token.Fits rest' := by
  cases token with
  | literal text => exact halike.head_ne (by decide) hfits
  | number body run signed =>
      refine ⟨hfits.1, ?_, halike.ended hfits.2.2⟩
      rcases hfits.2.1 with hplain | ⟨hword, hlisted, hcall, hsigned⟩
      · exact .inl hplain
      · rw [isCall_append halike.call] at hcall
        exact .inr ⟨hword, hlisted, hcall, hsigned⟩
  | symbol c => exact hfits
  | keyword word => exact ⟨hfits.1, halike.ended hfits.2⟩
  | call name => exact ⟨hfits.1, halike.ended hfits.2.1, halike.call ▸ hfits.2.2⟩
  | column name =>
      refine ⟨halike.name_fits hfits.1, ?_⟩
      rw [← halike.call]
      exact hfits.2
  | qualified first names =>
      exact ⟨hfits.1, hfits.2.1, hfits.2.2.1, fun last hlast =>
        halike.name_fits (hfits.2.2.2 last hlast)⟩

/-- The expression has no quoted column. -/
def NoQuotedColumn (tokens : List Token) : Prop :=
  ∀ text, Token.column (.quoted text) ∉ tokens

theorem written_ne_nil {token : Token} {rest : List Char} (hfits : token.Fits rest) :
    token.written ≠ [] := by
  have hword : ∀ {word : List Char}, IsWord word → word ≠ [] := by
    rintro word ⟨⟨c, hhead, _⟩, _⟩ rfl
    cases hhead
  cases token with
  | literal text => exact List.cons_ne_nil _ _
  | number body run signed =>
      intro hnil
      rw [Token.written, List.append_eq_nil_iff, List.append_eq_nil_iff] at hnil
      exact hfits.1.1 hnil.1.1
  | symbol c => exact List.cons_ne_nil _ _
  | keyword word => exact hword hfits.1
  | call name => exact hword hfits.1
  | column name =>
      cases name with
      | bare word => exact hword hfits.1.1
      | quoted text => exact List.cons_ne_nil _ _
  | qualified first names =>
      intro hnil
      rw [Token.written, List.append_eq_nil_iff] at hnil
      cases first with
      | bare word => exact hword (hfits.1 word rfl) hnil.1
      | quoted text => exact absurd hnil.1 (List.cons_ne_nil _ _)

theorem isCall_word {c : Char} (hstart : isWordStart c = true) (rest : List Char) :
    isCall (c :: rest) = false := by
  have hbounds : 65 ≤ c.toNat ∧ c.toNat ≤ 122 := by
    rw [isWordStart, Bool.or_eq_true, beq_iff_eq] at hstart
    rcases hstart with hletter | rfl
    · simp only [Char.isAlpha, Char.isUpper, Char.isLower, Bool.or_eq_true, Bool.and_eq_true,
        decide_eq_true_eq, UInt32.le_iff_toNat_le, ge_iff_le] at hletter
      have hfirst : 'A'.val.toNat = 65 := rfl
      have hupper : 'Z'.val.toNat = 90 := rfl
      have hlower : 'a'.val.toNat = 97 := rfl
      have hlast : 'z'.val.toNat = 122 := rfl
      have hnat : c.toNat = c.val.toNat := rfl
      omega
    · decide
  have hspace : ¬ Golden.isWhiteSpace c = true := by
    simp only [Golden.isWhiteSpace, Bool.or_eq_true, Bool.and_eq_true, decide_eq_true_eq,
      List.contains_iff_mem, List.mem_cons, List.not_mem_nil, or_false]
    omega
  have hopen : c ≠ '(' := by
    rintro rfl
    exact absurd hbounds.1 (by decide)
  rw [isCall, List.dropWhile_cons_of_neg hspace]
  simpa using hopen

/-- The rest of an expression with its prefixes is alike. -/
theorem alike_prefixed (hside : isWordStart side = true) {tokens : List Token}
    (hwell : WellFormed tokens) (hnone : NoQuotedColumn tokens) :
    Alike (textOf tokens) (prefixedText side tokens) := by
  induction tokens with
  | nil => exact ⟨.inl rfl, rfl⟩
  | cons token tokens ih =>
      have hlater := ih hwell.2 fun text hin => hnone text (List.mem_cons_of_mem _ hin)
      change Alike (token.written ++ textOf tokens)
        (token.prefixed side ++ prefixedText side tokens)
      by_cases hcolumn : ∃ name, token = .column name
      · obtain ⟨name, rfl⟩ := hcolumn
        cases name with
        | quoted text => exact absurd List.mem_cons_self (hnone text)
        | bare word =>
            obtain ⟨c, hhead, hstart⟩ := hwell.1.1.1.1
            cases word with
            | nil => cases hhead
            | cons first word =>
                cases Option.some.inj hhead
                rw [prefixed_column]
                refine ⟨.inr ⟨_, _, rfl, rfl, hstart, hside⟩, ?_⟩
                exact (isCall_word hstart _).trans (isCall_word hside _).symm
      · rw [prefixed_of_not_column fun name hname => hcolumn ⟨name, hname⟩]
        exact hlater.append (written_ne_nil hwell.1)

/-- The expression with its prefixes is an expression. -/
theorem wellFormed_qualify (hside : isWordStart side = true) {tokens : List Token}
    (hwell : WellFormed tokens) (hnone : NoQuotedColumn tokens) :
    WellFormed (tokens.map (Token.qualify side)) := by
  induction tokens with
  | nil => trivial
  | cons token tokens ih =>
      have hnone' : NoQuotedColumn tokens := fun text hin => hnone text (List.mem_cons_of_mem _ hin)
      have halike := alike_prefixed hside hwell.2 hnone'
      refine ⟨?_, ih hwell.2 hnone'⟩
      rw [textOf_qualify]
      have hfits := halike.fits hwell.1
      cases token with
      | column name =>
          refine ⟨?_, List.cons_ne_nil _ _, ?_, ?_⟩
          · rintro word hword
            cases hword
            refine ⟨⟨side, rfl, hside⟩, ?_⟩
            intro c hc
            rw [List.mem_singleton.mp hc]
            exact isWordChar_of_isWordStart hside
          · intro other hother word hword
            rw [List.mem_singleton.mp hother] at hword
            subst hword
            exact hfits.1.1
          · intro last hlast
            cases Option.some.inj hlast
            exact hfits.1
      | _ => exact hfits

/-- Its tokens are handled soundly when those of the expression are. -/
theorem allSound_qualify (hside : isWordStart side = true) {tokens : List Token}
    (hwell : WellFormed tokens) (hnone : NoQuotedColumn tokens) (hsound : AllSound tokens) :
    AllSound (tokens.map (Token.qualify side)) := by
  induction tokens with
  | nil => trivial
  | cons token tokens ih =>
      have hnone' : NoQuotedColumn tokens := fun text hin => hnone text (List.mem_cons_of_mem _ hin)
      refine ⟨?_, ih hwell.2 hnone' hsound.2⟩
      rw [textOf_qualify]
      cases token with
      | keyword word =>
          have hsound' := hsound.1
          rw [Token.Sound, (alike_prefixed hside hwell.2 hnone').call] at hsound'
          exact hsound'
      | column name =>
          cases name with
          | quoted text => exact absurd List.mem_cons_self (hnone text)
          | bare word =>
              intro name hname
              simp only [List.mem_cons, List.not_mem_nil, or_false] at hname
              rcases hname with rfl | rfl
              · exact ⟨_, rfl⟩
              · exact ⟨_, rfl⟩
      | _ => exact hsound.1

/-- Nothing is unqualified any more. -/
theorem prefixedText_qualify (side : Char) (tokens : List Token) :
    prefixedText side (tokens.map (Token.qualify side)) = prefixedText side tokens := by
  rw [← textOf_qualify, ← textOf_qualify, List.map_map]
  congr 1
  apply List.map_congr_left
  intro token _
  cases token <;> rfl

end SecondRun

theorem isWordStart_of_isAlpha {c : Char} (halpha : c.isAlpha = true) : isWordStart c = true := by
  rw [isWordStart, halpha]
  rfl

theorem qualify_expression (side : Char) {tokens : List Token} (hwell : WellFormed tokens) :
    qualify (expression tokens) side = String.ofList (pushedAll side tokens) := by
  have hready : Ready none (textOf tokens) := fun hnone => by cases hnone
  rw [qualify, expression, String.toList_ofList]
  exact congrArg _ (scanned_textOf hwell hready)

/-- `qualify` only adds prefixes exactly when every token of the expression is handled soundly and
no unqualified column is quoted. -/
theorem qualify_only_adds_prefixes_iff {side : Char} (hside : side.isAlpha = true)
    {tokens : List Token} (hwell : WellFormed tokens) :
    OnlyAddsPrefixes side tokens ↔ AllSound tokens ∧ NoQuotedColumn tokens := by
  have hstart := isWordStart_of_isAlpha hside
  have hqualify := qualify_expression side hwell
  apply Iff.intro
  · intro honly
    have hpushed : pushedAll side tokens = prefixedText side tokens := by
      have hsame := hqualify.symm.trans honly.prefixes
      rw [prefixedText_eq] at hsame
      exact String.ofList_injective hsame
    have hsound := (length_pushedAll tokens).2 (congrArg List.length hpushed)
    refine ⟨hsound, ?_⟩
    intro text hcolumn
    have hpos := quotedNames_pos hstart hwell hcolumn
    have hlonger : (prefixedText side tokens).length +
        quotedNames .outside (prefixedText side tokens) ≤
          (scanned side none (prefixedText side tokens)).length := length_scanned _ none
    have hsecond := honly.idempotent
    rw [hqualify, hpushed, qualify, String.toList_ofList] at hsecond
    have hsame : scanned side none (prefixedText side tokens) = prefixedText side tokens :=
      String.ofList_injective hsecond
    rw [hsame] at hlonger
    omega
  · rintro ⟨hsound, hnone⟩
    have hfirst : qualify (expression tokens) side = String.ofList (prefixedText side tokens) := by
      rw [hqualify, pushedAll_of_sound hsound]
    refine ⟨?_, original_pieces side tokens, ?_⟩
    · rw [prefixedText_eq]
      exact hfirst
    · have hagain := qualify_expression side (wellFormed_qualify hstart hwell hnone)
      rw [expression, textOf_qualify,
        pushedAll_of_sound (allSound_qualify hstart hwell hnone hsound),
        prefixedText_qualify] at hagain
      rw [hfirst]
      exact hagain

theorem blockingPredicate_of_sound {tokens : List Token} (hwell : WellFormed tokens)
    (hsound : AllSound tokens) :
    blockingPredicate (expression tokens) =
      String.ofList (prefixedText 'l' tokens) ++ " = " ++
        String.ofList (prefixedText 'r' tokens) := by
  rw [blockingPredicate, qualify_expression 'l' hwell, qualify_expression 'r' hwell,
    pushedAll_of_sound hsound, pushedAll_of_sound hsound]

/-- A word is tested character by character. -/
theorem isWord_of_all {word : List Char} (hstart : word.head?.any isWordStart = true)
    (hall : word.all isWordChar = true) : IsWord word := by
  constructor
  · cases word with
    | nil => cases hstart
    | cons c word => exact ⟨c, rfl, hstart⟩
  · exact List.all_eq_true.mp hall

/-- The expression `zip||'x'`. -/
def zipExpression : List Token :=
  [.column (.bare ['z', 'i', 'p']), .symbol '|', .symbol '|', .literal ['x']]

theorem qualify_only_adds_prefixes_sample : OnlyAddsPrefixes 'l' zipExpression := by
  apply (qualify_only_adds_prefixes_iff _ _).mpr
  · have hbar : ('|' : Char).val ≤ 127 := by decide
    have hliteral : ∀ c ∈ ['x'], c.val ≤ 127 := List.forall_mem_singleton.mpr (by decide)
    refine ⟨⟨trivial, hbar, hbar, hliteral, trivial⟩, ?_⟩
    intro text hmem
    simp [zipExpression] at hmem
  · decide
  · have hended : Ended (textOf [.symbol '|', .symbol '|', .literal ['x']]) := by
      refine ⟨?_, by decide⟩
      intro c hhead
      cases Option.some.inj hhead
      decide
    have hzip : IsWord ['z', 'i', 'p'] := isWord_of_all (by decide) (by decide)
    have hbar : isWordChar '|' = false ∧ '|' ≠ '\'' ∧ '|' ≠ '"' ∧ '|' ≠ '.' := by decide
    refine ⟨⟨⟨hzip, hended⟩, ?_⟩, hbar, hbar, nofun, trivial⟩
    intro word hword
    cases hword
    exact ⟨by decide +kernel, by decide +kernel⟩

/-- Five tokens that `qualify` does more or less to than prefix the columns. -/
def missedTokens : List Token :=
  [.column (.quoted "email".toList), .qualified (.bare ['l']) [.quoted "email".toList],
    .literal ['é'], .number ['1'] ['e', '5'] [], .keyword "ilike".toList]

theorem wellFormed_missedTokens : ∀ token ∈ missedTokens, WellFormed [token] := by
  have hended : Ended (textOf []) := by
    refine ⟨?_, by decide⟩
    intro c hhead
    cases hhead
  rw [missedTokens, List.forall_mem_cons, List.forall_mem_cons, List.forall_mem_cons,
    List.forall_mem_cons, List.forall_mem_singleton]
  refine ⟨?quotedColumn, ?quotedPart, ?literal, ?exponent, ?unlisted⟩
  case quotedColumn =>
    exact ⟨⟨⟨by decide, by decide⟩, fun word hword => nomatch hword⟩, trivial⟩
  case quotedPart =>
    refine ⟨⟨?_, by decide, ?_, ?_⟩, trivial⟩
    · intro word hword
      cases hword
      exact isWord_of_all (by decide) (by decide)
    · intro name hname word hword
      rw [List.mem_singleton.mp hname] at hword
      cases hword
    · intro last hlast
      cases Option.some.inj hlast
      exact ⟨by decide, by decide⟩
  case literal =>
    have hclosed : (textOf []).head? ≠ some '\'' := by decide
    exact ⟨hclosed, trivial⟩
  case exponent =>
    have hdigit : ∀ c ∈ ['1'], c.isDigit = true ∨ c = '.' :=
      List.forall_mem_singleton.mpr (.inl (by decide))
    have hrun : IsWord ['e', '5'] := isWord_of_all (by decide) (by decide)
    exact ⟨⟨⟨by decide, hdigit⟩,
      .inr ⟨hrun, by decide +kernel, by decide +kernel, .inl rfl⟩, hended⟩, trivial⟩
  case unlisted =>
    exact ⟨⟨isWord_of_all (by decide) (by decide), hended⟩, trivial⟩

/-- A quoted column gets a second prefix in a second run, and a qualified one a first; a literal
outside ASCII changes, and an exponent and a word that is not listed get a prefix. -/
theorem qualify_breaks_expressions :
    qualify "\"email\"" 'l' = "l.\"email\"" ∧ qualify "l.\"email\"" 'l' = "l.l.\"email\"" ∧
    qualify "x||'é'" 'l' = "l.x||'Ã©'" ∧ qualify "x*1e5" 'l' = "l.x*1l.e5" ∧
    qualify "x ilike 'a'" 'l' = "l.x l.ilike 'a'" ∧
    ∀ token ∈ missedTokens, WellFormed [token] ∧ ¬ OnlyAddsPrefixes 'l' [token] := by
  refine ⟨by decide +kernel, by decide +kernel, by decide +kernel, by decide +kernel,
    by decide +kernel, ?_⟩
  intro token hmem
  refine ⟨wellFormed_missedTokens token hmem, ?_⟩
  revert token
  rw [missedTokens, List.forall_mem_cons, List.forall_mem_cons, List.forall_mem_cons,
    List.forall_mem_cons, List.forall_mem_singleton]
  refine ⟨?_, ?_, ?_, ?_, ?_⟩
  · intro honly
    exact absurd honly.idempotent (by decide +kernel)
  all_goals
    intro honly
    exact absurd honly.prefixes (by decide +kernel)

end EntityResolution.Compile
