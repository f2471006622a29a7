/-
# Blocking expressions

A blocking expression is a sequence of tokens: literals, numbers, symbols, keywords, names of called
functions, and references to columns, which are qualified or not. Its text is what the tokens are
written as. Every token is read back from the text by the turns of the loop that scan it, and what
they push is the token, with a prefix before a column, or something longer.

So the lengths tell: `qualify` only adds prefixes exactly when no token gets longer than that.
-/

import EntityResolution.Compile.Qualify

namespace EntityResolution.Compile

/-- A name, bare or in double quotes. -/
inductive Name
  | bare (word : List Char)
  | quoted (text : List Char)

/-- A token of an expression. A number is its digits and points, then a letter or underscore with
what goes on like a word (an exponent, a suffix), then a sign with digits. -/
inductive Token
  | literal (text : List Char)
  | number (body run signed : List Char)
  | symbol (c : Char)
  | keyword (word : List Char)
  | call (name : List Char)
  | column (name : Name)
  | qualified (first : Name) (names : List Name)

/-- A text with its quotes doubled. -/
def doubled (quote : Char) (text : List Char) : List Char :=
  text.flatMap fun c => if c = quote then [quote, quote] else [c]

/-- A name as it is written. -/
def Name.written : Name → List Char
  | .bare word => word
  | .quoted text => '"' :: doubled '"' text ++ ['"']

/-- A token as it is written. -/
def Token.written : Token → List Char
  | .literal text => '\'' :: doubled '\'' text ++ ['\'']
  | .number body run signed => body ++ run ++ signed
  | .symbol c => [c]
  | .keyword word => word
  | .call name => name
  | .column name => name.written
  | .qualified first names => first.written ++ names.flatMap fun name => '.' :: name.written

/-- The text of an expression. -/
def textOf (tokens : List Token) : List Char := tokens.flatMap Token.written

/-- The text does not go on with a word character or a dot. -/
def Ended (rest : List Char) : Prop := Apart rest ∧ rest.head? ≠ some '.'

/-- A name and what comes after it. -/
def Name.Fits (rest : List Char) : Name → Prop
  | .bare word => IsWord word ∧ Ended rest
  | .quoted _ => rest.head? ≠ some '"' ∧ rest.head? ≠ some '.'

/-- A token and what comes after it: the text is read back as this token. -/
def Token.Fits (rest : List Char) : Token → Prop
  | .literal _ => rest.head? ≠ some '\''
  | .number body run signed =>
      (body ≠ [] ∧ ∀ c ∈ body, c.isDigit = true ∨ c = '.') ∧
      (run = [] ∧ signed = [] ∨ IsWord run ∧ isSqlWord run = false ∧
        isCall (signed ++ rest) = false ∧
        (signed = [] ∨ ∃ sign digits, signed = sign :: digits ∧ (sign = '+' ∨ sign = '-') ∧
          ∀ c ∈ digits, c.isDigit = true)) ∧
      Ended rest
  | .symbol c => isWordChar c = false ∧ c ≠ '\'' ∧ c ≠ '"' ∧ c ≠ '.'
  | .keyword word => IsWord word ∧ Ended rest
  | .call name => IsWord name ∧ Ended rest ∧ isCall rest = true
  | .column name => name.Fits rest ∧
      ∀ word, name = .bare word → isSqlWord word = false ∧ isCall rest = false
  | .qualified first names => (∀ word, first = .bare word → IsWord word) ∧
      names ≠ [] ∧ (∀ name ∈ names, ∀ word, name = .bare word → IsWord word) ∧
      ∀ last, names.getLast? = some last → last.Fits rest

/-- The tokens of an expression fit one after the other. -/
def WellFormed : List Token → Prop
  | [] => True
  | token :: tokens => token.Fits (textOf tokens) ∧ WellFormed tokens

/-- A quoted name as it is pushed: each quote inside ends one name and begins another one. -/
def broken (side : Char) (text : List Char) : List Char :=
  text.flatMap fun c => if c = '"' then ['"', side, '.', '"'] else [c]

/-- A part of a qualified name as it is pushed. -/
def Name.pushed (side : Char) : Name → List Char
  | .bare word => word
  | .quoted text => side :: '.' :: '"' :: broken side text ++ ['"']

/-- A token as it is pushed, before the rest of the text. -/
def Token.pushed (side : Char) (rest : List Char) : Token → List Char
  | .literal text => '\'' :: (doubled '\'' text).flatMap pushBytes ++ ['\'']
  | .number body run signed =>
      body ++ (if run = [] ∨ body.getLast? = some '.' then run else side :: '.' :: run) ++ signed
  | .symbol c => pushBytes c
  | .keyword word =>
      if isCall rest || isSqlWord word then word else side :: '.' :: word
  | .call name => name
  | .column (.bare word) => side :: '.' :: word
  | .column (.quoted text) => (Name.quoted text).pushed side
  | .qualified first names =>
      first.pushed side ++ names.flatMap fun name => '.' :: name.pushed side

/-- The expression as it is pushed. -/
def pushedAll (side : Char) : List Token → List Char
  | [] => []
  | token :: tokens => token.pushed side (textOf tokens) ++ pushedAll side tokens

section Reading

variable {side : Char} {prev : Option Char} {rest : List Char}

/-- Where a word may begin, no dot comes before. -/
def Ready (prev : Option Char) (text : List Char) : Prop :=
  prev = some '.' → Apart text

theorem literalTail_doubled (text rest : List Char) (hrest : rest.head? ≠ some '\'') :
    literalTail (doubled '\'' text ++ '\'' :: rest) =
      ((doubled '\'' text).flatMap pushBytes ++ ['\''], rest) := by
  induction text with
  | nil =>
      cases rest with
      | nil => rfl
      | cons c rest =>
          have hne : c ≠ '\'' := fun h => hrest (h ▸ rfl)
          change literalTail ('\'' :: c :: rest) = _
          rw [literalTail]
          · rfl
          · intro other hother
            exact hne (List.cons.inj hother).1
  | cons c text ih =>
      by_cases hquote : c = '\''
      · subst hquote
        have hpush : pushBytes '\'' = ['\''] := pushBytes_ascii (by decide)
        change literalTail ('\'' :: '\'' :: (doubled '\'' text ++ '\'' :: rest)) =
          (pushBytes '\'' ++ (pushBytes '\'' ++ (doubled '\'' text).flatMap pushBytes) ++ _, rest)
        rw [literalTail, ih, hpush]
        rfl
      · have hcons : doubled '\'' (c :: text) = c :: doubled '\'' text := by
          rw [doubled, List.flatMap_cons, if_neg hquote]
          rfl
        rw [hcons, List.cons_append, literalTail, ih, List.flatMap_cons, List.append_assoc]
        · intro _ hsame _
          exact hquote hsame
        · intro hsame
          exact hquote hsame

/-- Plain characters are copied one by one. -/
theorem scanned_copies {text : List Char} (hplain : ∀ c ∈ text, c.val ≤ 127 ∧
    isWordStart c = false ∧ c ≠ '\'' ∧ c ≠ '"') (rest : List Char) :
    scanned side prev (text ++ rest) = text ++ scanned side (text.getLast?.or prev) rest := by
  induction text generalizing prev with
  | nil => rfl
  | cons c text ih =>
      obtain ⟨hascii, hstart, hliteral, hquoted⟩ := hplain c List.mem_cons_self
      rw [List.cons_append, scanned_copied side prev hascii hstart hliteral hquoted,
        ih fun other hother => hplain other (List.mem_cons_of_mem _ hother), List.cons_append]
      cases text with
      | nil => rfl
      | cons other text =>
          rw [List.getLast?_cons_cons]
          cases hlast : (other :: text).getLast? with
          | none => simp at hlast
          | some last => rfl

/-- The scan after the first quote of a name. -/
def resumed (side : Char) (text : List Char) : List Char :=
  (quotedTail text).1 ++ scanned side (some '"') (quotedTail text).2

theorem resumed_close (text : List Char) :
    resumed side ('"' :: text) = '"' :: scanned side (some '"') text := by
  simp [resumed, quotedTail]

theorem resumed_cons {c : Char} (hne : c ≠ '"') (text : List Char) :
    resumed side (c :: text) = c :: resumed side text := by
  simp [resumed, quotedTail, hne]

/-- A quoted name is read up to the quote that ends it. -/
theorem resumed_doubled (text rest : List Char) :
    resumed side (doubled '"' text ++ '"' :: rest) =
      broken side text ++ '"' :: scanned side (some '"') rest := by
  induction text with
  | nil => exact resumed_close rest
  | cons c text ih =>
      by_cases hquote : c = '"'
      · subst hquote
        change resumed side ('"' :: '"' :: (doubled '"' text ++ '"' :: rest)) =
          '"' :: side :: '.' :: '"' :: (broken side text ++ _)
        rw [resumed_close, scanned_quoted, List.cons_append, ← ih]
        rfl
      · have hcons : doubled '"' (c :: text) = c :: doubled '"' text := by
          rw [doubled, List.flatMap_cons, if_neg hquote]
          rfl
        have hbroken : broken side (c :: text) = c :: broken side text := by
          rw [broken, List.flatMap_cons, if_neg hquote]
          rfl
        rw [hcons, hbroken, List.cons_append, resumed_cons hquote, ih]
        rfl

/-- A quoted name is pushed with a prefix. -/
theorem scanned_quotedName (text rest : List Char) :
    scanned side prev ((Name.quoted text).written ++ rest) =
      (Name.quoted text).pushed side ++ scanned side (some '"') rest := by
  have hwritten : (Name.quoted text).written ++ rest =
      '"' :: (doubled '"' text ++ '"' :: rest) := by
    simp [Name.written]
  have hpushed : (Name.quoted text).pushed side ++ scanned side (some '"') rest =
      side :: '.' :: '"' :: (broken side text ++ '"' :: scanned side (some '"') rest) := by
    simp [Name.pushed]
  rw [hwritten, hpushed, scanned_quoted, ← resumed_doubled]
  rfl

/-- After a word or a name no dot comes before. -/
theorem ready_of_word {word : List Char} (hword : IsWord word) (text : List Char) :
    Ready word.getLast? text := by
  intro hdot
  have hin : '.' ∈ word := List.mem_of_getLast? hdot
  exact absurd (hword.2 '.' hin) (by decide)

theorem ready_of_ne {c : Char} (hne : c ≠ '.') (text : List Char) : Ready (some c) text :=
  fun hdot => absurd (Option.some.inj hdot) hne

/-- A word does not begin behind a dot. -/
theorem ne_dot_of_ready {word : List Char} (hword : IsWord word)
    (hready : Ready prev (word ++ rest)) : (prev == some '.') = false := by
  rw [beq_eq_false_iff_ne]
  intro hdot
  obtain ⟨c, hhead, hstart⟩ := hword.1
  have happend : (word ++ rest).head? = some c := by
    rw [List.head?_append, hhead]
    rfl
  have hchar := hready hdot c happend
  rw [isWordChar_of_isWordStart hstart] at hchar
  cases hchar

/-- A word with no dot at either side is read alone. -/
theorem scanned_ended {word : List Char} (hword : IsWord word) (hended : Ended rest)
    (hready : Ready prev (word ++ rest)) :
    scanned side prev (word ++ rest) =
      (if isCall rest || isSqlWord word then word else side :: '.' :: word) ++
        scanned side word.getLast? rest := by
  have hafter : (rest.head? == some '.') = false := beq_eq_false_iff_ne.mpr hended.2
  rw [scanned_word side prev hword hended.1, staysBare, ne_dot_of_ready hword hready, hafter,
    Bool.false_or, Bool.false_or]

/-- A part of a qualified name. -/
theorem scanned_part {name : Name} (hword : ∀ word, name = .bare word → IsWord word ∧ Apart rest)
    (hdot : prev = some '.' ∨ rest.head? = some '.') :
    ∃ prev', Ready prev' rest ∧ scanned side prev (name.written ++ rest) =
      name.pushed side ++ scanned side prev' rest := by
  cases name with
  | quoted text =>
      exact ⟨some '"', ready_of_ne (by decide) rest, scanned_quotedName text rest⟩
  | bare word =>
      obtain ⟨hword, hapart⟩ := hword word rfl
      have hbare : staysBare prev word rest = true := by
        rw [staysBare]
        rcases hdot with rfl | hdot
        · rfl
        · rw [hdot, beq_self_eq_true, Bool.or_true, Bool.true_or, Bool.true_or]
      refine ⟨word.getLast?, ready_of_word hword rest, ?_⟩
      have hscan := scanned_word side prev hword hapart
      rw [hbare, if_pos rfl] at hscan
      exact hscan

theorem apart_dot (text : List Char) : Apart ('.' :: text) := by
  intro c hhead
  cases Option.some.inj hhead
  decide

/-- The parts of a qualified name behind the first one. -/
theorem scanned_names {names : List Name} (hne : names ≠ [])
    (hwords : ∀ name ∈ names, ∀ word, name = .bare word → IsWord word)
    (hlast : ∀ last, names.getLast? = some last → last.Fits rest) :
    ∃ prev', Ready prev' rest ∧
      scanned side prev ((names.flatMap fun name => '.' :: name.written) ++ rest) =
        (names.flatMap fun name => '.' :: name.pushed side) ++ scanned side prev' rest := by
  induction names generalizing prev with
  | nil => exact absurd rfl hne
  | cons name names ih =>
      have hfirst : ∀ text, (∀ word, name = .bare word → Apart text) →
          ∃ prev', Ready prev' text ∧ scanned side prev ('.' :: name.written ++ text) =
            '.' :: name.pushed side ++ scanned side prev' text := by
        intro text hapart
        have hpart : ∃ prev', Ready prev' text ∧ scanned side (some '.') (name.written ++ text) =
            name.pushed side ++ scanned side prev' text :=
          scanned_part (fun word hname =>
            ⟨hwords name List.mem_cons_self word hname, hapart word hname⟩) (.inl rfl)
        obtain ⟨prev', hready, hscan⟩ := hpart
        refine ⟨prev', hready, ?_⟩
        rw [List.cons_append, scanned_copied side prev (by decide) (by decide) (by decide)
          (by decide), hscan]
        rfl
      cases names with
      | nil =>
          have hfits := hlast name rfl
          rw [List.flatMap_singleton, List.flatMap_singleton]
          apply hfirst
          rintro word rfl
          exact hfits.2.1
      | cons second names =>
          obtain ⟨prev', _, hscan⟩ :=
            hfirst ((List.flatMap (fun name => '.' :: name.written) (second :: names)) ++ rest)
              (fun _ _ => apart_dot _)
          rcases @ih prev' (List.cons_ne_nil _ _)
            (fun other hother => hwords other (List.mem_cons_of_mem _ hother))
            (fun last hend => hlast last (by rw [List.getLast?_cons_cons]; exact hend)) with
            ⟨prev'', hready, hrest⟩
          have hcons : ∀ part : Name → List Char, (name :: second :: names).flatMap part =
              part name ++ (second :: names).flatMap part := fun _ => List.flatMap_cons
          refine ⟨prev'', hready, ?_⟩
          rw [hcons, hcons, List.append_assoc, hscan, hrest, List.append_assoc]

theorem plain_of_digit {c : Char} (hdigit : c.isDigit = true ∨ c = '.') :
    c.val ≤ 127 ∧ isWordStart c = false ∧ c ≠ '\'' ∧ c ≠ '"' := by
  rcases hdigit with hdigit | rfl
  · have hword : isWordChar c = true := by simp [isWordChar, Char.isAlphanum, hdigit]
    have hstart : isWordStart c = false := by
      by_contra hstart
      rw [Bool.not_eq_false, isWordStart, Bool.or_eq_true, beq_iff_eq] at hstart
      rcases hstart with hletter | rfl
      · simp only [Char.isDigit, Char.isAlpha, Char.isUpper, Char.isLower, Bool.or_eq_true,
          Bool.and_eq_true, decide_eq_true_eq, UInt32.le_iff_toNat_le, ge_iff_le] at hdigit hletter
        have hupper : 'A'.val.toNat = 65 := rfl
        have hlower : 'a'.val.toNat = 97 := rfl
        have hnine : '9'.val.toNat = 57 := rfl
        omega
      · exact absurd hdigit (by decide)
    refine ⟨ascii_of_isWordChar hword, hstart, ?_, ?_⟩
    · rintro rfl
      exact absurd hdigit (by decide)
    · rintro rfl
      exact absurd hdigit (by decide)
  · decide

/-- A number is read up to the rest. -/
theorem scanned_number {body run signed : List Char}
    (hfits : (Token.number body run signed).Fits rest) :
    ∃ prev', Ready prev' rest ∧ scanned side prev ((Token.number body run signed).written ++ rest) =
      (Token.number body run signed).pushed side rest ++ scanned side prev' rest := by
  obtain ⟨⟨hne, hbody⟩, hrun, hapart, hdot⟩ := hfits
  have hready : ∀ prev', Ready prev' rest := fun _ _ => hapart
  have hcopied : ∀ text, scanned side prev (body ++ text) =
      body ++ scanned side (body.getLast?.or prev) text :=
    scanned_copies fun c hc => plain_of_digit (hbody c hc)
  have hlast : body.getLast?.or prev = body.getLast? := by
    cases hend : body.getLast? with
    | none => exact absurd (List.getLast?_eq_none_iff.mp hend) hne
    | some c => rfl
  simp only [Token.written, Token.pushed, List.append_assoc]
  rw [hcopied, hlast]
  rcases hrun with ⟨rfl, rfl⟩ | ⟨hword, hplain, hcall, hsigned⟩
  · refine ⟨body.getLast?, hready _, ?_⟩
    rw [if_pos (Or.inl rfl)]
    rfl
  · have hrunNe : run ≠ [] := by
      rintro rfl
      obtain ⟨c, hhead, _⟩ := hword.1
      cases hhead
    have hafter : Apart (signed ++ rest) ∧ (signed ++ rest).head? ≠ some '.' := by
      rcases hsigned with rfl | ⟨sign, digits, rfl, hsign, _⟩
      · exact ⟨hapart, hdot⟩
      · rcases hsign with rfl | rfl
        · refine ⟨?_, by simp⟩
          intro c hhead
          cases Option.some.inj hhead
          decide
        · refine ⟨?_, by simp⟩
          intro c hhead
          cases Option.some.inj hhead
          decide
    have hstays : (staysBare body.getLast? run (signed ++ rest) = true) ↔
        (run = [] ∨ body.getLast? = some '.') := by
      rw [staysBare, hcall, hplain, beq_eq_false_iff_ne.mpr hafter.2]
      simp [hrunNe]
    have hpiece : (if staysBare body.getLast? run (signed ++ rest) = true then run
        else side :: '.' :: run) =
        if run = [] ∨ body.getLast? = some '.' then run else side :: '.' :: run :=
      if_congr hstays rfl rfl
    rw [scanned_word side _ hword hafter.1, hpiece]
    rcases hsigned with rfl | ⟨sign, digits, rfl, hsign, hdigits⟩
    · exact ⟨_, hready _, rfl⟩
    · have hplainSigned : ∀ c ∈ sign :: digits, c.val ≤ 127 ∧ isWordStart c = false ∧
          c ≠ '\'' ∧ c ≠ '"' := by
        intro c hc
        rcases List.mem_cons.mp hc with rfl | hc
        · rcases hsign with rfl | rfl
          · decide
          · decide
        · exact plain_of_digit (.inl (hdigits c hc))
      rw [scanned_copies hplainSigned]
      exact ⟨_, hready _, rfl⟩

/-- A token is read back: what is pushed for it, and the scan of the rest. -/
theorem scanned_token {token : Token} (hfits : token.Fits rest)
    (hready : Ready prev (token.written ++ rest)) :
    ∃ prev', Ready prev' rest ∧ scanned side prev (token.written ++ rest) =
      token.pushed side rest ++ scanned side prev' rest := by
  cases token with
  | literal text =>
      refine ⟨some '\'', ready_of_ne (by decide) rest, ?_⟩
      have hwritten : (Token.literal text).written ++ rest =
          '\'' :: (doubled '\'' text ++ '\'' :: rest) := by
        simp [Token.written]
      rw [hwritten, scanned_literal, literalTail_doubled text rest hfits]
      rfl
  | number body run signed => exact scanned_number hfits
  | symbol c =>
      obtain ⟨hword, hliteral, hquoted, hdot⟩ := hfits
      have hstart : isWordStart c = false := by
        by_contra hstart
        rw [Bool.not_eq_false] at hstart
        rw [isWordChar_of_isWordStart hstart] at hword
        cases hword
      exact ⟨some c, ready_of_ne hdot rest, scanned_other side prev hstart hliteral hquoted rest⟩
  | keyword word =>
      exact ⟨_, ready_of_word hfits.1 rest, scanned_ended hfits.1 hfits.2 hready⟩
  | call name =>
      refine ⟨_, ready_of_word hfits.1 rest, ?_⟩
      rw [Token.written, scanned_ended hfits.1 hfits.2.1 hready, hfits.2.2, Bool.true_or,
        if_pos rfl]
      rfl
  | column name =>
      cases name with
      | quoted text =>
          exact ⟨some '"', ready_of_ne (by decide) rest, scanned_quotedName text rest⟩
      | bare word =>
          obtain ⟨⟨hword, hended⟩, hplain⟩ := hfits
          refine ⟨_, ready_of_word hword rest, ?_⟩
          rw [Token.written, Name.written, scanned_ended hword hended hready, (hplain word rfl).1,
            (hplain word rfl).2, Bool.or_false, if_neg Bool.false_ne_true]
          rfl
  | qualified first names =>
      obtain ⟨hfirst, hne, hwords, hlast⟩ := hfits
      have hdot : ((names.flatMap fun name => '.' :: name.written) ++ rest).head? = some '.' := by
        cases names with
        | nil => exact absurd rfl hne
        | cons name names => rfl
      have hafter : ∀ text : List Char, text.head? = some '.' → Apart text := by
        intro text hhead c hc
        rw [hhead] at hc
        cases Option.some.inj hc
        decide
      have hpart : ∃ prev', Ready prev' ((names.flatMap fun name => '.' :: name.written) ++ rest) ∧
          scanned side prev (first.written ++
            ((names.flatMap fun name => '.' :: name.written) ++ rest)) =
          first.pushed side ++
            scanned side prev' ((names.flatMap fun name => '.' :: name.written) ++ rest) :=
        scanned_part (fun word hname => ⟨hfirst word hname, hafter _ hdot⟩) (.inr hdot)
      obtain ⟨prev', _, hscan⟩ := hpart
      have hnames : ∃ prev'', Ready prev'' rest ∧
          scanned side prev' ((names.flatMap fun name => '.' :: name.written) ++ rest) =
            (names.flatMap fun name => '.' :: name.pushed side) ++ scanned side prev'' rest :=
        scanned_names hne hwords hlast
      obtain ⟨prev'', hready', hscan'⟩ := hnames
      refine ⟨prev'', hready', ?_⟩
      simp only [Token.written, Token.pushed, List.append_assoc]
      rw [hscan, hscan']

end Reading

/-- The run lemma: an expression is pushed token by token. -/
theorem scanned_textOf {side : Char} {tokens : List Token} (hwell : WellFormed tokens)
    {prev : Option Char} (hready : Ready prev (textOf tokens)) :
    scanned side prev (textOf tokens) = pushedAll side tokens := by
  induction tokens generalizing prev with
  | nil => rfl
  | cons token tokens ih =>
      have htoken : ∃ prev', Ready prev' (textOf tokens) ∧
          scanned side prev (token.written ++ textOf tokens) =
            token.pushed side (textOf tokens) ++ scanned side prev' (textOf tokens) :=
        scanned_token hwell.1 hready
      obtain ⟨prev', hready', hscan⟩ := htoken
      change scanned side prev (token.written ++ textOf tokens) = _
      rw [hscan, ih hwell.2 hready', pushedAll]

end EntityResolution.Compile
