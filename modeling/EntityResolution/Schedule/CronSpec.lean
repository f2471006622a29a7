/-
# Parsing against the grammar

A field is accepted when every term between its commas is one of the grammar, plus signs allowed,
when no step leaves `u32`, and when some value is taken. The bits of its mask are the values taken
from its terms: those that the terms denote, except for a day-of-week range that ends at 7, of
which at most Sunday is taken.
-/

import EntityResolution.Schedule.CronGrammar

namespace EntityResolution.Schedule

open EntityResolution.Collections EntityResolution.Numerals EntityResolution.Identity
  EntityResolution.Golden

theorem readRange_parseU32_iff {text : List Char} {range : Range} :
    readRange parseU32 text = some range ↔ readRange signedNumeral text = some range ∧
      (match range with
        | .star => True
        | .value a => a < 2 ^ 32
        | .between a b => a < 2 ^ 32 ∧ b < 2 ^ 32) := by
  rw [readRange, readRange]
  split_ifs with hstar
  · rw [Option.some_inj]
    exact ⟨fun h => ⟨h, by rw [← h]; trivial⟩, fun h => h.1⟩
  · cases splitOnce '-' text with
    | none =>
        simp only [Option.map_eq_some_iff, parseU32_eq_some_iff]
        apply Iff.intro
        · rintro ⟨a, ⟨ha, hbound⟩, rfl⟩
          exact ⟨⟨a, ha, rfl⟩, hbound⟩
        · rintro ⟨⟨a, ha, rfl⟩, hbound⟩
          exact ⟨a, ⟨ha, hbound⟩, rfl⟩
    | some parts =>
        simp only [Option.bind_eq_bind, Option.bind_eq_some_iff, Option.pure_def, Option.some_inj,
          parseU32_eq_some_iff]
        apply Iff.intro
        · rintro ⟨a, ⟨ha, hbound⟩, b, ⟨hb, hbound'⟩, rfl⟩
          exact ⟨⟨a, ha, b, hb, rfl⟩, hbound, hbound'⟩
        · rintro ⟨⟨a, ha, b, hb, rfl⟩, hbound, hbound'⟩
          exact ⟨a, ⟨ha, hbound⟩, b, ⟨hb, hbound'⟩, rfl⟩

theorem within_iff {kind : FieldKind} {range : Range} :
    range.Within kind ↔ range.Upward ∧ ¬ (foldSunday kind.name (range.ends kind).1 < kind.min ∨
      foldSunday kind.name (range.ends kind).2 > kind.max) := by
  rw [foldSunday_eq, foldSunday_eq]
  rcases range with _ | a | ⟨a, b⟩
  · simp only [Range.Within, Range.Upward, Range.ends, true_iff, true_and]
    cases kind <;> decide
  · simp only [Range.Within, Range.Upward, Range.ends, true_and]
    cases kind <;> simp only [FieldKind.min, FieldKind.max, FieldKind.last] <;>
      split_ifs <;> simp_all <;> omega
  · simp only [Range.Within, Range.Upward, Range.ends]
    cases kind <;> simp only [FieldKind.min, FieldKind.max, FieldKind.last] <;>
      split_ifs <;> simp_all <;> omega

theorem last_lt (kind : FieldKind) : kind.last < 2 ^ 31 := by cases kind <;> decide

theorem Term.high_le {kind : FieldKind} {term : Term} (hvalid : term.Valid kind) :
    kind.min ≤ term.low kind ∧ term.high kind ≤ kind.max := by
  have hbounds := (within_iff.mp hvalid.1).2
  rw [not_or, not_lt, not_lt] at hbounds
  exact hbounds

/-- The ends of a range of the field are `u32`. -/
theorem readRange_parseU32_of_within {kind : FieldKind} {text : List Char} {range : Range}
    (hwithin : range.Within kind) :
    readRange parseU32 text = some range ↔ readRange signedNumeral text = some range := by
  rw [readRange_parseU32_iff]
  have hlast := last_lt kind
  rcases range with _ | a | ⟨a, b⟩
  · simp
  · have ha := hwithin.2
    exact and_iff_left (by simp only; omega)
  · have hb := hwithin.2
    exact and_iff_left (by simp only; omega)

/-- The term that is read in a round of the loop. -/
def ReadAs (kind : FieldKind) (text : List Char) (term : Term) : Prop :=
  TermText signedNumeral text term ∧ term.Valid kind ∧ term.Fits kind

/-- The bits of a field after the terms that were read. -/
def Extends (kind : FieldKind) (terms : List Term) (state state' : Field) : Prop :=
  (∀ i, state'.mask.testBit i = true ↔
    state.mask.testBit i = true ∨ ∃ term ∈ terms, term.Takes kind (i + kind.min)) ∧
  (state'.wildcard = true ↔ state.wildcard = true ∨ ∃ term ∈ terms, term.range = .star)

theorem Extends.unique {kind : FieldKind} {terms : List Term} {state first second : Field}
    (hfirst : Extends kind terms state first) (hsecond : Extends kind terms state second) :
    first = second := by
  obtain ⟨mask, wildcard⟩ := first
  obtain ⟨mask', wildcard'⟩ := second
  have hmask : mask = mask' := by
    apply Nat.eq_of_testBit_eq
    intro i
    exact Bool.eq_iff_iff.mpr ((hfirst.1 i).trans (hsecond.1 i).symm)
  have hwildcard : wildcard = wildcard' :=
    Bool.eq_iff_iff.mpr (hfirst.2.trans hsecond.2.symm)
  rw [hmask, hwildcard]

/-- The loop over the values of a term. -/
theorem fillMask_term {kind : FieldKind} {term : Term} (mask : ℕ) (hvalid : term.Valid kind)
    (hfits : term.Fits kind) :
    ∃ filled, fillMask kind.min (term.high kind) term.step (term.high kind + 1) (term.low kind)
        mask = .ok filled ∧
      ∀ i, filled.testBit i = true ↔ mask.testBit i = true ∨ term.Takes kind (i + kind.min) := by
  have hbounds := term.high_le hvalid
  have hmax : kind.max < 2 ^ 31 := by cases kind <;> decide
  have hhigh : term.high kind < 2 ^ 31 := by omega
  exact fillMask_spec hvalid.2 hhigh _ _ mask hbounds.1 (by omega) hfits.2

/-- A round that ends well has stayed within `u32`. -/
theorem fits_of_fillMask {kind : FieldKind} {term : Term} {mask filled : ℕ}
    (hfilled : fillMask kind.min (term.high kind) term.step (term.high kind + 1) (term.low kind)
      mask = .ok filled) : term.low kind ≤ term.high kind →
      term.low kind + term.step < 2 ^ 32 := by
  intro hloop
  by_contra hover
  rw [fillMask_overflow hloop (by omega)] at hfilled
  cases hfilled

theorem readTerm_eq_some_iff {number : List Char → Option ℕ} {text : List Char} {term : Term} :
    readTerm number text = some term ↔ ∃ range,
      readRange number range = some term.range ∧
        ((splitOnce '/' text = none ∧ range = text ∧ term.step = 1) ∨
          ∃ digits, splitOnce '/' text = some (range, digits) ∧
            number digits = some term.step) := by
  rw [readTerm]
  obtain ⟨range, step⟩ := term
  cases splitOnce '/' text with
  | none =>
      simp only [Option.map_eq_some_iff, Term.mk.injEq]
      apply Iff.intro
      · rintro ⟨a, ha, rfl, rfl⟩
        exact ⟨text, ha, .inl ⟨trivial, rfl, rfl⟩⟩
      · rintro ⟨part, hpart, ⟨-, rfl, hstep⟩ | ⟨digits, hsplit, -⟩⟩
        · exact ⟨range, hpart, rfl, hstep.symm⟩
        · cases hsplit
  | some parts =>
      obtain ⟨first, second⟩ := parts
      simp only [Option.bind_eq_bind, Option.bind_eq_some_iff, Option.pure_def, Option.some_inj,
        Term.mk.injEq]
      apply Iff.intro
      · rintro ⟨a, ha, b, hb, rfl, rfl⟩
        exact ⟨first, ha, .inr ⟨second, rfl, hb⟩⟩
      · rintro ⟨part, hpart, ⟨hnone, -⟩ | ⟨digits, hsplit, hb⟩⟩
        · cases hnone
        · cases hsplit
          exact ⟨range, hpart, step, hb, rfl, rfl⟩

/-- A term for whose values the loop is started: it is valid, and its step is a `u32`. -/
def Started (kind : FieldKind) (text : List Char) (term : Term) : Prop :=
  TermText signedNumeral text term ∧ term.Valid kind ∧ term.step < 2 ^ 32

theorem started_iff {kind : FieldKind} {text : List Char} {term : Term} :
    Started kind text term ↔ term.range.Within kind ∧ ∃ range,
      readRange parseU32 range = some term.range ∧
        ((splitOnce '/' text = none ∧ range = text ∧ term.step = 1) ∨
          ∃ digits, splitOnce '/' text = some (range, digits) ∧ parseU32 digits = some term.step ∧
            1 ≤ term.step) := by
  rw [Started, termText_iff numberChars_signedNumeral, readTerm_eq_some_iff, Term.Valid]
  apply Iff.intro
  · rintro ⟨⟨range, hrange, hstep⟩, hvalid, hfits⟩
    refine ⟨hvalid.1, range, (readRange_parseU32_of_within hvalid.1).mpr hrange, ?_⟩
    rcases hstep with hplain | ⟨digits, hsplit, hdigits⟩
    · exact .inl hplain
    · exact .inr ⟨digits, hsplit, parseU32_eq_some_iff.mpr ⟨hdigits, hfits⟩, hvalid.2⟩
  · rintro ⟨hwithin, range, hrange, hstep⟩
    have hread := (readRange_parseU32_of_within hwithin).mp hrange
    rcases hstep with ⟨hnone, htext, hone⟩ | ⟨digits, hsplit, hdigits, hone⟩
    · exact ⟨⟨range, hread, .inl ⟨hnone, htext, hone⟩⟩, ⟨hwithin, by omega⟩, by omega⟩
    · obtain ⟨hdigits, hsmall⟩ := parseU32_eq_some_iff.mp hdigits
      exact ⟨⟨range, hread, .inr ⟨digits, hsplit, hdigits⟩⟩, ⟨hwithin, hone⟩, hsmall⟩

theorem readAs_iff_started {kind : FieldKind} {text : List Char} {term : Term} :
    ReadAs kind text term ↔ Started kind text term ∧ term.Fits kind := by
  rw [ReadAs, Started, Term.Fits]
  tauto

theorem readAs_iff {kind : FieldKind} {text : List Char} {term : Term} :
    ReadAs kind text term ↔ term.Fits kind ∧ term.range.Within kind ∧ ∃ range,
      readRange parseU32 range = some term.range ∧
        ((splitOnce '/' text = none ∧ range = text ∧ term.step = 1) ∨
          ∃ digits, splitOnce '/' text = some (range, digits) ∧ parseU32 digits = some term.step ∧
            1 ≤ term.step) := by
  rw [readAs_iff_started, started_iff, and_comm]

theorem readRange_eq_star_iff {number : List Char → Option ℕ} {text : List Char} {range : Range}
    (hread : readRange number text = some range) : range = .star ↔ text = ['*'] := by
  rw [readRange] at hread
  split_ifs at hread with hstar
  · rw [Option.some_inj] at hread
    exact iff_of_true hread.symm hstar
  · apply iff_of_false _ hstar
    rintro rfl
    split at hread
    · simp [Option.bind_eq_some_iff] at hread
    · simp at hread

/-- A round that reads a term takes its values. -/
theorem extends_of_fillMask {kind : FieldKind} {term : Term} {state : Field} {filled : ℕ}
    {part : List Char} (hvalid : term.Valid kind) (hfits : term.Fits kind)
    (hpart : readRange parseU32 part = some term.range)
    (hfilled : fillMask kind.min (term.high kind) term.step (term.high kind + 1) (term.low kind)
      state.mask = .ok filled) :
    Extends kind [term] state ⟨filled, state.wildcard || part == ['*']⟩ := by
  obtain ⟨filled', hfilled', hbits⟩ := fillMask_term state.mask hvalid hfits
  rw [hfilled, Except.ok.injEq] at hfilled'
  subst hfilled'
  refine ⟨fun i => by simpa using hbits i, ?_⟩
  simp only [Bool.or_eq_true, beq_iff_eq, List.mem_singleton, exists_eq_left]
  rw [readRange_eq_star_iff hpart]

theorem not_started_nil {kind : FieldKind} {term : Term} : ¬ Started kind [] term := by
  intro hstarted
  obtain ⟨part, hpart, ⟨-, rfl, -⟩ | ⟨digits, hsplit, -⟩⟩ := (started_iff.mp hstarted).2
  · have hnone : readRange parseU32 [] = none := by decide
    rw [hnone] at hpart
    cases hpart
  · have hnone : splitOnce '/' [] = none := by decide
    rw [hnone] at hsplit
    cases hsplit

theorem not_readAs_nil {kind : FieldKind} {term : Term} : ¬ ReadAs kind [] term := by
  intro hread
  exact not_started_nil (readAs_iff_started.mp hread).1

theorem parseTerm_eq_ok_iff {kind : FieldKind} {spec text : List Char} {state state' : Field} :
    parseTerm spec kind.name kind.min kind.max state text = .ok state' ↔
      ∃ term, ReadAs kind text term ∧ Extends kind [term] state state' := by
  rw [parseTerm]
  by_cases hnil : text = []
  · rw [if_pos hnil, hnil]
    apply iff_of_false
    · intro h
      cases h
    · rintro ⟨term, hread, -⟩
      exact not_readAs_nil hread
  · simp only [if_neg hnil, bind_eq_ok_iff, Prod.exists, splitStep_eq_ok_iff, rangeEnds_eq_ok_iff]
    apply Iff.intro
    · rintro ⟨part, step, hstep, lo, hi, ⟨range, hpart, hupward, hends⟩, hrest⟩
      have hlo : lo = (range.ends kind).1 := congrArg Prod.fst hends
      have hhi : hi = (range.ends kind).2 := congrArg Prod.snd hends
      subst hlo hhi
      split_ifs at hrest with hcheck
      obtain ⟨filled, hfilled, hstate⟩ := bind_eq_ok_iff.mp hrest
      cases hstate
      have hwithin : range.Within kind := within_iff.mpr ⟨hupward, hcheck⟩
      have hstep32 : step < 2 ^ 32 := by
        rcases hstep with ⟨-, -, rfl⟩ | ⟨digits, -, hdigits, -⟩
        · decide
        · exact (parseU32_eq_some_iff.mp hdigits).2
      have hread : ReadAs kind text ⟨range, step⟩ :=
        readAs_iff.mpr ⟨⟨hstep32, fits_of_fillMask hfilled⟩, hwithin, part, hpart, hstep⟩
      exact ⟨⟨range, step⟩, hread, extends_of_fillMask hread.2.1 hread.2.2 hpart hfilled⟩
    · rintro ⟨term, hread, hextends⟩
      obtain ⟨hfits, hwithin, part, hpart, hstep⟩ := readAs_iff.mp hread
      have hcheck := within_iff.mp hwithin
      obtain ⟨filled, hfilled, -⟩ := fillMask_term state.mask hread.2.1 hfits
      refine ⟨part, term.step, hstep, (term.range.ends kind).1, (term.range.ends kind).2,
        ⟨term.range, hpart, hcheck.1, rfl⟩, ?_⟩
      rw [if_neg hcheck.2]
      refine bind_eq_ok_iff.mpr ⟨filled, hfilled, ?_⟩
      have hsame := (extends_of_fillMask hread.2.1 hfits hpart hfilled).unique hextends
      rw [← hsame]
      rfl

theorem extends_nil {kind : FieldKind} {state state' : Field} :
    Extends kind [] state state' ↔ state = state' := by
  have hself : Extends kind [] state state := ⟨fun i => by simp, by simp⟩
  apply Iff.intro
  · exact hself.unique
  · rintro rfl
    exact hself

theorem extends_cons_iff {kind : FieldKind} {term : Term} {terms : List Term}
    {state middle state' : Field} (hfirst : Extends kind [term] state middle) :
    Extends kind (term :: terms) state state' ↔ Extends kind terms middle state' := by
  rw [Extends, Extends]
  simp only [hfirst.1, hfirst.2, List.mem_cons, List.not_mem_nil, or_false, exists_eq_or_imp,
    exists_eq_left, or_assoc]

theorem exists_extends {kind : FieldKind} {text : List Char} {term : Term} (state : Field)
    (hread : ReadAs kind text term) : ∃ state', Extends kind [term] state state' := by
  obtain ⟨hfits, -, part, hpart, -⟩ := readAs_iff.mp hread
  obtain ⟨filled, hfilled, -⟩ := fillMask_term state.mask hread.2.1 hfits
  exact ⟨_, extends_of_fillMask hread.2.1 hfits hpart hfilled⟩

theorem foldlM_parseTerm_eq_ok_iff {kind : FieldKind} {spec : List Char}
    {texts : List (List Char)} {state state' : Field} :
    texts.foldlM (parseTerm spec kind.name kind.min kind.max) state = .ok state' ↔
      ∃ terms, List.Forall₂ (ReadAs kind) texts terms ∧ Extends kind terms state state' := by
  induction texts generalizing state with
  | nil =>
      simp only [List.foldlM_nil, List.forall₂_nil_left_iff, exists_eq_left, extends_nil]
      exact ⟨fun h => Except.ok.inj h, fun h => congrArg Except.ok h⟩
  | cons text texts ih =>
      rw [List.foldlM_cons, bind_eq_ok_iff]
      apply Iff.intro
      · rintro ⟨middle, hterm, hrest⟩
        obtain ⟨term, hread, hfirst⟩ := parseTerm_eq_ok_iff.mp hterm
        obtain ⟨terms, hreads, hextends⟩ := ih.mp hrest
        exact ⟨term :: terms, .cons hread hreads, (extends_cons_iff hfirst).mpr hextends⟩
      · rintro ⟨terms, hreads, hextends⟩
        rcases hreads with _ | ⟨hread, hreads⟩
        next term terms =>
        obtain ⟨middle, hfirst⟩ := exists_extends state hread
        exact ⟨middle, parseTerm_eq_ok_iff.mpr ⟨term, hread, hfirst⟩,
          ih.mpr ⟨terms, hreads, (extends_cons_iff hfirst).mp hextends⟩⟩

theorem parseField_eq_ok_iff {kind : FieldKind} {spec : List Char} {field : Field} :
    parseField spec kind.name kind.min kind.max = .ok field ↔
      ∃ terms, List.Forall₂ (ReadAs kind) (spec.splitOn ',') terms ∧
        Extends kind terms ⟨0, false⟩ field ∧ field.mask ≠ 0 := by
  rw [parseField, bind_eq_ok_iff]
  simp only [foldlM_parseTerm_eq_ok_iff]
  apply Iff.intro
  · rintro ⟨parsed, ⟨terms, hreads, hextends⟩, hrest⟩
    split_ifs at hrest with hzero
    cases hrest
    exact ⟨terms, hreads, hextends, hzero⟩
  · rintro ⟨terms, hreads, hextends, hne⟩
    exact ⟨field, ⟨terms, hreads, hextends⟩, if_neg hne⟩

theorem matches_iff {kind : FieldKind} {terms : List Term} {field : Field}
    (hvalid : ∀ term ∈ terms, term.Valid kind) (hextends : Extends kind terms ⟨0, false⟩ field)
    (v : ℕ) : field.matches v kind.min = true ↔ ∃ term ∈ terms, term.Takes kind v := by
  have hmax : kind.max < 64 := by cases kind <;> decide
  have hbits := hextends.1 (v - kind.min)
  rw [Nat.zero_testBit, or_iff_right (by decide)] at hbits
  have hmask : (field.mask &&& 1 <<< (v - kind.min)) ≠ 0 ↔ field.mask.testBit (v - kind.min) := by
    rw [Nat.one_shiftLeft, Nat.and_two_pow]
    cases field.mask.testBit (v - kind.min) <;> simp
  rw [Field.matches]
  split_ifs with hmin
  · have hback : v - kind.min + kind.min = v := by omega
    rw [Bool.and_eq_true, decide_eq_true_iff, bne_iff_ne, hmask, hbits, hback]
    apply and_iff_right_of_imp
    rintro ⟨term, hmem, htakes⟩
    have hhigh := term.high_le (hvalid term hmem)
    have hle := htakes.2.1
    omega
  · apply iff_of_false (by simp)
    rintro ⟨term, hmem, htakes⟩
    have hlow := term.high_le (hvalid term hmem)
    have hle := htakes.1
    omega

theorem mask_ne_zero_iff {kind : FieldKind} {terms : List Term} {field : Field}
    (hvalid : ∀ term ∈ terms, term.Valid kind) (hextends : Extends kind terms ⟨0, false⟩ field) :
    field.mask ≠ 0 ↔ ∃ term ∈ terms, term.low kind ≤ term.high kind := by
  apply Iff.intro
  · intro hne
    obtain ⟨i, hi⟩ := Nat.exists_testBit_of_ne_zero hne
    rcases (hextends.1 i).mp hi with hzero | ⟨term, hmem, htakes⟩
    · simp at hzero
    · exact ⟨term, hmem, htakes.1.trans htakes.2.1⟩
  · rintro ⟨term, hmem, hle⟩ hzero
    have hback : term.low kind - kind.min + kind.min = term.low kind := by
      have hlow := term.high_le (hvalid term hmem)
      omega
    have hbit := (hextends.1 (term.low kind - kind.min)).mpr
      (.inr ⟨term, hmem, by rw [hback]; exact ⟨le_rfl, hle, by simp⟩⟩)
    rw [hzero] at hbit
    simp at hbit

end EntityResolution.Schedule
