/-
# What is taken against what is denoted

Sunday is folded to 0 at the two ends of a range before the range is run through, so that a
day-of-week range from an earlier day to 7 runs from that day to 0: nothing is taken from it, or
Sunday alone when it begins at 0. The other terms are taken for what they denote. An expression is
parsed and matched as documented exactly when such ranges lose nothing, no number has a plus sign
and no step leaves `u32`, save that these may also refuse an expression that should be refused.
-/

import EntityResolution.Schedule.CronSpec

namespace EntityResolution.Schedule

open EntityResolution.Collections EntityResolution.Numerals EntityResolution.Identity
  EntityResolution.Golden

/-- A day-of-week range from a day `a` before the last Sunday up to it. -/
def Term.ToSunday (kind : FieldKind) (term : Term) (a : ℕ) : Prop :=
  kind = .dayOfWeek ∧ a < 7 ∧ term.range = .between a 7

/-- Other day-of-week ranges end before the last Sunday, or are it. -/
theorem ends_of_other {term : Term} (hvalid : term.Valid .dayOfWeek)
    (hother : ∀ a, ¬ term.ToSunday .dayOfWeek a) :
    ((term.range.ends .dayOfWeek).1 < 7 ∧ (term.range.ends .dayOfWeek).2 < 7) ∨
      term.range.ends .dayOfWeek = (7, 7) := by
  obtain ⟨_ | a | ⟨a, b⟩, step⟩ := term
  · exact .inl ⟨show 0 < 7 by omega, show 6 < 7 by omega⟩
  · have ha : a ≤ 7 := hvalid.1.2
    rcases Nat.lt_or_eq_of_le ha with hlt | rfl
    · exact .inl ⟨hlt, hlt⟩
    · exact .inr rfl
  · have hab : a ≤ b := hvalid.1.2.1
    have hb : b ≤ 7 := hvalid.1.2.2
    rcases Nat.lt_or_eq_of_le hb with hlt | rfl
    · exact .inl ⟨by simpa only [Range.ends] using by omega, hlt⟩
    · rcases Nat.lt_or_eq_of_le hab with hlt | rfl
      · exact absurd ⟨rfl, hlt, rfl⟩ (hother a)
      · exact .inr rfl

/-- A term is taken for what it denotes, unless it runs to the last Sunday. -/
theorem takes_iff_denotes {kind : FieldKind} {term : Term} (hvalid : term.Valid kind)
    (hother : ∀ a, ¬ term.ToSunday kind a) (v : ℕ) : term.Takes kind v ↔ term.Denotes kind v := by
  rw [Term.Takes, Term.Denotes, Term.low, Term.high, foldSunday_eq, foldSunday_eq]
  simp only [Term.Holds, FieldKind.stands]
  by_cases hday : kind = .dayOfWeek
  · subst hday
    simp only [true_and, if_true]
    rcases ends_of_other hvalid hother with ⟨hlo, hhi⟩ | hends
    · rw [if_neg (by omega), if_neg (by omega)]
      apply Iff.intro
      · exact fun h => ⟨v, h, by omega⟩
      · rintro ⟨w, h, rfl⟩
        rw [Nat.mod_eq_of_lt (by omega)]
        exact h
    · rw [hends]
      simp only [if_true]
      apply Iff.intro
      · rintro ⟨-, hv, -⟩
        exact ⟨7, ⟨le_rfl, le_rfl, by simp⟩, by omega⟩
      · rintro ⟨w, ⟨hlo, hhi, -⟩, rfl⟩
        have hw : w = 7 := by omega
        subst hw
        simp
  · rw [if_neg fun h => hday h.1, if_neg fun h => hday h.1]
    simp only [if_neg hday]
    exact ⟨fun h => ⟨v, h, rfl⟩, fun ⟨w, h, hv⟩ => hv ▸ h⟩

/-- At most Sunday is taken from a range that runs to the last Sunday. -/
theorem takes_toSunday {kind : FieldKind} {term : Term} {a : ℕ} (hrange : term.ToSunday kind a)
    (v : ℕ) : term.Takes kind v ↔ a = 0 ∧ v = 0 := by
  obtain ⟨rfl, ha, hrange⟩ := hrange
  have hlow : term.low .dayOfWeek = a := by
    rw [Term.low, foldSunday_eq, hrange, Range.ends]
    exact if_neg (by omega)
  have hhigh : term.high .dayOfWeek = 0 := by
    rw [Term.high, foldSunday_eq, hrange, Range.ends]
    rfl
  rw [Term.Takes, hlow, hhigh]
  apply Iff.intro
  · rintro ⟨hle, hv, -⟩
    omega
  · rintro ⟨rfl, rfl⟩
    simp

/-- A term denotes the begin of its range. -/
theorem denotes_begin {kind : FieldKind} {term : Term} (hvalid : term.Valid kind) :
    term.Denotes kind (kind.stands (term.range.ends kind).1) := by
  refine ⟨_, ⟨le_rfl, ?_, by simp⟩, rfl⟩
  obtain ⟨_ | a | ⟨a, b⟩, step⟩ := term
  · cases kind <;> exact Nat.le_of_ble_eq_true rfl
  · exact le_rfl
  · exact hvalid.1.2.1

theorem low_le_high_iff {kind : FieldKind} {term : Term} (hvalid : term.Valid kind) :
    term.low kind ≤ term.high kind ↔ ∀ a, term.ToSunday kind a → a = 0 := by
  apply Iff.intro
  · intro hle a ha
    exact ((takes_toSunday ha _).mp ⟨le_rfl, hle, by simp⟩).1
  · intro hzero
    have htakes : ∃ v, term.Takes kind v := by
      by_cases hrange : ∃ a, term.ToSunday kind a
      · obtain ⟨a, ha⟩ := hrange
        exact ⟨0, (takes_toSunday ha 0).mpr ⟨hzero a ha, rfl⟩⟩
      · exact ⟨_, (takes_iff_denotes hvalid (not_exists.mp hrange) _).mpr (denotes_begin hvalid)⟩
    obtain ⟨v, hlow, hhigh, -⟩ := htakes
    exact hlow.trans hhigh

/-- Every day that a range to the last Sunday denotes comes from another term as well, Sunday
also from a range of the whole week. -/
def Covered (terms : List Term) : Prop :=
  ∀ term ∈ terms, ∀ a, term.ToSunday .dayOfWeek a → ∀ w, term.Holds .dayOfWeek w →
    (∃ other ∈ terms, (∀ b, ¬ other.ToSunday .dayOfWeek b) ∧ other.Denotes .dayOfWeek (w % 7)) ∨
      w % 7 = 0 ∧ ∃ other ∈ terms, other.ToSunday .dayOfWeek 0

/-- The values taken from the terms of a field are those that they denote. -/
def TakenAsDenoted (kind : FieldKind) (terms : List Term) : Prop :=
  ∀ v, (∃ term ∈ terms, term.Takes kind v) ↔ FieldDenotes kind terms v

theorem takenAsDenoted_of_ne {kind : FieldKind} {terms : List Term} (hkind : kind ≠ .dayOfWeek)
    (hvalid : ∀ term ∈ terms, term.Valid kind) : TakenAsDenoted kind terms := by
  intro v
  have hterm : ∀ term ∈ terms, (term.Takes kind v ↔ term.Denotes kind v) :=
    fun term hmem => takes_iff_denotes (hvalid term hmem) (fun _ h => hkind h.1) v
  exact exists_congr fun term => and_congr_right fun hmem => hterm term hmem

theorem takenAsDenoted_iff {terms : List Term} (hvalid : ∀ term ∈ terms, term.Valid .dayOfWeek) :
    TakenAsDenoted .dayOfWeek terms ↔ Covered terms := by
  apply Iff.intro
  · intro hsame term hmem a ha w hw
    have hdenotes : FieldDenotes .dayOfWeek terms (w % 7) := ⟨term, hmem, w, hw, rfl⟩
    obtain ⟨other, hother, htakes⟩ := (hsame (w % 7)).mpr hdenotes
    by_cases hrange : ∃ b, other.ToSunday .dayOfWeek b
    · obtain ⟨b, hb⟩ := hrange
      obtain ⟨rfl, hzero⟩ := (takes_toSunday hb _).mp htakes
      exact .inr ⟨hzero, other, hother, hb⟩
    · rw [not_exists] at hrange
      exact .inl ⟨other, hother, hrange, (takes_iff_denotes (hvalid other hother) hrange _).mp
        htakes⟩
  · intro hcovered v
    apply Iff.intro
    · rintro ⟨term, hmem, htakes⟩
      refine ⟨term, hmem, ?_⟩
      by_cases hrange : ∃ a, term.ToSunday .dayOfWeek a
      · obtain ⟨a, ha⟩ := hrange
        obtain ⟨rfl, rfl⟩ := (takes_toSunday ha _).mp htakes
        have hbegin := denotes_begin (hvalid term hmem)
        rw [ha.2.2] at hbegin
        exact hbegin
      · exact (takes_iff_denotes (hvalid term hmem) (not_exists.mp hrange) v).mp htakes
    · rintro ⟨term, hmem, hdenotes⟩
      by_cases hrange : ∃ a, term.ToSunday .dayOfWeek a
      · obtain ⟨a, ha⟩ := hrange
        obtain ⟨w, hw, rfl⟩ := hdenotes
        rcases hcovered term hmem a ha w hw with ⟨other, hother, hnone, hdays⟩ | ⟨hzero, other,
          hother, hb⟩
        · exact ⟨other, hother, (takes_iff_denotes (hvalid other hother) hnone _).mpr hdays⟩
        · exact ⟨other, hother, (takes_toSunday hb _).mpr ⟨rfl, hzero⟩⟩
      · exact ⟨term, hmem, (takes_iff_denotes (hvalid term hmem) (not_exists.mp hrange) v).mpr
          hdenotes⟩

/-- The field of a kind. -/
def Cron.fieldOf (cron : Cron) : FieldKind → Field
  | .minute => cron.minute
  | .hour => cron.hour
  | .dayOfMonth => cron.dayOfMonth
  | .month => cron.month
  | .dayOfWeek => cron.dayOfWeek

/-- No step of a term leaves `u32`. -/
def AllFit (terms : FieldKind → List Term) : Prop :=
  ∀ kind, ∀ term ∈ terms kind, term.Fits kind

/-- The fields after their terms. -/
def Parsed (terms : FieldKind → List Term) (cron : Cron) : Prop :=
  ∀ kind, Extends kind (terms kind) ⟨0, false⟩ (cron.fieldOf kind)

/-- A value is taken from the terms of every field. -/
def AllTaken (terms : FieldKind → List Term) : Prop :=
  ∀ kind, ∃ term ∈ terms kind, term.low kind ≤ term.high kind

theorem forall₂_readAs_iff {kind : FieldKind} {texts : List (List Char)} {terms : List Term} :
    List.Forall₂ (ReadAs kind) texts terms ↔
      (List.Forall₂ (TermText signedNumeral) texts terms ∧ ∀ term ∈ terms, term.Valid kind) ∧
        ∀ term ∈ terms, term.Fits kind := by
  induction texts generalizing terms with
  | nil =>
      rw [List.forall₂_nil_left_iff, List.forall₂_nil_left_iff]
      apply Iff.intro
      · rintro rfl
        simp
      · exact fun h => h.1.1
  | cons text texts ih =>
      cases terms with
      | nil => simp
      | cons term terms =>
          rw [List.forall₂_cons, List.forall₂_cons, ih, ReadAs, List.forall_mem_cons,
            List.forall_mem_cons]
          tauto

/-- An expression is accepted when its five fields are. -/
theorem parse_eq_ok_iff_fields {expr : String} {cron : Cron} : Cron.parse expr = .ok cron ↔
    ∃ texts : FieldKind → List Char,
      splitWhitespace expr.toList =
        [texts .minute, texts .hour, texts .dayOfMonth, texts .month, texts .dayOfWeek] ∧
      ∀ kind, parseField (texts kind) kind.name kind.min kind.max = .ok (cron.fieldOf kind) := by
  rw [Cron.parse]
  apply Iff.intro
  · intro hparse
    split at hparse
    · next minute hour dayOfMonth month dayOfWeek hsplit =>
        simp only [bind_eq_ok_iff] at hparse
        obtain ⟨m, hm, h, hh, d, hd, mo, hmo, w, hw, hcron⟩ := hparse
        cases hcron
        refine ⟨fun
          | .minute => minute
          | .hour => hour
          | .dayOfMonth => dayOfMonth
          | .month => month
          | .dayOfWeek => dayOfWeek, hsplit, ?_⟩
        intro kind
        cases kind
        · exact hm
        · exact hh
        · exact hd
        · exact hmo
        · exact hw
    · cases hparse
  · rintro ⟨texts, hsplit, hfields⟩
    rw [hsplit]
    simp only [bind_eq_ok_iff]
    exact ⟨_, hfields .minute, _, hfields .hour, _, hfields .dayOfMonth, _, hfields .month, _,
      hfields .dayOfWeek, rfl⟩

/-- An expression is accepted when its five fields are read, their steps fit, and a value is taken
from each of them. -/
theorem parse_eq_ok_iff {expr : String} {cron : Cron} : Cron.parse expr = .ok cron ↔
    ∃ terms, Reads signedNumeral expr terms ∧ AllFit terms ∧ AllTaken terms ∧
      Parsed terms cron := by
  rw [parse_eq_ok_iff_fields]
  simp only [parseField_eq_ok_iff, forall₂_readAs_iff]
  apply Iff.intro
  · rintro ⟨texts, hsplit, hfields⟩
    choose terms hreads hextends hmask using hfields
    refine ⟨terms, ⟨texts, hsplit, fun kind => (hreads kind).1⟩, fun kind => (hreads kind).2, ?_,
      hextends⟩
    exact fun kind => (mask_ne_zero_iff (hreads kind).1.2 (hextends kind)).mp (hmask kind)
  · rintro ⟨terms, ⟨texts, hsplit, hreads⟩, hfit, htaken, hparsed⟩
    refine ⟨texts, hsplit, fun kind => ⟨terms kind, ⟨hreads kind, hfit kind⟩, hparsed kind, ?_⟩⟩
    exact (mask_ne_zero_iff (hreads kind).2 (hparsed kind)).mpr (htaken kind)

/-- An expression is read in one way. -/
theorem Reads.unique {number : List Char → Option ℕ} (hchars : NumberChars number) {expr : String}
    {first second : FieldKind → List Term} (hfirst : Reads number expr first)
    (hsecond : Reads number expr second) : first = second := by
  obtain ⟨texts, hsplit, hreads⟩ := hfirst
  obtain ⟨texts', hsplit', hreads'⟩ := hsecond
  rw [hsplit] at hsplit'
  funext kind
  have htexts : texts kind = texts' kind := by
    simp only [List.cons.injEq, and_true] at hsplit'
    cases kind
    · exact hsplit'.1
    · exact hsplit'.2.1
    · exact hsplit'.2.2.1
    · exact hsplit'.2.2.2.1
    · exact hsplit'.2.2.2.2
  have hterms := (hreads kind).1
  rw [htexts] at hterms
  have hunique : Relator.RightUnique (TermText number) :=
    fun _ _ _ hterm hterm' => hterm.unique hchars hterm'
  exact hunique.forall₂ hterms (hreads' kind).1

theorem Reads.signed {expr : String} {terms : FieldKind → List Term}
    (hreads : Reads numeral expr terms) : Reads signedNumeral expr terms := by
  obtain ⟨texts, hsplit, hreads⟩ := hreads
  exact ⟨texts, hsplit, fun kind =>
    ⟨(hreads kind).1.imp fun _ _ => TermText.signed, (hreads kind).2⟩⟩

theorem exists_extends_all {kind : FieldKind} {texts : List (List Char)} {terms : List Term}
    (hreads : List.Forall₂ (ReadAs kind) texts terms) (state : Field) :
    ∃ field, Extends kind terms state field := by
  induction hreads generalizing state with
  | nil => exact ⟨state, extends_nil.mpr rfl⟩
  | cons hread _ ih =>
      obtain ⟨middle, hfirst⟩ := exists_extends state hread
      obtain ⟨field, hrest⟩ := ih middle
      exact ⟨field, (extends_cons_iff hfirst).mpr hrest⟩

theorem accepted_iff {expr : String} {terms : FieldKind → List Term}
    (hreads : Reads signedNumeral expr terms) :
    (∃ cron, Cron.parse expr = .ok cron) ↔ AllFit terms ∧ AllTaken terms := by
  apply Iff.intro
  · rintro ⟨cron, hparse⟩
    obtain ⟨terms', hreads', hfit, htaken, -⟩ := parse_eq_ok_iff.mp hparse
    rw [hreads.unique numberChars_signedNumeral hreads']
    exact ⟨hfit, htaken⟩
  · rintro ⟨hfit, htaken⟩
    obtain ⟨texts, hsplit, hkinds⟩ := hreads
    have hfields (kind : FieldKind) : ∃ field, Extends kind (terms kind) ⟨0, false⟩ field :=
      exists_extends_all (forall₂_readAs_iff.mpr ⟨hkinds kind, hfit kind⟩) _
    choose field hextends using hfields
    refine ⟨⟨field .minute, field .hour, field .dayOfMonth, field .month, field .dayOfWeek⟩,
      parse_eq_ok_iff.mpr ⟨terms, ⟨texts, hsplit, hkinds⟩, hfit, htaken, ?_⟩⟩
    intro kind
    cases kind <;> exact hextends _

theorem parsed_of_parse {expr : String} {terms : FieldKind → List Term} {cron : Cron}
    (hreads : Reads signedNumeral expr terms) (hparse : Cron.parse expr = .ok cron) :
    Parsed terms cron := by
  obtain ⟨terms', hreads', -, -, hparsed⟩ := parse_eq_ok_iff.mp hparse
  rw [hreads.unique numberChars_signedNumeral hreads']
  exact hparsed

/-- The minutes in which an expression fires, by the values that its fields admit. -/
def FiresBy (admits : FieldKind → ℕ → Prop) (either : Prop)
    (minute hour dayOfMonth month dayOfWeek : ℕ) : Prop :=
  (admits .minute minute ∧ admits .hour hour ∧ admits .month month) ∧
    (either ∧ (admits .dayOfMonth dayOfMonth ∨ admits .dayOfWeek dayOfWeek) ∨
      ¬ either ∧ admits .dayOfMonth dayOfMonth ∧ admits .dayOfWeek dayOfWeek)

theorem fires_iff {terms : FieldKind → List Term} {minute hour dayOfMonth month dayOfWeek : ℕ} :
    Fires terms minute hour dayOfMonth month dayOfWeek ↔
      FiresBy (fun kind => FieldDenotes kind (terms kind))
        (Restricted (terms .dayOfMonth) ∧ Restricted (terms .dayOfWeek)) minute hour dayOfMonth
        month dayOfWeek := by
  rw [Fires, FiresBy]
  split_ifs with heither <;> simp [heither]

theorem cron_matches_iff {terms : FieldKind → List Term} {cron : Cron}
    (hvalid : ∀ kind, ∀ term ∈ terms kind, term.Valid kind) (hparsed : Parsed terms cron)
    (minute hour dayOfMonth month dayOfWeek : ℕ) :
    cron.matches minute hour dayOfMonth month dayOfWeek = true ↔
      FiresBy (fun kind v => ∃ term ∈ terms kind, term.Takes kind v)
        (Restricted (terms .dayOfMonth) ∧ Restricted (terms .dayOfWeek)) minute hour dayOfMonth
        month dayOfWeek := by
  have hfield (kind : FieldKind) (v : ℕ) := matches_iff (hvalid kind) (hparsed kind) v
  have hwild (kind : FieldKind) : (cron.fieldOf kind).wildcard = false ↔
      Restricted (terms kind) := by
    have hstar := (hparsed kind).2
    rw [Bool.false_eq_true, false_or] at hstar
    rw [Bool.eq_false_iff, Ne, hstar, Restricted]
    simp only [not_exists, not_and, Ne]
  have hmonthDay := hwild .dayOfMonth
  have hweekDay := hwild .dayOfWeek
  rw [FiresBy, ← hfield, ← hfield, ← hfield, ← hfield, ← hfield, ← hmonthDay, ← hweekDay,
    Cron.matches]
  simp only [Cron.fieldOf, FieldKind.min]
  cases cron.minute.matches minute 0 <;> cases cron.hour.matches hour 0 <;>
    cases cron.month.matches month 1 <;> cases cron.dayOfMonth.wildcard <;>
    cases cron.dayOfWeek.wildcard <;> simp

/-! ## The documented meaning -/

/-- The texts that are accepted are those of the grammar, and they match when they fire. -/
def CronMeets (expr : String) : Prop :=
  ((∃ cron, Cron.parse expr = .ok cron) ↔ ∃ terms, Reads numeral expr terms) ∧
    ∀ cron terms, Cron.parse expr = .ok cron → Reads numeral expr terms →
      ∀ minute hour dayOfMonth month dayOfWeek,
        cron.matches minute hour dayOfMonth month dayOfWeek = true ↔
          Fires terms minute hour dayOfMonth month dayOfWeek

/-- Without a plus sign every step fits and the ranges to Sunday are covered; with one, a step that
does not fit or a day of the week that consists of ranges to Sunday refuses the expression. -/
def CronSound (expr : String) : Prop :=
  ∀ terms, Reads signedNumeral expr terms →
    ((∃ plain, Reads numeral expr plain) → AllFit terms ∧ Covered (terms .dayOfWeek)) ∧
      ((¬ ∃ plain, Reads numeral expr plain) → ¬ AllFit terms ∨
        ∀ term ∈ terms .dayOfWeek, ∃ a, 0 < a ∧ term.ToSunday .dayOfWeek a)

theorem Reads.ne_nil {number : List Char → Option ℕ} {expr : String}
    {terms : FieldKind → List Term} (hreads : Reads number expr terms) (kind : FieldKind) :
    terms kind ≠ [] := by
  obtain ⟨texts, -, hkinds⟩ := hreads
  intro hnil
  have hterms := (hkinds kind).1
  rw [hnil, List.forall₂_nil_right_iff] at hterms
  exact List.splitOn_ne_nil _ _ hterms

theorem Reads.valid {number : List Char → Option ℕ} {expr : String}
    {terms : FieldKind → List Term} (hreads : Reads number expr terms) (kind : FieldKind) :
    ∀ term ∈ terms kind, term.Valid kind := by
  obtain ⟨texts, -, hkinds⟩ := hreads
  exact (hkinds kind).2

theorem allTaken_iff {number : List Char → Option ℕ} {expr : String}
    {terms : FieldKind → List Term} (hreads : Reads number expr terms) :
    AllTaken terms ↔ ¬ ∀ term ∈ terms .dayOfWeek, ∃ a, 0 < a ∧ term.ToSunday .dayOfWeek a := by
  have hlow (kind : FieldKind) (term : Term) (hmem : term ∈ terms kind) :
      term.low kind ≤ term.high kind ↔ ¬ ∃ a, 0 < a ∧ term.ToSunday kind a := by
    rw [low_le_high_iff (hreads.valid kind term hmem), not_exists]
    apply forall_congr'
    intro a
    rw [not_and', Nat.not_lt, Nat.le_zero]
  apply Iff.intro
  · intro htaken hall
    obtain ⟨term, hmem, hle⟩ := htaken .dayOfWeek
    exact (hlow _ term hmem).mp hle (hall term hmem)
  · intro hsome kind
    by_cases hday : kind = .dayOfWeek
    · subst hday
      simp only [not_forall] at hsome
      obtain ⟨term, hmem, hnone⟩ := hsome
      exact ⟨term, hmem, (hlow _ term hmem).mpr hnone⟩
    · obtain ⟨term, hmem⟩ := List.exists_mem_of_ne_nil _ (hreads.ne_nil kind)
      refine ⟨term, hmem, (hlow kind term hmem).mpr ?_⟩
      rintro ⟨a, -, hrange⟩
      exact hday hrange.1

/-- Covered ranges leave a value of every field. -/
theorem allTaken_of_covered {number : List Char → Option ℕ} {expr : String}
    {terms : FieldKind → List Term} (hreads : Reads number expr terms)
    (hcovered : Covered (terms .dayOfWeek)) : AllTaken terms := by
  rw [allTaken_iff hreads]
  intro hall
  obtain ⟨term, hmem⟩ := List.exists_mem_of_ne_nil _ (hreads.ne_nil .dayOfWeek)
  have hbegin := denotes_begin (hreads.valid .dayOfWeek term hmem)
  rcases ((takenAsDenoted_iff (hreads.valid .dayOfWeek)).mpr hcovered _).mpr ⟨term, hmem, hbegin⟩
    with ⟨other, hother, htakes⟩
  obtain ⟨a, hpos, hrange⟩ := hall other hother
  have hzero := ((takes_toSunday hrange _).mp htakes).1
  omega

/-- When the minutes agree, so do the days of the week. -/
theorem takenAsDenoted_of_fires {number : List Char → Option ℕ} {expr : String}
    {terms : FieldKind → List Term} (hreads : Reads number expr terms)
    (hsame : ∀ minute hour dayOfMonth month dayOfWeek,
      FiresBy (fun kind v => ∃ term ∈ terms kind, term.Takes kind v)
          (Restricted (terms .dayOfMonth) ∧ Restricted (terms .dayOfWeek)) minute hour dayOfMonth
          month dayOfWeek ↔
        Fires terms minute hour dayOfMonth month dayOfWeek) :
    TakenAsDenoted .dayOfWeek (terms .dayOfWeek) := by
  have htaken (kind : FieldKind) (hkind : kind ≠ .dayOfWeek) :=
    takenAsDenoted_of_ne hkind (hreads.valid kind)
  have hsome (kind : FieldKind) : ∃ v, FieldDenotes kind (terms kind) v := by
    obtain ⟨term, hmem⟩ := List.exists_mem_of_ne_nil _ (hreads.ne_nil kind)
    exact ⟨_, term, hmem, denotes_begin (hreads.valid kind term hmem)⟩
  obtain ⟨minute, hminute⟩ := hsome .minute
  obtain ⟨hour, hhour⟩ := hsome .hour
  obtain ⟨month, hmonth⟩ := hsome .month
  obtain ⟨day, hday⟩ := hsome .dayOfMonth
  -- the days of a month begin at 1
  have hzero : ¬ FieldDenotes .dayOfMonth (terms .dayOfMonth) 0 := by
    intro hdenotes
    obtain ⟨term, hmem, htakes⟩ := (htaken .dayOfMonth (by decide) 0).mpr hdenotes
    have hlow := (term.high_le (hreads.valid .dayOfMonth term hmem)).1
    have hle := htakes.1.trans' hlow
    exact absurd hle (by decide)
  intro v
  by_cases heither : Restricted (terms .dayOfMonth) ∧ Restricted (terms .dayOfWeek)
  · have hday := hsame minute hour 0 month v
    rw [fires_iff, FiresBy, FiresBy] at hday
    simp only [htaken .minute (by decide) minute, htaken .hour (by decide) hour,
      htaken .month (by decide) month, htaken .dayOfMonth (by decide) 0, hminute, hhour, hmonth,
      hzero, heither, and_self, true_and, not_true_eq_false, false_and, or_false, false_or] at hday
    exact hday
  · have hday' := hsame minute hour day month v
    rw [fires_iff, FiresBy, FiresBy] at hday'
    simp only [htaken .minute (by decide) minute, htaken .hour (by decide) hour,
      htaken .month (by decide) month, htaken .dayOfMonth (by decide) day, hminute, hhour, hmonth,
      hday, heither, and_self, true_and, not_false_eq_true, false_and, false_or] at hday'
    exact hday'

/-- An expression is parsed and matched as documented exactly when it is sound. -/
theorem cron_meets_iff (expr : String) : CronMeets expr ↔ CronSound expr := by
  apply Iff.intro
  · intro hmeets terms hreads
    refine ⟨?_, ?_⟩
    · rintro ⟨plain, hplain⟩
      have hsame : plain = terms := hplain.signed.unique numberChars_signedNumeral hreads
      subst hsame
      obtain ⟨cron, hparse⟩ := hmeets.1.mpr ⟨plain, hplain⟩
      obtain ⟨hfit, -⟩ := (accepted_iff hreads).mp ⟨cron, hparse⟩
      have hparsed := parsed_of_parse hreads hparse
      refine ⟨hfit, (takenAsDenoted_iff (hreads.valid .dayOfWeek)).mp ?_⟩
      apply takenAsDenoted_of_fires hreads
      intro minute hour dayOfMonth month dayOfWeek
      rw [← cron_matches_iff hreads.valid hparsed]
      exact hmeets.2 cron plain hparse hplain minute hour dayOfMonth month dayOfWeek
    · intro hnone
      have hrefused := mt hmeets.1.mp hnone
      rw [accepted_iff hreads, not_and_or, allTaken_iff hreads, not_not] at hrefused
      exact hrefused
  · intro hsound
    refine ⟨⟨?_, ?_⟩, ?_⟩
    · rintro ⟨cron, hparse⟩
      obtain ⟨terms, hreads, hfit, htaken, -⟩ := parse_eq_ok_iff.mp hparse
      by_contra hnone
      rcases (hsound terms hreads).2 hnone with hunfit | hranges
      · exact hunfit hfit
      · exact (allTaken_iff hreads).mp htaken hranges
    · rintro ⟨terms, hplain⟩
      obtain ⟨hfit, hcovered⟩ := (hsound terms hplain.signed).1 ⟨terms, hplain⟩
      exact (accepted_iff hplain.signed).mpr ⟨hfit, allTaken_of_covered hplain hcovered⟩
    · intro cron terms hparse hplain minute hour dayOfMonth month dayOfWeek
      have hcovered := ((hsound terms hplain.signed).1 ⟨terms, hplain⟩).2
      have hparsed := parsed_of_parse hplain.signed hparse
      have htaken (kind : FieldKind) : TakenAsDenoted kind (terms kind) := by
        by_cases hday : kind = .dayOfWeek
        · subst hday
          exact (takenAsDenoted_iff (hplain.valid .dayOfWeek)).mpr hcovered
        · exact takenAsDenoted_of_ne hday (hplain.valid kind)
      rw [cron_matches_iff hplain.valid hparsed, fires_iff, FiresBy, FiresBy]
      simp only [htaken _ _]

theorem forall₂_single {text : List Char} {term : Term} (hcomma : ',' ∉ text)
    (hread : readTerm numeral text = some term) :
    List.Forall₂ (TermText numeral) (text.splitOn ',') [term] := by
  rw [List.splitOn_eq_singleton hcomma]
  exact .cons ((termText_iff numberChars_numeral).mpr hread) .nil

/-- Friday to Sunday is refused, and beside a Monday it is passed over. -/
theorem range_to_sunday_is_lost :
    ¬ CronMeets "0 3 * * 5-7" ∧
      Cron.parse "0 3 * * 5-7" = .error (.refused (.field "day-of-week" "5-7".toList)) ∧
      (Cron.parse "0 3 * * 5-7,1").toOption = (Cron.parse "0 3 * * 1").toOption := by
  have hrefused : Cron.parse "0 3 * * 5-7" =
      .error (.refused (.field "day-of-week" "5-7".toList)) := by decide +kernel
  refine ⟨?_, hrefused, by decide +kernel⟩
  intro hmeets
  have hreads : Reads numeral "0 3 * * 5-7" fun
      | .minute => [⟨.value 0, 1⟩]
      | .hour => [⟨.value 3, 1⟩]
      | .dayOfMonth => [⟨.star, 1⟩]
      | .month => [⟨.star, 1⟩]
      | .dayOfWeek => [⟨.between 5 7, 1⟩] := by
    refine ⟨fun
      | .minute => ['0']
      | .hour => ['3']
      | .dayOfMonth => ['*']
      | .month => ['*']
      | .dayOfWeek => "5-7".toList, by decide +kernel, ?_⟩
    intro kind
    cases kind
    all_goals
      refine ⟨forall₂_single (by decide +kernel) (by decide +kernel), ?_⟩
      simp [Term.Valid, Range.Within, FieldKind.min, FieldKind.max, FieldKind.last]
  obtain ⟨cron, hparse⟩ := hmeets.1.mpr ⟨_, hreads⟩
  rw [hrefused] at hparse
  cases hparse

end EntityResolution.Schedule
