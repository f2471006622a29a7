/-
# The loop that expands a term

`parse_field` steps through the values of a term with `v += step` in `u32`. The step is any
number of the type, while the values are checked against the field's range only. Here the loop
is taken apart from the round around it and run in the arithmetic of the type: a build with
checks stops where the sum leaves `u32`, a build without goes on with the rest modulo `2 ^ 32`.

It ends either way, since a sum that leaves the type comes out below where it started. But the
addition does leave the type, for a term whose begin plus its step does; for all other terms
nothing goes wrong.
-/

import EntityResolution.Foundations.PointerChain
import EntityResolution.Schedule.CronSpec

namespace EntityResolution.Schedule

open EntityResolution.Collections EntityResolution.Numerals EntityResolution.Identity
  EntityResolution.Golden EntityResolution.PointerChain

/-- What the loop of a round reads: the field's least value, and the ends and the step of the
term. -/
structure Loop where
  min : ℕ
  lo : ℕ
  hi : ℕ
  step : ℕ
  deriving DecidableEq

/-- One pass through the body, in an arithmetic that wraps; the loop ends above `hi`. -/
def Loop.body (loop : Loop) (v : ℕ) : Option ℕ :=
  if v ≤ loop.hi then some ((v + loop.step) % 2 ^ 32) else none

/-- The amount by which the body shifts, in the same arithmetic. -/
def Loop.shift (loop : Loop) (v : ℕ) : ℕ := (v + 2 ^ 32 - loop.min) % 2 ^ 32

/-- The loop ends; and wherever its body runs, the sum stays in `u32` and the shift below 64. -/
structure Loop.Safe (loop : Loop) : Prop where
  ends : ∃ n last, Settles loop.body n loop.lo last
  adds : ∀ n v, Hops loop.body n loop.lo v → v ≤ loop.hi → v + loop.step < 2 ^ 32
  shifts : ∀ n v, Hops loop.body n loop.lo v → v ≤ loop.hi → loop.shift v < 64

/-- What is done of a round before its loop: the loop, and whether the range is `*`. -/
def termHeader (spec : List Char) (field : String) (min max : ℕ) (term : List Char) :
    Except Failure (Loop × Bool) :=
  if term = [] then .error (.refused (.field field spec))
  else do
    let (range, step) ← splitStep (.field field spec) (.zeroStep field spec) term
    let (lo, hi) ← rangeEnds (.field field spec) min max range
    if foldSunday field lo < min ∨ foldSunday field hi > max then
      .error (.refused (.range field spec min max))
    else .ok (⟨min, foldSunday field lo, foldSunday field hi, step⟩, range == ['*'])

/-- The loops of the rounds up to the first term that is refused. -/
def loopsOf (spec : List Char) (field : String) (min max : ℕ) : List (List Char) → List Loop
  | [] => []
  | term :: terms =>
      match termHeader spec field min max term with
      | .ok (loop, _) => loop :: loopsOf spec field min max terms
      | .error _ => []

/-- The loops that `parse_field` starts. -/
def fieldLoops (spec : List Char) (field : String) (min max : ℕ) : List Loop :=
  loopsOf spec field min max (spec.splitOn ',')

theorem parseTerm_eq (spec : List Char) (field : String) (min max : ℕ) (state : Field)
    (term : List Char) :
    parseTerm spec field min max state term = (do
      let (loop, star) ← termHeader spec field min max term
      let mask ← fillMask loop.min loop.hi loop.step (loop.hi + 1) loop.lo state.mask
      return ⟨mask, state.wildcard || star⟩) := by
  rw [parseTerm, termHeader]
  by_cases hnil : term = []
  · rw [if_pos hnil, if_pos hnil]
    rfl
  · rw [if_neg hnil, if_neg hnil]
    cases splitStep (.field field spec) (.zeroStep field spec) term with
    | error failure => rfl
    | ok parts =>
        obtain ⟨range, step⟩ := parts
        simp only [bind, Except.bind]
        cases rangeEnds (.field field spec) min max range with
        | error failure => rfl
        | ok ends =>
            simp only
            split
            · rfl
            · rfl

/-- With a step past the end, the values fall until the sum stays in the type, and the loop is
over. -/
theorem Loop.settles_of_lt (loop : Loop) (hhi : loop.hi < 2 ^ 31) (hstep : loop.step < 2 ^ 32)
    (hlong : loop.hi < loop.step) (v : ℕ) : ∃ n last, Settles loop.body n v last := by
  induction v using Nat.strong_induction_on with
  | _ v ih =>
      by_cases hv : v ≤ loop.hi
      · have hbody : loop.body v = some ((v + loop.step) % 2 ^ 32) := if_pos hv
        by_cases hfits : v + loop.step < 2 ^ 32
        · have hnext : loop.body ((v + loop.step) % 2 ^ 32) = none := by
            rw [Nat.mod_eq_of_lt hfits]
            exact if_neg (by omega)
          exact ⟨1, _, .single hbody, hnext⟩
        · have hless : (v + loop.step) % 2 ^ 32 < v := by omega
          obtain ⟨n, last, hrest⟩ := ih _ hless
          exact ⟨n + 1, last, hrest.cons hbody⟩
      · exact ⟨0, v, .stay v, if_neg hv⟩

theorem Loop.settles_of_le (loop : Loop) (hhi : loop.hi < 2 ^ 31) (hstep : 1 ≤ loop.step)
    (hshort : loop.step ≤ loop.hi) (v : ℕ) : ∃ n last, Settles loop.body n v last := by
  induction hleft : loop.hi + 1 - v using Nat.strong_induction_on generalizing v with
  | _ left ih =>
      by_cases hv : v ≤ loop.hi
      · have hbody : loop.body v = some (v + loop.step) := by
          rw [Loop.body, if_pos hv, Nat.mod_eq_of_lt (by omega)]
        obtain ⟨n, last, hrest⟩ := ih (loop.hi + 1 - (v + loop.step)) (by omega) _ rfl
        exact ⟨n + 1, last, hrest.cons hbody⟩
      · exact ⟨0, v, .stay v, if_neg hv⟩

/-- The loop ends for every step of the type. -/
theorem Loop.ends (loop : Loop) (hhi : loop.hi < 2 ^ 31) (hstep : 1 ≤ loop.step)
    (hstep' : loop.step < 2 ^ 32) : ∃ n last, Settles loop.body n loop.lo last := by
  by_cases hshort : loop.step ≤ loop.hi
  · exact loop.settles_of_le hhi hstep hshort loop.lo
  · exact loop.settles_of_lt hhi hstep' (by omega) loop.lo

/-- Where the first sum stays in the type, so does every other: each value is the begin, or
comes after a step that fits into the range. -/
theorem Loop.reached (loop : Loop) (hhi : loop.hi < 2 ^ 31)
    (hfirst : loop.lo ≤ loop.hi → loop.lo + loop.step < 2 ^ 32) {n : ℕ} {v : ℕ}
    (hreach : Hops loop.body n loop.lo v) : v = loop.lo ∨ loop.lo + loop.step ≤ v := by
  have hstep (u w : ℕ) (hu : u = loop.lo ∨ loop.lo + loop.step ≤ u)
      (hbody : loop.body u = some w) : loop.lo + loop.step ≤ w := by
    rw [Loop.body] at hbody
    split at hbody
    · next hle =>
        have hfits : u + loop.step < 2 ^ 32 := by
          cases hu with
          | inl hsame => exact hsame ▸ hfirst (hsame ▸ hle)
          | inr hlater => omega
        rw [Nat.mod_eq_of_lt hfits, Option.some_inj] at hbody
        omega
    · cases hbody
  have hrun (m : ℕ) (u w : ℕ) (hu : u = loop.lo ∨ loop.lo + loop.step ≤ u)
      (hwalk : Hops loop.body m u w) : w = loop.lo ∨ loop.lo + loop.step ≤ w := by
    induction hwalk with
    | stay u => exact hu
    | hop hnext _ ih => exact ih (.inr (hstep _ _ hu hnext))
  exact hrun n loop.lo v (.inl rfl) hreach

/-- Exactly the begin decides: a loop over values of a field is safe when its begin plus its
step is a `u32`, if there is a value to expand at all. -/
theorem Loop.safe_iff (loop : Loop) (hlo : loop.min ≤ loop.lo) (hhi : loop.hi < loop.min + 64)
    (hmin : loop.min < 2 ^ 30) (hstep : 1 ≤ loop.step) (hstep' : loop.step < 2 ^ 32) :
    loop.Safe ↔ (loop.lo ≤ loop.hi → loop.lo + loop.step < 2 ^ 32) := by
  have hsmall : loop.hi < 2 ^ 31 := by omega
  constructor
  · intro hsafe
    exact hsafe.adds 0 loop.lo (.stay loop.lo)
  · intro hfirst
    constructor
    · exact loop.ends hsmall hstep hstep'
    · intro n v hreach hv
      cases loop.reached hsmall hfirst hreach with
      | inl hsame => exact hsame ▸ hfirst (hsame ▸ hv)
      | inr hlater => omega
    · intro n v hreach hv
      have hreached := loop.reached hsmall hfirst hreach
      have hamount : v + 2 ^ 32 - loop.min = (v - loop.min) + 2 ^ 32 := by omega
      rw [Loop.shift, hamount, Nat.add_mod_right, Nat.mod_eq_of_lt (by omega)]
      omega

/-- The loop for a term. -/
def Term.loop (kind : FieldKind) (term : Term) : Loop :=
  ⟨kind.min, term.low kind, term.high kind, term.step⟩

theorem termHeader_eq_ok_iff {kind : FieldKind} {spec text : List Char} {loop : Loop} :
    (∃ star, termHeader spec kind.name kind.min kind.max text = .ok (loop, star)) ↔
      ∃ term, Started kind text term ∧ loop = term.loop kind := by
  rw [termHeader]
  by_cases hnil : text = []
  · rw [if_pos hnil, hnil]
    apply iff_of_false
    · rintro ⟨star, hheader⟩
      cases hheader
    · rintro ⟨term, hstarted, _⟩
      exact not_started_nil hstarted
  · simp only [if_neg hnil, bind_eq_ok_iff, Prod.exists, splitStep_eq_ok_iff, rangeEnds_eq_ok_iff]
    constructor
    · rintro ⟨star, part, step, hstep, lo, hi, ⟨range, hpart, hupward, hends⟩, hrest⟩
      have hlo : lo = (range.ends kind).1 := congrArg Prod.fst hends
      have hhi : hi = (range.ends kind).2 := congrArg Prod.snd hends
      subst hlo hhi
      split_ifs at hrest with hcheck
      cases hrest
      have hwithin : range.Within kind := within_iff.mpr ⟨hupward, hcheck⟩
      exact ⟨⟨range, step⟩, started_iff.mpr ⟨hwithin, part, hpart, hstep⟩, rfl⟩
    · rintro ⟨term, hstarted, rfl⟩
      obtain ⟨hwithin, part, hpart, hstep⟩ := started_iff.mp hstarted
      obtain ⟨hupward, hcheck⟩ := within_iff.mp hwithin
      exact ⟨part == ['*'], part, term.step, hstep, (term.range.ends kind).1,
        (term.range.ends kind).2, ⟨term.range, hpart, hupward, rfl⟩, if_neg hcheck⟩

theorem mem_loopsOf {kind : FieldKind} {spec : List Char} {texts : List (List Char)}
    {loop : Loop} :
    loop ∈ loopsOf spec kind.name kind.min kind.max texts ↔
      ∃ before text after, texts = before ++ text :: after ∧
        (∀ earlier ∈ before, ∃ term, Started kind earlier term) ∧
        ∃ term, Started kind text term ∧ loop = term.loop kind := by
  induction texts with
  | nil => simp [loopsOf]
  | cons first rest ih =>
      rw [loopsOf]
      cases hheader : termHeader spec kind.name kind.min kind.max first with
      | error failure =>
          have hrefused : ¬ ∃ term, Started kind first term := by
            rintro ⟨term, hstarted⟩
            have hok : ∃ star, termHeader spec kind.name kind.min kind.max first =
                .ok (term.loop kind, star) :=
              termHeader_eq_ok_iff.mpr ⟨term, hstarted, rfl⟩
            obtain ⟨star, hok⟩ := hok
            rw [hheader] at hok
            cases hok
          apply iff_of_false List.not_mem_nil
          rintro ⟨before, text, after, hsplit, hbefore, hstarted⟩
          cases List.cons_eq_append_iff.mp hsplit with
          | inl hhead =>
              obtain ⟨rfl, hrest⟩ := hhead
              cases hrest
              obtain ⟨term, hterm, _⟩ := hstarted
              exact hrefused ⟨term, hterm⟩
          | inr hlater =>
              obtain ⟨before', rfl, _⟩ := hlater
              exact hrefused (hbefore first List.mem_cons_self)
      | ok entry =>
          obtain ⟨started, star⟩ := entry
          obtain ⟨term, hstarted, rfl⟩ := termHeader_eq_ok_iff.mp ⟨star, hheader⟩
          rw [List.mem_cons, ih]
          constructor
          · intro hmem
            cases hmem with
            | inl hsame =>
                exact ⟨[], first, rest, rfl, by simp, term, hstarted, hsame⟩
            | inr hlater =>
                obtain ⟨before, text, after, rfl, hbefore, hloop⟩ := hlater
                exact ⟨first :: before, text, after, rfl,
                  List.forall_mem_cons.mpr ⟨⟨term, hstarted⟩, hbefore⟩, hloop⟩
          · rintro ⟨before, text, after, hsplit, hbefore, other, hother, hloop⟩
            cases List.cons_eq_append_iff.mp hsplit with
            | inl hhead =>
                obtain ⟨rfl, hrest⟩ := hhead
                cases hrest
                rw [hother.1.unique numberChars_signedNumeral hstarted.1] at hloop
                exact .inl hloop
            | inr hlater =>
                obtain ⟨before', rfl, hrest⟩ := hlater
                have hbefore' := (List.forall_mem_cons.mp hbefore).2
                exact .inr ⟨before', text, after, hrest, hbefore', other, hother, hloop⟩

theorem safe_loop_iff {kind : FieldKind} {text : List Char} {term : Term}
    (hstarted : Started kind text term) : (term.loop kind).Safe ↔
      (term.low kind ≤ term.high kind → term.low kind + term.step < 2 ^ 32) := by
  have hbounds := term.high_le hstarted.2.1
  have hspan : kind.max < kind.min + 64 ∧ kind.min < 2 ^ 30 := by cases kind <;> decide
  have hhi : (term.loop kind).hi < (term.loop kind).min + 64 :=
    lt_of_le_of_lt hbounds.2 hspan.1
  exact (term.loop kind).safe_iff hbounds.1 hhi hspan.2 hstarted.2.1.2 hstarted.2.2

/-! ## Parsing with checks -/

theorem numberOr_ne_overflow (bad : CronError) (text : List Char) :
    numberOr bad text ≠ .error .overflow := by
  rw [numberOr]
  cases parseU32 text <;> simp

/-- Everything that the header refuses is an error of the expression. -/
theorem termHeader_ne_overflow (spec : List Char) (field : String) (min max : ℕ)
    (term : List Char) : termHeader spec field min max term ≠ .error .overflow := by
  have hnumber (text : List Char) := numberOr_ne_overflow (.field field spec) text
  rw [termHeader]
  split
  · simp
  · simp only [Ne, bind_eq_error_iff, not_or, not_exists, not_and]
    constructor
    · rw [splitStep]
      split
      · simp only [bind_eq_error_iff, hnumber, false_or, not_exists, not_and]
        intro step _
        split_ifs <;> simp
      · simp
    · intro parts _
      constructor
      · rw [rangeEnds]
        split_ifs
        · simp
        · split
          · simp only [bind_eq_error_iff, hnumber, false_or, not_exists, not_and]
            intro a _ b _
            split_ifs <;> simp
          · simp [bind_eq_error_iff, hnumber]
      · intro ends _
        split_ifs <;> simp

theorem exists_overflow {kind : FieldKind} {spec : List Char} {texts : List (List Char)}
    {state : Field}
    (hparse : texts.foldlM (parseTerm spec kind.name kind.min kind.max) state =
      .error .overflow) :
    ∃ loop ∈ loopsOf spec kind.name kind.min kind.max texts, ¬ loop.Safe := by
  induction texts generalizing state with
  | nil => cases hparse
  | cons text texts ih =>
      rw [List.foldlM_cons, bind_eq_error_iff] at hparse
      cases hparse with
      | inl hterm =>
          rw [parseTerm_eq, bind_eq_error_iff] at hterm
          cases hterm with
          | inl hheader => exact absurd hheader (termHeader_ne_overflow _ _ _ _ _)
          | inr hbody =>
              obtain ⟨⟨loop, star⟩, hheader, hfill⟩ := hbody
              obtain ⟨term, hstarted, rfl⟩ := termHeader_eq_ok_iff.mp ⟨star, hheader⟩
              refine ⟨term.loop kind, by simp [loopsOf, hheader], ?_⟩
              rw [safe_loop_iff hstarted]
              intro hfirst
              obtain ⟨filled, hfilled, _⟩ :=
                fillMask_term state.mask hstarted.2.1 ⟨hstarted.2.2, hfirst⟩
              simp only [Term.loop] at hfill
              rw [hfilled] at hfill
              cases hfill
      | inr hlater =>
          obtain ⟨middle, hterm, hrest⟩ := hlater
          obtain ⟨loop, hloop, hunsafe⟩ := ih hrest
          rw [parseTerm_eq, bind_eq_ok_iff] at hterm
          obtain ⟨⟨first, star⟩, hheader, _⟩ := hterm
          exact ⟨loop, by simp [loopsOf, hheader, hloop], hunsafe⟩

theorem parseField_eq_overflow_iff {kind : FieldKind} {spec : List Char} :
    parseField spec kind.name kind.min kind.max = .error .overflow ↔
      (spec.splitOn ',').foldlM (parseTerm spec kind.name kind.min kind.max) ⟨0, false⟩ =
        .error .overflow := by
  rw [parseField, bind_eq_error_iff, or_iff_left]
  rintro ⟨parsed, _, hrest⟩
  split_ifs at hrest
  cases hrest

/-- The expansion loop always ends, and is safe exactly when no sum of a begin and a step
leaves `u32`. -/
theorem cron_loop_safe_iff (kind : FieldKind) (spec : List Char) :
    (∀ loop ∈ fieldLoops spec kind.name kind.min kind.max,
      ∃ n last, Settles loop.body n loop.lo last) ∧
    ((parseField spec kind.name kind.min kind.max ≠ .error .overflow ∧
        ∀ loop ∈ fieldLoops spec kind.name kind.min kind.max, loop.Safe) ↔
      ∀ before text after, spec.splitOn ',' = before ++ text :: after →
        (∀ earlier ∈ before, ∃ term, Started kind earlier term) →
        ∀ term, Started kind text term → term.low kind ≤ term.high kind →
          term.low kind + term.step < 2 ^ 32) := by
  constructor
  · intro loop hloop
    obtain ⟨_, text, _, _, _, term, hstarted, rfl⟩ := mem_loopsOf.mp hloop
    have hbounds := term.high_le hstarted.2.1
    have hmax : kind.max < 2 ^ 31 := by cases kind <;> decide
    exact (term.loop kind).ends (lt_of_le_of_lt hbounds.2 hmax) hstarted.2.1.2 hstarted.2.2
  · constructor
    · rintro ⟨_, hsafe⟩ before text after hsplit hbefore term hstarted
      have hloop : term.loop kind ∈ fieldLoops spec kind.name kind.min kind.max :=
        mem_loopsOf.mpr ⟨before, text, after, hsplit, hbefore, term, hstarted, rfl⟩
      exact (safe_loop_iff hstarted).mp (hsafe _ hloop)
    · intro hfits
      have hsafe : ∀ loop ∈ fieldLoops spec kind.name kind.min kind.max, loop.Safe := by
        intro loop hloop
        obtain ⟨before, text, after, hsplit, hbefore, term, hstarted, rfl⟩ := mem_loopsOf.mp hloop
        exact (safe_loop_iff hstarted).mpr (hfits before text after hsplit hbefore term hstarted)
      constructor
      · intro hoverflow
        obtain ⟨loop, hloop, hunsafe⟩ := exists_overflow (parseField_eq_overflow_iff.mp hoverflow)
        exact hunsafe (hsafe loop hloop)
      · exact hsafe

/-- The largest step of the type: from minute 5 the sum leaves `u32`, so that a build with checks
panics; and from the first day of a month the wrapped sum is below the field, so that a build
without checks goes on to shift by the wrapped difference. -/
theorem largest_step_overflows :
    (parseField "5/4294967295".toList "minute" 0 59 = .error .overflow ∧
      ∃ loop ∈ fieldLoops "5/4294967295".toList "minute" 0 59, ¬ loop.Safe) ∧
    ∃ loop ∈ fieldLoops "1/4294967295".toList "day-of-month" 1 31,
      ∃ n v, Hops loop.body n loop.lo v ∧ v ≤ loop.hi ∧ 64 ≤ loop.shift v := by
  have hoverflow : parseField "5/4294967295".toList "minute" 0 59 = .error .overflow := by decide
  have hminute : fieldLoops "5/4294967295".toList "minute" 0 59 = [⟨0, 5, 5, 4294967295⟩] := by
    decide
  have hday : fieldLoops "1/4294967295".toList "day-of-month" 1 31 = [⟨1, 1, 1, 4294967295⟩] := by
    decide
  refine ⟨⟨hoverflow, ⟨0, 5, 5, 4294967295⟩, by rw [hminute]; simp, ?_⟩, ?_⟩
  · intro hsafe
    have hadds := hsafe.adds 0 5 (.stay 5) (by decide)
    exact absurd hadds (by decide)
  · exact ⟨⟨1, 1, 1, 4294967295⟩, by rw [hday]; simp, 1, 0, .single rfl, by decide, by decide⟩

end EntityResolution.Schedule
