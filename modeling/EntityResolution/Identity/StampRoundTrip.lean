/-
# Stamps there and back

A stamp that the dispatcher writes is read as the second it was written for, and up to the year
9999 stamps are ordered as their seconds are. Not every text that is read is such a stamp: the
parts of the time have no lower bound, a day is not checked against its month, widths, signs and
further parts are not looked at, and the sums may leave `i64`.
-/

import EntityResolution.Identity.Stamps

namespace EntityResolution.Identity

open EntityResolution.Calendar EntityResolution.Numerals

theorem pad_append_lt {width m n : ℕ} {rest other : List Char} (hm : m < 10 ^ width)
    (hn : n < 10 ^ width) (hwidth : 0 < width) (hlt : m < n ∨ m = n ∧ rest < other) :
    pad width m ++ rest < pad width n ++ other := by
  rcases hlt with hlt | ⟨rfl, hrest⟩
  · apply append_lt_append _ (pad_lt_pad hlt hn)
    rw [length_pad hwidth hm, length_pad hwidth hn]
  · exact append_lt_append_left _ hrest

theorem dateStamp_lt {date other : Date} {second otherSecond : ℕ}
    (hyears : (0 ≤ date.year ∧ date.year < 10000) ∧ 0 ≤ other.year ∧ other.year < 10000)
    (hseconds : second < 86400 ∧ otherSecond < 86400)
    (hlt : date < other ∨ date = other ∧ second < otherSecond) :
    dateStamp date second < dateStamp other otherSecond := by
  rw [String.lt_iff_toList_lt, dateStamp_eq, dateStamp_eq]
  obtain ⟨y, m, d, hm, hd⟩ := date
  obtain ⟨y', m', d', hm', hd'⟩ := other
  have hd31 := hd.2.trans (monthLength_le y m)
  have hd31' := hd'.2.trans (monthLength_le y' m')
  have hy : (0 ≤ y ∧ y < 10000) ∧ 0 ≤ y' ∧ y' < 10000 := hyears
  clear hyears
  lift y to ℕ using hy.1.1
  lift y' to ℕ using hy.2.1
  have hparts : y < y' ∨ y = y' ∧ (m < m' ∨ m = m' ∧ (d < d' ∨ d = d' ∧
      (second / 3600 < otherSecond / 3600 ∨ second / 3600 = otherSecond / 3600 ∧
        (second % 3600 / 60 < otherSecond % 3600 / 60 ∨
          second % 3600 / 60 = otherSecond % 3600 / 60 ∧ second % 60 < otherSecond % 60)))) := by
    rcases hlt with hdate | ⟨hsame, hsecond⟩
    · rw [Date.lt_iff] at hdate
      simp only [Nat.cast_lt, Nat.cast_inj] at hdate
      omega
    · have hyear := congrArg Date.year hsame
      have hmonth := congrArg Date.month hsame
      have hday := congrArg Date.day hsame
      simp only [Nat.cast_inj] at hyear hmonth hday
      omega
  simp only [StampFields.text, StampFields.of, stampText, padInt_natCast]
  apply pad_append_lt (by omega) (by omega) (by omega)
  rcases hparts with hy | ⟨rfl, hparts⟩
  · exact .inl hy
  refine .inr ⟨rfl, List.cons_lt_cons_iff.mpr (.inr ⟨rfl, ?_⟩)⟩
  apply pad_append_lt (by omega) (by omega) (by omega)
  rcases hparts with hm | ⟨rfl, hparts⟩
  · exact .inl hm
  refine .inr ⟨rfl, List.cons_lt_cons_iff.mpr (.inr ⟨rfl, ?_⟩)⟩
  apply pad_append_lt (by omega) (by omega) (by omega)
  rcases hparts with hd | ⟨rfl, hparts⟩
  · exact .inl hd
  refine .inr ⟨rfl, List.cons_lt_cons_iff.mpr (.inr ⟨rfl, ?_⟩)⟩
  apply pad_append_lt (by omega) (by omega) (by omega)
  rcases hparts with hhh | ⟨hhh, hparts⟩
  · exact .inl hhh
  refine .inr ⟨hhh, List.cons_lt_cons_iff.mpr (.inr ⟨rfl, ?_⟩)⟩
  apply pad_append_lt (by omega) (by omega) (by omega)
  rcases hparts with hmm | ⟨hmm, hss⟩
  · exact .inl hmm
  · exact .inr ⟨hmm, List.cons_lt_cons_iff.mpr (.inr ⟨rfl, pad_lt_pad hss (by omega)⟩)⟩

theorem dateStamp_after_lt {secs other : ℕ}
    (hyears : (Date.after (secs / 86400)).year < 10000 ∧ (Date.after (other / 86400)).year < 10000)
    (hlt : secs < other) :
    dateStamp (Date.after (secs / 86400)) (secs % 86400) <
      dateStamp (Date.after (other / 86400)) (other % 86400) := by
  have hyear (days : ℕ) : 0 ≤ (Date.after days).year := by
    have hbounds := (Date.after days).year_bounds
    rw [Date.dayNumber_after] at hbounds
    omega
  apply dateStamp_lt ⟨⟨hyear _, hyears.1⟩, hyear _, hyears.2⟩ ⟨by omega, by omega⟩
  rcases Nat.lt_or_ge (secs / 86400) (other / 86400) with hday | hday
  · exact .inl (Date.after_strictMono hday)
  · have hsame : secs / 86400 = other / 86400 := by omega
    exact .inr ⟨by rw [hsame], by omega⟩

/-- `fmt_epoch` writes the date and the time of every second whose milliseconds fit in `u64`, what
it writes is read back as these milliseconds, both without overflow, and up to the year 9999 the
order of the texts is the order of the seconds. -/
theorem stamp_round_trips {secs : ℕ} (hsecs : 1000 * secs < 2 ^ 64) :
    ∃ stamp, fmtEpoch secs = .ok stamp ∧
      stamp = dateStamp (Date.after (secs / 86400)) (secs % 86400) ∧
      parseLakeTimestampMs stamp = .ok (some (1000 * secs)) ∧
      ((Date.after (secs / 86400)).year < 10000 → ∀ other otherStamp, other < 2 ^ 64 →
        fmtEpoch other = .ok otherStamp → (Date.after (other / 86400)).year < 10000 →
          (stamp < otherStamp ↔ secs < other)) := by
  refine ⟨_, fmtEpoch_eq (by omega), rfl, ?_, ?_⟩
  · have hsplit : secs / 86400 * 86400 + secs % 86400 = secs := by omega
    have hsecond : secs % 86400 < 86400 := by omega
    have hparse := parse_dateStamp hsecond (Date.dayNumber_after (secs / 86400)) (by omega)
    rw [hsplit] at hparse
    exact hparse
  · intro hyear other otherStamp hother hwritten hotherYear
    rw [fmtEpoch_eq hother, Except.ok.injEq] at hwritten
    subst hwritten
    apply Iff.intro
    · intro hlt
      by_contra hge
      rcases Nat.lt_or_eq_of_le (not_lt.mp hge) with hbelow | hsame
      · exact lt_asymm hlt (dateStamp_after_lt ⟨hotherYear, hyear⟩ hbelow)
      · rw [hsame] at hlt
        exact lt_irrefl _ hlt
    · exact dateStamp_after_lt ⟨hyear, hotherYear⟩

/-- The first second of a leap day. -/
theorem stamp_round_trips_leap_day :
    ∃ stamp, fmtEpoch 951782400 = .ok stamp ∧
      stamp = dateStamp (Date.after (951782400 / 86400)) (951782400 % 86400) ∧
      parseLakeTimestampMs stamp = .ok (some 951782400000) := by
  rcases stamp_round_trips (show 1000 * 951782400 < 2 ^ 64 by decide) with
    ⟨stamp, hfmt, heq, hparse, -⟩
  exact ⟨stamp, hfmt, heq, hparse⟩

/-- A text is read without overflow, and what is accepted is the stamp of its own second. -/
def FailsLoudly (ts : String) : Prop :=
  parseLakeTimestampMs ts ≠ .error .overflow ∧
    ∀ ms, parseLakeTimestampMs ts = .ok (some ms) →
      (∃ date second, second < 86400 ∧ ts = dateStamp date second) ∧ fmtEpoch (ms / 1000) = .ok ts

/-- When six numbers pass the checks their sums fit, and they lie outside the milliseconds of `u64`
or they are a second of an existing day in the padded form. -/
def SoundStamp (ts : String) : Prop :=
  ∀ f, readStamp ts.toList = some f → f.Checked →
    f.Fits ∧ ((f.instant < 0 ∨ 2 ^ 64 ≤ 1000 * f.instant) ∨ f.Real ∧ ts.toList = f.text)

theorem checkedMillis_eq_some_iff {secs : ℤ} {ms : ℕ} :
    checkedMillis secs = some ms ↔ ∃ n : ℕ, secs = n ∧ 1000 * n < 2 ^ 64 ∧ ms = 1000 * n := by
  rw [checkedMillis]
  split_ifs with hrange
  · rw [Option.some_inj]
    apply Iff.intro
    · intro hms
      exact ⟨secs.toNat, by omega, by omega, by omega⟩
    · rintro ⟨n, rfl, -, rfl⟩
      omega
  · apply iff_of_false (by simp)
    rintro ⟨n, rfl, hn, -⟩
    omega

theorem parse_eq_none {ts : String}
    (hnone : ¬ ∃ f, readStamp ts.toList = some f ∧ f.Checked) :
    parseLakeTimestampMs ts = .ok none := by
  rw [parseLakeTimestampMs]
  cases hread : readStamp ts.toList with
  | none => rfl
  | some f => exact if_neg fun hchecked => hnone ⟨f, hread, hchecked⟩

/-- An accepted text has six numbers that pass the checks and fit. -/
theorem fields_of_parse {ts : String} {ms : ℕ} (hparse : parseLakeTimestampMs ts = .ok (some ms)) :
    ∃ f, readStamp ts.toList = some f ∧ f.Checked ∧ checkedMillis f.instant = some ms := by
  by_cases hfields : ∃ f, readStamp ts.toList = some f ∧ f.Checked
  · obtain ⟨f, hread, hchecked⟩ := hfields
    rw [parseLakeTimestampMs_eq hread hchecked] at hparse
    split_ifs at hparse
    exact ⟨f, hread, hchecked, Except.ok.inj hparse⟩
  · rw [parse_eq_none hfields] at hparse
    cases hparse

theorem parse_ne_overflow {ts : String} (hsound : SoundStamp ts) :
    parseLakeTimestampMs ts ≠ .error .overflow := by
  intro hparse
  by_cases hfields : ∃ f, readStamp ts.toList = some f ∧ f.Checked
  · obtain ⟨f, hread, hchecked⟩ := hfields
    rw [parseLakeTimestampMs_eq hread hchecked, if_pos (hsound f hread hchecked).1] at hparse
    cases hparse
  · rw [parse_eq_none hfields] at hparse
    cases hparse

theorem fmtEpoch_of_sound {ts : String} (hsound : SoundStamp ts) {ms : ℕ}
    (hparse : parseLakeTimestampMs ts = .ok (some ms)) :
    (∃ date second, second < 86400 ∧ ts = dateStamp date second) ∧
      fmtEpoch (ms / 1000) = .ok ts := by
  obtain ⟨f, hread, hchecked, hmillis⟩ := fields_of_parse hparse
  obtain ⟨secs, hsecs, hrange, rfl⟩ := checkedMillis_eq_some_iff.mp hmillis
  obtain ⟨-, hout | ⟨hreal, htext⟩⟩ := hsound f hread hchecked
  · omega
  obtain ⟨date, second, hsecond, rfl⟩ := StampFields.eq_of hchecked hreal
  have hstamp : ts = dateStamp date second := by
    rw [← String.toList_inj, htext, dateStamp_eq]
  refine ⟨⟨date, second, hsecond, hstamp⟩, ?_⟩
  rw [StampFields.instant_of] at hsecs
  have hdays : date.dayNumber = ((secs / 86400 : ℕ) : ℤ) := by omega
  have hsplit : 1000 * secs / 1000 = secs := by omega
  have hrest : secs % 86400 = second := by omega
  rw [hsplit, fmtEpoch_eq (by omega), hrest, ← Date.eq_after date hdays, hstamp]

/-- A text that fails loudly is sound. -/
theorem sound_of_failsLoudly {ts : String} (hloud : FailsLoudly ts) : SoundStamp ts := by
  intro f hread hchecked
  have hparse := parseLakeTimestampMs_eq hread hchecked
  by_cases hfits : f.Fits
  · refine ⟨hfits, ?_⟩
    rw [if_pos hfits] at hparse
    by_cases hout : f.instant < 0 ∨ 2 ^ 64 ≤ 1000 * f.instant
    · exact .inl hout
    · lift f.instant to ℕ using by omega with secs hsecs
      have hmillis : checkedMillis secs = some (1000 * secs) :=
        checkedMillis_eq_some_iff.mpr ⟨secs, rfl, by omega, rfl⟩
      rw [hmillis] at hparse
      have hwritten := (hloud.2 _ hparse).2
      have hsplit : 1000 * secs / 1000 = secs := by omega
      rw [hsplit, fmtEpoch_eq (by omega), Except.ok.injEq] at hwritten
      have hdays : (Date.after (secs / 86400)).dayNumber = ((secs / 86400 : ℕ) : ℤ) :=
        Date.dayNumber_after _
      have hsecond : secs % 86400 < 86400 := by omega
      have hfields := readStamp_dateStamp (Date.after (secs / 86400)) hsecond (by omega)
      rw [hwritten, hread, Option.some_inj] at hfields
      rw [hfields]
      refine .inr ⟨StampFields.real_of _ _, ?_⟩
      rw [← dateStamp_eq, hwritten]
  · rw [if_neg hfits] at hparse
    exact absurd hparse hloud.1

theorem millis_lt {secs : ℕ} (hyear : (Date.after (secs / 86400)).year ≤ 9999) :
    1000 * secs < 2 ^ 48 := by
  have hbounds := (Date.after (secs / 86400)).year_bounds
  rw [Date.dayNumber_after] at hbounds
  omega

/-- A factory is built from the milliseconds that a stamp is read as. -/
theorem factory_of_fromLakeTimestamp {ts : String} {start : ℕ} {factory : IdFactory V7Id}
    (hfactory : fromLakeTimestamp ts start = .ok (.ok factory)) :
    ∃ ms, parseLakeTimestampMs ts = .ok (some ms) ∧ factory = deterministicV7Factory ms start := by
  rw [fromLakeTimestamp] at hfactory
  cases hparse : parseLakeTimestampMs ts with
  | error error =>
      rw [hparse] at hfactory
      cases hfactory
  | ok read =>
      cases read with
      | none =>
          rw [hparse] at hfactory
          cases hfactory
      | some ms =>
          rw [hparse] at hfactory
          exact ⟨ms, rfl, (Except.ok.inj (Except.ok.inj hfactory)).symm⟩

/-- A sound stamp up to the year 9999 is the one of the timestamp of its ids. -/
theorem fmtEpoch_of_draw {ts : String} {start : ℕ} {factory : IdFactory V7Id}
    (hsound : SoundStamp ts) (hfactory : fromLakeTimestamp ts start = .ok (.ok factory))
    (hyear : ∀ ms, parseLakeTimestampMs ts = .ok (some ms) →
      (Date.after (ms / 1000 / 86400)).year ≤ 9999) (i : ℕ) :
    fmtEpoch ((factory.draw i).unixTsMs / 1000) = .ok ts := by
  obtain ⟨ms, hparse, rfl⟩ := factory_of_fromLakeTimestamp hfactory
  obtain ⟨f, -, -, hmillis⟩ := fields_of_parse hparse
  obtain ⟨secs, -, -, rfl⟩ := checkedMillis_eq_some_iff.mp hmillis
  have hsplit : 1000 * secs / 1000 = secs := by omega
  have hbelow := hyear _ hparse
  rw [hsplit] at hbelow
  have hfield : ((deterministicV7Factory (1000 * secs) start).draw i).unixTsMs = 1000 * secs :=
    Nat.mod_eq_of_lt (millis_lt hbelow)
  rw [hfield]
  exact (fmtEpoch_of_sound hsound hparse).2

/-- A stamp fails loudly exactly when it is sound, and sound stamps up to the year 9999 whose ids
have one timestamp are the same. -/
theorem stamp_fails_loudly_iff (ts : String) :
    (FailsLoudly ts ↔ SoundStamp ts) ∧
      (SoundStamp ts → ∀ other start otherStart factory otherFactory, SoundStamp other →
        fromLakeTimestamp ts start = .ok (.ok factory) →
        fromLakeTimestamp other otherStart = .ok (.ok otherFactory) →
        (∀ ms, parseLakeTimestampMs ts = .ok (some ms) →
          (Date.after (ms / 1000 / 86400)).year ≤ 9999) →
        (∀ ms, parseLakeTimestampMs other = .ok (some ms) →
          (Date.after (ms / 1000 / 86400)).year ≤ 9999) →
        ∀ i j, (factory.draw i).unixTsMs = (otherFactory.draw j).unixTsMs → ts = other) := by
  refine ⟨⟨sound_of_failsLoudly, fun hsound =>
    ⟨parse_ne_overflow hsound, fun _ hparse => fmtEpoch_of_sound hsound hparse⟩⟩, ?_⟩
  intro hsound other start otherStart factory otherFactory hother hfactory hotherFactory hyear
    hotherYear i j hsame
  have hwritten := fmtEpoch_of_draw hsound hfactory hyear i
  rw [hsame, fmtEpoch_of_draw hother hotherFactory hotherYear j] at hwritten
  exact (Except.ok.inj hwritten).symm

/-- A day that does not exist is read as a day of the next month. -/
theorem stamp_of_missing_day :
    parseLakeTimestampMs "2026-02-31 12:00:00" = .ok (some 1772539200000) ∧
      parseLakeTimestampMs "2026-03-03 12:00:00" = .ok (some 1772539200000) ∧
      ¬ FailsLoudly "2026-02-31 12:00:00" := by
  have hread : readStamp "2026-02-31 12:00:00".toList = some ⟨2026, 2, 31, 12, 0, 0⟩ := by
    decide +kernel
  have hnext : readStamp "2026-03-03 12:00:00".toList = some ⟨2026, 3, 3, 12, 0, 0⟩ := by
    decide +kernel
  have hparse : parseLakeTimestampMs "2026-02-31 12:00:00" = .ok (some 1772539200000) := by
    rw [parseLakeTimestampMs_eq hread (by decide), if_pos (by decide)]
    rfl
  have hwritten : fmtEpoch (1772539200000 / 1000) = .ok "2026-03-03 12:00:00" := by
    decide +kernel
  refine ⟨hparse, ?_, ?_⟩
  · rw [parseLakeTimestampMs_eq hnext (by decide), if_pos (by decide)]
    rfl
  · intro hloud
    have hsame := (hloud.2 _ hparse).2
    rw [hwritten] at hsame
    exact absurd (Except.ok.inj hsame) (by decide)

end EntityResolution.Identity
