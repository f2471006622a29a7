/-
# Run stamps

A run is stamped with its second of the epoch, written as `YYYY-MM-DD HH:MM:SS` by `fmt_epoch` of
the dispatcher; `parse_lake_timestamp_ms` reads the stamp back when ids are minted from it. Both
compute in `i64`, each operation checked here: leaving the range is an outcome of its own.
-/

import EntityResolution.Foundations.Calendar
import EntityResolution.Foundations.Numerals
import EntityResolution.Identity.Ids

namespace EntityResolution.Identity

open EntityResolution.Calendar EntityResolution.Numerals

/-- An operation left the range of its integer type. -/
inductive Overflow
  | overflow
  deriving DecidableEq, Repr

/-- The range of `i64`. -/
def InI64 (n : ℤ) : Prop := -2 ^ 63 ≤ n ∧ n < 2 ^ 63

instance (n : ℤ) : Decidable (InI64 n) := inferInstanceAs (Decidable (_ ∧ _))

/-- The result of an `i64` operation. -/
def i64 (n : ℤ) : Except Overflow ℤ := if InI64 n then .ok n else .error .overflow

theorem i64_bind {A : Type} {n : ℤ} (hn : InI64 n) (f : ℤ → Except Overflow A) :
    (i64 n >>= f) = f n := by
  rw [i64, if_pos hn]
  rfl

theorem i64_bind_eq_ok_iff {A : Type} {n : ℤ} {f : ℤ → Except Overflow A} {result : A} :
    (i64 n >>= f) = .ok result ↔ InI64 n ∧ f n = .ok result := by
  by_cases hn : InI64 n
  · rw [i64_bind hn]
    exact ⟨fun h => ⟨hn, h⟩, fun h => h.2⟩
  · rw [i64, if_neg hn]
    exact ⟨fun h => absurd h (by intro hbind; cases hbind), fun h => absurd h.1 hn⟩

/-- The format of a stamp. -/
def stampText (y m d hh mm ss : ℤ) : List Char :=
  padInt 4 y ++ '-' :: (padInt 2 m ++ '-' :: (padInt 2 d ++ ' ' ::
    (padInt 2 hh ++ ':' :: (padInt 2 mm ++ ':' :: padInt 2 ss))))

/-- `fmt_epoch`: the civil date of the days since the epoch, and the time of the day. -/
def fmtEpoch (secs : ℕ) : Except Overflow String := do
  let days : ℤ := if secs / 86400 < 2 ^ 63 then ((secs / 86400 : ℕ) : ℤ) else 0
  let rem := secs % 86400
  let hh := rem / 3600
  let mm := rem % 3600 / 60
  let ss := rem % 60
  let z ← i64 (days + 719468)
  let era := (← i64 (if z ≥ 0 then z else z - 146096)).tdiv 146097
  let doe ← i64 (z - (← i64 (era * 146097)))
  let yoe := (← i64 ((← i64 ((← i64 (doe - doe.tdiv 1460)) + doe.tdiv 36524)) -
    doe.tdiv 146096)).tdiv 365
  let y ← i64 (yoe + (← i64 (era * 400)))
  let doy ← i64 (doe - (← i64 ((← i64 ((← i64 (365 * yoe)) + yoe.tdiv 4)) - yoe.tdiv 100)))
  let mp := (← i64 ((← i64 (5 * doy)) + 2)).tdiv 153
  let d ← i64 ((← i64 (doy - (← i64 ((← i64 (153 * mp)) + 2)).tdiv 5)) + 1)
  let m ← i64 (if mp < 10 then mp + 3 else mp - 9)
  let y ← i64 (if m ≤ 2 then y + 1 else y)
  return String.ofList (stampText y m d hh mm ss)

/-- The six integers that are read from a stamp. -/
structure StampFields where
  y : ℤ
  m : ℤ
  day : ℤ
  hh : ℤ
  mm : ℤ
  ss : ℤ
  deriving DecidableEq

/-- `split_once`. -/
def splitOnce (sep : Char) (text : List Char) : Option (List Char × List Char) :=
  if sep ∈ text then some (text.takeWhile (· ≠ sep), (text.dropWhile (· ≠ sep)).tail) else none

/-- The first three pieces of a text, each parsed as an `i64`; later pieces are not looked at. -/
def threeInts (sep : Char) (text : List Char) : Option (ℤ × ℤ × ℤ) :=
  match text.splitOn sep with
  | first :: second :: third :: _ => do
      return (← parseSigned 64 first, ← parseSigned 64 second, ← parseSigned 64 third)
  | _ => none

/-- The six integers of a stamp. -/
def readStamp (ts : List Char) : Option StampFields := do
  let (date, time) ← splitOnce ' ' ts
  let (y, m, day) ← threeInts '-' date
  let (hh, mm, ss) ← threeInts ':' time
  return ⟨y, m, day, hh, mm, ss⟩

namespace StampFields

/-- The checks on the six integers; the parts of the time have no lower bound. -/
def Checked (f : StampFields) : Prop :=
  (1 ≤ f.m ∧ f.m ≤ 12) ∧ (1 ≤ f.day ∧ f.day ≤ 31) ∧ f.hh ≤ 23 ∧ f.mm ≤ 59 ∧ f.ss ≤ 59

instance (f : StampFields) : Decidable f.Checked := inferInstanceAs (Decidable (_ ∧ _))

/-- The days from civil, and with the time the seconds since the epoch. -/
def secs (f : StampFields) : Except Overflow ℤ := do
  let yAdj ← i64 (if f.m ≤ 2 then f.y - 1 else f.y)
  let era := (← i64 (if yAdj ≥ 0 then yAdj else yAdj - 399)).tdiv 400
  let yoe ← i64 (yAdj - (← i64 (era * 400)))
  let mp := (← i64 (f.m + 9)).tmod 12
  let doy ← i64 ((← i64 ((← i64 ((← i64 (153 * mp)) + 2)).tdiv 5 + f.day)) - 1)
  let doe ← i64 ((← i64 ((← i64 ((← i64 (yoe * 365)) + yoe.tdiv 4)) - yoe.tdiv 100)) + doy)
  let days ← i64 ((← i64 ((← i64 (era * 146097)) + doe)) - 719468)
  i64 ((← i64 ((← i64 ((← i64 (days * 86400)) + (← i64 (f.hh * 3600)))) +
    (← i64 (f.mm * 60)))) + f.ss)

end StampFields

/-- `u64::try_from(secs).ok()?.checked_mul(1000)`. -/
def checkedMillis (secs : ℤ) : Option ℕ :=
  if 0 ≤ secs ∧ 1000 * secs < 2 ^ 64 then some (1000 * secs).toNat else none

/-- `parse_lake_timestamp_ms`. -/
def parseLakeTimestampMs (ts : String) : Except Overflow (Option ℕ) :=
  match readStamp ts.toList with
  | none => .ok none
  | some f => if f.Checked then f.secs.map checkedMillis else .ok none

/-- `IdError::BadTimestamp`. -/
structure BadTimestamp where
  ts : String
  deriving DecidableEq

/-- `DeterministicV7Factory::from_lake_timestamp`. -/
def fromLakeTimestamp (ts : String) (start : ℕ) :
    Except Overflow (Except BadTimestamp (IdFactory V7Id)) :=
  (parseLakeTimestampMs ts).map fun
    | none => .error ⟨ts⟩
    | some ms => .ok (deterministicV7Factory ms start)

/-- The stamp of a date and a second of the day. -/
def dateStamp (date : Date) (second : ℕ) : String :=
  String.ofList (stampText date.year date.month date.day (second / 3600 : ℕ)
    (second % 3600 / 60 : ℕ) (second % 60 : ℕ))

/-- `fmt_epoch` writes the date so many days after the epoch and the time of the day, and no
operation leaves its range. -/
theorem fmtEpoch_eq {secs : ℕ} (hsecs : secs < 2 ^ 64) :
    fmtEpoch secs = .ok (dateStamp (Date.after (secs / 86400)) (secs % 86400)) := by
  have hdays : secs / 86400 < 2 ^ 63 := by omega
  generalize hdate : Date.after (secs / 86400) = date
  have hz : ((secs / 86400 : ℕ) : ℤ) + 719468 = date.marchNumber := by
    rw [Date.marchNumber, ← hdate, Date.dayNumber_after]
  have hz0 : 0 ≤ date.marchNumber ∧ date.marchNumber < 2 ^ 62 := by omega
  obtain ⟨hera, hdoe⟩ := date.era_marchNumber
  have hyoe := date.yearOfEra_marchNumber
  have hmonth := date.marchDay_spec.2
  have hyear' := date.year_of_marchYear
  have hmonth' := date.month_of_marchMonth
  have hday' := date.day_of_marchDay
  have hmonths := date.month_bounds
  have hmps := date.marchMonth_bounds
  have hdoys := date.marchDay_bounds
  rw [eraOf] at hera
  rw [dayOfEra] at hdoe hyoe
  rw [fmtEpoch, if_pos hdays]
  simp only [hz]
  clear hz hdate hdays hsecs
  generalize date.marchNumber = z at *
  generalize marchYear date.year date.month = year at *
  generalize marchDay date.month date.day = doy at *
  generalize marchMonth date.month = mp at *
  -- the cycle
  have hera' : z.tdiv 146097 = year / 400 := by rw [Int.tdiv_eq_ediv_of_nonneg hz0.1, hera]
  have hdoe' : z - year / 400 * 146097 = z % 146097 := by omega
  have hbounds : 0 ≤ z % 146097 ∧ z % 146097 < 146097 := by omega
  have hyears : 0 ≤ year ∧ year < 2 ^ 62 := by omega
  rw [i64_bind (by unfold InI64; omega), if_pos hz0.1, i64_bind (by unfold InI64; omega), hera',
    i64_bind (by unfold InI64; omega), hdoe', i64_bind (by unfold InI64; omega)]
  clear hera hera' hdoe' hz0
  generalize z % 146097 = doe at *
  -- the year of the cycle
  rw [Int.tdiv_eq_ediv_of_nonneg hbounds.1, Int.tdiv_eq_ediv_of_nonneg hbounds.1,
    Int.tdiv_eq_ediv_of_nonneg hbounds.1, i64_bind (by unfold InI64; omega),
    i64_bind (by unfold InI64; omega), i64_bind (by unfold InI64; omega),
    Int.tdiv_eq_ediv_of_nonneg (by omega)]
  rw [yearOfEra] at hyoe
  rw [hyoe, i64_bind (by unfold InI64; omega), i64_bind (by unfold InI64; omega)]
  clear hyoe
  have hyoe0 : 0 ≤ year % 400 := by omega
  have hcycle : year % 400 + year / 400 * 400 = year := by omega
  have hdoy : doe - (365 * (year % 400) + year % 400 / 4 - year % 400 / 100) = doy := by
    rw [hdoe, eraDaysBefore]
    omega
  rw [hcycle, Int.tdiv_eq_ediv_of_nonneg hyoe0, Int.tdiv_eq_ediv_of_nonneg hyoe0,
    i64_bind (by unfold InI64; omega), i64_bind (by unfold InI64; omega),
    i64_bind (by unfold InI64; omega), i64_bind (by unfold InI64; omega), hdoy]
  clear hdoe hdoy hcycle hyoe0 hbounds
  -- the month and the day
  rw [marchMonthOf] at hmonth
  rw [i64_bind (by unfold InI64; omega), i64_bind (by unfold InI64; omega),
    Int.tdiv_eq_ediv_of_nonneg (by omega), hmonth, i64_bind (by unfold InI64; omega),
    i64_bind (by unfold InI64; omega), Int.tdiv_eq_ediv_of_nonneg (by omega),
    i64_bind (by unfold InI64; omega), i64_bind (by unfold InI64; omega)]
  clear hmonth
  have hyearIn : InI64 date.year := by
    rw [← hyear']
    unfold InI64
    split_ifs <;> omega
  rw [hday', hmonth', i64_bind (by unfold InI64; omega), hyear', i64_bind hyearIn]
  rfl

theorem i64_eq_ok_iff {n result : ℤ} : i64 n = .ok result ↔ InI64 n ∧ n = result := by
  rw [i64]
  split_ifs with hn
  · rw [Except.ok.injEq]
    exact ⟨fun h => ⟨hn, h⟩, fun h => h.2⟩
  · apply iff_of_false
    · intro hok
      cases hok
    · exact fun h => hn h.1

namespace StampFields

/-- The days from the epoch to the date of the fields. -/
def days (f : StampFields) : ℤ := dayNumberOf f.y f.m.toNat f.day.toNat

/-- The second that the fields stand for. -/
def instant (f : StampFields) : ℤ := f.days * 86400 + f.hh * 3600 + f.mm * 60 + f.ss

/-- The sums that make up the second stay within `i64`. -/
def Fits (f : StampFields) : Prop :=
  InI64 (f.days * 86400) ∧ InI64 (f.hh * 3600) ∧ InI64 (f.days * 86400 + f.hh * 3600) ∧
    InI64 (f.mm * 60) ∧ InI64 (f.days * 86400 + f.hh * 3600 + f.mm * 60) ∧ InI64 f.instant

instance (f : StampFields) : Decidable f.Fits := inferInstanceAs (Decidable (_ ∧ _))

theorem secs_eq_ok_iff {f : StampFields} (hchecked : f.Checked) {result : ℤ} :
    f.secs = .ok result ↔ f.Fits ∧ f.instant = result := by
  obtain ⟨hm, hday, -⟩ := hchecked
  have hmonth : ((f.m.toNat : ℕ) : ℤ) = f.m := Int.toNat_of_nonneg (by omega)
  have hdayOf : ((f.day.toNat : ℕ) : ℤ) = f.day := Int.toNat_of_nonneg (by omega)
  have hdays : f.days = daysBefore (if f.m ≤ 2 then f.y - 1 else f.y) +
      ((153 * ((f.m + 9) % 12) + 2) / 5 + f.day - 1) - 719468 := by
    have hif : (f.m.toNat ≤ 2) ↔ f.m ≤ 2 := by omega
    rw [days, dayNumberOf, marchYear, marchDay, marchMonth, hmonth, hdayOf]
    simp only [hif]
  have hera (n : ℤ) : (if n ≥ 0 then n else n - 399).tdiv 400 = n / 400 := by
    split_ifs with hsign
    · exact Int.tdiv_eq_ediv_of_nonneg hsign
    · have hone : Int.sign 400 = 1 := rfl
      rw [Int.tdiv_eq_ediv, hone]
      split_ifs <;> omega
  rw [secs]
  simp only [i64_bind_eq_ok_iff, i64_eq_ok_iff, hera]
  generalize (if f.m ≤ 2 then f.y - 1 else f.y) = yAdj at *
  have hyoe : yAdj - yAdj / 400 * 400 = yAdj % 400 := by omega
  have hmp : (f.m + 9).tmod 12 = (f.m + 9) % 12 := Int.tmod_eq_emod_of_nonneg (by omega)
  rw [hyoe, hmp, Int.tdiv_eq_ediv_of_nonneg (by omega), Int.tdiv_eq_ediv_of_nonneg (by omega),
    Int.tdiv_eq_ediv_of_nonneg (by omega)]
  have hsum : yAdj / 400 * 146097 + (yAdj % 400 * 365 + yAdj % 400 / 4 - yAdj % 400 / 100 +
      ((153 * ((f.m + 9) % 12) + 2) / 5 + f.day - 1)) - 719468 = f.days := by
    rw [hdays, daysBefore]
    omega
  rw [hsum, Fits, instant]
  apply Iff.intro
  · intro h
    tauto
  · rintro ⟨hfits, hresult⟩
    have hrange := hfits.1
    rw [daysBefore] at hdays
    have hyears : -2 ^ 40 ≤ yAdj ∧ yAdj ≤ 2 ^ 40 := by
      rw [InI64] at hrange
      omega
    have hdaysRange : InI64 f.days := by
      rw [InI64] at hrange ⊢
      omega
    refine ⟨?_, ?_, ?_, ?_, ?_, ?_, ?_, ?_, ?_, ?_, ?_, ?_, ?_, ?_, ?_, hdaysRange, hfits.1,
      hfits.2.1, hfits.2.2.1, hfits.2.2.2.1, hfits.2.2.2.2.1, hfits.2.2.2.2.2, hresult⟩
    -- what comes before the days is small when the days are
    all_goals
      clear hfits hresult hrange hera hsum hdays
      unfold InI64
      omega

/-- The fields are those of a second of a day of the calendar. -/
def Real (f : StampFields) : Prop :=
  f.day.toNat ≤ monthLength f.y f.m.toNat ∧ 0 ≤ f.hh ∧ 0 ≤ f.mm ∧ 0 ≤ f.ss

instance (f : StampFields) : Decidable f.Real := inferInstanceAs (Decidable (_ ∧ _))

/-- The text of the fields with every part padded. -/
def text (f : StampFields) : List Char := stampText f.y f.m f.day f.hh f.mm f.ss

/-- The fields of a date and a second of the day. -/
def of (date : Date) (second : ℕ) : StampFields :=
  ⟨date.year, date.month, date.day, (second / 3600 : ℕ), (second % 3600 / 60 : ℕ),
    (second % 60 : ℕ)⟩

end StampFields

/-! ## What is written is read back -/

theorem splitOnce_append {sep : Char} {first second : List Char} (hfirst : sep ∉ first) :
    splitOnce sep (first ++ sep :: second) = some (first, second) := by
  have hkeep : ∀ c ∈ first, (decide (c ≠ sep)) = true := by
    intro c hc
    rw [decide_eq_true_eq]
    rintro rfl
    exact hfirst hc
  rw [splitOnce, if_pos (by simp), List.takeWhile_append_of_pos hkeep,
    List.dropWhile_append_of_pos hkeep, List.takeWhile_cons_of_neg (by simp),
    List.dropWhile_cons_of_neg (by simp), List.append_nil, List.tail_cons]

theorem splitOnce_eq_none_iff {sep : Char} {text : List Char} :
    splitOnce sep text = none ↔ sep ∉ text := by
  rw [splitOnce]
  split_ifs with hmem
  · exact iff_of_false (by simp) (not_not.mpr hmem)
  · exact iff_of_true rfl hmem

theorem splitOnce_eq_some_iff {sep : Char} {text first second : List Char} :
    splitOnce sep text = some (first, second) ↔ sep ∉ first ∧ text = first ++ sep :: second := by
  apply Iff.intro
  · intro hsplit
    have hmem : sep ∈ text := by
      by_contra hnone
      rw [splitOnce_eq_none_iff.mpr hnone] at hsplit
      cases hsplit
    obtain ⟨before, after, rfl⟩ := List.append_of_mem hmem
    rw [splitOnce, if_pos hmem, Option.some_inj, Prod.mk.injEq] at hsplit
    obtain ⟨rfl, rfl⟩ := hsplit
    refine ⟨fun h => by simpa using List.mem_takeWhile_imp h, ?_⟩
    have hne : (before ++ sep :: after).dropWhile (· ≠ sep) ≠ [] := by
      intro hnil
      have hall := List.dropWhile_eq_nil_iff.mp hnil sep hmem
      simp at hall
    have hhead := List.head_dropWhile_not (fun c => decide (c ≠ sep)) hne
    rw [decide_eq_false_iff_not, not_not] at hhead
    have hdrop := List.cons_head_tail hne
    rw [hhead] at hdrop
    rw [hdrop, List.takeWhile_append_dropWhile]
  · rintro ⟨hnone, rfl⟩
    exact splitOnce_append hnone

theorem threeInts_append {sep : Char} {first second third : List Char} {a b c : ℤ}
    (hnone : sep ∉ first ∧ sep ∉ second ∧ sep ∉ third) (hfirst : parseSigned 64 first = some a)
    (hsecond : parseSigned 64 second = some b) (hthird : parseSigned 64 third = some c) :
    threeInts sep (first ++ sep :: (second ++ sep :: third)) = some (a, b, c) := by
  rw [threeInts, List.splitOn_append_cons_self, List.splitOn_append_cons_self,
    List.splitOn_eq_singleton hnone.1, List.splitOn_eq_singleton hnone.2.1,
    List.splitOn_eq_singleton hnone.2.2]
  simp only [List.singleton_append, hfirst, hsecond, hthird]
  rfl

theorem parseSigned_padInt {width : ℕ} {n : ℤ} (hn : 0 ≤ n) (hbound : n < 2 ^ 63) :
    parseSigned 64 (padInt width n) = some n := by
  obtain ⟨value, rfl⟩ := Int.eq_ofNat_of_zero_le hn
  rw [padInt_natCast]
  exact parseSigned_of_numeral (numeral_pad width value) (by omega)

theorem notMem_padInt {width : ℕ} {n : ℤ} {c : Char} (hn : 0 ≤ n) (hc : c.isDigit = false) :
    c ∉ padInt width n := by
  obtain ⟨value, rfl⟩ := Int.eq_ofNat_of_zero_le hn
  rw [padInt_natCast]
  exact notMem_pad hc

/-- The six numbers of a padded stamp. -/
theorem readStamp_text {f : StampFields}
    (hnonneg : 0 ≤ f.y ∧ 0 ≤ f.m ∧ 0 ≤ f.day ∧ 0 ≤ f.hh ∧ 0 ≤ f.mm ∧ 0 ≤ f.ss)
    (hbound : f.y < 2 ^ 63 ∧ f.m < 2 ^ 63 ∧ f.day < 2 ^ 63 ∧ f.hh < 2 ^ 63 ∧ f.mm < 2 ^ 63 ∧
      f.ss < 2 ^ 63) : readStamp f.text = some f := by
  obtain ⟨hy, hm, hday, hhh, hmm, hss⟩ := hnonneg
  have hdate : f.text = (padInt 4 f.y ++ '-' :: (padInt 2 f.m ++ '-' :: padInt 2 f.day)) ++
      ' ' :: (padInt 2 f.hh ++ ':' :: (padInt 2 f.mm ++ ':' :: padInt 2 f.ss)) := by
    simp only [StampFields.text, stampText, List.append_assoc, List.cons_append]
  have hspace : ' ' ∉ padInt 4 f.y ++ '-' :: (padInt 2 f.m ++ '-' :: padInt 2 f.day) := by
    simp only [List.mem_append, List.mem_cons, not_or]
    exact ⟨notMem_padInt hy rfl, by decide, notMem_padInt hm rfl, by decide,
      notMem_padInt hday rfl⟩
  rw [readStamp, hdate, splitOnce_append hspace]
  simp only [Option.bind_eq_bind, Option.bind_some]
  rw [threeInts_append ⟨notMem_padInt hy rfl, notMem_padInt hm rfl, notMem_padInt hday rfl⟩
      (parseSigned_padInt hy hbound.1) (parseSigned_padInt hm hbound.2.1)
      (parseSigned_padInt hday hbound.2.2.1), Option.bind_some,
    threeInts_append ⟨notMem_padInt hhh rfl, notMem_padInt hmm rfl, notMem_padInt hss rfl⟩
      (parseSigned_padInt hhh hbound.2.2.2.1) (parseSigned_padInt hmm hbound.2.2.2.2.1)
      (parseSigned_padInt hss hbound.2.2.2.2.2), Option.bind_some]
  rfl

theorem parseLakeTimestampMs_eq {ts : String} {f : StampFields}
    (hread : readStamp ts.toList = some f) (hchecked : f.Checked) :
    parseLakeTimestampMs ts =
      if f.Fits then .ok (checkedMillis f.instant) else .error .overflow := by
  rw [parseLakeTimestampMs, hread]
  simp only [if_pos hchecked]
  split_ifs with hfits
  · rw [(StampFields.secs_eq_ok_iff hchecked).mpr ⟨hfits, rfl⟩]
    rfl
  · cases hsecs : f.secs with
    | error error => rfl
    | ok secs => exact absurd ((StampFields.secs_eq_ok_iff hchecked).mp hsecs).1 hfits

namespace StampFields

theorem instant_of (date : Date) (second : ℕ) :
    (of date second).instant = date.dayNumber * 86400 + second := by
  have hdays : (of date second).days = date.dayNumber := rfl
  rw [instant, hdays]
  simp only [of]
  omega

theorem checked_of (date : Date) {second : ℕ} (hsecond : second < 86400) :
    (of date second).Checked := by
  have hhour : second / 3600 ≤ 23 := by omega
  have hmonth := date.month_bounds
  have hday := date.day_bounds
  have hlength := monthLength_le date.year date.month
  simp only [Checked, of]
  omega

theorem real_of (date : Date) (second : ℕ) : (of date second).Real := by
  refine ⟨date.day_bounds.2, ?_, ?_, ?_⟩ <;> exact Int.natCast_nonneg _

theorem eq_of {f : StampFields} (hchecked : f.Checked) (hreal : f.Real) :
    ∃ date second, second < 86400 ∧ f = of date second := by
  obtain ⟨y, m, day, hh, mm, ss⟩ := f
  obtain ⟨hm, hday, hhh, hmm, hss⟩ := hchecked
  obtain ⟨hlength, hhh0, hmm0, hss0⟩ := hreal
  simp only at *
  lift m to ℕ using by omega
  lift day to ℕ using by omega
  lift hh to ℕ using hhh0
  lift mm to ℕ using hmm0
  lift ss to ℕ using hss0
  refine ⟨⟨y, m, day, by omega, by omega, hlength⟩, hh * 3600 + mm * 60 + ss, by omega, ?_⟩
  simp only [of, StampFields.mk.injEq, true_and, Nat.cast_inj]
  omega

end StampFields

theorem dateStamp_eq (date : Date) (second : ℕ) :
    (dateStamp date second).toList = (StampFields.of date second).text := by
  rw [dateStamp, String.toList_ofList]
  rfl

/-- From the epoch on, the stamp of a second is read as its fields. -/
theorem readStamp_dateStamp (date : Date) {second : ℕ} (hsecond : second < 86400)
    (hdays : 0 ≤ date.dayNumber ∧ date.dayNumber < 2 ^ 62) :
    readStamp (dateStamp date second).toList = some (StampFields.of date second) := by
  rw [dateStamp_eq]
  have hyear := date.year_bounds
  obtain ⟨hm, hday, hhh, hmm, hss⟩ := StampFields.checked_of date hsecond
  obtain ⟨-, hhh0, hmm0, hss0⟩ := StampFields.real_of date second
  have hy : (StampFields.of date second).y = date.year := rfl
  apply readStamp_text
  · exact ⟨by omega, by omega, by omega, hhh0, hmm0, hss0⟩
  · exact ⟨by omega, by omega, by omega, by omega, by omega, by omega⟩

/-- The stamp of a second from the epoch on is read as its milliseconds. -/
theorem parse_dateStamp {date : Date} {second days : ℕ} (hsecond : second < 86400)
    (hdays : date.dayNumber = days) (hrange : 1000 * (days * 86400 + second) < 2 ^ 64) :
    parseLakeTimestampMs (dateStamp date second) =
      .ok (some (1000 * (days * 86400 + second))) := by
  have hchecked := StampFields.checked_of date hsecond
  have hinstant := StampFields.instant_of date second
  obtain ⟨-, -, hhh, hmm, hss⟩ := hchecked
  obtain ⟨-, hhh0, hmm0, hss0⟩ := StampFields.real_of date second
  have hread := readStamp_dateStamp date hsecond (by omega)
  have hdaysOf : (StampFields.of date second).days = date.dayNumber := rfl
  have hfits : (StampFields.of date second).Fits := by
    rw [StampFields.Fits, hinstant, hdaysOf]
    unfold InI64
    omega
  have hmillis : (1000 * ((days : ℤ) * 86400 + second)).toNat = 1000 * (days * 86400 + second) := by
    omega
  rw [parseLakeTimestampMs_eq hread (StampFields.checked_of date hsecond), if_pos hfits, hinstant,
    checkedMillis, hdays, if_pos (by omega), hmillis]

end EntityResolution.Identity
