/-
# Numbered histories

A history is a family of rows numbered from one. It grows at its end, and at most its last row
is live: a new row is added only when the one before it has been archived. The operations below
are what a ledger does to such a history, and each comes with what it does to the numbering and
to the live row.
-/

import Mathlib

namespace EntityResolution.Histories

universe u

variable {V : Type u} (live : V → Bool)

/-- The rows are numbered `1..n` without gaps, and only the `n`-th may be live. -/
structure Numbered (rows : ℕ → Option V) (n : ℕ) : Prop where
  isSome_iff : ∀ number, (rows number).isSome = true ↔ 1 ≤ number ∧ number ≤ n
  live_last : ∀ number row, rows number = some row → live row = true → number = n

/-- Some row is live. -/
def Alive (rows : ℕ → Option V) : Prop :=
  ∃ number row, rows number = some row ∧ live row = true

variable {live}

namespace Numbered

variable {rows later : ℕ → Option V} {n : ℕ}

/-- The empty history. -/
theorem empty (hnone : ∀ number, rows number = none) : Numbered live rows 0 where
  isSome_iff number := by
    rw [hnone number, Option.isSome_none]
    simp only [Bool.false_eq_true, false_iff]
    omega
  live_last number row hrow := by
    rw [hnone number] at hrow
    cases hrow

theorem le_of_some (hrows : Numbered live rows n) {number : ℕ} {row : V}
    (hrow : rows number = some row) : 1 ≤ number ∧ number ≤ n := by
  rw [← hrows.isSome_iff number, hrow]
  rfl

theorem live_unique (hrows : Numbered live rows n) {first second : ℕ} {row other : V}
    (hrow : rows first = some row) (hlive : live row = true)
    (hother : rows second = some other) (hlive' : live other = true) :
    first = second ∧ row = other := by
  have hsame : first = second :=
    (hrows.live_last first row hrow hlive).trans
      (hrows.live_last second other hother hlive').symm
  subst hsame
  exact ⟨rfl, Option.some.inj (hrow.symm.trans hother)⟩

/-- Rewriting rows in place keeps a history, as long as no archived row comes back to life. -/
theorem rewrite (hrows : Numbered live rows n)
    (hsome : ∀ number, (later number).isSome = (rows number).isSome)
    (hlive : ∀ number new, later number = some new → live new = true →
      ∃ old, rows number = some old ∧ live old = true) :
    Numbered live later n where
  isSome_iff number := by
    rw [hsome number]
    exact hrows.isSome_iff number
  live_last number new hnew hnewLive := by
    obtain ⟨old, hold, holdLive⟩ := hlive number new hnew hnewLive
    exact hrows.live_last number old hold holdLive

theorem last_of_next_none (hrows : Numbered live rows n) {number : ℕ} {row : V}
    (hrow : rows number = some row) (hnext : rows (number + 1) = none) : number = n := by
  have hbounds := hrows.le_of_some hrow
  have habsent := hrows.isSome_iff (number + 1)
  rw [hnext, Option.isSome_none] at habsent
  by_contra hne
  have hpresent : 1 ≤ number + 1 ∧ number + 1 ≤ n := by omega
  cases habsent.mpr hpresent

theorem next_eq_none (hrows : Numbered live rows n) {number : ℕ} {row : V}
    (hrow : rows number = some row) (hlive : live row = true) : rows (number + 1) = none := by
  have hlast := hrows.live_last number row hrow hlive
  rw [← Option.not_isSome_iff_eq_none, hrows.isSome_iff]
  omega

/-- A history without a live row grows by one row at its end. -/
theorem append (hrows : Numbered live rows n) (hdead : ¬ Alive live rows) {new : V}
    (hnew : later (n + 1) = some new) (hsame : ∀ number ≠ n + 1, later number = rows number) :
    Numbered live later (n + 1) where
  isSome_iff number := by
    by_cases hlast : number = n + 1
    · subst hlast
      rw [hnew, Option.isSome_some]
      simp only [true_iff]
      omega
    · rw [hsame number hlast, hrows.isSome_iff number]
      omega
  live_last number row hrow hlive := by
    by_contra hne
    rw [hsame number hne] at hrow
    exact hdead ⟨number, row, hrow, hlive⟩

end Numbered

end EntityResolution.Histories
