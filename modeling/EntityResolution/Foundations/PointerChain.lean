/-
# Following a partial pointer map

A redirect table is a partial function: an element either points at the next one
or is where the walk stops. The questions a client asks are how many hops a walk
takes, where it stops, and whether it stops at all. Hops are counted in the
relation itself, because every bound a client enforces is a bound on that count.

The walk is deterministic, so an element that settles does so after one number of
hops and at one place, and it can lie on no cycle.
-/

import Mathlib

namespace EntityResolution.PointerChain

universe u

variable {A : Type u} {next : A → Option A}

/-- `Hops next n first last`: following the pointer `n` times leads from `first`
to `last`. -/
inductive Hops (next : A → Option A) : ℕ → A → A → Prop
  | stay (a : A) : Hops next 0 a a
  | hop {n : ℕ} {first second last : A} (hnext : next first = some second)
      (hrest : Hops next n second last) : Hops next (n + 1) first last

/-- The walk from `first` stops at `last` after `n` hops. -/
def Settles (next : A → Option A) (n : ℕ) (first last : A) : Prop :=
  Hops next n first last ∧ next last = none

namespace Hops

theorem trans {n m : ℕ} {first middle last : A} (hleft : Hops next n first middle)
    (hright : Hops next m middle last) : Hops next (n + m) first last := by
  induction hleft with
  | stay a => simpa using hright
  | @hop n first second middle hnext _ ih =>
      have hwalk : Hops next (n + m + 1) first last := .hop hnext (ih hright)
      have hcount : n + m + 1 = n + 1 + m := by omega
      exact hcount ▸ hwalk

theorem single {first last : A} (hnext : next first = some last) : Hops next 1 first last :=
  .hop hnext (.stay last)

/-- The element reached after a given number of hops is determined. -/
theorem unique {n : ℕ} {first left right : A} (hleft : Hops next n first left)
    (hright : Hops next n first right) : left = right := by
  induction hleft with
  | stay a => cases hright; rfl
  | hop hnext _ ih =>
      cases hright with
      | hop hnext' hrest' =>
          obtain rfl := Option.some.inj (hnext.symm.trans hnext')
          exact ih hrest'

/-- Walks are read off a pointer map, so a larger map keeps every walk. -/
theorem mono {next' : A → Option A}
    (hgrow : ∀ first second, next first = some second → next' first = some second)
    {n : ℕ} {first last : A} (hwalk : Hops next n first last) : Hops next' n first last := by
  induction hwalk with
  | stay a => exact .stay a
  | hop hnext _ ih => exact .hop (hgrow _ _ hnext) ih

end Hops

namespace Settles

/-- A walk that settles runs through everything its start reaches. -/
theorem split {n m : ℕ} {first middle last : A} (hsettles : Settles next n first last)
    (hwalk : Hops next m first middle) : m ≤ n ∧ Settles next (n - m) middle last := by
  induction hwalk generalizing n with
  | stay a => simpa using hsettles
  | @hop m first second middle hnext _ ih =>
      obtain ⟨hhops, hlast⟩ := hsettles
      cases hhops with
      | stay => simp [hnext] at hlast
      | @hop n _ second' _ hnext' hrest' =>
          obtain rfl := Option.some.inj (hnext.symm.trans hnext')
          obtain ⟨hle, hrest⟩ := ih ⟨hrest', hlast⟩
          exact ⟨by omega, by simpa using hrest⟩

/-- The stopping place and the number of hops are determined. -/
theorem unique {n m : ℕ} {first left right : A} (hleft : Settles next n first left)
    (hright : Settles next m first right) : n = m ∧ left = right := by
  have hle := (hleft.split hright.1).1
  have hge := (hright.split hleft.1).1
  obtain rfl : n = m := by omega
  exact ⟨rfl, hleft.1.unique hright.1⟩

theorem not_cycle {n m : ℕ} {first last : A} (hsettles : Settles next n first last) :
    ¬ Hops next (m + 1) first first := by
  intro hcycle
  obtain ⟨hle, hagain⟩ := hsettles.split hcycle
  have hcount := (hsettles.unique hagain).1
  omega

/-- Prepending one hop. -/
theorem cons {n : ℕ} {first second last : A} (hnext : next first = some second)
    (hsettles : Settles next n second last) : Settles next (n + 1) first last :=
  ⟨.hop hnext hsettles.1, hsettles.2⟩

/-- A walk that settles visits each place once, so it has fewer hops than places. -/
theorem lt_card {n : ℕ} {first last : A} [DecidableEq A] (hsettles : Settles next n first last)
    {places : Finset A} (hplaces : ∀ m place, Hops next m first place → place ∈ places) :
    n < places.card := by
  induction n generalizing first places with
  | zero => exact Finset.card_pos.mpr ⟨first, hplaces 0 first (.stay first)⟩
  | succ n ih =>
      have hfirst : first ∈ places := hplaces 0 first (.stay first)
      have hwhole := hsettles
      obtain ⟨hhops, hlast⟩ := hsettles
      cases hhops with
      | @hop _ _ second _ hnext hrest =>
          have hlater : n < (places.erase first).card := by
            apply ih ⟨hrest, hlast⟩
            intro m place hwalk
            have hback : place ≠ first := by
              intro hsame
              subst hsame
              exact hwhole.not_cycle (.hop hnext hwalk)
            exact Finset.mem_erase.mpr ⟨hback, hplaces (m + 1) place (.hop hnext hwalk)⟩
          have hcard := Finset.card_erase_of_mem hfirst
          omega

/-- Sending one element further along its own walk moves no end and lengthens no walk. -/
theorem shortcut {next' : A → Option A} {moved further : A} {m : ℕ}
    (hskip : Hops next (m + 1) moved further) (hnow : next' moved = some further)
    (helse : ∀ other, other ≠ moved → next' other = next other) {n : ℕ} {first last : A}
    (hsettles : Settles next n first last) : ∃ n', n' ≤ n ∧ Settles next' n' first last := by
  induction n using Nat.strong_induction_on generalizing first with
  | _ n ih =>
      by_cases hmoved : first = moved
      · subst hmoved
        obtain ⟨hle, hrest⟩ := hsettles.split hskip
        obtain ⟨n', hn', hrest'⟩ := ih (n - (m + 1)) (by omega) hrest
        exact ⟨n' + 1, by omega, hrest'.cons hnow⟩
      · obtain ⟨hhops, hlast⟩ := hsettles
        cases hhops with
        | stay => exact ⟨0, le_refl _, .stay _, (helse _ hmoved).trans hlast⟩
        | @hop n _ second _ hnext hrest =>
            obtain ⟨n', hn', hrest'⟩ := ih n (by omega) ⟨hrest, hlast⟩
            exact ⟨n' + 1, by omega, hrest'.cons ((helse first hmoved).trans hnext)⟩

/-- Hanging one stopping place under another sends every walk that ended at the first on
to the second. -/
theorem hang [DecidableEq A] {next' : A → Option A} {hung target : A} (hstop : next hung = none)
    (hstop' : next target = none) (hne : hung ≠ target) (hnow : next' hung = some target)
    (helse : ∀ other, other ≠ hung → next' other = next other) {n : ℕ} {first last : A}
    (hsettles : Settles next n first last) :
    ∃ n', Settles next' n' first (if last = hung then target else last) := by
  have hgrow : ∀ before after, next before = some after → next' before = some after := by
    intro before after hnext
    have hother : before ≠ hung := by
      intro hsame
      subst hsame
      simp [hstop] at hnext
    exact (helse before hother).trans hnext
  have hwalk := hsettles.1.mono hgrow
  by_cases hlast : last = hung
  · subst hlast
    rw [if_pos rfl]
    exact ⟨n + 1, hwalk.trans (.single hnow), (helse target hne.symm).trans hstop'⟩
  · rw [if_neg hlast]
    exact ⟨n, hwalk, (helse last hlast).trans hsettles.2⟩

end Settles

end EntityResolution.PointerChain
