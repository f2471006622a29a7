/-
# Views over the pairs of a snapshot

A snapshot gives some keys a value. A pair view is a table over pairs of keys whose cell
depends on the two values alone, and is absent where one of the two keys has none. It is
the abstract form of every score table: what a scorer says about the records it sees.

A stored table may be maintained instead of recomputed. If it reflects one snapshot, and
the keys at which a second snapshot differs are all marked stale, then recomputing the
cells that touch a stale key makes it reflect the second one.
-/

import Mathlib

namespace EntityResolution.PairView

universe u v w

variable {K : Type u} {V : Type v} {W : Type w}

/-- The view of a snapshot: one cell for each pair of keys that both have a value. -/
def pairView (cell : K → K → V → V → Option W) (snapshot : K → Option V) (a b : K) : Option W :=
  (snapshot a).bind fun left => (snapshot b).bind fun right => cell a b left right

variable {cell : K → K → V → V → Option W} {snapshot snapshot' : K → Option V} {a b : K}

theorem pairView_eq_some_iff {value : W} :
    pairView cell snapshot a b = some value ↔
      ∃ left right, snapshot a = some left ∧ snapshot b = some right ∧
        cell a b left right = some value := by
  simp only [pairView, Option.bind_eq_some_iff]
  apply Iff.intro
  · rintro ⟨left, hleft, right, hright, hcell⟩
    exact ⟨left, right, hleft, hright, hcell⟩
  · rintro ⟨left, right, hleft, hright, hcell⟩
    exact ⟨left, hleft, right, hright, hcell⟩

theorem pairView_eq_none (habsent : snapshot a = none ∨ snapshot b = none) :
    pairView cell snapshot a b = none := by
  rcases habsent with habsent | habsent
  · simp [pairView, habsent]
  · cases snapshot a <;> simp [pairView, habsent]

theorem pairView_congr (ha : snapshot a = snapshot' a) (hb : snapshot b = snapshot' b) :
    pairView cell snapshot a b = pairView cell snapshot' a b := by
  rw [pairView, pairView, ha, hb]

/-- Recomputing the cells that touch a stale key moves a table from the snapshot it
reflects to any snapshot that differs from it at stale keys only. -/
theorem reflects_of_refresh {table table' : K → K → Option W} (stale : K → Prop)
    (hreflects : ∀ a b, table a b = pairView cell snapshot a b)
    (hagree : ∀ k, ¬ stale k → snapshot k = snapshot' k)
    (htouched : ∀ a b, stale a ∨ stale b → table' a b = pairView cell snapshot' a b)
    (hrest : ∀ a b, ¬ stale a → ¬ stale b → table' a b = table a b) (a b : K) :
    table' a b = pairView cell snapshot' a b := by
  by_cases ha : stale a
  · exact htouched a b (.inl ha)
  · by_cases hb : stale b
    · exact htouched a b (.inr hb)
    · calc table' a b = table a b := hrest a b ha hb
        _ = pairView cell snapshot a b := hreflects a b
        _ = pairView cell snapshot' a b := pairView_congr (hagree a ha) (hagree b hb)

/-- A snapshot laid over another has the same view exactly when no cell of the result
touches a key that only the lower one gives a value. -/
theorem pairView_or_eq_iff :
    (∀ a b, pairView cell (fun k => (snapshot k).or (snapshot' k)) a b =
        pairView cell snapshot a b) ↔
      ∀ a b, (pairView cell (fun k => (snapshot k).or (snapshot' k)) a b).isSome →
        (snapshot a).isSome ∧ (snapshot b).isSome := by
  apply Iff.intro
  · intro hsame a b hcell
    rw [hsame a b, Option.isSome_iff_exists] at hcell
    obtain ⟨value, hvalue⟩ := hcell
    obtain ⟨left, right, hleft, hright, _⟩ := pairView_eq_some_iff.mp hvalue
    exact ⟨by simp [hleft], by simp [hright]⟩
  · intro htouch a b
    by_cases hboth : (snapshot a).isSome ∧ (snapshot b).isSome
    · apply pairView_congr
      · rw [Option.or_of_isSome hboth.1]
      · rw [Option.or_of_isSome hboth.2]
    · have hnone : pairView cell (fun k => (snapshot k).or (snapshot' k)) a b = none := by
        rw [← Option.not_isSome_iff_eq_none]
        exact fun hcell => hboth (htouch a b hcell)
      rw [hnone, pairView_eq_none]
      by_contra habsent
      obtain ⟨ha, hb⟩ := not_or.mp habsent
      exact hboth ⟨Option.isSome_iff_ne_none.mpr ha, Option.isSome_iff_ne_none.mpr hb⟩

end EntityResolution.PairView
