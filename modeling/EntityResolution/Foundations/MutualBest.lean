/-
# Mutual best links between classes

Every place belongs to the class of its representative, and weighted links join places of different
classes. Each class ranks its links by weight and then by the place at the other side, and a link
that is first for both of its classes is best. A class has at most one best link, so a step moves at
most one place out of each class and at most one into it.

A moved place takes the smaller of two representatives. It leaves its class alone, so the classes
grow coarser exactly when every place that moves was alone in its class.
-/

import EntityResolution.Foundations.Collections

namespace EntityResolution.MutualBest

universe u v

variable {N : Type u} {P : Type v} [LinearOrder N] [LinearOrder P]

/-- A weighted link between two places. -/
structure Link (N : Type u) (P : Type v) where
  left : N
  right : N
  weight : P

/-- The link from its other side. -/
def Link.flip (link : Link N P) : Link N P := ⟨link.right, link.left, link.weight⟩

/-- The ranking: larger weights first, then smaller places. -/
def Before (weight : P) (place : N) (weight' : P) (place' : N) : Prop :=
  weight' < weight ∨ (weight = weight' ∧ place < place')

theorem eq_of_not_before {weight weight' : P} {place place' : N}
    (hnot : ¬ Before weight place weight' place') (hnot' : ¬ Before weight' place' weight place) :
    weight = weight' ∧ place = place' := by
  simp only [Before, not_or, not_lt, not_and] at hnot hnot'
  have hweight := le_antisymm hnot.1 hnot'.1
  exact ⟨hweight, le_antisymm (hnot'.2 hweight.symm) (hnot.2 hweight)⟩

/-- No link of the left class ranks before the link. -/
def FirstLeft (links : List (Link N P)) (rep : N → N) (link : Link N P) : Prop :=
  ∀ other ∈ links, rep other.left = rep link.left →
    ¬ Before other.weight other.right link.weight link.right

/-- No link of the right class ranks before the link. -/
def FirstRight (links : List (Link N P)) (rep : N → N) (link : Link N P) : Prop :=
  ∀ other ∈ links, rep other.right = rep link.right →
    ¬ Before other.weight other.left link.weight link.left

/-- A link between the two places is first for both classes. -/
def Best (links : List (Link N P)) (rep : N → N) (x y : N) : Prop :=
  ∃ link ∈ links, link.left = x ∧ link.right = y ∧ FirstLeft links rep link ∧
    FirstRight links rep link

/-- A step: a place with a best link takes the smaller of the two representatives. -/
structure Moves (links : List (Link N P)) (rep rep' : N → N) : Prop where
  moved : ∀ x y, Best links rep x y → rep y < rep x → rep' x = rep y
  kept : ∀ x, (∀ y, Best links rep x y → ¬ rep y < rep x) → rep' x = rep x

/-- Every place that a step moves is alone in its class. -/
def LoneMovers (links : List (Link N P)) (rep : N → N) : Prop :=
  ∀ x y, Best links rep x y → rep y < rep x → ∀ z, rep z = rep x → z = x

section Best

variable {links : List (Link N P)} {rep : N → N} {x y x' y' : N}

/-- A class has at most one best link. -/
theorem Best.unique (hbest : Best links rep x y) (hbest' : Best links rep x' y')
    (hsame : rep x = rep x') : x = x' ∧ y = y' := by
  obtain ⟨link, hlink, rfl, rfl, hleft, hright⟩ := hbest
  obtain ⟨link', hlink', rfl, rfl, hleft', hright'⟩ := hbest'
  rcases eq_of_not_before (hleft' link hlink hsame) (hleft link' hlink' hsame.symm) with
    ⟨hweight, hy⟩
  have hclass : rep link.right = rep link'.right := congrArg rep hy
  have hx := eq_of_not_before (hright' link hlink hclass) (hright link' hlink' hclass.symm)
  exact ⟨hx.2, hy⟩

/-- A best link is best from its other side. -/
theorem Best.symm (hflip : ∀ link ∈ links, link.flip ∈ links) (hbest : Best links rep x y) :
    Best links rep y x := by
  obtain ⟨link, hlink, rfl, rfl, hleft, hright⟩ := hbest
  refine ⟨link.flip, hflip link hlink, rfl, rfl, ?_, ?_⟩
  · intro other hother hclass
    exact hright other.flip (hflip other hother) hclass
  · intro other hother hclass
    exact hleft other.flip (hflip other hother) hclass

theorem best_congr {links' : List (Link N P)} (hsame : ∀ link, link ∈ links ↔ link ∈ links') :
    Best links = Best links' := by
  funext rep x y
  simp only [Best, FirstLeft, FirstRight, hsame]

end Best

open Classical in
/-- The representatives after a step. -/
noncomputable def step (links : List (Link N P)) (rep : N → N) (x : N) : N :=
  if hmover : ∃ y, Best links rep x y ∧ rep y < rep x then rep hmover.choose else rep x

theorem step_congr {links links' : List (Link N P)}
    (hsame : ∀ link, link ∈ links ↔ link ∈ links') : step links = step links' := by
  unfold step
  rw [best_congr hsame]

theorem moves_step (links : List (Link N P)) (rep : N → N) : Moves links rep (step links rep) where
  moved x y hbest hlt := by
    have hmover : ∃ y, Best links rep x y ∧ rep y < rep x := ⟨y, hbest, hlt⟩
    rw [step, dif_pos hmover, (hmover.choose_spec.1.unique hbest rfl).2]
  kept x hnone := by
    rw [step, dif_neg]
    rintro ⟨y, hbest, hlt⟩
    exact hnone y hbest hlt

/-- How far the representatives are from the least places. -/
def potential (places : Finset N) (rep : N → N) : ℕ :=
  ∑ x ∈ places, (places.filter fun least => least < rep x).card

theorem potential_le (places : Finset N) (rep : N → N) :
    potential places rep ≤ places.card * places.card := by
  rw [potential, ← smul_eq_mul]
  apply Finset.sum_le_card_nsmul
  intro x _
  exact Finset.card_filter_le _ _

namespace Moves

variable {links : List (Link N P)} {rep rep' : N → N}

theorem cases (hmoves : Moves links rep rep') (x : N) :
    rep' x = rep x ∨ ∃ y, Best links rep x y ∧ rep y < rep x ∧ rep' x = rep y := by
  by_cases hmover : ∃ y, Best links rep x y ∧ rep y < rep x
  · obtain ⟨y, hbest, hlt⟩ := hmover
    exact .inr ⟨y, hbest, hlt, hmoves.moved x y hbest hlt⟩
  · apply Or.inl
    apply hmoves.kept
    intro y hbest hlt
    exact hmover ⟨y, hbest, hlt⟩

theorem le (hmoves : Moves links rep rep') (x : N) : rep' x ≤ rep x := by
  rcases hmoves.cases x with hsame | ⟨y, _, hlt, hmoved⟩
  · exact hsame.le
  · rw [hmoved]
    exact hlt.le

theorem still_iff (hmoves : Moves links rep rep') (hflip : ∀ link ∈ links, link.flip ∈ links)
    (hcross : ∀ link ∈ links, rep link.left ≠ rep link.right) :
    (∀ x, rep' x = rep x) ↔ ∀ x y, ¬ Best links rep x y := by
  apply Iff.intro
  · intro hstill x y hbest
    have hne : rep x ≠ rep y := by
      obtain ⟨link, hlink, rfl, rfl, _⟩ := hbest
      exact hcross link hlink
    rcases lt_or_gt_of_ne hne with hlt | hlt
    · have hmoved := hmoves.moved y x (hbest.symm hflip) hlt
      exact hne (hmoved.symm.trans (hstill y))
    · have hmoved := hmoves.moved x y hbest hlt
      exact hne ((hstill x).symm.trans hmoved)
  · intro hnone x
    exact hmoves.kept x fun y hbest => absurd hbest (hnone x y)

theorem potential_lt (hmoves : Moves links rep rep') {places : Finset N}
    (hknown : ∀ x ∈ places, rep' x ∈ places) (hmoved : ∃ x ∈ places, rep' x ≠ rep x) :
    potential places rep' < potential places rep := by
  apply Finset.sum_lt_sum
  · intro x _
    apply Finset.card_le_card
    intro least hleast
    rw [Finset.mem_filter] at hleast ⊢
    exact ⟨hleast.1, hleast.2.trans_le (hmoves.le x)⟩
  · obtain ⟨x, hx, hne⟩ := hmoved
    refine ⟨x, hx, ?_⟩
    have hlt := lt_of_le_of_ne (hmoves.le x) hne
    apply Finset.card_lt_card
    rw [Finset.ssubset_iff_of_subset]
    · refine ⟨rep' x, Finset.mem_filter.mpr ⟨hknown x hx, hlt⟩, ?_⟩
      simp
    · intro least hleast
      rw [Finset.mem_filter] at hleast ⊢
      exact ⟨hleast.1, hleast.2.trans hlt⟩

/-- When no link joins the classes of two clashing places, a step brings none together. -/
theorem separated (hmoves : Moves links rep rep') (hflip : ∀ link ∈ links, link.flip ∈ links)
    {clash : N → N → Prop} (hsymmetric : ∀ x y, clash x y → clash y x)
    (hapart : ∀ x y, x ≠ y → clash x y → rep x ≠ rep y)
    (hrespects : ∀ link ∈ links, ∀ x y, rep x = rep link.left → rep y = rep link.right →
      ¬ clash x y) :
    ∀ x y, x ≠ y → clash x y → rep' x ≠ rep' y := by
  have hbest : ∀ x y z, Best links rep x y → rep z = rep y → ¬ clash x z := by
    rintro x y z ⟨link, hlink, rfl, rfl, _⟩ hz
    exact hrespects link hlink link.left z rfl hz
  intro x y hne hclash hsame
  rcases hmoves.cases x with hx | ⟨u, hu, _, hx⟩
  · rcases hmoves.cases y with hy | ⟨v, hv, _, hy⟩
    · exact hapart x y hne hclash (hx.symm.trans (hsame.trans hy))
    · exact hbest y v x hv (hx.symm.trans (hsame.trans hy)) (hsymmetric x y hclash)
  · rcases hmoves.cases y with hy | ⟨v, hv, _, hy⟩
    · exact hbest x u y hu (hy.symm.trans (hsame.symm.trans hx)) hclash
    · -- the two movers enter one class, which has one best link
      have hclass : rep u = rep v := hx.symm.trans (hsame.trans hy)
      exact hne ((hu.symm hflip).unique (hv.symm hflip) hclass).2

theorem coarsens_iff (hmoves : Moves links rep rep') :
    (∀ x y, rep x = rep y → rep' x = rep' y) ↔ LoneMovers links rep := by
  apply Iff.intro
  · intro hcoarser x y hbest hlt z hclass
    have hfollows := (hcoarser z x hclass).trans (hmoves.moved x y hbest hlt)
    rcases hmoves.cases z with hz | ⟨v, hv, _, _⟩
    · exact absurd (hfollows.symm.trans (hz.trans hclass)) hlt.ne
    · exact (hv.unique hbest hclass).1
  · intro hlone x y hclass
    rcases hmoves.cases x with hx | ⟨u, hu, hlt, _⟩
    · rcases hmoves.cases y with hy | ⟨v, hv, hlt, _⟩
      · rw [hx, hy, hclass]
      · rw [hlone y v hv hlt x hclass]
    · rw [hlone x u hu hlt y hclass.symm]

/-- When every place that moves was alone, representatives stay least members of their classes. -/
theorem least (hmoves : Moves links rep rep') (hflip : ∀ link ∈ links, link.flip ∈ links)
    (hlone : LoneMovers links rep)
    (hleast : ∀ x, rep (rep x) = rep x ∧ rep x ≤ x) : ∀ x, rep' (rep' x) = rep' x ∧ rep' x ≤ x := by
  have hstays : ∀ x, rep' x = rep x → rep' (rep x) = rep x := by
    intro x hx
    rcases hmoves.cases (rep x) with hrep | ⟨u, hu, hlt, _⟩
    · rw [hrep, (hleast x).1]
    · have halone := hlone (rep x) u hu hlt x (hleast x).1.symm
      rw [← halone]
      exact hx.trans halone.symm
  intro x
  refine ⟨?_, (hmoves.le x).trans (hleast x).2⟩
  rcases hmoves.cases x with hx | ⟨y, hbest, hlt, hx⟩
  · rw [hx]
    exact hstays x hx
  · rw [hx]
    apply hstays
    apply hmoves.kept
    intro v hv hback
    -- the class that is entered has one best link, and it leads back to the mover
    have hsame := (hv.unique (hbest.symm hflip) rfl).2
    rw [hsame] at hback
    exact lt_asymm hlt hback

end Moves

end EntityResolution.MutualBest
