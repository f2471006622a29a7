/-
# Gathering places one at a time

A step moves every place with a best link at once. Its moves can be made one after the other
instead, in any order: while lone places join, a best link of two classes that they leave as they
are stays best. So the run of the steps can be told from the links alone. All its movers are alone
and its end is settled exactly when single places can be gathered to a settled end.
-/

import EntityResolution.Foundations.MutualBest

namespace EntityResolution.MutualBest

universe u v

variable {N : Type u} {P : Type v} [LinearOrder N] [LinearOrder P]

open Classical in
/-- The links whose classes differ and hold no two foes. -/
noncomputable def openLinks (all : List (Link N P)) (foe : N → N → Prop) (rep : N → N) :
    List (Link N P) :=
  all.filter fun link => rep link.left ≠ rep link.right ∧
    ∀ x y, rep x = rep link.left → rep y = rep link.right → ¬ foe x y

/-- Lone places can join along best links, one after the other, until no link is best and the
classes are settled. -/
inductive Gathers (all : List (Link N P)) (foe : N → N → Prop) (settled : (N → N) → Prop) :
    (N → N) → Prop
  | done (rep : N → N) (hnone : ∀ x y, ¬ Best (openLinks all foe rep) rep x y)
      (hsettled : settled rep) : Gathers all foe settled rep
  | join (rep : N → N) (x y : N) (hbest : Best (openLinks all foe rep) rep x y)
      (hlt : rep y < rep x) (halone : ∀ z, rep z = rep x → z = x)
      (hrest : Gathers all foe settled (Function.update rep x (rep y))) :
      Gathers all foe settled rep

/-- The representatives when only some places have made their step. -/
noncomputable def stepOn (links : List (Link N P)) (rep : N → N) (places : Finset N) (z : N) : N :=
  if z ∈ places then step links rep z else rep z

/-- The representatives after some steps along open links. -/
noncomputable def steps (all : List (Link N P)) (foe : N → N → Prop) (rep : N → N) : ℕ → N → N
  | 0 => rep
  | k + 1 => step (openLinks all foe (steps all foe rep k)) (steps all foe rep k)

variable {all : List (Link N P)} {foe : N → N → Prop} {settled : (N → N) → Prop}
variable {rep rep' : N → N} {x y z : N} {places : Finset N}

omit [LinearOrder P] in
theorem mem_openLinks {link : Link N P} : link ∈ openLinks all foe rep ↔
    link ∈ all ∧ rep link.left ≠ rep link.right ∧
      ∀ x y, rep x = rep link.left → rep y = rep link.right → ¬ foe x y := by
  classical
  rw [openLinks, List.mem_filter, decide_eq_true_iff]

omit [LinearOrder P] in
theorem flip_mem_openLinks (hflip : ∀ link ∈ all, link.flip ∈ all)
    (hfoe : ∀ x y, foe x y → foe y x) :
    ∀ link ∈ openLinks all foe rep, link.flip ∈ openLinks all foe rep := by
  intro link hlink
  obtain ⟨hall, hcross, hfree⟩ := mem_openLinks.mp hlink
  refine mem_openLinks.mpr ⟨hflip link hall, hcross.symm, ?_⟩
  intro x y hx hy hclash
  exact hfree y x hy hx (hfoe x y hclash)

/-- A best link stays best in coarser classes that leave its own two as they are. -/
theorem Best.persist (hbest : Best (openLinks all foe rep) rep x y)
    (hcoarser : ∀ u v, rep u = rep v → rep' u = rep' v)
    (hx : ∀ z, rep' z = rep' x → rep z = rep x) (hy : ∀ z, rep' z = rep' y → rep z = rep y) :
    Best (openLinks all foe rep') rep' x y := by
  have hopen : ∀ link ∈ openLinks all foe rep', link ∈ openLinks all foe rep := by
    intro link hlink
    obtain ⟨hall, hcross, hfree⟩ := mem_openLinks.mp hlink
    refine mem_openLinks.mpr ⟨hall, fun hsame => hcross (hcoarser _ _ hsame), ?_⟩
    intro u v hu hv
    exact hfree u v (hcoarser _ _ hu) (hcoarser _ _ hv)
  obtain ⟨link, hlink, rfl, rfl, hleft, hright⟩ := hbest
  obtain ⟨hall, hcross, hfree⟩ := mem_openLinks.mp hlink
  refine ⟨link, mem_openLinks.mpr ⟨hall, ?_, ?_⟩, rfl, rfl, ?_, ?_⟩
  · intro hsame
    exact hcross (hx _ hsame.symm).symm
  · intro u v hu hv
    exact hfree u v (hx u hu) (hy v hv)
  · intro other hother hclass
    exact hleft other (hopen other hother) (hx _ hclass)
  · intro other hother hclass
    exact hright other (hopen other hother) (hy _ hclass)

theorem stepOn_cases (links : List (Link N P)) (rep : N → N) (places : Finset N) (z : N) :
    stepOn links rep places z = rep z ∨
      ∃ w, Best links rep z w ∧ rep w < rep z ∧ stepOn links rep places z = rep w := by
  rw [stepOn]
  split
  · exact (moves_step links rep).cases z
  · exact Or.inl rfl

/-- Nothing leaves the class that a place moves to. -/
theorem Best.stays {links : List (Link N P)} (hflip : ∀ link ∈ links, link.flip ∈ links)
    (hbest : Best links rep x y) (hlt : rep y < rep x) :
    stepOn links rep places y = rep y := by
  rcases stepOn_cases links rep places y with hstays | ⟨w, hw, hback, _⟩
  · exact hstays
  · have hsame := (hw.unique (hbest.symm hflip) rfl).2
    rw [hsame] at hback
    exact absurd hlt hback.asymm

theorem stepOn_eq_step {links : List (Link N P)}
    (hmovers : ∀ x y, Best links rep x y → rep y < rep x → x ∈ places) :
    stepOn links rep places = step links rep := by
  funext z
  by_cases hz : z ∈ places
  · exact if_pos hz
  · rw [stepOn, if_neg hz]
    exact ((moves_step links rep).kept z fun y hbest hlt => hz (hmovers z y hbest hlt)).symm

theorem stepOn_insert_of_mover {links : List (Link N P)} (hbest : Best links rep x y)
    (hlt : rep y < rep x) :
    stepOn links rep (insert x places) = Function.update (stepOn links rep places) x (rep y) := by
  funext z
  by_cases hz : z = x
  · rw [hz, Function.update_self, stepOn, if_pos (Finset.mem_insert_self x places),
      (moves_step links rep).moved x y hbest hlt]
  · rw [Function.update_of_ne hz, stepOn, stepOn]
    simp only [Finset.mem_insert, hz, false_or]

theorem stepOn_insert_of_still {links : List (Link N P)}
    (hstill : ∀ y, Best links rep x y → ¬ rep y < rep x) :
    stepOn links rep (insert x places) = stepOn links rep places := by
  funext z
  by_cases hz : z = x
  · have hkept : step links rep x = rep x := (moves_step links rep).kept x hstill
    rw [hz, stepOn, stepOn, if_pos (Finset.mem_insert_self x places), hkept, ite_self]
  · rw [stepOn, stepOn]
    simp only [Finset.mem_insert, hz, false_or]

/-- When only lone places move, classes stay together. -/
theorem LoneMovers.stepOn_eq {links : List (Link N P)} (hlone : LoneMovers links rep) {u v : N}
    (hsame : rep u = rep v) : stepOn links rep places u = stepOn links rep places v := by
  rcases stepOn_cases links rep places u with hu | ⟨w, hw, hback, _⟩
  · rcases stepOn_cases links rep places v with hv | ⟨w, hw, hback, _⟩
    · rw [hu, hv, hsame]
    · rw [hlone v w hw hback u hsame]
  · rw [hlone u w hw hback v hsame.symm]

theorem mem_ends (hbest : Best (openLinks all foe rep) rep x y) :
    x ∈ (all.map Link.left).toFinset := by
  obtain ⟨link, hlink, rfl, _⟩ := hbest
  exact List.mem_toFinset.mpr (List.mem_map_of_mem (mem_openLinks.mp hlink).1)

section Lone

variable (hflip : ∀ link ∈ all, link.flip ∈ all) (hfoe : ∀ x y, foe x y → foe y x)

include hflip hfoe

/-- Of lone movers, one more can join. -/
theorem Gathers.of_insert (hlone : LoneMovers (openLinks all foe rep) rep)
    (hgathers : Gathers all foe settled
      (stepOn (openLinks all foe rep) rep (insert x places))) :
    Gathers all foe settled (stepOn (openLinks all foe rep) rep places) := by
  have hflips : ∀ link ∈ openLinks all foe rep, link.flip ∈ openLinks all foe rep :=
    flip_mem_openLinks hflip hfoe
  by_cases hin : x ∈ places
  · rwa [Finset.insert_eq_of_mem hin] at hgathers
  by_cases hmover : ∃ y, Best (openLinks all foe rep) rep x y ∧ rep y < rep x
  · obtain ⟨y, hbest, hlt⟩ := hmover
    have hown : stepOn (openLinks all foe rep) rep places x = rep x := if_neg hin
    have hother : stepOn (openLinks all foe rep) rep places y = rep y := hbest.stays hflips hlt
    have hclass : ∀ z, stepOn (openLinks all foe rep) rep places z =
        stepOn (openLinks all foe rep) rep places x → rep z = rep x := by
      intro z hz
      rw [hown] at hz
      rcases stepOn_cases (openLinks all foe rep) rep places z with hstays | ⟨w, hw, hback, hto⟩
      · exact hstays.symm.trans hz
      · -- whatever enters the class of the mover would be its best neighbour
        have hsame := (hw.symm hflips).unique hbest (hto.symm.trans hz)
        rw [hsame.1, hsame.2] at hback
        exact absurd hlt hback.asymm
    have htarget : ∀ z, stepOn (openLinks all foe rep) rep places z =
        stepOn (openLinks all foe rep) rep places y → rep z = rep y := by
      intro z hz
      rw [hother] at hz
      rcases stepOn_cases (openLinks all foe rep) rep places z with hstays | ⟨w, hw, _, hto⟩
      · exact hstays.symm.trans hz
      · have hsame := ((hw.symm hflips).unique (hbest.symm hflips) (hto.symm.trans hz)).2
        rw [hsame, hown] at hz
        exact absurd hz hlt.ne'
    rw [stepOn_insert_of_mover hbest hlt, ← hother] at hgathers
    apply Gathers.join _ x y _ _ _ hgathers
    · exact hbest.persist (fun u v hsame => hlone.stepOn_eq hsame) hclass htarget
    · rw [hother, hown]
      exact hlt
    · intro z hz
      exact hlone x y hbest hlt z (hclass z hz)
  · rwa [stepOn_insert_of_still fun y hbest hlt => hmover ⟨y, hbest, hlt⟩] at hgathers

/-- Of lone movers, any others can join. -/
theorem Gathers.of_union (hlone : LoneMovers (openLinks all foe rep) rep) (others : Finset N)
    (hgathers : Gathers all foe settled
      (stepOn (openLinks all foe rep) rep (places ∪ others))) :
    Gathers all foe settled (stepOn (openLinks all foe rep) rep places) := by
  induction others using Finset.induction_on with
  | empty => rwa [Finset.union_empty] at hgathers
  | insert x others _ ih =>
      rw [Finset.union_insert] at hgathers
      exact ih (Gathers.of_insert hflip hfoe hlone hgathers)

/-- Once a lone place has joined, the other movers of a step still have their best links. -/
theorem Best.after_join (hbest : Best (openLinks all foe rep) rep x y) (hlt : rep y < rep x)
    (halone : ∀ z, rep z = rep x → z = x) {x' y' : N}
    (hbest' : Best (openLinks all foe rep) rep x' y') (hlt' : rep y' < rep x') (hne : x' ≠ x) :
    y' ≠ x ∧ Best (openLinks all foe (Function.update rep x (rep y)))
      (Function.update rep x (rep y)) x' y' := by
  have hflips : ∀ link ∈ openLinks all foe rep, link.flip ∈ openLinks all foe rep :=
    flip_mem_openLinks hflip hfoe
  have hne' : y' ≠ x := by
    intro hsame
    rw [hsame] at hbest' hlt'
    rw [((hbest'.symm hflips).unique hbest rfl).2] at hlt'
    exact hlt'.asymm hlt
  refine ⟨hne', hbest'.persist ?_ ?_ ?_⟩
  · intro u v hsame
    by_cases hu : u = x
    · rw [hu, halone v (hu ▸ hsame.symm)]
    · have hv : v ≠ x := fun hv => hu (halone u (hv ▸ hsame))
      rw [Function.update_of_ne hu, Function.update_of_ne hv, hsame]
  · intro z hz
    rw [Function.update_of_ne hne] at hz
    by_cases hzx : z = x
    · rw [hzx, Function.update_self] at hz
      exact absurd ((hbest.symm hflips).unique hbest' hz).2 hne'.symm
    · rwa [Function.update_of_ne hzx] at hz
  · intro z hz
    rw [Function.update_of_ne hne'] at hz
    by_cases hzx : z = x
    · rw [hzx, Function.update_self] at hz
      exact absurd ((hbest.symm hflips).unique (hbest'.symm hflips) hz).2 hne.symm
    · rwa [Function.update_of_ne hzx] at hz

theorem exists_step_eq_stepOn (hbest : Best (openLinks all foe rep) rep x y) (hlt : rep y < rep x)
    (halone : ∀ z, rep z = rep x → z = x) : ∃ movers, step (openLinks all foe rep) rep =
      stepOn (openLinks all foe (Function.update rep x (rep y))) (Function.update rep x (rep y))
        movers := by
  classical
  refine ⟨(all.map Link.left).toFinset.filter fun z =>
    z ≠ x ∧ ∃ w, Best (openLinks all foe rep) rep z w ∧ rep w < rep z, ?_⟩
  funext z
  rw [stepOn]
  split
  · next hz =>
      obtain ⟨_, hne, w, hw, hback⟩ := Finset.mem_filter.mp hz
      obtain ⟨hne', hw₁⟩ := hbest.after_join hflip hfoe hlt halone hw hback hne
      have hback₁ : Function.update rep x (rep y) w < Function.update rep x (rep y) z := by
        rwa [Function.update_of_ne hne, Function.update_of_ne hne']
      rw [(moves_step _ _).moved z w hw₁ hback₁, (moves_step _ rep).moved z w hw hback,
        Function.update_of_ne hne']
  · next hz =>
      by_cases hzx : z = x
      · rw [hzx, Function.update_self, (moves_step _ rep).moved x y hbest hlt]
      · rw [Function.update_of_ne hzx]
        apply (moves_step _ rep).kept
        intro w hw hback
        exact hz (Finset.mem_filter.mpr ⟨mem_ends hw, hzx, w, hw, hback⟩)

/-- Places can be gathered exactly when the movers of the next step are alone and places can be
gathered after it. -/
theorem gathers_iff_step : Gathers all foe settled rep ↔
    LoneMovers (openLinks all foe rep) rep ∧
      Gathers all foe settled (step (openLinks all foe rep) rep) := by
  have hends : ∀ (rep : N → N) places, stepOn (openLinks all foe rep) rep
      (places ∪ (all.map Link.left).toFinset) = step (openLinks all foe rep) rep :=
    fun rep places => stepOn_eq_step fun x y hbest _ =>
      Finset.mem_union_right _ (mem_ends hbest)
  apply Iff.intro
  · intro hgathers
    induction hgathers with
    | done rep hnone hsettled =>
        have hstill : step (openLinks all foe rep) rep = rep := funext fun z =>
          (moves_step _ rep).kept z fun y hbest => absurd hbest (hnone z y)
        rw [hstill]
        exact ⟨fun x y hbest => absurd hbest (hnone x y), .done rep hnone hsettled⟩
    | join rep x y hbest hlt halone hrest ih =>
        obtain ⟨hlone, hnext⟩ := ih
        refine ⟨?_, ?_⟩
        · intro x' y' hbest' hlt' z hz
          by_cases hne : x' = x
          · rw [hne] at hz ⊢
            exact halone z hz
          · obtain ⟨hne', hbest₁⟩ := hbest.after_join hflip hfoe hlt halone hbest' hlt' hne
            have hzx : z ≠ x := fun hzx => hne (halone x' (hzx ▸ hz.symm))
            apply hlone x' y' hbest₁
            · rwa [Function.update_of_ne hne, Function.update_of_ne hne']
            · rwa [Function.update_of_ne hne, Function.update_of_ne hzx]
        · obtain ⟨movers, hstep⟩ := exists_step_eq_stepOn hflip hfoe hbest hlt halone
          rw [hstep]
          apply Gathers.of_union hflip hfoe hlone (all.map Link.left).toFinset
          rw [hends]
          exact hnext
  · rintro ⟨hlone, hnext⟩
    have hnone : stepOn (openLinks all foe rep) rep ∅ = rep := funext fun z =>
      if_neg (Finset.notMem_empty z)
    rw [← hnone]
    apply Gathers.of_union hflip hfoe hlone (all.map Link.left).toFinset
    rw [hends]
    exact hnext

/-- Places can be gathered exactly when the movers of the first steps are alone and places can be
gathered after them. -/
theorem gathers_iff_steps (k : ℕ) : Gathers all foe settled rep ↔
    (∀ j < k, LoneMovers (openLinks all foe (steps all foe rep j)) (steps all foe rep j)) ∧
      Gathers all foe settled (steps all foe rep k) := by
  induction k with
  | zero => simp [steps]
  | succ k ih =>
      rw [ih, gathers_iff_step hflip hfoe, steps, Nat.forall_lt_succ_right, and_assoc]

end Lone

/-- Without a best link, places are gathered when the classes are settled. -/
theorem gathers_iff_settled (hnone : ∀ x y, ¬ Best (openLinks all foe rep) rep x y) :
    Gathers all foe settled rep ↔ settled rep := by
  apply Iff.intro
  · intro hgathers
    cases hgathers with
    | done _ _ hsettled => exact hsettled
    | join _ x y hbest => exact absurd hbest (hnone x y)
  · exact .done rep hnone

end EntityResolution.MutualBest
