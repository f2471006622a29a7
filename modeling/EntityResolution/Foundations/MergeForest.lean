/-
# Populations whose members merge into one another

A census records what has become of every element that ever existed: it is live, it
was merged into another element, or it was closed. Time moves a census forward under
two laws. A fate other than being live is final, and an element that is merged now is
merged into an element that is live afterwards.

The second law is local to one step, and it is all that a step has to guarantee: by
induction every chain of merges ends, at an element that was not merged, and a step
makes no chain longer by more than one hop.
-/

import EntityResolution.Foundations.PointerChain

namespace EntityResolution.MergeForest

open EntityResolution.PointerChain

universe u

variable {A : Type u}

/-- What has become of an element. -/
inductive Fate (A : Type u)
  | live
  | movedTo (target : A)
  | closed

/-- The fates of all elements that ever existed. -/
abbrev Census (A : Type u) := A → Option (Fate A)

/-- The merge pointers of a census. -/
def target (census : Census A) (a : A) : Option A :=
  match census a with
  | some (.movedTo b) => some b
  | _ => none

theorem target_eq_some_iff {census : Census A} {a b : A} :
    target census a = some b ↔ census a = some (.movedTo b) := by
  unfold target
  cases hfate : census a with
  | none => simp
  | some fate => cases fate <;> simp

theorem target_eq_none {census : Census A} {a : A}
    (hend : census a = some .live ∨ census a = some .closed) : target census a = none := by
  rcases hend with hlive | hclosed
  · simp [target, hlive]
  · simp [target, hclosed]

/-- One step of time: fates are final, and new merges go to elements live afterwards. -/
structure Advances (before after : Census A) : Prop where
  final : ∀ {a : A} {fate : Fate A}, before a = some fate → fate ≠ .live → after a = some fate
  known : ∀ {a : A}, before a = some .live → ∃ fate, after a = some fate
  lands : ∀ {a b : A}, after a = some (.movedTo b) → before a ≠ some (.movedTo b) →
    after b = some .live

/-- Every known element settles within the bound, at an element that was not merged. -/
def Grounded (bound : ℕ) (census : Census A) : Prop :=
  ∀ (a : A) (fate : Fate A), census a = some fate → ∃ n last, n ≤ bound ∧
    Settles (target census) n a last ∧ (census last = some .live ∨ census last = some .closed)

theorem grounded_nothing : Grounded 0 (fun _ : A => none) := by
  intro a fate hfate
  cases hfate

/-- A step extends every walk that has settled by one hop at most. -/
theorem Advances.settles {before after : Census A} (hstep : Advances before after) {n : ℕ}
    {a last : A} (hsettles : Settles (target before) n a last)
    (hend : before last = some .live ∨ before last = some .closed) :
    ∃ m last', m ≤ n + 1 ∧ Settles (target after) m a last' ∧
      (after last' = some .live ∨ after last' = some .closed) := by
  have hwalk : Hops (target after) n a last := by
    apply hsettles.1.mono
    intro first second htarget
    rw [target_eq_some_iff] at htarget ⊢
    exact hstep.final htarget (by simp)
  have hstop (hend' : after last = some .live ∨ after last = some .closed) :
      ∃ m last', m ≤ n + 1 ∧ Settles (target after) m a last' ∧
        (after last' = some .live ∨ after last' = some .closed) :=
    ⟨n, last, by omega, ⟨hwalk, target_eq_none hend'⟩, hend'⟩
  cases hend with
  | inr hclosed => exact hstop (.inr (hstep.final hclosed (by simp)))
  | inl hlive =>
      obtain ⟨fate, hfate⟩ := hstep.known hlive
      cases fate with
      | live => exact hstop (.inl hfate)
      | closed => exact hstop (.inr hfate)
      | movedTo b =>
          -- The walk's end has just been merged, into an element that is live now.
          have hb : after b = some .live := hstep.lands hfate (by simp [hlive])
          have hhop : Hops (target after) 1 last b := .single (target_eq_some_iff.mpr hfate)
          exact ⟨n + 1, b, le_refl _, ⟨hwalk.trans hhop, target_eq_none (.inl hb)⟩, .inl hb⟩

/-- The step lemma: grounded censuses stay grounded. -/
theorem Advances.grounded {before after : Census A} (hstep : Advances before after) {bound : ℕ}
    (hgrounded : Grounded bound before) : Grounded (bound + 1) after := by
  intro a fate hfate
  have hstop (hend : after a = some .live ∨ after a = some .closed) :
      ∃ n last, n ≤ bound + 1 ∧ Settles (target after) n a last ∧
        (after last = some .live ∨ after last = some .closed) :=
    ⟨0, a, by omega, ⟨.stay a, target_eq_none hend⟩, hend⟩
  cases fate with
  | live => exact hstop (.inl hfate)
  | closed => exact hstop (.inr hfate)
  | movedTo b =>
      by_cases hbefore : before a = some (.movedTo b)
      · obtain ⟨n, last, hn, hsettles, hend⟩ := hgrounded a _ hbefore
        obtain ⟨m, last', hm, hsettles', hend'⟩ := hstep.settles hsettles hend
        exact ⟨m, last', by omega, hsettles', hend'⟩
      · have hb : after b = some .live := hstep.lands hfate hbefore
        have hhop : Hops (target after) 1 a b := .single (target_eq_some_iff.mpr hfate)
        exact ⟨1, b, by omega, ⟨hhop, target_eq_none (.inl hb)⟩, .inl hb⟩

/-- In a grounded census no chain of merges closes on itself. -/
theorem Grounded.acyclic {bound : ℕ} {census : Census A} (hgrounded : Grounded bound census)
    (n : ℕ) (a : A) : ¬ Hops (target census) (n + 1) a a := by
  intro hcycle
  cases hcycle with
  | hop hnext hrest =>
      obtain ⟨m, last, _, hsettles, _⟩ := hgrounded a _ (target_eq_some_iff.mp hnext)
      exact hsettles.not_cycle (.hop hnext hrest)

/-- A fate other than being live is final over any stretch of time. -/
theorem final_of_reflTransGen {before after : Census A}
    (hsteps : Relation.ReflTransGen Advances before after) {a : A} {fate : Fate A}
    (hfate : before a = some fate) (hdone : fate ≠ .live) : after a = some fate := by
  induction hsteps with
  | refl => exact hfate
  | tail _ hstep ih => exact hstep.final ih hdone

end EntityResolution.MergeForest
