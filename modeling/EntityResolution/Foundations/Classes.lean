/-
# Classes of a relation, one pair at a time

The classes of a growing relation are told apart by a function, the root of a place. Adding one more
pair joins two classes and no others, so it is enough that the new roots do the same. Both
union-finds keep their classes by this one lemma.
-/

import Mathlib.Logic.Relation
import Mathlib.Tactic.Tauto

namespace EntityResolution.Classes

universe u v

variable {K : Type u} {L : Type v}

/-- The function tells apart exactly the classes of a relation among some places. -/
def Classifies (Place : K → Prop) (link : K → K → Prop) (root : K → L) : Prop :=
  ∀ x y, Place x → Place y → (root x = root y ↔ Relation.ReflTransGen link x y)

/-- A relation with one more pair, in both directions. -/
def Adding (link : K → K → Prop) (a b x y : K) : Prop :=
  link x y ∨ (x = a ∧ y = b) ∨ (x = b ∧ y = a)

/-- Joining two classes and no others classifies the relation with one more pair. -/
theorem Classifies.unite {Place : K → Prop} {link : K → K → Prop} {root root' : K → L} {a b : K}
    (hclasses : Classifies Place link root)
    (hplaces : ∀ x y, link x y → Place x ∧ Place y) (ha : Place a) (hb : Place b)
    (hunited : ∀ x y, Place x → Place y → (root' x = root' y ↔
      root x = root y ∨ (root x = root a ∧ root y = root b) ∨
        (root x = root b ∧ root y = root a))) :
    Classifies Place (Adding link a b) root' := by
  have hgrow : ∀ x y, Place x → Place y → root x = root y →
      Relation.ReflTransGen (Adding link a b) x y := by
    intro x y hx hy hsame
    exact Relation.ReflTransGen.mono (fun _ _ hlink => Or.inl hlink) _ _
      ((hclasses x y hx hy).mp hsame)
  have hjoin : Relation.ReflTransGen (Adding link a b) a b :=
    .single (Or.inr (Or.inl ⟨rfl, rfl⟩))
  have hjoin' : Relation.ReflTransGen (Adding link a b) b a :=
    .single (Or.inr (Or.inr ⟨rfl, rfl⟩))
  intro x y hx hy
  apply Iff.intro
  · intro hsame
    rcases (hunited x y hx hy).mp hsame with hsame | ⟨hxa, hyb⟩ | ⟨hxb, hya⟩
    · exact hgrow x y hx hy hsame
    · exact ((hgrow x a hx ha hxa).trans hjoin).trans (hgrow b y hb hy hyb.symm)
    · exact ((hgrow x b hx hb hxb).trans hjoin').trans (hgrow a y ha hy hya.symm)
  · intro hwalk
    have hstep : ∀ u v, Adding link a b u v → Place u ∧ Place v ∧ root' u = root' v := by
      intro u v hlink
      rcases hlink with hlink | ⟨rfl, rfl⟩ | ⟨rfl, rfl⟩
      · obtain ⟨hu, hv⟩ := hplaces u v hlink
        refine ⟨hu, hv, (hunited u v hu hv).mpr (Or.inl ?_)⟩
        exact (hclasses u v hu hv).mpr (.single hlink)
      · exact ⟨ha, hb, (hunited u v ha hb).mpr (Or.inr (Or.inl ⟨rfl, rfl⟩))⟩
      · exact ⟨hb, ha, (hunited u v hb ha).mpr (Or.inr (Or.inr ⟨rfl, rfl⟩))⟩
    clear hy
    induction hwalk with
    | refl => rfl
    | tail _ hlink ih => exact ih.trans (hstep _ _ hlink).2.2

/-- Two keys are linked by one of the pairs, in either order. -/
def Linked (pairs : List (K × K)) (x y : K) : Prop := (x, y) ∈ pairs ∨ (y, x) ∈ pairs

theorem linked_concat {pairs : List (K × K)} {a b : K} :
    Linked (pairs ++ [(a, b)]) = Adding (Linked pairs) a b := by
  funext x y
  simp only [Linked, Adding, List.mem_append, List.mem_singleton, Prod.mk.injEq, eq_iff_iff]
  tauto

end EntityResolution.Classes
