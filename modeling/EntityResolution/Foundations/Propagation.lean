/-
# Least labels that spread

Every place of a linked set carries a label, at first itself. A step gives all places of one label
the least label among their own and those of the places they are paired with. A label that no pair
leaves is done, and its places are set aside; of the other pairs only those between two labels stay.

The places of one label are always joined by walks, and a link between two labels is always among
the pairs. So a label set aside is a whole component under its least place, and no pair it once had
is needed again. While pairs remain, the largest label of a pair dies out in every step.
-/

import EntityResolution.Foundations.Collections

namespace EntityResolution.Propagation

universe u

variable {N : Type u} [LinearOrder N]

/-- The least place that a walk reaches. -/
def LeastReached (link : N → N → Prop) (x least : N) : Prop :=
  Relation.ReflTransGen link x least ∧ ∀ y, Relation.ReflTransGen link x y → least ≤ y

theorem LeastReached.unique {link : N → N → Prop} {x least least' : N}
    (hleast : LeastReached link x least) (hleast' : LeastReached link x least') :
    least = least' :=
  le_antisymm (hleast.2 least' hleast'.1) (hleast'.2 least hleast.1)

/-- The least place that a walk reaches, when there is one. -/
noncomputable def leastReached (link : N → N → Prop) (x : N) : N :=
  @Classical.epsilon N ⟨x⟩ (LeastReached link x)

theorem LeastReached.eq {link : N → N → Prop} {x least : N} (hleast : LeastReached link x least) :
    leastReached link x = least :=
  (@Classical.epsilon_spec N (LeastReached link x) ⟨least, hleast⟩).unique hleast

/-- Contraction: links between components of a first relation are walks of the two together. -/
theorem LeastReached.of_contracted {first second contracted : N → N → Prop} {seed : N → N}
    (hsymmetric : ∀ x y, first x y → first y x) (hseed : ∀ x, LeastReached first x (seed x))
    (hcontracted : ∀ a b, contracted a b ↔ ∃ x y, second x y ∧ seed x = a ∧ seed y = b)
    {x least : N} (hleast : LeastReached contracted (seed x) least) :
    LeastReached (fun a b => first a b ∨ second a b) x least := by
  have hwiden : ∀ a b, Relation.ReflTransGen first a b →
      Relation.ReflTransGen (fun a b => first a b ∨ second a b) a b := by
    intro a b hwalk
    exact Relation.ReflTransGen.mono (fun _ _ hlink => Or.inl hlink) _ _ hwalk
  have hback : ∀ a b, Relation.ReflTransGen first a b → Relation.ReflTransGen first b a := by
    intro a b hwalk
    induction hwalk with
    | refl => exact .refl
    | tail _ hlink ih => exact .head (hsymmetric _ _ hlink) ih
  have hsame : ∀ a b, first a b → seed a = seed b := by
    intro a b hlink
    apply (hseed a).unique
    refine ⟨.head hlink (hseed b).1, ?_⟩
    intro y hwalk
    exact (hseed b).2 y (.head (hsymmetric a b hlink) hwalk)
  constructor
  · have hexpand : ∀ b, Relation.ReflTransGen contracted (seed x) b →
        Relation.ReflTransGen (fun a b => first a b ∨ second a b) x b := by
      intro b hwalk
      induction hwalk with
      | refl => exact hwiden _ _ (hseed x).1
      | tail _ hlink ih =>
          obtain ⟨u, v, huv, rfl, rfl⟩ := (hcontracted _ _).mp hlink
          have hu := hwiden _ _ (hback u _ (hseed u).1)
          exact ((ih.trans hu).tail (.inr huv)).trans (hwiden _ _ (hseed v).1)
    exact hexpand least hleast.1
  · intro y hwalk
    have hcontract : Relation.ReflTransGen contracted (seed x) (seed y) := by
      induction hwalk with
      | refl => exact .refl
      | tail _ hlink ih =>
          rcases hlink with hlink | hlink
          · rw [← hsame _ _ hlink]
            exact ih
          · exact ih.tail ((hcontracted _ _).mpr ⟨_, _, hlink, rfl, rfl⟩)
    exact (hleast.2 (seed y) hcontract).trans ((hseed y).2 y .refl)

/-- A pair starts at a place with the same label. -/
def Active (label : N → N) (pairs : N → N → Prop) (x : N) : Prop :=
  ∃ u v, pairs u v ∧ label u = label x

/-- What the labels, the places at work and the pairs keep. -/
structure Spreading (link : N → N → Prop) (live : Finset N) (label : N → N)
    (pairs : N → N → Prop) : Prop where
  symmetric : ∀ x y, link x y → link y x
  falls : ∀ x ∈ live, label x ≤ x
  reached : ∀ x ∈ live, Relation.ReflTransGen link x (label x)
  closed : ∀ x ∈ live, ∀ y, link x y → y ∈ live
  kept : ∀ x ∈ live, ∀ y, link x y → label x ≠ label y → pairs x y
  linked : ∀ x y, pairs x y → x ∈ live ∧ link x y

/-- The labels after a step: the least of a label and the labels it is paired with. -/
structure Lowered (live : Finset N) (label : N → N) (pairs : N → N → Prop) (label' : N → N) :
    Prop where
  chosen : ∀ x ∈ live, label' x = label x ∨
    ∃ u v, pairs u v ∧ label u = label x ∧ label v = label' x
  le_own : ∀ x ∈ live, label' x ≤ label x
  le_paired : ∀ x ∈ live, ∀ u v, pairs u v → label u = label x → label' x ≤ label v

namespace Spreading

variable {link : N → N → Prop} {live live' : Finset N} {label label' : N → N}
  {pairs : N → N → Prop} {x y : N}

/-- At the start every place is its own label and every link is a pair. -/
theorem initial (hsymmetric : ∀ x y, link x y → link y x)
    (hclosed : ∀ x ∈ live, ∀ y, link x y → y ∈ live)
    (hpairs : ∀ x y, pairs x y ↔ x ∈ live ∧ link x y) : Spreading link live id pairs where
  symmetric := hsymmetric
  falls _ _ := le_refl _
  reached _ _ := .refl
  closed := hclosed
  kept x hx y hlink _ := (hpairs x y).mpr ⟨hx, hlink⟩
  linked x y hpair := (hpairs x y).mp hpair

theorem mem_right (hspread : Spreading link live label pairs) (hpair : pairs x y) : y ∈ live :=
  hspread.closed x (hspread.linked x y hpair).1 y (hspread.linked x y hpair).2

theorem reach_symm (hspread : Spreading link live label pairs)
    (hwalk : Relation.ReflTransGen link x y) : Relation.ReflTransGen link y x := by
  induction hwalk with
  | refl => exact .refl
  | tail _ hlink ih => exact .head (hspread.symmetric _ _ hlink) ih

theorem leastReached_of_closed (hspread : Spreading link live label pairs) (hx : x ∈ live)
    (hstays : ∀ y ∈ live, label y = label x → ∀ z, link y z → label z = label y) :
    LeastReached link x (label x) := by
  refine ⟨hspread.reached x hx, ?_⟩
  intro y hwalk
  have hsame : y ∈ live ∧ label y = label x := by
    induction hwalk with
    | refl => exact ⟨hx, rfl⟩
    | tail _ hlink ih =>
        exact ⟨hspread.closed _ ih.1 _ hlink, (hstays _ ih.1 ih.2 _ hlink).trans ih.2⟩
  rw [← hsame.2]
  exact hspread.falls y hsame.1

/-- Without pairs every label is the least place of its component. -/
theorem leastReached_of_no_pairs (hspread : Spreading link live label pairs)
    (hnone : ∀ x y, ¬ pairs x y) (hx : x ∈ live) : LeastReached link x (label x) := by
  apply hspread.leastReached_of_closed hx
  intro y hy _ z hlink
  by_contra hne
  exact hnone y z (hspread.kept y hy z hlink (Ne.symm hne))

/-- A label without pairs is not lowered, and is done. -/
theorem leastReached_of_not_active (hspread : Spreading link live label pairs)
    (hlowered : Lowered live label pairs label') (hx : x ∈ live)
    (hidle : ¬ Active label pairs x) : LeastReached link x (label' x) := by
  have hsame : label' x = label x := by
    rcases hlowered.chosen x hx with hsame | ⟨u, v, hpair, hlabel, _⟩
    · exact hsame
    · exact absurd ⟨u, v, hpair, hlabel⟩ hidle
  rw [hsame]
  apply hspread.leastReached_of_closed hx
  intro y hy hlabel z hlink
  by_contra hne
  exact hidle ⟨y, z, hspread.kept y hy z hlink (Ne.symm hne), hlabel⟩

theorem lowered_congr (hlowered : Lowered live label pairs label') (hx : x ∈ live) (hy : y ∈ live)
    (hsame : label x = label y) : label' x = label' y := by
  apply le_antisymm
  · rcases hlowered.chosen y hy with hown | ⟨u, v, hpair, hlabel, hright⟩
    · rw [hown, ← hsame]
      exact hlowered.le_own x hx
    · rw [← hright]
      exact hlowered.le_paired x hx u v hpair (hlabel.trans hsame.symm)
  · rcases hlowered.chosen x hx with hown | ⟨u, v, hpair, hlabel, hright⟩
    · rw [hown, hsame]
      exact hlowered.le_own y hy
    · rw [← hright]
      exact hlowered.le_paired y hy u v hpair (hlabel.trans hsame)

/-- A lowered label is reached from its place. -/
theorem reached_lowered (hspread : Spreading link live label pairs)
    (hlowered : Lowered live label pairs label') (hx : x ∈ live) :
    Relation.ReflTransGen link x (label' x) := by
  rcases hlowered.chosen x hx with hown | ⟨u, v, hpair, hlabel, hright⟩
  · rw [hown]
    exact hspread.reached x hx
  · obtain ⟨hu, hlink⟩ := hspread.linked u v hpair
    have hto := hspread.reach_symm (hspread.reached u hu)
    rw [hlabel] at hto
    have hfrom := hspread.reached v (hspread.mem_right hpair)
    rw [hright] at hfrom
    exact ((hspread.reached x hx).trans hto).trans (.head hlink hfrom)

/-- The step lemma: among the places still at work, with the pairs between two labels. -/
theorem step (hspread : Spreading link live label pairs)
    (hlowered : Lowered live label pairs label')
    (hlive : ∀ x, x ∈ live' ↔ x ∈ live ∧ Active label pairs x) :
    Spreading link live' label' fun x y => pairs x y ∧ label' x ≠ label' y where
  symmetric := hspread.symmetric
  falls x hx := (hlowered.le_own x ((hlive x).mp hx).1).trans
    (hspread.falls x ((hlive x).mp hx).1)
  reached x hx := hspread.reached_lowered hlowered ((hlive x).mp hx).1
  closed x hx y hlink := by
    obtain ⟨hin, hactive⟩ := (hlive x).mp hx
    have hy := hspread.closed x hin y hlink
    rw [hlive]
    refine ⟨hy, ?_⟩
    by_cases hsame : label x = label y
    · obtain ⟨u, v, hpair, hlabel⟩ := hactive
      exact ⟨u, v, hpair, hlabel.trans hsame⟩
    · exact ⟨y, x, hspread.kept y hy x (hspread.symmetric x y hlink) (Ne.symm hsame), rfl⟩
  kept x hx y hlink hne := by
    have hin := ((hlive x).mp hx).1
    refine ⟨hspread.kept x hin y hlink ?_, hne⟩
    intro hsame
    exact hne (lowered_congr hlowered hin (hspread.closed x hin y hlink) hsame)
  linked x y hpair := by
    obtain ⟨hx, hlink⟩ := hspread.linked x y hpair.1
    exact ⟨(hlive x).mpr ⟨hx, x, y, hpair.1, rfl⟩, hlink⟩

theorem card_image_lt (hspread : Spreading link live label pairs)
    (hlowered : Lowered live label pairs label')
    (hlive : ∀ x, x ∈ live' ↔ x ∈ live ∧ Active label pairs x)
    (hcross : ∀ x y, pairs x y → label x ≠ label y) (hsome : ∃ x y, pairs x y) :
    (live'.image label').card < (live.image label).card := by
  classical
  obtain ⟨x, y, hpair⟩ := hsome
  have hnonempty : (live.filter fun u => ∃ v, pairs u v).Nonempty :=
    ⟨x, Finset.mem_filter.mpr ⟨(hspread.linked x y hpair).1, y, hpair⟩⟩
  obtain ⟨most, hmost, hmax⟩ := Finset.exists_max_image _ label hnonempty
  obtain ⟨hlive₀, other, hother⟩ := Finset.mem_filter.mp hmost
  have hback : ∀ u v, pairs u v → pairs v u := by
    intro u v huv
    obtain ⟨hu, hlink⟩ := hspread.linked u v huv
    exact hspread.kept v (hspread.mem_right huv) u (hspread.symmetric u v hlink)
      (Ne.symm (hcross u v huv))
  have hle : ∀ u v, pairs u v → label u ≤ label most := by
    intro u v huv
    exact hmax u (Finset.mem_filter.mpr ⟨(hspread.linked u v huv).1, v, huv⟩)
  apply Finset.card_lt_card
  rw [Finset.ssubset_iff_of_subset]
  · refine ⟨label most, Finset.mem_image_of_mem label hlive₀, ?_⟩
    intro hin
    obtain ⟨z, hz, hsame⟩ := Finset.mem_image.mp hin
    obtain ⟨hz, u, v, huv, hlabel⟩ := (hlive z).mp hz
    -- a label that is lowered to the largest one of a pair was that one, and is lowered below it
    have hpaired := hlowered.le_paired z hz u v huv hlabel
    rw [hsame] at hpaired
    have hequal := le_antisymm (hle v u (hback u v huv)) hpaired
    have hzmost : label z = label most := by
      apply le_antisymm
      · rw [← hlabel]
        exact hle u v huv
      · rw [← hsame]
        exact hlowered.le_own z hz
    exact hcross u v huv (hlabel.trans (hzmost.trans hequal.symm))
  · intro least hleast
    obtain ⟨z, hz, rfl⟩ := Finset.mem_image.mp hleast
    have hz := ((hlive z).mp hz).1
    rcases hlowered.chosen z hz with hown | ⟨u, v, huv, _, hright⟩
    · rw [hown]
      exact Finset.mem_image_of_mem label hz
    · rw [← hright]
      exact Finset.mem_image_of_mem label (hspread.mem_right huv)

end Spreading

end EntityResolution.Propagation
