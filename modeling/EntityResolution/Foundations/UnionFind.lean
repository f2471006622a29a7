/-
# Disjoint sets with path halving

The parents of the elements `0, …, n - 1` stand in a list, and an element is a root when
it is its own parent. Finding a root halves the path it walks: every second element is
sent to its grandparent. A union hangs one root under the other.

A list of parents is a pointer map, so all facts about it are facts about the ends of
walks. Halving is a shortcut along a walk and moves no end; a union moves one end. After
any number of unions two elements have the same root exactly when the united pairs
connect them.
-/

import EntityResolution.Foundations.Classes
import EntityResolution.Foundations.PointerChain

namespace EntityResolution.UnionFind

open EntityResolution.PointerChain

universe u v

/-- The parent of an element; beyond the list an element is its own parent. -/
def parentOf (parent : List ℕ) (x : ℕ) : ℕ := parent.getD x x

/-- The loop of `find`: walk to the root, sending each element passed to its grandparent. -/
def find : ℕ → List ℕ → ℕ → List ℕ × ℕ
  | 0, parent, x => (parent, x)
  | fuel + 1, parent, x =>
      if parentOf parent x = x then (parent, x)
      else
        let halved := parent.set x (parentOf parent (parentOf parent x))
        find fuel halved (parentOf halved x)

/-- `find` with room for the longest possible walk. -/
def findRoot (parent : List ℕ) (x : ℕ) : List ℕ × ℕ := find parent.length parent x

/-- Unite the sets of two elements: the first root is hung under the second. -/
def union (parent : List ℕ) (a b : ℕ) : List ℕ :=
  let first := findRoot parent a
  let second := findRoot first.1 b
  if first.2 ≠ second.2 then second.1.set first.2 second.2 else second.1

/-- Unite all the pairs, starting from singletons. -/
def unionAll (size : ℕ) (pairs : List (ℕ × ℕ)) : List ℕ :=
  pairs.foldl (fun parent pair => union parent pair.1 pair.2) (List.range size)

/-- The roots of some elements, each search halving the paths of the next. -/
def rootsOf : List ℕ → List ℕ → List ℕ
  | _, [] => []
  | parent, x :: xs => (findRoot parent x).2 :: rootsOf (findRoot parent x).1 xs

/-- The pointer map of a list of parents. -/
def up (parent : List ℕ) (x : ℕ) : Option ℕ :=
  if parentOf parent x = x then none else some (parentOf parent x)

theorem up_eq_none_iff {parent : List ℕ} {x : ℕ} : up parent x = none ↔ parentOf parent x = x := by
  simp [up]

theorem up_of_ne {parent : List ℕ} {x : ℕ} (hne : parentOf parent x ≠ x) :
    up parent x = some (parentOf parent x) := by
  simp [up, hne]

theorem parentOf_set_self {parent : List ℕ} {x y : ℕ} (hx : x < parent.length) :
    parentOf (parent.set x y) x = y := by
  simp [parentOf, hx]

theorem parentOf_set_ne {parent : List ℕ} {x y z : ℕ} (hne : z ≠ x) :
    parentOf (parent.set x y) z = parentOf parent z := by
  simp [parentOf, hne.symm]

/-- A forest: every element's walk stays among the elements and ends at its root. -/
structure Forest (size : ℕ) (parent : List ℕ) (root : ℕ → ℕ) : Prop where
  length : parent.length = size
  bounded : ∀ x, x < size → parentOf parent x < size
  settles : ∀ x, x < size → ∃ n, Settles (up parent) n x (root x)

namespace Forest

variable {size : ℕ} {parent : List ℕ} {root : ℕ → ℕ}

theorem hops_lt (hforest : Forest size parent root) {n x y : ℕ} (hwalk : Hops (up parent) n x y)
    (hx : x < size) : y < size := by
  induction hwalk with
  | stay a => exact hx
  | @hop n first second last hnext _ ih =>
      apply ih
      have hparent : parentOf parent first = second := by
        by_cases hroot : parentOf parent first = first
        · simp [up, hroot] at hnext
        · simpa [up, hroot] using hnext
      exact hparent ▸ hforest.bounded first hx

theorem root_lt (hforest : Forest size parent root) {x : ℕ} (hx : x < size) : root x < size := by
  obtain ⟨n, hsettles⟩ := hforest.settles x hx
  exact hforest.hops_lt hsettles.1 hx

theorem up_root (hforest : Forest size parent root) {x : ℕ} (hx : x < size) :
    up parent (root x) = none := by
  obtain ⟨n, hsettles⟩ := hforest.settles x hx
  exact hsettles.2

theorem settles_lt (hforest : Forest size parent root) {n x last : ℕ} (hx : x < size)
    (hsettles : Settles (up parent) n x last) : n < size := by
  have hcard : n < (Finset.range size).card := by
    apply hsettles.lt_card
    intro m place hwalk
    exact Finset.mem_range.mpr (hforest.hops_lt hwalk hx)
  simpa using hcard

/-- Everything on a walk has the root of its start. -/
theorem root_eq_of_hops (hforest : Forest size parent root) {n x y : ℕ} (hx : x < size)
    (hwalk : Hops (up parent) n x y) : root y = root x := by
  obtain ⟨m, hsettles⟩ := hforest.settles x hx
  obtain ⟨k, hsettles'⟩ := hforest.settles y (hforest.hops_lt hwalk hx)
  exact (hsettles'.unique (hsettles.split hwalk).2).2

/-- Sending one element further along its walk moves no root and lengthens no walk. -/
theorem settles_set_further (hforest : Forest size parent root) {m x further : ℕ} (hx : x < size)
    (hskip : Hops (up parent) (m + 1) x further) {n y last : ℕ}
    (hsettles : Settles (up parent) n y last) :
    ∃ n', n' ≤ n ∧ Settles (up (parent.set x further)) n' y last := by
  have hx' : x < parent.length := by rw [hforest.length]; exact hx
  have hne : further ≠ x := by
    intro hsame
    subst hsame
    obtain ⟨n, hends⟩ := hforest.settles further hx
    exact hends.not_cycle hskip
  apply hsettles.shortcut hskip
  · rw [up, parentOf_set_self hx', if_neg hne]
  · intro other hother
    rw [up, up, parentOf_set_ne hother]

theorem set_further (hforest : Forest size parent root) {m x further : ℕ} (hx : x < size)
    (hskip : Hops (up parent) (m + 1) x further) : Forest size (parent.set x further) root := by
  have hx' : x < parent.length := by rw [hforest.length]; exact hx
  apply Forest.mk
  · rw [List.length_set, hforest.length]
  · intro y hy
    by_cases hyx : y = x
    · subst hyx
      rw [parentOf_set_self hx']
      exact hforest.hops_lt hskip hx
    · rw [parentOf_set_ne hyx]
      exact hforest.bounded y hy
  · intro y hy
    obtain ⟨n, hsettles⟩ := hforest.settles y hy
    obtain ⟨n', _, hsettles'⟩ := hforest.settles_set_further hx hskip hsettles
    exact ⟨n', hsettles'⟩

theorem find_spec {fuel : ℕ} (hforest : Forest size parent root) {n x : ℕ} (hx : x < size)
    (hsettles : Settles (up parent) n x (root x)) (hfuel : n ≤ fuel) :
    (find fuel parent x).2 = root x ∧ Forest size (find fuel parent x).1 root := by
  induction fuel generalizing parent n x with
  | zero =>
      have hzero : n = 0 := by omega
      subst hzero
      have hstay : x = root x := hsettles.1.unique (.stay x) |>.symm
      exact ⟨hstay, hforest⟩
  | succ fuel ih =>
      by_cases hroot : parentOf parent x = x
      · have hend : Settles (up parent) 0 x x := ⟨.stay x, up_eq_none_iff.mpr hroot⟩
        rw [find, if_pos hroot]
        exact ⟨(hend.unique hsettles).2, hforest⟩
      · rw [find, if_neg hroot]
        have hup : Hops (up parent) 1 x (parentOf parent x) := .single (up_of_ne hroot)
        have hskip : ∃ m, Hops (up parent) (m + 1) x (parentOf parent (parentOf parent x)) := by
          by_cases hgrand : parentOf parent (parentOf parent x) = parentOf parent x
          · exact ⟨0, hgrand.symm ▸ hup⟩
          · exact ⟨1, hup.trans (.single (up_of_ne hgrand))⟩
        obtain ⟨m, hskip⟩ := hskip
        have hhalved := hforest.set_further hx hskip
        have hfurther := hforest.hops_lt hskip hx
        have hrootEq := hforest.root_eq_of_hops hx hskip
        have hx' : x < parent.length := by rw [hforest.length]; exact hx
        -- The walk from the grandparent is shorter, and the change does not lengthen it.
        obtain ⟨hle, hrest⟩ := hsettles.split hskip
        obtain ⟨n', hn', hsettles'⟩ := hforest.settles_set_further hx hskip hrest
        simp only [parentOf_set_self hx']
        rw [← hrootEq] at hsettles' ⊢
        exact ih hhalved hfurther hsettles' (by omega)

theorem findRoot_spec (hforest : Forest size parent root) {x : ℕ} (hx : x < size) :
    (findRoot parent x).2 = root x ∧ Forest size (findRoot parent x).1 root := by
  obtain ⟨n, hsettles⟩ := hforest.settles x hx
  have hlt := hforest.settles_lt hx hsettles
  apply hforest.find_spec hx hsettles
  rw [hforest.length]
  omega

/-- Hanging one root under another. -/
theorem set_root (hforest : Forest size parent root) {a b : ℕ} (ha : a < size) (hb : b < size)
    (hne : root a ≠ root b) :
    Forest size (parent.set (root a) (root b))
      (fun x => if root x = root a then root b else root x) := by
  have hlen : root a < parent.length := by rw [hforest.length]; exact hforest.root_lt ha
  have hnow : up (parent.set (root a) (root b)) (root a) = some (root b) := by
    rw [up, parentOf_set_self hlen, if_neg hne.symm]
  have helse (other : ℕ) (hother : other ≠ root a) :
      up (parent.set (root a) (root b)) other = up parent other := by
    rw [up, up, parentOf_set_ne hother]
  apply Forest.mk
  · rw [List.length_set, hforest.length]
  · intro y hy
    by_cases hya : y = root a
    · rw [hya, parentOf_set_self hlen]
      exact hforest.root_lt hb
    · rw [parentOf_set_ne hya]
      exact hforest.bounded y hy
  · intro y hy
    obtain ⟨n, hsettles⟩ := hforest.settles y hy
    exact hsettles.hang (hforest.up_root ha) (hforest.up_root hb) hne hnow helse

/-- A union gives the first set the root of the second. -/
theorem union_spec (hforest : Forest size parent root) {a b : ℕ} (ha : a < size) (hb : b < size) :
    Forest size (union parent a b) (fun x => if root x = root a then root b else root x) := by
  obtain ⟨hfirst, hforest₁⟩ := hforest.findRoot_spec ha
  obtain ⟨hsecond, hforest₂⟩ := hforest₁.findRoot_spec hb
  rw [union, hfirst, hsecond]
  by_cases hsame : root a = root b
  · have hunchanged : (fun x => if root x = root a then root b else root x) = root := by
      funext x
      by_cases hx : root x = root a
      · rw [if_pos hx, hx, hsame]
      · rw [if_neg hx]
    rw [if_neg (not_not.mpr hsame), hunchanged]
    exact hforest₂
  · rw [if_pos hsame]
    exact hforest₂.set_root ha hb hsame

theorem rootsOf_eq_map {xs : List ℕ} (hforest : Forest size parent root)
    (hxs : ∀ x ∈ xs, x < size) : rootsOf parent xs = xs.map root := by
  induction xs generalizing parent with
  | nil => rfl
  | cons x xs ih =>
      obtain ⟨hroot, hforest'⟩ := hforest.findRoot_spec (hxs x List.mem_cons_self)
      rw [rootsOf, hroot, List.map_cons,
        ih hforest' fun y hy => hxs y (List.mem_cons_of_mem _ hy)]

theorem foldl_findRoot {A : Type u} {S : Type v} (hforest : Forest size parent root)
    (placeOf : A → ℕ) (step : S → A → ℕ → S) {items : List A}
    (hitems : ∀ item ∈ items, placeOf item < size) (state : S) :
    ∃ parent', Forest size parent' root ∧
      items.foldl (fun state item => ((findRoot state.1 (placeOf item)).1,
        step state.2 item (findRoot state.1 (placeOf item)).2)) (parent, state) =
        (parent', items.foldl (fun state item => step state item (root (placeOf item))) state) := by
  induction items generalizing parent state with
  | nil => exact ⟨parent, hforest, rfl⟩
  | cons item items ih =>
      obtain ⟨hroot, hforest'⟩ := hforest.findRoot_spec (hitems item List.mem_cons_self)
      obtain ⟨parent', hlast, hfold⟩ :=
        ih hforest' (fun other hother => hitems other (List.mem_cons_of_mem _ hother))
          (step state item (root (placeOf item)))
      refine ⟨parent', hlast, ?_⟩
      rw [List.foldl_cons, List.foldl_cons, hroot]
      exact hfold

end Forest

theorem forest_range (size : ℕ) : Forest size (List.range size) id := by
  have hself (x : ℕ) : parentOf (List.range size) x = x := by
    by_cases hx : x < size
    · simp [parentOf, hx]
    · simp [parentOf, hx]
  apply Forest.mk
  · exact List.length_range
  · intro x hx
    rw [hself]
    exact hx
  · intro x hx
    exact ⟨0, .stay x, up_eq_none_iff.mpr (hself x)⟩

/-- Two elements are linked by one of the pairs, in either order. -/
def Linked (pairs : List (ℕ × ℕ)) (x y : ℕ) : Prop := (x, y) ∈ pairs ∨ (y, x) ∈ pairs

/-- The forest's roots tell apart exactly the classes of the pairs united so far. -/
def Classifies (size : ℕ) (root : ℕ → ℕ) (pairs : List (ℕ × ℕ)) : Prop :=
  ∀ x y, x < size → y < size → (root x = root y ↔ Relation.ReflTransGen (Linked pairs) x y)

/-- The step lemma: uniting one more pair joins its two classes and no others. -/
theorem Classifies.union {size : ℕ} {root : ℕ → ℕ} {pairs : List (ℕ × ℕ)} {a b : ℕ}
    (hclasses : Classifies size root pairs) (hpairs : ∀ pair ∈ pairs, pair.1 < size ∧ pair.2 < size)
    (ha : a < size) (hb : b < size) :
    Classifies size (fun x => if root x = root a then root b else root x) (pairs ++ [(a, b)]) := by
  have hplaces : ∀ x y, Linked pairs x y → x < size ∧ y < size := by
    rintro x y (hlink | hlink)
    · exact hpairs _ hlink
    · exact (hpairs _ hlink).symm
  have hadding : Linked (pairs ++ [(a, b)]) = Classes.Adding (Linked pairs) a b :=
    Classes.linked_concat
  have hunited : Classes.Classifies (· < size) (Classes.Adding (Linked pairs) a b)
      (fun x => if root x = root a then root b else root x) :=
    Classes.Classifies.unite hclasses hplaces ha hb fun x y _ _ => by grind
  rw [Classifies, hadding]
  exact hunited

theorem exists_forest_unionAll {size : ℕ} {pairs : List (ℕ × ℕ)}
    (hpairs : ∀ pair ∈ pairs, pair.1 < size ∧ pair.2 < size) :
    ∃ root, Forest size (unionAll size pairs) root ∧ Classifies size root pairs := by
  induction pairs using List.reverseRecOn with
  | nil =>
      refine ⟨id, forest_range size, fun x y _ _ => ?_⟩
      apply Iff.intro
      · intro hsame
        cases hsame
        exact .refl
      · intro hwalk
        induction hwalk with
        | refl => rfl
        | tail _ hlinked _ => simp [Linked] at hlinked
  | append_singleton pairs pair ih =>
      have hinit : ∀ earlier ∈ pairs, earlier.1 < size ∧ earlier.2 < size :=
        fun earlier hearlier => hpairs earlier (List.mem_append_left _ hearlier)
      obtain ⟨ha, hb⟩ := hpairs pair (by simp)
      obtain ⟨root, hforest, hclasses⟩ := ih hinit
      refine ⟨_, ?_, hclasses.union hinit ha hb⟩
      rw [unionAll, List.foldl_append]
      exact hforest.union_spec ha hb

end EntityResolution.UnionFind
