/-
# Union-find on a map, the least key as the root

Every key of a map points to a key, and a key that points to itself is a root. Pointers never lead
upwards: a key starts as its own root, a union hangs the larger root under the smaller one, and a
find points the keys of a walk to its root. So a walk ends within as many hops as there are keys,
and the root of a class is its least key.
-/

import EntityResolution.Foundations.Classes
import EntityResolution.Foundations.Collections

namespace EntityResolution.LeastRoots

open EntityResolution.Classes EntityResolution.Collections

universe u v

variable {K : Type u} [LinearOrder K]

/-- Where a key points. -/
def parentOf (parent : BTreeMap K K) (key : K) : K := parent[key]?.getD key

/-- Follow the pointers to the root. -/
def climb (parent : BTreeMap K K) : ℕ → K → K
  | 0, key => key
  | hops + 1, key =>
      if parentOf parent key = key then key else climb parent hops (parentOf parent key)

/-- Point every key of a walk to its root. -/
def compress (root : K) : ℕ → BTreeMap K K → K → BTreeMap K K
  | 0, parent, _ => parent
  | hops + 1, parent, cursor =>
      if parentOf parent cursor = root then parent
      else compress root hops (parent.insert cursor root) (parentOf parent cursor)

/-- The root of a key, with the map after its walk was compressed. -/
def find (parent : BTreeMap K K) (key : K) : BTreeMap K K × K :=
  let root := climb parent parent.size key
  (compress root parent.size parent key, root)

/-- Hang the larger of two roots under the smaller one. -/
def union (parent : BTreeMap K K) (a b : K) : BTreeMap K K :=
  let first := find parent a
  let second := find first.1 b
  if first.2 = second.2 then second.1
  else second.1.insert (max first.2 second.2) (min first.2 second.2)

/-- Pointers lead down to keys of the same root, and a root is its own. -/
structure Forest (parent : BTreeMap K K) (root : K → K) : Prop where
  known : ∀ key ∈ parent, parentOf parent key ∈ parent
  falls : ∀ key, parentOf parent key ≤ key
  kept : ∀ key, root (parentOf parent key) = root key
  top : ∀ key, parentOf parent key = key → root key = key

theorem parentOf_insert (parent : BTreeMap K K) (key value other : K) :
    parentOf (parent.insert key value) other =
      if key = other then value else parentOf parent other := by
  rw [parentOf, BTreeMap.getElem?_insert_eq_ite]
  split
  · rfl
  · rfl

/-- How many keys are below a key. -/
def below (parent : BTreeMap K K) (key : K) : ℕ :=
  (parent.keys.toFinset.filter fun other => other < key).card

theorem below_lt {parent : BTreeMap K K} {key other : K} (hother : other ∈ parent)
    (hlt : other < key) : below parent other < below parent key := by
  apply Finset.card_lt_card
  rw [Finset.ssubset_iff_of_subset]
  · refine ⟨other, ?_, ?_⟩
    · simp [hother, hlt]
    · simp
  · intro least hleast
    rw [Finset.mem_filter] at hleast ⊢
    exact ⟨hleast.1, hleast.2.trans hlt⟩

theorem below_le_size (parent : BTreeMap K K) (key : K) : below parent key ≤ parent.size := by
  rw [← Std.ExtTreeMap.length_keys]
  exact (Finset.card_filter_le _ _).trans (List.toFinset_card_le _)

namespace Forest

variable {parent : BTreeMap K K} {root : K → K} {key a b : K}

theorem below_parentOf_lt (hforest : Forest parent root) (hkey : key ∈ parent)
    (hne : parentOf parent key ≠ key) : below parent (parentOf parent key) < below parent key :=
  below_lt (hforest.known key hkey) (lt_of_le_of_ne (hforest.falls key) hne)

/-- A walk with a hop for every key below its start ends at the root, which is a known key, no
larger than the start, and its own parent. -/
theorem climb_spec (hforest : Forest parent root) {hops : ℕ} (hkey : key ∈ parent)
    (hhops : below parent key ≤ hops) :
    climb parent hops key = root key ∧ root key ∈ parent ∧ root key ≤ key ∧
      parentOf parent (root key) = root key := by
  induction hops generalizing key with
  | zero =>
      have hstop : parentOf parent key = key := by
        by_contra hne
        have hlt := hforest.below_parentOf_lt hkey hne
        omega
      rw [climb, hforest.top key hstop]
      exact ⟨rfl, hkey, le_refl _, hstop⟩
  | succ hops ih =>
      rw [climb]
      split
      · rename_i hstop
        rw [hforest.top key hstop]
        exact ⟨rfl, hkey, le_refl _, hstop⟩
      · rename_i hne
        have hlt := hforest.below_parentOf_lt hkey hne
        have hrest := ih (hforest.known key hkey) (by omega)
        rw [hforest.kept key] at hrest
        exact ⟨hrest.1, hrest.2.1, hrest.2.2.1.trans (hforest.falls key), hrest.2.2.2⟩

theorem root_mem (hforest : Forest parent root) (hkey : key ∈ parent) : root key ∈ parent :=
  (hforest.climb_spec hkey (le_refl _)).2.1

theorem root_le (hforest : Forest parent root) (hkey : key ∈ parent) : root key ≤ key :=
  (hforest.climb_spec hkey (le_refl _)).2.2.1

theorem parentOf_root (hforest : Forest parent root) (hkey : key ∈ parent) :
    parentOf parent (root key) = root key :=
  (hforest.climb_spec hkey (le_refl _)).2.2.2

theorem root_root (hforest : Forest parent root) (hkey : key ∈ parent) :
    root (root key) = root key :=
  hforest.top _ (hforest.parentOf_root hkey)

/-- Pointing a key to a known one leads to no unknown one. -/
theorem known_insert (hforest : Forest parent root) {high low : K} (hlow : low ∈ parent) :
    ∀ other ∈ parent.insert high low, parentOf (parent.insert high low) other ∈
      parent.insert high low := by
  intro other hother
  rw [parentOf_insert, BTreeMap.mem_insert_iff]
  split
  · exact Or.inr hlow
  · rename_i hne
    rcases BTreeMap.mem_insert_iff.mp hother with hsame | hother
    · exact absurd hsame hne
    · exact Or.inr (hforest.known other hother)

/-- Pointing a key to its root keeps the forest. -/
theorem insert_root (hforest : Forest parent root) (hkey : key ∈ parent) :
    Forest (parent.insert key (root key)) root := by
  apply Forest.mk
  · exact hforest.known_insert (hforest.root_mem hkey)
  · intro other
    rw [parentOf_insert]
    split
    · rename_i hsame
      exact hsame ▸ hforest.root_le hkey
    · exact hforest.falls other
  · intro other
    rw [parentOf_insert]
    split
    · rename_i hsame
      exact hsame ▸ hforest.root_root hkey
    · exact hforest.kept other
  · intro other hstop
    rw [parentOf_insert] at hstop
    split at hstop
    · rename_i hsame
      rw [← hsame, hstop, hsame]
    · exact hforest.top other hstop

/-- Compressing a walk keeps the forest and the keys. -/
theorem compress_spec (hforest : Forest parent root) (hops : ℕ) (hkey : key ∈ parent) :
    Forest (compress (root key) hops parent key) root ∧
      ∀ other, other ∈ compress (root key) hops parent key ↔ other ∈ parent := by
  induction hops generalizing parent key with
  | zero => exact ⟨hforest, fun _ => Iff.rfl⟩
  | succ hops ih =>
      rw [compress]
      split
      · exact ⟨hforest, fun _ => Iff.rfl⟩
      · have hnext : parentOf parent key ∈ parent.insert key (root key) :=
          BTreeMap.mem_insert_iff.mpr (Or.inr (hforest.known key hkey))
        have hrest := ih (hforest.insert_root hkey) hnext
        rw [hforest.kept key] at hrest
        refine ⟨hrest.1, ?_⟩
        intro other
        rw [hrest.2, BTreeMap.mem_insert_iff]
        apply or_iff_right_of_imp
        rintro rfl
        exact hkey

theorem find_spec (hforest : Forest parent root) (hkey : key ∈ parent) :
    (find parent key).2 = root key ∧ Forest (find parent key).1 root ∧
      ∀ other, other ∈ (find parent key).1 ↔ other ∈ parent := by
  have hclimb := (hforest.climb_spec hkey (below_le_size parent key)).1
  rw [find, hclimb]
  exact ⟨rfl, hforest.compress_spec parent.size hkey⟩

/-- Hanging a root under a smaller one keeps the forest. -/
theorem insert_under (hforest : Forest parent root) {low high : K} (hlow : low ∈ parent)
    (hlowRoot : root low = low) (hhighRoot : root high = high) (hlt : low < high) :
    Forest (parent.insert high low) (fun key => if root key = high then low else root key) := by
  apply Forest.mk
  · exact hforest.known_insert hlow
  · intro other
    rw [parentOf_insert]
    split
    · rename_i hsame
      exact hsame ▸ hlt.le
    · exact hforest.falls other
  · intro other
    rw [parentOf_insert]
    split
    · rename_i hsame
      subst hsame
      rw [if_pos hhighRoot, hlowRoot, if_neg hlt.ne]
    · rw [hforest.kept other]
  · intro other hstop
    rw [parentOf_insert] at hstop
    split at hstop
    · rename_i hsame
      exact absurd (hstop.trans hsame.symm) hlt.ne
    · rename_i hne
      rw [hforest.top other hstop, if_neg (Ne.symm hne)]

/-- A union keeps the forest and the keys, and joins two classes and no others. -/
theorem union_spec (hforest : Forest parent root) (ha : a ∈ parent) (hb : b ∈ parent) :
    ∃ root', Forest (union parent a b) root' ∧
      (∀ other, other ∈ union parent a b ↔ other ∈ parent) ∧
      ∀ x y, root' x = root' y ↔ root x = root y ∨ (root x = root a ∧ root y = root b) ∨
        (root x = root b ∧ root y = root a) := by
  obtain ⟨hfirst, hforest₁, hkeys₁⟩ := hforest.find_spec ha
  obtain ⟨hsecond, hforest₂, hkeys₂⟩ := hforest₁.find_spec ((hkeys₁ b).mpr hb)
  have hkeys : ∀ other, other ∈ (find (find parent a).1 b).1 ↔ other ∈ parent :=
    fun other => (hkeys₂ other).trans (hkeys₁ other)
  rw [union, hfirst, hsecond]
  by_cases hsame : root a = root b
  · rw [if_pos hsame]
    refine ⟨root, hforest₂, hkeys, ?_⟩
    intro x y
    rw [hsame]
    apply (or_iff_left_of_imp _).symm
    rintro (⟨hx, hy⟩ | ⟨hx, hy⟩)
    · exact hx.trans hy.symm
    · exact hx.trans hy.symm
  · rw [if_neg hsame]
    have hrootA := hforest.root_mem ha
    have hrootB := hforest.root_mem hb
    have hrootA' := hforest.root_root ha
    have hrootB' := hforest.root_root hb
    have hhigh : max (root a) (root b) ∈ parent := by
      rcases max_choice (root a) (root b) with hmax | hmax
      · rwa [hmax]
      · rwa [hmax]
    refine ⟨fun key => if root key = max (root a) (root b) then min (root a) (root b) else root key,
      ?_, ?_, ?_⟩
    · apply hforest₂.insert_under
      · rw [hkeys]
        rcases min_choice (root a) (root b) with hmin | hmin
        · rwa [hmin]
        · rwa [hmin]
      · rcases min_choice (root a) (root b) with hmin | hmin
        · rwa [hmin]
        · rwa [hmin]
      · rcases max_choice (root a) (root b) with hmax | hmax
        · rwa [hmax]
        · rwa [hmax]
      · exact min_lt_max.mpr hsame
    · intro other
      rw [BTreeMap.mem_insert_iff, hkeys]
      apply or_iff_right_of_imp
      rintro rfl
      exact hhigh
    · intro x y
      rcases lt_or_gt_of_ne hsame with hlt | hlt
      · rw [max_eq_right hlt.le, min_eq_left hlt.le]
        grind
      · rw [max_eq_left hlt.le, min_eq_right hlt.le]
        grind

end Forest

/-- A map of keys that are their own roots. -/
theorem forest_id {parent : BTreeMap K K} (hself : ∀ key, parentOf parent key = key) :
    Forest parent id where
  known key hkey := (hself key).symm ▸ hkey
  falls key := (hself key).le
  kept key := hself key
  top _ _ := rfl

theorem exists_forest_foldl_union {parent : BTreeMap K K}
    (hself : ∀ key, parentOf parent key = key) {pairs : List (K × K)}
    (hpairs : ∀ pair ∈ pairs, pair.1 ∈ parent ∧ pair.2 ∈ parent) :
    ∃ root, Forest (pairs.foldl (fun parent pair => union parent pair.1 pair.2) parent) root ∧
      (∀ key, key ∈ pairs.foldl (fun parent pair => union parent pair.1 pair.2) parent ↔
        key ∈ parent) ∧
      Classifies (· ∈ parent) (Linked pairs) root := by
  induction pairs using List.reverseRecOn with
  | nil =>
      refine ⟨id, forest_id hself, fun _ => Iff.rfl, ?_⟩
      intro x y _ _
      apply Iff.intro
      · intro hsame
        cases hsame
        exact .refl
      · intro hwalk
        induction hwalk with
        | refl => rfl
        | tail _ hlink _ => simp [Linked] at hlink
  | append_singleton pairs pair ih =>
      have hbefore : ∀ other ∈ pairs, other.1 ∈ parent ∧ other.2 ∈ parent := fun other hother =>
        hpairs other (List.mem_append_left _ hother)
      obtain ⟨root, hforest, hkeys, hclasses⟩ := ih hbefore
      obtain ⟨ha, hb⟩ := hpairs pair (List.mem_append_right _ (List.mem_singleton_self _))
      rcases hforest.union_spec ((hkeys _).mpr ha) ((hkeys _).mpr hb) with
        ⟨root', hforest', hkeys', hunited⟩
      rw [List.foldl_append, List.foldl_cons, List.foldl_nil, linked_concat]
      refine ⟨root', hforest', fun key => (hkeys' key).trans (hkeys key), ?_⟩
      apply hclasses.unite _ ha hb fun x y _ _ => hunited x y
      rintro x y (hlink | hlink)
      · exact hbefore _ hlink
      · exact (hbefore _ hlink).symm

theorem Forest.foldl_find {parent : BTreeMap K K} {root : K → K} {I : Type v} {S : Type v}
    (hforest : Forest parent root) (keyOf : I → K) (step : S → I → K → S) (items : List I)
    (hitems : ∀ item ∈ items, keyOf item ∈ parent) (state : S) :
    ∃ parent', Forest parent' root ∧ (∀ key, key ∈ parent' ↔ key ∈ parent) ∧
      items.foldl (fun state item => ((find state.1 (keyOf item)).1,
        step state.2 item (find state.1 (keyOf item)).2)) (parent, state) =
        (parent', items.foldl (fun state item => step state item (root (keyOf item))) state) := by
  induction items generalizing parent state with
  | nil => exact ⟨parent, hforest, fun _ => Iff.rfl, rfl⟩
  | cons item items ih =>
      obtain ⟨hroot, hforest', hkeys⟩ := hforest.find_spec (hitems item List.mem_cons_self)
      rcases ih hforest' (fun other hother => (hkeys _).mpr
        (hitems other (List.mem_cons_of_mem _ hother))) (step state item (root (keyOf item))) with
        ⟨parent', hlast, hsame, hfold⟩
      refine ⟨parent', hlast, fun key => (hsame key).trans (hkeys key), ?_⟩
      rw [List.foldl_cons, List.foldl_cons, hroot]
      exact hfold

end EntityResolution.LeastRoots
