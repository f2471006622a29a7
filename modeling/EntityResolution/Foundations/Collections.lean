/-
# Ordered maps, indexed loops and fallible traversals

The engine keeps every intermediate table in an ordered map and walks it in
ascending key order. The standard library's extensional tree map is that object:
two maps with the same lookups are equal, and `toList` is strictly ascending.

This module adds the loop shapes that the standard library does not name: turning
a nested map inside out, inverting a map of sets, collecting the keys that share
one value, overwriting a map row by row, and mapping a loop body that may fail over
a list. Every loop comes with the lookup that characterizes its result, so that a
client never unfolds the fold.
-/

import Mathlib

namespace EntityResolution.Collections

universe u v w

variable {K : Type u} {L : Type v} {V : Type w} [LinearOrder K] [LinearOrder L]

/-- An ordered map over a linear order, extensional in its lookups. -/
abbrev BTreeMap (K : Type u) (V : Type w) [LinearOrder K] : Type (max u w) :=
  Std.ExtTreeMap K V compare

/-- An ordered set over a linear order, extensional in its members. -/
abbrev BTreeSet (K : Type u) [LinearOrder K] : Type u := Std.ExtTreeSet K compare

/-! ## What the maps ask of an order

A lookup, a membership test and a sort each carry a fact about the order of their keys. The
instances below give each fact one name over every linear order. -/

instance transCmp_compare (K : Type u) [LinearOrder K] :
    Std.TransCmp (compare : K → K → Ordering) :=
  inferInstance

instance transCmp_compare_lex (K : Type u) [LinearOrder K] :
    Std.TransCmp (compare : K ×ₗ K → K ×ₗ K → Ordering) :=
  inferInstance

instance lawfulBEq_of_linearOrder (K : Type u) [LinearOrder K] : LawfulBEq K :=
  inferInstance

instance lawfulBEq_prod_of_linearOrder (K : Type u) [LinearOrder K] : LawfulBEq (K × K) :=
  inferInstance

instance isTrans_le_of_linearOrder (K : Type u) [LinearOrder K] :
    IsTrans K fun first second => first ≤ second :=
  inferInstance

instance antisymm_le_of_linearOrder (K : Type u) [LinearOrder K] :
    Std.Antisymm fun first second : K => first ≤ second :=
  inferInstance

namespace BTreeMap

theorem mem_iff_exists_getElem? {m : BTreeMap K V} {k : K} : k ∈ m ↔ ∃ v, m[k]? = some v := by
  rw [Std.ExtTreeMap.mem_iff_isSome_getElem?, Option.isSome_iff_exists]

theorem ext_some {m m' : BTreeMap K V}
    (hrows : ∀ (k : K) (v : V), m[k]? = some v ↔ m'[k]? = some v) :
    m = m' := by
  apply Std.ExtTreeMap.ext_getElem?
  intro k
  ext v
  exact hrows k v

theorem getElem?_insert_eq_ite (m : BTreeMap K V) (k : K) (v : V) (k' : K) :
    (m.insert k v)[k']? = if k = k' then some v else m[k']? := by
  rw [Std.ExtTreeMap.getElem?_insert]
  simp

theorem mem_insert_iff {m : BTreeMap K V} {k k' : K} {v : V} :
    k' ∈ m.insert k v ↔ k = k' ∨ k' ∈ m := by
  rw [Std.ExtTreeMap.mem_insert]
  simp

theorem mem_keys {m : BTreeMap K V} {k : K} : k ∈ m.keys ↔ k ∈ m :=
  Std.ExtTreeMap.mem_keys

theorem getElem?_filter_eq (m : BTreeMap K V) (keep : K → V → Bool) (k : K) :
    (m.filter keep)[k]? = m[k]?.filter (keep k) :=
  Std.ExtTreeMap.getElem?_filter'

theorem getElem?_map_eq {W : Type v} (m : BTreeMap K V) (f : K → V → W) (k : K) :
    (m.map f)[k]? = m[k]?.map (f k) :=
  Std.ExtTreeMap.getElem?_map

theorem getElem?_filterMap_eq {W : Type v} (m : BTreeMap K V) (f : K → V → Option W) (k : K) :
    (m.filterMap f)[k]? = m[k]?.bind (f k) :=
  Std.ExtTreeMap.getElem?_filterMap'

theorem size_pos_of_getElem? {m : BTreeMap K V} {k : K} {v : V} (hk : m[k]? = some v) :
    0 < m.size := by
  rw [Nat.pos_iff_ne_zero, Ne, ← Std.ExtTreeMap.eq_empty_iff_size_eq_zero]
  intro hempty
  rw [hempty] at hk
  simp at hk

theorem contains_eq_decide (m : BTreeMap K V) (k : K) : m.contains k = decide (k ∈ m) := by
  rw [Bool.eq_iff_iff, decide_eq_true_iff]
  exact Std.ExtTreeMap.contains_iff_mem

theorem keys_pairwise_lt (m : BTreeMap K V) : m.keys.Pairwise (· < ·) := by
  have hordered := Std.ExtTreeMap.ordered_keys (t := m)
  exact hordered.imp fun h => by simpa [compare_lt_iff_lt] using h

theorem keys_nodup (m : BTreeMap K V) : m.keys.Nodup :=
  (keys_pairwise_lt m).imp fun h => ne_of_lt h

theorem mem_toList {m : BTreeMap K V} {k : K} {v : V} :
    (k, v) ∈ m.toList ↔ m[k]? = some v :=
  Std.ExtTreeMap.mem_toList_iff_getElem?_eq_some

theorem toList_pairwise_lt (m : BTreeMap K V) :
    m.toList.Pairwise fun first second => first.1 < second.1 := by
  have hordered := Std.ExtTreeMap.ordered_keys_toList (t := m)
  exact hordered.imp fun h => by simpa [compare_lt_iff_lt] using h

/-- Writing rows with distinct keys: a named key takes its row's value and every
other key keeps its own. -/
theorem getElem?_insertMany_eq_some_iff {rows : List (K × V)} {k : K} {v : V}
    (hnodup : (rows.map Prod.fst).Nodup) (m : BTreeMap K V) :
    (m.insertMany rows)[k]? = some v ↔
      (k, v) ∈ rows ∨ k ∉ rows.map Prod.fst ∧ m[k]? = some v := by
  have hdistinct : rows.Pairwise fun first second => ¬ compare first.1 second.1 = .eq := by
    simpa [List.Nodup, List.pairwise_map] using hnodup
  by_cases hnamed : k ∈ rows.map Prod.fst
  · obtain ⟨⟨key, value⟩, hrow, rfl⟩ := List.mem_map.mp hnamed
    rw [Std.ExtTreeMap.getElem?_insertMany_list_of_mem (by simp) hdistinct hrow]
    constructor
    · rintro h
      exact .inl (by simpa [← Option.some.inj h] using hrow)
    · rintro (hmem | ⟨habsent, _⟩)
      · exact congrArg some (congrArg Prod.snd (List.inj_on_of_nodup_map hnodup hrow hmem rfl))
      · exact absurd hnamed habsent
  · have hcontains : (rows.map Prod.fst).contains k = false := by simpa using hnamed
    rw [Std.ExtTreeMap.getElem?_insertMany_list_of_contains_eq_false hcontains]
    exact ⟨fun h => .inr ⟨hnamed, h⟩, fun h => h.elim
      (fun hmem => absurd (List.mem_map_of_mem hmem) hnamed) And.right⟩

theorem getElem?_ofList_eq_some_iff {rows : List (K × V)} {k : K} {v : V}
    (hnodup : (rows.map Prod.fst).Nodup) :
    (Std.ExtTreeMap.ofList rows compare)[k]? = some v ↔ (k, v) ∈ rows := by
  rw [Std.ExtTreeMap.ofList_eq_insertMany_empty, getElem?_insertMany_eq_some_iff hnodup]
  simp

theorem getElem?_insertMany_const (m : BTreeMap K V) (keys : List K) (v : V) (k : K) :
    (m.insertMany (keys.map fun key => (key, v)))[k]? = if k ∈ keys then some v else m[k]? := by
  induction keys generalizing m with
  | nil => simp
  | cons key keys ih =>
      rw [List.map_cons, Std.ExtTreeMap.insertMany_cons, ih, Std.ExtTreeMap.getElem?_insert]
      by_cases hk : key = k
      · simp [hk]
      · have hk' : k ≠ key := fun h => hk h.symm
        simp [hk, hk']

/-- One cell of a nested map, absent rows and absent cells alike being `none`. -/
def cell? (m : BTreeMap K (BTreeMap L V)) (k : K) (l : L) : Option V :=
  m[k]?.bind fun row => row[l]?

/-- Every cell of a nested map, rows and cells both in ascending order. -/
def cells (m : BTreeMap K (BTreeMap L V)) : List (K × L × V) :=
  m.toList.flatMap fun row => row.2.toList.map fun cell => (row.1, cell.1, cell.2)

theorem mem_cells {m : BTreeMap K (BTreeMap L V)} {k : K} {l : L} {v : V} :
    (k, l, v) ∈ cells m ↔ cell? m k l = some v := by
  simp [cells, cell?, Option.bind_eq_some_iff]

/-- File one cell under its inner key, creating the row on first use. -/
def fileCell (filed : BTreeMap L (BTreeMap K V)) (entry : K × L × V) :
    BTreeMap L (BTreeMap K V) :=
  filed.alter entry.2.1 fun row => some ((row.getD ∅).insert entry.1 entry.2.2)

/-- Regroup the cells of a nested map by their inner key. -/
def transpose (m : BTreeMap K (BTreeMap L V)) : BTreeMap L (BTreeMap K V) :=
  (cells m).foldl fileCell ∅

theorem cell?_fileCell (filed : BTreeMap L (BTreeMap K V)) (entry : K × L × V) (l : L) (k : K) :
    cell? (fileCell filed entry) l k =
      if entry.2.1 = l ∧ entry.1 = k then some entry.2.2 else cell? filed l k := by
  obtain ⟨key, inner, value⟩ := entry
  by_cases hl : inner = l
  · subst hl
    by_cases hk : key = k
    · subst hk
      simp [fileCell, cell?]
    · cases hrow : filed[inner]? <;>
        simp [fileCell, cell?, Std.ExtTreeMap.getElem?_insert, hrow, hk]
  · simp [fileCell, cell?, Std.ExtTreeMap.getElem?_alter, hl]

/-- Filing cells whose values are determined by their two keys. -/
theorem cell?_foldl_fileCell {entries : List (K × L × V)} {l : L} {k : K}
    (hfunctional : ∀ first second, (k, l, first) ∈ entries → (k, l, second) ∈ entries →
      first = second) (filed : BTreeMap L (BTreeMap K V)) (v : V) :
    cell? (entries.foldl fileCell filed) l k = some v ↔
      (k, l, v) ∈ entries ∨ (∀ value, (k, l, value) ∉ entries) ∧ cell? filed l k = some v := by
  induction entries generalizing filed with
  | nil => simp
  | cons entry entries ih =>
      have hrest : ∀ first second, (k, l, first) ∈ entries → (k, l, second) ∈ entries →
          first = second := fun first second hfirst hsecond =>
        hfunctional first second (List.mem_cons_of_mem _ hfirst) (List.mem_cons_of_mem _ hsecond)
      rw [List.foldl_cons, ih hrest, cell?_fileCell]
      obtain ⟨key, inner, value⟩ := entry
      by_cases hhere : inner = l ∧ key = k
      · obtain ⟨rfl, rfl⟩ := hhere
        have hsame : ∀ other, (key, inner, other) ∈ entries → value = other := fun other hother =>
          hfunctional value other List.mem_cons_self (List.mem_cons_of_mem _ hother)
        simp only [and_self, if_true, List.mem_cons, Prod.mk.injEq, true_and, Option.some.injEq]
        constructor
        · rintro (hmem | ⟨_, rfl⟩)
          · exact .inl (.inr hmem)
          · exact .inl (.inl rfl)
        · rintro ((rfl | hmem) | ⟨hnone, _⟩)
          · by_cases hmem : ∃ other, (key, inner, other) ∈ entries
            · obtain ⟨other, hother⟩ := hmem
              exact .inl (by rwa [hsame other hother])
            · exact .inr ⟨fun other hother => hmem ⟨other, hother⟩, rfl⟩
          · exact .inl hmem
          · exact absurd (.inl rfl) (hnone value)
      · have hother : ∀ value', (k, l, value') ∈ (key, inner, value) :: entries ↔
            (k, l, value') ∈ entries := by
          intro value'
          simp only [List.mem_cons, Prod.mk.injEq, or_iff_right_iff_imp]
          rintro ⟨rfl, rfl, _⟩
          exact absurd ⟨rfl, rfl⟩ hhere
        simp only [hother, if_neg hhere]

/-- Transposition moves every cell and invents none. -/
theorem cell?_transpose (m : BTreeMap K (BTreeMap L V)) (l : L) (k : K) :
    cell? (transpose m) l k = cell? m k l := by
  have hfunctional : ∀ first second, (k, l, first) ∈ cells m → (k, l, second) ∈ cells m →
      first = second := by
    intro first second hfirst hsecond
    exact Option.some.inj ((mem_cells.mp hfirst).symm.trans (mem_cells.mp hsecond))
  ext v
  rw [transpose, cell?_foldl_fileCell hfunctional, mem_cells]
  simp [cell?]

/-- The rows of the loop that names, for every member of every set, its owner. -/
def ownerRows (m : BTreeMap K (Finset L)) : List (L × K) :=
  m.toList.flatMap fun entry => entry.2.sort.map fun member => (member, entry.1)

/-- The owner of every member, the last owner winning where sets overlap. -/
def ownerOf (m : BTreeMap K (Finset L)) : BTreeMap L K :=
  (∅ : BTreeMap L K).insertMany (ownerRows m)

theorem mem_ownerRows {m : BTreeMap K (Finset L)} {member : L} {owner : K} :
    (member, owner) ∈ ownerRows m ↔ ∃ set, m[owner]? = some set ∧ member ∈ set := by
  simp [ownerRows]

/-- The sets of a map are pairwise disjoint. -/
def SetsDisjoint (m : BTreeMap K (Finset L)) : Prop :=
  ∀ (first second : K) (left right : Finset L), m[first]? = some left → m[second]? = some right →
    first ≠ second → Disjoint left right

omit [LinearOrder L] in
theorem SetsDisjoint.owner_unique {m : BTreeMap K (Finset L)} (hdisjoint : SetsDisjoint m)
    {first second : K} {left right : Finset L} {member : L} (hleft : m[first]? = some left)
    (hright : m[second]? = some right) (hmem : member ∈ left) (hmem' : member ∈ right) :
    first = second := by
  by_contra hne
  exact Finset.disjoint_left.mp (hdisjoint first second left right hleft hright hne) hmem hmem'

theorem ownerRows_nodup {m : BTreeMap K (Finset L)} (hdisjoint : SetsDisjoint m) :
    ((ownerRows m).map Prod.fst).Nodup := by
  have hflat : (ownerRows m).map Prod.fst = m.toList.flatMap fun entry => entry.2.sort := by
    simp [ownerRows, List.map_flatMap, Function.comp_def]
  rw [hflat, List.nodup_flatMap]
  refine ⟨fun entry _ => Finset.sort_nodup _ _, ?_⟩
  refine (toList_pairwise_lt m).imp_of_mem ?_
  intro first second hfirst hsecond hlt member hmem hmem'
  exact ne_of_lt hlt (hdisjoint.owner_unique (mem_toList.mp hfirst) (mem_toList.mp hsecond)
    (by simpa using hmem) (by simpa using hmem'))

theorem ownerOf_eq_some_iff {m : BTreeMap K (Finset L)} (hdisjoint : SetsDisjoint m)
    {member : L} {owner : K} :
    (ownerOf m)[member]? = some owner ↔ ∃ set, m[owner]? = some set ∧ member ∈ set := by
  rw [ownerOf, getElem?_insertMany_eq_some_iff (ownerRows_nodup hdisjoint), mem_ownerRows]
  simp

/-! ## Collecting the keys that share a value -/

/-- Append an element to the list filed under a key, creating the list on first use. -/
def pushAt (filed : BTreeMap L (List K)) (entry : K × L) : BTreeMap L (List K) :=
  filed.alter entry.2 fun pushed => some (pushed.getD [] ++ [entry.1])

/-- File every key of a map under its value, in ascending key order. -/
def keysByValue (m : BTreeMap K L) : BTreeMap L (List K) :=
  m.toList.foldl pushAt ∅

omit [LinearOrder K] in
theorem getElem?_foldl_pushAt (entries : List (K × L)) (filed : BTreeMap L (List K)) (l : L) :
    (entries.foldl pushAt filed)[l]? =
      if l ∈ entries.map Prod.snd then
        some ((filed[l]?).getD [] ++ (entries.filter fun entry => entry.2 = l).map Prod.fst)
      else filed[l]? := by
  induction entries generalizing filed with
  | nil => simp
  | cons entry entries ih =>
      rw [List.foldl_cons, ih, pushAt, Std.ExtTreeMap.getElem?_alter]
      by_cases hl : entry.2 = l
      · subst hl
        by_cases hlater : entry.2 ∈ entries.map Prod.snd
        · simp [hlater]
        · have hnone : entries.filter (fun other => other.2 = entry.2) = [] := by
            rw [List.filter_eq_nil_iff]
            intro other hother
            simpa using fun h => hlater (List.mem_map.mpr ⟨other, hother, h⟩)
          simp [hlater, hnone]
      · have hl' : l ≠ entry.2 := fun h => hl h.symm
        by_cases hlater : l ∈ entries.map Prod.snd
        · have hnow : l ∈ (entry :: entries).map Prod.snd := List.mem_cons_of_mem _ hlater
          rw [if_pos hlater, if_pos hnow]
          simp [hl]
        · have hnow : l ∉ (entry :: entries).map Prod.snd := by
            rw [List.map_cons, List.mem_cons]
            exact not_or.mpr ⟨hl', hlater⟩
          rw [if_neg hlater, if_neg hnow]
          simp [hl]

theorem keysByValue_eq_some_iff {m : BTreeMap K L} {l : L} {keys : List K} :
    (keysByValue m)[l]? = some keys ↔
      keys = (m.toList.filter fun entry => entry.2 = l).map Prod.fst ∧ keys ≠ [] := by
  rw [keysByValue, getElem?_foldl_pushAt]
  by_cases hl : l ∈ m.toList.map Prod.snd
  · have hne : (m.toList.filter fun entry => entry.2 = l).map Prod.fst ≠ [] := by
      obtain ⟨entry, hentry, hvalue⟩ := List.mem_map.mp hl
      intro hnil
      rw [List.map_eq_nil_iff, List.filter_eq_nil_iff] at hnil
      exact hnil entry hentry (by simpa using hvalue)
    simp only [hl, if_true, Option.some.injEq, Std.ExtTreeMap.getElem?_empty, Option.getD_none,
      List.nil_append]
    exact ⟨fun h => ⟨h.symm, h ▸ hne⟩, fun h => h.1.symm⟩
  · have hnil : m.toList.filter (fun entry => entry.2 = l) = [] := by
      rw [List.filter_eq_nil_iff]
      intro entry hentry
      simpa using fun h => hl (List.mem_map.mpr ⟨entry, hentry, h⟩)
    simp [hl, hnil]

theorem mem_keysByValue {m : BTreeMap K L} {l : L} {keys : List K}
    (hkeys : (keysByValue m)[l]? = some keys) {k : K} : k ∈ keys ↔ m[k]? = some l := by
  rw [(keysByValue_eq_some_iff.mp hkeys).1]
  simp

theorem exists_keysByValue {m : BTreeMap K L} {k : K} {l : L} (hk : m[k]? = some l) :
    ∃ keys, (keysByValue m)[l]? = some keys := by
  refine ⟨_, keysByValue_eq_some_iff.mpr ⟨rfl, fun hnil => ?_⟩⟩
  rw [List.map_eq_nil_iff, List.filter_eq_nil_iff] at hnil
  exact hnil (k, l) (mem_toList.mpr hk) (by simp)

/-- Put an element into the set filed under a key, creating the set on first use. -/
def fileAt (filed : BTreeMap K (BTreeSet L)) (entry : K × L) : BTreeMap K (BTreeSet L) :=
  filed.alter entry.1 fun row => some ((row.getD ∅).insert entry.2)

theorem getElem?_fileAt (filed : BTreeMap K (BTreeSet L)) (entry : K × L) (k : K) :
    (fileAt filed entry)[k]? =
      if entry.1 = k then some ((filed[entry.1]?.getD ∅).insert entry.2) else filed[k]? := by
  rw [fileAt, Std.ExtTreeMap.getElem?_alter]
  simp

/-- A set exists for exactly the keys that were filed, and holds exactly what was filed
under its key. -/
theorem foldl_fileAt_spec (entries : List (K × L)) (filed : BTreeMap K (BTreeSet L)) (k : K) :
    ((∃ row, (entries.foldl fileAt filed)[k]? = some row) ↔
      (∃ row, filed[k]? = some row) ∨ ∃ l, (k, l) ∈ entries) ∧
    ∀ l, l ∈ (entries.foldl fileAt filed)[k]?.getD ∅ ↔
      l ∈ filed[k]?.getD ∅ ∨ (k, l) ∈ entries := by
  induction entries generalizing filed with
  | nil => simp
  | cons entry entries ih =>
      obtain ⟨hexists, hmem⟩ := ih (fileAt filed entry)
      rw [List.foldl_cons, hexists]
      obtain ⟨key, element⟩ := entry
      by_cases hkey : key = k
      · subst hkey
        refine ⟨by simp [getElem?_fileAt], fun l => ?_⟩
        rw [hmem, getElem?_fileAt, if_pos rfl, Option.getD_some, Std.ExtTreeSet.mem_insert,
          compare_eq_iff_eq, List.mem_cons, Prod.mk.injEq]
        tauto
      · have hkey' : k ≠ key := fun h => hkey h.symm
        have hother (l : L) : (k, l) ∈ (key, element) :: entries ↔ (k, l) ∈ entries := by
          simp [hkey']
        refine ⟨by simp only [getElem?_fileAt, if_neg hkey, hother], fun l => ?_⟩
        rw [hmem, getElem?_fileAt, if_neg hkey, hother]

end BTreeMap

theorem one_lt_length_of_mem {A : Type v} {items : List A} {first second : A}
    (hfirst : first ∈ items) (hsecond : second ∈ items) (hne : first ≠ second) :
    1 < items.length := by
  match items with
  | [] => cases hfirst
  | [only] =>
      rw [List.mem_singleton] at hfirst hsecond
      exact absurd (hfirst.trans hsecond.symm) hne
  | _ :: _ :: _ => simp

theorem filter_key_eq_singleton {A : Type v} {κ : Type w} [DecidableEq κ] {key : A → κ}
    {rows : List A} (hnodup : (rows.map key).Nodup) {row : A} (hrow : row ∈ rows) :
    rows.filter (fun other => key other = key row) = [row] := by
  induction rows with
  | nil => cases hrow
  | cons first rows ih =>
      obtain ⟨habsent, hrest⟩ := List.nodup_cons.mp hnodup
      rcases List.mem_cons.mp hrow with rfl | hrow
      · have hnone : rows.filter (fun other => key other = key row) = [] := by
          rw [List.filter_eq_nil_iff]
          intro other hother hsame
          exact habsent (List.mem_map.mpr ⟨other, hother, by simpa using hsame⟩)
        simp [hnone]
      · have hother : key first ≠ key row := fun h => habsent (h ▸ List.mem_map_of_mem hrow)
        rw [List.filter_cons_of_neg (by simpa using hother), ih hrest hrow]

section Loops

variable {S : Type u} {A : Type v} {step : S → A → S} (holds : S → Prop)

theorem foldl_keeps {items : List A}
    (hkeep : ∀ item ∈ items, ∀ state, holds state → holds (step state item)) (state : S)
    (hstart : holds state) : holds (items.foldl step state) := by
  induction items generalizing state with
  | nil => exact hstart
  | cons item items ih =>
      apply ih fun other hother => hkeep other (List.mem_cons_of_mem _ hother)
      exact hkeep item List.mem_cons_self state hstart

theorem foldl_reaches {items : List A}
    (hkeep : ∀ item ∈ items, ∀ state, holds state → holds (step state item))
    {maker : A} (hmaker : maker ∈ items) (hmake : ∀ state, holds (step state maker)) (state : S) :
    holds (items.foldl step state) := by
  obtain ⟨first, rest, rfl⟩ := List.append_of_mem hmaker
  rw [List.foldl_append, List.foldl_cons]
  apply foldl_keeps holds
  · intro item hitem
    exact hkeep item (List.mem_append_right _ (List.mem_cons_of_mem _ hitem))
  · exact hmake _

omit holds in
theorem mem_of_foldl_choose {choose : Option A → A → Option A}
    (hchoose : ∀ best item, choose best item = some item ∨ choose best item = best)
    {items : List A} {best : Option A} {item : A} (hitem : items.foldl choose best = some item) :
    item ∈ items ∨ best = some item := by
  induction items generalizing best with
  | nil => exact .inr hitem
  | cons head items ih =>
      rw [List.foldl_cons] at hitem
      cases ih hitem with
      | inl hmem => exact .inl (List.mem_cons_of_mem _ hmem)
      | inr hkept =>
          cases hchoose best head with
          | inl htaken =>
              rw [htaken] at hkept
              cases hkept
              exact .inl List.mem_cons_self
          | inr hsame =>
              rw [hsame] at hkept
              exact .inr hkept

end Loops

section Traverse

variable {A : Type u} {B : Type v}

theorem forall₂_of_mapM_eq_some {body : A → Option B} {items : List A} {results : List B}
    (hrun : items.mapM body = some results) :
    List.Forall₂ (fun item result => body item = some result) items results := by
  induction items generalizing results with
  | nil =>
      simp only [List.mapM_nil, Option.pure_def, Option.some.injEq] at hrun
      subst hrun
      exact .nil
  | cons item items ih =>
      simp only [List.mapM_cons, Option.pure_def, Option.bind_eq_bind, Option.bind_eq_some_iff,
        Option.some.injEq] at hrun
      obtain ⟨result, hresult, rest, hrest, rfl⟩ := hrun
      exact .cons hresult (ih hrest)

theorem exists_mapM_eq_some {body : A → Option B} {items : List A}
    (hbody : ∀ item ∈ items, ∃ result, body item = some result) :
    ∃ results, items.mapM body = some results := by
  induction items with
  | nil => exact ⟨[], rfl⟩
  | cons item items ih =>
      obtain ⟨result, hresult⟩ := hbody item List.mem_cons_self
      obtain ⟨rest, hrest⟩ := ih fun other hother => hbody other (List.mem_cons_of_mem _ hother)
      exact ⟨result :: rest, by simp [List.mapM_cons, hresult, hrest]⟩

theorem mem_of_mapM_eq_some {body : A → Option B} {items : List A} {results : List B}
    (hrun : items.mapM body = some results) {result : B} :
    result ∈ results ↔ ∃ item ∈ items, body item = some result := by
  have hpairs := forall₂_of_mapM_eq_some hrun
  clear hrun
  induction hpairs with
  | nil => simp
  | cons hbody _ ih => simp [ih, hbody, eq_comm]

theorem bind_eq_ok_iff {X : Type w} {C D : Type u} {first : Except X C} {f : C → Except X D}
    {result : D} : (first >>= f) = .ok result ↔ ∃ c, first = .ok c ∧ f c = .ok result := by
  cases first with
  | error failure =>
      constructor
      · intro hbind
        cases hbind
      · rintro ⟨c, hfirst, _⟩
        cases hfirst
  | ok c =>
      constructor
      · intro hbind
        exact ⟨c, rfl, hbind⟩
      · rintro ⟨c', hfirst, hresult⟩
        cases hfirst
        exact hresult

theorem bind_eq_error_iff {X : Type w} {C D : Type u} {first : Except X C} {f : C → Except X D}
    {failure : X} : (first >>= f) = .error failure ↔
      first = .error failure ∨ ∃ c, first = .ok c ∧ f c = .error failure := by
  cases first with
  | error other =>
      have hbind : (Except.error other >>= f) = .error other := rfl
      simp [hbind]
  | ok c =>
      have hbind : (Except.ok c >>= f) = f c := rfl
      simp [hbind]

/-- A loop that may fail with an error and succeeds has run its body on every element, in order. -/
theorem forall₂_of_mapM_eq_ok {X : Type w} {body : A → Except X B} {items : List A}
    {results : List B} (hrun : items.mapM body = .ok results) :
    List.Forall₂ (fun item result => body item = .ok result) items results := by
  induction items generalizing results with
  | nil =>
      cases hrun
      exact .nil
  | cons item items ih =>
      rw [List.mapM_cons] at hrun
      cases hresult : body item with
      | error problem =>
          rw [hresult] at hrun
          cases hrun
      | ok result =>
          rw [hresult] at hrun
          cases hrest : items.mapM body with
          | error problem =>
              rw [hrest] at hrun
              cases hrun
          | ok rest =>
              rw [hrest] at hrun
              cases hrun
              exact .cons hresult (ih hrest)

theorem exists_mapM_eq_ok {X : Type w} {body : A → Except X B} {items : List A}
    (hbody : ∀ item ∈ items, ∃ result, body item = .ok result) :
    ∃ results, items.mapM body = .ok results := by
  induction items with
  | nil => exact ⟨[], rfl⟩
  | cons item items ih =>
      obtain ⟨result, hresult⟩ := hbody item List.mem_cons_self
      obtain ⟨rest, hrest⟩ := ih fun other hother => hbody other (List.mem_cons_of_mem _ hother)
      rw [List.mapM_cons, hresult, hrest]
      exact ⟨result :: rest, rfl⟩

theorem mem_of_mapM_eq_ok {X : Type w} {body : A → Except X B} {items : List A}
    {results : List B} (hrun : items.mapM body = .ok results) {result : B} :
    result ∈ results ↔ ∃ item ∈ items, body item = .ok result := by
  have hpairs := forall₂_of_mapM_eq_ok hrun
  clear hrun
  induction hpairs with
  | nil => simp
  | cons hbody _ ih => simp [ih, hbody, eq_comm]

theorem map_of_mapM_eq_ok {X : Type w} {C : Type*} {body : A → Except X B} {items : List A}
    {results : List B} (hrun : items.mapM body = .ok results) {before : A → C} {after : B → C}
    (hkeep : ∀ item result, body item = .ok result → after result = before item) :
    results.map after = items.map before := by
  have hpairs := forall₂_of_mapM_eq_ok hrun
  clear hrun
  induction hpairs with
  | nil => rfl
  | cons hbody _ ih => rw [List.map_cons, List.map_cons, hkeep _ _ hbody, ih]

theorem pairwise_of_mapM_eq_some {body : A → Option B} {items : List A} {results : List B}
    {before : A → A → Prop} {after : B → B → Prop} (hrun : items.mapM body = some results)
    (hitems : items.Pairwise before)
    (hbody : ∀ first second left right, first ∈ items → second ∈ items → before first second →
      body first = some left → body second = some right → after left right) :
    results.Pairwise after := by
  have hpairs := forall₂_of_mapM_eq_some hrun
  induction hpairs with
  | nil => exact .nil
  | @cons item result items results hresult hrest ih =>
      obtain ⟨hitem, hitems⟩ := List.pairwise_cons.mp hitems
      simp only [List.mapM_cons, hresult, Option.pure_def, Option.bind_eq_bind,
        Option.bind_some, Option.bind_eq_some_iff, Option.some.injEq, List.cons.injEq,
        true_and] at hrun
      obtain ⟨_, hloop, rfl⟩ := hrun
      refine List.pairwise_cons.mpr ⟨fun other hother => ?_, ih hloop hitems ?_⟩
      · obtain ⟨second, hsecond, hbodySecond⟩ := (mem_of_mapM_eq_some hloop).mp hother
        exact hbody item second result other List.mem_cons_self (List.mem_cons_of_mem _ hsecond)
          (hitem second hsecond) hresult hbodySecond
      · intro first second left right hfirst hsecond
        exact hbody first second left right (List.mem_cons_of_mem _ hfirst)
          (List.mem_cons_of_mem _ hsecond)

end Traverse

end EntityResolution.Collections
