/-
# Rows by group

`GROUP BY` splits the rows of a relation by a key. Each key of a row has one group, of the rows
with that key; a statement that makes one row of each group makes one row for each key.
-/

import Mathlib

namespace EntityResolution.Grouping

universe u v w

variable {A : Type u} {K : Type v} {B : Type w} [DecidableEq K]

/-- The groups of the rows: each key with its rows. -/
def groups (key : A → K) (rows : List A) : List (K × List A) :=
  (rows.map key).dedup.map fun k => (k, rows.filter fun row => key row = k)

theorem mem_groups {key : A → K} {rows : List A} {group : K × List A} :
    group ∈ groups key rows ↔
      (∃ row ∈ rows, key row = group.1) ∧ group.2 = rows.filter fun row => key row = group.1 := by
  obtain ⟨k, part⟩ := group
  rw [groups, List.mem_map]
  apply Iff.intro
  · rintro ⟨other, hother, hgroup⟩
    obtain ⟨rfl, rfl⟩ := Prod.mk.inj hgroup
    exact ⟨List.mem_map.mp (List.mem_dedup.mp hother), rfl⟩
  · rintro ⟨hrow, hpart⟩
    exact ⟨k, List.mem_dedup.mpr (List.mem_map.mpr hrow), Prod.ext rfl hpart.symm⟩

theorem map_fst_groups (key : A → K) (rows : List A) :
    (groups key rows).map Prod.fst = (rows.map key).dedup := by
  rw [groups, List.map_map]
  exact List.map_id _

theorem mem_map_groups {key : A → K} {rows : List A} {value : K × List A → B} {row : K × B} :
    row ∈ ((groups key rows).map fun group => (group.1, value group)) ↔
      (∃ item ∈ rows, key item = row.1) ∧
        value (row.1, rows.filter fun item => key item = row.1) = row.2 := by
  simp only [List.mem_map, mem_groups]
  apply Iff.intro
  · rintro ⟨⟨k, part⟩, ⟨hitem, hpart⟩, rfl⟩
    exact ⟨hitem, by rw [← hpart]⟩
  · rintro ⟨hitem, hvalue⟩
    exact ⟨(row.1, _), ⟨hitem, rfl⟩, Prod.ext rfl hvalue⟩

/-- A group is not empty. -/
theorem ne_nil_of_mem_groups {key : A → K} {rows : List A} {group : K × List A}
    (hgroup : group ∈ groups key rows) : group.2 ≠ [] := by
  obtain ⟨⟨row, hrow, hkey⟩, hpart⟩ := mem_groups.mp hgroup
  rw [hpart]
  exact List.ne_nil_of_mem (List.mem_filter.mpr ⟨hrow, decide_eq_true hkey⟩)

omit [DecidableEq K] in
theorem map_filterMap_eq {f : A → Option B} {g : B → K} {h : A → K} {rows : List A}
    (hmade : ∀ row ∈ rows, ∃ made, f row = some made ∧ g made = h row) :
    (rows.filterMap f).map g = rows.map h := by
  induction rows with
  | nil => rfl
  | cons row rows ih =>
      obtain ⟨made, hsome, hkey⟩ := hmade row List.mem_cons_self
      rw [List.filterMap_cons_some hsome, List.map_cons, List.map_cons, hkey,
        ih fun other hother => hmade other (List.mem_cons_of_mem _ hother)]

end EntityResolution.Grouping
