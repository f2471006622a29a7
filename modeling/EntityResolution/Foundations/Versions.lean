/-
# The latest version in an append-only table

A table keeps every version of a row; a reader takes the highest one. Which of several highest
versions it takes is left open: the choice is a parameter, of which only the order is known. When
some appended row is above everything there was, the choice falls on an appended row.
-/

import Mathlib

namespace EntityResolution.Versions

universe u v w

variable {Row : Type u} {V : Type v} [LinearOrder V]

/-- A choice of a row of the highest version. -/
structure Latest (version : Row → V) where
  pick : List Row → Option Row
  pick_mem : ∀ {rows row}, pick rows = some row → row ∈ rows
  le_pick : ∀ {rows row}, pick rows = some row → ∀ other ∈ rows, version other ≤ version row
  pick_eq_none : ∀ {rows}, pick rows = none → rows = []

namespace Latest

variable {version : Row → V}

/-- The first row of the highest version. -/
def first (version : Row → V) : Latest version where
  pick := List.argmax version
  pick_mem hpick := List.argmax_mem hpick
  le_pick hpick _ hother := List.le_of_mem_argmax hother hpick
  pick_eq_none hpick := List.argmax_eq_none.mp hpick

variable (latest : Latest version)

@[simp] theorem pick_nil : latest.pick [] = none := by
  cases hpick : latest.pick [] with
  | none => rfl
  | some row => exact absurd (latest.pick_mem hpick) List.not_mem_nil

theorem exists_pick {rows : List Row} {row : Row} (hrow : row ∈ rows) :
    ∃ picked, latest.pick rows = some picked := by
  cases hpick : latest.pick rows with
  | none =>
      rw [latest.pick_eq_none hpick] at hrow
      exact absurd hrow List.not_mem_nil
  | some picked => exact ⟨picked, rfl⟩

theorem pick_append_mem {old new : List Row} {row : Row} (hrow : row ∈ new)
    (hover : ∀ other ∈ old, version other < version row) :
    ∃ picked ∈ new, latest.pick (old ++ new) = some picked := by
  have hmem : row ∈ old ++ new := List.mem_append_right _ hrow
  obtain ⟨picked, hpick⟩ := latest.exists_pick hmem
  have hle : version row ≤ version picked := latest.le_pick hpick row hmem
  rcases List.mem_append.mp (latest.pick_mem hpick) with hold | hnew
  · exact absurd (hover picked hold) (not_lt_of_ge hle)
  · exact ⟨picked, hnew, hpick⟩

variable {κ : Type w} [DecidableEq κ]

/-- `row_number() OVER (PARTITION BY key ORDER BY version DESC) = 1`. -/
def perKey (key : Row → κ) (rows : List Row) : List Row :=
  (rows.map key).dedup.filterMap fun k => latest.pick (rows.filter fun row => key row = k)

theorem filter_perKey (key : Row → κ) (rows : List Row) (k : κ) :
    (latest.perKey key rows).filter (fun row => key row = k) =
      (latest.pick (rows.filter fun row => key row = k)).toList := by
  have hkey : ∀ {k' row}, latest.pick (rows.filter fun row => key row = k') = some row →
      key row = k' := by
    intro k' row hpick
    simpa using (List.mem_filter.mp (latest.pick_mem hpick)).2
  have hkeys : ∀ keys : List κ, keys.Nodup →
      (keys.filterMap fun k => latest.pick (rows.filter fun row => key row = k)).filter
          (fun row => key row = k) =
        if k ∈ keys then (latest.pick (rows.filter fun row => key row = k)).toList else [] := by
    intro keys hnodup
    induction keys with
    | nil => rfl
    | cons k' keys ih =>
        obtain ⟨habsent, hrest⟩ := List.nodup_cons.mp hnodup
        by_cases hsame : k' = k
        · subst hsame
          rw [if_neg habsent] at ih
          rw [List.filterMap_cons, if_pos List.mem_cons_self]
          cases hpick : latest.pick (rows.filter fun row => key row = k') with
          | none => exact ih hrest
          | some row =>
              show (row :: _).filter _ = [row]
              rw [List.filter_cons_of_pos (by simpa using hkey hpick), ih hrest]
        · have hmem : k ∈ k' :: keys ↔ k ∈ keys :=
            List.mem_cons.trans (or_iff_right fun h => hsame h.symm)
          rw [List.filterMap_cons, if_congr hmem rfl rfl, ← ih hrest]
          cases hpick : latest.pick (rows.filter fun row => key row = k') with
          | none => rfl
          | some row =>
              apply List.filter_cons_of_neg
              simpa [hkey hpick] using hsame
  rw [perKey, hkeys _ (List.nodup_dedup _)]
  split_ifs with hin
  · rfl
  · have hnone : rows.filter (fun row => key row = k) = [] := by
      apply List.filter_eq_nil_iff.mpr
      intro row hrow hsame
      exact hin (List.mem_dedup.mpr (List.mem_map.mpr ⟨row, hrow, by simpa using hsame⟩))
    rw [hnone, pick_nil]
    rfl

end Latest

end EntityResolution.Versions
