/-
# Joins on a key

A left join keeps every left row, with NULL where nothing matches. When the keys of one side are
distinct, a join only looks rows up: each row of the other side comes back once, with what is found
under its key.
-/

import EntityResolution.Foundations.Relations

namespace EntityResolution.OuterJoins

open EntityResolution.Collections EntityResolution.Relations

universe u v w x

variable {α : Type u} {β : Type v} {γ : Type w} {κ : Type x}

/-- `FROM left LEFT JOIN right ON on`. -/
def leftJoin (left : List α) (right : List β) (on : α → β → Bool) : List (α × Option β) :=
  left.flatMap fun l =>
    if right.filter (on l) = [] then [(l, none)]
    else (right.filter (on l)).map fun r => (l, some r)

theorem mem_leftJoin_some {left : List α} {right : List β} {on : α → β → Bool} {l : α} {r : β} :
    (l, some r) ∈ leftJoin left right on ↔ l ∈ left ∧ r ∈ right ∧ on l r = true := by
  rw [leftJoin, List.mem_flatMap]
  apply Iff.intro
  · rintro ⟨other, hother, hrow⟩
    split at hrow
    · simp at hrow
    · obtain ⟨found, hfound, hsame⟩ := List.mem_map.mp hrow
      cases hsame
      exact ⟨hother, List.mem_filter.mp hfound⟩
  · rintro ⟨hl, hr, hon⟩
    have hin := List.mem_filter.mpr ⟨hr, hon⟩
    refine ⟨l, hl, ?_⟩
    rw [if_neg (List.ne_nil_of_mem hin)]
    exact List.mem_map_of_mem hin

/-- With a match for every left row, nothing is NULL. -/
theorem leftJoin_eq_flatMap {left : List α} {right : List β} {on : α → β → Bool}
    (hmatch : ∀ l ∈ left, ∃ r ∈ right, on l r = true) :
    leftJoin left right on =
      left.flatMap fun l => (right.filter (on l)).map fun r => (l, some r) := by
  apply List.flatMap_congr
  intro l hl
  obtain ⟨r, hr, hon⟩ := hmatch l hl
  exact if_neg (List.ne_nil_of_mem (List.mem_filter.mpr ⟨hr, hon⟩))

/-- With at most one match for every left row, the join looks it up. -/
theorem leftJoin_eq_map_toList {left : List α} {right : List β} {on : α → β → Bool}
    {found : α → Option β} (hfound : ∀ l ∈ left, right.filter (on l) = (found l).toList) :
    leftJoin left right on = left.map fun l => (l, found l) := by
  rw [List.map_eq_flatMap]
  apply List.flatMap_congr
  intro l hl
  rw [hfound l hl]
  cases found l with
  | none => rfl
  | some r => rfl

/-- With one match for every left row, the join looks it up. -/
theorem leftJoin_eq_map {left : List α} {right : List β} {on : α → β → Bool} {found : α → β}
    (hfound : ∀ l ∈ left, right.filter (on l) = [found l]) :
    leftJoin left right on = left.map fun l => (l, some (found l)) :=
  leftJoin_eq_map_toList hfound

/-- With one match for every left row, an inner join looks it up. -/
theorem innerJoin_eq_map {left : List α} {right : List β} {on : α → β → Bool} {found : α → β}
    (hfound : ∀ l ∈ left, right.filter (on l) = [found l]) :
    innerJoin left right on = left.map fun l => (l, found l) := by
  rw [List.map_eq_flatMap]
  apply List.flatMap_congr
  intro l hl
  rw [hfound l hl]
  rfl

theorem flatMap_filter_perm [DecidableEq κ] {left : List α} {right : List β} {leftKey : α → κ}
    {rightKey : β → κ} {f : α → β → γ} {g : β → γ} (hnodup : (left.map leftKey).Nodup)
    (hfound : ∀ r ∈ right, ∃ l ∈ left, leftKey l = rightKey r ∧ f l r = g r) :
    (left.flatMap fun l => (right.filter fun r => leftKey l = rightKey r).map (f l)).Perm
      (right.map g) := by
  induction left generalizing right with
  | nil =>
      cases right with
      | nil => exact List.Perm.refl _
      | cons r right =>
          obtain ⟨l, hl, _⟩ := hfound r List.mem_cons_self
          cases hl
  | cons l left ih =>
      obtain ⟨habsent, hrest⟩ := List.nodup_cons.mp hnodup
      have hhere : (right.filter fun r => leftKey l = rightKey r).map (f l) =
          (right.filter fun r => leftKey l = rightKey r).map g := by
        apply List.map_congr_left
        intro r hr
        obtain ⟨hin, hkey⟩ := List.mem_filter.mp hr
        obtain ⟨l', hl', hkey', hsame⟩ := hfound r hin
        rcases List.mem_cons.mp hl' with rfl | hl'
        · exact hsame
        · rw [decide_eq_true_eq] at hkey
          exact absurd (hkey.trans hkey'.symm ▸ List.mem_map_of_mem hl') habsent
      have hlater : (left.flatMap fun l' => (right.filter fun r => leftKey l' = rightKey r).map
          (f l')) = left.flatMap fun l' => ((right.filter fun r => ¬ leftKey l = rightKey r).filter
            fun r => leftKey l' = rightKey r).map (f l') := by
        apply List.flatMap_congr
        intro l' hl'
        rw [List.filter_filter]
        apply congrArg
        apply List.filter_congr
        intro r _
        have hne : leftKey l ≠ leftKey l' := fun hsame =>
          habsent (hsame ▸ List.mem_map_of_mem hl')
        by_cases hkey : leftKey l' = rightKey r
        · simp [hkey, hkey ▸ hne]
        · simp [hkey]
      have hothers : ∀ r ∈ right.filter (fun r => ¬ leftKey l = rightKey r), ∃ l' ∈ left,
          leftKey l' = rightKey r ∧ f l' r = g r := by
        intro r hr
        obtain ⟨hin, hkey⟩ := List.mem_filter.mp hr
        obtain ⟨l', hl', hkey', hsame⟩ := hfound r hin
        rcases List.mem_cons.mp hl' with rfl | hl'
        · exact absurd hkey' (of_decide_eq_true hkey)
        · exact ⟨l', hl', hkey', hsame⟩
      rw [List.flatMap_cons, hhere, hlater]
      apply ((ih hrest hothers).append_left _).trans
      rw [← List.map_append]
      apply List.Perm.map
      simpa using List.filter_append_perm (fun r => leftKey l = rightKey r) right

theorem filter_eq_singleton [DecidableEq κ] {rows : List β} {key : β → κ} {row : β} {k : κ}
    (hnodup : (rows.map key).Nodup) (hrow : row ∈ rows) (hkey : key row = k) :
    rows.filter (fun other => key other = k) = [row] := by
  rw [← hkey]
  exact filter_key_eq_singleton hnodup hrow

end EntityResolution.OuterJoins
