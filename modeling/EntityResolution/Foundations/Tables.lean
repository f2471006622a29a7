/-
# Table statements

A table with a logical key is an ordered map from keys to rows, and a statement that
writes it is one of three: `UPDATE … WHERE`, `DELETE … WHERE`, or a `MERGE` that rewrites
the rows it matches and inserts the others. Each is given by what it does to one lookup,
so that a sequence of statements is reasoned about row by row.

A `MERGE` takes its rows from a staging table that itself has the logical key; that
table is often the best row per key of a larger collection, which the last section
computes by one loop.
-/

import EntityResolution.Foundations.Collections

namespace EntityResolution.Tables

open EntityResolution.Collections

universe u v w x

variable {K : Type u} {V : Type v} {S : Type w} [LinearOrder K]

/-- `UPDATE table SET … WHERE hit`. -/
def updateWhere (table : BTreeMap K V) (hit : K → V → Bool) (set : V → V) : BTreeMap K V :=
  table.map fun k row => if hit k row then set row else row

/-- The number of rows an `UPDATE … WHERE hit` reports. -/
def countWhere (table : BTreeMap K V) (hit : K → V → Bool) : ℕ :=
  (table.filter hit).size

/-- `DELETE FROM table WHERE hit`. -/
def deleteWhere (table : BTreeMap K V) (hit : K → V → Bool) : BTreeMap K V :=
  table.filter fun k row => !hit k row

theorem getElem?_updateWhere (table : BTreeMap K V) (hit : K → V → Bool) (set : V → V) (k : K) :
    (updateWhere table hit set)[k]? =
      table[k]?.map fun row => if hit k row then set row else row := by
  rw [updateWhere, Std.ExtTreeMap.getElem?_map]

theorem getElem?_deleteWhere (table : BTreeMap K V) (hit : K → V → Bool) (k : K) :
    (deleteWhere table hit)[k]? = table[k]?.filter fun row => !hit k row := by
  rw [deleteWhere, Std.ExtTreeMap.getElem?_filter']

theorem countWhere_eq_zero_iff {table : BTreeMap K V} {hit : K → V → Bool} :
    countWhere table hit = 0 ↔ ∀ (k : K) (row : V), table[k]? = some row → hit k row = false := by
  rw [countWhere, ← Std.ExtTreeMap.eq_empty_iff_size_eq_zero]
  apply Iff.intro
  · intro hempty k row hrow
    have hnone : (table.filter hit)[k]? = none := by rw [hempty]; simp
    rw [Std.ExtTreeMap.getElem?_filter', hrow] at hnone
    simpa using hnone
  · intro hmiss
    apply BTreeMap.ext_some
    intro k row
    rw [Std.ExtTreeMap.getElem?_filter', Option.filter_eq_some_iff]
    simp only [Std.ExtTreeMap.getElem?_empty, reduceCtorEq, iff_false, not_and]
    intro hrow
    simp [hmiss k row hrow]

theorem countWhere_le_succ {table later : BTreeMap K V} {hit : K → V → Bool} (key : K)
    (hother : ∀ (k : K) (row : V), k ≠ key → later[k]? = some row → hit k row = true →
      ∃ old, table[k]? = some old ∧ hit k old = true) :
    countWhere later hit ≤ countWhere table hit + 1 := by
  have hsubset : (later.filter hit).keys ⊆ key :: (table.filter hit).keys := by
    intro k hk
    rw [BTreeMap.mem_keys, BTreeMap.mem_iff_exists_getElem?] at hk
    obtain ⟨row, hrow⟩ := hk
    rw [BTreeMap.getElem?_filter_eq, Option.filter_eq_some_iff] at hrow
    by_cases hsame : k = key
    · rw [hsame]
      exact List.mem_cons_self
    · apply List.mem_cons_of_mem
      obtain ⟨old, hold, hhit⟩ := hother k row hsame hrow.1 hrow.2
      rw [BTreeMap.mem_keys, BTreeMap.mem_iff_exists_getElem?]
      refine ⟨old, ?_⟩
      rw [BTreeMap.getElem?_filter_eq, Option.filter_eq_some_iff]
      exact ⟨hold, hhit⟩
  have hlength := (List.subperm_of_subset Std.ExtTreeMap.nodup_keys hsubset).length_le
  rw [List.length_cons, Std.ExtTreeMap.length_keys, Std.ExtTreeMap.length_keys] at hlength
  exact hlength

/-- One row of a `MERGE`: rewrite the row with this key, or insert one. -/
def mergeRow (update : S → V → V) (insert : S → V) (table : BTreeMap K V) (source : K × S) :
    BTreeMap K V :=
  table.alter source.1 fun
    | some row => some (update source.2 row)
    | none => some (insert source.2)

/-- `MERGE INTO table USING source`, the staging table in ascending key order. -/
def mergeInto (table : BTreeMap K V) (source : BTreeMap K S) (update : S → V → V)
    (insert : S → V) : BTreeMap K V :=
  source.toList.foldl (mergeRow update insert) table

theorem getElem?_mergeRow (update : S → V → V) (insert : S → V) (table : BTreeMap K V)
    (source : K × S) (k : K) :
    (mergeRow update insert table source)[k]? =
      if source.1 = k then some ((table[k]?.map (update source.2)).getD (insert source.2))
      else table[k]? := by
  rw [mergeRow, Std.ExtTreeMap.getElem?_alter]
  by_cases hk : source.1 = k
  · subst hk
    cases table[source.1]? <;> simp
  · simp [hk]

theorem getElem?_foldl_mergeRow {update : S → V → V} {insert : S → V} {source : List (K × S)}
    (hnodup : (source.map Prod.fst).Nodup) (table : BTreeMap K V) (k : K) :
    (source.foldl (mergeRow update insert) table)[k]? =
      match source.find? (fun staged => staged.1 = k) with
      | some staged => some ((table[k]?.map (update staged.2)).getD (insert staged.2))
      | none => table[k]? := by
  induction source generalizing table with
  | nil => rfl
  | cons staged source ih =>
      obtain ⟨habsent, hrest⟩ := List.nodup_cons.mp hnodup
      rw [List.foldl_cons, ih hrest, getElem?_mergeRow]
      by_cases hk : staged.1 = k
      · -- no later row bears this key, so the first one decides
        have hnone : source.find? (fun staged => staged.1 = k) = none := by
          rw [List.find?_eq_none]
          intro other hother hsame
          apply habsent
          rw [List.mem_map]
          exact ⟨other, hother, by rw [hk]; simpa using hsame⟩
        simp [hnone, hk]
      · simp [hk]

theorem getElem?_mergeInto (table : BTreeMap K V) (source : BTreeMap K S) (update : S → V → V)
    (insert : S → V) (k : K) :
    (mergeInto table source update insert)[k]? =
      match source[k]? with
      | some staged => some ((table[k]?.map (update staged)).getD (insert staged))
      | none => table[k]? := by
  have hnodup : (source.toList.map Prod.fst).Nodup := by
    rw [List.Nodup, List.pairwise_map]
    exact (BTreeMap.toList_pairwise_lt source).imp fun h => ne_of_lt h
  rw [mergeInto, getElem?_foldl_mergeRow hnodup]
  cases hstaged : source[k]? with
  | none =>
      have hnone : source.toList.find? (fun staged => staged.1 = k) = none := by
        rw [List.find?_eq_none]
        intro staged hmem hsame
        have hrow := BTreeMap.mem_toList.mp hmem
        rw [show staged.1 = k by simpa using hsame, hstaged] at hrow
        cases hrow
      simp [hnone]
  | some value =>
      have hsome : source.toList.find? (fun staged => staged.1 = k) = some (k, value) := by
        have hmem := BTreeMap.mem_toList.mpr hstaged
        cases hfound : source.toList.find? (fun staged => staged.1 = k) with
        | none =>
            rw [List.find?_eq_none] at hfound
            exact absurd (decide_eq_true rfl) (hfound (k, value) hmem)
        | some found =>
            have hkey : found.1 = k := by simpa using List.find?_some hfound
            rw [List.inj_on_of_nodup_map hnodup (List.mem_of_find?_eq_some hfound) hmem hkey]
      simp [hsome]

theorem mergeInto_nil (table : BTreeMap K V) (update : S → V → V) (insert : S → V) :
    mergeInto table (Std.ExtTreeMap.ofList [] compare) update insert = table := by
  apply Std.ExtTreeMap.ext_getElem?
  intro k
  rw [getElem?_mergeInto]
  simp

theorem map_mergeInto_eq_some_iff {W : Type x} {project : V → W} (given : S → W)
    {update : S → V → V} {insert : S → V} (hupdate : ∀ s row, project (update s row) = given s)
    (hinsert : ∀ s, project (insert s) = given s) {rows : List (K × S)}
    (hnodup : (rows.map Prod.fst).Nodup) (table : BTreeMap K V) {k : K} {value : W} :
    (mergeInto table (Std.ExtTreeMap.ofList rows compare) update insert)[k]?.map project =
        some value ↔
      (∃ s, (k, s) ∈ rows ∧ given s = value) ∨
        k ∉ rows.map Prod.fst ∧ table[k]?.map project = some value := by
  have hsource (s : S) : (Std.ExtTreeMap.ofList rows compare)[k]? = some s ↔ (k, s) ∈ rows :=
    BTreeMap.getElem?_ofList_eq_some_iff hnodup
  rw [getElem?_mergeInto]
  cases hstaged : (Std.ExtTreeMap.ofList rows compare)[k]? with
  | none =>
      have habsent : k ∉ rows.map Prod.fst := by
        intro hmem
        obtain ⟨⟨_, s⟩, hs, rfl⟩ := List.mem_map.mp hmem
        cases hstaged.symm.trans ((hsource s).mpr hs)
      have hnone : ¬ ∃ s, (k, s) ∈ rows ∧ given s = value := by
        intro h
        obtain ⟨s, hs, _⟩ := h
        exact habsent (List.mem_map_of_mem hs)
      simp only [hnone, false_or, habsent, not_false_eq_true, true_and]
  | some s =>
      have hmem := (hsource s).mp hstaged
      have hvalue : (some ((table[k]?.map (update s)).getD (insert s))).map project =
          some (given s) := by
        cases table[k]? <;> simp [hupdate, hinsert]
      rw [hvalue, Option.some.injEq]
      apply Iff.intro
      · intro hsame
        exact .inl ⟨s, hmem, hsame⟩
      · intro h
        rcases h with ⟨other, hother, hsame⟩ | ⟨habsent, _⟩
        · cases hstaged.symm.trans ((hsource other).mpr hother)
          exact hsame
        · exact absurd (List.mem_map_of_mem hmem) habsent

section DistinctOn

variable {P : Type x} [LinearOrder P] (key : S → K) (rank : S → P)

/-- Keep a row when its key is new or its rank is above the rank already kept. -/
def keepBest (best : BTreeMap K S) (row : S) : BTreeMap K S :=
  match best[key row]? with
  | some kept => if rank kept < rank row then best.insert (key row) row else best
  | none => best.insert (key row) row

/-- `SELECT DISTINCT ON (key) … ORDER BY key, rank DESC`, ties to the earlier row. -/
def distinctOn (rows : List S) : BTreeMap K S :=
  rows.foldl (keepBest key rank) ∅

variable {key rank}

theorem foldl_keepBest_sound {rows : List S} {best : BTreeMap K S} {k : K} {row : S}
    (hkept : (rows.foldl (keepBest key rank) best)[k]? = some row) :
    row ∈ rows ∧ key row = k ∨ best[k]? = some row := by
  induction rows generalizing best with
  | nil => exact .inr hkept
  | cons first rows ih =>
      rcases ih hkept with hrest | hbest
      · exact .inl ⟨List.mem_cons_of_mem _ hrest.1, hrest.2⟩
      · rw [keepBest] at hbest
        have hinsert (h : (best.insert (key first) first)[k]? = some row) :
            row ∈ first :: rows ∧ key row = k ∨ best[k]? = some row := by
          rw [BTreeMap.getElem?_insert_eq_ite] at h
          split at h
          · cases h
            exact .inl ⟨List.mem_cons_self, by assumption⟩
          · exact .inr h
        split at hbest
        · split at hbest
          · exact hinsert hbest
          · exact .inr hbest
        · exact hinsert hbest

theorem mem_keepBest_of_mem {best : BTreeMap K S} {k : K} (row : S) (hk : k ∈ best) :
    k ∈ keepBest key rank best row := by
  rw [keepBest]
  split
  · split
    · exact BTreeMap.mem_insert_iff.mpr (.inr hk)
    · exact hk
  · exact BTreeMap.mem_insert_iff.mpr (.inr hk)

theorem mem_keepBest_self (best : BTreeMap K S) (row : S) :
    key row ∈ keepBest key rank best row := by
  rw [keepBest]
  split
  · rename_i kept hkept
    split
    · exact BTreeMap.mem_insert_iff.mpr (.inl rfl)
    · exact BTreeMap.mem_iff_exists_getElem?.mpr ⟨kept, hkept⟩
  · exact BTreeMap.mem_insert_iff.mpr (.inl rfl)

theorem distinctOn_sound {rows : List S} {k : K} {row : S}
    (hkept : (distinctOn key rank rows)[k]? = some row) : row ∈ rows ∧ key row = k := by
  rcases foldl_keepBest_sound hkept with hrow | hnone
  · exact hrow
  · simp at hnone

/-- Every key of a row is kept. -/
theorem distinctOn_complete {rows : List S} {row : S} (hrow : row ∈ rows) :
    ∃ kept, (distinctOn key rank rows)[key row]? = some kept := by
  rw [← BTreeMap.mem_iff_exists_getElem?]
  apply foldl_reaches (fun best => key row ∈ best) _ hrow
  · intro best
    exact mem_keepBest_self best row
  · intro other _ best hbest
    exact mem_keepBest_of_mem other hbest

end DistinctOn

end EntityResolution.Tables
