/-
# Paging by key

A listing is read in pages. A request asks for the rows after a key, in the order of their keys, and
takes one row more than the page holds, which tells whether there is another page; the key of the
last row of the page is where the next request starts.

Rows of one key come in any order, and in another one the next time. A page may end inside such a
group, and what is left of the group is then skipped; but a key is never skipped, and where keys are
unique the pages are the listing.
-/

import Mathlib

namespace EntityResolution.KeysetPaging

universe u v w x y

variable {α : Type u} {K : Type v} [LinearOrder K] (key : α → K)

/-- The rows after a key, or all of them. -/
def rowsAfter (after : Option K) (rows : List α) : List α :=
  rows.filter fun row => after.all fun k => k < key row

/-- What is served of the rows that were fetched: as many as the page holds, and the key of the last
one when there are more. -/
def page (limit : ℕ) (fetched : List α) : List α × Option K :=
  (fetched.take limit,
    if limit < fetched.length then (fetched.take limit).getLast?.map key else none)

/-- An order in which a statement may return rows. -/
structure Ordered (rows ordered : List α) : Prop where
  perm : ordered.Perm rows
  sorted : ordered.Pairwise fun first second => key first ≤ key second

/-- What a walk that starts after a key has shown. -/
structure Shows (rows : List α) (after : Option K) (shown : List α) : Prop where
  /-- Nothing is shown twice, and nothing that is not there. -/
  subperm : shown.Subperm (rowsAfter key after rows)
  sorted : shown.Pairwise fun first second => key first ≤ key second
  /-- No key is skipped. -/
  keys : ∀ row ∈ rowsAfter key after rows, ∃ other ∈ shown, key other = key row

variable {key} {rows ordered shown : List α} {after : Option K} {limit : ℕ}

theorem mem_rowsAfter {row : α} :
    row ∈ rowsAfter key after rows ↔ row ∈ rows ∧ ∀ k, after = some k → k < key row := by
  rw [rowsAfter, List.mem_filter]
  cases after with
  | none => simp
  | some k => simp

omit [LinearOrder K] in
/-- A page with no next one is the rest of the listing. -/
theorem page_last (hnone : (page key limit (ordered.take (limit + 1))).2 = none)
    (hlimit : 0 < limit) : (page key limit (ordered.take (limit + 1))).1 = ordered := by
  have hshort : ordered.length ≤ limit := by
    by_contra hlong
    have hmore : limit < (ordered.take (limit + 1)).length := by
      rw [List.length_take]
      omega
    have hnonempty : ordered ≠ [] := by
      rintro rfl
      simp at hlong
    rw [page, if_pos hmore, Option.map_eq_none_iff, List.getLast?_eq_none_iff,
      List.take_eq_nil_iff] at hnone
    simp only [hlimit.ne', List.take_eq_nil_iff, hnonempty] at hnone
    simp at hnone
  rw [page, List.take_take, List.take_of_length_le]
  omega

omit [LinearOrder K] in
/-- A page with a next one is full, and ends at the key of the next. -/
theorem page_more {k : K} (hnext : (page key limit (ordered.take (limit + 1))).2 = some k) :
    (page key limit (ordered.take (limit + 1))).1 = ordered.take limit ∧
      ∃ row, (ordered.take limit).getLast? = some row ∧ key row = k := by
  have htake : (ordered.take (limit + 1)).take limit = ordered.take limit := by
    rw [List.take_take, min_eq_left (Nat.le_succ limit)]
  rw [page, htake] at hnext ⊢
  refine ⟨rfl, ?_⟩
  split_ifs at hnext
  exact Option.map_eq_some_iff.mp hnext

/-- The last row of a sorted list has the greatest key. -/
theorem key_le_of_getLast? {row last : α} (hlast : shown.getLast? = some last)
    (hsorted : shown.Pairwise fun first second => key first ≤ key second) (hrow : row ∈ shown) :
    key row ≤ key last := by
  rw [List.getLast?_eq_some_iff] at hlast
  obtain ⟨init, rfl⟩ := hlast
  rw [List.pairwise_append] at hsorted
  cases List.mem_append.mp hrow with
  | inl hinit => exact hsorted.2.2 row hinit last List.mem_cons_self
  | inr hsame => rw [List.mem_singleton.mp hsame]

section Next

variable {last : α}

/-- The rows after the last one of a page are among those after the page. -/
theorem rowsAfter_last (hordered : Ordered key (rowsAfter key after rows) ordered)
    (hlast : (ordered.take limit).getLast? = some last) :
    (rowsAfter key (some (key last)) rows).Perm
      ((ordered.drop limit).filter fun row => key last < key row) := by
  have hmemLast : last ∈ rowsAfter key after rows := by
    apply hordered.perm.mem_iff.mp
    exact List.mem_of_mem_take (List.mem_of_getLast? hlast)
  have hagain : rowsAfter key (some (key last)) rows =
      (rowsAfter key after rows).filter fun row => key last < key row := by
    rw [rowsAfter, rowsAfter, List.filter_filter]
    apply List.filter_congr
    intro row _
    cases after with
    | none => simp
    | some k =>
        have hbefore := (mem_rowsAfter.mp hmemLast).2 k rfl
        simp only [Option.all_some, Bool.and_eq_decide, decide_eq_true_eq, decide_eq_decide]
        exact ⟨fun hlt => ⟨hlt, hbefore.trans hlt⟩, And.left⟩
  have hfront : (ordered.take limit).filter (fun row => key last < key row) = [] := by
    rw [List.filter_eq_nil_iff]
    intro row hrow
    have hle := key_le_of_getLast? hlast (hordered.sorted.sublist (List.take_sublist _ _)) hrow
    simpa using hle
  rw [hagain]
  apply (hordered.perm.symm.filter _).trans
  rw [← List.take_append_drop limit ordered, List.filter_append, List.take_append_drop, hfront,
    List.nil_append]

/-- A page and what a walk from its end shows. -/
theorem Shows.append (hordered : Ordered key (rowsAfter key after rows) ordered)
    (hlast : (ordered.take limit).getLast? = some last)
    (hrest : Shows key rows (some (key last)) shown) :
    Shows key rows after (ordered.take limit ++ shown) := by
  have hafter := rowsAfter_last hordered hlast
  have hfrontSorted := hordered.sorted.sublist (List.take_sublist limit ordered)
  have hfront : ∀ row ∈ ordered.take limit, key row ≤ key last :=
    fun row hrow => key_le_of_getLast? hlast hfrontSorted hrow
  have hlate : ∀ row ∈ shown, key last < key row := by
    intro row hrow
    exact (mem_rowsAfter.mp (hrest.subperm.subset hrow)).2 _ rfl
  constructor
  · have hdrop : shown.Subperm (ordered.drop limit) :=
      (hrest.subperm.trans hafter.subperm).trans List.filter_sublist.subperm
    have hall : (ordered.take limit ++ shown).Subperm (ordered.take limit ++ ordered.drop limit) :=
      (List.Subperm.refl _).append hdrop
    rw [List.take_append_drop] at hall
    exact hall.trans hordered.perm.subperm
  · rw [List.pairwise_append]
    refine ⟨hfrontSorted, hrest.sorted, ?_⟩
    intro first hfirst second hsecond
    exact (hfront first hfirst).trans (hlate second hsecond).le
  · intro row hrow
    by_cases hmore : key last < key row
    · have hthere : row ∈ rowsAfter key (some (key last)) rows := by
        rw [mem_rowsAfter]
        refine ⟨(mem_rowsAfter.mp hrow).1, ?_⟩
        rintro k ⟨⟩
        exact hmore
      obtain ⟨other, hother, hkey⟩ := hrest.keys row hthere
      exact ⟨other, List.mem_append_right _ hother, hkey⟩
    · have hmem := hordered.perm.mem_iff.mpr hrow
      rw [← List.take_append_drop limit ordered, List.mem_append] at hmem
      cases hmem with
      | inl htake => exact ⟨row, List.mem_append_left _ htake, rfl⟩
      | inr hdrop =>
          -- a row of the last key that the page has no place for
          have hlastMem := List.mem_of_getLast? hlast
          have hsorted := hordered.sorted
          rw [← List.take_append_drop limit ordered, List.pairwise_append] at hsorted
          have hle := hsorted.2.2 last hlastMem row hdrop
          exact ⟨last, List.mem_append_left _ hlastMem, le_antisymm hle (not_lt.mp hmore)⟩

theorem length_rowsAfter_lt (hordered : Ordered key (rowsAfter key after rows) ordered)
    (hlast : (ordered.take limit).getLast? = some last) :
    (rowsAfter key (some (key last)) rows).length < (rowsAfter key after rows).length := by
  have hnonempty : 0 < (ordered.take limit).length :=
    List.length_pos_of_mem (List.mem_of_getLast? hlast)
  have hsplit : (ordered.take limit).length + (ordered.drop limit).length = ordered.length := by
    rw [← List.length_append, List.take_append_drop]
  have hless := List.length_filter_le (fun row => decide (key last < key row)) (ordered.drop limit)
  rw [(rowsAfter_last hordered hlast).length_eq, ← hordered.perm.length_eq]
  omega

end Next

section Walks

variable {C : Type w} {V : Type x} {E : Type y}

/-- The pages of a client that follows the cursors, one request after the other, to the end. -/
inductive Walk (fetch : ℕ → Option C → Except E (List V × Option C)) :
    ℕ → Option C → List (List V) → Prop
  | last {request : ℕ} {cursor : Option C} {items : List V}
      (hfetch : fetch request cursor = .ok (items, none)) : Walk fetch request cursor [items]
  | more {request : ℕ} {cursor : Option C} {items : List V} {next : C} {pages : List (List V)}
      (hfetch : fetch request cursor = .ok (items, some next))
      (hrest : Walk fetch (request + 1) (some next) pages) :
      Walk fetch request cursor (items :: pages)

/-- A request is answered with a page of the listing after a key. -/
def Serves (key : α → K) (rows : List α) (render : α → V) (encode : K → C)
    (answer : Except E (List V × Option C)) (after : Option K) : Prop :=
  ∃ ordered limit, 0 < limit ∧ Ordered key (rowsAfter key after rows) ordered ∧
    answer = .ok ((page key limit (ordered.take (limit + 1))).1.map render,
      (page key limit (ordered.take (limit + 1))).2.map encode)

theorem exists_walk (fetch : ℕ → Option C → Except E (List V × Option C)) {render : α → V}
    {encode : K → C} (hnext : ∀ request, ∀ row ∈ rows, Serves key rows render encode
      (fetch request (some (encode (key row)))) (some (key row)))
    (request : ℕ) (cursor : Option C)
    (hfirst : Serves key rows render encode (fetch request cursor) after) :
    ∃ pages : List (List α), Walk fetch request cursor (pages.map fun items => items.map render) ∧
      Shows key rows after pages.flatten := by
  -- by the number of rows that are left
  induction hleft : (rowsAfter key after rows).length using Nat.strong_induction_on
    generalizing after request cursor with
  | _ left ih =>
      obtain ⟨ordered, limit, hlimit, hordered, hanswer⟩ := hfirst
      cases hmore : (page key limit (ordered.take (limit + 1))).2 with
      | none =>
          rw [page_last hmore hlimit, hmore] at hanswer
          refine ⟨[ordered], .last hanswer, ?_⟩
          rw [List.flatten_singleton]
          refine ⟨hordered.perm.subperm, hordered.sorted, ?_⟩
          intro row hrow
          exact ⟨row, hordered.perm.mem_iff.mpr hrow, rfl⟩
      | some k =>
          obtain ⟨hitems, last, hlast, rfl⟩ := page_more hmore
          rw [hitems, hmore] at hanswer
          have hless := length_rowsAfter_lt hordered hlast
          rw [hleft] at hless
          have hmem : last ∈ rows := by
            have hthere := List.mem_of_mem_take (List.mem_of_getLast? hlast)
            exact (mem_rowsAfter.mp (hordered.perm.mem_iff.mp hthere)).1
          obtain ⟨pages, hwalk, hshows⟩ :=
            ih _ hless (request + 1) (some (encode (key last))) (hnext _ last hmem) rfl
          refine ⟨ordered.take limit :: pages, .more hanswer hwalk, ?_⟩
          rw [List.flatten_cons]
          exact Shows.append hordered hlast hshows

end Walks

theorem Shows.perm_of_nodup (hshows : Shows key rows after shown) (hkeys : (rows.map key).Nodup) :
    shown.Perm (rowsAfter key after rows) := by
  have hunique : (rowsAfter key after rows).map key |>.Nodup :=
    hkeys.sublist (List.filter_sublist.map key)
  apply hshows.subperm.antisymm
  apply List.subperm_of_subset (List.Nodup.of_map key hunique)
  intro row hrow
  obtain ⟨other, hother, hkey⟩ := hshows.keys row hrow
  rw [← List.inj_on_of_nodup_map hunique (hshows.subperm.subset hother) hrow hkey]
  exact hother

/-- What a client has been shown of a whole listing. -/
structure ShowsAll (key : α → K) (rows shown : List α) : Prop where
  /-- Nothing twice, and nothing that is not there. -/
  subperm : shown.Subperm rows
  sorted : shown.Pairwise fun first second => key first ≤ key second
  /-- No key is skipped. -/
  keys : ∀ row ∈ rows, ∃ other ∈ shown, key other = key row
  /-- Where keys are unique, no row is. -/
  perm : (rows.map key).Nodup → shown.Perm rows

theorem Shows.all (hshows : Shows key rows none shown) : ShowsAll key rows shown := by
  have hall : rowsAfter key none rows = rows := List.filter_eq_self.mpr fun _ _ => rfl
  constructor
  · have hsub := hshows.subperm
    rwa [hall] at hsub
  · exact hshows.sorted
  · have hkeys := hshows.keys
    rwa [hall] at hkeys
  · intro hnodup
    have hperm := hshows.perm_of_nodup hnodup
    rwa [hall] at hperm

end EntityResolution.KeysetPaging
