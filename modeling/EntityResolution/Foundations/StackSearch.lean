/-
# Reachability by a stack search

The search pops a node, reports success when the target is among its successors, and pushes the
successors it has not seen. It is bounded by fuel; when the successors stay inside a finite set,
one unit of fuel for every node of that set and for every node on the stack is enough, and the
search decides reachability. The same loop without a target fills the seen set with everything
that can be reached from it.
-/

import Mathlib

namespace EntityResolution.StackSearch

universe u

variable {K : Type u} [DecidableEq K] (successors : K → List K)

/-- Push one successor unless it has been seen. -/
def push (search : List K × Finset K) (node : K) : List K × Finset K :=
  if node ∈ search.2 then search else (node :: search.1, insert node search.2)

/-- The search loop over the stack and the set of seen nodes. -/
def search (target : K) : ℕ → List K → Finset K → Bool
  | 0, _, _ => false
  | _ + 1, [], _ => false
  | fuel + 1, node :: stack, seen =>
      if target ∈ successors node then true
      else
        let next := (successors node).foldl push (stack, seen)
        search target fuel next.1 next.2

/-- The loop without a target: it stops when the stack is empty, and returns what it has seen. -/
def fill : ℕ → List K → Finset K → Option (Finset K)
  | 0, _, _ => none
  | _ + 1, [], seen => some seen
  | fuel + 1, node :: stack, seen =>
      let next := (successors node).foldl push (stack, seen)
      fill fuel next.1 next.2

/-- Some path leads from the first node to the second. -/
def Reaches (first second : K) : Prop :=
  Relation.ReflTransGen (fun node next => next ∈ successors node) first second

variable {successors}

theorem foldl_push (nodes stack : List K) (seen : Finset K) :
    (∀ node, node ∈ (nodes.foldl push (stack, seen)).2 ↔ node ∈ seen ∨ node ∈ nodes) ∧
    (∀ node, node ∈ (nodes.foldl push (stack, seen)).1 ↔
      node ∈ stack ∨ node ∈ nodes ∧ node ∉ seen) ∧
    (nodes.foldl push (stack, seen)).1.length + seen.card =
      stack.length + (nodes.foldl push (stack, seen)).2.card := by
  induction nodes generalizing stack seen with
  | nil => simp
  | cons head nodes ih =>
      rw [List.foldl_cons, push]
      by_cases hhead : head ∈ seen
      · rw [if_pos hhead]
        obtain ⟨hseen, hstack, hlength⟩ := ih stack seen
        refine ⟨?_, ?_, hlength⟩
        · intro node
          rw [hseen node, List.mem_cons]
          grind
        · intro node
          rw [hstack node, List.mem_cons]
          grind
      · rw [if_neg hhead]
        obtain ⟨hseen, hstack, hlength⟩ := ih (head :: stack) (insert head seen)
        refine ⟨?_, ?_, ?_⟩
        · intro node
          rw [hseen node, List.mem_cons, Finset.mem_insert]
          grind
        · intro node
          rw [hstack node, List.mem_cons, List.mem_cons, Finset.mem_insert]
          grind
        · rw [Finset.card_insert_of_notMem hhead, List.length_cons] at hlength
          dsimp only
          omega

/-- A successful search leads from some node of the stack to the target. -/
theorem reaches_of_search {target : K} {fuel : ℕ} {stack : List K} {seen : Finset K}
    {source : K} (hstack : ∀ node ∈ stack, Reaches successors source node)
    (hfound : search successors target fuel stack seen = true) :
    Reaches successors source target := by
  induction fuel generalizing stack seen with
  | zero => cases hfound
  | succ fuel ih =>
      cases stack with
      | nil => cases hfound
      | cons node stack =>
          rw [search] at hfound
          have hnode := hstack node List.mem_cons_self
          split at hfound
          · next hmem => exact hnode.tail hmem
          · apply ih _ hfound
            intro next hnext
            rcases ((foldl_push _ _ _).2.1 next).mp hnext with hold | ⟨hnew, _⟩
            · exact hstack next (List.mem_cons_of_mem _ hold)
            · exact hnode.tail hnew

theorem not_reaches_of_search {target source : K} {bound : Finset K} {fuel : ℕ}
    {stack : List K} {seen : Finset K}
    (hbound : ∀ node next, next ∈ successors node → next ∈ bound) (hseen : seen ⊆ bound)
    (hfuel : stack.length + (bound \ seen).card < fuel) (htarget : target ∉ seen)
    (hne : source ≠ target) (hsource : source ∈ stack ∨ ∀ next ∈ successors source, next ∈ seen)
    (hopen : ∀ node ∈ seen, node ∈ stack ∨ ∀ next ∈ successors node, next ∈ seen)
    (hfailed : search successors target fuel stack seen = false) :
    ¬ Reaches successors source target := by
  induction fuel generalizing stack seen with
  | zero => omega
  | succ fuel ih =>
      cases stack with
      | nil =>
          -- nothing is open, so the seen nodes are closed under successors
          intro hreaches
          have hclosed : ∀ node, Reaches successors source node → node = source ∨ node ∈ seen := by
            intro node hnode
            induction hnode with
            | refl => exact .inl rfl
            | tail _ hstep ih =>
                right
                rcases ih with rfl | hmem
                · rcases hsource with hopen | hall
                  · cases hopen
                  · exact hall _ hstep
                · rcases hopen _ hmem with hopen | hall
                  · cases hopen
                  · exact hall _ hstep
          rcases hclosed target hreaches with hsame | hmem
          · exact hne hsame.symm
          · exact htarget hmem
      | cons node stack =>
          rw [search] at hfailed
          split at hfailed
          · cases hfailed
          · next hmiss =>
              obtain ⟨hnextSeen, hnextStack, hlength⟩ := foldl_push (successors node) stack seen
              have hlater : ((successors node).foldl push (stack, seen)).2 ⊆ bound := by
                intro next hnext
                rcases (hnextSeen next).mp hnext with hold | hnew
                · exact hseen hold
                · exact hbound node next hnew
              have hkeeps (other : K) (hother : other ∈ node :: stack ∨
                  ∀ next ∈ successors other, next ∈ seen) :
                  other ∈ ((successors node).foldl push (stack, seen)).1 ∨
                    ∀ next ∈ successors other,
                      next ∈ ((successors node).foldl push (stack, seen)).2 := by
                rcases hother with hstack | hall
                · rcases List.mem_cons.mp hstack with rfl | hold
                  · right
                    intro next hnext
                    exact (hnextSeen next).mpr (.inr hnext)
                  · exact .inl ((hnextStack other).mpr (.inl hold))
                · right
                  intro next hnext
                  exact (hnextSeen next).mpr (.inl (hall next hnext))
              refine ih hlater ?_ ?_ (hkeeps source hsource) ?_ hfailed
              · rw [Finset.card_sdiff_of_subset hlater]
                rw [Finset.card_sdiff_of_subset hseen, List.length_cons] at hfuel
                have hle := Finset.card_le_card hlater
                have hle' := Finset.card_le_card hseen
                omega
              · intro hmem
                rcases (hnextSeen target).mp hmem with hold | hnew
                · exact htarget hold
                · exact hmiss hnew
              · intro other hother
                rcases (hnextSeen other).mp hother with hold | hnew
                · exact hkeeps other (hopen other hold)
                · by_cases hold : other ∈ seen
                  · exact hkeeps other (hopen other hold)
                  · exact .inl ((hnextStack other).mpr (.inr ⟨hnew, hold⟩))

/-- A seen set whose nodes are on the stack or have all their successors in the set; the stack
itself has been seen. -/
structure Open (successors : K → List K) (stack : List K) (seen : Finset K) : Prop where
  stacked : ∀ node ∈ stack, node ∈ seen
  expanded : ∀ node ∈ seen, node ∈ stack ∨ ∀ next ∈ successors node, next ∈ seen

theorem Open.foldl_push {node : K} {stack : List K} {seen : Finset K}
    (hopen : Open successors (node :: stack) seen) :
    Open successors ((successors node).foldl push (stack, seen)).1
      ((successors node).foldl push (stack, seen)).2 := by
  obtain ⟨hseen, hstack, _⟩ := StackSearch.foldl_push (successors node) stack seen
  apply Open.mk
  · intro other hother
    rw [hseen]
    rcases (hstack other).mp hother with hold | ⟨hnew, _⟩
    · exact .inl (hopen.stacked other (List.mem_cons_of_mem _ hold))
    · exact .inr hnew
  · intro other hother
    by_cases hold : other ∈ seen
    · rcases hopen.expanded other hold with hmem | hall
      · rcases List.mem_cons.mp hmem with rfl | hrest
        · right
          intro next hnext
          exact (hseen next).mpr (.inr hnext)
        · exact .inl ((hstack other).mpr (.inl hrest))
      · right
        intro next hnext
        exact (hseen next).mpr (.inl (hall next hnext))
    · rcases (hseen other).mp hother with hmem | hnew
      · exact absurd hmem hold
      · exact .inl ((hstack other).mpr (.inr ⟨hnew, hold⟩))

theorem exists_fill {bound : Finset K} {fuel : ℕ} {stack : List K} {seen : Finset K}
    (hbound : ∀ node next, next ∈ successors node → next ∈ bound)
    (hfuel : stack.length + (bound \ seen).card < fuel) (hopen : Open successors stack seen) :
    ∃ filled, fill successors fuel stack seen = some filled ∧
      ∀ node, node ∈ filled ↔ ∃ source ∈ seen, Reaches successors source node := by
  induction fuel generalizing stack seen with
  | zero => omega
  | succ fuel ih =>
      cases stack with
      | nil =>
          refine ⟨seen, rfl, ?_⟩
          intro node
          apply Iff.intro
          · intro hnode
            exact ⟨node, hnode, .refl⟩
          · intro hnode
            obtain ⟨source, hsource, hreaches⟩ := hnode
            induction hreaches with
            | refl => exact hsource
            | tail _ hstep ih =>
                rcases hopen.expanded _ ih with hmem | hall
                · cases hmem
                · exact hall _ hstep
      | cons node stack =>
          obtain ⟨hseen, _, hlength⟩ := foldl_push (successors node) stack seen
          have hfewer : ((successors node).foldl push (stack, seen)).1.length +
              (bound \ ((successors node).foldl push (stack, seen)).2).card < fuel := by
            have hsplit : bound \ seen = (bound \ ((successors node).foldl push (stack, seen)).2) ∪
                (((successors node).foldl push (stack, seen)).2 \ seen) := by
              ext other
              have := hseen other
              have := hbound node other
              simp only [Finset.mem_union, Finset.mem_sdiff]
              tauto
            have hsub : seen ⊆ ((successors node).foldl push (stack, seen)).2 := by
              intro other hother
              exact (hseen other).mpr (.inl hother)
            have hcard : (bound \ seen).card =
                (bound \ ((successors node).foldl push (stack, seen)).2).card +
                  (((successors node).foldl push (stack, seen)).2 \ seen).card := by
              rw [hsplit]
              apply Finset.card_union_of_disjoint
              rw [Finset.disjoint_left]
              intro other hfirst hsecond
              exact (Finset.mem_sdiff.mp hfirst).2 (Finset.mem_sdiff.mp hsecond).1
            rw [Finset.card_sdiff_of_subset hsub] at hcard
            have hle := Finset.card_le_card hsub
            rw [List.length_cons] at hfuel
            omega
          obtain ⟨filled, hfilled, hmem⟩ := ih hfewer hopen.foldl_push
          refine ⟨filled, hfilled, ?_⟩
          intro other
          rw [hmem]
          apply Iff.intro
          · intro h
            obtain ⟨source, hsource, hreaches⟩ := h
            rcases (hseen source).mp hsource with hold | hnew
            · exact ⟨source, hold, hreaches⟩
            · exact ⟨node, hopen.stacked node List.mem_cons_self, .head hnew hreaches⟩
          · intro h
            obtain ⟨source, hsource, hreaches⟩ := h
            exact ⟨source, (hseen source).mpr (.inl hsource), hreaches⟩

end EntityResolution.StackSearch
