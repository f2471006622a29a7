/-
# Redirect resolution is exact

`Ids` shows what `resolve` returns on a chain that settles. The converse is read off
the loop itself: each of its three exits says what the walk was that led there. An id
is returned only where the walk stops within the bound, a cycle is reported only when
the walk never stops, and the hop guard is met only by an id that still redirects after
exactly `max_hops` hops.

The loop keeps a list of distinct ids, and every id but the last of them redirects. So a
map with no more redirects than the bound allows is walked to its end or around a cycle,
however large the bound is.
-/

import EntityResolution.Foundations.Tables
import EntityResolution.Identity.Ids

namespace EntityResolution.Identity

open EntityResolution.Collections EntityResolution.PointerChain

universe v

variable {E : Type v} [LinearOrder E] {redirects : BTreeMap E E}

/-- What the walk from an id was, by the way in which `resolve` ends. -/
def Walked (redirects : BTreeMap E E) (entityId : E) (maxHops : ℕ) :
    Except (IdCycle E) E → Prop
  | .ok last => ∃ n ≤ maxHops, Settles (redirectOf redirects) n entityId last
  | .error (.redirectCycle _) => ∃ (n m : ℕ) (id : E),
      Hops (redirectOf redirects) n entityId id ∧ Hops (redirectOf redirects) (m + 1) id id
  | .error (.tooManyHops start bound reached) => start = entityId ∧ bound = maxHops ∧
      Hops (redirectOf redirects) maxHops entityId reached ∧ maxHops < redirects.size

/-- The loop at an id: the ids seen are distinct, each of them leads to this one, which is
as many hops from the start as there were ids before it, and the earlier ones redirect. -/
structure Walking (redirects : BTreeMap E E) (entityId : E) (maxHops : ℕ) (seen : List E)
    (current : E) : Prop where
  distinct : seen.Nodup
  behind : ∀ id ∈ seen, ∃ m, Hops (redirectOf redirects) m id current
  hops : ∃ n ≤ maxHops, seen.length = n + 1 ∧ Hops (redirectOf redirects) n entityId current
  redirect : ∀ id ∈ seen, id = current ∨ id ∈ redirects

/-- The walk of one id. -/
theorem Walking.start (redirects : BTreeMap E E) (entityId : E) (maxHops : ℕ) :
    Walking redirects entityId maxHops [entityId] entityId where
  distinct := List.nodup_singleton entityId
  behind id hid := by
    obtain rfl := List.mem_singleton.mp hid
    exact ⟨0, .stay id⟩
  hops := ⟨0, Nat.zero_le _, rfl, .stay entityId⟩
  redirect id hid := .inl (List.mem_singleton.mp hid)

variable {entityId current nxt : E} {maxHops : ℕ} {seen : List E}

theorem Walking.mem_of_redirect (hwalk : Walking redirects entityId maxHops seen current)
    (hnext : redirects[current]? = some nxt) : ∀ id ∈ seen, id ∈ redirects := by
  intro id hid
  cases hwalk.redirect id hid with
  | inl hcurrent =>
      subst hcurrent
      exact BTreeMap.mem_iff_exists_getElem?.mpr ⟨nxt, hnext⟩
  | inr hmem => exact hmem

/-- One hop past both guards. -/
theorem Walking.step (hwalk : Walking redirects entityId maxHops seen current)
    (hnext : redirects[current]? = some nxt) (hfresh : nxt ∉ seen)
    (hguard : seen.length ≤ maxHops) :
    Walking redirects entityId maxHops (seen ++ [nxt]) nxt where
  distinct := by
    have hnotin : ∀ id ∈ seen, id ≠ nxt := by
      intro id hid hsame
      exact hfresh (hsame ▸ hid)
    simpa [List.nodup_append, hwalk.distinct] using hnotin
  behind id hid := by
    cases List.mem_append.mp hid with
    | inl hid =>
        obtain ⟨m, hback⟩ := hwalk.behind id hid
        exact ⟨m + 1, hback.trans (Hops.single hnext)⟩
    | inr hid =>
        obtain rfl := List.mem_singleton.mp hid
        exact ⟨0, .stay id⟩
  hops := by
    obtain ⟨n, _, hlength, hhops⟩ := hwalk.hops
    have hlonger : (seen ++ [nxt]).length = n + 1 + 1 := by simp [hlength]
    exact ⟨n + 1, by omega, hlonger, hhops.trans (Hops.single hnext)⟩
  redirect id hid := by
    cases List.mem_append.mp hid with
    | inl hid => exact .inr (hwalk.mem_of_redirect hnext id hid)
    | inr hid => exact .inl (List.mem_singleton.mp hid)

theorem Walking.length_le_size (hwalk : Walking redirects entityId maxHops seen current)
    (hnext : redirects[current]? = some nxt) : seen.length ≤ redirects.size := by
  have hkeys : seen ⊆ redirects.keys := by
    intro id hid
    exact BTreeMap.mem_keys.mpr (hwalk.mem_of_redirect hnext id hid)
  have hle := (hwalk.distinct.subperm hkeys).length_le
  rwa [Std.ExtTreeMap.length_keys] at hle

/-- Each exit of the loop says what the walk was. -/
theorem Walking.walked (hwalk : Walking redirects entityId maxHops seen current) :
    Walked redirects entityId maxHops
      (resolveLoop redirects entityId maxHops seen current) := by
  fun_induction resolveLoop redirects entityId maxHops seen current with
  | case1 seen current hstop =>
      obtain ⟨n, hle, _, hhops⟩ := hwalk.hops
      exact ⟨n, hle, hhops, hstop⟩
  | case2 seen current nxt hnext hseen =>
      -- The repeated id lies behind the current one, which points at it.
      obtain ⟨n, _, _, hhops⟩ := hwalk.hops
      obtain ⟨m, hback⟩ := hwalk.behind nxt hseen
      exact ⟨n + 1, m, nxt, hhops.trans (Hops.single hnext),
        hback.trans (Hops.single hnext)⟩
  | case3 seen current nxt hnext _ hguard =>
      obtain ⟨n, hle, hlength, hhops⟩ := hwalk.hops
      obtain rfl : n = maxHops := by omega
      have hsize := hwalk.length_le_size hnext
      exact ⟨rfl, rfl, hhops, by omega⟩
  | case4 seen current nxt hnext hfresh hguard ih =>
      exact ih (hwalk.step hnext hfresh (by omega))

theorem resolve_walked (redirects : BTreeMap E E) (entityId : E) (maxHops : ℕ) :
    Walked redirects entityId maxHops (resolve entityId redirects maxHops) :=
  (Walking.start redirects entityId maxHops).walked

theorem resolve_eq_ok_iff (redirects : BTreeMap E E) (entityId : E) (maxHops : ℕ) (last : E) :
    resolve entityId redirects maxHops = .ok last ↔
      ∃ n ≤ maxHops, Settles (redirectOf redirects) n entityId last := by
  constructor
  · intro hok
    have hwalked := resolve_walked redirects entityId maxHops
    rwa [hok] at hwalked
  · rintro ⟨n, hle, hsettles⟩
    exact resolve_of_settles hsettles hle

/-- `resolve` is exact. It returns an id exactly when the chain of redirects from the
start stops there within the bound; that id is the only place where the chain can stop,
whatever the bound; and on every other chain the result is the cycle error. -/
theorem resolve_exact (redirects : BTreeMap E E) (entityId : E) (maxHops : ℕ) :
    (∀ last, resolve entityId redirects maxHops = .ok last ↔
      ∃ n ≤ maxHops, Settles (redirectOf redirects) n entityId last) ∧
    (∀ last, resolve entityId redirects maxHops = .ok last →
      ∀ n other, Settles (redirectOf redirects) n entityId other → other = last) ∧
    ((∃ cycle, resolve entityId redirects maxHops = .error cycle) ↔
      ¬ ∃ last, ∃ n ≤ maxHops, Settles (redirectOf redirects) n entityId last) := by
  have hiff := resolve_eq_ok_iff redirects entityId maxHops
  refine ⟨hiff, ?_, ?_⟩
  · intro last hok n other hother
    obtain ⟨m, _, hsettles⟩ := (hiff last).mp hok
    exact (hother.unique hsettles).2
  · constructor
    · rintro ⟨cycle, herror⟩ ⟨last, hwithin⟩
      have hok := (hiff last).mpr hwithin
      rw [herror] at hok
      cases hok
    · intro hnone
      cases hresult : resolve entityId redirects maxHops with
      | ok last => exact absurd ⟨last, (hiff last).mp hresult⟩ hnone
      | error cycle => exact ⟨cycle, rfl⟩

/-- The errors of `resolve` mean what they say. The cycle error tells of an id that settles
nowhere, and with a bound of at least the number of redirects every such id gets it; the other error
tells of a walk that goes on past the bound, which is then less than the number of redirects. -/
theorem resolve_errors_exact (redirects : BTreeMap E E) (entityId : E) (maxHops : ℕ) :
    (∀ chain, resolve entityId redirects maxHops = .error (.redirectCycle chain) →
      ∀ n last, ¬ Settles (redirectOf redirects) n entityId last) ∧
    (redirects.size ≤ maxHops →
      ((∃ chain, resolve entityId redirects maxHops = .error (.redirectCycle chain)) ↔
        ∀ n last, ¬ Settles (redirectOf redirects) n entityId last)) ∧
    ∀ start bound reached,
      resolve entityId redirects maxHops = .error (.tooManyHops start bound reached) →
        Hops (redirectOf redirects) maxHops entityId reached ∧ maxHops < redirects.size := by
  have hwalked := resolve_walked redirects entityId maxHops
  have hcycle : ∀ chain, resolve entityId redirects maxHops = .error (.redirectCycle chain) →
      ∀ n last, ¬ Settles (redirectOf redirects) n entityId last := by
    intro chain herror n last hsettles
    rw [herror] at hwalked
    obtain ⟨_, _, _, hreach, hback⟩ := hwalked
    exact (hsettles.split hreach).2.not_cycle hback
  refine ⟨hcycle, ?_, ?_⟩
  · intro hsize
    refine ⟨fun ⟨chain, herror⟩ => hcycle chain herror, ?_⟩
    intro hnowhere
    cases hresult : resolve entityId redirects maxHops with
    | ok last =>
        rw [hresult] at hwalked
        obtain ⟨n, _, hsettles⟩ := hwalked
        exact absurd hsettles (hnowhere n last)
    | error cycle =>
        cases cycle with
        | redirectCycle chain => exact ⟨chain, rfl⟩
        | tooManyHops start bound reached =>
            rw [hresult] at hwalked
            obtain ⟨_, _, _, hlt⟩ := hwalked
            omega
  · intro start bound reached herror
    rw [herror] at hwalked
    exact hwalked.2.2

end EntityResolution.Identity
