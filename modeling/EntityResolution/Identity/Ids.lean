/-
# Identity primitives

Pair canonicalisation, the id factory that a reconcile run draws from, and the
resolution of an external entity id through `entities.merged_into`.

The factory hands out one id per call and advances its counter, which is what the
counting and the deterministic factories of the engine do; a factory of another
kind is the sequence of ids that it would hand out. `resolve` walks the redirects
with the list of ids it has seen, refusing a repeated id and a walk of more than
`max_hops` hops, in that order.
-/

import EntityResolution.Foundations.Collections
import EntityResolution.Foundations.PointerChain

namespace EntityResolution.Identity

open EntityResolution.Collections EntityResolution.PointerChain

universe u v

variable {R : Type u} {E : Type v}

/-- `DEFAULT_MAX_HOPS`: the redirect-chain bound. -/
def defaultMaxHops : ℕ := 64

/-- The two ways in which `IdError::IdCycle` is raised. -/
inductive IdCycle (E : Type v)
  /-- A redirect leads back to an id already on the chain. -/
  | redirectCycle (chain : List E)
  /-- The chain from `entityId` still redirects at `current` after `maxHops` hops. -/
  | tooManyHops (entityId : E) (maxHops : ℕ) (current : E)
  deriving DecidableEq

/-- The text carried by `IdError::IdCycle`, given the quoted rendering of an id. -/
def IdCycle.message (quoted : String → String) : IdCycle String → String
  | .redirectCycle chain =>
      "redirect cycle in entities.merged_into: " ++ String.intercalate " -> " chain
  | .tooManyHops entityId maxHops current =>
      "redirect chain from " ++ quoted entityId ++ " did not terminate within max_hops=" ++
        toString maxHops ++ " (reached " ++ quoted current ++ ")"

/-- `IdError::PairSameKey`: a pair must have two distinct record keys. -/
structure PairSameKey (R : Type u) where
  key : R
  deriving DecidableEq

/-- `canonicalize_pair`: the pair in ascending order. -/
def canonicalizePair [LinearOrder R] (a b : R) : Except (PairSameKey R) (R × R) :=
  if a = b then .error ⟨a⟩ else .ok (if a < b then (a, b) else (b, a))

/-- `IdFactory`: the ids it renders and the counter it has reached. -/
structure IdFactory (E : Type v) where
  render : ℕ → E
  next : ℕ

/-- `IdFactory::new_id`: hand out the id at the counter and advance it. -/
def IdFactory.newId (factory : IdFactory E) : E × IdFactory E :=
  (factory.render factory.next, { factory with next := factory.next + 1 })

/-- The id of the `i`-th call from now on. -/
def IdFactory.draw (factory : IdFactory E) (i : ℕ) : E := factory.render (factory.next + i)

/-- The factory hands out pairwise distinct ids, none of them in use. -/
structure IdFactory.Fresh (factory : IdFactory E) (used : E → Prop) : Prop where
  distinct : Function.Injective factory.draw
  unused : ∀ i, ¬ used (factory.draw i)

/-- A deterministic UUIDv7, by the two fields that tell ids apart: the timestamp and the mint
counter. Version and variant are constants, and the canonical text orders ids by timestamp,
then counter. -/
structure V7Id where
  unixTsMs : ℕ
  counter : ℕ
  deriving DecidableEq

instance : LinearOrder V7Id :=
  LinearOrder.lift' (fun id => toLex (id.unixTsMs, id.counter)) (by
    intro first second hsame
    cases first
    cases second
    simpa using hsame)

/-- `deterministic_v7`: the timestamp field has 48 bits. -/
def deterministicV7 (unixTsMs counter : ℕ) : V7Id := ⟨unixTsMs % 2 ^ 48, counter⟩

/-- The counter has to fit the 62 bits of `rand_b`; `deterministic_v7` panics otherwise. -/
def counterBound : ℕ := 2 ^ 62

/-- `DeterministicV7Factory`: the ids of one timestamp, from a counter on. -/
def deterministicV7Factory (unixTsMs start : ℕ) : IdFactory V7Id :=
  ⟨deterministicV7 unixTsMs, start⟩

/-- The factory is fresh for ids that were minted below its counter, whatever their
timestamps. -/
theorem deterministicV7Factory_fresh {used : V7Id → Prop} {unixTsMs start : ℕ}
    (hbelow : ∀ id, used id → id.counter < start) :
    (deterministicV7Factory unixTsMs start).Fresh used where
  distinct first second hsame := by
    have hcounter : start + first = start + second := congrArg V7Id.counter hsame
    omega
  unused i hused := by
    have hlt : start + i < start := hbelow _ hused
    omega

/-- Draw one id per key, in the order of the keys. -/
def mintAll : List R → IdFactory E → List (R × E)
  | [], _ => []
  | key :: keys, factory => (key, factory.newId.1) :: mintAll keys factory.newId.2

theorem mintAll_eq_zipIdx (keys : List R) (factory : IdFactory E) :
    mintAll keys factory = keys.zipIdx.map fun entry => (entry.1, factory.draw entry.2) := by
  induction keys generalizing factory with
  | nil => rfl
  | cons key keys ih =>
      have hdraw (i : ℕ) : factory.newId.2.draw i = factory.draw (i + 1) := by
        simp only [IdFactory.newId, IdFactory.draw]
        congr 1
        omega
      rw [mintAll, ih, List.zipIdx_cons', List.map_cons, List.map_map]
      simp only [hdraw, Function.comp_def, Prod.map, id]
      rfl

theorem mem_mintAll {keys : List R} {factory : IdFactory E} {key : R} {id : E} :
    (key, id) ∈ mintAll keys factory ↔ ∃ i, keys[i]? = some key ∧ id = factory.draw i := by
  rw [mintAll_eq_zipIdx]
  simp only [List.mem_map, Prod.mk.injEq, Prod.exists, List.mem_zipIdx_iff_getElem?]
  constructor
  · rintro ⟨_, i, hkey, rfl, rfl⟩
    exact ⟨i, hkey, rfl⟩
  · rintro ⟨i, hkey, rfl⟩
    exact ⟨key, i, hkey, rfl, rfl⟩

theorem mintAll_map_fst (keys : List R) (factory : IdFactory E) :
    (mintAll keys factory).map Prod.fst = keys := by
  rw [mintAll_eq_zipIdx]
  simp [List.map_map, Function.comp_def, List.zipIdx_map_fst]

section Resolve

variable [LinearOrder E]

/-- The loop of `resolve`: `seen` holds every id of the walk so far and `current`
is its last one. -/
def resolveLoop (redirects : BTreeMap E E) (entityId : E) (maxHops : ℕ)
    (seen : List E) (current : E) : Except (IdCycle E) E :=
  match redirects[current]? with
  | none => .ok current
  | some nxt =>
      if nxt ∈ seen then .error (.redirectCycle (seen ++ [nxt]))
      else if seen.length > maxHops then .error (.tooManyHops entityId maxHops current)
      else resolveLoop redirects entityId maxHops (seen ++ [nxt]) nxt
termination_by maxHops + 1 - seen.length
decreasing_by simp only [List.length_append, List.length_singleton]; omega

/-- `resolve`: follow `entities.merged_into` from an entity id. -/
def resolve (entityId : E) (redirects : BTreeMap E E) (maxHops : ℕ) : Except (IdCycle E) E :=
  resolveLoop redirects entityId maxHops [entityId] entityId

/-- The pointer map that `resolve` walks. -/
def redirectOf (redirects : BTreeMap E E) (id : E) : Option E := redirects[id]?

/-- The loop never meets the cycle guard on a walk that settles, and meets the hop
guard exactly when the rest of the walk is too long. -/
theorem resolveLoop_of_settles {redirects : BTreeMap E E} {entityId : E} {maxHops : ℕ}
    {seen : List E} {current last : E} {n : ℕ}
    (hsettles : Settles (redirectOf redirects) n current last)
    (hseen : ∀ id ∈ seen, ∃ m, Hops (redirectOf redirects) m id current) :
    (n + seen.length ≤ maxHops + 1 →
      resolveLoop redirects entityId maxHops seen current = .ok last) ∧
    (maxHops + 1 < n + seen.length → seen.length ≤ maxHops + 1 → ∃ reached,
      resolveLoop redirects entityId maxHops seen current =
        .error (.tooManyHops entityId maxHops reached)) := by
  induction n generalizing seen current with
  | zero =>
      obtain ⟨hhops, hlast⟩ := hsettles
      cases hhops
      refine ⟨fun _ => ?_, fun hlong hlen => by omega⟩
      have hstop : redirects[last]? = none := hlast
      rw [resolveLoop, hstop]
  | succ n ih =>
      have hwhole := hsettles
      obtain ⟨hhops, hlast⟩ := hsettles
      cases hhops with
      | @hop _ _ nxt _ hnext hrest =>
          have hget : redirects[current]? = some nxt := hnext
          have hfresh : nxt ∉ seen := by
            -- A repeated id would put `current` on a cycle.
            intro hmem
            obtain ⟨m, hback⟩ := hseen nxt hmem
            exact hwhole.not_cycle (.hop hnext hback)
          have hseen' : ∀ id ∈ seen ++ [nxt], ∃ m, Hops (redirectOf redirects) m id nxt := by
            intro id hid
            rcases List.mem_append.mp hid with hid | hid
            · obtain ⟨m, hwalk⟩ := hseen id hid
              exact ⟨m + 1, hwalk.trans (Hops.single hnext)⟩
            · obtain rfl := List.mem_singleton.mp hid
              exact ⟨0, .stay id⟩
          obtain ⟨hok, hlong⟩ := ih ⟨hrest, hlast⟩ hseen'
          simp only [List.length_append, List.length_singleton] at hok hlong
          constructor
          · intro hle
            rw [resolveLoop, hget]
            simp only [hfresh, if_false]
            rw [if_neg (by omega)]
            exact hok (by omega)
          · intro hgt hlen
            rw [resolveLoop, hget]
            simp only [hfresh, if_false]
            by_cases hguard : seen.length > maxHops
            · exact ⟨current, by rw [if_pos hguard]⟩
            · rw [if_neg hguard]
              exact hlong (by omega) (by omega)

/-- On a walk that settles within the bound, `resolve` returns the stopping place. -/
theorem resolve_of_settles {redirects : BTreeMap E E} {entityId last : E} {maxHops n : ℕ}
    (hsettles : Settles (redirectOf redirects) n entityId last) (hle : n ≤ maxHops) :
    resolve entityId redirects maxHops = .ok last :=
  (resolveLoop_of_settles hsettles (by simpa using ⟨0, .stay entityId⟩)).1 (by simpa using hle)

/-- On a longer walk that settles, `resolve` fails with the hop guard. -/
theorem resolve_of_settles_long {redirects : BTreeMap E E} {entityId last : E} {maxHops n : ℕ}
    (hsettles : Settles (redirectOf redirects) n entityId last) (hlong : maxHops < n) :
    ∃ reached, resolve entityId redirects maxHops =
      .error (.tooManyHops entityId maxHops reached) :=
  (resolveLoop_of_settles hsettles (by simpa using ⟨0, .stay entityId⟩)).2
    (by simpa using hlong) (by simp)

end Resolve

end EntityResolution.Identity
