/-
# The configured bound on the rounds

A tenant's `max_iterations` bounds the rounds of the never-cut. Without a bound the never-cut always
returns. With one it returns if and only if the graph settles within that many rounds: two detours
that join one pair need two rounds, so a bound of one fails the run, with no protected edge and no
cycle of them in sight.
-/

import EntityResolution.NeverCut.Rounds
import EntityResolution.Reconcile.Departed

namespace EntityResolution.Reconcile

open EntityResolution.Collections EntityResolution.NeverCut

universe u v w x y

variable {R : Type u} {P : Type v} {C : Type w} {V : Type x} {A : Type y} [LinearOrder R]
  [LinearOrder P] [One P] [DecidableEq V]

namespace ReconcileInput

/-- What the never-cut of the run returns when nothing bounds its rounds. -/
def UnboundedCut (input : ReconcileInput R P C V A) (result : CutResult R P (RuleId R A)) : Prop :=
  ∃ enough, ∀ bound, enough ≤ bound →
    neverCutFixpoint input.keptEdges input.nevers input.nodes input.cutProtectProbability
      input.protectedRecords bound = .ok result

variable {input : ReconcileInput R P C V A}

omit [LinearOrder P] in
theorem ne_of_mem_activeNever {rule : Assertion R (RuleId R A)}
    (hrule : rule ∈ activeNever input.nevers) : rule.recAKey ≠ rule.recBKey := by
  rw [activeNever_nevers] at hrule
  exact (nevers_spec hrule).2.2.ne

theorem unboundedCut_iff {result : CutResult R P (RuleId R A)} :
    input.UnboundedCut result ↔ ∃ bound, neverCutFixpoint input.keptEdges input.nevers input.nodes
      input.cutProtectProbability input.protectedRecords bound = .ok result := by
  apply Iff.intro
  · rintro ⟨enough, hall⟩
    exact ⟨enough, hall enough (le_refl _)⟩
  · rintro ⟨bound, hbound⟩
    exact ⟨bound, fun more hle => fixpoint_mono (fun _ => ne_of_mem_activeNever) hle hbound⟩

theorem UnboundedCut.neverCut_eq {result other : CutResult R P (RuleId R A)}
    (hother : input.UnboundedCut other) (hresult : input.neverCut = .ok result) :
    input.neverCut = .ok other := by
  obtain ⟨enough, hall⟩ := hother
  have hfixpoint := hresult
  rw [neverCut_eq_fixpoint] at hfixpoint
  have hmore := fixpoint_mono (fun _ => ne_of_mem_activeNever)
    (Nat.le_max_right enough input.rounds) hfixpoint
  rw [hall _ (Nat.le_max_left enough input.rounds)] at hmore
  rw [hresult, hmore]

theorem exists_unboundedCut (input : ReconcileInput R P C V A) :
    ∃ result, input.UnboundedCut result := by
  have hfixpoint : ∃ bound result, neverCutFixpoint input.keptEdges input.nevers input.nodes
      input.cutProtectProbability input.protectedRecords bound = .ok result :=
    exists_fixpoint fun _ => ne_of_mem_activeNever
  obtain ⟨bound, result, hresult⟩ := hfixpoint
  exact ⟨result, unboundedCut_iff.mpr ⟨bound, hresult⟩⟩

theorem exists_neverCut_iff (hpositive : 1 ≤ input.maxIterations) :
    (∃ result, input.neverCut = .ok result) ↔
      SettlesWithin input.nevers input.cutProtectProbability input.protectedRecords
        input.maxIterations.toNat input.keptEdges := by
  have hrounds : input.rounds = input.maxIterations.toNat := by
    rw [rounds, if_pos (Int.le_trans (by decide) hpositive)]
  have hiff : (∃ result, neverCutFixpoint input.keptEdges input.nevers input.nodes
      input.cutProtectProbability input.protectedRecords input.maxIterations.toNat = .ok result) ↔
      SettlesWithin (activeNever input.nevers) input.cutProtectProbability input.protectedRecords
        input.maxIterations.toNat input.keptEdges :=
    exists_fixpoint_iff (fun _ => ne_of_mem_activeNever) _
  rwa [activeNever_nevers, ← hrounds, ← neverCut_eq_fixpoint, hrounds] at hiff

end ReconcileInput

/-- A bound never fails a run that would end without one, if and only if the graph settles within
the bound. -/
theorem round_bound_is_enough_iff (input : ReconcileInput R P C V A)
    (hpositive : 1 ≤ input.maxIterations) :
    ((∀ result, input.UnboundedCut result → input.neverCut = .ok result) ∧
      ∀ bound remaining, input.neverCut ≠ .error (.nonConvergence bound remaining)) ↔
      SettlesWithin input.nevers input.cutProtectProbability input.protectedRecords
        input.maxIterations.toNat input.keptEdges := by
  rw [← ReconcileInput.exists_neverCut_iff hpositive]
  apply Iff.intro
  · intro henough
    obtain ⟨result, hresult⟩ := input.exists_unboundedCut
    exact ⟨result, henough.1 result hresult⟩
  · rintro ⟨result, hresult⟩
    refine ⟨?_, ?_⟩
    · intro other hother
      exact hother.neverCut_eq hresult
    · intro bound remaining herror
      rw [hresult] at herror
      cases herror

/-- Records 1 and 2 must not be joined, and are joined by way of 3 and by way of 4. -/
def sampleDetours (maxIterations : ℤ) : ReconcileInput ℕ ℕ Unit ℕ ℕ where
  constraints := {}
  cutProtectProbability := 9
  maxIterations
  corpus := Std.ExtTreeMap.ofList ([1, 2, 3, 4].map fun key => (key, fun _ => none)) compare
  scores := [⟨1, 3, 5⟩, ⟨2, 3, 5⟩, ⟨1, 4, 5⟩, ⟨2, 4, 5⟩]
  assertions := [⟨.steward 1, 1, 2, .never, true⟩]
  suppressed := ∅
  protectedRecords := ∅
  scores_ordered := by simp
  assertions_ordered := by simp
  assertions_active := by simp

/-- Two rounds cut both detours. -/
theorem round_bound_is_enough_sample :
    SettlesWithin (sampleDetours 2).nevers 9 ∅ 2 (sampleDetours 2).keptEdges := by
  have hcut : (sampleDetours 2).neverCut =
      .ok ⟨[⟨1, 3, 5, .steward 1⟩, ⟨1, 4, 5, .steward 1⟩], [], 2⟩ := by
    decide +kernel
  have hpositive : 1 ≤ (sampleDetours 2).maxIterations := by decide
  apply (round_bound_is_enough_iff (sampleDetours 2) hpositive).mp
  refine ⟨?_, ?_⟩
  · intro result hresult
    exact hresult.neverCut_eq hcut
  · rw [hcut]
    intro bound remaining herror
    cases herror

/-- With a bound of one the run fails, though no record is protected and no edge is as strong as the
threshold. -/
theorem detours_exceed_bound :
    (sampleDetours 1).neverCut = .error (.nonConvergence 1 1) ∧
      (sampleDetours 1).UnboundedCut
        ⟨[⟨1, 3, 5, .steward 1⟩, ⟨1, 4, 5, .steward 1⟩], [], 2⟩ := by
  refine ⟨by decide +kernel, ReconcileInput.unboundedCut_iff.mpr ⟨2, by decide +kernel⟩⟩

end EntityResolution.Reconcile
