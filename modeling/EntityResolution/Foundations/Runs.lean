/-
# Runs of a step function

A run applies a step function to a list of inputs, one after the other. Two predicates
describe it: `Along` says that a guard holds of every input at the state it meets, and
`AfterEach` that a postcondition holds of every state the run reaches.

The rules reduce both to one step. With an invariant that the postcondition restores, a
postcondition that is equivalent to the guard step by step is equivalent to it along the
whole run. With an invariant that every guarded step keeps, what the invariant and the guard give
of one step holds along every guarded run.
-/

import Mathlib

namespace EntityResolution.Runs

universe u v

variable {S : Type u} {A : Type v} (step : S → A → S)

/-- The guard holds of every input of the run, at the state that input meets. -/
def Along (guard : S → A → Prop) : S → List A → Prop
  | _, [] => True
  | state, input :: inputs => guard state input ∧ Along guard (step state input) inputs

/-- The postcondition holds of every input of the run and the state it leaves. -/
def AfterEach (post : A → S → Prop) : S → List A → Prop
  | _, [] => True
  | state, input :: inputs =>
      post input (step state input) ∧ AfterEach post (step state input) inputs

variable {step}

/-- What holds of every input at every state holds along every run. -/
theorem along_of_all {guard : S → A → Prop} (hall : ∀ state input, guard state input) {state : S}
    {inputs : List A} : Along step guard state inputs := by
  induction inputs generalizing state with
  | nil => trivial
  | cons head inputs ih => exact ⟨hall state head, ih⟩

/-- A guard on the inputs alone holds along every run of such inputs. -/
theorem along_of_forall {guard : A → Prop} {state : S} {inputs : List A}
    (hinputs : ∀ input ∈ inputs, guard input) :
    Along step (fun _ input => guard input) state inputs := by
  induction inputs generalizing state with
  | nil => trivial
  | cons head inputs ih =>
      apply And.intro
      · exact hinputs head List.mem_cons_self
      · apply ih
        intro other hother
        exact hinputs other (List.mem_cons_of_mem _ hother)

theorem Along.last {guard : S → A → Prop} {state : S} {inputs : List A} {input : A}
    (hrun : Along step guard state (inputs ++ [input])) :
    guard (inputs.foldl step state) input := by
  induction inputs generalizing state with
  | nil => exact hrun.1
  | cons head inputs ih => exact ih hrun.2

/-- A postcondition on states that holds at the start and after every step holds at the end. -/
theorem AfterEach.final {post : S → Prop} {state : S} {inputs : List A}
    (hrun : AfterEach step (fun _ later => post later) state inputs) (hstart : post state) :
    post (inputs.foldl step state) := by
  induction inputs generalizing state with
  | nil => exact hstart
  | cons head inputs ih => exact ih hrun.2 hrun.1

/-- A postcondition that follows from an invariant the step keeps holds after every step. -/
theorem afterEach_of_invariant (inv : S → Prop) {post : A → S → Prop} {inputs : List A}
    (hstep : ∀ input ∈ inputs, ∀ state, inv state →
      inv (step state input) ∧ post input (step state input))
    {state : S} (hstart : inv state) : AfterEach step post state inputs := by
  induction inputs generalizing state with
  | nil => trivial
  | cons input inputs ih =>
      obtain ⟨hinv, hpost⟩ := hstep input List.mem_cons_self state hstart
      apply And.intro hpost
      apply ih _ hinv
      intro other hother
      exact hstep other (List.mem_cons_of_mem _ hother)

/-- A guard that decides the postcondition of every step from a state with the invariant
decides the postcondition of the whole run. -/
theorem afterEach_iff_along (inv : S → Prop) {guard : S → A → Prop} {post : A → S → Prop}
    {inputs : List A}
    (hstep : ∀ input ∈ inputs, ∀ state, inv state →
      (post input (step state input) ↔ guard state input))
    (hinv : ∀ input ∈ inputs, ∀ state, inv state → post input (step state input) →
      inv (step state input))
    {state : S} (hstart : inv state) :
    AfterEach step post state inputs ↔ Along step guard state inputs := by
  induction inputs generalizing state with
  | nil => exact Iff.rfl
  | cons input inputs ih =>
      have hhead := hstep input List.mem_cons_self state hstart
      have hrest (hpost : post input (step state input)) :
          AfterEach step post (step state input) inputs ↔
            Along step guard (step state input) inputs := by
        apply ih
        · intro other hother
          exact hstep other (List.mem_cons_of_mem _ hother)
        · intro other hother
          exact hinv other (List.mem_cons_of_mem _ hother)
        · exact hinv input List.mem_cons_self state hstart hpost
      apply Iff.intro
      · intro hrun
        exact ⟨hhead.mp hrun.1, (hrest hrun.1).mp hrun.2⟩
      · intro hrun
        have hpost := hhead.mpr hrun.1
        exact ⟨hpost, (hrest hpost).mpr hrun.2⟩

/-- A guard that decides what is wanted of every step from a state with the invariant decides
it of the whole run. -/
theorem along_iff_along (inv : S → Prop) {guard post : S → A → Prop}
    (hstep : ∀ state input, inv state → (post state input ↔ guard state input))
    (hinv : ∀ state input, inv state → guard state input → inv (step state input))
    {state : S} {inputs : List A} (hstart : inv state) :
    Along step post state inputs ↔ Along step guard state inputs := by
  induction inputs generalizing state with
  | nil => exact Iff.rfl
  | cons input inputs ih =>
      constructor
      · intro hrun
        have hguard := (hstep state input hstart).mp hrun.1
        exact ⟨hguard, (ih (hinv state input hstart hguard)).mp hrun.2⟩
      · intro hrun
        have hlater := hinv state input hstart hrun.1
        exact ⟨(hstep state input hstart).mpr hrun.1, (ih hlater).mpr hrun.2⟩

/-- A guard on what is tracked beside the state decides the postcondition of the whole run, when
it decides that of every step and the postcondition keeps track. -/
theorem afterEach_iff_along_of_tracks {T : Type*} {track : T → A → T} (tracks : S → T → Prop)
    {guard : T → A → Prop} {post : A → S → Prop}
    (hstep : ∀ state tracked input, tracks state tracked →
      (post input (step state input) ↔ guard tracked input))
    (htracks : ∀ state tracked input, tracks state tracked → post input (step state input) →
      tracks (step state input) (track tracked input))
    {state : S} {tracked : T} {inputs : List A} (hstart : tracks state tracked) :
    AfterEach step post state inputs ↔ Along track guard tracked inputs := by
  induction inputs generalizing state tracked with
  | nil => exact Iff.rfl
  | cons input inputs ih =>
      have hhead := hstep state tracked input hstart
      constructor
      · intro hrun
        exact ⟨hhead.mp hrun.1, (ih (htracks state tracked input hstart hrun.1)).mp hrun.2⟩
      · intro hrun
        have hpost := hhead.mpr hrun.1
        exact ⟨hpost, (ih (htracks state tracked input hstart hpost)).mpr hrun.2⟩

/-- What an invariant and the guard give of one step holds along a guarded run, when guarded
steps keep the invariant. -/
theorem along_of_along (inv : S → Prop) {guard post : S → A → Prop}
    (hinv : ∀ state input, inv state → guard state input → inv (step state input))
    (hpost : ∀ state input, inv state → guard state input → post state input)
    {state : S} {inputs : List A} (hstart : inv state) (hrun : Along step guard state inputs) :
    Along step post state inputs := by
  induction inputs generalizing state with
  | nil => trivial
  | cons input inputs ih =>
      obtain ⟨hguard, hrest⟩ := hrun
      exact ⟨hpost state input hstart hguard, ih (hinv state input hstart hguard) hrest⟩

/-- What an invariant gives of a state holds of every state that a guarded run reaches, when
guarded steps keep the invariant. -/
theorem afterEach_of_along (inv : S → Prop) {guard : S → A → Prop} {post : A → S → Prop}
    (hinv : ∀ state input, inv state → guard state input → inv (step state input))
    (hpost : ∀ input state, inv state → post input state)
    {state : S} {inputs : List A} (hstart : inv state) (hrun : Along step guard state inputs) :
    AfterEach step post state inputs := by
  induction inputs generalizing state with
  | nil => trivial
  | cons input inputs ih =>
      obtain ⟨hguard, hrest⟩ := hrun
      have hlater := hinv state input hstart hguard
      exact ⟨hpost input _ hlater, ih hlater hrest⟩

end EntityResolution.Runs
