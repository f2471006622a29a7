/-
# Items that are retried

Workers take an item of a shared queue, try it, and give it back: settled, or for another try. An
item that is taken stays on offer until it is settled, so that several workers can have it at
once; and a worker can be lost with it.

The limit alone does not bound the tries of such an item. Past the limit no try puts it on offer
again, so it is taken there only by workers that have not given it back since. The bound is the
limit, one more for every worker but the first, and one more for every worker lost with the item.
-/

import Mathlib

namespace EntityResolution.RetriedItems

section Hands

variable {D X : Type*} [Fintype D] (p : X → Bool)

/-- How many workers have something in hand that meets a condition. -/
def countHands (hands : D → Option X) : ℕ :=
  ∑ worker, ((hands worker).any p).toNat

theorem countHands_le_card (hands : D → Option X) : countHands p hands ≤ Fintype.card D := by
  have hone : ∀ worker ∈ Finset.univ, ((hands worker).any p).toNat ≤ 1 :=
    fun worker _ => Bool.toNat_le _
  calc countHands p hands ≤ Finset.univ.card • 1 := Finset.sum_le_card_nsmul _ _ _ hone
    _ = Fintype.card D := by rw [smul_eq_mul, mul_one, Finset.card_univ]

theorem countHands_eq_zero_iff {hands : D → Option X} :
    countHands p hands = 0 ↔ ∀ worker x, hands worker = some x → p x = false := by
  rw [countHands, Finset.sum_eq_zero_iff]
  constructor
  · intro hzero worker x hx
    have hworker := hzero worker (Finset.mem_univ worker)
    rw [hx, Option.any_some] at hworker
    exact Bool.toNat_eq_zero.mp hworker
  · intro hnone worker _
    cases hhand : hands worker with
    | none => rfl
    | some x =>
        rw [Option.any_some, hnone worker x hhand]
        rfl

/-- A stricter condition is met by no worker when a weaker one is met by none. -/
theorem countHands_eq_zero_of_imp {q : X → Bool} {hands : D → Option X}
    (himp : ∀ x, p x = true → q x = true) (hzero : countHands q hands = 0) :
    countHands p hands = 0 := by
  rw [countHands_eq_zero_iff] at hzero ⊢
  intro worker x hx
  rw [← Bool.not_eq_true]
  intro hp
  have hq := hzero worker x hx
  rw [himp x hp] at hq
  cases hq

/-- One worker's hand changes the count by what was in it and what is. -/
theorem countHands_update [DecidableEq D] (hands : D → Option X) (worker : D) (hand : Option X) :
    countHands p (Function.update hands worker hand) + ((hands worker).any p).toNat =
      countHands p hands + (hand.any p).toNat := by
  have hcomp : (fun other => ((Function.update hands worker hand other).any p).toNat) =
      Function.update (fun other => ((hands other).any p).toNat) worker (hand.any p).toNat :=
    Function.comp_update (fun hand : Option X => (hand.any p).toNat) hands worker hand
  have hsum := Finset.sum_erase_add Finset.univ (fun other => ((hands other).any p).toNat)
    (Finset.mem_univ worker)
  rw [countHands, hcomp, Finset.sum_update_of_mem (Finset.mem_univ worker),
    Finset.sdiff_singleton_eq_erase,
    countHands, ← hsum]
  omega

end Hands

/-- An item: whether it is on offer, how often it was taken, how many workers have it, and how many
were lost with it. -/
structure Item where
  offered : Bool
  taken : ℕ
  held : ℕ
  lost : ℕ

/-- What can happen to an item with a limit on its tries. -/
inductive Step (limit : ℕ) : Item → Item → Prop
  | take {taken held lost : ℕ} :
      Step limit ⟨true, taken, held, lost⟩ ⟨true, taken + 1, held + 1, lost⟩
  | settle {offered : Bool} {taken held lost : ℕ} :
      Step limit ⟨offered, taken, held + 1, lost⟩ ⟨false, taken, held, lost⟩
  | retry {offered : Bool} {taken held lost : ℕ} (hbelow : taken < limit) :
      Step limit ⟨offered, taken, held + 1, lost⟩ ⟨true, taken, held, lost⟩
  | lose {offered : Bool} {taken held lost : ℕ} :
      Step limit ⟨offered, taken, held + 1, lost⟩ ⟨offered, taken, held, lost + 1⟩

/-- The tries are within their bound, and within a smaller one while the item is on offer. -/
structure Item.Bounded (limit workers : ℕ) (item : Item) : Prop where
  offered : item.offered = true → item.taken + 1 ≤ limit + item.held + item.lost
  always : item.taken + 1 ≤ limit + workers + item.lost

variable {limit workers : ℕ} {item next : Item}

theorem bounded_new (hlimit : 0 < limit) : Item.Bounded limit workers ⟨true, 0, 0, 0⟩ :=
  ⟨fun _ => by dsimp only; omega, by dsimp only; omega⟩

/-- A step keeps the bound, when no more workers have the item than there are. -/
theorem Step.bounded (hstep : Step limit item next) (hworkers : next.held ≤ workers)
    (hitem : item.Bounded limit workers) : next.Bounded limit workers := by
  obtain ⟨hoffered, halways⟩ := hitem
  cases hstep with
  | take =>
      have hbefore := hoffered rfl
      dsimp only at hbefore hworkers halways
      constructor
      · intro _
        dsimp only
        omega
      · dsimp only
        omega
  | settle => exact ⟨fun hno => Bool.noConfusion hno, halways⟩
  | retry hbelow =>
      constructor
      · intro _
        dsimp only
        omega
      · exact halways
  | lose =>
      dsimp only at hoffered halways
      constructor
      · intro hyes
        have hbefore := hoffered hyes
        dsimp only
        omega
      · dsimp only
        omega

end EntityResolution.RetriedItems
