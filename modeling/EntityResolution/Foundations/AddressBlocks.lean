/-
# Blocks of addresses

A block is the set of addresses of one width that begin with the same bits, written as one of
them and the number of those bits. Membership compares leading bits, so it is a statement about
quotients, and a test of an octet or a segment against a constant, an interval or under a mask
is one about quotients too: the lemmas here bring both to that form.

An address inside a wider one is a block as well: the wider address begins with fixed bits and
goes on with the narrower one.
-/

import Mathlib

namespace EntityResolution.AddressBlocks

variable {w : ℕ}

/-- The addresses that agree with `base` in the first `length` bits. -/
structure Block (w : ℕ) where
  base : BitVec w
  length : ℕ
  length_le : length ≤ w

/-- An address of the block. -/
def Block.Contains (block : Block w) (addr : BitVec w) : Prop :=
  addr >>> (w - block.length) = block.base >>> (w - block.length)

instance (block : Block w) (addr : BitVec w) : Decidable (block.Contains addr) :=
  inferInstanceAs (Decidable (_ = _))

theorem Block.contains_iff {block : Block w} {addr : BitVec w} :
    block.Contains addr ↔
      addr.toNat / 2 ^ (w - block.length) = block.base.toNat / 2 ^ (w - block.length) := by
  rw [Contains, ← BitVec.toNat_inj, BitVec.toNat_ushiftRight, BitVec.toNat_ushiftRight,
    Nat.shiftRight_eq_div_pow, Nat.shiftRight_eq_div_pow]

theorem and_mask_eq_iff {addr base : BitVec w} {k : ℕ} (haligned : 2 ^ k ∣ base.toNat) :
    addr &&& (BitVec.allOnes w <<< k) = base ↔ addr.toNat / 2 ^ k = base.toNat / 2 ^ k := by
  have hpos : 0 < 2 ^ k := Nat.two_pow_pos k
  have hvalue : (addr &&& (BitVec.allOnes w <<< k)).toNat = addr.toNat / 2 ^ k * 2 ^ k := by
    rw [← BitVec.shiftLeft_ushiftRight, BitVec.toNat_shiftLeft, BitVec.toNat_ushiftRight,
      Nat.shiftRight_eq_div_pow, Nat.shiftLeft_eq]
    apply Nat.mod_eq_of_lt
    exact lt_of_le_of_lt (Nat.div_mul_le_self _ _) addr.isLt
  rw [← BitVec.toNat_inj, hvalue, Nat.mul_comm]
  constructor
  · intro hsame
    rw [← hsame, Nat.mul_div_cancel_left _ hpos]
  · intro hsame
    rw [hsame, Nat.mul_div_cancel' haligned]

/-- The bits of a field of an address. -/
theorem toNat_field (addr : BitVec w) (start len : ℕ) :
    (addr.extractLsb' start len).toNat = addr.toNat / 2 ^ start % 2 ^ len := by
  rw [BitVec.extractLsb'_toNat, Nat.shiftRight_eq_div_pow]

/-- The block of the wider addresses that go on, after `lead`, with an address of a block. -/
def Block.under {v : ℕ} (lead : BitVec v) (block : Block w) : Block (v + w) where
  base := lead ++ block.base
  length := v + block.length
  length_le := Nat.add_le_add_left block.length_le v

theorem toNat_append_eq {v : ℕ} (lead : BitVec v) (addr : BitVec w) :
    (lead ++ addr).toNat = 2 ^ w * lead.toNat + addr.toNat := by
  rw [BitVec.toNat_append, Nat.two_pow_add_eq_or_of_lt addr.isLt, Nat.shiftLeft_eq, Nat.mul_comm]

theorem Block.contains_under {v : ℕ} {lead lead' : BitVec v} {block : Block w} {addr : BitVec w} :
    (block.under lead).Contains (lead' ++ addr) ↔ lead' = lead ∧ block.Contains addr := by
  have hrest : v + w - (v + block.length) = w - block.length := by omega
  have hsplit : 2 ^ w = 2 ^ (w - block.length) * 2 ^ block.length := by
    rw [← pow_add, Nat.sub_add_cancel block.length_le]
  -- the leading bits are the high part of the quotient, and the block's are the low part
  have hquotient (first : BitVec v) (rest : BitVec w) :
      (first ++ rest).toNat / 2 ^ (w - block.length) =
        2 ^ block.length * first.toNat + rest.toNat / 2 ^ (w - block.length) := by
    rw [toNat_append_eq, hsplit, Nat.mul_assoc, Nat.mul_add_div (Nat.two_pow_pos _)]
  have hlow (rest : BitVec w) : rest.toNat / 2 ^ (w - block.length) < 2 ^ block.length := by
    rw [Nat.div_lt_iff_lt_mul (Nat.two_pow_pos _), Nat.mul_comm, ← hsplit]
    exact rest.isLt
  rw [Block.contains_iff, Block.contains_iff, under, hrest, hquotient, hquotient]
  constructor
  · intro hsame
    have hhigh := congrArg (· / 2 ^ block.length) hsame
    simp only [Nat.mul_add_div (Nat.two_pow_pos _), Nat.div_eq_of_lt (hlow _),
      Nat.add_zero] at hhigh
    have hlead : lead' = lead := BitVec.toNat_inj.mp hhigh
    subst hlead
    exact ⟨rfl, Nat.add_left_cancel hsame⟩
  · rintro ⟨rfl, hsame⟩
    rw [hsame]

theorem append_extractLsb'_eq {v : ℕ} (addr : BitVec (v + w)) :
    addr.extractLsb' w v ++ addr.extractLsb' 0 w = addr := by
  rw [← BitVec.toNat_inj, toNat_append_eq, toNat_field, toNat_field, pow_zero, Nat.div_one]
  have hlt : addr.toNat / 2 ^ w < 2 ^ v := by
    rw [Nat.div_lt_iff_lt_mul (Nat.two_pow_pos _), ← pow_add]
    exact addr.isLt
  rw [Nat.mod_eq_of_lt hlt]
  exact Nat.div_add_mod addr.toNat (2 ^ w)

end EntityResolution.AddressBlocks
