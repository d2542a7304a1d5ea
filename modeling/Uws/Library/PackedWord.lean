import Mathlib

/-! A machine word that keeps a few flag bits above a counter. -/

namespace Uws.PackedWord

variable {v w : Nat}

/-- The word with the given flags above the counter `n`, taken modulo the counter's width. -/
def pack (flags : BitVec v) (n : Nat) : BitVec (v + w) :=
  flags ++ BitVec.ofNat w n

theorem toNat_pack (flags : BitVec v) (n : Nat) (bound : n < 2 ^ w) :
    (pack flags n : BitVec (v + w)).toNat = flags.toNat * 2 ^ w + n := by
  simp only [pack, BitVec.toNat_append, BitVec.toNat_ofNat, Nat.mod_eq_of_lt bound]
  rw [Nat.shiftLeft_eq, Nat.mul_comm, Nat.two_pow_add_eq_or_of_lt bound]

theorem pack_or (flags more : BitVec v) (n : Nat) :
    (pack flags n ||| pack more 0 : BitVec (v + w)) = pack (flags ||| more) n := by
  simp [pack, BitVec.or_append]

theorem pack_and_flags (flags keep : BitVec v) (n : Nat) :
    (pack flags n &&& (keep ++ BitVec.allOnes w) : BitVec (v + w)) = pack (flags &&& keep) n := by
  simp [pack, BitVec.and_append]

theorem pack_and_only (flags keep : BitVec v) (n : Nat) :
    (pack flags n &&& pack keep 0 : BitVec (v + w)) = pack (flags &&& keep) 0 := by
  simp [pack, BitVec.and_append]

theorem pack_add (flags : BitVec v) (n k : Nat) (bound : n + k < 2 ^ w) :
    (pack flags n + BitVec.ofNat (v + w) k : BitVec (v + w)) = pack flags (n + k) := by
  have small : n < 2 ^ w := by omega
  have whole := (pack flags (n + k) : BitVec (v + w)).isLt
  apply BitVec.eq_of_toNat_eq
  rw [toNat_pack flags (n + k) bound] at whole ⊢
  have other : k < 2 ^ (v + w) := by omega
  rw [BitVec.toNat_add, toNat_pack flags n small, BitVec.toNat_ofNat, Nat.mod_eq_of_lt other,
    Nat.add_assoc, Nat.mod_eq_of_lt whole]

theorem pack_add_carry (flags : BitVec v) (n k : Nat) (small : n < 2 ^ w) (carry : 2 ^ w ≤ n + k)
    (once : n + k < 2 ^ w + 2 ^ w) (room : flags.toNat + 1 < 2 ^ v) :
    (pack flags n + BitVec.ofNat (v + w) k : BitVec (v + w)) = pack (flags + 1#v) (n + k - 2 ^ w) := by
  have next : (flags + 1#v).toNat = flags.toNat + 1 := by
    have wide : 1 < 2 ^ v := by omega
    rw [BitVec.toNat_add, BitVec.toNat_ofNat, Nat.mod_eq_of_lt wide, Nat.mod_eq_of_lt room]
  have left : n + k - 2 ^ w < 2 ^ w := by omega
  have total := (pack (flags + 1#v) (n + k - 2 ^ w) : BitVec (v + w)).isLt
  apply BitVec.eq_of_toNat_eq
  rw [toNat_pack _ _ left, next] at total ⊢
  have product : (flags.toNat + 1) * 2 ^ w = flags.toNat * 2 ^ w + 2 ^ w := Nat.succ_mul _ _
  have other : k < 2 ^ (v + w) := by omega
  rw [BitVec.toNat_add, toNat_pack flags n small, BitVec.toNat_ofNat, Nat.mod_eq_of_lt other]
  rw [show flags.toNat * 2 ^ w + n + k = (flags.toNat + 1) * 2 ^ w + (n + k - 2 ^ w) by omega,
    Nat.mod_eq_of_lt total]

theorem pack_inj (flags more : BitVec v) (n k : Nat) (hn : n < 2 ^ w) (hk : k < 2 ^ w)
    (same : (pack flags n : BitVec (v + w)) = pack more k) : flags = more ∧ n = k := by
  have value := congrArg BitVec.toNat same
  rw [toNat_pack flags n hn, toNat_pack more k hk] at value
  have positive : 0 < 2 ^ w := by omega
  have quotient := congrArg (· / 2 ^ w) value
  have remainder := congrArg (· % 2 ^ w) value
  simp only [Nat.mul_comm _ (2 ^ w), Nat.mul_add_div positive, Nat.div_eq_of_lt hn,
    Nat.div_eq_of_lt hk, Nat.add_zero] at quotient
  simp only [Nat.mul_comm _ (2 ^ w), Nat.mul_add_mod, Nat.mod_eq_of_lt hn,
    Nat.mod_eq_of_lt hk] at remainder
  exact ⟨BitVec.eq_of_toNat_eq quotient, remainder⟩

end Uws.PackedWord
