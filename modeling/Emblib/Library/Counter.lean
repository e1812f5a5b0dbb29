import Mathlib.Algebra.Ring.Nat

/-! Free-running counters: a natural count kept modulo `2 ^ w`. Counts that are close to
each other can be told apart and subtracted, and the low bits of a counter pick a slot of
a ring, a different one for each count in a window of the ring's size. -/
namespace Emblib.Counters

variable {w c low first second : Nat}

/-- The difference of two counters is the difference of the counts. -/
theorem ofNat_sub_toNat (le : first ≤ second) (close : second - first < 2 ^ w) :
    (BitVec.ofNat w second - BitVec.ofNat w first).toNat = second - first := by
  obtain ⟨difference, rfl⟩ := Nat.exists_eq_add_of_le le
  rw [Nat.add_sub_cancel_left] at close ⊢
  rw [BitVec.ofNat_add, BitVec.add_comm, BitVec.add_sub_cancel, BitVec.toNat_ofNat]
  exact Nat.mod_eq_of_lt close

/-- Equal counters of close counts are of equal counts. -/
theorem ofNat_close (same : BitVec.ofNat w first = BitVec.ofNat w second) (le : first ≤ second)
    (close : second - first < 2 ^ w) : first = second := by
  have difference := ofNat_sub_toNat le close
  rw [same, BitVec.sub_self, BitVec.toNat_zero] at difference
  omega

theorem ofNat_succ (count : Nat) : BitVec.ofNat w count + 1#w = BitVec.ofNat w (count + 1) :=
  (BitVec.ofNat_add _ _).symm

/-- Masking a counter gives the count modulo the size of the ring. -/
theorem mask_ofNat (le : c ≤ w) (count : Nat) :
    (BitVec.ofNat w count).toNat &&& (2 ^ c - 1) = count % 2 ^ c := by
  rw [Nat.and_two_pow_sub_one_eq_mod, BitVec.toNat_ofNat,
    Nat.mod_mod_of_dvd _ (Nat.pow_dvd_pow 2 le)]

/-- The counts in a window of the ring's size have different slots. -/
theorem slot_ne {size : Nat} (different : first ≠ second) (lowFirst : low ≤ first)
    (highFirst : first < low + size) (lowSecond : low ≤ second) (highSecond : second < low + size) :
    first % size ≠ second % size := by
  intro same
  rcases Nat.le_total first second with le | le
  · have multiple := Nat.sub_mod_eq_zero_of_mod_eq same.symm
    rw [Nat.mod_eq_of_lt (by omega)] at multiple
    omega
  · have multiple := Nat.sub_mod_eq_zero_of_mod_eq same
    rw [Nat.mod_eq_of_lt (by omega)] at multiple
    omega

end Emblib.Counters
