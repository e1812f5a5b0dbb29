import Mathlib.Data.Nat.Bitwise

/-! Numbers as sets of bits: what a sum of such sets counts more often than their union does, and sets that
consist of the lowest bits. -/
namespace Emblib.BitSets

variable {a b i k seen : Nat} {masks : List Nat}

/-- A sum counts the common bits twice. -/
theorem or_add_and (a b : Nat) : (a ||| b) + (a &&& b) = a + b := by
  induction a using Nat.strong_induction_on generalizing b with
  | _ a ih =>
    by_cases zero : a = 0
    · simp [zero]
    have halves := ih (a / 2) (by omega) (b / 2)
    rw [← Nat.or_div_two, ← Nat.and_div_two] at halves
    have orLow : (a ||| b) % 2 = 1 ↔ a % 2 = 1 ∨ b % 2 = 1 := Nat.or_mod_two_eq_one
    have andLow : (a &&& b) % 2 = 1 ↔ a % 2 = 1 ∧ b % 2 = 1 := Nat.and_mod_two_eq_one
    omega

/-- The bits of the masks that an earlier mask has too, counted each time. -/
def recounted : Nat → List Nat → Nat
  | _, [] => 0
  | seen, mask :: masks => (seen &&& mask) + recounted (seen ||| mask) masks

theorem sum_recounted (seen : Nat) (masks : List Nat) :
    seen + masks.sum = masks.foldl (· ||| ·) seen + recounted seen masks := by
  induction masks generalizing seen with
  | nil => rfl
  | cons mask masks ih =>
    have split := or_add_and seen mask
    have rest := ih (seen ||| mask)
    simp only [List.sum_cons, List.foldl_cons, recounted]
    omega

/-- Nothing is counted again where the masks are disjoint. -/
theorem recounted_eq_zero : recounted seen masks = 0 ↔
    (∀ mask ∈ masks, seen &&& mask = 0) ∧ masks.Pairwise fun a b => a &&& b = 0 := by
  induction masks generalizing seen with
  | nil => simp [recounted]
  | cons mask masks ih =>
    have apart (other : Nat) : (seen ||| mask) &&& other = 0 ↔ seen &&& other = 0 ∧ mask &&& other = 0 := by
      rw [Nat.and_or_distrib_right, Nat.or_eq_zero_iff]
    rw [recounted, Nat.add_eq_zero_iff, ih, List.forall_mem_cons, List.pairwise_cons]
    simp only [apart]
    constructor
    · rintro ⟨first, others, rest⟩
      exact ⟨⟨first, fun other member => (others other member).1⟩,
        fun other member => (others other member).2, rest⟩
    · rintro ⟨⟨first, others⟩, apartFromFirst, rest⟩
      exact ⟨first, fun other member => ⟨others other member, apartFromFirst other member⟩, rest⟩

theorem foldl_or_lt (first : seen < 2 ^ k) (rest : ∀ mask ∈ masks, mask < 2 ^ k) :
    masks.foldl (· ||| ·) seen < 2 ^ k := by
  induction masks generalizing seen with
  | nil => exact first
  | cons mask masks ih =>
    obtain ⟨below, others⟩ := List.forall_mem_cons.mp rest
    exact ih (Nat.or_lt_two_pow first below) others

/-- Adding one to the lowest bits carries into the next one. -/
theorem lowest_bits (carries : a &&& (a + 1) = 0) : ∃ k, a + 1 = 2 ^ k := by
  induction a using Nat.strong_induction_on with
  | _ a ih =>
    by_cases odd : a % 2 = 1
    · have half : a / 2 &&& (a / 2 + 1) = 0 := by
        have next : (a + 1) / 2 = a / 2 + 1 := by omega
        rw [← next, ← Nat.and_div_two, carries]
      obtain ⟨k, power⟩ := ih (a / 2) (by omega) half
      exact ⟨k + 1, by rw [Nat.pow_succ, ← power]; omega⟩
    · -- the successor of an even number has all of its bits
      have split := or_add_and a (a + 1)
      have halves : (a ||| (a + 1)) / 2 = a / 2 := by
        have next : (a + 1) / 2 = a / 2 := by omega
        rw [Nat.or_div_two, next, Nat.or_self]
      exact ⟨0, by omega⟩

end Emblib.BitSets
