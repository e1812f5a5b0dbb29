import Mathlib.Data.List.Basic

/-! Binary search in a sequence whose elements with a property come first. -/
namespace Emblib.BinarySearch

variable {A : Type} {before : A → Bool} {items : List A} {point : Nat}

/-- The search among the `count` items from `first` on. A round halves the count. -/
def search (before : A → Bool) (items : List A) : (fuel first count : Nat) → Nat
  | 0, first, _ => first
  | fuel + 1, first, count =>
    if count = 0 then first
    else
      let half := count / 2
      match items[first + half]? with
      | none => first
      | some item =>
        if before item then search before items fuel (first + half + 1) (count - half - 1)
        else search before items fuel first half

/-- The first position without the property. -/
def lowerBound (before : A → Bool) (items : List A) : Nat := search before items items.length 0 items.length

/-- The items with the property are those before the point. -/
def Partitioned (before : A → Bool) (items : List A) (point : Nat) : Prop :=
  point ≤ items.length ∧ ∀ i item, items[i]? = some item → (before item = true ↔ i < point)

/-- The search keeps the point between its bounds. -/
theorem search_eq (partitioned : Partitioned before items point) (fuel first count : Nat)
    (enough : count ≤ fuel) (inside : first + count ≤ items.length) (low : first ≤ point)
    (high : point ≤ first + count) : search before items fuel first count = point := by
  induction fuel generalizing first count with
  | zero =>
    obtain rfl := Nat.le_zero.mp enough
    exact Nat.le_antisymm low high
  | succ fuel ih =>
    unfold search
    split
    · omega
    · rename_i some
      have middle : first + count / 2 < items.length := by omega
      have side := partitioned.2 _ _ (List.getElem?_eq_getElem middle)
      simp only [List.getElem?_eq_getElem middle]
      split
      · rename_i left
        have past := side.mp left
        exact ih _ _ (by omega) (by omega) (by omega) (by omega)
      · rename_i right
        have notPast := mt side.mpr right
        exact ih _ _ (by omega) (by omega) low (by omega)

theorem lowerBound_eq (partitioned : Partitioned before items point) : lowerBound before items = point :=
  search_eq partitioned _ _ _ (Nat.le_refl _) (Nat.le_of_eq (Nat.zero_add _)) (Nat.zero_le _)
    (Nat.le_trans partitioned.1 (Nat.le_of_eq (Nat.zero_add _).symm))

/-- What is sorted by rank is partitioned by any rank. -/
theorem partitioned_rank {rank : A → Nat} (sorted : items.Pairwise fun a b => rank a ≤ rank b) (bound : Nat)
    (below : ∀ item, before item = true ↔ rank item < bound) :
    ∃ point, Partitioned before items point := by
  induction items with
  | nil => exact ⟨0, Nat.le_refl _, fun i item present => nomatch present⟩
  | cons head tail ih =>
    obtain ⟨above, rest⟩ := List.pairwise_cons.mp sorted
    obtain ⟨point, inside, sides⟩ := ih rest
    by_cases early : rank head < bound
    · refine ⟨point + 1, Nat.succ_le_succ inside, fun i item present => ?_⟩
      cases i with
      | zero =>
        obtain rfl := Option.some.inj present
        simp [below, early]
      | succ i => exact (sides i item present).trans Nat.succ_lt_succ_iff.symm
    · refine ⟨0, Nat.zero_le _, fun i item present => ?_⟩
      have late : ¬ rank item < bound := by
        rcases List.mem_cons.mp (List.mem_of_getElem? present) with rfl | later
        · exact early
        · have higher := above item later
          omega
      simp [below, late]

end Emblib.BinarySearch
