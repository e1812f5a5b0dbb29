import Mathlib.Data.List.Sort
import Mathlib.Order.Defs.LinearOrder

/-! The element of a given rank in a list: where it stands in the sorted list bounds how many
elements are smaller and how many are larger. -/
namespace Emblib.Ranks

variable {A : Type} {l sorted : List A} {k : Nat} {x : A}

theorem split_at (here : l[k]? = some x) :
    ∃ before after, l = before ++ x :: after ∧ before.length = k := by
  obtain ⟨inside, rfl⟩ := List.getElem?_eq_some_iff.mp here
  refine ⟨l.take k, l.drop (k + 1), ?_, List.length_take_of_le inside.le⟩
  rw [← List.drop_eq_getElem_cons inside, List.take_append_drop]

variable [LinearOrder A]

theorem smaller_le (ascending : sorted.Pairwise (· ≤ ·)) (here : sorted[k]? = some x) :
    sorted.countP (· < x) ≤ k := by
  obtain ⟨before, after, rfl, rfl⟩ := split_at here
  obtain ⟨_, behind, _⟩ := List.pairwise_append.mp ascending
  have none : (x :: after).countP (· < x) = 0 := by
    rw [List.countP_eq_zero]
    intro y member
    rw [decide_eq_true_eq, not_lt]
    rcases List.mem_cons.mp member with rfl | later
    · exact le_rfl
    · exact (List.pairwise_cons.mp behind).1 y later
  rw [List.countP_append, none]
  exact List.countP_le_length

theorem larger_le (ascending : sorted.Pairwise (· ≤ ·)) (here : sorted[k]? = some x) :
    sorted.countP (x < ·) + k + 1 ≤ sorted.length := by
  obtain ⟨before, after, rfl, rfl⟩ := split_at here
  obtain ⟨_, _, across⟩ := List.pairwise_append.mp ascending
  have none : before.countP (x < ·) = 0 := by
    rw [List.countP_eq_zero]
    intro y member
    rw [decide_eq_true_eq, not_lt]
    exact across y member x List.mem_cons_self
  have self : ¬ (fun y => decide (x < y)) x = true := by simp
  have rest : after.countP (x < ·) ≤ after.length := List.countP_le_length
  rw [List.countP_append, none, List.countP_cons_of_neg (p := fun y => decide (x < y)) self,
    List.length_append, List.length_cons]
  omega

/-- The element of rank `k`. -/
theorem sorted_rank (here : (l.insertionSort (· ≤ ·))[k]? = some x) :
    x ∈ l ∧ l.countP (· < x) ≤ k ∧ l.countP (x < ·) + k + 1 ≤ l.length := by
  have same := List.perm_insertionSort (· ≤ ·) l
  have ascending := List.pairwise_insertionSort (· ≤ ·) l
  have smaller := smaller_le ascending here
  have larger := larger_le ascending here
  rw [same.countP_eq] at smaller larger
  rw [same.length_eq] at larger
  exact ⟨same.mem_iff.mp (List.mem_of_getElem? here), smaller, larger⟩

end Emblib.Ranks
