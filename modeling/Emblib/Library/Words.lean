import Mathlib.Data.Fintype.Basic
import Mathlib.Logic.Function.Basic

/-! Objects that are copied word by word, in any order, while other threads run. An
object is a function from its words; a copy in progress has a set of words left. -/
namespace Emblib.Words

variable {I W : Type} {left : Finset I} {value words : I → W}

/-- The words that are not left have been copied from the value. -/
def Copied (left : Finset I) (value words : I → W) : Prop := ∀ i, i ∉ left → words i = value i

theorem copied_univ [Fintype I] : Copied Finset.univ value words :=
  fun i missing => absurd (Finset.mem_univ i) missing

/-- One more word is copied. -/
theorem copied_erase [DecidableEq I] (copied : Copied left value words) (i : I) :
    Copied (left.erase i) value (Function.update words i (value i)) := by
  intro j copiedNow
  by_cases same : j = i
  · subst same
    exact Function.update_self _ _ _
  · rw [Function.update_of_ne same]
    exact copied j fun member => copiedNow (Finset.mem_erase.mpr ⟨same, member⟩)

/-- A copy with no words left is the value. -/
theorem copied_empty (copied : Copied ∅ value words) : words = value :=
  funext fun i => copied i (Finset.notMem_empty i)

end Emblib.Words
