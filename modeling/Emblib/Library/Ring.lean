import Mathlib.Logic.Function.Basic
import Emblib.Library.Counter

/-! Windows of a ring of slots: the contents of a buffer that starts somewhere in the ring
and may wrap around its end. The lemmas say how a window grows, shrinks and moves at
either end, and that slots outside of it do not matter. -/
namespace Emblib.Rings
open Counters

/-- The `count` slots of the ring from `front` on. -/
def window (size : Nat) (slots : Nat → A) (front count : Nat) : List A :=
  (List.range count).map fun i => slots ((front + i) % size)

variable {A : Type} {size front count : Nat} {slots other : Nat → A} {value : A}

@[simp] theorem window_length : (window size slots front count).length = count := by
  rw [window, List.length_map, List.length_range]

@[simp] theorem window_zero : window size slots front 0 = [] := rfl

theorem window_getElem? (inside : i < count) :
    (window size slots front count)[i]? = some (slots ((front + i) % size)) := by
  rw [window, List.getElem?_map, List.getElem?_range inside, Option.map_some]

theorem window_snoc : window size slots front (count + 1) =
    window size slots front count ++ [slots ((front + count) % size)] := by
  rw [window, List.range_succ, List.map_append, List.map_singleton, window]

theorem window_cons : window size slots front (count + 1) =
    slots (front % size) :: window size slots (front + 1) count := by
  rw [window, List.range_succ_eq_map, List.map_cons, List.map_map, window, Nat.add_zero]
  congr 1
  refine List.map_congr_left fun i _ => ?_
  simp only [Function.comp_apply, Nat.succ_eq_add_one]
  rw [Nat.add_assoc, Nat.add_comm 1 i]

/-- Only the position in the ring matters. -/
theorem window_position (same : front % size = start % size) :
    window size slots front count = window size slots start count := by
  refine List.map_congr_left fun i _ => ?_
  rw [Nat.add_mod, same, ← Nat.add_mod]

theorem window_congr (same : ∀ i, i < count → slots ((front + i) % size) = other ((front + i) % size)) :
    window size slots front count = window size other front count :=
  List.map_congr_left fun i member => same i (List.mem_range.mp member)

theorem window_replicate (same : ∀ i, i < count → slots ((front + i) % size) = value) :
    window size slots front count = List.replicate count value := by
  refine List.eq_replicate_iff.mpr ⟨window_length, fun slot member => ?_⟩
  obtain ⟨i, below, rfl⟩ := List.mem_map.mp member
  exact same i (List.mem_range.mp below)

/-- A slot behind the window. -/
theorem window_update (outside : count ≤ k) (inside : k < size) :
    window size (Function.update slots ((front + k) % size) value) front count =
      window size slots front count := by
  refine window_congr fun i below => ?_
  exact Function.update_of_ne (slot_ne (by omega) (Nat.le_add_right front i) (by omega)
    (Nat.le_add_right front k) (by omega)) _ _

/-! ## Growing and shrinking at the ends -/

theorem window_pushBack (room : count < size) :
    window size (Function.update slots ((front + count) % size) value) front (count + 1) =
      window size slots front count ++ [value] := by
  rw [window_snoc, window_update (Nat.le_refl count) room, Function.update_self]

theorem window_dropLast : window size slots front count =
    (window size slots front (count + 1)).dropLast := by
  rw [window_snoc, List.dropLast_concat]

theorem window_tail : window size slots (front + 1) count =
    (window size slots front (count + 1)).tail := by
  rw [window_cons, List.tail_cons]

/-- The position before `front`. -/
theorem before_position (positive : 0 < size) :
    ((front + size - 1) % size + 1) % size = front % size := by
  rw [Nat.mod_add_mod, Nat.sub_add_cancel (by omega), Nat.add_mod_right]

theorem window_pushFront (room : count < size) :
    window size (Function.update slots ((front + size - 1) % size) value) ((front + size - 1) % size)
        (count + 1) = value :: window size slots front count := by
  have behind : front + size - 1 = front + (size - 1) := by omega
  rw [window_cons, Nat.mod_mod, Function.update_self, window_position (before_position (by omega)),
    behind, window_update (by omega) (by omega)]

/-- A full ring overwrites its first slot and starts at the next. -/
theorem window_overwriteBack (positive : 0 < size) :
    window size (Function.update slots ((front + size) % size) value) (front + 1) size =
      (window size slots front size).tail ++ [value] := by
  obtain ⟨rest, rfl⟩ := Nat.exists_eq_succ_of_ne_zero (Nat.pos_iff_ne_zero.mp positive)
  rw [Nat.succ_eq_add_one, ← window_tail]
  have next : front + (rest + 1) = front + 1 + rest := by omega
  rw [next]
  exact window_pushBack (Nat.lt_succ_self rest)

/-- A full ring overwrites its last slot and starts there. -/
theorem window_overwriteFront (positive : 0 < size) :
    window size (Function.update slots ((front + size - 1) % size) value) ((front + size - 1) % size)
        size = value :: (window size slots front size).dropLast := by
  obtain ⟨rest, rfl⟩ := Nat.exists_eq_succ_of_ne_zero (Nat.pos_iff_ne_zero.mp positive)
  rw [Nat.succ_eq_add_one, ← window_dropLast]
  exact window_pushFront (Nat.lt_succ_self rest)

end Emblib.Rings
