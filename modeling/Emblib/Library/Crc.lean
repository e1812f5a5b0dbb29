import Mathlib.Algebra.Ring.Nat
import Mathlib.Logic.Function.Iterate

/-! Reflected cyclic redundancy checks of any width. A register is shifted right once
per bit; a polynomial whose top bit is set makes the shift invertible. The register is
linear in what is fed to it, so two messages are compared through the register of their
difference, and a difference no longer than the register cannot leave it at zero. -/
namespace Emblib.Crc

/-- One bit: shift right, subtracting the polynomial when a one falls out. -/
def shift (poly crc : BitVec w) : BitVec w :=
  (crc >>> 1) ^^^ (if crc.getLsbD 0 then poly else 0#w)

/-- One symbol of `k` bits, the least significant bit first. -/
def update (poly crc : BitVec w) (symbol : BitVec k) : BitVec w :=
  (shift poly)^[k] (crc ^^^ symbol.setWidth w)

/-- The register after a message. -/
def register (poly crc : BitVec w) (message : List (BitVec k)) : BitVec w :=
  message.foldl (update poly) crc

variable {w k : Nat} {poly : BitVec w}

/-- Every bit from position `size` on is clear. -/
def Below (size : Nat) (crc : BitVec w) : Prop := ∀ index, size ≤ index → crc.getLsbD index = false

theorem shift_xor (left right : BitVec w) :
    shift poly (left ^^^ right) = shift poly left ^^^ shift poly right := by
  unfold shift
  rw [BitVec.getLsbD_xor, BitVec.ushiftRight_xor_distrib]
  apply BitVec.eq_of_getLsbD_eq
  intro index bound
  cases left.getLsbD 0 <;> cases right.getLsbD 0 <;>
    simp only [Bool.xor_self, Bool.xor_false, Bool.false_xor, Bool.false_eq_true, ↓reduceIte,
      BitVec.xor_zero, BitVec.getLsbD_xor]
  · cases (left >>> 1).getLsbD index <;> cases (right >>> 1).getLsbD index <;>
      cases poly.getLsbD index <;> rfl
  · cases (left >>> 1).getLsbD index <;> cases (right >>> 1).getLsbD index <;>
      cases poly.getLsbD index <;> rfl
  · cases (left >>> 1).getLsbD index <;> cases (right >>> 1).getLsbD index <;>
      cases poly.getLsbD index <;> rfl

theorem shifts_xor (count : Nat) (left right : BitVec w) :
    (shift poly)^[count] (left ^^^ right) =
      (shift poly)^[count] left ^^^ (shift poly)^[count] right := by
  induction count generalizing left right with
  | zero => rfl
  | succ count ih => simp only [Function.iterate_succ, Function.comp_apply, shift_xor, ih]

/-- A shift can only reach zero from zero: the polynomial's top bit survives it. -/
theorem shift_eq_zero (top : poly.msb = true) (zero : shift poly crc = 0#w) : crc = 0#w := by
  unfold shift at zero
  cases low : crc.getLsbD 0 with
  | true =>
    have positive : 0 < w := by
      by_contra empty
      obtain rfl : w = 0 := by omega
      rw [BitVec.of_length_zero (x := poly)] at top
      exact absurd top (by decide)
    have bit := congrArg BitVec.msb zero
    simp [low, BitVec.msb_xor, top, positive] at bit
  | false =>
    simp only [low, Bool.false_eq_true, ↓reduceIte, BitVec.xor_zero] at zero
    apply BitVec.eq_of_getLsbD_eq
    intro index bound
    cases index with
    | zero => simp [low]
    | succ index =>
      have bit := congrArg (fun bits => bits.getLsbD index) zero
      simpa [Nat.add_comm 1 index] using bit

theorem xor_eq_zero {left right : BitVec w} (zero : left ^^^ right = 0#w) : left = right := by
  have cancelled := congrArg (· ^^^ right) zero
  simpa [BitVec.xor_assoc] using cancelled

theorem shift_injective (top : poly.msb = true) : Function.Injective (shift poly) := by
  intro left right same
  apply xor_eq_zero
  apply shift_eq_zero top
  rw [shift_xor, same, BitVec.xor_self]

theorem shifts_injective (top : poly.msb = true) (count : Nat) :
    Function.Injective ((shift poly)^[count]) := (shift_injective top).iterate count

/-- As long as only zeros fall out, shifting is a plain right shift. -/
theorem shifts_low (clear : ∀ index, index < count → crc.getLsbD index = false) :
    (shift poly)^[count] crc = crc >>> count := by
  induction count with
  | zero => simp
  | succ count ih =>
    have low : (crc >>> count).getLsbD 0 = false := by simpa using clear count (by omega)
    rw [Function.iterate_succ', Function.comp_apply, ih fun index inside => clear index (by omega)]
    simp only [shift, low, Bool.false_eq_true, ↓reduceIte, BitVec.xor_zero, BitVec.shiftRight_add]

theorem update_xor (left right : BitVec w) (first second : BitVec k) :
    update poly (left ^^^ right) (first ^^^ second) =
      update poly left first ^^^ update poly right second := by
  unfold update
  rw [← shifts_xor, BitVec.setWidth_xor]
  congr 1
  ac_rfl

theorem update_injective (top : poly.msb = true) (symbol : BitVec k) :
    Function.Injective fun crc => update poly crc symbol := by
  intro left right same
  have fed := shifts_injective top k same
  have cancelled := congrArg (· ^^^ symbol.setWidth w) fed
  simpa [BitVec.xor_assoc] using cancelled

/-- Feeding the same symbols keeps different registers different. -/
theorem register_injective (top : poly.msb = true) (message : List (BitVec k)) :
    Function.Injective fun crc => register poly crc message := by
  induction message with
  | nil => exact fun _ _ same => same
  | cons symbol message ih =>
    intro left right same
    exact update_injective top symbol (ih same)

theorem register_append (crc : BitVec w) (first second : List (BitVec k)) :
    register poly crc (first ++ second) = register poly (register poly crc first) second :=
  List.foldl_append

/-- The register of a difference is the difference of the registers. -/
theorem register_xor (first second : List (BitVec k)) (size : first.length = second.length)
    (left right : BitVec w) :
    register poly (left ^^^ right) (List.zipWith (· ^^^ ·) first second) =
      register poly left first ^^^ register poly right second := by
  induction first generalizing second left right with
  | nil =>
    obtain rfl := List.length_eq_zero_iff.mp size.symm
    rfl
  | cons symbol first ih =>
    cases second with
    | nil => simp at size
    | cons other second =>
      simp only [register, List.zipWith_cons_cons, List.foldl_cons, update_xor]
      exact ih second (by simpa using size) _ _

/-- What `k` shifts bring down to a register with room above was `k` bits higher. -/
theorem shifts_up (room : size + k ≤ w) (below : Below size crc) :
    (shift poly)^[k] (crc <<< k) = crc := by
  rw [shifts_low fun index inside => by simp [inside]]
  apply BitVec.eq_of_getLsbD_eq
  intro index bound
  rw [BitVec.getLsbD_ushiftRight, BitVec.getLsbD_shiftLeft]
  by_cases high : size ≤ index
  · simp [below index high]
  · have inside : k + index < w := by omega
    simp [inside]

/-- A message no longer than the register that leaves it at zero bounds the register it
started from, and is all zeros when it started from zero. -/
theorem register_zero (top : poly.msb = true) (message : List (BitVec k))
    (short : k * message.length ≤ w) (zero : register poly crc message = 0#w) :
    Below (k * message.length) crc ∧ (crc = 0#w → ∀ symbol ∈ message, symbol = 0#k) := by
  induction message generalizing crc with
  | nil =>
    obtain rfl : crc = 0#w := zero
    exact ⟨fun index _ => by simp, fun _ symbol member => by simp at member⟩
  | cons symbol message ih =>
    simp only [List.length_cons, Nat.mul_succ] at short ⊢
    have after : register poly (update poly crc symbol) message = 0#w := zero
    obtain ⟨below, rest⟩ := ih (by omega) after
    -- the register before this symbol is what shifts down to the register after it
    have before : crc ^^^ symbol.setWidth w = update poly crc symbol <<< k := by
      apply shifts_injective top k
      rw [shifts_up short below]
      rfl
    have bits : ∀ index, index < w → (crc.getLsbD index ^^ symbol.getLsbD index) =
        (decide (k ≤ index) && (update poly crc symbol).getLsbD (index - k)) := by
      intro index inside
      have bit := congrArg (fun bits => bits.getLsbD index) before
      simp only [BitVec.getLsbD_xor, BitVec.getLsbD_setWidth, BitVec.getLsbD_shiftLeft, inside,
        decide_true, Bool.true_and] at bit
      rw [bit]
      by_cases low : index < k
      · simp [low, Nat.not_le.mpr low]
      · simp [low, Nat.le_of_not_lt low]
    refine ⟨fun index high => ?_, fun start => ?_⟩
    · by_cases inside : index < w
      · have bit := bits index inside
        rw [BitVec.getLsbD_of_ge symbol index (by omega), below (index - k) (by omega)] at bit
        simpa using bit
      · exact BitVec.getLsbD_of_ge _ _ (by omega)
    · subst start
      have symbolZero : symbol = 0#k := by
        apply BitVec.eq_of_getLsbD_eq
        intro index bound
        have bit := bits index (by omega)
        simpa [Nat.not_le.mpr bound] using bit
      have afterZero : update poly 0#w symbol = 0#w := by
        subst symbolZero
        have fixed : update poly (0#w ^^^ 0#w) (0#k ^^^ 0#k) = _ := update_xor _ _ _ _
        simpa using fixed
      intro other member
      rcases List.mem_cons.mp member with rfl | member
      · exact symbolZero
      · exact rest afterZero other member

/-- Messages that differ only in a stretch no longer than the register have different
registers. -/
theorem register_burst (top : poly.msb = true) {head first second tail : List (BitVec k)}
    (size : first.length = second.length) (short : k * first.length ≤ w)
    (same : register poly crc (head ++ first ++ tail) = register poly crc (head ++ second ++ tail)) :
    first = second := by
  rw [register_append, register_append, register_append, register_append] at same
  have middle := register_injective top tail same
  have difference : register poly 0#w (List.zipWith (· ^^^ ·) first second) = 0#w := by
    have start : register poly (register poly crc head ^^^ register poly crc head)
        (List.zipWith (· ^^^ ·) first second) = _ := register_xor first second size _ _
    simpa [middle] using start
  have zeros := (register_zero top _ (by simpa [size] using short) difference).2 rfl
  apply List.ext_getElem size
  intro index inFirst inSecond
  apply xor_eq_zero
  apply zeros
  rw [List.mem_iff_getElem]
  exact ⟨index, by simp only [List.length_zipWith]; omega, by simp⟩

/-! ## A message that ends with its own check -/

/-- The symbols of a register, the low bits first. -/
def symbols (k : Nat) : Nat → BitVec w → List (BitVec k)
  | 0, _ => []
  | count + 1, crc => crc.setWidth k :: symbols k count (crc >>> k)

@[simp] theorem symbols_length (count : Nat) (crc : BitVec w) : (symbols k count crc).length = count := by
  induction count generalizing crc with
  | zero => rfl
  | succ count ih => simp only [symbols, List.length_cons, ih]

theorem symbols_xor (count : Nat) (left right : BitVec w) :
    List.zipWith (· ^^^ ·) (symbols k count left) (symbols k count right) = symbols k count (left ^^^ right) := by
  induction count generalizing left right with
  | zero => rfl
  | succ count ih =>
    simp only [symbols, List.zipWith_cons_cons, ih, BitVec.setWidth_xor, BitVec.ushiftRight_xor_distrib]

/-- A register that is fed its own low bits drops them. -/
theorem update_own (crc : BitVec w) : update poly crc (crc.setWidth k) = crc >>> k := by
  have bits (index : Nat) : (crc ^^^ (crc.setWidth k).setWidth w).getLsbD index =
      (decide (k ≤ index) && crc.getLsbD index) := by
    rw [BitVec.getLsbD_xor, BitVec.getLsbD_setWidth, BitVec.getLsbD_setWidth]
    by_cases low : index < k
    · by_cases inside : index < w
      · simp [low, inside, Nat.not_le.mpr low]
      · simp [BitVec.getLsbD_of_ge crc index (Nat.not_lt.mp inside)]
    · simp [low, Nat.not_lt.mp low]
  unfold update
  rw [shifts_low fun index inside => by simp [bits, Nat.not_le.mpr inside]]
  apply BitVec.eq_of_getLsbD_eq
  intro index bound
  rw [BitVec.getLsbD_ushiftRight, BitVec.getLsbD_ushiftRight, bits]
  simp

theorem register_own (count : Nat) (crc : BitVec w) :
    register poly crc (symbols k count crc) = crc >>> (k * count) := by
  induction count generalizing crc with
  | zero => simp [register, symbols]
  | succ count ih =>
    have first : register poly crc (symbols k (count + 1) crc) =
        register poly (update poly crc (crc.setWidth k)) (symbols k count (crc >>> k)) := rfl
    rw [first, update_own, ih, ← BitVec.shiftRight_add, Nat.mul_succ, Nat.add_comm]

/-- The register of a message that ends with its check, inverted or not, is always the same. -/
theorem register_residue (final crc : BitVec w) (whole : w ≤ k * count) :
    register poly crc (symbols k count (crc ^^^ final)) = register poly 0#w (symbols k count final) := by
  have split := @register_xor _ _ poly (symbols k count crc) (symbols k count final) (by simp) crc 0#w
  have gone : crc >>> (k * count) = 0#w := BitVec.ushiftRight_eq_zero whole
  rw [BitVec.xor_zero, symbols_xor, register_own, gone, BitVec.zero_xor] at split
  exact split

end Emblib.Crc
