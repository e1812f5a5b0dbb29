import Mathlib.Algebra.Ring.Nat
import Mathlib.Data.List.Range

/-! A byte-addressed memory: ranges are read as lists and overwritten by lists.
Interrupted writes are described without an order on the bytes: each byte of the
range either still has its prior value or already has the new one. -/
namespace Emblib.ByteMemory

abbrev Memory := Nat → UInt8

/-- The `count` bytes from `offset` on. -/
def slice (memory : Memory) (offset count : Nat) : List UInt8 :=
  (List.range count).map fun index => memory (offset + index)

/-- Overwrite the range that starts at `offset`. -/
def patch (memory : Memory) (offset : Nat) (bytes : List UInt8) : Memory := fun address =>
  if offset ≤ address then (bytes[address - offset]?).getD (memory address) else memory address

variable {memory other : Memory} {offset count start size : Nat} {bytes : List UInt8}

@[simp] theorem slice_length : (slice memory offset count).length = count := by simp [slice]

@[simp] theorem slice_zero : slice memory offset 0 = [] := rfl

theorem slice_getElem? (index : Nat) :
    (slice memory offset count)[index]? =
      if index < count then some (memory (offset + index)) else none := by
  by_cases inside : index < count <;> simp [slice, inside]

theorem slice_congr (same : ∀ address, offset ≤ address → address < offset + count →
    memory address = other address) : slice memory offset count = slice other offset count := by
  apply List.map_congr_left
  intro index member
  have inside := List.mem_range.mp member
  exact same _ (by omega) (by omega)

theorem slice_add (first second : Nat) :
    slice memory offset (first + second) =
      slice memory offset first ++ slice memory (offset + first) second := by
  simp [slice, List.range_add, Nat.add_assoc, Function.comp_def]

theorem patch_below (below : address < offset) : patch memory offset bytes address = memory address := by
  simp [patch, Nat.not_le.mpr below]

theorem patch_above (above : offset + bytes.length ≤ address) :
    patch memory offset bytes address = memory address := by
  have outside : bytes.length ≤ address - offset := by omega
  simp [patch, List.getElem?_eq_none outside]

@[simp] theorem patch_nil : patch memory offset [] = memory := by
  funext address
  simp [patch]

/-- A range reads back the bytes last written to it. -/
theorem slice_patch_same : slice (patch memory offset bytes) offset bytes.length = bytes := by
  apply List.ext_getElem?
  intro index
  rw [slice_getElem?]
  split
  · rename_i inside
    simp [patch, inside]
  · rename_i outside
    exact (List.getElem?_eq_none (Nat.le_of_not_lt outside)).symm

theorem slice_patch_self (size : bytes.length = count) :
    slice (patch memory offset bytes) offset count = bytes := by
  subst size
  exact slice_patch_same

/-- A write leaves every disjoint range alone. -/
theorem slice_patch_disjoint (apart : start + count ≤ offset ∨ offset + bytes.length ≤ start) :
    slice (patch memory offset bytes) start count = slice memory start count := by
  apply slice_congr
  intro address low high
  rcases apart with before | after
  · exact patch_below (by omega)
  · exact patch_above (by omega)

/-- A write over the front of a range keeps the rest of it. -/
theorem slice_patch_front (fits : bytes.length ≤ count) :
    slice (patch memory offset bytes) offset count =
      bytes ++ (slice memory offset count).drop bytes.length := by
  obtain ⟨rest, rfl⟩ := Nat.exists_eq_add_of_le fits
  have kept : slice (patch memory offset bytes) (offset + bytes.length) rest =
      slice memory (offset + bytes.length) rest := slice_patch_disjoint (.inr (Nat.le_refl _))
  rw [slice_add, slice_patch_same, kept, slice_add, List.drop_left' slice_length]

/-- Writing two adjacent pieces is writing their concatenation. -/
theorem patch_append (first second : List UInt8) :
    patch (patch memory offset first) (offset + first.length) second =
      patch memory offset (first ++ second) := by
  funext address
  by_cases below : address < offset
  · rw [patch_below below, patch_below (by omega), patch_below below]
  by_cases inside : address < offset + first.length
  · rw [patch_below inside]
    have index : address - offset < first.length := by omega
    simp [patch, Nat.le_of_not_lt below, List.getElem?_append_left index]
  · have low : offset ≤ address := by omega
    have index : first.length ≤ address - offset := by omega
    have shift : address - (offset + first.length) = address - offset - first.length := by omega
    simp [patch, low, Nat.le_of_not_lt inside, List.getElem?_append_right index,
      List.getElem?_eq_none index, shift]

/-- The two memories have the same bytes in the range. -/
def Agree (offset count : Nat) (memory other : Memory) : Prop :=
  ∀ address, offset ≤ address → address < offset + count → memory address = other address

theorem slice_agree (agree : Agree offset size memory other) (low : offset ≤ start)
    (high : start + count ≤ offset + size) : slice memory start count = slice other start count :=
  slice_congr fun address above below => agree address (by omega) (by omega)

/-- The same write keeps two memories alike. -/
theorem patch_agree (agree : Agree offset count memory other) (start : Nat) (bytes : List UInt8) :
    Agree offset count (patch memory start bytes) (patch other start bytes) := by
  intro address above below
  simp only [patch, agree address above below]

/-! ## Interrupted writes -/

/-- Only the range may have changed. -/
def Confined (offset count : Nat) (memory other : Memory) : Prop :=
  ∀ address, address < offset ∨ offset + count ≤ address → other address = memory address

/-- Some of the bytes of the write, in any order, have reached the memory. -/
def Torn (offset : Nat) (bytes : List UInt8) (memory other : Memory) : Prop :=
  ∀ address, other address = memory address ∨ other address = patch memory offset bytes address

theorem confined_refl : Confined offset count memory memory := fun _ _ => rfl

theorem confined_patch : Confined offset bytes.length memory (patch memory offset bytes) := by
  rintro address (below | above)
  · exact patch_below below
  · exact patch_above above

theorem torn_confined (torn : Torn offset bytes memory other) :
    Confined offset bytes.length memory other := by
  intro address outside
  rcases torn address with same | written
  · exact same
  · exact written.trans (confined_patch address outside)

theorem slice_confined (confined : Confined offset size memory other)
    (apart : start + count ≤ offset ∨ offset + size ≤ start) :
    slice other start count = slice memory start count :=
  slice_congr fun address low high => confined address (by omega)

/-- Every byte of `mixed` comes from the same position of one of the two lists. -/
def Mixture (old new mixed : List UInt8) : Prop :=
  mixed.length = old.length ∧ ∀ index : Nat, mixed[index]? = old[index]? ∨ mixed[index]? = new[index]?

theorem mixture_left : Mixture old new old := ⟨rfl, fun _ => .inl rfl⟩

theorem mixture_right (same : new.length = old.length) : Mixture old new new :=
  ⟨same, fun _ => .inr rfl⟩

theorem mixture_self (mixed : Mixture old old data) : data = old :=
  List.ext_getElem? fun index => (mixed.2 index).elim id id

/-- Mixing again with one of the two lists stays a mixture of both. -/
theorem mixture_toward_new (mixed : Mixture old new data) (again : Mixture data new next) :
    Mixture old new next := by
  refine ⟨again.1.trans mixed.1, fun index => ?_⟩
  rcases again.2 index with kept | written
  · rw [kept]
    exact mixed.2 index
  · exact .inr written

theorem mixture_toward_old (mixed : Mixture old new data) (again : Mixture data old next) :
    Mixture old new next := by
  refine ⟨again.1.trans mixed.1, fun index => ?_⟩
  rcases again.2 index with kept | written
  · rw [kept]
    exact mixed.2 index
  · exact .inl written

/-- Bytes of `old` mixed into a mixture cannot complete it to `new`. -/
theorem mixture_back (mixed : Mixture old new data) (again : Mixture data old new) : data = new := by
  apply List.ext_getElem?
  intro index
  rcases again.2 index with kept | written
  · exact kept.symm
  · rcases mixed.2 index with first | second
    · exact first.trans written.symm
    · exact second

/-- A torn write leaves its own range a mixture of the prior and the new bytes. -/
theorem torn_mixture (torn : Torn offset bytes memory other) (size : bytes.length = count) :
    Mixture (slice memory offset count) bytes (slice other offset count) := by
  refine ⟨by simp, fun index => ?_⟩
  by_cases inside : index < count
  · have written : bytes[index]? = some (patch memory offset bytes (offset + index)) := by
      have bound : index < bytes.length := by omega
      simp [patch, List.getElem?_eq_getElem bound]
    rw [slice_getElem?, slice_getElem?, if_pos inside, if_pos inside, written]
    exact (torn (offset + index)).imp (congrArg some) (congrArg some)
  · left
    simp [inside]

/-! ## Byte order -/

inductive ByteOrder where
  | little
  | big
  deriving DecidableEq, Repr

/-- The `count` low bytes of a number, least significant first. -/
def littleEndian : Nat → Nat → List UInt8
  | 0, _ => []
  | count + 1, value => UInt8.ofNat value :: littleEndian count (value / 256)

/-- The number with these bytes, least significant first. -/
def ofLittleEndian : List UInt8 → Nat
  | [] => 0
  | byte :: bytes => byte.toNat + 256 * ofLittleEndian bytes

def ByteOrder.encode (order : ByteOrder) (count value : Nat) : List UInt8 :=
  match order with
  | .little => littleEndian count value
  | .big => (littleEndian count value).reverse

def ByteOrder.decode (order : ByteOrder) (bytes : List UInt8) : Nat :=
  match order with
  | .little => ofLittleEndian bytes
  | .big => ofLittleEndian bytes.reverse

@[simp] theorem littleEndian_length (count value : Nat) : (littleEndian count value).length = count := by
  induction count generalizing value with
  | zero => rfl
  | succ count ih => simp [littleEndian, ih]

theorem ofLittleEndian_littleEndian (count value : Nat) :
    ofLittleEndian (littleEndian count value) = value % 256 ^ count := by
  induction count generalizing value with
  | zero => simp [littleEndian, ofLittleEndian, Nat.mod_one]
  | succ count ih =>
    simp only [littleEndian, ofLittleEndian, ih, UInt8.toNat_ofNat', Nat.reducePow]
    rw [Nat.pow_succ, Nat.mul_comm (256 ^ count) 256, Nat.mod_mul]

theorem littleEndian_ofLittleEndian (bytes : List UInt8) :
    littleEndian bytes.length (ofLittleEndian bytes) = bytes := by
  induction bytes with
  | nil => rfl
  | cons byte bytes ih =>
    have bound := byte.toNat_lt
    have low : UInt8.ofNat (byte.toNat + 256 * ofLittleEndian bytes) = byte := by
      apply UInt8.toNat_inj.mp
      simp only [UInt8.toNat_ofNat', Nat.reducePow]
      omega
    have high : (byte.toNat + 256 * ofLittleEndian bytes) / 256 = ofLittleEndian bytes := by omega
    simp only [List.length_cons, littleEndian, ofLittleEndian, low, high, ih]

@[simp] theorem encode_length (order : ByteOrder) (count value : Nat) :
    (order.encode count value).length = count := by
  cases order <;> simp [ByteOrder.encode]

theorem decode_encode (order : ByteOrder) (count value : Nat) :
    order.decode (order.encode count value) = value % 256 ^ count := by
  cases order <;> simp [ByteOrder.encode, ByteOrder.decode, ofLittleEndian_littleEndian]

theorem encode_decode (order : ByteOrder) (bytes : List UInt8) :
    order.encode bytes.length (order.decode bytes) = bytes := by
  cases order with
  | little => exact littleEndian_ofLittleEndian bytes
  | big =>
    have reversed := littleEndian_ofLittleEndian bytes.reverse
    rw [List.length_reverse] at reversed
    simp [ByteOrder.encode, ByteOrder.decode, reversed]

theorem littleEndian_zero (count : Nat) : littleEndian count 0 = List.replicate count 0 := by
  induction count with
  | zero => rfl
  | succ count ih =>
    rw [littleEndian, Nat.zero_div, ih]
    rfl

/-- Zero is encoded by zeros, and nothing else that fits is. -/
theorem encode_eq_zeros {order : ByteOrder} {count value : Nat} (bound : value < 256 ^ count) :
    order.encode count value = List.replicate count 0 ↔ value = 0 := by
  have zeros : order.encode count 0 = List.replicate count 0 := by
    cases order with
    | little => exact littleEndian_zero count
    | big => rw [ByteOrder.encode, littleEndian_zero, List.reverse_replicate]
  constructor
  · intro same
    have codes := congrArg order.decode (same.trans zeros.symm)
    rwa [decode_encode, decode_encode, Nat.mod_eq_of_lt bound, Nat.zero_mod] at codes
  · rintro rfl
    exact zeros

theorem ofLittleEndian_bound (bytes : List UInt8) : ofLittleEndian bytes < 256 ^ bytes.length := by
  induction bytes with
  | nil => decide
  | cons byte bytes ih =>
    have bound := byte.toNat_lt
    simp only [ofLittleEndian, List.length_cons, Nat.pow_succ]
    omega

theorem decode_bound (order : ByteOrder) (bytes : List UInt8) :
    order.decode bytes < 256 ^ bytes.length := by
  cases order with
  | little => exact ofLittleEndian_bound bytes
  | big => simpa [ByteOrder.decode] using ofLittleEndian_bound bytes.reverse

end Emblib.ByteMemory
