import Mathlib.Data.List.FinRange
import Emblib.NvmHash

/-! The layout of the NVM: one frame for each parameter, hash, value and CRC in this
order, at offsets that are prefix sums of the frame sizes. Hashes, values and CRCs are
object bytes; a value type without padding bits is the byte lists of its size. Offsets
are natural numbers, which is what they are in a layout that fits its storage. -/
namespace Emblib.NvmLayout
open ByteMemory NvmHash

/-- `some_hash_fn`, returning the object bytes of its `type`. -/
structure HashFn where
  size : Nat
  hash : List UInt8 → List UInt8
  hash_length : ∀ name, (hash name).length = size

/-- `some_crc_fn`, of the object bytes of the hash and of the value. -/
structure CrcFn where
  size : Nat
  crc : List UInt8 → List UInt8 → List UInt8
  crc_length : ∀ hash value, (crc hash value).length = size

/-- `parameter`: the characters of its name without the terminator, and the object
bytes of its default value, whose type is the value type. -/
structure Parameter where
  name : List UInt8
  default : List UInt8
  deriving DecidableEq, Repr

/-- `basic_layout`. -/
structure Layout where
  hashFn : HashFn
  crcFn : CrcFn
  params : List Parameter
  base : Nat

namespace Layout

def count (layout : Layout) : Nat := layout.params.length

abbrev Index (layout : Layout) : Type := Fin layout.count

def parameterAt (layout : Layout) (index : layout.Index) : Parameter := layout.params.get index

def overhead (layout : Layout) : Nat := layout.hashFn.size + layout.crcFn.size

def hashes (layout : Layout) (index : layout.Index) : List UInt8 :=
  layout.hashFn.hash (layout.parameterAt index).name

def sizes (layout : Layout) (index : layout.Index) : Nat := (layout.parameterAt index).default.length

/-- Matches by hash only. -/
def indexOf (layout : Layout) (name : List UInt8) : Option layout.Index :=
  (List.finRange layout.count).find? fun i => layout.hashes i == layout.hashFn.hash name

/-- A foreign name that merely collides with a hash of the layout is not accepted. -/
def checkedIndexOf (layout : Layout) (name : List UInt8) : Option layout.Index :=
  (layout.indexOf name).filter fun i => (layout.parameterAt i).name == name

/-- The frame sizes of all parameters, in order. -/
def frames (layout : Layout) : List Nat :=
  layout.params.map fun parameter => parameter.default.length + layout.overhead

def offsetOf (layout : Layout) (index : Nat) : Nat := layout.base + (layout.frames.take index).sum

def size (layout : Layout) : Nat := layout.frames.sum

def namesUnique (layout : Layout) : Bool :=
  (List.finRange layout.count).all fun i => (List.finRange layout.count).all fun j =>
    !(decide (i < j) && layout.hashes i == layout.hashes j)

/-- A name for which `checked_index_of` compiles. -/
structure Name (layout : Layout) where
  name : List UInt8
  index : layout.Index
  found : layout.checkedIndexOf name = some index

/-- The object bytes of a value of the parameter's type. -/
abbrev Value (layout : Layout) (index : layout.Index) : Type :=
  { bytes : List UInt8 // bytes.length = layout.sizes index }

def defaultValue (layout : Layout) (index : layout.Index) : layout.Value index :=
  ⟨(layout.parameterAt index).default, rfl⟩

/-- What `set` leaves in a frame. -/
def frameBytes (layout : Layout) (index : layout.Index) (value : List UInt8) : List UInt8 :=
  layout.hashes index ++ value ++ layout.crcFn.crc (layout.hashes index) value

end Layout

variable {layout : Layout}

@[simp] theorem hashes_length (index : layout.Index) :
    (layout.hashes index).length = layout.hashFn.size := layout.hashFn.hash_length _

@[simp] theorem crc_length (hash value : List UInt8) :
    (layout.crcFn.crc hash value).length = layout.crcFn.size := layout.crcFn.crc_length _ _

theorem frameBytes_length (index : layout.Index) (value : layout.Value index) :
    (layout.frameBytes index value.1).length = layout.sizes index + layout.overhead := by
  simp only [Layout.frameBytes, List.length_append, hashes_length, crc_length, value.2, Layout.overhead]
  omega

/-! ## Names -/

/-- A name that compiles is the name of the parameter it leads to. -/
theorem name_parameter (name : layout.Name) : (layout.parameterAt name.index).name = name.name := by
  have accepted := (Option.filter_eq_some_iff.mp name.found).2
  exact eq_of_beq accepted

/-- The lookup by hash is injective on the names that compile. -/
theorem name_index_injective {first second : layout.Name} (same : first.index = second.index) :
    first.name = second.name := by
  rw [← name_parameter first, ← name_parameter second, same]

theorem namesUnique_iff :
    layout.namesUnique = true ↔ ∀ i j : layout.Index, layout.hashes i = layout.hashes j → i = j := by
  simp only [Layout.namesUnique, List.all_eq_true, List.mem_finRange, forall_true_left,
    Bool.not_eq_true', Bool.and_eq_false_iff, decide_eq_false_iff_not, beq_eq_false_iff_ne]
  constructor
  · intro ordered i j same
    rcases lt_trichotomy i j with less | equal | greater
    · exact absurd same ((ordered i j).resolve_left fun notLess => notLess less)
    · exact equal
    · exact absurd same.symm ((ordered j i).resolve_left fun notLess => notLess greater)
  · intro injective i j
    by_cases same : layout.hashes i = layout.hashes j
    · exact .inl (by simp [injective i j same])
    · exact .inr same

/-- Without colliding hashes every parameter is found under its own name. -/
theorem checkedIndexOf_at (unique : layout.namesUnique = true) (index : layout.Index) :
    layout.checkedIndexOf (layout.parameterAt index).name = some index := by
  have found : layout.indexOf (layout.parameterAt index).name = some index := by
    cases search : layout.indexOf (layout.parameterAt index).name with
    | none =>
      have nowhere := List.find?_eq_none.mp search index (List.mem_finRange index)
      exact absurd (beq_self_eq_true _) nowhere
    | some other =>
      have hit := List.find?_some (p := fun i => layout.hashes i == layout.hashes index) search
      rw [namesUnique_iff.mp unique other index (eq_of_beq hit)]
  simp [Layout.checkedIndexOf, found]

/-- The name a parameter was declared with, as a template argument. -/
def ownName (unique : layout.namesUnique = true) (index : layout.Index) : layout.Name :=
  ⟨(layout.parameterAt index).name, index, checkedIndexOf_at unique index⟩

/-! ## Offsets -/

theorem frames_get (index : layout.Index) :
    layout.frames[index.val]? = some (layout.sizes index + layout.overhead) := by
  have inside : index.val < layout.params.length := index.isLt
  simp only [Layout.frames, List.getElem?_map, List.getElem?_eq_getElem inside, Option.map_some]
  rfl

theorem offsetOf_succ (index : layout.Index) :
    layout.offsetOf (index + 1) =
      layout.offsetOf index + (layout.sizes index + layout.overhead) := by
  simp only [Layout.offsetOf, List.take_add_one, frames_get, List.sum_append, Option.toList_some,
    List.sum_singleton]
  omega

theorem offsetOf_mono (le : first ≤ second) : layout.offsetOf first ≤ layout.offsetOf second := by
  obtain ⟨count, rfl⟩ := Nat.exists_eq_add_of_le le
  simp only [Layout.offsetOf, List.take_add, List.sum_append]
  omega

theorem offsetOf_le (index : Nat) : layout.offsetOf index ≤ layout.base + layout.size := by
  have whole := congrArg List.sum (List.take_append_drop index layout.frames)
  simp only [List.sum_append] at whole
  simp only [Layout.offsetOf, Layout.size]
  omega

theorem base_le_offsetOf (index : Nat) : layout.base ≤ layout.offsetOf index := by
  unfold Layout.offsetOf
  omega

/-- A frame ends where the storage of the layout does, or earlier. -/
theorem frame_inside (index : layout.Index) :
    layout.offsetOf index + (layout.sizes index + layout.overhead) ≤ layout.base + layout.size := by
  rw [← offsetOf_succ]
  exact offsetOf_le _

/-- The frames of two parameters do not overlap. -/
theorem frames_apart {first second : layout.Index} (different : first ≠ second) :
    layout.offsetOf first + (layout.sizes first + layout.overhead) ≤ layout.offsetOf second ∨
      layout.offsetOf second + (layout.sizes second + layout.overhead) ≤ layout.offsetOf first := by
  rw [← offsetOf_succ, ← offsetOf_succ]
  rcases lt_or_gt_of_ne different with less | greater
  · exact .inl (offsetOf_mono less)
  · exact .inr (offsetOf_mono greater)

/-! ## The layout of the repository -/

/-- `fnv1a_32` on a target with this byte order. -/
def fnv1a32Fn (order : ByteOrder) : HashFn where
  size := 4
  hash name := order.encode 4 (fnv1a32 name).toNat
  hash_length _ := encode_length _ _ _

/-- `crc32` on a target with this byte order. -/
def crc32Fn (order : ByteOrder) : CrcFn where
  size := 4
  crc hash value := order.encode 4 (crc32 hash value).toNat
  crc_length _ _ := encode_length _ _ _

/-- Equal CRC bytes are bytes of equal CRCs. -/
theorem crc32Fn_inj {hash first second : List UInt8}
    (same : (crc32Fn order).crc hash first = (crc32Fn order).crc hash second) :
    crc32 hash first = crc32 hash second := by
  have firstBound := (crc32 hash first).toNat_lt
  have secondBound := (crc32 hash second).toNat_lt
  have codes := congrArg order.decode same
  simp only [crc32Fn, decode_encode] at codes
  apply UInt32.toNat_inj.mp
  omega

end Emblib.NvmLayout
