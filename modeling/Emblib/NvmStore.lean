import Emblib.NvmRegistry

/-! What the members of a registry do over a byte memory: `get` decodes a frame, `set`
replaces one, `reset_all` replaces all of them. A storage that behaves like a memory
below its capacity gives the same results. -/
namespace Emblib.NvmStore
open Programs ByteMemory NvmLayout NvmRegistry

/-- A memory that never fails. -/
def plain : (call : Call) → Memory → Reply call × Memory
  | .read addr size, memory => (.ok (slice memory addr size), memory)
  | .write addr bytes, memory => (.ok (), patch memory addr bytes)

/-- A storage backend that reads back the last bytes written, as far as its capacity. -/
structure Store (S : Type) where
  capacity : Nat
  handler : (call : Call) → S → Reply call × S
  bytes : S → Memory
  faithful : ∀ call state, call.Within 0 capacity →
    (handler call state).1 = (plain call (bytes state)).1 ∧
      bytes (handler call state).2 = (plain call (bytes state)).2

/-- The backend of the repository's tests: an array of `capacity` bytes. -/
def arrayStore (capacity : Nat) : Store Memory where
  capacity
  handler := plain
  bytes := id
  faithful _ _ _ := ⟨rfl, rfl⟩

theorem within_capacity {registry : Registry capacity} (call : Call)
    (within : call.Within registry.layout.base registry.layout.size) : call.Within 0 capacity := by
  have fits := registry.fits
  cases call with
  | read addr size => exact ⟨Nat.zero_le _, by have high := within.2; omega⟩
  | write addr bytes => exact ⟨Nat.zero_le _, by have high := within.2; omega⟩

/-- A member of a registry does the same over a storage as over its bytes. -/
theorem store_run (store : Store S) {registry : Registry store.capacity} {program : Storage A}
    (issues : program.Issues (Call.Within registry.layout.base registry.layout.size)) (state : S) :
    (run store.handler program state).1 = (run plain program (store.bytes state)).1 ∧
      store.bytes (run store.handler program state).2 = (run plain program (store.bytes state)).2 := by
  refine run_related (fun state memory => store.bytes state = memory) ?_ program issues rfl
  rintro call within state _ rfl
  exact store.faithful call state (within_capacity call within)

/-! ## Frames -/

section Frames
variable {layout : Layout} {memory other : Memory} {index : layout.Index}

/-- What `get` makes of a frame. -/
def readFrame (layout : Layout) (index : layout.Index) (memory : Memory) :
    Except NvmError (List UInt8) :=
  let hash := layout.hashes index
  let valLoc := layout.offsetOf index + layout.hashFn.size
  let val := slice memory valLoc (layout.sizes index)
  if slice memory (layout.offsetOf index) layout.hashFn.size ≠ hash then
    .error .hashMismatch
  else if slice memory (valLoc + layout.sizes index) layout.crcFn.size ≠ layout.crcFn.crc hash val then
    .error .crcMismatch
  else
    .ok val

/-- Every byte of the frame of a parameter. -/
def frame (layout : Layout) (index : layout.Index) (memory : Memory) : List UInt8 :=
  slice memory (layout.offsetOf index) (layout.sizes index + layout.overhead)

theorem frame_pieces :
    frame layout index memory =
      slice memory (layout.offsetOf index) layout.hashFn.size ++
        slice memory (layout.offsetOf index + layout.hashFn.size) (layout.sizes index) ++
          slice memory (layout.offsetOf index + layout.hashFn.size + layout.sizes index)
            layout.crcFn.size := by
  have total : layout.sizes index + layout.overhead =
      layout.hashFn.size + layout.sizes index + layout.crcFn.size := by
    unfold Layout.overhead
    omega
  rw [frame, total, slice_add, slice_add, Nat.add_assoc]

/-- Equal frames are read alike. -/
theorem readFrame_congr (same : frame layout index other = frame layout index memory) :
    readFrame layout index other = readFrame layout index memory := by
  rw [frame_pieces, frame_pieces] at same
  obtain ⟨front, crc⟩ := List.append_inj same (by simp)
  obtain ⟨hash, val⟩ := List.append_inj front (by simp)
  simp only [readFrame, hash, val, crc]

/-- The hash, the value and the CRC that a frame holds. -/
structure Pieces (layout : Layout) (index : layout.Index) (hash val crc : List UInt8)
    (memory : Memory) : Prop where
  hash : slice memory (layout.offsetOf index) layout.hashFn.size = hash
  val : slice memory (layout.offsetOf index + layout.hashFn.size) (layout.sizes index) = val
  crc : slice memory (layout.offsetOf index + layout.hashFn.size + layout.sizes index)
    layout.crcFn.size = crc

theorem pieces_read {hash val crc : List UInt8}
    (pieces : Pieces layout index hash val crc memory) :
    readFrame layout index memory =
      if hash ≠ layout.hashes index then .error .hashMismatch
      else if crc ≠ layout.crcFn.crc (layout.hashes index) val then .error .crcMismatch
      else .ok val := by
  simp only [readFrame, pieces.hash, pieces.val, pieces.crc]

/-- A frame that reads back a value holds it with its hash and CRC. -/
theorem readFrame_ok (holds : readFrame layout index memory = .ok val) :
    Pieces layout index (layout.hashes index) val
      (layout.crcFn.crc (layout.hashes index) val) memory := by
  simp only [readFrame] at holds
  split at holds
  · cases holds
  rename_i hash
  split at holds
  · cases holds
  rename_i crc
  cases holds
  exact ⟨not_not.mp hash, rfl, not_not.mp crc⟩

/-- A frame written in full reads back. -/
theorem readFrame_frameBytes (value : layout.Value index)
    (exactly : frame layout index memory = layout.frameBytes index value.1) :
    readFrame layout index memory = .ok value.1 := by
  rw [frame_pieces] at exactly
  obtain ⟨front, crc⟩ := List.append_inj exactly (by simp [value.2])
  obtain ⟨hash, val⟩ := List.append_inj front (by simp)
  rw [pieces_read ⟨hash, val, crc⟩]
  simp

theorem frame_patch_same (value : layout.Value index) :
    frame layout index (patch memory (layout.offsetOf index) (layout.frameBytes index value.1)) =
      layout.frameBytes index value.1 :=
  slice_patch_self (frameBytes_length index value)

theorem frame_patch_other {target : layout.Index} (different : index ≠ target)
    (value : layout.Value target) :
    frame layout index (patch memory (layout.offsetOf target) (layout.frameBytes target value.1)) =
      frame layout index memory := by
  apply slice_patch_disjoint
  rw [frameBytes_length]
  exact frames_apart different

/-- Writing a frame replaces the value of its parameter. -/
theorem readFrame_patch (value : layout.Value index) (other : layout.Index) :
    readFrame layout other (patch memory (layout.offsetOf index) (layout.frameBytes index value.1)) =
      if other = index then .ok value.1 else readFrame layout other memory := by
  split
  · rename_i same
    subst same
    exact readFrame_frameBytes value (frame_patch_same value)
  · rename_i different
    exact readFrame_congr (frame_patch_other different value)

/-- The hash, the value and the CRC, written one after the other, are the frame. -/
theorem patch_pieces (val : layout.Value index) :
    patch (patch (patch memory (layout.offsetOf index) (layout.hashes index))
      (layout.offsetOf index + layout.hashFn.size) val.1)
      (layout.offsetOf index + layout.hashFn.size + layout.sizes index)
      (layout.crcFn.crc (layout.hashes index) val.1) =
    patch memory (layout.offsetOf index) (layout.frameBytes index val.1) := by
  have crcLoc : layout.offsetOf index + layout.hashFn.size + layout.sizes index =
      layout.offsetOf index + (layout.hashes index ++ val.1).length := by
    rw [List.length_append, hashes_length, val.2, Nat.add_assoc]
  rw [crcLoc, ← @hashes_length layout index, patch_append]
  exact patch_append _ _

/-- The frames of these parameters written with their defaults. -/
def resetFrames (layout : Layout) (indices : List layout.Index) (memory : Memory) : Memory :=
  indices.foldl (fun memory (index : layout.Index) =>
    patch memory (layout.offsetOf index) (layout.frameBytes index (layout.defaultValue index).1)) memory

/-- The parameters reset so far read their defaults, the others what they read before. -/
theorem readFrame_resetFrames (indices : List layout.Index) (other : layout.Index) :
    readFrame layout other (resetFrames layout indices memory) =
      if other ∈ indices then .ok (layout.defaultValue other).1 else readFrame layout other memory := by
  induction indices generalizing memory with
  | nil => rfl
  | cons index indices ih =>
    rw [resetFrames, List.foldl_cons]
    refine ih.trans ?_
    rw [readFrame_patch]
    by_cases later : other ∈ indices
    · simp [later]
    · by_cases same : other = index
      · subst same
        simp
      · simp [later, same]

end Frames

/-! ## The members over a memory -/

section Members
variable {capacity : Nat} {registry : Registry capacity} {memory : Memory}

theorem run_read {next : List UInt8 → Storage (Except NvmError A)} :
    run plain (orReturn (storageRead addr size) next) memory =
      run plain (next (slice memory addr size)) memory := orReturn_ok rfl

theorem run_write {next : Unit → Storage (Except NvmError A)} :
    run plain (orReturn (storageWrite addr bytes) next) memory =
      run plain (next ()) (patch memory addr bytes) := orReturn_ok rfl

theorem run_get (name : registry.layout.Name) :
    run plain (registry.get name) memory = (readFrame registry.layout name.index memory, memory) := by
  simp only [Registry.get, readFrame, run_read]
  split
  · rfl
  rw [run_read, run_read]
  split
  · rfl
  · rfl

/-- `set` replaces the frame of its parameter. -/
theorem run_set (name : registry.layout.Name) (val : registry.layout.Value name.index) :
    run plain (registry.set name val) memory =
      (.ok (), patch memory (registry.layout.offsetOf name.index)
        (registry.layout.frameBytes name.index val.1)) := by
  simp only [Registry.set, run_write]
  exact Prod.ext rfl (patch_pieces val)

theorem run_reset (name : registry.layout.Name) :
    run plain (registry.reset name) memory =
      (.ok (), patch memory (registry.layout.offsetOf name.index)
        (registry.layout.frameBytes name.index (registry.layout.defaultValue name.index).1)) :=
  run_set name _

theorem get_after_set (name : registry.layout.Name) (val : registry.layout.Value name.index)
    (index : registry.layout.Index) :
    readFrame registry.layout index (run plain (registry.set name val) memory).2 =
      if index = name.index then .ok val.1 else readFrame registry.layout index memory := by
  rw [run_set]
  exact readFrame_patch val index

theorem run_resetNext (index : registry.layout.Index) :
    run plain (registry.resetNext (.ok ()) index) memory =
      (.ok (), resetFrames registry.layout [index] memory) := run_reset (registry.nameAt index)

theorem run_resetSome (indices : List registry.layout.Index) :
    run plain (indices.foldlM registry.resetNext (.ok ())) memory =
      (.ok (), resetFrames registry.layout indices memory) := by
  induction indices generalizing memory with
  | nil => rfl
  | cons index indices ih =>
    rw [List.foldlM_cons, run_bind, run_resetNext]
    exact ih

/-- `reset_all` returns ok and makes every parameter its default. -/
theorem run_resetAll :
    (run plain registry.resetAll memory).1 = .ok () ∧
      ∀ index, readFrame registry.layout index (run plain registry.resetAll memory).2 =
        .ok (registry.layout.defaultValue index).1 := by
  rw [Registry.resetAll, run_resetSome]
  exact ⟨rfl, fun index => (readFrame_resetFrames _ index).trans (if_pos (List.mem_finRange index))⟩

end Members

end Emblib.NvmStore
