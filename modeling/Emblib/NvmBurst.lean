import Emblib.NvmTornSet

/-! Corruption of a frame that is confined to four consecutive bytes. Hash, value and CRC are
one message of the CRC when the CRC is stored least significant byte first, and such a message
leaves the same register whatever it says. A burst in it leaves another register, wherever it
starts, so it is seen unless it is in the hash, where it is seen at once. -/
namespace Emblib.NvmBurst
open Programs ByteMemory NvmHash NvmLayout NvmRegistry NvmStore NvmTornSet

variable {layout : Layout} {index : layout.Index} {memory other : Memory} {low : Nat}

/-- A frame that reads back a value is its hash, the value and the CRC of both. -/
theorem frame_of_readFrame {value : List UInt8} (reads : readFrame layout index memory = .ok value) :
    frame layout index memory = layout.frameBytes index value := by
  have pieces := readFrame_ok reads
  rw [frame_pieces, pieces.hash, pieces.val, pieces.crc]
  rfl

/-- A read of a frame that gives no value gives one of two errors. -/
theorem readFrame_error {e : NvmError} (fails : readFrame layout index memory = .error e) :
    e = .hashMismatch ∨ e = .crcMismatch := by
  unfold readFrame at fails
  dsimp only at fails
  split at fails
  · cases fails
    exact .inl rfl
  split at fails
  · cases fails
    exact .inr rfl
  · cases fails

/-- Two valid frames that differ only within four consecutive bytes are the same. -/
theorem frames_near {first second : List UInt8} (standard : layout.crcFn = crc32Fn .little)
    (near : Near low (layout.frameBytes index first) (layout.frameBytes index second))
    (size : second.length = first.length) :
    layout.frameBytes index second = layout.frameBytes index first := by
  have residues (value : List UInt8) :
      (layout.frameBytes index value).foldl crcUpdate 0xFFFFFFFF = residue := by
    have crc : layout.crcFn.crc (layout.hashes index) value =
        littleEndian 4 (crc32 (layout.hashes index) value).toNat := by
      rw [standard]
      rfl
    rw [Layout.frameBytes, crc]
    exact crc32_residue _ _
  have sizes : (layout.frameBytes index second).length = (layout.frameBytes index first).length := by
    simp [Layout.frameBytes, size]
  obtain ⟨head, changed, changed', tail, before, after, equal, short⟩ := near_split near sizes
  have same := (residues first).trans (residues second).symm
  rw [before, after] at same ⊢
  rw [foldl_burst head tail equal short same]

/-- **Every short burst is detected.** After a `set`, whatever changes the bytes of the frame only
within four consecutive ones, `get` returns a hash mismatch or a CRC mismatch. -/
theorem burst_detected {S : Type} (store : Store S) (registry : Registry store.capacity)
    (standard : registry.layout.crcFn = crc32Fn .little) (name : registry.layout.Name)
    (value : registry.layout.Value name.index) (state corrupted : S)
    (near : Near low
      (frame registry.layout name.index
        (store.bytes (run store.handler (registry.set name value) state).2))
      (frame registry.layout name.index (store.bytes corrupted)))
    (changed : frame registry.layout name.index (store.bytes corrupted) ≠
      frame registry.layout name.index
        (store.bytes (run store.handler (registry.set name value) state).2)) :
    (run store.handler (registry.get name) corrupted).1 = .error .hashMismatch ∨
      (run store.handler (registry.get name) corrupted).1 = .error .crcMismatch := by
  have written :
      frame registry.layout name.index
        (store.bytes (run store.handler (registry.set name value) state).2) =
      registry.layout.frameBytes name.index value.1 := by
    rw [(store_run store (set_issues name value) state).2, run_set]
    exact frame_patch_same value
  rw [written] at near changed
  rw [(store_run store (get_issues name) corrupted).1, run_get]
  cases reads : readFrame registry.layout name.index (store.bytes corrupted) with
  | error e =>
    rcases readFrame_error reads with rfl | rfl
    · exact .inl rfl
    · exact .inr rfl
  | ok val =>
    rw [frame_of_readFrame reads] at near changed
    have size : val.length = value.1.length := by rw [value.2, ← (readFrame_ok reads).val, slice_length]
    exact absurd (frames_near standard near size) changed

/-- A write of at most four bytes into a frame is a burst. -/
theorem near_patch {bytes : List UInt8} (short : bytes.length ≤ 4) :
    Near low (frame layout index memory)
      (frame layout index (patch memory (layout.offsetOf index + low) bytes)) := by
  intro position outside
  rw [frame, frame, slice_getElem?, slice_getElem?]
  refine if_congr Iff.rfl (congrArg some ?_) rfl
  rcases outside with before | behind
  · exact (patch_below (by omega)).symm
  · exact (patch_above (by omega)).symm

/-- The last byte of the hash and the first byte of the value are overwritten. -/
theorem burst_detected_testing :
    let name := testingRegistry.nameAt (0 : Fin 2)
    let stored := (run plain (testingRegistry.reset name) fun _ => 0).2
    let corrupted := patch stored 3 [0, 9]
    (run plain (testingRegistry.get name) corrupted).1 = .error .hashMismatch ∨
      (run plain (testingRegistry.get name) corrupted).1 = .error .crcMismatch := by
  intro name stored corrupted
  refine burst_detected (arrayStore 512) testingRegistry rfl name
    (testingRegistry.layout.defaultValue name.index) (fun _ => 0) corrupted
    (@near_patch testingRegistry.layout (0 : Fin 2) stored 3 [0, 9] (by decide)) fun same => ?_
  have byte := congrArg (·[4]?) same
  simp only [frame, slice_getElem?] at byte
  exact absurd byte (by decide)

end Emblib.NvmBurst
