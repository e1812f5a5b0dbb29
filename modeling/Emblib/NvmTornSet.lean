import Emblib.NvmStore

/-! A `set` that stops after any prefix of the bytes it writes. While the hash is written
nothing changes, while the value is written the old CRC stands next to it, and while the
CRC is written the new value stands before it. If the values differ only within four
consecutive bytes, so does every value in between from the old one, and the CRC never
misses such a difference. -/
namespace Emblib.NvmTornSet
open Programs ByteMemory NvmHash NvmLayout NvmRegistry NvmStore

/-- Writes may stop part-way: the bytes of a prefix have arrived, and then the storage
returns an error or the power goes. Reads do not fail. -/
def halting : Device Call Reply Memory where
  answers
    | .read addr size, memory, result, after => result = .ok (slice memory addr size) ∧ after = memory
    | .write addr bytes, memory, result, after =>
      (result = .ok () ∧ after = patch memory addr bytes) ∨
        ∃ e count, result = .error e ∧ after = patch memory addr (bytes.take count)
  tears
    | .read .., memory, torn => torn = memory
    | .write addr bytes, memory, torn => ∃ count, torn = patch memory addr (bytes.take count)

/-! ## Values that differ within four bytes -/

/-- The bytes in which the values differ lie within the four that start at `low`. -/
def Near (low : Nat) (old new : List UInt8) : Prop :=
  ∀ index, index < low ∨ low + 4 ≤ index → old[index]? = new[index]?

/-- Values of at most four bytes are always near. -/
theorem near_small {old new : List UInt8} (size : new.length = old.length) (small : old.length ≤ 4) :
    Near 0 old new := by
  rintro index (below | above)
  · omega
  · rw [List.getElem?_eq_none (by omega), List.getElem?_eq_none (by omega)]

/-- Every value between two near ones is near the old one. -/
theorem near_between {old new : List UInt8} (near : Near low old new) (count : Nat) :
    Near low old (new.take count ++ old.drop (new.take count).length) := by
  intro index outside
  by_cases arrived : index < (new.take count).length
  · have inside : index < count := by
      rw [List.length_take] at arrived
      omega
    rw [List.getElem?_append_left arrived, List.getElem?_take_of_lt inside]
    exact near index outside
  · rw [List.getElem?_append_right (Nat.le_of_not_lt arrived), List.getElem?_drop]
    congr 1
    omega

/-- What two near values of one length have in common, and the at most four bytes in between. -/
theorem near_split {old new : List UInt8} (near : Near low old new) (size : new.length = old.length) :
    ∃ head first second tail, old = head ++ first ++ tail ∧ new = head ++ second ++ tail ∧
      first.length = second.length ∧ first.length ≤ 4 := by
  have front : new.take low = old.take low := by
    apply List.ext_getElem?
    intro index
    rw [List.getElem?_take, List.getElem?_take]
    split
    · rename_i below
      exact (near index (.inl below)).symm
    · rfl
  have back : (new.drop low).drop 4 = (old.drop low).drop 4 := by
    apply List.ext_getElem?
    intro index
    rw [List.drop_drop, List.drop_drop, List.getElem?_drop, List.getElem?_drop]
    exact (near _ (.inr (by omega))).symm
  have split : ∀ value : List UInt8,
      value = value.take low ++ (value.drop low).take 4 ++ (value.drop low).drop 4 := by
    intro value
    rw [List.append_assoc, List.take_append_drop, List.take_append_drop]
  refine ⟨old.take low, (old.drop low).take 4, (new.drop low).take 4, (old.drop low).drop 4, split old, ?_, ?_, ?_⟩
  · rw [← front, ← back]
    exact split new
  · simp [size]
  · simp

/-- `crc32` tells near values of one length apart. -/
theorem near_crc32 {hash old new : List UInt8} (near : Near low old new)
    (size : new.length = old.length) (same : crc32 hash new = crc32 hash old) : new = old := by
  obtain ⟨head, first, second, tail, rfl, rfl, equal, short⟩ := near_split near size
  rw [crc32_burst hash head tail equal short same.symm]

/-! ## The frame while it is written -/

section Frame
variable {layout : Layout} {index : layout.Index} {hash val crc bytes : List UInt8} {memory : Memory}

theorem pieces_hash (pieces : Pieces layout index hash val crc memory)
    (size : hash.length = layout.hashFn.size) (count : Nat) :
    Pieces layout index hash val crc (patch memory (layout.offsetOf index) (hash.take count)) where
  hash := by
    have fits : (hash.take count).length ≤ layout.hashFn.size := by
      rw [List.length_take]
      omega
    rw [slice_patch_front fits, pieces.hash, List.length_take]
    rcases Nat.le_total count hash.length with short | long
    · rw [Nat.min_eq_left short, List.take_append_drop]
    · rw [Nat.min_eq_right long, List.drop_length, List.take_of_length_le long, List.append_nil]
  val := by
    refine (slice_patch_disjoint (.inr ?_)).trans pieces.val
    rw [List.length_take]
    omega
  crc := by
    refine (slice_patch_disjoint (.inr ?_)).trans pieces.crc
    rw [List.length_take]
    omega

theorem pieces_val (pieces : Pieces layout index hash val crc memory)
    (fits : bytes.length ≤ layout.sizes index) :
    Pieces layout index hash (bytes ++ val.drop bytes.length) crc
      (patch memory (layout.offsetOf index + layout.hashFn.size) bytes) where
  hash := (slice_patch_disjoint (.inl (Nat.le_refl _))).trans pieces.hash
  val := by rw [slice_patch_front fits, pieces.val]
  crc := (slice_patch_disjoint (.inr (by omega))).trans pieces.crc

theorem pieces_crc (pieces : Pieces layout index hash val crc memory)
    (fits : bytes.length ≤ layout.crcFn.size) :
    Pieces layout index hash val (bytes ++ crc.drop bytes.length)
      (patch memory (layout.offsetOf index + layout.hashFn.size + layout.sizes index) bytes) where
  hash := (slice_patch_disjoint (.inl (by omega))).trans pieces.hash
  val := (slice_patch_disjoint (.inl (Nat.le_refl _))).trans pieces.val
  crc := by rw [slice_patch_front fits, pieces.crc]

end Frame

/-! ## The torn `set` -/

/-- The three results that `get` can give. -/
def ReadsEither (layout : Layout) (index : layout.Index) (old new : List UInt8) (memory : Memory) : Prop :=
  readFrame layout index memory = .ok old ∨ readFrame layout index memory = .ok new ∨
    readFrame layout index memory = .error .crcMismatch

/-- One write of `set`, and what must hold wherever it stops. -/
theorem write_ensures {next : Unit → Storage (Except NvmError Unit)} {during : Memory → Prop}
    (stops : ∀ count, during (patch memory addr (bytes.take count)))
    (rest : Ensures halting (fun _ _ => True) during (next ()) (patch memory addr bytes)) :
    Ensures halting (fun _ _ => True) during (orReturn (storageWrite addr bytes) next) memory := by
  have start : during memory := by simpa using stops 0
  refine ⟨start, ?_, ?_⟩
  · rintro torn ⟨count, rfl⟩
    exact stops count
  · rintro reply after (⟨rfl, rfl⟩ | ⟨e, count, rfl, rfl⟩)
    · exact rest
    · exact ⟨trivial, stops count⟩

/-- The last write of `set`, whose result is the result of `set`. -/
theorem last_write_ensures {during : Memory → Prop}
    (stops : ∀ count, during (patch memory addr (bytes.take count))) :
    Ensures halting (fun _ _ => True) during (storageWrite addr bytes) memory := by
  have start : during memory := by simpa using stops 0
  have done : during (patch memory addr bytes) := by simpa using stops bytes.length
  refine ⟨start, ?_, ?_⟩
  · rintro torn ⟨count, rfl⟩
    exact stops count
  · rintro reply after (⟨rfl, rfl⟩ | ⟨e, count, rfl, rfl⟩)
    · exact ⟨trivial, done⟩
    · exact ⟨trivial, stops count⟩

section Set
variable {capacity : Nat} {registry : Registry capacity} {name : registry.layout.Name}
  {old mid crc : List UInt8} {new : registry.layout.Value name.index} {memory after : Memory}

/-- Next to the old CRC, of the values near the old one only the old one is read. -/
theorem between_reads (standard : registry.layout.crcFn = crc32Fn order) (near : Near low old mid)
    (size : mid.length = old.length)
    (pieces : Pieces registry.layout name.index (registry.layout.hashes name.index) mid
      (registry.layout.crcFn.crc (registry.layout.hashes name.index) old) memory) :
    ReadsEither registry.layout name.index old new.1 memory := by
  unfold ReadsEither
  rw [pieces_read pieces, standard]
  by_cases matching : (crc32Fn order).crc (registry.layout.hashes name.index) old =
      (crc32Fn order).crc (registry.layout.hashes name.index) mid
  · have unchanged := near_crc32 near size (crc32Fn_inj matching).symm
    left
    simp [unchanged]
  · right
    right
    simp [matching]

/-- The new value is read, or nothing is, whatever CRC stands next to it. -/
theorem complete_reads
    (pieces : Pieces registry.layout name.index (registry.layout.hashes name.index) new.1 crc memory) :
    ReadsEither registry.layout name.index old new.1 memory := by
  unfold ReadsEither
  rw [pieces_read pieces]
  by_cases matching : crc = registry.layout.crcFn.crc (registry.layout.hashes name.index) new.1
  · right
    left
    simp [matching]
  · right
    right
    simp [matching]

theorem set_ensures (standard : registry.layout.crcFn = crc32Fn order) (near : Near low old new.1)
    (holds : readFrame registry.layout name.index memory = .ok old) :
    Ensures halting (fun _ _ => True) (ReadsEither registry.layout name.index old new.1)
      (registry.set name new) memory := by
  have pieces := readFrame_ok holds
  have size : new.1.length = old.length := by rw [new.2, ← pieces.val, slice_length]
  unfold Registry.set
  -- the hash that is written is there already
  refine write_ensures (fun count => ?_) ?_
  · have same := pieces_hash pieces (hashes_length name.index) count
    left
    rw [pieces_read same]
    simp
  have hashed := pieces_hash pieces (hashes_length name.index) registry.layout.hashFn.size
  rw [List.take_of_length_le (Nat.le_of_eq (hashes_length name.index))] at hashed
  -- the old CRC stands next to a value between the two
  refine write_ensures (fun count => ?_) ?_
  · have fits : (new.1.take count).length ≤ registry.layout.sizes name.index := by
      rw [List.length_take, new.2]
      exact Nat.min_le_right _ _
    refine between_reads standard (near_between near count) ?_ (pieces_val hashed fits)
    simp only [List.length_append, List.length_drop, List.length_take]
    omega
  have valued := pieces_val hashed (Nat.le_of_eq new.2)
  rw [size, List.drop_length, List.append_nil] at valued
  -- the new value stands before a CRC that is partly written
  refine last_write_ensures fun count => ?_
  have fits : ((registry.layout.crcFn.crc (registry.layout.hashes name.index) new.1).take count).length ≤
      registry.layout.crcFn.size := by
    rw [List.length_take, crc_length]
    exact Nat.min_le_right _ _
  exact complete_reads (pieces_crc valued fits)

/-- **A torn `set` is never read back as a third value.** If the frame holds `old` and
`new` differs from it only within four consecutive bytes, then wherever the `set` stops,
`get` returns one of the two or a CRC mismatch. -/
theorem torn_set_reads_old_or_new (standard : registry.layout.crcFn = crc32Fn order)
    (holds : (run plain (registry.get name) memory).1 = .ok old) (near : Near low old new.1)
    (stopped : Visits halting (registry.set name new) memory after) :
    (run plain (registry.get name) after).1 = .ok old ∨
      (run plain (registry.get name) after).1 = .ok new.1 ∨
        (run plain (registry.get name) after).1 = .error .crcMismatch := by
  rw [run_get] at holds ⊢
  have reads : ReadsEither registry.layout name.index old new.1 after :=
    visits_ensures (set_ensures standard near holds) stopped
  exact reads

end Set

/-- The first two parameters of the repository's tests: `motor.pole_pairs`, an integer
whose default is 1, and `motor.R`, a float whose default is 0.05. -/
def testingRegistry : Registry 512 where
  layout := {
    hashFn := fnv1a32Fn .little
    crcFn := crc32Fn .little
    params := [
      ⟨[109, 111, 116, 111, 114, 46, 112, 111, 108, 101, 95, 112, 97, 105, 114, 115], [1, 0, 0, 0]⟩,
      ⟨[109, 111, 116, 111, 114, 46, 82], [205, 204, 76, 61]⟩]
    base := 0 }
  unique := by decide +kernel
  fits := by decide

/-- The write of 0.42 over the default of `motor.R` stops in the middle of the value. -/
theorem torn_set_reads_old_or_new_testing :
    let name := testingRegistry.nameAt (1 : Fin 2)
    let written := (run plain (testingRegistry.reset name) fun _ => 0).2
    let after := patch (patch written 12 (testingRegistry.layout.hashes name.index)) 16 [61, 10]
    (run plain (testingRegistry.get name) after).1 = .ok [205, 204, 76, 61] ∨
      (run plain (testingRegistry.get name) after).1 = .ok [61, 10, 215, 62] ∨
        (run plain (testingRegistry.get name) after).1 = .error .crcMismatch := by
  intro name written after
  have holds : (run plain (testingRegistry.get name) written).1 = .ok [205, 204, 76, 61] := by
    rw [run_get]
    exact (get_after_set name (testingRegistry.layout.defaultValue name.index) name.index).trans
      (if_pos rfl)
  have near : Near 0 [205, 204, 76, 61] [61, 10, 215, 62] := near_small rfl (by simp)
  have stopped : Visits halting (testingRegistry.set name ⟨[61, 10, 215, 62], rfl⟩) written after :=
    .inr (.inr ⟨.ok (), _, .inl ⟨rfl, rfl⟩, .inr (.inl ⟨2, rfl⟩)⟩)
  exact torn_set_reads_old_or_new rfl holds near stopped

end Emblib.NvmTornSet
