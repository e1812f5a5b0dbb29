import Emblib.NvmTornSet

/-! Writes that fail. The members that change the storage are lists of writes, issued in order
up to the first that fails, and a journal keeps what was issued and what came of it. A failed
write leaves behind what the storage lets it leave; what `reset_all` leaves is the defaults before
the parameter at which it stopped, and what was there before behind it. -/
namespace Emblib.NvmFaults
open Programs ByteMemory NvmLayout NvmRegistry NvmStore

/-! ## Members as lists of writes -/

/-- An address and the bytes for it. -/
abbrev Write := Nat × List UInt8

/-- The writes in order, up to the first that fails. -/
def writeAll : List Write → Storage (Except NvmError Unit)
  | [] => return .ok ()
  | (addr, bytes) :: rest => orReturn (storageWrite addr bytes) fun _ => writeAll rest

/-- The memory after all of the writes. -/
def patchAll (memory : Memory) (writes : List Write) : Memory :=
  writes.foldl (fun memory write => patch memory write.1 write.2) memory

/-- The three writes of `set`. -/
def writesOf (layout : Layout) (index : layout.Index) (val : List UInt8) : List Write :=
  let hash := layout.hashes index
  let hashLoc := layout.offsetOf index
  let valLoc := hashLoc + layout.hashFn.size
  let crcLoc := valLoc + layout.sizes index
  [(hashLoc, hash), (valLoc, val), (crcLoc, layout.crcFn.crc hash val)]

def resetWrites (layout : Layout) (index : layout.Index) : List Write :=
  writesOf layout index (layout.defaultValue index).1

theorem orReturn_pure (access : Storage (Except NvmError Unit)) :
    orReturn access (fun _ => Program.pure (.ok ())) = access := by
  induction access with
  | pure result => cases result <;> rfl
  | request effect next ih => exact congrArg (Program.request effect) (funext ih)

theorem orReturn_orReturn (access : Storage (Except NvmError A)) (next : A → Storage (Except NvmError B))
    (last : B → Storage (Except NvmError C)) :
    orReturn (orReturn access next) last = orReturn access fun value => orReturn (next value) last := by
  induction access with
  | pure result => cases result <;> rfl
  | request effect rest ih => exact congrArg (Program.request effect) (funext ih)

theorem writeAll_append (first second : List Write) :
    writeAll (first ++ second) = orReturn (writeAll first) fun _ => writeAll second := by
  induction first with
  | nil => rfl
  | cons write first ih =>
    obtain ⟨addr, bytes⟩ := write
    rw [List.cons_append, writeAll, ih, writeAll, orReturn_orReturn]

section Members
variable {capacity : Nat} {registry : Registry capacity}

theorem set_writes (name : registry.layout.Name) (val : registry.layout.Value name.index) :
    registry.set name val = writeAll (writesOf registry.layout name.index val.1) := by
  have last := orReturn_pure (storageWrite
    (registry.layout.offsetOf name.index + registry.layout.hashFn.size +
      registry.layout.sizes name.index)
    (registry.layout.crcFn.crc (registry.layout.hashes name.index) val.1))
  unfold Registry.set
  simp only [writesOf, writeAll, Program.pure_eq, last]

/-- After an error nothing is reset. -/
theorem foldlM_error (e : NvmError) (indices : List registry.layout.Index) :
    indices.foldlM registry.resetNext (.error e) = Program.pure (.error e) := by
  induction indices with
  | nil => rfl
  | cons index indices ih =>
    rw [List.foldlM_cons]
    exact ih

theorem foldlM_writes (indices : List registry.layout.Index) :
    indices.foldlM registry.resetNext (.ok ()) =
      writeAll (indices.flatMap (resetWrites registry.layout)) := by
  induction indices with
  | nil => rfl
  | cons index indices ih =>
    have reset : registry.resetNext (.ok ()) index = writeAll (resetWrites registry.layout index) :=
      set_writes (registry.nameAt index) _
    rw [List.foldlM_cons, reset, List.flatMap_cons, writeAll_append, orReturn]
    refine congrArg (writeAll (resetWrites registry.layout index) >>= ·) (funext fun result => ?_)
    cases result with
    | error e => exact foldlM_error e indices
    | ok _ => exact ih

/-- `reset_all` writes the frames of all parameters with their defaults. -/
theorem resetAll_writes :
    registry.resetAll =
      writeAll ((List.finRange registry.layout.count).flatMap (resetWrites registry.layout)) :=
  foldlM_writes _

end Members

/-! ## A storage whose writes may fail -/

/-- The memory, and the writes so far with what came of each. -/
structure Journal where
  memory : Memory
  log : List (Write × Except NvmError Unit)

/-- A write succeeds, or it fails with any error and leaves behind one of the memories that a
failed write may leave. Either is logged. -/
def writeAnswers (leaves : Write → Memory → Memory → Prop) (write : Write) (state : Journal)
    (result : Except NvmError Unit) (after : Journal) : Prop :=
  after.log = state.log ++ [(write, result)] ∧
    ((result = .ok () ∧ after.memory = patch state.memory write.1 write.2) ∨
      ∃ e, result = .error e ∧ leaves write state.memory after.memory)

/-- Any write may fail. Reads do not. -/
def faulty (leaves : Write → Memory → Memory → Prop) : Device Call Reply Journal where
  answers
    | .read addr size, state, result, after => result = .ok (slice state.memory addr size) ∧ after = state
    | .write addr bytes, state, result, after => writeAnswers leaves (addr, bytes) state result after
  tears _ _ _ := False

/-- The writes with their success. -/
def succeeded (writes : List Write) : List (Write × Except NvmError Unit) := writes.map (·, .ok ())

/-- All writes have succeeded, or one has failed and was the last. -/
inductive Outcome (leaves : Write → Memory → Memory → Prop) (writes : List Write) (before : Journal) :
    Except NvmError Unit → Journal → Prop where
  | complete : Outcome leaves writes before (.ok ())
      ⟨patchAll before.memory writes, before.log ++ succeeded writes⟩
  | failed (shape : writes = done ++ failing :: rest)
      (left : leaves failing (patchAll before.memory done) memory) :
      Outcome leaves writes before (.error e)
        ⟨memory, before.log ++ succeeded done ++ [(failing, .error e)]⟩

section Outcomes
variable {leaves : Write → Memory → Memory → Prop} {before after : Journal}
  {result : Except NvmError Unit}

theorem outcome_cons {write : Write} {rest : List Write}
    (outcome : Outcome leaves rest
      ⟨patch before.memory write.1 write.2, before.log ++ [(write, .ok ())]⟩ result after) :
    Outcome leaves (write :: rest) before result after := by
  cases outcome with
  | complete =>
    have log : before.log ++ [(write, .ok ())] ++ succeeded rest =
        before.log ++ succeeded (write :: rest) := by
      simp [succeeded]
    rw [log]
    exact .complete
  | @failed done failing rest' memory e shape left =>
    have log : before.log ++ [(write, .ok ())] ++ succeeded done =
        before.log ++ succeeded (write :: done) := by
      simp [succeeded]
    rw [log]
    exact .failed (congrArg (write :: ·) shape) left

theorem writeAll_outcome (writes : List Write)
    (completes : Completes (faulty leaves) (writeAll writes) before result after) :
    Outcome leaves writes before result after := by
  induction writes generalizing before with
  | nil =>
    obtain ⟨rfl, rfl⟩ := completes
    have none := @Outcome.complete leaves [] after
    rwa [succeeded, List.map_nil, List.append_nil] at none
  | cons write rest ih =>
    obtain ⟨addr, bytes⟩ := write
    obtain ⟨reply, ⟨memory, log⟩, ⟨logged, answer⟩, onward⟩ := completes
    obtain rfl : log = _ := logged
    rcases answer with ⟨rfl, rfl⟩ | ⟨e, rfl, left⟩
    · exact outcome_cons (ih onward)
    · obtain ⟨rfl, rfl⟩ := onward
      have log : before.log ++ [((addr, bytes), .error e)] =
          before.log ++ succeeded [] ++ [((addr, bytes), .error e)] := by
        simp [succeeded]
      rw [log]
      exact .failed rfl left

end Outcomes

/-! ## Frames of parameters that are reset -/

/-- A failed write may leave any bytes in its own range. -/
def scrambled (write : Write) (memory other : Memory) : Prop :=
  Confined write.1 write.2.length memory other

section Frames
variable {layout : Layout} {index other : layout.Index} {memory final : Memory}

theorem patchAll_append (first second : List Write) :
    patchAll memory (first ++ second) = patchAll (patchAll memory first) second := List.foldl_append

/-- Each of the three writes stays in the frame. -/
theorem writesOf_inside (val : layout.Value index) {write : Write}
    (member : write ∈ writesOf layout index val.1) :
    layout.offsetOf index ≤ write.1 ∧
      write.1 + write.2.length ≤ layout.offsetOf index + (layout.sizes index + layout.overhead) := by
  have size := val.2
  have hashSize := hashes_length index
  have crcSize := @crc_length layout (layout.hashes index) val.1
  unfold Layout.overhead
  rcases List.mem_cons.mp member with rfl | member
  · exact ⟨Nat.le_refl _, by dsimp only; omega⟩
  rcases List.mem_cons.mp member with rfl | member
  · exact ⟨by dsimp only; omega, by dsimp only; omega⟩
  · obtain rfl := List.mem_singleton.mp member
    exact ⟨by dsimp only; omega, by dsimp only; omega⟩

/-- Writes that stay in a range leave the rest of the memory alone. -/
theorem patchAll_confined {offset count : Nat} (writes : List Write)
    (inside : ∀ write ∈ writes, offset ≤ write.1 ∧ write.1 + write.2.length ≤ offset + count) :
    Confined offset count memory (patchAll memory writes) := by
  induction writes generalizing memory with
  | nil => exact confined_refl
  | cons write writes ih =>
    obtain ⟨first, rest⟩ := List.forall_mem_cons.mp inside
    intro address outside
    have later : patchAll memory (write :: writes) address = patch memory write.1 write.2 address :=
      ih rest address outside
    rw [later]
    exact confined_patch address (by omega)

theorem frame_confined (different : other ≠ index)
    (confined : Confined (layout.offsetOf index) (layout.sizes index + layout.overhead) memory final) :
    frame layout other final = frame layout other memory :=
  slice_confined confined (frames_apart different)

theorem patchAll_resets (indices : List layout.Index) :
    patchAll memory (indices.flatMap (resetWrites layout)) = resetFrames layout indices memory := by
  induction indices generalizing memory with
  | nil => rfl
  | cons index indices ih =>
    have own : patchAll memory (resetWrites layout index) = resetFrames layout [index] memory :=
      patch_pieces (layout.defaultValue index)
    rw [List.flatMap_cons, patchAll_append, own, ih]
    rfl

/-- A parameter at which it stops does not disturb the others. -/
theorem readFrame_stopped {done rest : List Write} {failing : Write} (different : other ≠ index)
    (shape : resetWrites layout index = done ++ failing :: rest)
    (left : scrambled failing (patchAll memory done) final) :
    readFrame layout other final = readFrame layout other memory := by
  have inside : ∀ write ∈ done ++ failing :: rest, layout.offsetOf index ≤ write.1 ∧
      write.1 + write.2.length ≤ layout.offsetOf index + (layout.sizes index + layout.overhead) := by
    rw [← shape]
    exact fun write member => writesOf_inside (layout.defaultValue index) member
  obtain ⟨before, last⟩ := List.forall_mem_append.mp inside
  have low := (last failing List.mem_cons_self).1
  have high := (last failing List.mem_cons_self).2
  refine readFrame_congr (frame_confined different fun address outside => ?_)
  rw [left address (by omega)]
  exact patchAll_confined done before address outside

end Frames

/-! ## `reset_all` -/

/-- Where a list of concatenated lists is cut, it is cut in one of them. -/
theorem flatMap_split {A B : Type} {f : A → List B} {items : List A} {done rest : List B} {b : B}
    (shape : items.flatMap f = done ++ b :: rest) :
    ∃ before item after first second, items = before ++ item :: after ∧ f item = first ++ b :: second ∧
      done = before.flatMap f ++ first := by
  induction items generalizing done with
  | nil => simp at shape
  | cons item items ih =>
    rw [List.flatMap_cons] at shape
    rcases List.append_eq_append_iff.mp shape with ⟨middle, rfl, later⟩ | ⟨middle, own, later⟩
    · obtain ⟨before, item', after, first, second, rfl, cut, rfl⟩ := ih later
      exact ⟨item :: before, item', after, first, second, rfl, cut, by simp⟩
    · cases middle with
      | nil =>
        obtain ⟨before, item', after, first, second, rfl, cut, none⟩ := @ih [] later.symm
        obtain ⟨empty, rfl⟩ := List.append_eq_nil_iff.mp none.symm
        exact ⟨item :: before, item', after, [], second, rfl, cut, by simp [own, empty]⟩
      | cons head second =>
        obtain ⟨rfl, _⟩ := List.cons.inj later
        exact ⟨[], item, items, done, second, rfl, own, rfl⟩

variable {capacity : Nat}

/-- What `reset_all` issues, returns and leaves when writes may fail. -/
inductive Stopped (registry : Registry capacity) (memory : Memory) :
    Except NvmError Unit → Journal → Prop where
  | complete
      (all : after.log = succeeded
        ((List.finRange registry.layout.count).flatMap (resetWrites registry.layout)))
      (defaults : ∀ name, (run plain (registry.get name) after.memory).1 =
        .ok (registry.layout.defaultValue name.index).1) : Stopped registry memory (.ok ()) after
  | failed (index : registry.layout.Index)
      (shape : resetWrites registry.layout index = done ++ failing :: rest)
      (before : after.log =
        succeeded (((List.finRange registry.layout.count).take index).flatMap
          (resetWrites registry.layout) ++ done) ++ [(failing, .error e)])
      (defaults : ∀ name : registry.layout.Name, name.index < index →
        (run plain (registry.get name) after.memory).1 = .ok (registry.layout.defaultValue name.index).1)
      (unchanged : ∀ name : registry.layout.Name, index < name.index →
        (run plain (registry.get name) after.memory).1 = (run plain (registry.get name) memory).1) :
      Stopped registry memory (.error e) after

/-- The indices before one of them are the smaller ones. -/
theorem finRange_split {count : Nat} {before after : List (Fin count)} {index : Fin count}
    (shape : List.finRange count = before ++ index :: after) :
    before = (List.finRange count).take index ∧ ∀ other, other ∈ before ↔ other < index := by
  have ordered := List.pairwise_lt_finRange count
  rw [shape, List.pairwise_append, List.pairwise_cons] at ordered
  obtain ⟨_, ⟨behind, _⟩, smaller⟩ := ordered
  have position : before.length = index.val := by
    have inside : before.length < (List.finRange count).length := by simp [shape]
    have here : (List.finRange count)[before.length] = index := by simp [shape]
    rw [List.getElem_finRange] at here
    exact congrArg Fin.val here
  refine ⟨by rw [shape, ← position, List.take_left], fun other => ⟨fun member => ?_, fun less => ?_⟩⟩
  · exact smaller other member index List.mem_cons_self
  · have member := List.mem_finRange other
    rw [shape, List.mem_append, List.mem_cons] at member
    rcases member with member | rfl | member
    · exact member
    · exact absurd less (Fin.lt_irrefl _)
    · exact absurd less (Fin.lt_asymm (behind other member))

variable {registry : Registry capacity} {memory : Memory} {result : Except NvmError Unit}
  {after : Journal}

theorem resetAll_stopped
    (completes : Completes (faulty scrambled) registry.resetAll ⟨memory, []⟩ result after) :
    Stopped registry memory result after := by
  rw [resetAll_writes] at completes
  have outcome := writeAll_outcome _ completes
  cases outcome with
  | complete =>
    refine .complete (List.nil_append _) fun name => ?_
    rw [run_get, patchAll_resets, readFrame_resetFrames, if_pos (List.mem_finRange _)]
  | failed shape left =>
    obtain ⟨before, index, behind, first, second, items, cut, rfl⟩ := flatMap_split shape
    obtain ⟨taken, smaller⟩ := finRange_split items
    rw [patchAll_append] at left
    refine .failed index cut ?_ (fun name earlier => ?_) fun name later => ?_
    · rw [← taken, List.nil_append]
    · rw [run_get, readFrame_stopped (Fin.ne_of_lt earlier) cut left, patchAll_resets, readFrame_resetFrames,
        if_pos ((smaller _).mpr earlier)]
    · have outside : name.index ∉ before := fun member => Fin.lt_asymm later ((smaller _).mp member)
      rw [run_get, run_get, readFrame_stopped (Fin.ne_of_gt later) cut left, patchAll_resets, readFrame_resetFrames,
        if_neg outside]

/-- The first error stops `reset_all` and is what it returns; the parameters before the one it
stopped at read their defaults, those behind it what they read before. -/
def StopsCleanly (registry : Registry capacity) (memory : Memory) (result : Except NvmError Unit)
    (after : Journal) : Prop :=
  (result = .ok () ↔ ∀ issued ∈ after.log, issued.2 = .ok ()) ∧
    (result = .ok () → ∀ name, (run plain (registry.get name) after.memory).1 =
      .ok (registry.layout.defaultValue name.index).1) ∧
    ∀ failing e, (failing, .error e) ∈ after.log → result = .error e ∧
      ∃ (index : registry.layout.Index) (done rest : List Write),
        resetWrites registry.layout index = done ++ failing :: rest ∧
        after.log = succeeded (((List.finRange registry.layout.count).take index).flatMap
          (resetWrites registry.layout) ++ done) ++ [(failing, .error e)] ∧
        (∀ name : registry.layout.Name, name.index < index →
          (run plain (registry.get name) after.memory).1 =
            .ok (registry.layout.defaultValue name.index).1) ∧
        ∀ name : registry.layout.Name, index < name.index →
          (run plain (registry.get name) after.memory).1 = (run plain (registry.get name) memory).1

theorem succeeded_ok (writes : List Write) : ∀ issued ∈ succeeded writes, issued.2 = .ok () := by
  intro issued member
  obtain ⟨write, _, rfl⟩ := List.mem_map.mp member
  rfl

theorem resetAll_stops_cleanly {capacity : Nat} {registry : Registry capacity} {memory : Memory}
    {result : Except NvmError Unit} {after : Journal}
    (completes : Completes (faulty scrambled) registry.resetAll ⟨memory, []⟩ result after) :
    StopsCleanly registry memory result after := by
  cases resetAll_stopped completes with
  | complete all defaults =>
    have good : ∀ issued ∈ after.log, issued.2 = .ok () := all ▸ succeeded_ok _
    refine ⟨iff_of_true rfl good, fun _ => defaults, fun failing e member => ?_⟩
    cases good _ member
  | @failed done failing rest e _ index shape before defaults unchanged =>
    have member : (failing, .error e) ∈ after.log := by simp [before]
    have bad : ¬∀ issued ∈ after.log, issued.2 = .ok () := by
      intro good
      cases good _ member
    refine ⟨iff_of_false (by simp) bad, by simp, fun other e' logged => ?_⟩
    rw [before, List.mem_append, List.mem_singleton] at logged
    rcases logged with earlier | last
    · cases succeeded_ok _ _ earlier
    · obtain ⟨rfl, same⟩ := Prod.mk.inj last
      obtain rfl := Except.error.inj same
      exact ⟨rfl, index, done, rest, shape, before, defaults, unchanged⟩

/-- The write of the first value fails. -/
theorem resetAll_stops_cleanly_testing :
    let memory : Memory := fun _ => 0
    let hash := NvmTornSet.testingRegistry.layout.hashes (0 : Fin 2)
    StopsCleanly NvmTornSet.testingRegistry memory (.error .timeout)
      ⟨patch memory 0 hash, [((0, hash), .ok ()), ((4, [1, 0, 0, 0]), .error .timeout)]⟩ := by
  intro memory hash
  refine resetAll_stops_cleanly ?_
  rw [resetAll_writes]
  exact ⟨.ok (), ⟨patch memory 0 hash, [((0, hash), .ok ())]⟩, ⟨rfl, .inl ⟨rfl, rfl⟩⟩,
    .error .timeout, ⟨patch memory 0 hash, _⟩, ⟨rfl, .inr ⟨.timeout, rfl, confined_refl⟩⟩, rfl, rfl⟩

end Emblib.NvmFaults
