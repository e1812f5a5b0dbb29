import Emblib.EepromDevice

/-! The typed read of the redundant storage. It reads into a local array and copies the array to
the object of the caller, whatever the status is; so a read that fails puts into the object what the
array was left with. -/
namespace Emblib.EepromTypedRead
open Programs ByteMemory EepromStorage EepromDevice

variable {size : Nat}

/-- `storage::read<T>` for a type of this size. `data` is the object of the caller and `dataBytes`
the local array, which is not initialized. -/
def readTyped (config : Config) (storage : Storage) (page : Nat) (data dataBytes : Vector UInt8 size)
    (timeout : Int) : Driver (Status × List UInt8 × Storage) := do
  let (sts, bytes, storage) ← storage.read config page dataBytes.toList size timeout
  -- `memcpy`, without a look at the status
  return (sts, overwrite data.toList (bytes.take size), storage)

/-! ## A driver that fails as it likes -/

/-- What a call that fails does: a read leaves some bytes in its buffer, a write makes something of
the page. -/
def Fault : Call → Type
  | .read _ _ len _ => { reply : Status × List UInt8 // reply.1 ≠ .ok ∧ reply.2.length = len }
  | .write .. => { sts : Status // sts ≠ .ok } × (Memory → Memory)

/-- The calls that fail, and how. No call of one read is made twice. -/
abbrev Faults : Type := (call : Call) → Option (Fault call)

def fail : (call : Call) → Fault call → Pages → Reply call × Pages
  | .read .., fault, pages => (fault.1, pages)
  | .write page _ _ _, fault, pages => (fault.1.1, Function.update pages page (fault.2 (pages page)))

def failing (faults : Faults) (call : Call) (pages : Pages) : Reply call × Pages :=
  match faults call with
  | none => clean call pages
  | some fault => fail call fault pages

section Failing
variable {faults : Faults} {config : Config} {pages : Pages} {page offset len : Nat} {timeout : Int}

/-- What a read of the driver leaves in its buffer. -/
def leftBy (faults : Faults) (pages : Pages) (page offset len : Nat) (timeout : Int) : List UInt8 :=
  (failing faults (.read page offset len timeout) pages).1.2

/-- The read of the driver succeeds. -/
def Succeeds (faults : Faults) (page offset len : Nat) (timeout : Int) : Prop :=
  faults (.read page offset len timeout) = none

theorem failing_read (faults : Faults) (pages : Pages) (page offset len : Nat) (timeout : Int) :
    (failing faults (.read page offset len timeout) pages).2 = pages ∧
      (leftBy faults pages page offset len timeout).length = len ∧
      ((failing faults (.read page offset len timeout) pages).1.1 = .ok ↔
        Succeeds faults page offset len timeout) ∧
      (Succeeds faults page offset len timeout →
        leftBy faults pages page offset len timeout = slice (pages page) offset len) := by
  unfold leftBy Succeeds failing
  cases faults (.read page offset len timeout) with
  | none => exact ⟨rfl, slice_length, ⟨fun _ => rfl, fun _ => rfl⟩, fun _ => rfl⟩
  | some fault =>
    obtain ⟨reply, failed, length⟩ := fault
    exact ⟨rfl, length, ⟨fun ok => absurd ok failed, nofun⟩, nofun⟩

/-! ## One copy -/

theorem run_driverRead {A : Type} (next : Status × List UInt8 → Driver A) :
    run (failing faults) (driverRead page offset len timeout >>= next) pages =
      run (failing faults)
        (next ((failing faults (.read page offset len timeout) pages).1.1,
          leftBy faults pages page offset len timeout)) pages := by
  have same := (failing_read faults pages page offset len timeout).1
  calc run (failing faults) (driverRead page offset len timeout >>= next) pages
      = run (failing faults) (next (failing faults (.read page offset len timeout) pages).1)
          (failing faults (.read page offset len timeout) pages).2 := rfl
    _ = run (failing faults) (next (failing faults (.read page offset len timeout) pages).1) pages := by
        rw [same]

/-- The copy can be read, and its CRC matches. -/
structure GoodCopy (faults : Faults) (config : Config) (pages : Pages) (page len : Nat) (timeout : Int) :
    Prop where
  data : Succeeds faults page 0 len timeout
  crc : Succeeds faults page len 4 timeout
  verifies : Verifies config pages page len

/-- What `read` knows of a copy, and what it has put into the buffer. -/
theorem run_readCopy (faults : Faults) (config : Config) (pages : Pages) (page len : Nat)
    (buf : List UInt8) (errors : Errors) (timeout : Int) :
    ∃ copy, run (failing faults) (readCopy config page buf len errors timeout) pages = (copy, pages) ∧
      copy.buf = overwrite buf (leftBy faults pages page 0 len timeout) ∧
      (copy.ok = true ↔ GoodCopy faults config pages page len timeout) := by
  obtain ⟨_, length, dataOk, dataRead⟩ := failing_read faults pages page 0 len timeout
  obtain ⟨_, _, crcOk, crcRead⟩ := failing_read faults pages page len 4 timeout
  unfold readCopy
  rw [run_driverRead]
  by_cases readable : Succeeds faults page 0 len timeout
  · have exactly : (overwrite buf (leftBy faults pages page 0 len timeout)).take len =
        data pages page len := by
      rw [overwrite_take buf length]
      exact dataRead readable
    simp only [dataOk.mpr readable, ne_eq, not_true_eq_false, if_false, exactly]
    rw [run_driverRead]
    by_cases checkable : Succeeds faults page len 4 timeout
    · simp only [crcOk.mpr checkable, not_true_eq_false, if_false, crcRead checkable]
      split
      case isTrue verifies =>
        exact ⟨_, rfl, rfl, fun _ => ⟨readable, checkable, verifies⟩, fun _ => rfl⟩
      case isFalse differs =>
        exact ⟨_, rfl, rfl, nofun, fun good => absurd good.verifies differs⟩
    · have failed := mt crcOk.mp checkable
      simp only [failed, not_false_eq_true, if_true]
      exact ⟨_, rfl, rfl, nofun, fun good => absurd good.crc checkable⟩
  · have failed := mt dataOk.mp readable
    simp only [failed, ne_eq, not_false_eq_true, if_true]
    exact ⟨_, rfl, rfl, nofun, fun good => absurd good.data readable⟩

theorem leftBy_good (good : GoodCopy faults config pages page len timeout) :
    leftBy faults pages page 0 len timeout = data pages page len :=
  (failing_read faults pages page 0 len timeout).2.2.2 good.data

/-! ## One read -/

theorem overwrite_all (sized : buf.length ≤ bytes.length) : overwrite buf bytes = bytes := by
  rw [overwrite, List.drop_eq_nil_of_le sized, List.append_nil]

section ReadEnd
variable {primary secondary : CopyRead}

/-- The first copy is good: it is what the buffer holds, and it may replace the second one. -/
theorem run_readEnd_primary (primaryOk : primary.ok = true) :
    let result := (run (failing faults) (readEnd config page len primary secondary timeout) pages).1
    result.1 = .ok ∧ result.2.1 = primary.buf := by
  by_cases agree : secondary.ok = true ∧ primary.crc = secondary.crc
  · rw [readEnd_agree primaryOk agree.1 agree.2]
    exact ⟨rfl, rfl⟩
  · rw [readEnd_outdated primaryOk fun secondaryOk same => agree ⟨secondaryOk, same⟩]
    exact ⟨rfl, rfl⟩

/-- Only the second copy is good: it replaces the first one, in the buffer too. -/
theorem run_readEnd_secondary (primaryBad : primary.ok = false) (secondaryOk : secondary.ok = true) :
    let result := (run (failing faults) (readEnd config page len primary secondary timeout) pages).1
    result.1 = .ok ∧ result.2.1 = overwrite primary.buf (secondary.buf.take len) := by
  rw [readEnd_restore primaryBad secondaryOk]
  exact ⟨rfl, rfl⟩

theorem run_readEnd_failed (primaryBad : primary.ok = false) (secondaryBad : secondary.ok = false) :
    let result := (run (failing faults) (readEnd config page len primary secondary timeout) pages).1
    result.1 ≠ .ok ∧ result.2.1 = primary.buf := by
  obtain ⟨sts, errors, failed, same⟩ := readEnd_failed primaryBad secondaryBad
  rw [same]
  exact ⟨failed, rfl⟩

end ReadEnd

/-- What a read that is accepted leaves in its buffer: a copy that is good, or what the first read
of the driver has left there. -/
theorem run_read (faults : Faults) (pages : Pages) (timeout : Int) (storage : Storage)
    {dataBytes : List UInt8} (sized : dataBytes.length = len)
    (inside : page < config.availablePageCount) (fits : len < config.availablePageBytes) :
    let result := (run (failing faults) (storage.read config page dataBytes len timeout) pages).1
    (GoodCopy faults config pages page len timeout →
      result.1 = .ok ∧ result.2.1 = data pages page len) ∧
    (¬ GoodCopy faults config pages page len timeout →
      GoodCopy faults config pages (config.secondaryPage page) len timeout →
        result.1 = .ok ∧ result.2.1 = data pages (config.secondaryPage page) len) ∧
    (¬ GoodCopy faults config pages page len timeout →
      ¬ GoodCopy faults config pages (config.secondaryPage page) len timeout →
        result.1 ≠ .ok ∧ result.2.1 = leftBy faults pages page 0 len timeout) := by
  obtain ⟨primary, ranPrimary, primaryBuf, primaryOk⟩ :=
    run_readCopy faults config pages page len dataBytes storage.errors timeout
  obtain ⟨secondary, ranSecondary, secondaryBuf, secondaryOk⟩ :=
    run_readCopy faults config pages (config.secondaryPage page) len storage.backupBuf primary.errors
      timeout
  have leftSize (copy : Nat) : (leftBy faults pages copy 0 len timeout).length = len :=
    (failing_read faults pages copy 0 len timeout).2.1
  rw [overwrite_all (sized.le.trans (leftSize page).ge)] at primaryBuf
  unfold Storage.read
  rw [if_neg (not_le.mpr inside), if_neg (not_le.mpr fits)]
  simp only [run_bind, ranPrimary, ranSecondary]
  refine ⟨fun good => ?_, fun bad good => ?_, fun bad alsoBad => ?_⟩
  · rw [← leftBy_good good, ← primaryBuf]
    exact run_readEnd_primary (primaryOk.mpr good)
  · have restored : overwrite primary.buf (secondary.buf.take len) =
        data pages (config.secondaryPage page) len := by
      rw [secondaryBuf, overwrite_take _ (leftSize _), leftBy_good good, primaryBuf]
      exact overwrite_all ((leftSize page).trans data_length.symm).le
    rw [← restored]
    exact run_readEnd_secondary (Bool.eq_false_iff.mpr (mt primaryOk.mp bad)) (secondaryOk.mpr good)
  · rw [← primaryBuf]
    exact run_readEnd_failed (Bool.eq_false_iff.mpr (mt primaryOk.mp bad))
      (Bool.eq_false_iff.mpr (mt secondaryOk.mp alsoBad))

theorem run_rejected (faults : Faults) (pages : Pages) (timeout : Int) (storage : Storage)
    (dataBytes : List UInt8)
    (rejected : ¬ (page < config.availablePageCount ∧ len < config.availablePageBytes)) :
    let result := (run (failing faults) (storage.read config page dataBytes len timeout) pages).1
    result.1 ≠ .ok ∧ result.2.1 = dataBytes := by
  rw [read_rejected rejected]
  exact ⟨rejection_ne_ok config page, rfl⟩

end Failing

/-! ## The object of the caller -/

section Object
variable (faults : Faults) (config : Config) (pages : Pages) (page : Nat) (dataBytes : Vector UInt8 size)
  (timeout : Int)

/-- The page and the size pass the checks, and one of the copies is good. -/
def Restorable (size : Nat) : Prop :=
  (page < config.availablePageCount ∧ size < config.availablePageBytes) ∧
    (GoodCopy faults config pages page size timeout ∨
      GoodCopy faults config pages (config.secondaryPage page) size timeout)

/-- The bytes of the local array where no copy is good: what it happens to contain, or what the first
read of the driver leaves in it. -/
def leftover : List UInt8 :=
  if page < config.availablePageCount ∧ size < config.availablePageBytes then
    leftBy faults pages page 0 size timeout
  else dataBytes.toList

/-- The object has changed only if the status is `ok`, and then it is the image of a copy whose CRC
matches. -/
def ChangedOnlyByOk (config : Config) (pages : Pages) (page size : Nat) (object : List UInt8) (sts : Status)
    (after : List UInt8) : Prop :=
  (sts ≠ .ok → after = object) ∧
    (sts = .ok → ∃ copy, (copy = page ∨ copy = config.secondaryPage page) ∧
      Verifies config pages copy size ∧ after = data pages copy size)

/-- The typed read succeeds with a copy that is good, and otherwise leaves the bytes of its array in
the object. -/
theorem run_readTyped (storage : Storage) (object : Vector UInt8 size) :
    let result :=
      (run (failing faults) (readTyped config storage page object dataBytes timeout) pages).1
    (Restorable faults config pages page timeout size →
      result.1 = .ok ∧ ∃ copy, (copy = page ∨ copy = config.secondaryPage page) ∧
        Verifies config pages copy size ∧ result.2.1 = data pages copy size) ∧
    (¬ Restorable faults config pages page timeout size →
      result.1 ≠ .ok ∧ result.2.1 = leftover faults config pages page dataBytes timeout) := by
  have whole {bytes : List UInt8} (length : bytes.length = size) :
      overwrite object.toList (bytes.take size) = bytes := by
    rw [List.take_of_length_le length.le]
    exact overwrite_all (by simp [length])
  unfold readTyped leftover
  simp only [run_bind]
  by_cases accepted : page < config.availablePageCount ∧ size < config.availablePageBytes
  · obtain ⟨primary, secondary, neither⟩ := run_read faults pages timeout storage dataBytes.length_toList
      accepted.1 accepted.2
    rw [if_pos accepted]
    refine ⟨fun restorable => ?_, fun lost => ?_⟩
    · by_cases good : GoodCopy faults config pages page size timeout
      · obtain ⟨succeeds, read⟩ := primary good
        refine ⟨succeeds, page, .inl rfl, good.verifies, ?_⟩
        exact (whole (by rw [read]; exact data_length)).trans read
      · have other := restorable.2.resolve_left good
        obtain ⟨succeeds, read⟩ := secondary good other
        refine ⟨succeeds, config.secondaryPage page, .inr rfl, other.verifies, ?_⟩
        exact (whole (by rw [read]; exact data_length)).trans read
    · obtain ⟨fails, read⟩ := neither (fun good => lost ⟨accepted, .inl good⟩)
        (fun good => lost ⟨accepted, .inr good⟩)
      have length := (failing_read faults pages page 0 size timeout).2.1
      exact ⟨fails, (whole (by rw [read]; exact length)).trans read⟩
  · obtain ⟨fails, read⟩ := run_rejected faults pages timeout storage dataBytes.toList accepted
    rw [if_neg accepted]
    refine ⟨fun restorable => absurd restorable.1 accepted, fun _ => ⟨fails, ?_⟩⟩
    exact (whole (by rw [read]; exact dataBytes.length_toList)).trans read

/-- **A failed typed read leaves the object alone** exactly where the bytes that the array is left
with are those of the object: a read that fails does not leave the object alone, it copies the array. -/
theorem failed_read_keeps_object_iff (storage : Storage) (object : Vector UInt8 size) :
    let result :=
      (run (failing faults) (readTyped config storage page object dataBytes timeout) pages).1
    ChangedOnlyByOk config pages page size object.toList result.1 result.2.1 ↔
      Restorable faults config pages page timeout size ∨
        leftover faults config pages page dataBytes timeout = object.toList := by
  intro result
  obtain ⟨restores, loses⟩ := run_readTyped faults config pages page dataBytes timeout storage object
  by_cases restorable : Restorable faults config pages page timeout size
  · obtain ⟨succeeds, image⟩ := restores restorable
    exact iff_of_true ⟨fun failed => absurd succeeds failed, fun _ => image⟩ (.inl restorable)
  · obtain ⟨fails, copied⟩ := loses restorable
    constructor
    · intro alone
      exact .inr (copied.symm.trans (alone.1 fails))
    · intro condition
      have same := condition.resolve_left restorable
      exact ⟨fun _ => copied.trans same, fun succeeds => absurd succeeds fails⟩

end Object

/-- A typed read of a blank page, where no copy verifies, reports `data_corrupted` and clears the object
of the caller. -/
theorem corrupted_read_clears_object :
    let object : Vector UInt8 4 := #v[1, 2, 3, 4]
    let result := (run (failing fun _ => none)
      (readTyped testingConfig ⟨[], {}⟩ 0 object #v[9, 9, 9, 9] 0) blank).1
    result.1 = .dataCorrupted ∧ result.2.1 = [0, 0, 0, 0] ∧
      ¬ ChangedOnlyByOk testingConfig blank 0 4 object.toList result.1 result.2.1 := by
  intro object result
  have read : result.1 = .dataCorrupted ∧ result.2.1 = [0, 0, 0, 0] := by decide +kernel
  refine ⟨read.1, read.2, fun alone => ?_⟩
  have kept := alone.1 (by rw [read.1]; nofun)
  rw [read.2] at kept
  cases kept

end Emblib.EepromTypedRead
