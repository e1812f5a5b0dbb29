import Emblib.Library.Program
import Emblib.Library.Memory

/-! The redundant EEPROM storage. A logical page is kept twice, each copy being the
data followed by its CRC. `write` fills both copies; `read` checks both and repairs
the one that is corrupted or outdated. The driver is outside the repository, so the
functions are programs of driver calls. Asserts are compiled out. -/
namespace Emblib.EepromStorage
open Programs ByteMemory

inductive Status where
  | ok
  | readFailed
  | writeFailed
  | readTimeout
  | writeTimeout
  | invalidAddress
  | invalidDataSize
  | dataCorrupted
  | noDevice
  deriving DecidableEq, Repr

/-! ## The driver interface -/

/-- A call of the virtual driver class. -/
inductive Call where
  | read (page offset len : Nat) (timeout : Int)
  | write (page offset : Nat) (bytes : List UInt8) (timeout : Int)
  deriving DecidableEq, Repr

namespace Call

/-- The page that is addressed. -/
def page : Call → Nat
  | read page _ _ _ => page
  | write page _ _ _ => page

def offset : Call → Nat
  | read _ offset _ _ => offset
  | write _ offset _ _ => offset

/-- The number of bytes that are addressed. -/
def size : Call → Nat
  | read _ _ len _ => len
  | write _ _ bytes _ => bytes.length

end Call

/-- A read returns its status with what it left in the buffer it was given. -/
def Reply : Call → Type
  | .read .. => Status × List UInt8
  | .write .. => Status

abbrev Driver (A : Type) := Program Call Reply A

def driverRead (page offset len : Nat) (timeout : Int) : Driver (Status × List UInt8) :=
  Program.perform (Call.read page offset len timeout)

def driverWrite (page offset : Nat) (bytes : List UInt8) (timeout : Int) : Driver Status :=
  Program.perform (Call.write page offset bytes timeout)

/-! ## The storage object -/

/-- What the constructor is given: the driver's geometry, the CRC function, and the
target's `size_t` width and byte order. -/
structure Config where
  pageBytes : Nat
  pageCount : Nat
  calcCrc32 : List UInt8 → UInt32
  sizeBits : Nat
  order : ByteOrder

namespace Config

/-- Unsigned subtraction of the target's `size_t`. -/
def sizeSub (config : Config) (left right : Nat) : Nat :=
  (left + 2 ^ config.sizeBits - right) % 2 ^ config.sizeBits

def availablePageBytes (config : Config) : Nat := config.sizeSub config.pageBytes 4

def availablePageCount (config : Config) : Nat := config.sizeSub config.pageCount 2 / 2

/-- The page of the second copy. -/
def secondaryPage (config : Config) (page : Nat) : Nat := page + config.availablePageCount

/-- `memcpy` of a CRC into its four bytes. -/
def crcBytes (config : Config) (crc : UInt32) : List UInt8 := config.order.encode 4 crc.toNat

/-- `memcpy` of four bytes into a CRC. -/
def crcOfBytes (config : Config) (bytes : List UInt8) : UInt32 := UInt32.ofNat (config.order.decode bytes)

end Config

structure Errors where
  read : UInt32 := 0
  write : UInt32 := 0
  crcMismatch : UInt32 := 0
  primaryDataCorrupted : UInt32 := 0
  secondaryDataCorrupted : UInt32 := 0
  fatal : UInt32 := 0
  deriving DecidableEq, Repr

namespace Errors

def countRead (errors : Errors) : Errors := { errors with read := errors.read + 1 }

def countWrite (errors : Errors) : Errors := { errors with write := errors.write + 1 }

def countCrcMismatch (errors : Errors) : Errors :=
  { errors with crcMismatch := errors.crcMismatch + 1 }

def countPrimaryDataCorrupted (errors : Errors) : Errors :=
  { errors with primaryDataCorrupted := errors.primaryDataCorrupted + 1 }

def countSecondaryDataCorrupted (errors : Errors) : Errors :=
  { errors with secondaryDataCorrupted := errors.secondaryDataCorrupted + 1 }

def countFatal (errors : Errors) : Errors := { errors with fatal := errors.fatal + 1 }

end Errors

/-- The members a call may change. -/
structure Storage where
  backupBuf : List UInt8
  errors : Errors := {}
  deriving DecidableEq, Repr

/-- Bytes stored at the front of a buffer, the rest of which keeps its contents. -/
def overwrite (buf bytes : List UInt8) : List UInt8 := bytes ++ buf.drop bytes.length

theorem overwrite_take (buf : List UInt8) (size : bytes.length = len) :
    (overwrite buf bytes).take len = bytes := by
  subst size
  simp [overwrite]

/-! ## `storage::write` -/

/-- One copy written as `write` does it: data, then CRC, stopping at the first error. -/
def writeCopy (page : Nat) (buf : List UInt8) (len : Nat) (crcBytes : List UInt8) (timeout : Int) :
    Driver Status := do
  let sts ← driverWrite page 0 (buf.take len) timeout
  if sts ≠ .ok then
    return sts
  else
    driverWrite page len crcBytes timeout

def Storage.write (config : Config) (storage : Storage) (page : Nat) (buf : List UInt8) (len : Nat)
    (timeout : Int) : Driver (Status × Storage) :=
  if page ≥ config.availablePageCount then
    return (.invalidAddress, storage)
  else if len ≥ config.availablePageBytes then
    return (.invalidDataSize, storage)
  else do
    let crcBytes := config.crcBytes (config.calcCrc32 (buf.take len))
    let sts ← writeCopy page buf len crcBytes timeout
    if sts ≠ .ok then
      return (sts, { storage with errors := storage.errors.countWrite })
    else
      let sts ← writeCopy (config.secondaryPage page) buf len crcBytes timeout
      if sts ≠ .ok then
        return (sts, { storage with errors := storage.errors.countWrite })
      else
        return (sts, storage)

/-! ## `storage::read` -/

/-- The locals of `read` after it has looked at one copy. -/
structure CopyRead where
  sts : Status
  buf : List UInt8
  crc : UInt32
  ok : Bool
  errors : Errors

/-- One copy read and checked. A driver error jumps past the CRC comparison, with the
copy's flag still false and whatever the driver left in the buffer. -/
def readCopy (config : Config) (page : Nat) (buf : List UInt8) (len : Nat) (errors : Errors)
    (timeout : Int) : Driver CopyRead := do
  let (sts, bytes) ← driverRead page 0 len timeout
  let buf := overwrite buf bytes
  if sts ≠ .ok then
    return { sts, buf, crc := 0, ok := false, errors := errors.countRead }
  else
    let (sts, crcBytes) ← driverRead page len 4 timeout
    if sts ≠ .ok then
      return { sts, buf, crc := 0, ok := false, errors := errors.countRead }
    else
      let storedCrc := config.crcOfBytes crcBytes
      let crc := config.calcCrc32 (buf.take len)
      if crc = storedCrc then
        return { sts, buf, crc, ok := true, errors }
      else
        return { sts, buf, crc, ok := false, errors := errors.countCrcMismatch }

/-- One copy rewritten as `read` does it: the statuses of both writes are ignored. -/
def repairCopy (config : Config) (page : Nat) (buf : List UInt8) (len : Nat) (crc : UInt32)
    (timeout : Int) : Driver Unit := do
  let _ ← driverWrite page 0 (buf.take len) timeout
  let _ ← driverWrite page len (config.crcBytes crc) timeout
  return ()

/-- The part of `read` behind the label `read_end`. -/
def readEnd (config : Config) (page len : Nat) (primary secondary : CopyRead) (timeout : Int) :
    Driver (Status × List UInt8 × Storage) :=
  if primary.ok && secondary.ok && primary.crc == secondary.crc then
    return (.ok, primary.buf, ⟨secondary.buf, secondary.errors⟩)
  else if (primary.ok && !secondary.ok) ||
      (primary.ok && secondary.ok && primary.crc != secondary.crc) then do
    -- backup is corrupted or outdated
    repairCopy config (config.secondaryPage page) primary.buf len primary.crc timeout
    return (.ok, primary.buf, ⟨secondary.buf, secondary.errors.countSecondaryDataCorrupted⟩)
  else if !primary.ok && secondary.ok then do
    -- restore backup
    let buf := overwrite primary.buf (secondary.buf.take len)
    repairCopy config page secondary.buf len secondary.crc timeout
    return (.ok, buf, ⟨secondary.buf, secondary.errors.countPrimaryDataCorrupted⟩)
  else if secondary.sts = .ok then
    return (.dataCorrupted, primary.buf, ⟨secondary.buf, secondary.errors.countFatal⟩)
  else
    return (secondary.sts, primary.buf, ⟨secondary.buf, secondary.errors⟩)

section ReadEnd
variable {config : Config} {primary secondary : CopyRead} {page len : Nat} {timeout : Int}

/-- Two good copies with equal CRCs are left alone. -/
theorem readEnd_agree (primaryOk : primary.ok = true) (secondaryOk : secondary.ok = true)
    (same : primary.crc = secondary.crc) :
    readEnd config page len primary secondary timeout =
      return (.ok, primary.buf, ⟨secondary.buf, secondary.errors⟩) := by
  simp [readEnd, primaryOk, secondaryOk, same]

/-- A good primary replaces a secondary that is corrupted or outdated. -/
theorem readEnd_outdated (primaryOk : primary.ok = true)
    (stale : secondary.ok = true → primary.crc ≠ secondary.crc) :
    readEnd config page len primary secondary timeout = (do
      repairCopy config (config.secondaryPage page) primary.buf len primary.crc timeout
      return (.ok, primary.buf, ⟨secondary.buf, secondary.errors.countSecondaryDataCorrupted⟩)) := by
  cases secondaryOk : secondary.ok with
  | false => simp [readEnd, primaryOk, secondaryOk]
  | true => simp [readEnd, primaryOk, secondaryOk, stale secondaryOk]

/-- A good secondary restores a primary that is not good. -/
theorem readEnd_restore (primaryBad : primary.ok = false) (secondaryOk : secondary.ok = true) :
    readEnd config page len primary secondary timeout = (do
      repairCopy config page secondary.buf len secondary.crc timeout
      return (.ok, overwrite primary.buf (secondary.buf.take len),
        ⟨secondary.buf, secondary.errors.countPrimaryDataCorrupted⟩)) := by
  simp [readEnd, primaryBad, secondaryOk]

/-- Without a good copy nothing is written and the read does not succeed. -/
theorem readEnd_failed (primaryBad : primary.ok = false) (secondaryBad : secondary.ok = false) :
    ∃ sts errors, sts ≠ .ok ∧ readEnd config page len primary secondary timeout =
      return (sts, primary.buf, ⟨secondary.buf, errors⟩) := by
  by_cases good : secondary.sts = .ok
  · exact ⟨.dataCorrupted, secondary.errors.countFatal, nofun,
      by simp [readEnd, primaryBad, secondaryBad, good]⟩
  · exact ⟨secondary.sts, secondary.errors, good, by simp [readEnd, primaryBad, secondaryBad, good]⟩

end ReadEnd

def Storage.read (config : Config) (storage : Storage) (page : Nat) (buf : List UInt8) (len : Nat)
    (timeout : Int) : Driver (Status × List UInt8 × Storage) :=
  if page ≥ config.availablePageCount then
    return (.invalidAddress, buf, storage)
  else if len ≥ config.availablePageBytes then
    return (.invalidDataSize, buf, storage)
  else do
    let primary ← readCopy config page buf len storage.errors timeout
    let secondary ← readCopy config (config.secondaryPage page) storage.backupBuf len
      primary.errors timeout
    readEnd config page len primary secondary timeout

/-! ## Rejected arguments -/

/-- The status for a page or a length that is out of range. -/
def Config.rejection (config : Config) (page : Nat) : Status :=
  if page ≥ config.availablePageCount then .invalidAddress else .invalidDataSize

theorem rejection_ne_ok (config : Config) (page : Nat) : config.rejection page ≠ .ok := by
  unfold Config.rejection
  split <;> exact nofun

section Rejected
variable {config : Config} {page len : Nat}
  (rejected : ¬ (page < config.availablePageCount ∧ len < config.availablePageBytes))
include rejected

theorem read_rejected (storage : Storage) (buf : List UInt8) (timeout : Int) :
    storage.read config page buf len timeout = return (config.rejection page, buf, storage) := by
  unfold Storage.read Config.rejection
  by_cases outside : page ≥ config.availablePageCount
  · rw [if_pos outside, if_pos outside]
  · have long : len ≥ config.availablePageBytes :=
      not_lt.mp fun fits => rejected ⟨not_le.mp outside, fits⟩
    rw [if_neg outside, if_neg outside, if_pos long]

theorem write_rejected (storage : Storage) (buf : List UInt8) (timeout : Int) :
    storage.write config page buf len timeout = return (config.rejection page, storage) := by
  unfold Storage.write Config.rejection
  by_cases outside : page ≥ config.availablePageCount
  · rw [if_pos outside, if_pos outside]
  · have long : len ≥ config.availablePageBytes :=
      not_lt.mp fun fits => rejected ⟨not_le.mp outside, fits⟩
    rw [if_neg outside, if_neg outside, if_pos long]

end Rejected
end Emblib.EepromStorage
