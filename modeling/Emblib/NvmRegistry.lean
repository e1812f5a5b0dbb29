import Emblib.Library.Program
import Emblib.NvmLayout

/-! The NVM registry. The storage backend is a template argument, so the members are
programs of its reads and writes, each of which may return an error. A registry exists
only for a layout without colliding hashes that fits its storage. -/
namespace Emblib.NvmRegistry
open Programs ByteMemory NvmLayout

inductive NvmError where
  | timeout
  | busError
  | invalidArgument
  | accessDenied
  | hashMismatch
  | crcMismatch
  deriving DecidableEq, Repr

/-! ## `some_storage` -/

/-- A read of the object bytes of a type of this size, or a write of object bytes. -/
inductive Call where
  | read (addr size : Nat)
  | write (addr : Nat) (bytes : List UInt8)
  deriving DecidableEq, Repr

def Reply : Call → Type
  | .read .. => Except NvmError (List UInt8)
  | .write .. => Except NvmError Unit

abbrev Storage (A : Type) := Program Call Reply A

def storageRead (addr size : Nat) : Storage (Except NvmError (List UInt8)) :=
  Program.perform (Call.read addr size)

def storageWrite (addr : Nat) (bytes : List UInt8) : Storage (Except NvmError Unit) :=
  Program.perform (Call.write addr bytes)

/-- Return the error of an access, or go on with its value. -/
def orReturn (access : Storage (Except NvmError A)) (next : A → Storage (Except NvmError B)) :
    Storage (Except NvmError B) := do
  match ← access with
  | .error e => return .error e
  | .ok value => next value

theorem orReturn_issues {access : Storage (Except NvmError A)}
    {next : A → Storage (Except NvmError B)} (first : access.Issues allowed)
    (rest : ∀ value, (next value).Issues allowed) : (orReturn access next).Issues allowed := by
  refine Program.issues_bind first ?_
  intro result
  cases result with
  | error e => trivial
  | ok value => exact rest value

theorem orReturn_ok {access : Storage (Except NvmError A)} {next : A → Storage (Except NvmError B)}
    {handler : (call : Call) → S → Reply call × S} (good : run handler access state = (.ok value, after)) :
    run handler (orReturn access next) state = run handler (next value) after := by
  rw [orReturn, run_bind, good]

/-! ## `registry` -/

/-- The static asserts of the class. -/
structure Registry (capacity : Nat) where
  layout : Layout
  unique : layout.namesUnique = true
  fits : layout.base + layout.size ≤ capacity

namespace Registry
variable {capacity : Nat}

def get (registry : Registry capacity) (name : registry.layout.Name) :
    Storage (Except NvmError (List UInt8)) :=
  let hash := registry.layout.hashes name.index
  let hashLoc := registry.layout.offsetOf name.index
  let valLoc := hashLoc + registry.layout.hashFn.size
  let crcLoc := valLoc + registry.layout.sizes name.index
  orReturn (storageRead hashLoc registry.layout.hashFn.size) fun h =>
    if h ≠ hash then
      return .error .hashMismatch
    else
      orReturn (storageRead valLoc (registry.layout.sizes name.index)) fun val =>
        orReturn (storageRead crcLoc registry.layout.crcFn.size) fun storedCrc =>
          if storedCrc ≠ registry.layout.crcFn.crc hash val then
            return .error .crcMismatch
          else
            return .ok val

def set (registry : Registry capacity) (name : registry.layout.Name)
    (val : registry.layout.Value name.index) : Storage (Except NvmError Unit) :=
  let hash := registry.layout.hashes name.index
  let hashLoc := registry.layout.offsetOf name.index
  let valLoc := hashLoc + registry.layout.hashFn.size
  let crcLoc := valLoc + registry.layout.sizes name.index
  orReturn (storageWrite hashLoc hash) fun _ =>
    orReturn (storageWrite valLoc val.1) fun _ =>
      storageWrite crcLoc (registry.layout.crcFn.crc hash val.1)

def reset (registry : Registry capacity) (name : registry.layout.Name) :
    Storage (Except NvmError Unit) :=
  registry.set name (registry.layout.defaultValue name.index)

/-- `P::name` of the parameter at an index. -/
def nameAt (registry : Registry capacity) (index : registry.layout.Index) : registry.layout.Name :=
  ownName registry.unique index

/-- One unrolled step of `reset_all`. -/
def resetNext (registry : Registry capacity) (r : Except NvmError Unit)
    (index : registry.layout.Index) : Storage (Except NvmError Unit) :=
  match r with
  | .ok () => registry.reset (registry.nameAt index)
  | .error e => return .error e

def resetAll (registry : Registry capacity) : Storage (Except NvmError Unit) :=
  (List.finRange registry.layout.count).foldlM registry.resetNext (.ok ())

/-- The loop of `erase` over the `count` addresses from `off` on. -/
def eraseFrom : Nat → Nat → Storage (Except NvmError Unit)
  | 0, _ => return .ok ()
  | count + 1, off => orReturn (storageWrite off [0]) fun _ => eraseFrom count (off + 1)

def erase (registry : Registry capacity) : Storage (Except NvmError Unit) :=
  eraseFrom registry.layout.size registry.layout.base

end Registry

/-! ## The calls of a registry -/

/-- The call stays in the `size` addresses from `base` on. -/
def Call.Within (base size : Nat) : Call → Prop
  | .read addr count => base ≤ addr ∧ addr + count ≤ base + size
  | .write addr bytes => base ≤ addr ∧ addr + bytes.length ≤ base + size

section Calls
variable {capacity : Nat} {registry : Registry capacity}

/-- The pieces of a frame lie in the range of the layout. -/
theorem pieces_within (index : registry.layout.Index) :
    registry.layout.base ≤ registry.layout.offsetOf index ∧
      registry.layout.offsetOf index + registry.layout.hashFn.size + registry.layout.sizes index +
        registry.layout.crcFn.size ≤ registry.layout.base + registry.layout.size := by
  have low := @base_le_offsetOf registry.layout index
  have high := frame_inside index
  simp only [Layout.overhead] at high
  exact ⟨low, by omega⟩

theorem get_issues (name : registry.layout.Name) :
    (registry.get name).Issues (Call.Within registry.layout.base registry.layout.size) := by
  have pieces := pieces_within name.index
  refine orReturn_issues ⟨⟨by omega, by omega⟩, fun _ => trivial⟩ ?_
  intro h
  split
  · trivial
  refine orReturn_issues ⟨⟨by omega, by omega⟩, fun _ => trivial⟩ ?_
  intro val
  refine orReturn_issues ⟨⟨by omega, by omega⟩, fun _ => trivial⟩ ?_
  intro storedCrc
  split <;> trivial

theorem set_issues (name : registry.layout.Name) (val : registry.layout.Value name.index) :
    (registry.set name val).Issues (Call.Within registry.layout.base registry.layout.size) := by
  have pieces := pieces_within name.index
  have hashSize := hashes_length name.index
  have valSize := val.2
  have crcSize := @crc_length registry.layout (registry.layout.hashes name.index) val.1
  refine orReturn_issues ⟨⟨by omega, by omega⟩, fun _ => trivial⟩ ?_
  intro _
  refine orReturn_issues ⟨⟨by omega, by omega⟩, fun _ => trivial⟩ ?_
  intro _
  exact ⟨⟨by omega, by omega⟩, fun _ => trivial⟩

theorem resetAll_issues :
    registry.resetAll.Issues (Call.Within registry.layout.base registry.layout.size) := by
  unfold Registry.resetAll
  generalize (Except.ok () : Except NvmError Unit) = r
  induction List.finRange registry.layout.count generalizing r with
  | nil => trivial
  | cons index rest ih =>
    rw [List.foldlM_cons]
    refine Program.issues_bind ?_ ih
    cases r with
    | error e => trivial
    | ok _ => exact set_issues _ _

end Calls

end Emblib.NvmRegistry
