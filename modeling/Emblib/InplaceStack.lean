import Emblib.InplaceStorage

/-! The member functions of `inplace_stack` and of `inplace_vector`, whose elements start at
the first slot. The two differ in their names and in the accessors that a vector adds. -/
namespace Emblib.InplaceStack
open Programs InplaceStorage
open Program (times timesDown)

variable {N T : Type} (config : Config)

def size : Method T Nat := perform .size

def capacity : Method T Nat := pure config.capacity

def empty : Method T Bool := do return (← size) == 0

def full : Method T Bool := do return (← size) == config.capacity

def destroySlot (i : Nat) : Method T Unit :=
  if config.triviallyDestructible then pure () else perform (.destroy i)

/-- Round `i` of the loop destroys slot `i`, the last one first. -/
def clear : Method T Unit := do
  timesDown (← size) fun i => destroySlot config i
  perform (.setSize 0)

/-- `~inplace_stack`. -/
def destructor : Method T Unit :=
  if config.triviallyDestructible then pure () else clear config

def top : Method T (Slot T) := do
  perform (.assume ((← size) != 0))
  perform (.read ((← size) - 1))

def emplace (args : Argument T) : Method T Unit := do
  perform (.assume ((← size) != config.capacity))
  constructAt config (← size) args
  perform (.setSize ((← size) + 1))

def push (value : Argument T) : Method T Unit := emplace config value

def tryPush (value : Argument T) : Method T Bool := do
  if ← full config then return false
  push config value
  return true

def pop : Method T Unit := do
  perform (.assume ((← size) != 0))
  destroySlot config ((← size) - 1)
  perform (.setSize ((← size) - 1))

def tryPop : Method T (Option (Slot T)) := do
  if ← empty then return none
  let result ← perform (.take ((← size) - 1))
  pop config
  return some result

/-! ## Copies and moves -/

/-- The loop of `copy_construct_from` and `move_construct_from`, which get the elements
differently. -/
def constructFrom (fetch : Nat → Method T (Slot T)) (this other : N) : Code N T Unit := do
  times (← size.on other) fun i => do
    let element ← (fetch i).on other
    (do perform (.construct i element); perform (.setSize ((← size) + 1)) : Method T Unit).on this

def copyConstructFrom (this other : N) : Code N T Unit :=
  constructFrom (fun i => perform (.read i)) this other

def moveConstructFrom (this other : N) : Code N T Unit := do
  constructFrom (fun i => perform (.take i)) this other
  (clear config).on other

/-- A defaulted copy or move of a trivially copyable type. -/
def bitwiseFrom (this other : N) : Code N T Unit := do
  let object ← (perform .bytes).on other
  (perform (.setBytes object)).on this

/-- `inplace_stack(inplace_stack const&)`. -/
def copyConstruct (this other : N) : Code N T Unit := do
  (perform (.setBytes .initial)).on this
  if config.triviallyCopyable then bitwiseFrom this other else copyConstructFrom this other

/-- `inplace_stack(inplace_stack&&)`. -/
def moveConstruct (this other : N) : Code N T Unit := do
  (perform (.setBytes .initial)).on this
  if config.triviallyCopyable then bitwiseFrom this other else moveConstructFrom config this other

/-- `operator=(inplace_stack const&)`. -/
def copyAssign [DecidableEq N] (this other : N) : Code N T Unit :=
  if config.triviallyCopyable then bitwiseFrom this other
  else if this ≠ other then do
    (clear config).on this
    copyConstructFrom this other
  else pure ()

/-- `operator=(inplace_stack&&)`. -/
def moveAssign [DecidableEq N] (this other : N) : Code N T Unit :=
  if config.triviallyCopyable then bitwiseFrom this other
  else if this ≠ other then do
    (clear config).on this
    moveConstructFrom config this other
  else pure ()

end Emblib.InplaceStack

namespace Emblib.InplaceVector
open Programs InplaceStorage

variable {N T : Type} (config : Config)

def size : Method T Nat := InplaceStack.size

def capacity : Method T Nat := InplaceStack.capacity config

def empty : Method T Bool := InplaceStack.empty

def full : Method T Bool := InplaceStack.full config

def clear : Method T Unit := InplaceStack.clear config

/-- `~inplace_vector`. -/
def destructor : Method T Unit := InplaceStack.destructor config

/-- `operator[]`, and every access through an iterator that is in range. -/
def get (i : Nat) : Method T (Slot T) := do
  perform (.assume (i < (← size)))
  perform (.read i)

def front : Method T (Slot T) := do
  perform (.assume ((← size) != 0))
  perform (.read 0)

def back : Method T (Slot T) := InplaceStack.top

def emplaceBack (args : Argument T) : Method T Unit := InplaceStack.emplace config args

def pushBack (value : Argument T) : Method T Unit := emplaceBack config value

def tryPushBack (value : Argument T) : Method T Bool := InplaceStack.tryPush config value

def popBack : Method T Unit := InplaceStack.pop config

def tryPopBack : Method T (Option (Slot T)) := InplaceStack.tryPop config

/-- `inplace_vector(inplace_vector const&)`. -/
def copyConstruct (this other : N) : Code N T Unit := InplaceStack.copyConstruct config this other

/-- `inplace_vector(inplace_vector&&)`. -/
def moveConstruct (this other : N) : Code N T Unit := InplaceStack.moveConstruct config this other

/-- `operator=(inplace_vector const&)`. -/
def copyAssign [DecidableEq N] (this other : N) : Code N T Unit :=
  InplaceStack.copyAssign config this other

/-- `operator=(inplace_vector&&)`. -/
def moveAssign [DecidableEq N] (this other : N) : Code N T Unit :=
  InplaceStack.moveAssign config this other

end Emblib.InplaceVector
