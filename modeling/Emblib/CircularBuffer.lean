import Emblib.InplaceStorage

/-! The member functions of `circular_buffer`. Both overloads of a push construct the
element from their argument and are one definition here; so is `emplace`, whose argument
stands for the value that is built from what it is given. -/
namespace Emblib.CircularBuffer
open Programs InplaceStorage
open Program (times)

variable {N T : Type} (config : Config)

def size : Method T Nat := perform .size

def capacity : Method T Nat := pure config.capacity

def empty : Method T Bool := do return (← size) == 0

def full : Method T Bool := do return (← size) == config.capacity

def indexOf (offset : Nat) : Method T Nat := do
  return ((← perform .front) + offset) % config.capacity

def destroySlot (i : Nat) : Method T Unit :=
  if config.triviallyDestructible then pure () else perform (.destroy i)

def clear : Method T Unit := do
  times (← size) fun i => do destroySlot config (← indexOf config i)
  perform (.setFront 0)
  perform (.setSize 0)

/-- `~circular_buffer`. -/
def destructor : Method T Unit :=
  if config.triviallyDestructible then pure () else clear config

/-! ## Element access -/

def front : Method T (Slot T) := do
  perform (.assume ((← size) != 0))
  perform (.read (← perform .front))

def back : Method T (Slot T) := do
  perform (.assume ((← size) != 0))
  perform (.read (← indexOf config ((← size) - 1)))

/-- `operator[]`. -/
def get (i : Nat) : Method T (Slot T) := do
  perform (.assume (i < (← size)))
  perform (.read (← indexOf config i))

/-! ## Pushes and pops -/

def writeBackWith (constructFn : Nat → Method T Unit) : Method T Unit := do
  let slotIdx ← indexOf config (← size)
  if ← full config then
    destroySlot config slotIdx
    constructFn slotIdx
    perform (.setFront (((← perform .front) + 1) % config.capacity))
  else
    constructFn slotIdx
    perform (.setSize ((← size) + 1))

def writeFrontWith (constructFn : Nat → Method T Unit) : Method T Unit := do
  let newFront := ((← perform .front) + config.capacity - 1) % config.capacity
  if ← full config then
    destroySlot config newFront
    constructFn newFront
  else
    constructFn newFront
    perform (.setSize ((← size) + 1))
  perform (.setFront newFront)

def emplaceBack (args : Argument T) : Method T Unit :=
  writeBackWith config fun p => constructAt config p args

def emplaceFront (args : Argument T) : Method T Unit :=
  writeFrontWith config fun p => constructAt config p args

def pushBack (value : Argument T) : Method T Unit := emplaceBack config value

def pushFront (value : Argument T) : Method T Unit := emplaceFront config value

def tryPushBack (value : Argument T) : Method T Bool := do
  if ← full config then return false
  pushBack config value
  return true

def tryPushFront (value : Argument T) : Method T Bool := do
  if ← full config then return false
  pushFront config value
  return true

def popFront : Method T Unit := do
  perform (.assume ((← size) != 0))
  destroySlot config (← perform .front)
  perform (.setFront (((← perform .front) + 1) % config.capacity))
  perform (.setSize ((← size) - 1))

def popBack : Method T Unit := do
  perform (.assume ((← size) != 0))
  destroySlot config (← indexOf config ((← size) - 1))
  perform (.setSize ((← size) - 1))

def tryPopFront : Method T (Option (Slot T)) := do
  if ← empty then return none
  let result ← perform (.take (← perform .front))
  popFront config
  return some result

def tryPopBack : Method T (Option (Slot T)) := do
  if ← empty then return none
  let result ← perform (.take (← indexOf config ((← size) - 1)))
  popBack config
  return some result

def fill (value : Argument T) : Method T Unit := do
  clear config
  times config.capacity fun i => constructAt config i value
  perform (.setSize config.capacity)

/-! ## Copies and moves -/

/-- The loop of `copy_construct_from` and `move_construct_from`, which get the elements
differently. Its bound does not change while it runs. -/
def constructFrom (fetch : Nat → Method T (Slot T)) (this other : N) : Code N T Unit := do
  times (← size.on other) fun i => do
    let element ← (do fetch (← indexOf config i) : Method T (Slot T)).on other
    (do perform (.construct i element); perform (.setSize ((← size) + 1)) : Method T Unit).on this

def copyConstructFrom (this other : N) : Code N T Unit :=
  constructFrom config (fun i => perform (.read i)) this other

def moveConstructFrom (this other : N) : Code N T Unit := do
  constructFrom config (fun i => perform (.take i)) this other
  (clear config).on other

/-- A defaulted copy or move of a trivially copyable type. -/
def bitwiseFrom (this other : N) : Code N T Unit := do
  let object ← (perform .bytes).on other
  (perform (.setBytes object)).on this

/-- `circular_buffer(circular_buffer const&)`. -/
def copyConstruct (this other : N) : Code N T Unit := do
  (perform (.setBytes .initial)).on this
  if config.triviallyCopyable then bitwiseFrom this other else copyConstructFrom config this other

/-- `circular_buffer(circular_buffer&&)`. -/
def moveConstruct (this other : N) : Code N T Unit := do
  (perform (.setBytes .initial)).on this
  if config.triviallyCopyable then bitwiseFrom this other else moveConstructFrom config this other

/-- `operator=(circular_buffer const&)`. -/
def copyAssign [DecidableEq N] (this other : N) : Code N T Unit :=
  if config.triviallyCopyable then bitwiseFrom this other
  else if this ≠ other then do
    (clear config).on this
    copyConstructFrom config this other
  else pure ()

/-- `operator=(circular_buffer&&)`. -/
def moveAssign [DecidableEq N] (this other : N) : Code N T Unit :=
  if config.triviallyCopyable then bitwiseFrom this other
  else if this ≠ other then do
    (clear config).on this
    moveConstructFrom config this other
  else pure ()

end Emblib.CircularBuffer
