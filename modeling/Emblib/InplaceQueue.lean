import Emblib.CircularBufferRefinement

/-! The member functions of `inplace_queue`. What it shares with `circular_buffer` line by
line is defined by that; but it never overwrites, and a push requires room. -/
namespace Emblib.InplaceQueue
open Programs InplaceStorage CircularBufferRefinement

variable {N T : Type} (config : Config)

def size : Method T Nat := CircularBuffer.size

def capacity : Method T Nat := CircularBuffer.capacity config

def empty : Method T Bool := CircularBuffer.empty

def full : Method T Bool := CircularBuffer.full config

def indexOf (offset : Nat) : Method T Nat := CircularBuffer.indexOf config offset

def clear : Method T Unit := CircularBuffer.clear config

/-- `~inplace_queue`. -/
def destructor : Method T Unit := CircularBuffer.destructor config

def front : Method T (Slot T) := CircularBuffer.front

def back : Method T (Slot T) := CircularBuffer.back config

def emplace (args : Argument T) : Method T Unit := do
  perform (.assume ((← size) != config.capacity))
  constructAt config (← indexOf config (← size)) args
  perform (.setSize ((← size) + 1))

def push (value : Argument T) : Method T Unit := emplace config value

def tryPush (value : Argument T) : Method T Bool := do
  if ← full config then return false
  push config value
  return true

def pop : Method T Unit := CircularBuffer.popFront config

def tryPop : Method T (Option (Slot T)) := CircularBuffer.tryPopFront config

/-- `inplace_queue(inplace_queue const&)`. -/
def copyConstruct (this other : N) : Code N T Unit := CircularBuffer.copyConstruct config this other

/-- `inplace_queue(inplace_queue&&)`. -/
def moveConstruct (this other : N) : Code N T Unit := CircularBuffer.moveConstruct config this other

/-- `operator=(inplace_queue const&)`. -/
def copyAssign [DecidableEq N] (this other : N) : Code N T Unit :=
  CircularBuffer.copyAssign config this other

/-- `operator=(inplace_queue&&)`. -/
def moveAssign [DecidableEq N] (this other : N) : Code N T Unit :=
  CircularBuffer.moveAssign config this other

/-! ## A queue is a bounded list -/

section Queue
variable {config : Config} {queue : Object T} {elements : List T}

theorem run_empty_of_represents (represents : Represents config queue elements) :
    run access empty queue = (elements.isEmpty, queue) := by
  have same : (queue.size == 0) = elements.isEmpty := by
    rw [represents_length represents]
    cases elements <;> rfl
  rw [← same]
  rfl

theorem run_full_of_represents (represents : Represents config queue elements) :
    run access (full config) queue = (elements.length == config.capacity, queue) := by
  rw [← represents_length represents]
  rfl

theorem run_front_of_represents (represents : Represents config queue (value :: elements)) :
    run access front queue = (.live value, queue) := by
  have first := represents_front represents (represents_pending represents (List.cons_ne_nil _ _))
  exact Prod.ext (Option.some.inj first.symm) rfl

theorem push_represents (value : T) (represents : Represents config queue elements)
    (room : elements.length < config.capacity) :
    Represents config (run access (push config (.outside value)) queue).2 (elements ++ [value]) :=
  represents_pushBack value represents (represents_length represents ▸ room)

theorem pop_represents (represents : Represents config queue (value :: elements)) :
    Represents config (run access (pop config) queue).2 elements :=
  popFront_represents represents (represents_pending represents (List.cons_ne_nil _ _))

end Queue
end Emblib.InplaceQueue
