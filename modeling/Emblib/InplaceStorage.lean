import Emblib.Library.Program

/-! What the containers with storage in place have in common: slots in which objects are
constructed and destroyed by hand, and member functions as sequences of accesses to the
members and slots of one object or of several. -/
namespace Emblib.InplaceStorage
open Programs

/-- The storage of one element: no object, an object with this value, or one whose value is gone
because it has been moved from. -/
inductive Slot (T : Type) where
  | dead
  | live (value : T)
  | moved
  deriving DecidableEq

/-- What reading the slot as an object gives; there has to be one. -/
def Slot.value? : Slot T → Option T
  | .live value => some value
  | _ => none

theorem value?_of_live {found : Option T} {slot : Slot T} (live : found.map .live = some slot) :
    slot.value? = found := by
  cases found with
  | none => cases live
  | some value =>
    cases live
    rfl

/-- `destroy_slot` does nothing for a trivially destructible type. -/
def destroySlot (trivial : Bool) (slots : Nat → Slot T) (index : Nat) : Nat → Slot T :=
  if trivial then slots else Function.update slots index .dead

theorem destroySlot_of_ne {trivial : Bool} {slots : Nat → Slot T} (different : k ≠ index) :
    destroySlot trivial slots index k = slots k := by
  unfold destroySlot
  split
  · rfl
  · exact Function.update_of_ne different _ _

/-- Constructing in a slot makes no difference to whether it was destroyed. -/
theorem update_destroySlot {trivial : Bool} {slots : Nat → Slot T} {slot : Slot T} :
    Function.update (destroySlot trivial slots index) index slot = Function.update slots index slot := by
  unfold destroySlot
  split
  · rfl
  · exact Function.update_idem _ _ _

/-- The template arguments: the capacity, and what matters about the type of the elements. -/
structure Config where
  capacity : Nat
  positive : 0 < capacity
  triviallyCopyable : Bool
  triviallyDestructible : Bool
  /-- A trivially copyable type has a trivial destructor. -/
  destructible : triviallyCopyable = true → triviallyDestructible = true
  /-- The copy constructor leaves an element as it is when it gets the storage that it constructs in. -/
  keepsItself : Bool
  /-- A trivial copy does. -/
  kept : triviallyCopyable = true → keepsItself = true

/-- The members of a container. Those without `front_` never use it. An array is small
enough that the sum of two indices does not overflow `size_t`. -/
structure Object (T : Type) where
  front : Nat
  size : Nat
  slots : Nat → Slot T

/-- The default member initializers. -/
def Object.initial : Object T where
  front := 0
  size := 0
  slots := fun _ => .dead

/-- One access of a member function. The bytes of the whole object are read and written
only by the copies and moves that are defaulted. -/
inductive Access (T : Type) where
  | front
  | size
  | setFront (value : Nat)
  | setSize (value : Nat)
  | assume (holds : Bool)
  | construct (index : Nat) (value : Slot T)
  | destroy (index : Nat)
  | read (index : Nat)
  | take (index : Nat)
  | bytes
  | setBytes (object : Object T)

abbrev Reply : Access T → Type
  | .front => Nat
  | .size => Nat
  | .read _ => Slot T
  | .take _ => Slot T
  | .bytes => Object T
  | _ => Unit

/-- A member function of one object. -/
abbrev Method (T : Type) : Type → Type := Program (Access T) Reply

/-- Code that uses several objects, by their names. -/
abbrev Code (N T : Type) : Type → Type := Program (N × Access T) fun request => Reply request.2

abbrev perform (request : Access T) : Method T (Reply request) := Program.perform request

/-- The meaning of an access. -/
def access : (request : Access T) → Object T → Reply request × Object T
  | .front, object => (object.front, object)
  | .size, object => (object.size, object)
  | .setFront value, object => ((), { object with front := value })
  | .setSize value, object => ((), { object with size := value })
  | .assume _, object => ((), object)
  | .construct index value, object =>
    ((), { object with slots := Function.update object.slots index value })
  | .destroy index, object => ((), { object with slots := Function.update object.slots index .dead })
  | .read index, object => (object.slots index, object)
  | .take index, object =>
    (object.slots index, { object with slots := Function.update object.slots index .moved })
  | .bytes, object => (object, object)
  | .setBytes value, _ => ((), value)

/-- What a reference argument refers to: a value outside of the container, or the element
in one of its slots. -/
inductive Argument (T : Type) where
  | outside (value : T)
  | element (index : Nat)

/-- The value of the argument when the element constructor reads it. -/
def Argument.read : Argument T → Method T (Slot T)
  | .outside value => pure (.live value)
  | .element index => perform (.read index)

/-- What an argument is worth for the object in a slot. An element that is constructed in its own storage
is written while it is read, which only some types survive. -/
def Argument.given (config : Config) (place : Nat) : Argument T → Slot T → Slot T
  | .outside _, slot => slot
  | .element index, .live value =>
    if index = place ∧ config.keepsItself = false then .moved else .live value
  | .element _, slot => slot

/-- `std::construct_at`. -/
def constructAt (config : Config) (place : Nat) (args : Argument T) : Method T Unit := do
  perform (.construct place (args.given config place (← args.read)))

/-- From a value outside of the container. -/
@[simp] theorem constructAt_outside (config : Config) (place : Nat) (value : T) :
    constructAt config place (.outside value) = perform (.construct place (.live value)) := rfl

end Emblib.InplaceStorage
