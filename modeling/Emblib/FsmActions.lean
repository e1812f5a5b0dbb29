import Emblib.Library.Program

/-! What the state machines of `fsm::v2` and `fsm::v3` have in common: the actions, the machine that these
are given, and the way of its states, one entered after the other, as a trace tells it. -/
namespace Emblib.FsmActions
open Programs

variable {I : Type} {Value : I → Type} {Event C M N : Type}

/-! ## Actions -/

/-- What every action may do with the machine that it is given. -/
inductive Access (C : Type) where
  | state
  | context
  | setContext (value : C)

abbrev Access.Reply (Value : I → Type) : Access C → Type
  | .state => Sigma Value
  | .context => C
  | .setContext _ => Unit

/-- The calls that cause transitions. A state is an alternative of the variant with its value. -/
inductive Command (Value : I → Type) (Event : Type) where
  | dispatch (event : Event)
  | forceTransition (next : Sigma Value)

/-- What handlers and entries may do. -/
inductive Request (Value : I → Type) (Event C : Type) where
  | access (access : Access C)
  | call (command : Command Value Event)

abbrev Request.Reply : Request Value Event C → Type
  | .access request => request.Reply Value
  | .call _ => Unit

abbrev Action (Value : I → Type) (Event C A : Type) :=
  Program (Request Value Event C) Request.Reply A

abbrev ExitAction (Value : I → Type) (C : Type) :=
  Program (Access C) (Access.Reply Value) Unit

/-! ## The machine -/

/-- A machine, and the marks that its actions have left so far. -/
structure Traced (Value : I → Type) (C M : Type) where
  state : Sigma Value
  context : C
  trace : List M

def Traced.record (object : Traced Value C M) (mark : M) : Traced Value C M :=
  { object with trace := object.trace ++ [mark] }

def access : (request : Access C) → Traced Value C M → request.Reply Value × Traced Value C M
  | .state, object => (object.state, object)
  | .context, object => (object.context, object)
  | .setContext value, object => ((), { object with context := value })

/-- The requests of an action, given what becomes of a call to the machine. -/
def answer (calls : Command Value Event → Traced Value C M → Option (Traced Value C M)) :
    (request : Request Value Event C) → Traced Value C M → Option (request.Reply × Traced Value C M)
  | .access request, object => some (access request object)
  | .call command, object => (calls command object).map ((), ·)

/-- The commands all end, one after the other, and lead from one object to the other. -/
def Carries (call : Nat → Command Value Event → Traced Value C M → Option (Traced Value C M)) :
    List (Command Value Event) → Traced Value C M → Traced Value C M → Prop
  | [], object, final => final = object
  | command :: rest, object, final =>
    ∃ depth middle, call depth command object = some middle ∧ Carries call rest middle final

/-! ## What is preserved -/

variable {calls : Command Value Event → Traced Value C M → Option (Traced Value C M)}
  {object after final : Traced Value C M} {A : Type} {action : Action Value Event C A} {value : A}

/-- An action changes the machine by its calls and, apart from them, the context alone. -/
theorem action_preserves (holds : Traced Value C M → Prop)
    (contextFree : ∀ object value, holds object → holds { object with context := value })
    (preserved : ∀ command object after, calls command object = some after → holds object → holds after)
    (acted : attempt (answer calls) action object = some (value, after)) (start : holds object) : holds after := by
  refine attempt_preserves holds (fun request object reply after answered start => ?_) action acted start
  cases request with
  | access request =>
    obtain rfl : (access request object).2 = after := congrArg Prod.snd (Option.some.inj answered)
    cases request with
    | state => exact start
    | context => exact start
    | setContext value => exact contextFree object value start
  | call command =>
    obtain ⟨middle, called, same⟩ := Option.map_eq_some_iff.mp answered
    cases same
    exact preserved command object _ called start

/-- An exit runs to its end without touching the state or the trace. -/
theorem exit_frame (action : ExitAction Value C) (object : Traced Value C M) :
    (run access action object).2.state = object.state ∧ (run access action object).2.trace = object.trace := by
  induction action generalizing object with
  | pure value => exact ⟨rfl, rfl⟩
  | request request next ih =>
    rw [run_request]
    obtain ⟨state, trace⟩ := ih (access request object).1 (access request object).2
    rw [state, trace]
    cases request with
    | state => exact ⟨rfl, rfl⟩
    | context => exact ⟨rfl, rfl⟩
    | setContext value => exact ⟨rfl, rfl⟩

theorem carries_preserves {call : Nat → Command Value Event → Traced Value C M → Option (Traced Value C M)}
    (holds : Traced Value C M → Prop)
    (preserved : ∀ depth command object after, call depth command object = some after → holds object → holds after)
    {commands : List (Command Value Event)} (carries : Carries call commands object final) (start : holds object) :
    holds final := by
  induction commands generalizing object with
  | nil =>
    obtain rfl := carries
    exact start
  | cons command rest ih =>
    obtain ⟨depth, middle, ends, carries⟩ := carries
    exact ih carries (preserved depth command object middle ends start)

/-! ## The way of the states -/

/-- What is seen of a trace, and of that what belongs to an entry, and what to the change from one state
to another. -/
structure View (I M N : Type) where
  seen : M → Option N
  entering : I → List N
  between : I → I → List N

def View.crossings (view : View I M N) (trace : List M) : List N := trace.filterMap view.seen

/-- What is seen of a way from state to state. -/
def View.journey (view : View I M N) (first : I) : List I → List N
  | [] => view.entering first
  | next :: rest => view.entering first ++ (view.between first next ++ view.journey next rest)

/-- The trace shows a way that ends in the state that the machine holds. -/
def View.Entered (view : View I M N) (initial : I) (object : Traced Value C M) : Prop :=
  ∃ visited : List I, view.crossings object.trace = view.journey initial visited ∧
    object.state.1 = visited.getLastD initial

variable {view : View I M N} {initial : I}

theorem journey_snoc (view : View I M N) (first : I) (visited : List I) (next : I) :
    view.journey first (visited ++ [next]) =
      view.journey first visited ++ (view.between (visited.getLastD first) next ++ view.entering next) := by
  induction visited generalizing first with
  | nil => rfl
  | cons second rest ih =>
    rw [List.cons_append, View.journey, ih second, View.journey, List.getLastD_cons]
    simp only [List.append_assoc]

theorem crossings_record (view : View I M N) (object : Traced Value C M) (mark : M) :
    view.crossings (object.record mark).trace = view.crossings object.trace ++ (view.seen mark).toList := by
  unfold View.crossings Traced.record
  rw [List.filterMap_append]
  cases seen : view.seen mark with
  | none => rw [List.filterMap_cons_none seen, List.filterMap_nil, Option.toList_none]
  | some note => rw [List.filterMap_cons_some seen, List.filterMap_nil, Option.toList_some]

/-- A mark that is not seen belongs to no transition. -/
theorem entered_record {mark : M} (unseen : view.seen mark = none) (entered : view.Entered initial object) :
    view.Entered initial (object.record mark) := by
  obtain ⟨visited, marks, held⟩ := entered
  refine ⟨visited, ?_, held⟩
  rw [crossings_record, unseen, Option.toList_none, List.append_nil, marks]

theorem entered_action
    (preserved : ∀ command object after, calls command object = some after →
      view.Entered initial object → view.Entered initial after)
    (acted : attempt (answer calls) action object = some (value, after)) (entered : view.Entered initial object) :
    view.Entered initial after :=
  action_preserves (view.Entered initial) (fun _ _ entered => entered) preserved acted entered

/-- The machine holds a further state, and its trace shows the change to it. -/
theorem entered_next (entered : view.Entered initial object)
    (marks : view.crossings after.trace = view.crossings object.trace ++
      (view.between object.state.1 after.state.1 ++ view.entering after.state.1)) :
    view.Entered initial after := by
  obtain ⟨visited, before, held⟩ := entered
  refine ⟨visited ++ [after.state.1], ?_, List.getLastD_concat.symm⟩
  rw [marks, before, held, journey_snoc]

end Emblib.FsmActions
