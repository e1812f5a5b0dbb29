import Emblib.FsmActions

/-! `fsm::v2::finite_state_machine`: a variant of states, and a transition table that handles the
events of all of them. The policy says which actions a table has: a Moore machine acts on
entries alone and shows its handlers a constant context, a Mealy machine acts in its handlers
alone, and a mixed one also acts on exits. -/
namespace Emblib.TransitionTable
open Programs FsmActions

variable {I : Type} {Value : I → Type} {Tag Event C : Type}

/-! ## Policies -/

inductive Policy where
  | moore
  | mealy
  | mixed
  deriving DecidableEq

def Policy.entryAction : Policy → Bool
  | .moore => true
  | .mealy => false
  | .mixed => true

def Policy.exitAction : Policy → Bool
  | .moore => false
  | .mealy => false
  | .mixed => true

/-- What may be done with a constant context. -/
inductive Reading where
  | state
  | context

abbrev Reading.Reply (Value : I → Type) (C : Type) : Reading → Type
  | .state => Sigma Value
  | .context => C

abbrev ConstAction (Value : I → Type) (C A : Type) := Program Reading (Reading.Reply Value C) A

def ConstAction.asAction {A : Type} : ConstAction Value C A → Action Value Event C A
  | .pure value => .pure value
  | .request .state next => .request (.access .state) fun state => ConstAction.asAction (next state)
  | .request .context next => .request (.access .context) fun context => ConstAction.asAction (next context)

/-- What comes of an action with a constant context. -/
def ConstAction.result {A : Type} : ConstAction Value C A → Sigma Value → C → A
  | .pure value, _, _ => value
  | .request .state next, state, context => ConstAction.result (next state) state context
  | .request .context next, state, context => ConstAction.result (next context) state context

/-- `event_context_type`. -/
def EventAction (policy : Policy) (Value : I → Type) (Event C A : Type) : Type :=
  match policy with
  | .moore => ConstAction Value C A
  | .mealy => Action Value Event C A
  | .mixed => Action Value Event C A

def EventAction.asAction {A : Type} :
    (policy : Policy) → EventAction policy Value Event C A → Action Value Event C A
  | .moore, action => ConstAction.asAction action
  | .mealy, action => action
  | .mixed, action => action

/-- A table has the entries and exits that the policy asks for, and no others. An action is told
the state that it is called for; what it reads of the machine after a call of its own it asks for. -/
structure Table (policy : Policy) (Value : I → Type) (Tag Event C : Type) where
  tag : I → Tag
  uniqueTags : Function.Injective tag
  onEntry : policy.entryAction = true → Sigma Value → Action Value Event C Unit
  onExit : policy.exitAction = true → Sigma Value → ExitAction Value C
  onEvent : Sigma Value → Event → EventAction policy Value Event C (Option (Sigma Value))

/-! ## The machine -/

/-- The start of an action, the return of a handler, or the change of the stored state. -/
inductive Mark (I : Type) where
  | onEntry (i : I)
  | onExit (i : I)
  | onEvent (i : I)
  | returned (next : Option I)
  | moved (i : I)

abbrev Object (Value : I → Type) (C : Type) := Traced Value C (Mark I)

section Calls
variable {policy : Policy} (table : Table policy Value Tag Event C)
  (calls : Command Value Event → Object Value C → Option (Object Value C))

def exitState (object : Object Value C) : Object Value C :=
  if used : policy.exitAction = true then
    (run access (table.onExit used object.state) (object.record (.onExit object.state.1))).2
  else object

def enterState (object : Object Value C) : Option (Object Value C) :=
  if used : policy.entryAction = true then
    (attempt (answer calls) (table.onEntry used object.state) (object.record (.onEntry object.state.1))).map (·.2)
  else some object

/-- The visitor in `dispatch`. -/
def visit (event : Event) (object : Object Value C) : Option (Option (Sigma Value) × Object Value C) :=
  (attempt (answer calls) (EventAction.asAction policy (table.onEvent object.state event))
    (object.record (.onEvent object.state.1))).map
    fun (next, object) => (next, object.record (.returned (next.map (·.1))))

def moveTo (next : Sigma Value) (object : Object Value C) : Object Value C :=
  { object with state := next, trace := object.trace ++ [.moved next.1] }

def forceTransition (next : Sigma Value) (object : Object Value C) : Option (Object Value C) :=
  enterState table calls (moveTo next (exitState table object))

def dispatch (event : Event) (object : Object Value C) : Option (Object Value C) := do
  let (next, object) ← visit table calls event object
  match next with
  | some next => enterState table calls (moveTo next (exitState table object))
  | none => some object

end Calls

/-- A call to the machine with room for so many calls inside of each other. -/
def call {policy : Policy} (table : Table policy Value Tag Event C) :
    Nat → Command Value Event → Object Value C → Option (Object Value C)
  | 0, _, _ => none
  | depth + 1, .dispatch event, object => dispatch table (call table depth) event object
  | depth + 1, .forceTransition next, object => forceTransition table (call table depth) next object

def startFsm {policy : Policy} (table : Table policy Value Tag Event C) (depth : Nat) (object : Object Value C) :
    Option (Object Value C) :=
  enterState table (call table depth) object

def stateTag {policy : Policy} (table : Table policy Value Tag Event C) (object : Object Value C) : Tag :=
  table.tag object.state.1

def Leads {policy : Policy} (table : Table policy Value Tag Event C) :
    List (Command Value Event) → Object Value C → Object Value C → Prop :=
  Carries (call table)

/-- A machine is constructed with an initial state, started, and given commands. -/
def Runs {policy : Policy} (table : Table policy Value Tag Event C) (initial : Sigma Value) (context : C)
    (commands : List (Command Value Event)) (final : Object Value C) : Prop :=
  ∃ depth started, startFsm table depth ⟨initial, context, []⟩ = some started ∧ Leads table commands started final

/-! ## Entries, exits and moves -/

variable {policy : Policy} {table : Table policy Value Tag Event C}
  {calls : Command Value Event → Object Value C → Option (Object Value C)} {object after final : Object Value C}
  {initial : I}

/-- The mark belongs to a transition. -/
def crosses : Mark I → Bool
  | .onEntry _ => true
  | .onExit _ => true
  | .moved _ => true
  | _ => false

def entering (policy : Policy) (i : I) : List (Mark I) := if policy.entryAction then [.onEntry i] else []

def leaving (policy : Policy) (i : I) : List (Mark I) := if policy.exitAction then [.onExit i] else []

/-- On the way from one state to the next the policy's actions are called, each once. -/
def passage (policy : Policy) (I : Type) : View I (Mark I) (Mark I) where
  seen mark := if crosses mark then some mark else none
  entering := entering policy
  between i next := leaving policy i ++ [.moved next]

/-- The marks are those of a way that ends in the stored state. -/
abbrev Entered (policy : Policy) (initial : I) (object : Object Value C) : Prop :=
  (passage policy I).Entered initial object

/-! ## What an action preserves -/

theorem exitState_crossings (object : Object Value C) :
    (passage policy I).crossings (exitState table object).trace =
      (passage policy I).crossings object.trace ++ leaving policy object.state.1 := by
  unfold exitState leaving
  by_cases used : policy.exitAction = true
  · rw [dif_pos used, if_pos used, (exit_frame _ _).2]
    exact crossings_record _ object (.onExit object.state.1)
  · rw [dif_neg used, if_neg used, List.append_nil]

/-! ## Every call leaves a state entered -/

/-- What remains to be done for a state that has been stored. -/
theorem enterState_entered (preserved : ∀ command object after, calls command object = some after →
      Entered policy initial object → Entered policy initial after)
    {visited : List I} (held : object.state.1 = visited.getLastD initial)
    (marks : (passage policy I).crossings object.trace ++ entering policy object.state.1 =
      (passage policy I).journey initial visited)
    (ends : enterState table calls object = some after) : Entered policy initial after := by
  unfold enterState at ends
  unfold entering at marks
  split at ends
  · rename_i used
    obtain ⟨⟨_, last⟩, acted, same⟩ := Option.map_eq_some_iff.mp ends
    obtain rfl : last = after := same
    rw [if_pos used] at marks
    refine entered_action preserved acted ⟨visited, ?_, held⟩
    exact (crossings_record _ object _).trans marks
  · rename_i unused
    rw [if_neg unused, List.append_nil] at marks
    cases ends
    exact ⟨visited, marks, held⟩

theorem transition_entered (preserved : ∀ command object after, calls command object = some after →
      Entered policy initial object → Entered policy initial after) {next : Sigma Value}
    (ends : enterState table calls (moveTo next (exitState table object)) = some after)
    (entered : Entered policy initial object) : Entered policy initial after := by
  obtain ⟨visited, marks, held⟩ := entered
  have moved : (passage policy I).crossings (moveTo next (exitState table object)).trace =
      (passage policy I).crossings (exitState table object).trace ++ [.moved next.1] :=
    crossings_record _ (exitState table object) (.moved next.1)
  have marked : (passage policy I).crossings (moveTo next (exitState table object)).trace ++ entering policy next.1 =
      (passage policy I).journey initial (visited ++ [next.1]) := by
    rw [moved, exitState_crossings, marks, held, journey_snoc]
    simp only [passage, List.append_assoc]
  exact enterState_entered preserved List.getLastD_concat.symm marked ends

theorem visit_entered (preserved : ∀ command object after, calls command object = some after →
      Entered policy initial object → Entered policy initial after) {event : Event} {next : Option (Sigma Value)}
    (visited : visit table calls event object = some (next, after)) (entered : Entered policy initial object) :
    Entered policy initial after := by
  obtain ⟨⟨result, middle⟩, acted, same⟩ := Option.map_eq_some_iff.mp visited
  cases same
  have start : Entered policy initial (object.record (.onEvent object.state.1)) := entered_record rfl entered
  have handled := entered_action preserved acted start
  exact entered_record rfl handled

theorem dispatch_entered (preserved : ∀ command object after, calls command object = some after →
      Entered policy initial object → Entered policy initial after) {event : Event}
    (ends : dispatch table calls event object = some after) (entered : Entered policy initial object) :
    Entered policy initial after := by
  obtain ⟨⟨next, middle⟩, visited, rest⟩ := Option.bind_eq_some_iff.mp ends
  have returned := visit_entered preserved visited entered
  cases next with
  | none =>
    cases rest
    exact returned
  | some next => exact transition_entered preserved rest returned

/-- The induction is on the depth: the calls inside of a call have one less. -/
theorem call_entered (depth : Nat) (command : Command Value Event) (object after : Object Value C)
    (ends : call table depth command object = some after) (entered : Entered policy initial object) :
    Entered policy initial after := by
  induction depth generalizing command object after with
  | zero => cases ends
  | succ depth ih =>
    cases command with
    | dispatch event => exact dispatch_entered ih ends entered
    | forceTransition next => exact transition_entered ih ends entered

theorem start_entered {depth : Nat} {first : Sigma Value} {context : C}
    (ends : startFsm table depth ⟨first, context, []⟩ = some after) : Entered policy first.1 after := by
  have marked : (passage policy I).crossings [] ++ entering policy first.1 =
      (passage policy I).journey first.1 [] := rfl
  exact enterState_entered (call_entered depth) rfl marked ends

theorem leads_entered {commands : List (Command Value Event)} (leads : Leads table commands object final)
    (entered : Entered policy initial object) : Entered policy initial final :=
  carries_preserves (Entered policy initial) call_entered leads entered

/-! ## The discipline -/

/-- The marks of a handler that has run. -/
def Object.handled (next : Option (Sigma Value)) (object : Object Value C) : Object Value C :=
  { object with trace := object.trace ++ [.onEvent object.state.1, .returned (next.map (·.1))] }

inductive Position where
  | opened
  | closed

inductive SwitchEvent where
  | opening
  | closing

/-- The state that an event leads to, if it leads to another one. -/
def target : Position → SwitchEvent → Option (Sigma fun _ : Position => Unit)
  | .opened, .closing => some ⟨.closed, ()⟩
  | .closed, .opening => some ⟨.opened, ()⟩
  | _, _ => none

def countEntry (i : Position) (entries : Nat × Nat) : Nat × Nat :=
  match i with
  | .opened => (entries.1 + 1, entries.2)
  | .closed => (entries.1, entries.2 + 1)

def isOpened : Position → Bool
  | .opened => true
  | .closed => false

theorem isOpened_injective : Function.Injective isOpened := by
  intro i j same
  cases i with
  | opened => cases j with
    | opened => rfl
    | closed => cases same
  | closed => cases j with
    | opened => cases same
    | closed => rfl

/-- Counts the entries of its states. -/
def switch : Table .moore (fun _ : Position => Unit) Bool SwitchEvent (Nat × Nat) where
  tag := isOpened
  uniqueTags := isOpened_injective
  onEntry := fun _ state => .request (.access .context) fun entries =>
    .request (.access (.setContext (countEntry state.1 entries))) fun _ => .pure ()
  onExit := fun used => Bool.noConfusion used
  onEvent := fun state event => (Program.pure (target state.1 event) : ConstAction _ _ _)

end Emblib.TransitionTable
