import Emblib.FiniteStateMachine

/-! Entries and exits of a state machine whose actions call it again. Between any two calls
exactly one state is entered, the one that the machine holds, however deeply the calls that
brought it there were nested. -/
namespace Emblib.EntryExitDiscipline
open Programs FsmActions FiniteStateMachine

variable {I : Type} {Value : I → Type} {Tag Event C : Type}
  {machine : Machine Value Tag Event C} {calls : Command Value Event → Object Value C → Option (Object Value C)}
  {object after final : Object Value C} {initial : I} {level : Nat}

/-! ## Alternation -/

/-- The start of an entry or of an exit. -/
inductive Boundary (I : Type) where
  | entry (i : I)
  | exit (i : I)

def boundary : Call I → Option (Boundary I)
  | .onEntry i => some (.entry i)
  | .onExit i => some (.exit i)
  | _ => none

/-- Of a trace the entries and exits are seen. Each state on the way is entered and, before the next one is
entered, left. -/
def alternation (I : Type) : View I (Mark I) (Boundary I) where
  seen mark := boundary mark.call
  entering i := [.entry i]
  between i _ := [.exit i]

def boundaries (trace : List (Mark I)) : List (Boundary I) := (alternation I).crossings trace

/-- The entries and exits so far alternate from the initial state on, and the last entry is
that of the state the machine holds. -/
abbrev Entered (initial : I) (object : Object Value C) : Prop := (alternation I).Entered initial object

theorem exitState_trace : (exitState machine level object).trace =
    (object.record ⟨level, .onExit object.state.1⟩).trace :=
  (exit_frame _ _).2

/-- The call that `dispatch` makes: the common handler gets what the state does not handle. -/
inductive Handles (machine : Machine Value Tag Event C) (event : Event) (i : I) : Call I → Prop where
  | own (handles : (machine.onEvent i event).isSome) : Handles machine event i (.onEvent i)
  | common (defers : machine.onEvent i event = none) (handles : (machine.commonOnEvent event).isSome) :
      Handles machine event i .commonOnEvent

theorem handles_silent {event : Event} {made : Call I}
    (handles : Handles machine event object.state.1 made) :
    boundary made = none := by
  cases handles with
  | own => rfl
  | common => rfl

/-- What `dispatch` does first: one handler runs, between its own mark and that of its return. -/
theorem visit_some {event : Event} {next : Option (Sigma Value)}
    (visited : visit machine calls level event object = some (next, after)) :
    ∃ made action middle, Handles machine event object.state.1 made ∧
      attempt (answer calls) action (object.record ⟨level, made⟩) = some (next, middle) ∧
      after = middle.record ⟨level, .returned (next.map (·.1))⟩ := by
  unfold visit visitor at visited
  cases own : machine.onEvent object.state.1 event with
  | some action =>
    rw [own] at visited
    obtain ⟨⟨result, middle⟩, acted, same⟩ := Option.map_eq_some_iff.mp visited
    cases same
    exact ⟨_, action, middle, .own (own ▸ rfl), acted, rfl⟩
  | none =>
    rw [own] at visited
    cases common : machine.commonOnEvent event with
    | some action =>
      rw [common] at visited
      obtain ⟨⟨result, middle⟩, acted, same⟩ := Option.map_eq_some_iff.mp visited
      cases same
      exact ⟨_, action, middle, .common own (common ▸ rfl), acted, rfl⟩
    | none =>
      have handled := machine.handled object.state.1 event
      rw [own, common] at handled
      cases handled with
      | inl impossible => cases impossible
      | inr impossible => cases impossible

/-! ## Every call leaves a state entered -/

/-- A transition: the held state is left, the next one is stored and entered. -/
theorem transition_entered (preserved : ∀ command object after, calls command object = some after →
      Entered initial object → Entered initial after) {next : Sigma Value}
    (ends : enterState machine calls level { exitState machine level object with state := next } = some after)
    (entered : Entered initial object) : Entered initial after := by
  obtain ⟨⟨_, last⟩, acted, same⟩ := Option.map_eq_some_iff.mp ends
  obtain rfl : last = after := same
  refine entered_action preserved acted (entered_next entered ?_)
  rw [crossings_record]
  dsimp only
  rw [exitState_trace, crossings_record]
  exact List.append_assoc ..

theorem dispatch_entered (preserved : ∀ command object after, calls command object = some after →
      Entered initial object → Entered initial after) {event : Event}
    (ends : dispatch machine calls level event object = some after)
    (entered : Entered initial object) : Entered initial after := by
  obtain ⟨⟨next, middle⟩, visited, rest⟩ := Option.bind_eq_some_iff.mp ends
  obtain ⟨made, action, acting, handles, acted, rfl⟩ := visit_some visited
  have start : Entered initial (object.record ⟨level, made⟩) :=
    entered_record (handles_silent handles) entered
  have handled := entered_action preserved acted start
  have returned : Entered initial (acting.record ⟨level, .returned (next.map (·.1))⟩) :=
    entered_record rfl handled
  cases next with
  | none =>
    cases rest
    exact returned
  | some next => exact transition_entered preserved rest returned

/-- The induction is on the depth: the calls inside of a call have one less. -/
theorem call_entered (depth level : Nat) (command : Command Value Event) (object after : Object Value C)
    (ends : call machine depth level command object = some after) (entered : Entered initial object) :
    Entered initial after := by
  induction depth generalizing level command object after with
  | zero => cases ends
  | succ depth ih =>
    cases command with
    | dispatch event => exact dispatch_entered (ih (level + 1)) ends entered
    | forceTransition next => exact transition_entered (ih (level + 1)) ends entered

theorem start_entered {depth : Nat} {first : Sigma Value} {context : C}
    (ends : startFsm machine depth ⟨first, context, []⟩ = some after) : Entered first.1 after := by
  obtain ⟨⟨_, last⟩, acted, same⟩ := Option.map_eq_some_iff.mp ends
  obtain rfl : last = after := same
  exact entered_action (call_entered depth 1) acted ⟨[], rfl, rfl⟩

theorem leads_entered {commands : List (Command Value Event)}
    (leads : Leads machine commands object final)
    (entered : Entered initial object) : Entered initial final :=
  carries_preserves (Entered initial) (fun depth => call_entered depth 0) leads entered

/-! ## What a call does itself -/

/-- The calls of the trace that are made at this level, not inside of another one. -/
def ownCalls (level : Nat) (trace : List (Mark I)) : List (Call I) :=
  (trace.filter fun mark => mark.level = level).map (·.call)

/-- What a command itself calls: after a handler's `no_transition` nothing more, after its
transition one exit and one entry, even if it leads to the state that is left. -/
inductive Makes (machine : Machine Value Tag Event C) (i : I) :
    Command Value Event → List (Call I) → Prop where
  | stays (handles : Handles machine event i made) : Makes machine i (.dispatch event) [made, .returned none]
  | moves (handles : Handles machine event i made) (next : Sigma Value) (left : I) :
      Makes machine i (.dispatch event) [made, .returned (some next.1), .onExit left, .onEntry next.1]
  | forced (next : Sigma Value) : Makes machine i (.forceTransition next) [.onExit i, .onEntry next.1]

/-- The trace grows by these calls of this level, and by calls inside of them. -/
def Adds (level : Nat) (object after : Object Value C) (own : List (Call I)) : Prop :=
  ∃ added, after.trace = object.trace ++ added ∧ (∀ mark ∈ added, level ≤ mark.level) ∧ ownCalls level added = own

theorem adds_nothing : Adds level object object [] :=
  ⟨[], (List.append_nil _).symm, nofun, rfl⟩

theorem adds_record (made : Call I) : Adds level object (object.record ⟨level, made⟩) [made] := by
  refine ⟨[⟨level, made⟩], rfl, fun mark member => ?_, ?_⟩
  · cases List.mem_singleton.mp member
    exact Nat.le_refl level
  · simp [ownCalls]

theorem adds_trans {own more : List (Call I)} (first : Adds level object after own)
    (second : Adds level after final more) : Adds level object final (own ++ more) := by
  obtain ⟨added, trace, deep, same⟩ := first
  obtain ⟨further, behind, deeper, also⟩ := second
  refine ⟨added ++ further, by rw [behind, trace, List.append_assoc], fun mark member => ?_, ?_⟩
  · cases List.mem_append.mp member with
    | inl early => exact deep mark early
    | inr late => exact deeper mark late
  · rw [← same, ← also, ownCalls, List.filter_append, List.map_append]
    rfl

/-- Calls inside of a call are not its own. -/
theorem adds_inside {own : List (Call I)} (inside : Adds (level + 1) object after own) :
    Adds level object after [] := by
  obtain ⟨added, trace, deep, _⟩ := inside
  refine ⟨added, trace, fun mark member => Nat.le_of_succ_le (deep mark member), ?_⟩
  have none : added.filter (fun mark => mark.level = level) = [] :=
    List.filter_eq_nil_iff.mpr fun mark member same => by
      have above := deep mark member
      have here := of_decide_eq_true same
      omega
  rw [ownCalls, none, List.map_nil]

theorem action_adds {A : Type} (inside : ∀ command object after, calls command object = some after →
      ∃ own, Adds (level + 1) object after own) {action : Action Value Event C A} {value : A}
    (acted : attempt (answer calls) action object = some (value, after)) :
    Adds level object after [] := by
  refine action_preserves (Adds level object · []) (fun _ _ adds => adds) (fun command middle last called adds => ?_)
    acted adds_nothing
  obtain ⟨own, within⟩ := inside command middle last called
  exact adds_trans adds (adds_inside within)

theorem transition_adds (inside : ∀ command object after, calls command object = some after →
      ∃ own, Adds (level + 1) object after own) {next : Sigma Value}
    (ends : enterState machine calls level { exitState machine level object with state := next } = some after) :
    Adds level object after [.onExit object.state.1, .onEntry next.1] := by
  obtain ⟨⟨_, last⟩, acted, same⟩ := Option.map_eq_some_iff.mp ends
  obtain rfl : last = after := same
  have left : Adds level object { exitState machine level object with state := next } [.onExit object.state.1] := by
    unfold Adds
    rw [exitState_trace]
    exact adds_record _
  have entered := adds_trans left (adds_record (.onEntry next.1))
  exact adds_trans entered (action_adds inside acted)

theorem dispatch_adds (inside : ∀ command object after, calls command object = some after →
      ∃ own, Adds (level + 1) object after own) {event : Event}
    (ends : dispatch machine calls level event object = some after) :
    ∃ own, Makes machine object.state.1 (.dispatch event) own ∧ Adds level object after own := by
  obtain ⟨⟨next, middle⟩, visited, rest⟩ := Option.bind_eq_some_iff.mp ends
  obtain ⟨made, action, acting, handles, acted, rfl⟩ := visit_some visited
  have returned : Adds level object (acting.record ⟨level, .returned (next.map (·.1))⟩)
      [made, .returned (next.map (·.1))] :=
    adds_trans (adds_trans (adds_record made) (action_adds inside acted)) (adds_record _)
  cases next with
  | none =>
    cases rest
    exact ⟨_, .stays handles, returned⟩
  | some next => exact ⟨_, .moves handles next _, adds_trans returned (transition_adds inside rest)⟩

/-- Every call makes the calls of its kind, at its level; the induction is on the depth. -/
theorem call_makes (depth level : Nat) (command : Command Value Event) (object after : Object Value C)
    (ends : call machine depth level command object = some after) :
    ∃ own, Makes machine object.state.1 command own ∧ Adds level object after own := by
  induction depth generalizing level command object after with
  | zero => cases ends
  | succ depth ih =>
    have inside : ∀ command object after, call machine depth (level + 1) command object = some after →
        ∃ own, Adds (level + 1) object after own := fun command object after ends =>
      have ⟨own, _, adds⟩ := ih (level + 1) command object after ends
      ⟨own, adds⟩
    cases command with
    | dispatch event => exact dispatch_adds inside ends
    | forceTransition next => exact ⟨_, .forced next, transition_adds inside ends⟩

/-! ## The discipline -/

/-- The state whose entry comes last. -/
def lastEntry : List (Boundary I) → Option I
  | [] => none
  | .entry i :: rest => (lastEntry rest).or (some i)
  | .exit _ :: rest => lastEntry rest

theorem lastEntry_journey (first : I) (visited : List I) :
    lastEntry ((alternation I).journey first visited) = some (visited.getLastD first) := by
  induction visited generalizing first with
  | nil => rfl
  | cons second rest ih =>
    show (lastEntry ((alternation I).journey second rest)).or (some first) = _
    rw [ih, Option.some_or, List.getLastD_cons]

/-- **Entries and exits alternate and match.** Whatever the handlers do, and however deeply
they call the machine, a run enters and leaves one state after the other, from the initial
one on; when it is over, the state last entered is the one that the machine reports; and
every call on the way makes exactly the calls of its kind. -/
theorem entry_exit_discipline [DecidableEq I] {first : Sigma Value} {context : C}
    {commands : List (Command Value Event)} (runs : Runs machine first context commands final) :
    Entered first.1 final ∧
      (∀ i, isInState final i = true ↔ lastEntry (boundaries final.trace) = some i) ∧
      (∀ i, stateTag machine final = machine.tag i ↔ lastEntry (boundaries final.trace) = some i) ∧
      ∀ depth level command (object after : Object Value C), call machine depth level command object = some after →
        ∃ own, Makes machine object.state.1 command own ∧ Adds level object after own := by
  obtain ⟨depth, started, start, leads⟩ := runs
  have entered := leads_entered leads (start_entered start)
  have last : lastEntry (boundaries final.trace) = some final.state.1 := by
    obtain ⟨visited, marks, held⟩ := entered
    rw [boundaries, marks, lastEntry_journey, held]
  refine ⟨entered, fun i => ?_, fun i => ?_, call_makes⟩
  · rw [last, Option.some_inj]
    exact decide_eq_true_iff
  · rw [last, Option.some_inj]
    exact machine.uniqueTags.eq_iff

/-! ## A switch -/

inductive Position where
  | opened
  | closed
  | destroyed
  deriving DecidableEq

inductive SwitchEvent where
  | opening
  | closing
  | update
  | destroy

def stay : Action (fun _ : Position => Unit) SwitchEvent Nat (Option (Sigma fun _ : Position => Unit)) :=
  .pure none

def move (next : Position) : Action (fun _ : Position => Unit) SwitchEvent Nat (Option (Sigma fun _ : Position => Unit)) :=
  .pure (some ⟨next, ()⟩)

def countUpdate : Action (fun _ : Position => Unit) SwitchEvent Nat (Option (Sigma fun _ : Position => Unit)) :=
  .request (.access .context) fun updates => .request (.access (.setContext (updates + 1))) fun _ => stay

/-- Opens, closes and counts updates. Being destroyed is left to the common handler, and the
entry of the destroyed state forces the switch to be closed at once. -/
def switch : Machine (fun _ : Position => Unit) Nat SwitchEvent Nat where
  tag
    | .opened => 0
    | .closed => 1
    | .destroyed => 2
  uniqueTags := fun i j same => by cases i <;> cases j <;> first | rfl | cases same
  onEntry
    | .destroyed => .request (.call (.forceTransition ⟨.closed, ()⟩)) fun _ => .pure ()
    | _ => .pure ()
  onExit := fun _ => .pure ()
  onEvent
    | _, .destroy => none
    | .opened, .closing => some (move .closed)
    | .closed, .opening => some (move .opened)
    | .opened, .update => some countUpdate
    | .closed, .update => some countUpdate
    | _, _ => some stay
  commonOnEvent := fun _ => some (move .destroyed)
  handled := fun _ _ => .inr rfl

theorem entry_exit_discipline_testing : ∃ final : Object (fun _ : Position => Unit) Nat,
    final.state.1 = .closed ∧ final.context = 1 ∧ Entered .closed final := by
  refine ⟨_, ?state, ?context, (entry_exit_discipline (show Runs switch ⟨.closed, ()⟩ 0
    [.dispatch .update, .dispatch .opening, .dispatch .destroy] _ from
      ⟨1, _, rfl, 1, _, rfl, 1, _, rfl, 2, _, rfl, rfl⟩)).1⟩
  case state => rfl
  case context => rfl

end Emblib.EntryExitDiscipline
