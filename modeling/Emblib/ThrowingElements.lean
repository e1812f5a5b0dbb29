import Emblib.Library.Throwing
import Emblib.InplaceScripts

/-! Elements whose constructors throw. An exception leaves a member function between two of its
accesses; what it leaves is told by the accesses made and the elements constructed before it. -/
namespace Emblib.ThrowingElements
open Programs SlotLifetimes InplaceLifetimes InplaceScripts
open InplaceStorage hiding perform

/-! ## Constructors that throw -/

/-- The constructor of an element throws. The slot is as it was; what the element is constructed
from may have been moved from by then. -/
def ConstructorThrows : Access T → Object T → Object T → Prop
  | .construct _ _, object, left => left = object
  | .take index, object, left => left = object ∨ left = (access (.take index) object).2
  | _, _, _ => False

@[simp] theorem throws_construct (index : Nat) (value : Slot T) (object left : Object T) :
    ConstructorThrows (.construct index value) object left ↔ left = object := by
  simp only [ConstructorThrows]

def isConstruct : Access T → Bool
  | .construct _ _ => true
  | _ => false

/-- How many elements have been constructed. -/
def constructions (done : List (Access T)) : Nat := done.countP isConstruct

/-- How many elements have been constructed, in all objects. -/
def built (done : List (N × Access T)) : Nat := done.countP fun request => isConstruct request.2

/-! ## Requests that do not construct -/

def Quiet : Access T → Prop
  | .construct _ _ => False
  | .take _ => False
  | _ => True

section Quiet
variable {T A : Type} {config : Config} {object : Object T} {method : Method T A}

theorem quiet_throws {effect : Access T} (quiet : Quiet effect) (object left : Object T) :
    ¬ConstructorThrows effect object left := by
  cases effect <;> first | exact quiet.elim | exact id

theorem quiet_construct {effect : Access T} (quiet : Quiet effect) : isConstruct effect = false := by
  cases effect <;> first | exact quiet.elim | rfl

theorem onThrow_of_quiet {post : List (Access T) → Object T → Prop} (quiet : method.Issues Quiet) :
    OnThrow access (Legal config) ConstructorThrows method object post :=
  onThrow_quiet (Program.issues_mono quiet fun _ => quiet_throws)

/-- What is quiet constructs nothing. -/
theorem constructions_of_quiet (quiet : method.Issues Quiet) (object : Object T) :
    constructions (requests access method object) = 0 := by
  refine List.countP_eq_zero.mpr fun effect asked => ?_
  rw [quiet_construct (requests_issues quiet object effect asked)]
  exact Bool.false_ne_true

theorem perform_quiet (effect : Access T) (quiet : Quiet effect) :
    (InplaceStorage.perform effect).Issues Quiet :=
  ⟨quiet, fun _ => trivial⟩

theorem destroySlot_quiet (i : Nat) : (CircularBuffer.destroySlot config i : Method T Unit).Issues Quiet := by
  unfold CircularBuffer.destroySlot
  split
  · trivial
  · exact perform_quiet (.destroy i) trivial

theorem indexOf_quiet (i : Nat) : (CircularBuffer.indexOf config i : Method T Nat).Issues Quiet :=
  Program.issues_bind (perform_quiet .front trivial) fun _ => trivial

theorem clear_quiet : (CircularBuffer.clear config : Method T Unit).Issues Quiet := by
  refine Program.issues_bind (perform_quiet .size trivial) fun count => ?_
  refine Program.issues_bind (Program.issues_times (fun i => ?_) count) fun _ => ?_
  · exact Program.issues_bind (indexOf_quiet i) fun _ => destroySlot_quiet _
  · exact Program.issues_bind (perform_quiet (.setFront 0) trivial) fun _ => perform_quiet (.setSize 0) trivial

theorem stackClear_quiet : (InplaceStack.clear config : Method T Unit).Issues Quiet := by
  refine Program.issues_bind (perform_quiet .size trivial) fun count => ?_
  refine Program.issues_bind (Program.issues_timesDown (fun i => ?_) count) fun _ => ?_
  · exact destroySlot_quiet i
  · exact perform_quiet (.setSize 0) trivial

end Quiet

/-! ## Exceptions in the middle of an operation -/

/-- The members, and which slots hold an element. -/
structure Alike (object left : Object T) : Prop where
  front : left.front = object.front
  size : left.size = object.size
  alive : ∀ k, left.slots k ≠ .dead ↔ object.slots k ≠ .dead

section Operations
variable {T : Type} {config : Config} {position : Nat → Nat → Nat} {object left : Object T}

theorem alike_refl (object : Object T) : Alike object object := ⟨rfl, rfl, fun _ => Iff.rfl⟩

theorem alike_exact (alike : Alike object left) (exact : Exact config position object) :
    Exact config position left where
  front := alike.front ▸ exact.front
  size := alike.size ▸ exact.size
  holds := fun k => by
    rw [alike.alive k, exact.holds k, alike.front, alike.size]

/-- An element that has been moved from is one still. -/
theorem alike_taken (living : object.slots index ≠ .dead) :
    Alike object { object with slots := Function.update object.slots index .moved } where
  front := rfl
  size := rfl
  alive := fun k => by
    by_cases here : k = index
    · subst here
      simp [living]
    · simp [here]

/-- A position without an element. -/
theorem not_exact (below : i < left.size) (dead : left.slots (position left.front i) = .dead) :
    ¬Exact config position left :=
  fun exact => holds_alive exact.holds below dead

variable (value : Argument T)

@[simp] theorem argument_onThrow {post : List (Access T) → Object T → Prop} :
    OnThrow access (Legal config) ConstructorThrows value.read object post ↔ True := by
  refine iff_of_true ?_ trivial
  cases value with
  | outside value => exact (onThrow_pure _).mpr trivial
  | element index => exact (onThrow_perform _).mpr fun _ => False.elim

@[simp] theorem argument_run : (run access value.read object).2 = object := by
  cases value <;> rfl

theorem pushBack_room (room : object.size ≠ config.capacity) :
    OnThrow access (Legal config) ConstructorThrows (CircularBuffer.pushBack config value) object
      fun _ left => Alike object left := by
  simp [CircularBuffer.pushBack, CircularBuffer.emplaceBack, CircularBuffer.writeBackWith,
    CircularBuffer.size, CircularBuffer.full, CircularBuffer.indexOf, constructAt, ConstructorThrows, room, access,
    alike_refl]

theorem pushFront_room (room : object.size ≠ config.capacity) :
    OnThrow access (Legal config) ConstructorThrows (CircularBuffer.pushFront config value) object
      fun _ left => Alike object left := by
  simp [CircularBuffer.pushFront, CircularBuffer.emplaceFront, CircularBuffer.writeFrontWith,
    CircularBuffer.size, CircularBuffer.full, constructAt, ConstructorThrows, room, access, alike_refl]

theorem queueEmplace_onThrow :
    OnThrow access (Legal config) ConstructorThrows (InplaceQueue.emplace config value) object
      fun _ left => Alike object left := by
  simp [InplaceQueue.emplace, InplaceQueue.size, InplaceQueue.indexOf, CircularBuffer.size,
    CircularBuffer.indexOf, constructAt, ConstructorThrows, access, alike_refl]

theorem stackEmplace_onThrow :
    OnThrow access (Legal config) ConstructorThrows (InplaceStack.emplace config value) object
      fun _ left => Alike object left := by
  simp [InplaceStack.emplace, InplaceStack.size, constructAt, ConstructorThrows, access, alike_refl]

variable (nontrivial : config.triviallyDestructible = false)
include nontrivial

/-- The first element has been destroyed, but the buffer is as full as before. -/
theorem pushBack_full (exact : Exact config (ring config) object) (full : object.size = config.capacity) :
    OnThrow access (Legal config) ConstructorThrows (CircularBuffer.pushBack config value) object
      fun _ left => ¬Exact config (ring config) left := by
  have first : ¬Exact config (ring config)
      { object with slots := Function.update object.slots object.front .dead } := by
    apply @not_exact _ _ _ _ 0
    · rw [full]
      exact config.positive
    · simp [ring_zero exact.front]
  rw [full] at first
  simp [CircularBuffer.pushBack, CircularBuffer.emplaceBack, CircularBuffer.writeBackWith,
    CircularBuffer.size, CircularBuffer.full, CircularBuffer.indexOf, CircularBuffer.destroySlot,
    constructAt, ConstructorThrows, access, nontrivial, full, Nat.mod_eq_of_lt exact.front, first]

/-- The last element has been destroyed. -/
theorem pushFront_full (full : object.size = config.capacity) :
    OnThrow access (Legal config) ConstructorThrows (CircularBuffer.pushFront config value) object
      fun _ left => ¬Exact config (ring config) left := by
  have positive := config.positive
  have last : ¬Exact config (ring config) { object with
      slots := Function.update object.slots ((object.front + config.capacity - 1) % config.capacity) .dead } := by
    apply @not_exact _ _ _ _ (config.capacity - 1)
    · rw [full]
      exact Nat.sub_one_lt_of_lt positive
    · rw [ring, ← Nat.add_sub_assoc positive]
      simp
  rw [full] at last
  simp [CircularBuffer.pushFront, CircularBuffer.emplaceFront, CircularBuffer.writeFrontWith,
    CircularBuffer.size, CircularBuffer.full, CircularBuffer.destroySlot, constructAt, ConstructorThrows, access,
    nontrivial, full, last]

@[simp] theorem popFront_onThrow {post : List (Access T) → Object T → Prop} :
    OnThrow access (Legal config) ConstructorThrows (CircularBuffer.popFront config) object post := by
  simp [CircularBuffer.popFront, CircularBuffer.destroySlot, CircularBuffer.size, ConstructorThrows, nontrivial]

theorem popBack_onThrow {post : List (Access T) → Object T → Prop} :
    OnThrow access (Legal config) ConstructorThrows (CircularBuffer.popBack config) object post := by
  simp [CircularBuffer.popBack, CircularBuffer.destroySlot, CircularBuffer.size, CircularBuffer.indexOf,
    ConstructorThrows, nontrivial]

theorem stackPop_onThrow {post : List (Access T) → Object T → Prop} :
    OnThrow access (Legal config) ConstructorThrows (InplaceStack.pop config) object post := by
  simp [InplaceStack.pop, InplaceStack.destroySlot, InplaceStack.size, ConstructorThrows, nontrivial]

theorem tryPopFront_onThrow (exact : Exact config (ring config) object) :
    OnThrow access (Legal config) ConstructorThrows (CircularBuffer.tryPopFront config) object
      fun _ left => Alike object left := by
  by_cases pending : object.size = 0
  · simp [CircularBuffer.tryPopFront, CircularBuffer.empty, CircularBuffer.size, ConstructorThrows, access, pending]
  · have taken := alike_taken (ring_front exact (Nat.pos_of_ne_zero pending))
    simp [CircularBuffer.tryPopFront, CircularBuffer.empty, CircularBuffer.size, ConstructorThrows, access,
      pending, popFront_onThrow nontrivial, alike_refl, taken]

theorem tryPopBack_onThrow (exact : Exact config (ring config) object) :
    OnThrow access (Legal config) ConstructorThrows (CircularBuffer.tryPopBack config) object
      fun _ left => Alike object left := by
  by_cases pending : object.size = 0
  · simp [CircularBuffer.tryPopBack, CircularBuffer.empty, CircularBuffer.size, ConstructorThrows, access, pending]
  · have taken := alike_taken (ring_alive exact (Nat.sub_one_lt pending))
    unfold ring at taken
    simp [CircularBuffer.tryPopBack, CircularBuffer.empty, CircularBuffer.size, CircularBuffer.indexOf,
      ConstructorThrows, access, pending, popBack_onThrow nontrivial, alike_refl, taken]

theorem stackTryPop_onThrow (exact : Exact config linear object) :
    OnThrow access (Legal config) ConstructorThrows (InplaceStack.tryPop config) object
      fun _ left => Alike object left := by
  by_cases pending : object.size = 0
  · simp [InplaceStack.tryPop, InplaceStack.empty, InplaceStack.size, ConstructorThrows, access, pending]
  · have taken := alike_taken (linear_alive exact (Nat.sub_one_lt pending)).2
    simp [InplaceStack.tryPop, InplaceStack.empty, InplaceStack.size, ConstructorThrows, access,
      pending, stackPop_onThrow nontrivial, alike_refl, taken]

end Operations

/-! ## `fill` -/

section Fill
variable {T : Type} {config : Config} {object : Object T}

/-- The first slots are filled, and none of them is counted. -/
structure Filled (count : Nat) (object : Object T) : Prop where
  front : object.front = 0
  size : object.size = 0
  holds : Holds object.slots id count

theorem filled_exact (filled : Filled count object) : Exact config (ring config) object ↔ count = 0 := by
  constructor
  · intro exact
    by_contra some
    have holds := exact.holds
    rw [filled.size] at holds
    exact holds_alive filled.holds (Nat.pos_of_ne_zero some) (holds_zero holds _)
  · rintro rfl
    refine ⟨?_, ?_, ?_⟩
    · rw [filled.front]
      exact config.positive
    · rw [filled.size]
      exact Nat.zero_le _
    · rw [filled.size]
      exact zero_holds (holds_zero filled.holds)

theorem argument_quiet (value : Argument T) : value.read.Issues Quiet := by
  cases value with
  | outside value => trivial
  | element index => exact perform_quiet (.read index) trivial

theorem constructions_append (first second : List (Access T)) :
    constructions (first ++ second) = constructions first + constructions second :=
  List.countP_append

theorem fill_onThrow (nontrivial : config.triviallyDestructible = false) (value : Argument T)
    (exact : Exact config (ring config) object) :
    OnThrow access (Legal config) ConstructorThrows (CircularBuffer.fill config value) object
      fun done left => Exact config (ring config) left ↔ constructions done = 0 := by
  obtain ⟨_, cleared⟩ := clear_cleared nontrivial exact
  have start : Filled 0 (run access (CircularBuffer.clear config) object).2 :=
    ⟨CircularBufferRefinement.clear_front, cleared.size, zero_holds cleared.dead⟩
  have none := constructions_of_quiet (@clear_quiet _ config) object
  refine (onThrow_bind _).mpr ⟨onThrow_of_quiet clear_quiet, fun _ => ?_⟩
  refine (onThrow_bind _).mpr ⟨?_, fun _ => onThrow_of_quiet (perform_quiet (.setSize _) trivial)⟩
  refine (onThrow_times (fun i before s => constructions before = i ∧ Filled i s) ?_ ⟨rfl, start⟩).1
  rintro i below before filling ⟨counted, filled⟩
  have reads := constructions_of_quiet (argument_quiet value) filling
  constructor
  · have here : Exact config (ring config) filling ↔ constructions before = 0 := by
      rw [filled_exact filled, counted]
    have empty : constructions ([] : List (Access T)) = 0 := rfl
    simp only [constructAt, onThrow_bind, argument_onThrow, onThrow_perform, ConstructorThrows, argument_run, forall_eq,
      constructions_append, none, reads, empty, Nat.zero_add, Nat.add_zero, true_and]
    exact fun _ => here
  · intro obeyed
    simp only [constructAt, obeys_bind, obeys_perform, Legal] at obeyed
    obtain ⟨_, _, _, living⟩ := obeyed
    simp only [constructAt, requests_bind, run_bind, argument_run, constructions_append, counted, reads, run_perform,
      access]
    exact ⟨rfl, filled.front, filled.size, holds_pushLast filled.holds living⟩

end Fill

/-! ## Copies and moves -/

section Copies
variable {N T A : Type} {config : Config} {position : Nat → Nat → Nat} {this other : N}
  {get : Nat → Method T (Slot T)} {clear : Method T Unit} {states start : N → Object T}

theorem built_map (name : N) (done : List (Access T)) : built (done.map (name, ·)) = constructions done :=
  List.countP_map

theorem built_append (first second : List (N × Access T)) : built (first ++ second) = built first + built second :=
  List.countP_append

/-- Getting an element may throw, but leaves every element alive. -/
def ThrowsSafely (config : Config) (position : Nat → Nat → Nat) (get : Nat → Method T (Slot T)) : Prop :=
  ∀ i object, Exact config position object → i < object.size →
    (OnThrow access (Legal config) ConstructorThrows (get i) object fun done left =>
      constructions done = 0 ∧ Exact config position left ∧ left.size = object.size) ∧
    constructions (requests access (get i) object) = 0

variable [DecidableEq N]

@[simp] theorem onThrow_at {post : List (N × Access T) → (N → Object T) → Prop} (name : N)
    (method : Method T A) (states : N → Object T) :
    OnThrow (family access) (At (Legal config)) (familyThrows ConstructorThrows) (method.on name) states post ↔
      OnThrow access (Legal config) ConstructorThrows method (states name) fun done left =>
        post (done.map (name, ·)) (Function.update states name left) :=
  onThrow_on name states

/-- The source of an element changes. -/
theorem building_source {object : Object T} (different : this ≠ other)
    (building : Building config position this other start i states) (exact : Exact config position object)
    (size : object.size = (states other).size) :
    Building config position this other start i (Function.update states other object) := by
  refine ⟨?_, ?_, ?_, ?_, ?_, fun name notThis notOther => ?_⟩
  · rw [Function.update_of_ne different]
    exact building.front
  · rw [Function.update_of_ne different]
    exact building.size
  · rw [Function.update_of_ne different]
    exact building.built
  · rw [Function.update_self]
    exact exact
  · rw [Function.update_self, size]
    exact building.count
  · rw [Function.update_of_ne notOther]
    exact building.apart name notThis notOther

/-- An exception in a round leaves what the rounds before have built. -/
theorem round_onThrow (different : this ≠ other) (gets : Gets config position get)
    (safe : ThrowsSafely config position get) (below : i < (start other).size)
    (building : Building config position this other start i states) :
    let round : Code N T Unit := do
      let element ← (get i).on other
      (do InplaceStorage.perform (.construct i element)
          InplaceStorage.perform (.setSize ((← InplaceStorage.perform .size) + 1)) : Method T Unit).on this
    (OnThrow (family access) (At (Legal config)) (familyThrows ConstructorThrows) round states fun done left =>
      built done = 0 ∧ Building config position this other start i left) ∧
    built (requests (family access) round states) = 1 := by
  obtain ⟨⟨_, exact⟩, _, size⟩ := gets i _ building.source (building.count ▸ below)
  obtain ⟨throwing, none⟩ := safe i _ building.source (building.count ▸ below)
  constructor
  · refine (onThrow_bind _).mpr ⟨(onThrow_at _ _ _).mpr ?_, fun _ => (onThrow_at _ _ _).mpr ?_⟩
    · refine onThrow_mono throwing fun done left ⟨nothing, intact, same⟩ => ?_
      exact ⟨(built_map other done).trans nothing, building_source different building intact same⟩
    · have here := building_source different building exact size
      simp only [onThrow_bind, onThrow_perform, run_on, requests_on, built_append, built_map, none,
        ConstructorThrows]
      refine ⟨?_, fun _ => ⟨fun _ => False.elim, fun _ _ => False.elim⟩⟩
      rintro left rfl
      rw [Function.update_eq_self]
      exact ⟨rfl, here⟩
  · simp only [requests_bind, requests_on, built_append, built_map, none]
    rfl

/-- Behind an exception, the destination holds the elements constructed so far. -/
theorem elementwise_onThrow (different : this ≠ other) (gets : Gets config position get)
    (safe : ThrowsSafely config position get) (source : Exact config position (start other))
    (cleared : Cleared config position (start this)) :
    OnThrow (family access) (At (Legal config)) (familyThrows ConstructorThrows)
      (elementwise get this other) start fun done left =>
        built done < (start other).size ∧ Building config position this other start (built done) left := by
  have begins : Building config position this other start 0 start :=
    ⟨rfl, cleared.size, zero_holds cleared.dead, source, rfl, fun _ _ _ => rfl⟩
  refine (onThrow_bind _).mpr ⟨(onThrow_at _ _ _).mpr ?_, fun _ => ?_⟩
  · exact onThrow_of_quiet (perform_quiet .size trivial)
  · have none : built (requests (family access) ((InplaceStorage.perform .size).on other) start) = 0 := rfl
    simp only [run_on, run_perform, access, Function.update_eq_self, built_append, none, Nat.zero_add]
    refine (onThrow_times (fun i before states => built before = i ∧
      Building config position this other start i states) ?_ ⟨rfl, begins⟩).1
    rintro i below before states ⟨counted, building⟩
    obtain ⟨throwing, one⟩ := round_onThrow different gets safe below building
    simp only [built_append, counted, one, true_and]
    refine ⟨?_, fun _ => (building_round different gets source.size below building).2⟩
    refine onThrow_mono throwing fun done left stopped => ?_
    obtain ⟨nothing, partway⟩ := stopped
    rw [nothing]
    exact ⟨below, partway⟩

/-- The elements constructed so far, in an object that is to be constructed; the other objects are
exact. -/
structure Abandoned (config : Config) (position : Nat → Nat → Nat) (this : N) (count : Nat)
    (left : N → Object T) : Prop where
  exact : ∀ name, name ≠ this → Exact config position (left name)
  holds : Holds (left this).slots id count

theorem building_others (ready : Ready config position this start)
    (building : Building config position this other start count left) (notThis : name ≠ this) :
    Exact config position (left name) := by
  by_cases isOther : name = other
  · rw [isOther]
    exact building.source
  · rw [building.apart name notThis isOther]
    exact ready.exact name

theorem building_abandoned (ready : Ready config position this start)
    (building : Building config position this other start count left) :
    Abandoned config position this count left :=
  ⟨fun _ notThis => building_others ready building notThis, building.built⟩

/-- The destination counts what it holds. -/
theorem building_exact (ready : Ready config position this start) (below : count < (start other).size)
    (building : Building config position this other start count left) (name : N) :
    Exact config position (left name) := by
  have bound := Nat.le_trans below.le (ready.exact other).size
  by_cases isThis : name = this
  · rw [isThis]
    refine ⟨?_, ?_, ?_⟩
    · rw [building.front]
      exact ready.cleared.front
    · rw [building.size]
      exact bound
    · rw [building.front, building.size]
      exact holds_congr building.built fun i inside =>
        (ready.cleared.aligned i (Nat.lt_of_lt_of_le inside bound)).symm
  · exact building_others ready building isThis

theorem copyConstruct_onThrow (aligned : ∀ i, i < config.capacity → position 0 i = i)
    (different : this ≠ other) (gets : Gets config position get) (safe : ThrowsSafely config position get)
    (ready : Ready config position this states) :
    OnThrow (family access) (At (Legal config)) (familyThrows ConstructorThrows)
      (do (InplaceStorage.perform (.setBytes .initial)).on this; elementwise get this other) states
      fun done left => Abandoned config position this (built done) left := by
  obtain ⟨_, fresh⟩ := fresh_ready aligned ready
  refine (onThrow_bind _).mpr ⟨(onThrow_at _ _ _).mpr ?_, fun _ => ?_⟩
  · exact onThrow_of_quiet (perform_quiet (.setBytes .initial) trivial)
  · refine onThrow_mono (elementwise_onThrow different gets safe (fresh.exact other) fresh.cleared) ?_
    rintro done left ⟨_, building⟩
    have none : built (requests (family access) ((InplaceStorage.perform (.setBytes .initial)).on this) states) = 0 :=
      rfl
    rw [built_append, none, Nat.zero_add]
    exact building_abandoned fresh building

theorem copyFrom_onThrow (different : this ≠ other) (gets : Gets config position get)
    (safe : ThrowsSafely config position get) (ready : Ready config position this states) :
    OnThrow (family access) (At (Legal config)) (familyThrows ConstructorThrows)
      (elementwise get this other) states fun _ left => ∀ name, Exact config position (left name) := by
  refine onThrow_mono (elementwise_onThrow different gets safe (ready.exact other) ready.cleared) ?_
  rintro done left ⟨below, building⟩
  exact building_exact ready below building

/-- An assignment first destroys what it replaces. -/
theorem assign_onThrow {code : Code N T Unit} (clears : Clears config position clear)
    (quiet : clear.Issues Quiet) (exact : ∀ name, Exact config position (states name))
    (throwing : ∀ states, this ≠ other → Ready config position this states →
      OnThrow (family access) (At (Legal config)) (familyThrows ConstructorThrows) code states
        fun _ left => ∀ name, Exact config position (left name)) :
    OnThrow (family access) (At (Legal config)) (familyThrows ConstructorThrows)
      (if this ≠ other then do clear.on this; code else .pure ()) states
      fun _ left => ∀ name, Exact config position (left name) := by
  by_cases self : this = other
  · rw [if_neg (not_not.mpr self)]
    exact (onThrow_pure ()).mpr trivial
  · obtain ⟨_, ready⟩ := @clear_ready _ _ _ _ _ this _ _ clears exact
    rw [if_pos self]
    refine (onThrow_bind _).mpr ⟨(onThrow_at _ _ _).mpr (onThrow_of_quiet quiet), fun _ => ?_⟩
    exact throwing _ self ready

/-- The elements of the source are destroyed when no constructor throws any more. -/
theorem onThrow_cleared {code : Code N T Unit} {post : List (N × Access T) → (N → Object T) → Prop}
    (quiet : clear.Issues Quiet)
    (throwing : OnThrow (family access) (At (Legal config)) (familyThrows ConstructorThrows) code states post) :
    OnThrow (family access) (At (Legal config)) (familyThrows ConstructorThrows)
      (do code; clear.on other) states post :=
  (onThrow_bind _).mpr ⟨throwing, fun _ => (onThrow_at _ _ _).mpr (onThrow_of_quiet quiet)⟩

end Copies

section Families
variable {T : Type} {config : Config}

theorem ring_reads_safely : ThrowsSafely config (ring config) fun i =>
    (do InplaceStorage.perform (.read (← CircularBuffer.indexOf config i)) : Method T (Slot T)) := by
  intro i object exact below
  refine ⟨onThrow_of_quiet ?_, rfl⟩
  exact Program.issues_bind (indexOf_quiet i) fun index => perform_quiet (.read index) trivial

theorem ring_takes_safely : ThrowsSafely config (ring config) fun i =>
    (do InplaceStorage.perform (.take (← CircularBuffer.indexOf config i)) : Method T (Slot T)) := by
  intro i object exact below
  refine ⟨(onThrow_bind _).mpr ⟨onThrow_of_quiet (indexOf_quiet i), fun _ => ?_⟩, rfl⟩
  refine (onThrow_perform _).mpr ?_
  rintro left (rfl | rfl)
  · exact ⟨rfl, exact, rfl⟩
  · exact ⟨rfl, ring_taken exact below, rfl⟩

theorem linear_reads_safely : ThrowsSafely config linear fun i =>
    (InplaceStorage.perform (.read i) : Method T (Slot T)) := by
  intro i object exact below
  exact ⟨onThrow_of_quiet (perform_quiet (.read i) trivial), rfl⟩

theorem linear_takes_safely : ThrowsSafely config linear fun i =>
    (InplaceStorage.perform (.take i) : Method T (Slot T)) := by
  intro i object exact below
  refine ⟨(onThrow_perform _).mpr ?_, rfl⟩
  rintro left (rfl | rfl)
  · exact ⟨rfl, exact, rfl⟩
  · exact ⟨rfl, linear_taken exact below, rfl⟩

end Families
end Emblib.ThrowingElements
