import Emblib.Library.Counter
import Emblib.InplaceStorage

/-! The lifetimes of the elements of a container. A slot is constructed only when it is
dead and destroyed, read or moved from only when it holds an element; then the accesses to
one slot are constructions and destructions in turn, whatever the program. -/
namespace Emblib.SlotLifetimes
open Programs InplaceStorage Counters
open Program (times)

/-! ## The rules -/

/-- What an access requires of the slots. A moved-from element is an element still. The
bytes of an object are never copied, and its storage is only set up while no slot is alive. -/
def Legal (config : Config) : Access T → Object T → Prop
  | .assume holds, _ => holds = true
  | .construct index value, object =>
    index < config.capacity ∧ object.slots index = .dead ∧ value ≠ .dead
  | .destroy index, object => index < config.capacity ∧ object.slots index ≠ .dead
  | .read index, object => index < config.capacity ∧ object.slots index ≠ .dead
  | .take index, object => index < config.capacity ∧ object.slots index ≠ .dead
  | .bytes, _ => False
  | .setBytes value, object => (∀ k, object.slots k = .dead) ∧ ∀ k, value.slots k = .dead
  | _, _ => True

@[simp] theorem legal_assume (holds : Bool) (object : Object T) :
    Legal config (.assume holds) object ↔ holds = true := by
  simp only [Legal]

/-- A rule for one object, applied to the object that a request names. -/
def At (rule : Access T → Object T → Prop) (request : N × Access T) (states : N → Object T) : Prop :=
  rule request.2 (states request.1)

@[simp] theorem obeys_at [DecidableEq N] {rule : Access T → Object T → Prop} (name : N)
    (method : Method T A) (states : N → Object T) :
    Obeys (family access) (At rule) (method.on name) states ↔ Obeys access rule method (states name) :=
  obeys_on name method states

/-! ## Which slots are alive -/

/-- The slots that hold an element are the places of the positions below `count`. -/
def Holds (slots : Nat → Slot T) (place : Nat → Nat) (count : Nat) : Prop :=
  ∀ k, slots k ≠ .dead ↔ ∃ i, i < count ∧ place i = k

section Holds
variable {T : Type} {slots : Nat → Slot T} {place other : Nat → Nat} {count : Nat} {value : Slot T}

theorem holds_zero (holds : Holds slots place 0) (k : Nat) : slots k = .dead := by
  by_contra alive
  obtain ⟨i, below, _⟩ := (holds k).mp alive
  exact absurd below (Nat.not_lt_zero i)

theorem zero_holds (dead : ∀ k, slots k = .dead) : Holds slots place 0 := by
  intro k
  constructor
  · intro alive
    exact absurd (dead k) alive
  · rintro ⟨i, below, _⟩
    exact absurd below (Nat.not_lt_zero i)

theorem holds_alive (holds : Holds slots place count) (below : i < count) : slots (place i) ≠ .dead :=
  (holds _).mpr ⟨i, below, rfl⟩

theorem holds_dead (holds : Holds slots place count) (apart : ∀ i, i < count → place i ≠ k) :
    slots k = .dead := by
  by_contra alive
  obtain ⟨i, below, same⟩ := (holds k).mp alive
  exact apart i below same

theorem holds_congr (holds : Holds slots place count) (same : ∀ i, i < count → place i = other i) :
    Holds slots other count := by
  intro k
  rw [holds k]
  constructor
  · rintro ⟨i, below, here⟩
    exact ⟨i, below, same i below ▸ here⟩
  · rintro ⟨i, below, here⟩
    exact ⟨i, below, (same i below).trans here⟩

/-- An element that changes, moves away or is assigned stays an element. -/
theorem holds_update (holds : Holds slots place count) (below : i < count) (alive : value ≠ .dead) :
    Holds (Function.update slots (place i) value) place count := by
  intro k
  by_cases here : k = place i
  · subst here
    rw [Function.update_self]
    exact ⟨fun _ => ⟨i, below, rfl⟩, fun _ => alive⟩
  · rw [Function.update_of_ne here]
    exact holds k

theorem live_ne_dead {value : T} : Slot.live value ≠ .dead := by simp

/-- One element more, at a place of its own. -/
theorem holds_add (holds : Holds slots rest count) (alive : value ≠ .dead)
    (split : ∀ k, (∃ i, i < count + 1 ∧ place i = k) ↔ extra = k ∨ ∃ i, i < count ∧ rest i = k) :
    Holds (Function.update slots extra value) place (count + 1) := by
  intro k
  rw [split k]
  by_cases here : k = extra
  · subst here
    rw [Function.update_self]
    exact iff_of_true alive (.inl rfl)
  · rw [Function.update_of_ne here, holds k, or_iff_right (Ne.symm here)]

/-- One element less, whose place no other one has. -/
theorem holds_remove (holds : Holds slots place (count + 1))
    (split : ∀ k, (∃ i, i < count + 1 ∧ place i = k) ↔ extra = k ∨ ∃ i, i < count ∧ rest i = k)
    (apart : ∀ i, i < count → rest i ≠ extra) :
    Holds (Function.update slots extra .dead) rest count := by
  intro k
  by_cases here : k = extra
  · subst here
    rw [Function.update_self]
    refine iff_of_false (fun alive => alive rfl) ?_
    rintro ⟨i, below, same⟩
    exact apart i below same
  · rw [Function.update_of_ne here, holds k, split k, or_iff_right (Ne.symm here)]

theorem holds_pushLast (holds : Holds slots place count) (alive : value ≠ .dead) :
    Holds (Function.update slots (place count) value) place (count + 1) :=
  holds_add holds alive fun _ => Nat.exists_lt_succ_right.trans or_comm

theorem holds_pushFirst (holds : Holds slots (fun i => place (i + 1)) count) (alive : value ≠ .dead) :
    Holds (Function.update slots (place 0) value) place (count + 1) :=
  holds_add holds alive fun _ => Nat.exists_lt_succ_left

theorem holds_popLast (holds : Holds slots place (count + 1))
    (apart : ∀ i, i < count → place i ≠ place count) :
    Holds (Function.update slots (place count) .dead) place count :=
  holds_remove holds (fun _ => Nat.exists_lt_succ_right.trans or_comm) apart

theorem holds_popFirst (holds : Holds slots place (count + 1))
    (apart : ∀ i, i < count → place (i + 1) ≠ place 0) :
    Holds (Function.update slots (place 0) .dead) (fun i => place (i + 1)) count :=
  holds_remove holds (fun _ => Nat.exists_lt_succ_left) apart

end Holds

/-! ## The history of one slot -/

inductive Event where
  | constructed
  | destroyed
  deriving DecidableEq

/-- What the request does to the slot with this index of the object with this name. -/
def event [DecidableEq N] (name : N) (index : Nat) (request : N × Access T) : Option Event :=
  if request.1 = name then
    match request.2 with
    | .construct i _ => if i = index then some .constructed else none
    | .destroy i => if i = index then some .destroyed else none
    | _ => none
  else none

/-- The history of the slot in a sequence of requests. -/
def history [DecidableEq N] (name : N) (index : Nat) (trace : List (N × Access T)) : List Event :=
  trace.filterMap (event name index)

/-- Whether a slot is alive after these events, if they alternate as they have to. -/
def track : Bool → List Event → Option Bool
  | alive, [] => some alive
  | false, .constructed :: rest => track true rest
  | true, .destroyed :: rest => track false rest
  | _, _ => none

/-- Events that alternate from dead to dead are constructions, each with its destruction. -/
theorem track_paired : (events : List Event) → track false events = some false →
    ∃ count, events = (List.replicate count [Event.constructed, .destroyed]).flatten
  | [], _ => ⟨0, rfl⟩
  | .constructed :: .destroyed :: rest, tracked => by
    obtain ⟨count, same⟩ := track_paired rest tracked
    exact ⟨count + 1, by rw [List.replicate_succ, List.flatten_cons, ← same]; rfl⟩

/-- Whether the slot holds an element. -/
def alive : Slot T → Bool
  | .dead => false
  | _ => true

theorem alive_eq_true {slot : Slot T} : alive slot = true ↔ slot ≠ .dead := by
  cases slot <;> simp [alive]

theorem alive_eq_false {slot : Slot T} : alive slot = false ↔ slot = .dead := by
  cases slot <;> simp [alive]

/-- What a legal request does to a slot shows in its event. -/
theorem legal_track [DecidableEq N] {config : Config} {name : N} {index : Nat}
    (request : N × Access T) (states : N → Object T) (legal : At (Legal config) request states) :
    track (alive ((states name).slots index)) (event name index request).toList =
      some (alive (((family access request states).2 name).slots index)) := by
  obtain ⟨who, request⟩ := request
  by_cases same : who = name
  · subst same
    simp only [event, if_true, family, Function.update_self]
    cases request with
    | construct i value =>
      obtain ⟨_, dead, living⟩ := legal
      by_cases here : i = index
      · subst here
        simp only [if_true, access, Function.update_self, Option.toList_some]
        rw [alive_eq_false.mpr dead, alive_eq_true.mpr living]
        rfl
      · simp only [if_neg here, access, Function.update_of_ne (Ne.symm here), Option.toList_none, track]
    | destroy i =>
      obtain ⟨_, living⟩ := legal
      by_cases here : i = index
      · subst here
        simp only [if_true, access, Function.update_self, Option.toList_some]
        rw [alive_eq_true.mpr living]
        rfl
      · simp only [if_neg here, access, Function.update_of_ne (Ne.symm here), Option.toList_none, track]
    | take i =>
      obtain ⟨_, living⟩ := legal
      by_cases here : index = i
      · subst here
        simp only [access, Function.update_self, Option.toList_none, track]
        rw [alive_eq_true.mpr living]
        rfl
      · simp only [access, Function.update_of_ne here, Option.toList_none, track]
    | setBytes value =>
      obtain ⟨before, after⟩ := legal
      simp only [access, before index, after index, Option.toList_none, track]
    | _ => rfl
  · simp only [event, if_neg same, family, Function.update_of_ne (Ne.symm same), Option.toList_none, track]

/-- Tracking goes on from where the first events lead. -/
theorem track_append (state middle : Bool) (first rest : List Event)
    (tracked : track state first = some middle) : track state (first ++ rest) = track middle rest := by
  induction first generalizing state with
  | nil =>
    obtain rfl := Option.some.inj tracked
    rfl
  | cons event first ih =>
    cases state with
    | false =>
      cases event with
      | constructed => exact ih true tracked
      | destroyed => exact nomatch tracked
    | true =>
      cases event with
      | constructed => exact nomatch tracked
      | destroyed => exact ih false tracked

/-- In a legal run the history of every slot alternates, from what the slot was to what it is. -/
theorem history_tracked [DecidableEq N] {config : Config} (name : N) (index : Nat)
    (program : Code N T A) (states : N → Object T)
    (obeys : Obeys (family access) (At (Legal config)) program states) :
    track (alive ((states name).slots index))
        (history name index (requests (family access) program states)) =
      some (alive (((run (family access) program states).2 name).slots index)) := by
  induction program generalizing states with
  | pure value => rfl
  | request effect next ih =>
    have step := @legal_track _ _ _ config name index effect states obeys.1
    have split : history name index (requests (family access) (.request effect next) states) =
        (event name index effect).toList ++ history name index
          (requests (family access) (next (family access effect states).1)
            (family access effect states).2) := by
      rw [requests, history, List.filterMap_cons]
      cases event name index effect <;> rfl
    rw [split, track_append _ _ _ _ step]
    exact ih _ _ obeys.2

end Emblib.SlotLifetimes
