import Emblib.CircularBufferCopies
import Emblib.InplaceLifetimes

/-! Insertions of an element that the buffer holds. The argument is a reference, so it is read
when the new element is constructed. A push onto a full buffer has destroyed the element at the
other end by then, and `fill` has destroyed all of them. Where elements need no destructor, the
element that makes room is constructed from itself. -/
namespace Emblib.CircularBufferAliasing
open Programs CircularBuffer CircularBufferRefinement InplaceLifetimes
open Program (times)
open InplaceStorage hiding destroySlot

/-! ## Insertions -/

inductive Insertion where
  | pushBack
  | pushFront
  | fill
  deriving DecidableEq, Repr

namespace Insertion

def code (config : Config) : Insertion → Argument T → Method T Unit
  | pushBack, value => CircularBuffer.pushBack config value
  | pushFront, value => CircularBuffer.pushFront config value
  | fill, value => CircularBuffer.fill config value

/-- The elements behind the insertion of a value. -/
def expected (bound : Nat) : Insertion → T → List T → List T
  | pushBack, value, elements => Deque.pushBack bound value elements
  | pushFront, value, elements => Deque.pushFront bound value elements
  | fill, value, _ => List.replicate bound value

/-- The element at this position makes room for the insertion. -/
def Overwrites (config : Config) (buffer : Object T) (position : Nat) : Insertion → Prop
  | pushBack => buffer.size = config.capacity ∧ position = 0
  | pushFront => buffer.size = config.capacity ∧ position + 1 = buffer.size
  | fill => True

end Insertion

/-- A slot is read only while it holds an element. -/
def ReadsAlive : Access T → Object T → Prop
  | .read index, object => object.slots index ≠ .dead
  | _, _ => True

/-- The slot that `front()`, `back()` and `operator[]` refer to, by the position of the element. -/
def slotOf (config : Config) (buffer : Object T) (position : Nat) : Nat :=
  (buffer.front + position) % config.capacity

/-- The insertion of the element at a position reads no destroyed slot, and inserts its value. -/
structure InsertsOwn (config : Config) (buffer : Object T) (elements : List T)
    (insertion : Insertion) (position : Nat) (value : T) : Prop where
  reads : Obeys access ReadsAlive
    (insertion.code config (.element (slotOf config buffer position))) buffer
  inserts : Represents config
    (run access (insertion.code config (.element (slotOf config buffer position))) buffer).2
    (insertion.expected config.capacity value elements)

variable {T : Type} {config : Config} {buffer : Object T} {elements : List T} {value : T}
  {index position : Nat}

/-! ## Pushes -/

/-- The slots when a push into the target constructs its element. -/
def slotsAtRead (config : Config) (buffer : Object T) (target : Nat) : Nat → Slot T :=
  if buffer.size = config.capacity then
    InplaceStorage.destroySlot config.triviallyDestructible buffer.slots target
  else buffer.slots

/-- What a push into the target constructs from the element in a slot. -/
def givenAtRead (config : Config) (buffer : Object T) (target index : Nat) : Slot T :=
  (Argument.element index).given config target (slotsAtRead config buffer target index)

theorem given_dead : (Argument.element index).given config position (.dead : Slot T) = .dead := rfl

theorem given_apart (apart : index ≠ position) :
    (Argument.element index).given config position (.live value) = .live value := by
  simp [Argument.given, apart]

theorem given_itself : (Argument.element index).given config index (.live value) =
    if config.keepsItself = false then .moved else .live value := by
  simp [Argument.given]

/-- The argument is lost only if the full buffer has destroyed it, or constructs it from itself and its type
does not survive that. -/
theorem givenAtRead_iff {target : Nat} (holds : buffer.slots index = .live value)
    (apart : buffer.size ≠ config.capacity → index ≠ target) :
    givenAtRead config buffer target index = .live value ↔
      (config.triviallyDestructible = true ∧ config.keepsItself = true) ∨
        ¬(buffer.size = config.capacity ∧ index = target) := by
  unfold givenAtRead slotsAtRead
  by_cases full : buffer.size = config.capacity
  · rw [if_pos full]
    by_cases same : index = target
    · subst same
      unfold InplaceStorage.destroySlot
      cases config.triviallyDestructible with
      | true =>
        rw [if_pos rfl, holds, given_itself]
        cases config.keepsItself <;> simp [full]
      | false => simp [given_dead, full]
    · rw [destroySlot_of_ne same, holds, given_apart same]
      simp [same]
  · rw [if_neg full, holds, given_apart (apart full)]
    simp [full]

/-- What is read from a destroyed slot is no element. -/
theorem alive_of_given {target : Nat} (given : givenAtRead config buffer target index = .live value) :
    slotsAtRead config buffer target index ≠ .dead := by
  intro dead
  unfold givenAtRead at given
  rw [dead, given_dead] at given
  exact nomatch given

@[simp] theorem destroySlot_reads (target : Nat) :
    Obeys access ReadsAlive (destroySlot config target) buffer ↔ True := by
  unfold destroySlot
  split
  · exact Iff.rfl
  · exact obeys_perform _ _

@[simp] theorem constructAt_reads : Obeys access ReadsAlive (constructAt config position (.element index)) buffer ↔
    buffer.slots index ≠ .dead := by
  simp [constructAt, Argument.read, access, ReadsAlive]

theorem pushBack_reads : Obeys access ReadsAlive (pushBack config (.element index)) buffer ↔
    slotsAtRead config buffer ((buffer.front + buffer.size) % config.capacity) index ≠ .dead := by
  by_cases full : buffer.size = config.capacity
  · simp [pushBack, emplaceBack, writeBackWith, ReadsAlive, slotsAtRead, full]
  · simp [pushBack, emplaceBack, writeBackWith, ReadsAlive, slotsAtRead, full]

theorem pushFront_reads : Obeys access ReadsAlive (pushFront config (.element index)) buffer ↔
    slotsAtRead config buffer ((buffer.front + config.capacity - 1) % config.capacity) index ≠ .dead := by
  by_cases full : buffer.size = config.capacity
  · simp [pushFront, emplaceFront, writeFrontWith, access, ReadsAlive, slotsAtRead, full]
  · simp [pushFront, emplaceFront, writeFrontWith, access, ReadsAlive, slotsAtRead, full]

/-- The buffer behind a push that constructs this in its slot. -/
def pushedBack (config : Config) (buffer : Object T) (slot : Slot T) : Object T :=
  let slots := Function.update buffer.slots ((buffer.front + buffer.size) % config.capacity) slot
  if buffer.size = config.capacity then { buffer with slots, front := (buffer.front + 1) % config.capacity }
  else { buffer with slots, size := buffer.size + 1 }

def pushedFront (config : Config) (buffer : Object T) (slot : Slot T) : Object T :=
  let front := (buffer.front + config.capacity - 1) % config.capacity
  let slots := Function.update buffer.slots front slot
  if buffer.size = config.capacity then { buffer with slots, front }
  else { front, slots, size := buffer.size + 1 }

theorem run_pushBack_element : (run access (pushBack config (.element index)) buffer).2 =
    pushedBack config buffer
      (givenAtRead config buffer ((buffer.front + buffer.size) % config.capacity) index) := by
  by_cases full : buffer.size = config.capacity
  · simp [pushBack, emplaceBack, writeBackWith, constructAt, Argument.read, access, pushedBack, givenAtRead,
      slotsAtRead, full, update_destroySlot]
  · simp [pushBack, emplaceBack, writeBackWith, constructAt, Argument.read, access, pushedBack, givenAtRead,
      slotsAtRead, full]

theorem run_pushFront_element : (run access (pushFront config (.element index)) buffer).2 =
    pushedFront config buffer
      (givenAtRead config buffer ((buffer.front + config.capacity - 1) % config.capacity) index) := by
  by_cases full : buffer.size = config.capacity
  · simp [pushFront, emplaceFront, writeFrontWith, constructAt, Argument.read, access, pushedFront, givenAtRead,
      slotsAtRead, full, update_destroySlot]
  · simp [pushFront, emplaceFront, writeFrontWith, constructAt, Argument.read, access, pushedFront, givenAtRead,
      slotsAtRead, full]

/-- A push inserts the value if and only if it constructs the value. -/
theorem pushedBack_represents {slot : Slot T} (represents : Represents config buffer elements) :
    Represents config (pushedBack config buffer slot) (Deque.pushBack config.capacity value elements) ↔
      slot = .live value := by
  unfold pushedBack Deque.pushBack
  rw [← represents_length represents]
  by_cases full : buffer.size = config.capacity
  · rw [if_pos full, if_pos full]
    constructor
    · intro pushed
      have contents := pushed.contents
      simp only [CircularBufferRefinement.contents, full] at contents
      rw [Rings.window_position (Nat.mod_mod _ _), Rings.window_overwriteBack config.positive, List.map_append]
        at contents
      exact List.singleton_inj.mp (List.append_inj_right' contents rfl)
    · rintro rfl
      exact represents_overwriteBack value represents full
  · have room := Nat.lt_of_le_of_ne represents.size full
    rw [if_neg full, if_neg full]
    constructor
    · intro pushed
      have contents := pushed.contents
      simp only [CircularBufferRefinement.contents] at contents
      rw [Rings.window_pushBack room, List.map_append] at contents
      exact List.singleton_inj.mp (List.append_inj_right' contents rfl)
    · rintro rfl
      exact represents_pushBack value represents room

theorem pushedFront_represents {slot : Slot T} (represents : Represents config buffer elements) :
    Represents config (pushedFront config buffer slot) (Deque.pushFront config.capacity value elements) ↔
      slot = .live value := by
  unfold pushedFront Deque.pushFront
  rw [← represents_length represents]
  by_cases full : buffer.size = config.capacity
  · rw [if_pos full, if_pos full]
    constructor
    · intro pushed
      have contents := pushed.contents
      simp only [CircularBufferRefinement.contents, full] at contents
      rw [Rings.window_overwriteFront config.positive, List.map_cons] at contents
      exact (List.cons.inj contents).1
    · rintro rfl
      exact represents_overwriteFront value represents full
  · have room := Nat.lt_of_le_of_ne represents.size full
    rw [if_neg full, if_neg full]
    constructor
    · intro pushed
      have contents := pushed.contents
      simp only [CircularBufferRefinement.contents] at contents
      rw [Rings.window_pushFront room, List.map_cons] at contents
      exact (List.cons.inj contents).1
    · rintro rfl
      exact represents_pushFront value represents room

/-- What a push inserts is told by what it constructs. -/
theorem insertsOwn_iff {insertion : Insertion} {target : Nat} {pushed : Slot T → Object T}
    (reads : Obeys access ReadsAlive (insertion.code config (.element (slotOf config buffer position))) buffer ↔
      slotsAtRead config buffer target (slotOf config buffer position) ≠ .dead)
    (ran : (run access (insertion.code config (.element (slotOf config buffer position))) buffer).2 =
      pushed (givenAtRead config buffer target (slotOf config buffer position)))
    (represents : ∀ slot, Represents config (pushed slot) (insertion.expected config.capacity value elements) ↔
      slot = .live value) :
    InsertsOwn config buffer elements insertion position value ↔
      givenAtRead config buffer target (slotOf config buffer position) = .live value := by
  constructor
  · intro own
    have inserts := own.inserts
    rw [ran] at inserts
    exact (represents _).mp inserts
  · intro given
    refine ⟨reads.mpr (alive_of_given given), ?_⟩
    rw [ran]
    exact (represents _).mpr given

/-! ## Which element makes room -/

theorem slotOf_back (full : buffer.size = config.capacity) (inside : position < buffer.size) :
    slotOf config buffer position = (buffer.front + buffer.size) % config.capacity ↔ position = 0 := by
  have lap : (buffer.front + buffer.size) % config.capacity = (buffer.front + 0) % config.capacity := by
    rw [full, Nat.add_mod_right, Nat.add_zero]
  rw [slotOf, lap]
  constructor
  · intro same
    by_contra other
    exact Counters.slot_ne (by omega) (Nat.le_add_right _ _) (by omega) (Nat.le_add_right _ _)
      (Nat.add_lt_add_left config.positive _) same
  · rintro rfl
    rfl

theorem slotOf_front (full : buffer.size = config.capacity) (inside : position < buffer.size) :
    slotOf config buffer position = (buffer.front + config.capacity - 1) % config.capacity ↔
      position + 1 = buffer.size := by
  have positive := config.positive
  have last : buffer.front + config.capacity - 1 = buffer.front + (config.capacity - 1) := by omega
  rw [slotOf, last]
  constructor
  · intro same
    by_contra other
    exact Counters.slot_ne (by omega) (Nat.le_add_right _ _) (by omega) (Nat.le_add_right _ _)
      (by omega) same
  · intro here
    rw [← full, ← here, Nat.add_sub_cancel]

/-- A push onto a buffer that is not full has a slot of its own. -/
theorem slotOf_room (room : buffer.size < config.capacity) (inside : position < buffer.size) :
    slotOf config buffer position ≠ (buffer.front + buffer.size) % config.capacity ∧
      slotOf config buffer position ≠ (buffer.front + config.capacity - 1) % config.capacity := by
  have last : buffer.front + config.capacity - 1 = buffer.front + (config.capacity - 1) := by omega
  rw [last]
  constructor
  · exact Counters.slot_ne (by omega) (Nat.le_add_right _ _) (by omega) (Nat.le_add_right _ _) (by omega)
  · exact Counters.slot_ne (by omega) (Nat.le_add_right _ _) (by omega) (Nat.le_add_right _ _) (by omega)

theorem represents_live (represents : Represents config buffer elements)
    (here : elements[position]? = some value) :
    position < buffer.size ∧ buffer.slots (slotOf config buffer position) = .live value := by
  have inside : position < buffer.size := by
    rw [represents_length represents]
    exact (List.getElem?_eq_some_iff.mp here).1
  have slot := represents_get represents inside
  rw [here] at slot
  exact ⟨inside, (Option.some.inj slot).symm⟩

/-! ## `fill` -/

/-- The loop of `clear` destroys the elements, or does nothing at all. -/
structure Emptied (config : Config) (buffer : Object T) (count : Nat) (object : Object T) : Prop where
  front : object.front = buffer.front
  kept : config.triviallyDestructible = true → object.slots = buffer.slots
  destroyed : config.triviallyDestructible = false →
    ∀ i, i < count → object.slots (slotOf config buffer i) = .dead

theorem emptied_round {object : Object T} (emptied : Emptied config buffer index object) :
    Emptied config buffer (index + 1)
      (run access (do destroySlot config (← indexOf config index)) object).2 := by
  simp only [run_bind, run_indexOf, run_destroySlot]
  refine ⟨emptied.front, fun trivial => ?_, fun nontrivial i below => ?_⟩
  · simp only [trivial, InplaceStorage.destroySlot, if_true]
    exact emptied.kept trivial
  · simp only [nontrivial, InplaceStorage.destroySlot, Bool.false_eq_true, if_false, emptied.front]
    by_cases same : slotOf config buffer i = (buffer.front + index) % config.capacity
    · rw [same, Function.update_self]
    · rw [Function.update_of_ne same]
      have earlier : i ≠ index := fun last => same (last ▸ rfl)
      exact emptied.destroyed nontrivial i (by omega)

theorem clear_emptied : Obeys access ReadsAlive (clear config) buffer ∧
    Emptied config buffer buffer.size
      { (run access (clear config) buffer).2 with front := buffer.front } := by
  have loop := @obeys_times _ _ _ access ReadsAlive
    (fun i (object : Object T) => Emptied config buffer i object) buffer.size
    (fun i => do destroySlot config (← indexOf config i)) ?_ buffer
      ⟨rfl, fun _ => rfl, fun _ i below => absurd below (Nat.not_lt_zero i)⟩
  · obtain ⟨reads, emptied⟩ := loop
    simp only [clear, obeys_bind, obeys_size, run_size, obeys_perform, ReadsAlive, run_bind,
      true_and, and_true]
    exact ⟨reads, rfl, emptied.kept, emptied.destroyed⟩
  · intro i below object emptied
    refine ⟨?_, emptied_round emptied⟩
    simp only [obeys_bind, obeys_indexOf, destroySlot_reads, ReadsAlive, and_self]

/-- A loop that obeys obeys in its first round. -/
theorem obeys_first {legal : Access T → Object T → Prop} {body : Nat → Method T Unit}
    {count : Nat} {object : Object T}
    (obeys : Obeys access legal (times (count + 1) body) object) :
    Obeys access legal (body 0) object := by
  induction count with
  | zero => exact ((obeys_bind _ _ _).mp obeys).2
  | succ count ih => exact ih ((obeys_bind _ _ _).mp obeys).1

/-- Where elements are destroyed, `fill` reads one that it has destroyed. -/
theorem fill_reads_dead (nontrivial : config.triviallyDestructible = false)
    (inside : position < buffer.size) :
    ¬Obeys access ReadsAlive (fill config (.element (slotOf config buffer position))) buffer := by
  intro obeys
  obtain ⟨rounds, capacity⟩ := Nat.exists_eq_succ_of_ne_zero (Nat.ne_of_gt config.positive)
  simp only [fill, obeys_bind] at obeys
  have loop := obeys.2.1
  rw [capacity] at loop
  have first := obeys_first loop
  exact constructAt_reads.mp first (clear_emptied.2.destroyed nontrivial position inside)

/-- Where they are not, the element stays while `fill` writes over everything, if it survives its own turn. -/
theorem fill_inserts (trivial : config.triviallyDestructible = true) (keeps : config.keepsItself = true)
    (live : buffer.slots index = .live value) :
    Obeys access ReadsAlive (fill config (.element index)) buffer ∧
      Represents config (run access (fill config (.element index)) buffer).2
        (List.replicate config.capacity value) := by
  obtain ⟨clears, emptied⟩ := @clear_emptied _ config buffer
  have kept : (run access (clear config) buffer).2.slots = buffer.slots := emptied.kept trivial
  have loop := @obeys_times _ _ _ access ReadsAlive (fun i (object : Object T) =>
      object.front = 0 ∧ object.slots index = .live value ∧
        ∀ k, k < i → object.slots k = .live value) config.capacity
    (fun i => constructAt config i (.element index)) ?_
      (run access (clear config) buffer).2
    ⟨clear_front, by rw [kept, live], fun k below => absurd below (Nat.not_lt_zero k)⟩
  · obtain ⟨reads, front, _, filled⟩ := loop
    simp only [fill, obeys_bind, obeys_perform, run_bind, run_perform, access]
    refine ⟨⟨clears, reads, ?_⟩, ?_, Nat.le_refl _, ?_⟩
    · exact .intro
    · rw [front]
      exact config.positive
    · rw [List.map_replicate]
      refine Rings.window_replicate fun i below => ?_
      simp only [front, Nat.zero_add, Nat.mod_eq_of_lt below]
      exact filled i below
  · rintro i below object ⟨front, source, before⟩
    have given : (Argument.element index).given config i (object.slots index) = .live value := by
      simp [source, Argument.given, keeps]
    rw [constructAt_reads, source]
    refine ⟨SlotLifetimes.live_ne_dead, ?_⟩
    simp only [constructAt, Argument.read, run_bind, run_perform, access, given]
    refine ⟨front, ?_, fun k inside => ?_⟩
    · by_cases here : index = i
      · rw [here, Function.update_self]
      · rw [Function.update_of_ne here, source]
    · by_cases last : k = i
      · rw [last, Function.update_self]
      · rw [Function.update_of_ne last]
        exact before k (by omega)

/-- The loop of `fill` loses the element when its own slot has its turn. -/
theorem fill_loses (trivial : config.triviallyDestructible = true) (loses : config.keepsItself = false)
    (live : buffer.slots index = .live value) (inside : index < config.capacity) :
    let filled := (run access (fill config (.element index)) buffer).2
    filled.front = 0 ∧ filled.slots index = .moved := by
  have kept : (run access (clear config) buffer).2.slots = buffer.slots := clear_emptied.2.kept trivial
  have start : (run access (clear config) buffer).2.slots index = if index < 0 then .moved else .live value := by
    rw [kept, live, if_neg (Nat.not_lt_zero index)]
  have loop : let filled := (run access (times config.capacity fun i => constructAt config i (.element index))
      (run access (clear config) buffer).2).2
      filled.front = 0 ∧ filled.slots index = if index < config.capacity then .moved else .live value := by
    refine run_times (fun i (object : Object T) =>
      object.front = 0 ∧ object.slots index = if index < i then .moved else .live value) ?_ ⟨clear_front, start⟩
    rintro i below object ⟨front, source⟩
    simp only [constructAt, Argument.read, run_bind, run_perform, access]
    refine ⟨front, ?_⟩
    rcases Nat.lt_trichotomy index i with before | rfl | behind
    · rw [if_pos before] at source
      rw [Function.update_of_ne (Nat.ne_of_lt before), source, if_pos (Nat.lt_succ_of_lt before)]
    · rw [if_neg (Nat.lt_irrefl index)] at source
      rw [Function.update_self, source, given_itself, if_pos loses, if_pos (Nat.lt_succ_self index)]
    · rw [if_neg (Nat.lt_asymm behind)] at source
      rw [Function.update_of_ne (Nat.ne_of_gt behind), source, if_neg (by omega)]
  rw [if_pos inside] at loop
  simp only [fill, run_bind, run_perform, access]
  exact loop

theorem not_fill_inserts (trivial : config.triviallyDestructible = true) (loses : config.keepsItself = false)
    (live : buffer.slots index = .live value) (inside : index < config.capacity) :
    ¬Represents config (run access (fill config (.element index)) buffer).2
      (List.replicate config.capacity value) := by
  intro represents
  obtain ⟨front, lost⟩ := fill_loses trivial loses live inside
  have here : (List.replicate config.capacity value)[index]? = some value := by
    rw [List.getElem?_replicate, if_pos inside]
  have living := (represents_live represents here).2
  rw [slotOf, front, Nat.zero_add, Nat.mod_eq_of_lt inside, lost] at living
  exact nomatch living

/-! ## Insertions of an own element -/

/-- **An own element is inserted unless it makes room for itself**: a push onto a full buffer whose argument
is the element that is overwritten, and every `fill`. Then it is inserted only where no destructor runs and an
element that is constructed in its own storage stays. -/
theorem inserts_own_iff {T : Type} {config : Config} {buffer : Object T} {elements : List T}
    {position : Nat} {value : T} (insertion : Insertion)
    (represents : Represents config buffer elements)
    (here : elements[position]? = some value) :
    InsertsOwn config buffer elements insertion position value ↔
      (config.triviallyDestructible = true ∧ config.keepsItself = true) ∨
        ¬insertion.Overwrites config buffer position := by
  obtain ⟨inside, live⟩ := represents_live represents here
  have apart (notFull : buffer.size ≠ config.capacity) :=
    slotOf_room (Nat.lt_of_le_of_ne represents.size notFull) inside
  cases insertion with
  | pushBack =>
    have target (full : buffer.size = config.capacity) := slotOf_back full inside
    rw [Insertion.Overwrites, ← and_congr_right target, ← givenAtRead_iff live fun notFull => (apart notFull).1]
    exact insertsOwn_iff pushBack_reads run_pushBack_element fun slot => pushedBack_represents represents
  | pushFront =>
    have target (full : buffer.size = config.capacity) := slotOf_front full inside
    rw [Insertion.Overwrites, ← and_congr_right target, ← givenAtRead_iff live fun notFull => (apart notFull).2]
    exact insertsOwn_iff pushFront_reads run_pushFront_element fun slot => pushedFront_represents represents
  | fill =>
    have place : slotOf config buffer position < config.capacity := Nat.mod_lt _ config.positive
    cases destructible : config.triviallyDestructible with
    | true =>
      cases keeps : config.keepsItself with
      | true =>
        obtain ⟨reads, inserts⟩ := fill_inserts destructible keeps live
        exact iff_of_true ⟨reads, inserts⟩ (.inl ⟨rfl, rfl⟩)
      | false =>
        exact iff_of_false (fun own => not_fill_inserts destructible keeps live place own.inserts)
          (by simp [Insertion.Overwrites])
    | false =>
      exact iff_of_false (fun own => fill_reads_dead destructible inside own.reads)
        (by simp [Insertion.Overwrites])

/-- A full buffer of two elements. -/
def fullBuffer : Object UInt8 where
  front := 1
  size := 2
  slots := fun index => .live (if index = 1 then 7 else 8)

theorem fullBuffer_represents : Represents CircularBufferCopies.testingConfig fullBuffer [7, 8] :=
  ⟨by decide, by decide, rfl⟩

/-- The last element of a full buffer is pushed to the back. -/
theorem inserts_own_iff_testing :
    InsertsOwn CircularBufferCopies.testingConfig fullBuffer [7, 8] .pushBack 1 8 := by
  refine (inserts_own_iff .pushBack fullBuffer_represents rfl).mpr (.inr ?_)
  rintro ⟨_, first⟩
  exact absurd first (by decide)

/-- The first element of a full buffer is pushed to the back: the new element is constructed from
the slot that it has just been destroyed in. -/
theorem own_front_pushed :
    ¬InsertsOwn CircularBufferCopies.testingConfig fullBuffer [7, 8] .pushBack 0 7 ∧
      contents CircularBufferCopies.testingConfig
          (run access (pushBack CircularBufferCopies.testingConfig (.element 1)) fullBuffer).2 =
        [.live 8, .dead] := by
  refine ⟨fun own => ?_, rfl⟩
  have alive := pushBack_reads.mp own.reads
  exact alive rfl

end Emblib.CircularBufferAliasing
