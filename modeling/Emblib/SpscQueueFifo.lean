import Emblib.SpscQueue

/-! The queue is a lossless FIFO. Both sides act on copies of the other side's index, but
an index only moves away from the side that has copied it: the producer sees at most too
few free slots, the consumer at most too few elements. The invariant counts what has been
pushed and removed without wrap-around and says for each count what its slot holds. -/
namespace Emblib.SpscQueueFifo
open Runs Counters InplaceStorage SpscQueue

/-- Slots behind the elements in which the producer has constructed. -/
def built : Producer w T → Nat
  | .constructed .. => 1
  | _ => 0

/-- Elements from which the consumer may have moved. -/
def taken : Consumer w T → Nat
  | .taken .. => 1
  | .destroying .. => 1
  | .destroyed .. => 1
  | .clearing _ _ discarded => discarded.length
  | .clearDestroying _ _ discarded => discarded.length
  | _ => 0

/-- Elements that the consumer has destroyed. -/
def gone : Consumer w T → Nat
  | .destroyed .. => 1
  | .clearing _ _ discarded => discarded.length
  | .clearDestroying _ _ discarded => discarded.length
  | _ => 0

/-- What the producer knows, when `low` elements have been removed. -/
def ProducerOk (c : Nat) (elements : List T) (low : Nat) (back : BitVec w) (slots : Nat → Slot T) :
    Producer w T → Prop
  | .idle => True
  | .loaded _ b => b = back
  | .ready _ b => b = back ∧ elements.length < low + 2 ^ c
  | .constructing _ b => b = back ∧ elements.length < low + 2 ^ c
  | .constructed value b =>
    b = back ∧ elements.length < low + 2 ^ c ∧ slots (elements.length % 2 ^ c) = .live value

/-- What the consumer knows, after the removal of `out`. -/
def ConsumerOk (c : Nat) (elements : List T) (out : List (Slot T)) (front : BitVec w)
    (slots : Nat → Slot T) : Consumer w T → Prop
  | .idle => True
  | .popLoaded f => f = front
  | .peekLoaded f => f = front
  | .taking f => f = front ∧ out.length < elements.length
  | .peeking f => f = front ∧ out.length < elements.length
  | .taken f result =>
    f = front ∧ out ++ [result] <+: elements.map .live ∧ slots (out.length % 2 ^ c) = .moved
  | .destroying f result =>
    f = front ∧ out ++ [result] <+: elements.map .live ∧ slots (out.length % 2 ^ c) = .moved
  | .destroyed f result => f = front ∧ out ++ [result] <+: elements.map .live
  | .clearLoaded b => ∃ high, b = BitVec.ofNat w high ∧ out.length ≤ high ∧ high ≤ elements.length
  | .clearing b f discarded =>
    ∃ high, b = BitVec.ofNat w high ∧ high ≤ elements.length ∧
      f = BitVec.ofNat w (out ++ discarded).length ∧ (out ++ discarded).length ≤ high ∧
      out ++ discarded <+: elements.map .live
  | .clearDestroying b f discarded =>
    ∃ high, b = BitVec.ofNat w high ∧ high ≤ elements.length ∧
      f = BitVec.ofNat w (out ++ discarded).length ∧ (out ++ discarded).length < high ∧
      out ++ discarded <+: elements.map .live

/-- The state after `elements` have been pushed and `out` removed. -/
structure Invariant (c : Nat) (trivial : Bool) (elements : List T) (out : List (Slot T))
    (state : State w T) : Prop where
  removed : out <+: elements.map .live
  room : elements.length ≤ out.length + 2 ^ c
  front : state.front = BitVec.ofNat w out.length
  back : state.back = BitVec.ofNat w elements.length
  ring : Ring (2 ^ c) trivial elements out.length (taken state.consumer) (gone state.consumer)
    (built state.producer) state.slots
  producer : ProducerOk c elements out.length state.back state.slots state.producer
  consumer : ConsumerOk c elements out state.front state.slots state.consumer

section Knowledge
variable {w c : Nat} {T : Type} {trivial : Bool} {elements : List T} {out : List (Slot T)}
  {slots after : Nat → Slot T} {state : State w T}

theorem invariant_initial : Invariant c trivial [] [] (initial : State w T) where
  removed := List.prefix_rfl
  room := Nat.zero_le _
  front := rfl
  back := rfl
  ring := ring_start
  producer := True.intro
  consumer := True.intro

/-- Another element removed, or slots of other elements changed, is no news. -/
theorem producerOk_mono {producer : Producer w T} {back : BitVec w} (le : low ≤ high)
    (same : elements.length < low + 2 ^ c →
      after (elements.length % 2 ^ c) = slots (elements.length % 2 ^ c))
    (ok : ProducerOk c elements low back slots producer) :
    ProducerOk c elements high back after producer := by
  cases producer with
  | idle => exact ok
  | loaded value b => exact ok
  | ready value b => exact ⟨ok.1, by have room := ok.2; omega⟩
  | constructing value b => exact ⟨ok.1, by have room := ok.2; omega⟩
  | constructed value b =>
    obtain ⟨index, room, live⟩ := ok
    exact ⟨index, by omega, (same room).trans live⟩

theorem snoc_pending {first : List (Slot T)} {result : Slot T}
    (here : first ++ [result] <+: elements.map .live) : first.length < elements.length := by
  have length := here.length_le
  rw [List.length_append, List.length_singleton, List.length_map] at length
  omega

/-- Another element pushed, or slots behind the elements changed, is no news. -/
theorem consumerOk_mono {consumer : Consumer w T} {front : BitVec w} (le : elements <+: more)
    (same : out.length < elements.length → after (out.length % 2 ^ c) = slots (out.length % 2 ^ c))
    (ok : ConsumerOk c elements out front slots consumer) :
    ConsumerOk c more out front after consumer := by
  have longer := le.length_le
  have further := le.map Slot.live
  cases consumer with
  | idle => exact ok
  | popLoaded f => exact ok
  | peekLoaded f => exact ok
  | taking f => exact ⟨ok.1, by have pending := ok.2; omega⟩
  | peeking f => exact ⟨ok.1, by have pending := ok.2; omega⟩
  | taken f result =>
    obtain ⟨index, here, moved⟩ := ok
    exact ⟨index, here.trans further, (same (snoc_pending here)).trans moved⟩
  | destroying f result =>
    obtain ⟨index, here, moved⟩ := ok
    exact ⟨index, here.trans further, (same (snoc_pending here)).trans moved⟩
  | destroyed f result => exact ⟨ok.1, ok.2.trans further⟩
  | clearLoaded b =>
    obtain ⟨high, index, low, bound⟩ := ok
    exact ⟨high, index, low, by omega⟩
  | clearing b f discarded =>
    obtain ⟨high, index, bound, position, low, here⟩ := ok
    exact ⟨high, index, by omega, position, low, here.trans further⟩
  | clearDestroying b f discarded =>
    obtain ⟨high, index, bound, position, low, here⟩ := ok
    exact ⟨high, index, by omega, position, low, here.trans further⟩

theorem start_le (invariant : Invariant c trivial elements out state) : out.length ≤ elements.length := by
  have start := invariant.removed.length_le
  rwa [List.length_map] at start

/-- The consumer never destroys more than there is. -/
theorem gone_le (invariant : Invariant c trivial elements out state) :
    out.length + gone state.consumer ≤ elements.length := by
  have start := start_le invariant
  have ok := invariant.consumer
  cases consumer : state.consumer with
  | destroyed f result =>
    rw [consumer] at ok
    have length := ok.2.length_le
    rw [List.length_append, List.length_map] at length
    exact length
  | clearing b f discarded =>
    rw [consumer] at ok
    obtain ⟨high, _, bound, _, low, _⟩ := ok
    rw [List.length_append] at low
    exact Nat.le_trans low bound
  | clearDestroying b f discarded =>
    rw [consumer] at ok
    obtain ⟨high, _, bound, _, low, _⟩ := ok
    rw [List.length_append] at low
    exact Nat.le_trans (Nat.le_of_lt low) bound
  | _ => exact start

/-- The slot that an index stands for. -/
theorem indexOf_ofNat (fits : c < w) (count : Nat) :
    indexOf c (BitVec.ofNat w count) = count % 2 ^ c := mask_ofNat (Nat.le_of_lt fits) count

theorem back_slot {b : BitVec w} (fits : c < w) (invariant : Invariant c trivial elements out state)
    (index : b = state.back) : indexOf c b = elements.length % 2 ^ c := by
  rw [index, invariant.back, indexOf_ofNat fits]

theorem front_slot {f : BitVec w} (fits : c < w) (invariant : Invariant c trivial elements out state)
    (index : f = state.front) : indexOf c f = out.length % 2 ^ c := by
  rw [index, invariant.front, indexOf_ofNat fits]

theorem capacity_lt (fits : c < w) : 2 ^ c < 2 ^ w := Nat.pow_lt_pow_right (by omega) fits

/-- The difference of the indices is the number of elements in the queue. -/
theorem index_difference (fits : c < w) (invariant : Invariant c trivial elements out state) :
    (state.back - state.front).toNat = elements.length - out.length := by
  have start := start_le invariant
  have room := invariant.room
  have small := capacity_lt fits
  rw [invariant.front, invariant.back]
  exact ofNat_sub_toNat start (by omega)

/-- Equal indices mean an empty queue. -/
theorem index_equal (fits : c < w) (invariant : Invariant c trivial elements out state) :
    state.front = state.back ↔ out.length = elements.length := by
  have start := start_le invariant
  have room := invariant.room
  have small := capacity_lt fits
  rw [invariant.front, invariant.back]
  constructor
  · exact fun same => ofNat_close same start (by omega)
  · exact fun same => congrArg _ same

/-- An element that is looked at is in its slot. -/
theorem first_live (invariant : Invariant c trivial elements out state)
    (untouched : taken state.consumer = 0) (pending : out.length < elements.length) :
    ∃ value, elements[out.length]? = some value ∧
      state.slots (out.length % 2 ^ c) = .live value := by
  have element : elements[out.length]? = some _ := List.getElem?_eq_getElem pending
  exact ⟨_, element, invariant.ring.live _ _ (by omega) element⟩

/-- The next element extends what has been removed. -/
theorem prefix_snoc {first : List (Slot T)} (before : first <+: elements.map .live)
    (next : elements[first.length]? = some value) :
    first ++ [.live value] <+: elements.map .live := by
  obtain ⟨rest, split⟩ := before
  have entry : (first ++ rest)[first.length]? = some (.live value) := by
    rw [split, List.getElem?_map, next]
    rfl
  rw [List.getElem?_append_right (Nat.le_refl _), Nat.sub_self] at entry
  cases rest with
  | nil => simp at entry
  | cons head rest =>
    obtain rfl : head = .live value := by simpa using entry
    exact ⟨rest, by rw [← split]; simp⟩

end Knowledge

section Steps
variable {w c : Nat} {T : Type} {trivial : Bool} {elements : List T} {out : List (Slot T)}
  {state after : State w T} {event : Event T} {value : T} {b f : BitVec w} {result : Slot T}
  {discarded : List (Slot T)}

/-! ## What each action does to the invariant -/

theorem construct_invariant (fits : c < w) (invariant : Invariant c trivial elements out state)
    (constructing : state.producer = .constructing value b) :
    Invariant c trivial elements out
      { state with
        slots := Function.update state.slots (indexOf c b) (.live value)
        producer := .constructed value b } := by
  have le := gone_le invariant
  have ring := invariant.ring
  have producer := invariant.producer
  rw [constructing] at ring producer
  obtain ⟨index, room⟩ := producer
  rw [back_slot fits invariant index]
  refine { invariant with ring := ?_, producer := ?_, consumer := ?_ }
  · exact ring_construct ring le room
  · exact ⟨index, room, Function.update_self _ _ _⟩
  · refine consumerOk_mono List.prefix_rfl (fun pending => ?_) invariant.consumer
    exact update_other (by omega) (Nat.le_refl _) (by omega) (by omega) room _

theorem push_invariant (invariant : Invariant c trivial elements out state)
    (constructed : state.producer = .constructed value b) :
    Invariant c trivial (elements ++ [value]) out { state with back := b + 1#w, producer := .idle } := by
  have ring := invariant.ring
  have producer := invariant.producer
  rw [constructed] at ring producer
  obtain ⟨index, room, live⟩ := producer
  refine { invariant with
    removed := ?_, room := ?_, back := ?_, ring := ?_, producer := ?_, consumer := ?_ }
  · rw [List.map_append]
    exact invariant.removed.trans (List.prefix_append _ _)
  · rw [List.length_append, List.length_singleton]
    omega
  · rw [index, invariant.back, ofNat_succ, List.length_append, List.length_singleton]
  · exact ring_push ring live
  · trivial
  · exact consumerOk_mono (List.prefix_append _ _) (fun _ => rfl) invariant.consumer

theorem take_invariant (fits : c < w) (invariant : Invariant c trivial elements out state)
    (taking : state.consumer = .taking f) :
    Invariant c trivial elements out
      { state with
        slots := Function.update state.slots (indexOf c f) .moved
        consumer := .taken f (state.slots (indexOf c f)) } := by
  have bound := invariant.room
  have ring := invariant.ring
  have consumer := invariant.consumer
  rw [taking] at ring consumer
  obtain ⟨index, pending⟩ := consumer
  obtain ⟨value, element, live⟩ := first_live invariant (by rw [taking]; rfl) pending
  rw [front_slot fits invariant index, live]
  refine { invariant with ring := ?_, producer := ?_, consumer := ?_ }
  · exact ring_take ring pending bound
  · refine producerOk_mono (Nat.le_refl _) (fun room => ?_) invariant.producer
    exact update_other (by omega) (by omega) room (Nat.le_refl _) (by omega) _
  · exact ⟨index, prefix_snoc invariant.removed element, Function.update_self _ _ _⟩

theorem destroy_invariant (fits : c < w) (invariant : Invariant c trivial elements out state)
    (destroying : state.consumer = .destroying f result) :
    Invariant c trivial elements out
      { state with
        slots := destroySlot trivial state.slots (indexOf c f)
        consumer := .destroyed f result } := by
  have bound := invariant.room
  have ring := invariant.ring
  have consumer := invariant.consumer
  rw [destroying] at ring consumer
  obtain ⟨index, here, moved⟩ := consumer
  have pending := snoc_pending here
  rw [front_slot fits invariant index]
  refine { invariant with ring := ?_, producer := ?_, consumer := ⟨index, here⟩ }
  · exact ring_destroy ring (Nat.le_refl _) pending bound
  · refine producerOk_mono (Nat.le_refl _) (fun room => ?_) invariant.producer
    exact destroySlot_other (by omega) (by omega) room (Nat.le_refl _) (by omega)

/-- The consumer publishes that it has destroyed what it took. -/
theorem release_invariant (invariant : Invariant c trivial elements out state) {released : List (Slot T)}
    {front : BitVec w} (here : out ++ released <+: elements.map .live)
    (took : taken state.consumer = released.length) (destroyed : gone state.consumer = released.length)
    (moved : front = BitVec.ofNat w (out ++ released).length) :
    Invariant c trivial elements (out ++ released) { state with front := front, consumer := .idle } := by
  have bound := invariant.room
  have ring := invariant.ring
  rw [took, destroyed] at ring
  refine { invariant with
    removed := here, room := ?_, front := moved, ring := ?_, producer := ?_, consumer := ?_ }
  · rw [List.length_append]
    omega
  · rw [List.length_append]
    exact ring_release ring
  · rw [List.length_append]
    exact producerOk_mono (Nat.le_add_right _ _) (fun _ => rfl) invariant.producer
  · trivial

theorem pop_invariant (invariant : Invariant c trivial elements out state)
    (destroyed : state.consumer = .destroyed f result) :
    Invariant c trivial elements (out ++ [result])
      { state with front := f + 1#w, consumer := .idle } := by
  have consumer := invariant.consumer
  rw [destroyed] at consumer
  obtain ⟨index, here⟩ := consumer
  apply release_invariant invariant here
  · rw [destroyed]
    rfl
  · rw [destroyed]
    rfl
  · rw [index, invariant.front, ofNat_succ, List.length_append, List.length_singleton]

theorem clearDestroy_invariant (fits : c < w) (invariant : Invariant c trivial elements out state)
    (destroying : state.consumer = .clearDestroying b f discarded) :
    Invariant c trivial elements out
      { state with
        slots := destroySlot trivial state.slots (indexOf c f)
        consumer := .clearing b (f + 1#w) (discarded ++ [state.slots (indexOf c f)]) } := by
  have bound := invariant.room
  have ring := invariant.ring
  have consumer := invariant.consumer
  rw [destroying] at ring consumer
  obtain ⟨high, index, above, position, low, here⟩ := consumer
  have count : (out ++ discarded).length = out.length + discarded.length := List.length_append
  have longer (last : Slot T) : (out ++ (discarded ++ [last])).length = (out ++ discarded).length + 1 := by
    rw [← List.append_assoc, List.length_append, List.length_singleton]
  have pending : out.length + discarded.length < elements.length := by omega
  obtain ⟨value, element⟩ : ∃ value, elements[(out ++ discarded).length]? = some value :=
    ⟨_, List.getElem?_eq_getElem (by omega)⟩
  have slot : indexOf c f = (out.length + discarded.length) % 2 ^ c := by
    rw [position, indexOf_ofNat fits, count]
  have live := ring.live _ _ (Nat.le_of_eq count.symm) element
  rw [count] at live
  rw [slot, live]
  refine { invariant with ring := ?_, producer := ?_, consumer := ⟨high, index, above, ?_, ?_, ?_⟩ }
  · have destroyed := ring_destroy ring (Nat.le_succ _) pending bound
    simp only [taken, gone, List.length_append, List.length_singleton]
    exact destroyed
  · refine producerOk_mono (Nat.le_refl _) (fun room => ?_) invariant.producer
    exact destroySlot_other (by omega) (by omega) room (Nat.le_add_right _ _) (by omega)
  · rw [position, ofNat_succ, longer]
  · rw [longer]
    exact low
  · rw [← List.append_assoc]
    exact prefix_snoc here element

theorem clear_invariant (invariant : Invariant c trivial elements out state)
    (clearing : state.consumer = .clearing b f discarded) (done : f = b) :
    Invariant c trivial elements (out ++ discarded) { state with front := b, consumer := .idle } := by
  have consumer := invariant.consumer
  rw [clearing] at consumer
  obtain ⟨high, index, above, position, low, here⟩ := consumer
  apply release_invariant invariant here
  · rw [clearing]
    rfl
  · rw [clearing]
    rfl
  · rw [← done, position, List.length_append]

/-- Every step keeps the invariant of what has been pushed and removed then. -/
theorem invariant_step (fits : c < w) (invariant : Invariant c trivial elements out state)
    (step : Step c trivial state event after) :
    Invariant c trivial (elements ++ event.pushed) (out ++ event.removed) after := by
  have start := start_le invariant
  have producer := invariant.producer
  have consumer := invariant.consumer
  have ring := invariant.ring
  have quiet (silent : event.pushed = []) (kept : event.removed = [])
      (same : Invariant c trivial elements out after) :
      Invariant c trivial (elements ++ event.pushed) (out ++ event.removed) after := by
    rw [silent, kept, List.append_nil, List.append_nil]
    exact same
  cases step with
  | pushBegin idle =>
    rw [idle] at ring
    exact quiet rfl rfl { invariant with ring, producer := rfl }
  | pushFull loaded full =>
    rw [loaded] at ring
    exact quiet rfl rfl { invariant with ring, producer := True.intro }
  | pushCheck loaded room =>
    rw [loaded] at ring producer
    have index : _ = state.back := producer
    rw [index, index_difference fits invariant] at room
    have bound := invariant.room
    exact quiet rfl rfl { invariant with ring, producer := ⟨index, by omega⟩ }
  | constructBegin ready =>
    rw [ready] at ring producer
    exact quiet rfl rfl { invariant with ring, producer := producer }
  | constructEnd constructing => exact quiet rfl rfl (construct_invariant fits invariant constructing)
  | pushReturn constructed =>
    simp only [Event.pushed, Event.removed, List.append_nil]
    exact push_invariant invariant constructed
  | popBegin idle =>
    rw [idle] at ring
    exact quiet rfl rfl { invariant with ring, consumer := rfl }
  | popEmpty loaded empty =>
    rw [loaded] at ring
    exact quiet rfl rfl { invariant with ring, consumer := True.intro }
  | takeBegin loaded pending =>
    rw [loaded] at ring consumer
    have index : _ = state.front := consumer
    rw [index, Ne, index_equal fits invariant] at pending
    exact quiet rfl rfl { invariant with ring, consumer := ⟨index, by omega⟩ }
  | takeEnd taking => exact quiet rfl rfl (take_invariant fits invariant taking)
  | destroyBegin takenNow =>
    rw [takenNow] at ring consumer
    exact quiet rfl rfl { invariant with ring, consumer := consumer }
  | destroyEnd destroying => exact quiet rfl rfl (destroy_invariant fits invariant destroying)
  | popReturn destroyed =>
    simp only [Event.pushed, Event.removed, List.append_nil]
    exact pop_invariant invariant destroyed
  | peekBegin idle =>
    rw [idle] at ring
    exact quiet rfl rfl { invariant with ring, consumer := rfl }
  | peekEmpty loaded empty =>
    rw [loaded] at ring
    exact quiet rfl rfl { invariant with ring, consumer := True.intro }
  | peekCheck loaded pending =>
    rw [loaded] at ring consumer
    have index : _ = state.front := consumer
    rw [index, Ne, index_equal fits invariant] at pending
    exact quiet rfl rfl { invariant with ring, consumer := ⟨index, by omega⟩ }
  | peekReturn peeking =>
    rw [peeking] at ring
    exact quiet rfl rfl { invariant with ring, consumer := True.intro }
  | clearBegin idle =>
    rw [idle] at ring
    exact quiet rfl rfl { invariant with ring, consumer := ⟨_, invariant.back, start, Nat.le_refl _⟩ }
  | clearLoad loaded =>
    rw [loaded] at ring consumer
    obtain ⟨high, index, low, above⟩ := consumer
    refine quiet rfl rfl { invariant with ring, consumer := ⟨high, index, above, ?_, ?_, ?_⟩ }
    · rw [List.append_nil, invariant.front]
    · rwa [List.append_nil]
    · rw [List.append_nil]
      exact invariant.removed
  | clearDestroyBegin clearing more =>
    rw [clearing] at ring consumer
    obtain ⟨high, index, above, position, low, here⟩ := consumer
    have less := Nat.lt_of_le_of_ne low fun same => more (by rw [position, index, same])
    exact quiet rfl rfl { invariant with ring, consumer := ⟨high, index, above, position, less, here⟩ }
  | clearDestroyEnd destroying => exact quiet rfl rfl (clearDestroy_invariant fits invariant destroying)
  | clearReturn clearing done =>
    simp only [Event.pushed, Event.removed, List.append_nil]
    exact clear_invariant invariant clearing done

end Steps

section Runs
variable {w c : Nat} {T : Type} {trivial : Bool} {trace before between : List (Event T)}
  {state : State w T}

/-- The invariant of every run, with what has been pushed and removed in it. -/
theorem invariant_run (fits : c < w) (run : Run (Step c trivial) initial trace state) :
    Invariant c trivial (pushed trace) (removed trace) state := by
  refine run_invariant (fun trace state => Invariant c trivial (pushed trace) (removed trace) state)
    run invariant_initial ?_
  intro trace middle event state _ invariant step
  rw [pushed_snoc, removed_snoc]
  exact invariant_step fits invariant step

/-- The producer uses the slot behind the elements. -/
theorem producer_uses (invariant : Invariant c trivial elements out state)
    (uses : state.producer.uses = some b) :
    b = state.back ∧ elements.length < out.length + 2 ^ c := by
  have ok := invariant.producer
  cases producer : state.producer with
  | idle => simp [producer, Producer.uses] at uses
  | loaded value b => simp [producer, Producer.uses] at uses
  | ready value b =>
    rw [producer] at ok uses
    exact Option.some.inj uses ▸ ok
  | constructing value b =>
    rw [producer] at ok uses
    exact Option.some.inj uses ▸ ok
  | constructed value b =>
    rw [producer] at ok uses
    exact Option.some.inj uses ▸ ⟨ok.1, ok.2.1⟩

/-- The consumer uses the slot of an element. -/
theorem consumer_uses (invariant : Invariant c trivial elements out state)
    (uses : state.consumer.uses = some f) :
    ∃ count, f = BitVec.ofNat w count ∧ out.length ≤ count ∧ count < elements.length := by
  have ok := invariant.consumer
  have front := invariant.front
  cases consumer : state.consumer with
  | taking f =>
    rw [consumer] at ok uses
    obtain rfl := Option.some.inj uses
    exact ⟨_, ok.1.trans front, Nat.le_refl _, ok.2⟩
  | peeking f =>
    rw [consumer] at ok uses
    obtain rfl := Option.some.inj uses
    exact ⟨_, ok.1.trans front, Nat.le_refl _, ok.2⟩
  | taken f result =>
    rw [consumer] at ok uses
    obtain rfl := Option.some.inj uses
    exact ⟨_, ok.1.trans front, Nat.le_refl _, snoc_pending ok.2.1⟩
  | destroying f result =>
    rw [consumer] at ok uses
    obtain rfl := Option.some.inj uses
    exact ⟨_, ok.1.trans front, Nat.le_refl _, snoc_pending ok.2.1⟩
  | destroyed f result =>
    rw [consumer] at ok uses
    obtain rfl := Option.some.inj uses
    exact ⟨_, ok.1.trans front, Nat.le_refl _, snoc_pending ok.2⟩
  | clearDestroying b f discarded =>
    rw [consumer] at ok uses
    obtain rfl := Option.some.inj uses
    obtain ⟨high, _, above, position, low, _⟩ := ok
    refine ⟨_, position, ?_, by omega⟩
    rw [List.length_append]
    exact Nat.le_add_right _ _
  | _ => simp [consumer, Consumer.uses] at uses

/-- The two sides never use the same slot. -/
theorem uses_disjoint (fits : c < w) (invariant : Invariant c trivial elements out state)
    (producing : state.producer.uses = some b) (consuming : state.consumer.uses = some f) :
    indexOf c b ≠ indexOf c f := by
  obtain ⟨index, room⟩ := producer_uses invariant producing
  obtain ⟨count, position, low, high⟩ := consumer_uses invariant consuming
  rw [index, invariant.back, position, indexOf_ofNat fits, indexOf_ofNat fits]
  exact slot_ne (by omega) (by omega) room low (by omega)

/-- Objects are constructed where there is none, and read or destroyed where there is one. -/
theorem lifetimes_respected (fits : c < w) (invariant : Invariant c trivial elements out state) :
    (∀ value b, state.producer = .constructing value b →
        Free trivial (state.slots (indexOf c b))) ∧
      (∀ f, state.consumer = .taking f ∨ state.consumer = .peeking f →
        ∃ value, state.slots (indexOf c f) = .live value) ∧
      (∀ f result, state.consumer = .destroying f result → state.slots (indexOf c f) = .moved) ∧
      ∀ b f discarded, state.consumer = .clearDestroying b f discarded →
        ∃ value, state.slots (indexOf c f) = .live value := by
  have ring := invariant.ring
  have ok := invariant.consumer
  refine ⟨?_, ?_, ?_, ?_⟩
  · intro value b constructing
    obtain ⟨index, room⟩ := producer_uses (b := b) invariant (by rw [constructing]; rfl)
    rw [constructing] at ring
    rw [back_slot fits invariant index]
    exact ring.free _ (Nat.le_refl _) room
  · intro f reading
    have untouched : taken state.consumer = 0 := by
      rcases reading with consumer | consumer <;> rw [consumer] <;> rfl
    have known : f = state.front ∧ out.length < elements.length := by
      rcases reading with consumer | consumer <;> rw [consumer] at ok <;> exact ok
    obtain ⟨value, _, live⟩ := first_live invariant untouched known.2
    rw [front_slot fits invariant known.1]
    exact ⟨value, live⟩
  · intro f result destroying
    rw [destroying] at ok
    rw [front_slot fits invariant ok.1]
    exact ok.2.2
  · intro b f discarded destroying
    rw [destroying] at ok ring
    obtain ⟨high, _, above, position, low, _⟩ := ok
    have pending : (out ++ discarded).length < elements.length := by omega
    rw [position, indexOf_ofNat fits]
    exact ⟨_, ring.live _ _ (Nat.le_of_eq List.length_append.symm) (List.getElem?_eq_getElem pending)⟩

/-- What is seen by `front` is the first element that has not been removed. -/
theorem peek_first (fits : c < w) (invariant : Invariant c trivial elements out state)
    (step : Step c trivial state (.peekReturn seen) after) :
    ∃ value, elements[out.length]? = some value ∧ seen = .live value := by
  have ok := invariant.consumer
  cases step with
  | @peekReturn _ f peeking =>
    rw [peeking] at ok
    obtain ⟨value, element, live⟩ := first_live invariant (by rw [peeking]; rfl) ok.2
    refine ⟨value, element, ?_⟩
    rw [front_slot fits invariant ok.1]
    exact live

/-- A pop returns the first element that has not been removed. -/
theorem pop_first (invariant : Invariant c trivial elements out state)
    (step : Step c trivial state (.popReturn result) after) :
    ∃ value, elements[out.length]? = some value ∧ result = .live value := by
  have ok := invariant.consumer
  cases step with
  | @popReturn _ f _ destroyed =>
    rw [destroyed] at ok
    obtain ⟨rest, split⟩ := ok.2
    have entry : (elements.map Slot.live)[out.length]? = some result := by
      rw [← split, List.append_assoc, List.getElem?_append_right (Nat.le_refl _), Nat.sub_self]
      rfl
    rw [List.getElem?_map] at entry
    obtain ⟨value, element, same⟩ := Option.map_eq_some_iff.mp entry
    exact ⟨value, element, same.symm⟩

/-- A failed push has seen a full queue. -/
theorem full_pending (fits : c < w) (invariant : Invariant c trivial elements out state)
    (step : Step c trivial state .pushFull after) : elements.length - out.length = 2 ^ c := by
  have ok := invariant.producer
  cases step with
  | pushFull loaded full =>
    rw [loaded] at ok
    have index : _ = state.back := ok
    rwa [index, index_difference fits invariant] at full

/-- A failed pop has seen an empty queue. -/
theorem empty_pending (fits : c < w) (invariant : Invariant c trivial elements out state)
    (step : Step c trivial state .popEmpty after) : out.length = elements.length := by
  have ok := invariant.consumer
  cases step with
  | popEmpty loaded empty =>
    rw [loaded] at ok
    have index : _ = state.front := ok
    rw [index] at empty
    exact (index_equal fits invariant).mp empty

/-- **The queue is a lossless FIFO.** In every run what is removed is a prefix of what is
pushed; a push fails only on a full queue; the pop after a `front`, with nothing removed
between them, succeeds and returns what `front` did; the indices are at most the capacity
apart; and the two sides never use the same slot. -/
theorem queue_is_lossless_fifo (fits : c < w) (run : Run (Step c trivial) initial trace state) :
    removed trace <+: (pushed trace).map .live ∧
      (∀ after, Step c trivial state .pushFull after →
        (pushed trace).length - (removed trace).length = 2 ^ c) ∧
      (∀ before seen between, trace = before ++ .peekReturn seen :: between → removed between = [] →
        (∀ result after, Step c trivial state (.popReturn result) after → result = seen) ∧
          ∀ after, ¬ Step c trivial state .popEmpty after) ∧
      (state.back - state.front).toNat ≤ 2 ^ c ∧
      ∀ b f, state.producer.uses = some b → state.consumer.uses = some f →
        indexOf c b ≠ indexOf c f := by
  have invariant := invariant_run fits run
  refine ⟨invariant.removed, fun after => full_pending fits invariant, ?_, ?_,
    fun b f => uses_disjoint fits invariant⟩
  · rintro before seen between rfl none
    rw [List.append_cons] at run invariant
    obtain ⟨_, ran, _⟩ := run_split run
    obtain ⟨middle, earlier, peek⟩ := run_snoc ran
    obtain ⟨value, first, rfl⟩ := peek_first fits (invariant_run fits earlier) peek
    -- nothing removed since, so the element seen is still the first
    have out : removed (before ++ [.peekReturn (.live value)] ++ between) = removed before := by
      rw [removed_append, none, removed_snoc, List.append_nil]
      exact List.append_nil _
    have still : (pushed (before ++ [.peekReturn (.live value)] ++ between))[(removed before).length]?
        = some value := by
      rw [pushed_append, pushed_snoc, List.append_assoc,
        List.getElem?_append_left (List.getElem?_eq_some_iff.mp first).1]
      exact first
    rw [out] at invariant
    refine ⟨fun result after pop => ?_, fun after empty => ?_⟩
    · obtain ⟨other, element, rfl⟩ := pop_first invariant pop
      rw [still] at element
      rw [Option.some.inj element]
    · have same := empty_pending fits invariant empty
      have inside := (List.getElem?_eq_some_iff.mp still).1
      omega
  · rw [index_difference fits invariant]
    exact Nat.sub_le_of_le_add (Nat.add_comm _ _ ▸ invariant.room)

end Runs

/-- A `front` after a push, and then a pop that is about to return, while the next push
constructs. -/
def testingBetween : List (Event UInt8) :=
  [.popBegin, .takeBegin, .pushBegin 8, .takeEnd, .pushCheck, .destroyBegin, .constructBegin,
    .destroyEnd]

theorem queue_is_lossless_fifo_testing :
    ∃ trace state, Run (Step 1 false) (initial : State 2 UInt8) trace state ∧
      trace = [.pushBegin 7, .pushCheck, .constructBegin, .constructEnd, .pushReturn 7, .peekBegin,
        .peekCheck] ++ .peekReturn (.live 7) :: testingBetween ∧
      removed trace <+: (pushed trace).map .live ∧
      (∀ after, Step 1 false state .pushFull after →
        (pushed trace).length - (removed trace).length = 2 ^ 1) ∧
      (∀ before seen between, trace = before ++ .peekReturn seen :: between → removed between = [] →
        (∀ result after, Step 1 false state (.popReturn result) after → result = seen) ∧
          ∀ after, ¬ Step 1 false state .popEmpty after) ∧
      (state.back - state.front).toNat ≤ 2 ^ 1 ∧
      ∀ b f, state.producer.uses = some b → state.consumer.uses = some f →
        indexOf 1 b ≠ indexOf 1 f := by
  have push : Run (Step 1 false) (initial : State 2 UInt8)
      [.pushBegin 7, .pushCheck, .constructBegin, .constructEnd, .pushReturn 7] _ :=
    .snoc (.snoc (.snoc (.snoc (.snoc .nil (.pushBegin rfl)) (.pushCheck rfl (by decide)))
      (.constructBegin rfl)) (.constructEnd rfl)) (.pushReturn rfl)
  have peek := Run.snoc (.snoc (.snoc push (.peekBegin rfl)) (.peekCheck rfl (by decide)))
    (.peekReturn rfl)
  have take := Run.snoc (.snoc (.snoc (.snoc peek (.popBegin rfl)) (.takeBegin rfl (by decide)))
    (@Step.pushBegin _ _ _ _ _ 8 rfl)) (.takeEnd rfl)
  have both := Run.snoc (.snoc (.snoc (.snoc take (.pushCheck rfl (by decide))) (.destroyBegin rfl))
    (.constructBegin rfl)) (.destroyEnd rfl)
  exact ⟨_, _, both, rfl, queue_is_lossless_fifo (by decide) both⟩

end Emblib.SpscQueueFifo
