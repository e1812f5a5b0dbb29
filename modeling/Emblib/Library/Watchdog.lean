import Mathlib.Data.List.Induction
import Emblib.Library.Program

/-! Timers that watch for silence. A timer is restarted, fed and asked at ticks whether its
source has been silent for too long; it reports that once. What it should report is told by
the silence itself: when it began, and what the ticks since then have reported. -/
namespace Emblib.Watchdogs
open Programs

/-! ## One timer -/

structure Timer where
  timeout : Int := 0
  lastRx : Int := 0
  timedOut : Bool := false

/-- The timer reports a loss at this time. A timeout of zero switches it off. -/
def Timer.due (timer : Timer) (now : Int) : Bool :=
  !(timer.timeout = 0 || timer.timedOut) && decide (timer.timeout ≤ now - timer.lastRx)

inductive Event where
  | restart (timeout now : Int)
  | feed (now : Int)
  | tick (now : Int)

def Timer.after (timer : Timer) : Event → Timer
  | .restart timeout now => ⟨timeout, now, false⟩
  | .feed now => { timer with lastRx := now, timedOut := false }
  | .tick now => { timer with timedOut := timer.timedOut || timer.due now }

def Timer.afterAll (timer : Timer) (events : List Event) : Timer := events.foldl Timer.after timer

/-- The silence since the last restart or feed: its start, and the ticks since then with
whether they reported the loss. -/
structure Silence where
  timeout : Int := 0
  start : Int := 0
  ticks : List (Int × Bool) := []

def Silence.after (silence : Silence) (timer : Timer) : Event → Silence
  | .restart timeout now => ⟨timeout, now, []⟩
  | .feed now => ⟨silence.timeout, now, []⟩
  | .tick now => { silence with ticks := silence.ticks ++ [(now, timer.due now)] }

/-- The silence is too long at this time. -/
def Silence.TooLong (silence : Silence) (now : Int) : Prop :=
  silence.timeout ≠ 0 ∧ silence.timeout ≤ now - silence.start

/-- No tick of the list has reported a loss. -/
def Unreported (ticks : List (Int × Bool)) : Prop := ∀ tick ∈ ticks, tick.2 = false

instance (silence : Silence) (now : Int) : Decidable (silence.TooLong now) :=
  inferInstanceAs (Decidable (_ ∧ _))

instance (ticks : List (Int × Bool)) : Decidable (Unreported ticks) :=
  inferInstanceAs (Decidable (∀ tick ∈ ticks, tick.2 = false))

/-- Each tick reports a loss if and only if the silence is too long and no tick before it,
in the same silence, has reported it. -/
def Reported (silence : Silence) : Prop :=
  ∀ earlier now fired later, silence.ticks = earlier ++ (now, fired) :: later →
    (fired = true ↔ silence.TooLong now ∧ Unreported earlier)

/-- The timer knows what it needs to know about the silence. -/
structure Follows (timer : Timer) (silence : Silence) : Prop where
  timeout : timer.timeout = silence.timeout
  start : timer.lastRx = silence.start
  timedOut : timer.timedOut = true ↔ ¬Unreported silence.ticks

variable {timer : Timer} {silence : Silence} {now : Int}

theorem unreported_snoc {ticks : List (Int × Bool)} {fired : Bool} :
    Unreported (ticks ++ [(now, fired)]) ↔ Unreported ticks ∧ fired = false := by
  unfold Unreported
  simp only [List.forall_mem_append, List.forall_mem_singleton]

/-- A timer that follows the silence reports what there is to report. -/
theorem due_iff (follows : Follows timer silence) :
    timer.due now = true ↔ silence.TooLong now ∧ Unreported silence.ticks := by
  unfold Timer.due Silence.TooLong
  rw [Bool.and_eq_true, Bool.not_eq_true', Bool.or_eq_false_iff, decide_eq_false_iff_not, decide_eq_true_iff,
    follows.timeout, follows.start, ← Bool.not_eq_true, follows.timedOut, not_not]
  exact ⟨fun ⟨⟨on, unreported⟩, long⟩ => ⟨⟨on, long⟩, unreported⟩, fun ⟨⟨on, long⟩, unreported⟩ => ⟨⟨on, unreported⟩, long⟩⟩

/-- A timer that has just been restarted or fed. -/
theorem follows_fresh (timeout start : Int) : Follows ⟨timeout, start, false⟩ ⟨timeout, start, []⟩ :=
  ⟨rfl, rfl, iff_of_false Bool.false_ne_true fun reported => reported nofun⟩

theorem reported_fresh (timeout start : Int) : Reported ⟨timeout, start, []⟩ :=
  fun _ _ _ _ shape => absurd shape (by simp)

theorem follows_after (follows : Follows timer silence) (event : Event) :
    Follows (timer.after event) (silence.after timer event) := by
  cases event with
  | restart timeout now => exact follows_fresh timeout now
  | feed now => exact { follows_fresh silence.timeout now with timeout := follows.timeout }
  | tick now =>
    refine ⟨follows.timeout, follows.start, ?_⟩
    simp only [Timer.after, Silence.after, unreported_snoc, Bool.or_eq_true, follows.timedOut]
    cases timer.due now with
    | true => simp
    | false => simp

theorem reported_after (follows : Follows timer silence) (reported : Reported silence) (event : Event) :
    Reported (silence.after timer event) := by
  cases event with
  | restart timeout now => exact reported_fresh timeout now
  | feed now => exact reported_fresh silence.timeout now
  | tick now =>
    intro earlier then' fired later shape
    cases later using List.reverseRecOn with
    | nil =>
      obtain ⟨rfl, same⟩ := List.append_inj' shape rfl
      obtain ⟨rfl, rfl⟩ := Prod.mk.inj (List.singleton_inj.mp same)
      exact due_iff follows
    | append_singleton later last =>
      rw [← List.cons_append, ← List.append_assoc] at shape
      exact reported earlier then' fired later (List.append_inj' shape rfl).1

/-- Only the first tick that sees a silence that is too long reports it, and no tick after it. -/
theorem reported_first (reported : Reported silence) {earlier later : List (Int × Bool)}
    (shape : silence.ticks = earlier ++ (now, true) :: later) :
    (∀ tick ∈ earlier, ¬silence.TooLong tick.1) ∧ Unreported later := by
  obtain ⟨_, unreported⟩ := (reported earlier now true later shape).mp rfl
  constructor
  · rintro ⟨then', fired⟩ member tooLong
    obtain ⟨first, rest, rfl⟩ := List.append_of_mem member
    have before : Unreported first := fun tick early => unreported tick (List.mem_append_left _ early)
    have fires :=
      (reported first then' fired (rest ++ (now, true) :: later) (by simp [shape])).mpr ⟨tooLong, before⟩
    exact absurd (fires.symm.trans (unreported _ member)) (by simp)
  · rintro ⟨then', fired⟩ member
    obtain ⟨first, rest, rfl⟩ := List.append_of_mem member
    cases fired with
    | false => rfl
    | true =>
      obtain ⟨_, none⟩ :=
        (reported (earlier ++ (now, true) :: first) then' true rest (by simp [shape])).mp rfl
      exact absurd (none (now, true) (by simp)) (by simp)

/-- A silence is reported by the first tick that sees that it is too long, and by no other. -/
def ReportedOnce (silence : Silence) : Prop :=
  Reported silence ∧ ∀ earlier now later, silence.ticks = earlier ++ (now, true) :: later →
    (∀ tick ∈ earlier, ¬silence.TooLong tick.1) ∧ Unreported later

theorem reported_once (reported : Reported silence) : ReportedOnce silence :=
  ⟨reported, fun _ _ _ shape => reported_first reported shape⟩

/-! ## Timers in slots -/

section Slots
variable {S : Type} (timer : S → Timer) {update : S → S} (event : Event)

/-- A view of the slots, where one of them is modified. -/
theorem map_modify {T : Type} (view : S → T) (change : T → T)
    (through : ∀ s, view (update s) = change (view s))
    (list : List S) (i : Nat) : (list.modify i update).map view = (list.map view).modify i change := by
  refine List.ext_getElem? fun j => ?_
  simp only [List.getElem?_map, List.getElem?_modify]
  cases list[j]? with
  | none => rfl
  | some s =>
    by_cases same : i = j
    · simp [same, through]
    · simp [same]

theorem map_modify_same {T : Type} (view : S → T) (same : ∀ s, view (update s) = view s)
    (list : List S) (i : Nat) :
    (list.modify i update).map view = list.map view :=
  (map_modify view id same list i).trans (List.modify_id i _)

/-- The timer in a slot; where there is no slot it is switched off. -/
def timerAt (list : List S) (i : Nat) : Timer := (list[i]?.map timer).getD {}

theorem timerAt_some {list : List S} {i : Nat} {s : S} (present : list[i]? = some s) :
    timerAt timer list i = timer s := by
  rw [timerAt, present]
  rfl

theorem timerAt_modify (changes : ∀ s, timer (update s) = (timer s).after event) (list : List S)
    (i k : Nat) :
    timerAt timer (list.modify i update) k =
      (timerAt timer list k).afterAll (if i = k ∧ k < list.length then [event] else []) := by
  unfold timerAt
  rw [List.getElem?_modify]
  by_cases inside : k < list.length
  · rw [List.getElem?_eq_getElem inside]
    by_cases same : i = k
    · simp [same, inside, changes, Timer.afterAll]
    · simp [same, Timer.afterAll]
  · rw [List.getElem?_eq_none (Nat.le_of_not_lt inside)]
    simp [inside, Timer.afterAll]

/-- The same for a slot that has been found. -/
theorem timerAt_found (changes : ∀ s, timer (update s) = (timer s).after event) {list : List S} {i : Nat}
    (inside : i < list.length) (k : Nat) : timerAt timer (list.modify i update) k =
      (timerAt timer list k).afterAll (if some i = some k then [event] else []) := by
  rw [timerAt_modify timer event changes]
  by_cases same : i = k
  · rw [if_pos ⟨same, same ▸ inside⟩, if_pos (congrArg some same)]
  · rw [if_neg fun both => same both.1, if_neg fun both => same (Option.some.inj both)]

theorem timerAt_map (changes : ∀ s, timer (update s) = (timer s).after event) (list : List S) (k : Nat) :
    timerAt timer (list.map update) k = (timerAt timer list k).afterAll (if k < list.length then [event] else []) := by
  unfold timerAt
  rw [List.getElem?_map]
  by_cases inside : k < list.length
  · rw [List.getElem?_eq_getElem inside]
    simp [inside, changes, Timer.afterAll]
  · rw [List.getElem?_eq_none (Nat.le_of_not_lt inside)]
    simp [inside, Timer.afterAll]

theorem timerAt_append {s : S} (fresh : timer s = Timer.after {} event) (list : List S) (k : Nat) :
    timerAt timer (list ++ [s]) k =
      (timerAt timer list k).afterAll (if some list.length = some k then [event] else []) := by
  unfold timerAt
  rw [List.getElem?_append]
  by_cases inside : k < list.length
  · simp [inside, Nat.ne_of_gt inside, Timer.afterAll]
  · by_cases last : list.length = k
    · subst last
      simp [fresh, Timer.afterAll]
    · have beyond : k - list.length ≠ 0 := by omega
      simp [inside, last, beyond, Timer.afterAll]

end Slots

/-! ## A loop over timers -/

section Loop
variable {S E : Type} {R : E → Type} (timer : S → Timer) (expire : S → S) (call : S → Program E R Unit) (now : Int)

/-- Check each timer, call back for those that report, and count them. -/
def tickAll : List S → Program E R (Nat × List S)
  | [] => return (0, [])
  | s :: rest => do
    if (timer s).timeout = 0 || (timer s).timedOut then
      let (count, rest) ← tickAll rest
      return (count, s :: rest)
    else if (timer s).timeout ≤ now - (timer s).lastRx then
      call s
      let (count, rest) ← tickAll rest
      return (count + 1, expire s :: rest)
    else
      let (count, rest) ← tickAll rest
      return (count, s :: rest)

/-- The slots whose silence has become too long and has not been reported, in order. -/
def losses (silences : Nat → Silence) (list : List S) : List S :=
  (list.zipIdx.filter fun slot => (silences slot.2).TooLong now ∧ Unreported (silences slot.2).ticks).map (·.1)

variable {timer expire call now}

/-- Which slots are reported does not depend on what else is in them. -/
theorem losses_map {T : Type} (silences : Nat → Silence) (view : S → T) (list : List S) :
    (losses now silences list).map view = losses now silences (list.map view) := by
  unfold losses
  rw [List.zipIdx_map, List.filter_map, List.map_map, List.map_map]
  rfl

/-- Timers that follow the silences of their slots are due for these losses. -/
theorem due_losses {silences : Nat → Silence} {list : List S}
    (follows : ∀ i s, list[i]? = some s → Follows (timer s) (silences i)) :
    (list.filter fun s => (timer s).due now) = losses now silences list := by
  have all := List.filter_map (p := fun s => (timer s).due now) (f := Prod.fst) (l := list.zipIdx)
  rw [List.zipIdx_map_fst] at all
  rw [all]
  refine congrArg (List.map Prod.fst) (List.filter_congr fun slot member => ?_)
  have same : (timer slot.1).due now = true ↔ _ :=
    due_iff (follows slot.2 slot.1 (List.mem_zipIdx_iff_getElem?.mp member))
  rw [Bool.eq_iff_iff, decide_eq_true_iff]
  exact same

/-- The loop calls back for the timers that are due, in order, and for no other. -/
theorem tickAll_yields {calls : S → List (Sigma R)}
    (calling : ∀ s, (call s).Yields fun _ exchanges => exchanges = calls s) (list : List S) :
    (tickAll timer expire call now list).Yields fun result exchanges =>
      result.1 = list.countP (fun s => (timer s).due now) ∧
        result.2 = list.map (fun s => if (timer s).due now then expire s else s) ∧
        exchanges = (list.filter fun s => (timer s).due now).flatMap calls := by
  induction list with
  | nil => exact ⟨rfl, rfl, rfl⟩
  | cons s rest ih =>
    unfold tickAll
    split
    · rename_i idle
      have quiet : (timer s).due now = false := by
        simp only [Timer.due, idle, Bool.not_true, Bool.false_and]
      refine yields_bind.mpr (yields_mono ih fun result exchanges holds => ?_)
      obtain ⟨count, list, called⟩ := holds
      simp [quiet, count, list, called]
    · rename_i idle
      split
      · rename_i long
        have loud : (timer s).due now = true := by
          simp only [Timer.due, Bool.eq_false_iff.mpr idle, long, decide_true, Bool.not_false, Bool.and_self]
        refine yields_bind.mpr (yields_mono (calling s) fun _ first same => ?_)
        refine yields_bind.mpr (yields_mono ih fun result exchanges holds => ?_)
        obtain ⟨count, list, called⟩ := holds
        simp [loud, count, list, called, same]
      · rename_i short
        have quiet : (timer s).due now = false := by
          simp only [Timer.due, short, decide_false, Bool.and_false]
        refine yields_bind.mpr (yields_mono ih fun result exchanges holds => ?_)
        obtain ⟨count, list, called⟩ := holds
        simp [quiet, count, list, called]

/-- What the loop does to a timer. -/
theorem ticked_timer (expires : ∀ s, timer (expire s) = { timer s with timedOut := true }) (s : S) :
    timer (if (timer s).due now then expire s else s) = (timer s).after (.tick now) := by
  cases due : (timer s).due now with
  | true => simp [Timer.after, due, expires]
  | false => simp [Timer.after, due]

end Loop

/-! ## Monitors -/

def Silence.afterAll (silence : Silence) (timer : Timer) : List Event → Silence
  | [] => silence
  | event :: rest => (silence.after timer event).afterAll (timer.after event) rest

/-- A component with timers. A timer that is not active reports nothing and may be neglected;
when it becomes active it is fed. -/
structure Monitor (E : Type) (R : E → Type) (M O : Type) where
  timer : M → Nat → Timer
  active : M → Nat → Prop
  perform : O → M → Program E R M
  events : M → O → Nat → List Event

/-- What an operation does to a timer. -/
structure Monitor.Advances {E : Type} {R : E → Type} {M O : Type} (monitor : Monitor E R M O)
    (before after : M) (events : List Event) (i : Nat) : Prop where
  timeout : (monitor.timer after i).timeout = ((monitor.timer before i).afterAll events).timeout
  kept : monitor.active before i → monitor.active after i →
    monitor.timer after i = (monitor.timer before i).afterAll events
  started : ¬monitor.active before i → monitor.active after i →
    ∃ now, events = [.feed now] ∧ monitor.timer after i = (monitor.timer before i).after (.feed now)
  quiet : ¬monitor.active before i → ∀ now, .tick now ∉ events

section Monitor
variable {E M O : Type} {R : E → Type} {monitor : Monitor E R M O}

/-- The operations one after the other, and for each timer the silence that it should report. -/
def Monitor.watch (monitor : Monitor E R M O) :
    List O → M → (Nat → Silence) → Program E R (M × (Nat → Silence))
  | [], m, silences => return (m, silences)
  | o :: rest, m, silences => do
    let after ← monitor.perform o m
    monitor.watch rest after fun i => (silences i).afterAll (monitor.timer m i) (monitor.events m o i)

/-- The silence is reported, and an active monitor will do so. -/
structure Monitor.Watches (monitor : Monitor E R M O) (m : M) (i : Nat) (silence : Silence) : Prop where
  timeout : (monitor.timer m i).timeout = silence.timeout
  follows : monitor.active m i → Follows (monitor.timer m i) silence
  reported : Reported silence

theorem follows_afterAll (follows : Follows timer silence) (reported : Reported silence)
    (events : List Event) :
    Follows (timer.afterAll events) (silence.afterAll timer events) ∧ Reported (silence.afterAll timer events) := by
  induction events generalizing timer silence with
  | nil => exact ⟨follows, reported⟩
  | cons event rest ih => exact ih (follows_after follows event) (reported_after follows reported event)

theorem timer_afterAll_append (timer : Timer) (first second : List Event) :
    timer.afterAll (first ++ second) = (timer.afterAll first).afterAll second := List.foldl_append

/-- A silence that is broken at this time starts anew, however often it is broken. -/
theorem silence_afterAll_feeds {T : Type} (silence : Silence) (timer : Timer) (list : List T) :
    silence.afterAll timer (list.map fun _ => .feed now) = if list = [] then silence else ⟨silence.timeout, now, []⟩ := by
  cases list with
  | nil => rfl
  | cons first rest =>
    have again : ∀ timer : Timer, (⟨silence.timeout, now, []⟩ : Silence).afterAll timer (rest.map fun _ => .feed now) =
        ⟨silence.timeout, now, []⟩ := by
      induction rest with
      | nil => exact fun _ => rfl
      | cons next rest ih => exact fun timer => ih (timer.after (.feed now))
    exact again _

theorem timeout_afterAll (same : timer.timeout = silence.timeout) (events : List Event) :
    (timer.afterAll events).timeout = (silence.afterAll timer events).timeout := by
  induction events generalizing timer silence with
  | nil => exact same
  | cons event rest ih =>
    refine ih ?_
    cases event with
    | restart timeout now => rfl
    | feed now => exact same
    | tick now => exact same

/-- Without a tick there is nothing to report. -/
theorem reported_quiet (reported : Reported silence) {events : List Event}
    (quiet : ∀ now, .tick now ∉ events) :
    Reported (silence.afterAll timer events) := by
  induction events generalizing timer silence with
  | nil => exact reported
  | cons event rest ih =>
    refine ih ?_ fun now member => quiet now (List.mem_cons_of_mem _ member)
    cases event with
    | restart timeout now => exact reported_fresh timeout now
    | feed now => exact reported_fresh silence.timeout now
    | tick now => exact absurd List.mem_cons_self (quiet now)

/-- A timer that does as told, in an operation that starts none. -/
theorem advances_exact {before after : M} {events : List Event} {i : Nat}
    (same : monitor.timer after i = (monitor.timer before i).afterAll events)
    (active : monitor.active after i → monitor.active before i)
    (quiet : ¬monitor.active before i → ∀ now, .tick now ∉ events) :
    monitor.Advances before after events i where
  timeout := congrArg Timer.timeout same
  kept := fun _ _ => same
  started := fun idle busy => absurd (active busy) idle
  quiet := quiet

/-- A timer that is neglected. -/
theorem advances_idle {before after : M} {events : List Event} {i : Nat}
    (timeout : (monitor.timer after i).timeout = ((monitor.timer before i).afterAll events).timeout)
    (idle : ¬monitor.active before i) (still : ¬monitor.active after i)
    (quiet : ∀ now, .tick now ∉ events) :
    monitor.Advances before after events i where
  timeout := timeout
  kept := fun active _ => absurd active idle
  started := fun _ active => absurd active still
  quiet := fun _ => quiet

theorem watches_advance {before after : M} {i : Nat} {events : List Event}
    (watches : monitor.Watches before i silence)
    (advances : monitor.Advances before after events i) :
    monitor.Watches after i (silence.afterAll (monitor.timer before i) events) := by
  have timeout := advances.timeout.trans (timeout_afterAll watches.timeout events)
  by_cases active : monitor.active before i
  · obtain ⟨follows, reported⟩ := follows_afterAll (watches.follows active) watches.reported events
    exact ⟨timeout, fun still => advances.kept active still ▸ follows, reported⟩
  · refine ⟨timeout, fun now => ?_, reported_quiet watches.reported (advances.quiet active)⟩
    obtain ⟨start, rfl, fed⟩ := advances.started active now
    rw [fed]
    exact { follows_fresh silence.timeout start with timeout := watches.timeout }

/-- If each operation advances the timers as told, every silence of every run is reported. -/
theorem watch_yields (lawful : ∀ o m, (monitor.perform o m).Yields fun after _ =>
      ∀ i, monitor.Advances m after (monitor.events m o i) i)
    (operations : List O) (m : M) (silences : Nat → Silence)
    (watches : ∀ i, monitor.Watches m i (silences i)) :
    (monitor.watch operations m silences).Yields fun result _ => ∀ i, monitor.Watches result.1 i (result.2 i) := by
  induction operations generalizing m silences with
  | nil => exact watches
  | cons o rest ih =>
    refine yields_bind.mpr (yields_mono (lawful o m) fun after _ advances => ?_)
    exact ih after _ fun i => watches_advance (watches i) (advances i)

end Monitor

end Emblib.Watchdogs
