import Mathlib.Data.List.Chain
import Mathlib.Data.List.Induction

/-! Senders that keep a period. A sender offers a frame at the first tick at which its period
is over, and again at every tick until the frame is accepted. When the period is over is told by
the emission itself: when it began, and what has become of the ticks since then. -/
namespace Emblib.Pacers

/-! ## One sender -/

structure Pacer where
  period : Int := 0
  lastTx : Int := 0

/-- The sender offers a frame at this time. A period of zero switches it off. -/
def Pacer.due (pacer : Pacer) (now : Int) : Bool :=
  !decide (pacer.period = 0) && decide (pacer.period ≤ now - pacer.lastTx)

/-- What becomes of a tick: no frame is offered, or one is and the receiver accepts it or not. -/
abbrev Outcome := Option Bool

inductive Event where
  | restart (period now : Int)
  | tick (now : Int) (outcome : Outcome)

def Pacer.after (pacer : Pacer) : Event → Pacer
  | .restart period now => ⟨period, now⟩
  | .tick now outcome => if outcome = some true then { pacer with lastTx := now } else pacer

/-- The event is one that the sender can bring about: it offers a frame when it is due. -/
def Event.Obeys (pacer : Pacer) : Event → Prop
  | .restart .. => True
  | .tick now outcome => outcome ≠ none ↔ pacer.due now = true

/-- What a sender has done since the last restart. -/
structure Emission where
  period : Int := 0
  start : Int := 0
  ticks : List (Int × Outcome) := []

def Emission.after (emission : Emission) : Event → Emission
  | .restart period now => ⟨period, now, []⟩
  | .tick now outcome => { emission with ticks := emission.ticks ++ [(now, outcome)] }

/-- The times at which a frame was accepted. -/
def accepted (ticks : List (Int × Outcome)) : List Int :=
  (ticks.filter fun tick => tick.2 = some true).map (·.1)

/-- The beginning of the current period. -/
def Emission.last (emission : Emission) : Int := (accepted emission.ticks).getLastD emission.start

/-- The current period is over at this time. -/
def Emission.Over (emission : Emission) (now : Int) : Prop :=
  emission.period ≠ 0 ∧ emission.period ≤ now - emission.last

/-- A frame is offered exactly at the ticks that see that the period is over. -/
def Emission.Offers (emission : Emission) : Prop :=
  ∀ earlier now outcome later, emission.ticks = earlier ++ (now, outcome) :: later →
    (outcome ≠ none ↔ { emission with ticks := earlier }.Over now)

/-- Between two frames that are accepted lies a period. -/
def Emission.Spaced (emission : Emission) : Prop :=
  (emission.start :: accepted emission.ticks).IsChain fun before after => emission.period ≤ after - before

/-- A frame that is refused is offered again at the next tick, unless the clock goes back. -/
def Emission.Retries (emission : Emission) : Prop :=
  ∀ earlier now next outcome later,
    emission.ticks = earlier ++ (now, some false) :: (next, outcome) :: later → now ≤ next → outcome ≠ none

structure Emission.Keeps (emission : Emission) : Prop where
  offers : emission.Offers
  spaced : emission.Spaced
  retries : emission.Retries

/-- The sender knows what it needs to know about its emission. -/
structure Knows (pacer : Pacer) (emission : Emission) : Prop where
  period : pacer.period = emission.period
  last : pacer.lastTx = emission.last

variable {pacer : Pacer} {emission : Emission} {now : Int} {outcome : Outcome}

theorem accepted_append (first second : List (Int × Outcome)) :
    accepted (first ++ second) = accepted first ++ accepted second := by
  unfold accepted
  rw [List.filter_append, List.map_append]

theorem accepted_sent (now : Int) : accepted [(now, some true)] = [now] := rfl

theorem accepted_other (now : Int) (other : outcome ≠ some true) : accepted [(now, outcome)] = [] := by
  unfold accepted
  rw [List.filter_cons_of_neg (by simpa using other), List.filter_nil, List.map_nil]

theorem last_sent (emission : Emission) (now : Int) : (emission.after (.tick now (some true))).last = now := by
  unfold Emission.last Emission.after
  rw [accepted_append, accepted_sent, List.getLastD_concat]

theorem last_other (emission : Emission) (now : Int) (other : outcome ≠ some true) :
    (emission.after (.tick now outcome)).last = emission.last := by
  unfold Emission.last Emission.after
  rw [accepted_append, accepted_other now other, List.append_nil]

theorem due_iff (knows : Knows pacer emission) : pacer.due now = true ↔ emission.Over now := by
  unfold Pacer.due Emission.Over
  rw [Bool.and_eq_true, Bool.not_eq_true', decide_eq_false_iff_not, decide_eq_true_iff, knows.period, knows.last]

theorem knows_fresh (period start : Int) : Knows ⟨period, start⟩ ⟨period, start, []⟩ := ⟨rfl, rfl⟩

theorem knows_after (knows : Knows pacer emission) (event : Event) :
    Knows (pacer.after event) (emission.after event) := by
  cases event with
  | restart period now => exact knows_fresh period now
  | tick now outcome =>
    by_cases sent : outcome = some true
    · subst sent
      exact ⟨knows.period, (last_sent emission now).symm⟩
    · rw [Pacer.after, if_neg sent]
      exact ⟨knows.period, knows.last.trans (last_other emission now sent).symm⟩

theorem keeps_fresh (period start : Int) : Emission.Keeps ⟨period, start, []⟩ where
  offers := fun _ _ _ _ shape => absurd shape (by simp)
  spaced := List.isChain_singleton start
  retries := fun _ _ _ _ _ shape => absurd shape (by simp)

/-- The last element of a list that is split somewhere. -/
theorem snoc_split {T : Type} {list earlier later : List T} {last item : T}
    (shape : list ++ [last] = earlier ++ item :: later) :
    later = [] ∧ list = earlier ∧ last = item ∨ ∃ rest, later = rest ++ [last] ∧ list = earlier ++ item :: rest := by
  cases later using List.reverseRecOn with
  | nil =>
    obtain ⟨same, item⟩ := List.append_inj' shape rfl
    exact .inl ⟨rfl, same, List.singleton_inj.mp item⟩
  | append_singleton rest other =>
    rw [← List.cons_append, ← List.append_assoc] at shape
    obtain ⟨same, item⟩ := List.append_inj' shape rfl
    exact .inr ⟨rest, by rw [List.singleton_inj.mp item], same⟩

theorem offers_tick (offers : emission.Offers) (rightly : outcome ≠ none ↔ emission.Over now) :
    (emission.after (.tick now outcome)).Offers := by
  intro earlier then' became later shape
  rcases snoc_split shape with ⟨_, rfl, same⟩ | ⟨rest, _, before⟩
  · obtain ⟨rfl, rfl⟩ := Prod.mk.inj same
    exact rightly
  · exact offers earlier then' became rest before

theorem spaced_tick (spaced : emission.Spaced) (rightly : outcome ≠ none ↔ emission.Over now) :
    (emission.after (.tick now outcome)).Spaced := by
  unfold Emission.Spaced Emission.after
  rw [accepted_append]
  by_cases sent : outcome = some true
  · subst sent
    have elapsed : emission.Over now := rightly.mp nofun
    rw [accepted_sent, ← List.cons_append]
    refine List.isChain_append.mpr ⟨spaced, List.isChain_singleton now, ?_⟩
    intro before last after first
    obtain rfl : now = after := by simpa using first
    obtain rfl : emission.last = before := by
      rw [List.getLast?_cons] at last
      unfold Emission.last
      rw [List.getLastD_eq_getLast?]
      exact Option.some.inj last
    exact elapsed.2
  · rwa [accepted_other now sent, List.append_nil]

theorem retries_tick (retries : emission.Retries) (offers : emission.Offers)
    (rightly : outcome ≠ none ↔ emission.Over now) :
    (emission.after (.tick now outcome)).Retries := by
  intro earlier then' next became later shape monotone
  rw [List.append_cons] at shape
  rcases snoc_split shape with ⟨_, before, same⟩ | ⟨rest, _, before⟩
  · obtain ⟨rfl, rfl⟩ := Prod.mk.inj same
    -- The period was over at the tick before, and it has not begun anew there.
    obtain ⟨on, elapsed⟩ := (offers earlier then' (some false) [] before).mp nofun
    refine rightly.mpr ⟨on, ?_⟩
    have unchanged : emission.last = { emission with ticks := earlier }.last := by
      unfold Emission.last
      rw [before, accepted_append, accepted_other then' (by decide), List.append_nil]
    rw [unchanged]
    exact Int.le_trans elapsed (Int.sub_le_sub_right monotone _)
  · rw [List.append_assoc] at before
    exact retries earlier then' next became rest before monotone

theorem keeps_after (knows : Knows pacer emission) (keeps : emission.Keeps) {event : Event}
    (obeys : event.Obeys pacer) : (emission.after event).Keeps := by
  cases event with
  | restart period now => exact keeps_fresh period now
  | tick now outcome =>
    have rightly : outcome ≠ none ↔ emission.Over now := obeys.trans (due_iff knows)
    exact ⟨offers_tick keeps.offers rightly, spaced_tick keeps.spaced rightly,
      retries_tick keeps.retries keeps.offers rightly⟩

theorem keeps_tick (knows : Knows pacer emission) (keeps : emission.Keeps)
    (obeys : outcome ≠ none ↔ pacer.due now = true) :
    Knows (pacer.after (.tick now outcome)) (emission.after (.tick now outcome)) ∧
      (emission.after (.tick now outcome)).Keeps :=
  ⟨knows_after knows _, keeps_after knows keeps obeys⟩

/-- What each related pair has on its right side. -/
theorem related_right {A B : Type} {related : A → B → Prop} {holds : B → Prop} {left : List A} {right : List B}
    (all : List.Forall₂ related left right) (each : ∀ a b, related a b → holds b) : ∀ b ∈ right, holds b := by
  induction all with
  | nil => exact nofun
  | cons first _ ih => exact List.forall_mem_cons.mpr ⟨each _ _ first, ih⟩

end Emblib.Pacers
