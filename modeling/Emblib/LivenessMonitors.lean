import Emblib.NmtDispatch
import Emblib.RawNode

/-! The three monitors of liveness: the consumer of process data, the consumer of heartbeats and
the raw node. Whatever happens to them, each reports a silence that has become too long at the
first tick that can see it, and not again before the silence is over. -/
namespace Emblib.LivenessMonitors
open Programs Watchdogs Can

variable {D : Type}

/-! ## `rpdo_consumer` -/

section Rpdo
open CanopenServices CanopenDispatch

/-- The consumer, with the state of the network management that the server passes to it. -/
structure Consumer (D : Type) where
  state : NmtState
  slots : List (RpdoSlot D)

def Consumer.initial (count : ℕ) : Consumer D where
  state := .initializing
  slots := List.replicate count {}

/-- What happens to the consumer, and when. -/
inductive RpdoOperation (count : ℕ) (D : Type) where
  | setup (i : ℕ) (cobId : PdoId) (valid : cobId.Valid count i) (cfg : RpdoConfig D) (now : Int)
  | receive (frame : Frame) (now : Int)
  | nmt (s : NmtState) (now : Int)
  | tick (now : Int)

variable {node : NodeId} {count : ℕ}

def RpdoOperation.perform (node : NodeId) : RpdoOperation count D → Consumer D → Task D (Consumer D)
  | .setup i cobId _ cfg now, m => do return { m with slots := (← RpdoConsumer.setup node i cobId cfg now m.slots) }
  | .receive frame now, m => do
    let (_, slots) ← RpdoConsumer.tryHandle frame now m.state m.slots
    return { m with slots := slots }
  | .nmt s now, m =>
    if s = m.state then return m
    else return { state := s, slots := if s = .operational then RpdoConsumer.resetTimers now m.slots else m.slots }
  | .tick now, m => do
    let (_, slots) ← RpdoConsumer.tick now m.state m.slots
    return { m with slots := slots }

/-- A silence starts anew at a setup, at a frame that is dispatched to the slot, in whatever
state, and when the operational state is entered. -/
def RpdoOperation.events (m : Consumer D) : RpdoOperation count D → ℕ → List Event
  | .setup j _ _ cfg now, i => if j - 1 = i ∧ i < m.slots.length then [.restart cfg.timeout now] else []
  | .receive frame now, i => if RpdoConsumer.slotOf frame m.slots = some i then [.feed now] else []
  | .nmt s now, _ => if s ≠ m.state ∧ s = .operational then [.feed now] else []
  | .tick now, i => if m.state = .operational ∧ i < m.slots.length then [.tick now] else []

def rpdoMonitor (node : NodeId) (count : ℕ) :
    Monitor (Effect D) Reply (Consumer D) (RpdoOperation count D) where
  timer m i := timerAt RpdoSlot.toTimer m.slots i
  active m i := m.state = .operational ∧ i < m.slots.length
  perform o m := o.perform node m
  events m o i := o.events m i

theorem slotOf_inside {frame : Frame} {slots : List (RpdoSlot D)} {i : ℕ}
    (slot : RpdoConsumer.slotOf frame slots = some i) : i < slots.length :=
  (List.findIdx?_eq_some_iff_getElem.mp slot).1

theorem rpdoSetup_yields (i : ℕ) (cobId : PdoId) (cfg : RpdoConfig D) (now : Int)
    (slots : List (RpdoSlot D)) :
    (RpdoConsumer.setup node i cobId cfg now slots).Yields fun after _ => after.length = slots.length ∧ ∀ k,
      timerAt RpdoSlot.toTimer after k = (timerAt RpdoSlot.toTimer slots k).afterAll
        (if i - 1 = k ∧ k < slots.length then [.restart cfg.timeout now] else []) := by
  unfold RpdoConsumer.setup
  dsimp only
  split
  · exact fun _ => ⟨List.length_modify ..,
      timerAt_modify RpdoSlot.toTimer (.restart cfg.timeout now) (fun _ => rfl) slots (i - 1)⟩
  · exact ⟨List.length_modify ..,
      timerAt_modify RpdoSlot.toTimer (.restart cfg.timeout now) (fun _ => rfl) slots (i - 1)⟩

theorem tick_not_feed {p : Prop} [Decidable p] {time now : Int} :
    .tick now ∉ if p then [Event.feed time] else [] := by
  split
  · simp
  · simp

/-- Entering the operational state feeds the timers. -/
theorem entered_advances {m : Consumer D} {s : NmtState} (different : .operational ≠ m.state)
    (operational : s = .operational) (now : Int) (k : ℕ) :
    (rpdoMonitor node count).Advances m
      { state := s,
        slots := if s = .operational then RpdoConsumer.resetTimers now m.slots else m.slots }
      [.feed now] k := by
  subst operational
  rw [if_pos rfl]
  have reset : timerAt RpdoSlot.toTimer (RpdoConsumer.resetTimers now m.slots) k =
      (timerAt RpdoSlot.toTimer m.slots k).afterAll (if k < m.slots.length then [.feed now] else []) :=
    timerAt_map RpdoSlot.toTimer (.feed now) (fun _ => rfl) m.slots k
  constructor
  case timeout =>
    refine (congrArg Timer.timeout reset).trans ?_
    split
    · rfl
    · rfl
  case kept => exact fun active => absurd active.1.symm different
  case started =>
    intro _ active
    have inside : k < m.slots.length := (List.length_map _).symm ▸ active.2
    rw [if_pos inside] at reset
    exact ⟨now, rfl, reset⟩
  case quiet => simp

/-- A frame is for the first slot with its identifier; a slot that is not watched may miss it. -/
theorem rpdoReceive_advances (frame : Frame) (now : Int) (m : Consumer D) :
    ((rpdoMonitor node count).perform (.receive frame now) m).Yields fun after _ =>
      ∀ k, (rpdoMonitor node count).Advances m after ((rpdoMonitor node count).events m (.receive frame now) k) k := by
  refine yields_bind.mpr (yields_mono (rpdoHandle_yields frame now m.state m.slots) fun result _ outcome k => ?_)
  simp only [rpdoMonitor, RpdoOperation.events]
  cases slot : RpdoConsumer.slotOf frame m.slots with
  | none =>
    rw [slot] at outcome
    obtain ⟨rfl, _⟩ := outcome
    exact advances_exact rfl id fun _ _ => nofun
  | some i =>
    rw [slot] at outcome
    obtain ⟨state, rfl, _⟩ | ⟨state, rfl, _⟩ := outcome
    · refine advances_idle ?_ (fun active => state active.1) (fun active => state active.1) fun _ => tick_not_feed
      split
      · rfl
      · rfl
    · refine advances_exact (timerAt_found RpdoSlot.toTimer (.feed now) (fun _ => rfl) (slotOf_inside slot) k)
        (fun active => ⟨state, ?_⟩) fun _ _ => tick_not_feed
      have inside := active.2
      rwa [List.length_modify] at inside

theorem rpdoNmt_advances (s : NmtState) (now : Int) (m : Consumer D) :
    ((rpdoMonitor node count).perform (.nmt s now) m).Yields fun after _ =>
      ∀ k, (rpdoMonitor node count).Advances m after ((rpdoMonitor node count).events m (.nmt s now) k) k := by
  show (if s = m.state then _ else _ : Task D _).Yields _
  by_cases same : s = m.state
  · rw [if_pos same]
    intro k
    have events : (rpdoMonitor node count).events m (.nmt s now) k = [] := if_neg fun both => both.1 same
    rw [events]
    exact advances_exact rfl id fun _ _ => nofun
  · rw [if_neg same]
    intro k
    by_cases operational : s = .operational
    · have events : (rpdoMonitor node count).events m (.nmt s now) k = [.feed now] :=
        if_pos ⟨same, operational⟩
      rw [events]
      exact entered_advances (operational ▸ same) operational now k
    · have events : (rpdoMonitor node count).events m (.nmt s now) k = [] :=
        if_neg fun both => operational both.2
      rw [events]
      refine advances_exact ?_ (fun active => absurd active.1 operational) fun _ _ => nofun
      simp only [rpdoMonitor, if_neg operational]
      rfl

theorem rpdoTick_advances (now : Int) (m : Consumer D) :
    ((rpdoMonitor node count).perform (.tick now) m).Yields fun after _ =>
      ∀ k, (rpdoMonitor node count).Advances m after ((rpdoMonitor node count).events m (.tick now) k) k := by
  refine yields_bind.mpr (yields_mono (rpdoTick_yields now m.state m.slots) fun result _ outcome k => ?_)
  obtain ⟨reported, slots⟩ := result
  obtain ⟨_, rfl, _⟩ := outcome
  unfold tickedSlots
  by_cases operational : m.state = .operational
  · rw [if_pos operational]
    refine advances_exact ?_ (fun active => ⟨operational, (List.length_map _).symm ▸ active.2⟩) fun idle => ?_
    · simp only [rpdoMonitor, RpdoOperation.events, operational, true_and]
      exact timerAt_map RpdoSlot.toTimer (.tick now) (ticked_timer fun _ => rfl) m.slots k
    · have events : (rpdoMonitor node count).events m (.tick now) k = [] := if_neg idle
      rw [events]
      exact fun _ => nofun
  · rw [if_neg operational]
    have events : (rpdoMonitor node count).events m (.tick now) k = [] :=
      if_neg fun both => operational both.1
    rw [events]
    exact advances_exact rfl id fun _ _ => nofun

/-- Every operation does to the timers what it does to the silences, as far as they are watched. -/
theorem rpdo_lawful (o : RpdoOperation count D) (m : Consumer D) :
    ((rpdoMonitor node count).perform o m).Yields fun after _ =>
      ∀ k, (rpdoMonitor node count).Advances m after ((rpdoMonitor node count).events m o k) k := by
  cases o with
  | setup i cobId valid cfg now =>
    refine yields_bind.mpr (yields_mono (rpdoSetup_yields i cobId cfg now m.slots) fun slots _ outcome k => ?_)
    obtain ⟨length, timers⟩ := outcome
    refine advances_exact (timers k) (fun active => ⟨active.1, length ▸ active.2⟩) fun _ now => ?_
    · simp only [rpdoMonitor, RpdoOperation.events]
      split
      · simp
      · simp
  | receive frame now => exact rpdoReceive_advances frame now m
  | nmt s now => exact rpdoNmt_advances s now m
  | tick now => exact rpdoTick_advances now m

/-- What a consumer with these silences in its slots does at a tick: it reports those that
have become too long, and it counts them. -/
def RpdoReports (m : Consumer D) (silences : ℕ → Silence) : Prop :=
  (∀ i, ReportedOnce (silences i)) ∧
    ∀ now, (RpdoConsumer.tick now m.state m.slots).Yields fun result exchanges =>
      let reported := if m.state = .operational then losses now silences m.slots else []
      result.1 = reported.length ∧ exchanges = reported.flatMap timeoutCalls

theorem rpdo_reports {m : Consumer D} {silences : ℕ → Silence}
    (watches : ∀ i, (rpdoMonitor node count).Watches m i (silences i)) : RpdoReports m silences := by
  refine ⟨fun i => reported_once (watches i).reported, fun now => ?_⟩
  have due : dueSlots now m.state m.slots = if m.state = .operational then losses now silences m.slots else [] := by
    unfold dueSlots
    refine ite_congr rfl (fun operational => due_losses fun i s present => ?_) fun _ => rfl
    obtain ⟨inside, _⟩ := List.getElem?_eq_some_iff.mp present
    exact timerAt_some RpdoSlot.toTimer present ▸ (watches i).follows ⟨operational, inside⟩
  refine yields_mono (rpdoTick_yields now m.state m.slots) fun result exchanges outcome => ?_
  rw [due] at outcome
  exact ⟨outcome.1, outcome.2.2⟩

theorem rpdo_initial (i : ℕ) :
    (rpdoMonitor node count).Watches (Consumer.initial (D := D) count) i {} where
  timeout := by
    simp only [rpdoMonitor, Consumer.initial, timerAt, List.getElem?_replicate]
    split
    · rfl
    · rfl
  follows := fun active => nomatch active.1
  reported := reported_fresh 0 0

end Rpdo

/-! ## `hb_consumer` -/

section Heartbeat
open CanopenServices CanopenDispatch

inductive HbOperation (D : Type) where
  | watch (remote : NodeId) (timeout : Int) (onLost : Option D) (now : Int)
  | receive (frame : Frame) (now : Int)
  | tick (now : Int)

def HbOperation.perform : HbOperation D → List (WatchSlot D) → Task D (List (WatchSlot D))
  | .watch remote timeout onLost now, watches => do
    let (_, watches) ← HbConsumer.watch remote timeout onLost now watches
    return watches
  | .receive frame now, watches => return (HbConsumer.tryHandle frame now watches).2
  | .tick now, watches => HbConsumer.tick now watches

/-- The watch of a remote node: the one that there is, or a new one if there is room. -/
def watchOf (remote : NodeId) (watches : List (WatchSlot D)) : Option ℕ :=
  match watches.findIdx? fun w => w.cobId = peerCobId .heartbeat remote with
  | some i => some i
  | none => if watches.length < HbConsumer.capacity then some watches.length else none

def HbOperation.events (watches : List (WatchSlot D)) : HbOperation D → ℕ → List Event
  | .watch remote timeout _ now, i => if watchOf remote watches = some i then [.restart timeout now] else []
  | .receive frame now, i => if HbConsumer.slotOf frame watches = some i then [.feed now] else []
  | .tick now, i => if i < watches.length then [.tick now] else []

def hbMonitor : Monitor (Effect D) Reply (List (WatchSlot D)) (HbOperation D) where
  timer watches i := timerAt WatchSlot.toTimer watches i
  active _ _ := True
  perform o watches := o.perform watches
  events watches o i := o.events watches i

theorem hbWatch_yields (remote : NodeId) (timeout : Int) (onLost : Option D) (now : Int)
    (watches : List (WatchSlot D)) :
    (HbConsumer.watch remote timeout onLost now watches).Yields fun result _ => ∀ k,
      timerAt WatchSlot.toTimer result.2 k = (timerAt WatchSlot.toTimer watches k).afterAll
        (if watchOf remote watches = some k then [.restart timeout now] else []) := by
  unfold HbConsumer.watch watchOf
  dsimp only
  cases found : watches.findIdx? fun w => w.cobId = peerCobId .heartbeat remote with
  | some i =>
    obtain ⟨inside, _⟩ := List.findIdx?_eq_some_iff_getElem.mp found
    exact timerAt_found WatchSlot.toTimer (.restart timeout now) (fun _ => rfl) inside
  | none =>
    dsimp only
    split
    · exact fun _ => timerAt_append WatchSlot.toTimer (.restart timeout now) rfl watches
    · exact fun _ => rfl

theorem hb_lawful (o : HbOperation D) (watches : List (WatchSlot D)) :
    (hbMonitor.perform o watches).Yields fun after _ => ∀ k, hbMonitor.Advances watches after (hbMonitor.events watches o k) k := by
  have exactly {after : List (WatchSlot D)} {events : List Event} {k : ℕ} (same : timerAt WatchSlot.toTimer after k =
      (timerAt WatchSlot.toTimer watches k).afterAll events) : hbMonitor.Advances watches after events k :=
    advances_exact same id fun idle => absurd trivial idle
  cases o with
  | watch remote timeout onLost now =>
    refine yields_bind.mpr (yields_mono (hbWatch_yields remote timeout onLost now watches) fun result _ timers k => ?_)
    exact exactly (timers k)
  | receive frame now =>
    intro k
    simp only [hbMonitor, HbOperation.events, HbConsumer.tryHandle]
    cases slot : HbConsumer.slotOf frame watches with
    | none => exact exactly rfl
    | some i =>
      obtain ⟨inside, _⟩ := List.findIdx?_eq_some_iff_getElem.mp slot
      exact exactly (timerAt_found WatchSlot.toTimer (.feed now) (fun _ => rfl) inside k)
  | tick now =>
    refine yields_mono (hbTick_yields watches) fun after _ outcome k => ?_
    obtain ⟨rfl, _⟩ := outcome
    exact exactly (timerAt_map WatchSlot.toTimer (.tick now) (ticked_timer fun _ => rfl) watches k)

def HbReports (watches : List (WatchSlot D)) (silences : ℕ → Silence) : Prop :=
  (∀ i, ReportedOnce (silences i)) ∧
    ∀ now, (HbConsumer.tick now watches).Yields fun _ exchanges => exchanges = (losses now silences watches).flatMap lostCalls

theorem hb_reports {watches : List (WatchSlot D)} {silences : ℕ → Silence}
    (watched : ∀ i, hbMonitor.Watches watches i (silences i)) : HbReports watches silences := by
  refine ⟨fun i => reported_once (watched i).reported, fun now => ?_⟩
  have due : (watches.filter fun w => w.due now) = losses now silences watches :=
    due_losses fun i w present => timerAt_some WatchSlot.toTimer present ▸ (watched i).follows trivial
  refine yields_mono (hbTick_yields watches) fun _ exchanges outcome => ?_
  rw [← due]
  exact outcome.2

theorem hb_initial (i : ℕ) : hbMonitor.Watches ([] : List (WatchSlot D)) i {} where
  timeout := rfl
  follows := fun _ => follows_fresh 0 0
  reported := reported_fresh 0 0

end Heartbeat

/-! ## `raw::node` -/

section Raw
open RawNode

inductive RawOperation (D : Type) where
  | addRx (format : Format) (id mask : ℕ) (timeout : Int) (handler onTimeout : Option D)
  | addPeriodicTx (format : Format) (id len : ℕ) (period : Int) (provider : Option D)
  | receive (frame : Frame)
  | run (sinceBoot : Int)

def RawOperation.perform (options : NodeOptions) : RawOperation D → Node D → Task D (Node D)
  | .addRx format id mask timeout handler onTimeout, m => RawNode.addRx options format id mask timeout handler onTimeout m
  | .addPeriodicTx format id len period provider, m => RawNode.addPeriodicTx options format id len period provider m
  | .receive frame, m => return enqueueRx options frame m
  | .run sinceBoot, m => runNode sinceBoot m

/-- The frames of a batch that are dispatched to a slot feed its timer. -/
def feeds (now : Int) (frames : List Frame) (rx : List (RxSlot D)) (i : ℕ) : List Event :=
  (frames.filter fun frame => slotOf frame rx = some i).map fun _ => .feed now

def RawOperation.events (m : Node D) : RawOperation D → ℕ → List Event
  | .addRx _ _ _ timeout _ _, i => if some m.rx.length = some i then [.restart timeout m.now] else []
  | .addPeriodicTx .., _ => []
  | .receive _, _ => []
  | .run sinceBoot, i => feeds sinceBoot m.rxQueue m.rx i ++ if i < m.rx.length then [.tick sinceBoot] else []

def rawMonitor (options : NodeOptions) : Monitor (Effect D) Reply (Node D) (RawOperation D) where
  timer m i := timerAt RxSlot.toTimer m.rx i
  active _ _ := True
  perform o m := o.perform options m
  events m o i := o.events m i

/-- What a reception does not change in a slot. -/
def kept (s : RxSlot D) : Format × ℕ × ℕ × Option D := (s.format, s.id, s.mask, s.onTimeout)

theorem slotOf_kept {rx after : List (RxSlot D)} (same : after.map kept = rx.map kept) (frame : Frame) :
    slotOf frame after = slotOf frame rx := by
  have through (list : List (RxSlot D)) : slotOf frame list = (list.map kept).findIdx? fun s =>
      frame.format = s.1 ∧ frame.id &&& s.2.2.1 = s.2.1 &&& s.2.2.1 := by
    rw [List.findIdx?_map]
    rfl
  rw [through, through, same]

theorem modify_kept (rx : List (RxSlot D)) (i : ℕ) (now : Int) :
    (rx.modify i fun s => { s with lastRx := now, timedOut := false }).map kept = rx.map kept := by
  refine map_modify_same kept ?_ rx i
  exact fun _ => rfl

/-- A call of the handler of a received frame. -/
def IsReceive : Effect D → Prop
  | .receive .. => True
  | _ => False

theorem rawDispatch_yields (now : Int) (frame : Frame) (rx : List (RxSlot D)) :
    (dispatchRx now frame rx).Yields fun after exchanges => after.map kept = rx.map kept ∧
      (∀ k, timerAt RxSlot.toTimer after k = (timerAt RxSlot.toTimer rx k).afterAll (feeds now [frame] rx k)) ∧
        ∀ exchange ∈ exchanges, IsReceive exchange.1 := by
  unfold dispatchRx
  cases slot : slotOf frame rx with
  | none => exact ⟨rfl, fun k => by simp [feeds, slot, Timer.afterAll], List.forall_mem_nil _⟩
  | some i =>
    have called := callIf_yields (receive frame) (fun handler => [⟨.receive handler frame, ()⟩]) (fun _ _ => rfl)
      (rx[i]?.bind (·.handler))
    refine yields_bind.mpr (yields_mono called fun _ exchanges same => ⟨modify_kept rx i now, fun k => ?_, ?_⟩)
    · obtain ⟨inside, _⟩ := List.findIdx?_eq_some_iff_getElem.mp slot
      refine (timerAt_found RxSlot.toTimer (.feed now) (fun _ => rfl) inside k).trans (congrArg _ ?_)
      unfold feeds
      by_cases own : i = k
      · simp [slot, own]
      · simp [slot, own]
    · rw [same, List.append_nil]
      cases rx[i]?.bind (·.handler) with
      | none => exact List.forall_mem_nil _
      | some handler => simp [IsReceive]

theorem rawDispatchAll_yields (now : Int) (frames : List Frame) (rx : List (RxSlot D)) :
    (dispatchAll now frames rx).Yields fun after exchanges => after.map kept = rx.map kept ∧
      (∀ k, timerAt RxSlot.toTimer after k = (timerAt RxSlot.toTimer rx k).afterAll (feeds now frames rx k)) ∧
        ∀ exchange ∈ exchanges, IsReceive exchange.1 := by
  induction frames generalizing rx with
  | nil => exact ⟨rfl, fun _ => rfl, List.forall_mem_nil _⟩
  | cons frame rest ih =>
    refine yields_bind.mpr (yields_mono (rawDispatch_yields now frame rx) fun middle first before => ?_)
    refine yields_mono (ih middle) fun after second later => ?_
    obtain ⟨same, timers, received⟩ := before
    refine ⟨later.1.trans same, fun k => ?_, List.forall_mem_append.mpr ⟨received, later.2.2⟩⟩
    rw [later.2.1, timers, ← timer_afterAll_append]
    unfold feeds
    simp only [slotOf_kept same]
    rw [← List.map_append, ← List.filter_append, List.singleton_append]

/-- The exchanges with the timeout handler of a slot. -/
def timeoutExchanges (s : RxSlot D) : List (Sigma (Reply (D := D))) :=
  s.onTimeout.toList.flatMap fun handler => [⟨.timeout handler, ()⟩]

/-- A frame is prepared or sent. -/
def IsSend : Effect D → Prop
  | .provide _ => True
  | .send _ => True
  | _ => False

theorem tickRx_yields (now : Int) (rx : List (RxSlot D)) : (tickRx now rx).Yields fun after exchanges =>
    after = (rx.map fun s => if s.due now then { s with timedOut := true } else s) ∧
      exchanges = (rx.filter fun s => s.due now).flatMap timeoutExchanges := by
  have calling : ∀ s : RxSlot D, (Program.callIf s.onTimeout RawNode.timeout).Yields fun _ exchanges =>
      exchanges = timeoutExchanges s :=
    fun s => callIf_yields RawNode.timeout (fun handler => [⟨.timeout handler, ()⟩]) (fun _ _ => rfl) s.onTimeout
  refine yields_bind.mpr (yields_mono (tickAll_yields calling rx) fun result exchanges holds => ?_)
  obtain ⟨_, list, called⟩ := holds
  exact ⟨list, by rw [List.append_nil, called]⟩

theorem tickTx_issues (now : Int) (tx : List (TxSlot D)) : (tickTx now tx).Issues IsSend := by
  induction tx with
  | nil => trivial
  | cons s rest ih =>
    refine Program.issues_bind ?_ fun _ => Program.issues_bind ih fun _ => trivial
    unfold tickSlot
    cases s.provider with
    | none => trivial
    | some provider =>
      dsimp only
      split
      · trivial
      · split
        · trivial
        · exact ⟨trivial, fun _ => ⟨trivial, fun _ => trivial⟩⟩

/-- A run: the frames that wait, the timeouts, and what is sent. -/
structure RawRuns (now : Int) (m after : Node D) (rx : List (RxSlot D))
    (received sent : List (Sigma (Reply (D := D)))) : Prop where
  same : rx.map kept = m.rx.map kept
  timers : ∀ k, timerAt RxSlot.toTimer rx k = (timerAt RxSlot.toTimer m.rx k).afterAll (feeds now m.rxQueue m.rx k)
  ticked : after.rx = rx.map fun s => if s.due now then { s with timedOut := true } else s
  received : ∀ exchange ∈ received, IsReceive exchange.1
  sent : ∀ exchange ∈ sent, IsSend exchange.1

theorem runNode_yields (now : Int) (m : Node D) : (runNode now m).Yields fun after exchanges =>
    ∃ rx received sent, exchanges = received ++ ((rx.filter fun s => s.due now).flatMap timeoutExchanges ++ sent) ∧
      RawRuns now m after rx received sent := by
  refine yields_bind.mpr (yields_mono (rawDispatchAll_yields now m.rxQueue m.rx) fun rx received dispatched => ?_)
  refine yields_bind.mpr (yields_mono (tickRx_yields now rx) fun after timeouts ticked => ?_)
  refine yields_bind.mpr (yields_mono (yields_issues (tickTx_issues now m.tx)) fun tx sent issued => ?_)
  obtain ⟨rfl, rfl⟩ := ticked
  exact ⟨rx, received, sent, by rw [List.append_nil], dispatched.1, dispatched.2.1, rfl, dispatched.2.2, issued⟩

theorem raw_lawful (options : NodeOptions) (o : RawOperation D) (m : Node D) :
    ((rawMonitor options).perform o m).Yields fun after _ =>
      ∀ k, (rawMonitor options).Advances m after ((rawMonitor options).events m o k) k := by
  have exactly {after : Node D} {events : List Event} {k : ℕ} (same : timerAt RxSlot.toTimer after.rx k =
      (timerAt RxSlot.toTimer m.rx k).afterAll events) : (rawMonitor options).Advances m after events k :=
    advances_exact same id fun idle => absurd trivial idle
  cases o with
  | addRx format id mask timeout handler onTimeout =>
    refine yields_bind.mpr ?_
    unfold ensure
    split
    · exact fun _ k => exactly (timerAt_append RxSlot.toTimer (.restart timeout m.now) rfl m.rx k)
    · exact nofun
  | addPeriodicTx format id len period provider =>
    refine yields_bind.mpr ?_
    unfold ensure
    split
    · exact fun k => exactly rfl
    · exact nofun
  | receive frame =>
    intro k
    refine exactly ?_
    unfold enqueueRx
    split
    · rfl
    · rfl
  | run sinceBoot =>
    refine yields_mono (runNode_yields sinceBoot m) fun after _ outcome k => exactly ?_
    obtain ⟨rx, received, sent, _, runs⟩ := outcome
    have length : rx.length = m.rx.length := by
      simpa only [List.length_map] using congrArg List.length runs.same
    simp only [rawMonitor, RawOperation.events]
    rw [runs.ticked, timerAt_map RxSlot.toTimer (.tick sinceBoot) (ticked_timer fun _ => rfl), runs.timers, length,
      timer_afterAll_append]

/-- The silence of a slot behind the frames that wait, at the time of the run. -/
def fed (now : Int) (m : Node D) (silences : ℕ → Silence) (i : ℕ) : Silence :=
  if ∃ frame ∈ m.rxQueue, slotOf frame m.rx = some i then ⟨(silences i).timeout, now, []⟩ else silences i

def RawReports (m : Node D) (silences : ℕ → Silence) : Prop :=
  (∀ i, ReportedOnce (silences i)) ∧
    ∀ now, (runNode now m).Yields fun _ exchanges => ∃ received sent,
      exchanges = received ++ ((losses now (fed now m silences) m.rx).flatMap timeoutExchanges ++ sent) ∧
        (∀ exchange ∈ received, IsReceive exchange.1) ∧ ∀ exchange ∈ sent, IsSend exchange.1

theorem afterAll_feeds (now : Int) (m : Node D) (silences : ℕ → Silence) (timer : Timer) (i : ℕ) :
    (silences i).afterAll timer (feeds now m.rxQueue m.rx i) = fed now m silences i := by
  unfold feeds fed
  rw [silence_afterAll_feeds]
  simp only [List.filter_eq_nil_iff, decide_eq_true_eq]
  by_cases addressed : ∃ frame ∈ m.rxQueue, slotOf frame m.rx = some i
  · rw [if_pos addressed, if_neg (by simpa using addressed)]
  · rw [if_neg addressed, if_pos (by simpa using addressed)]

theorem raw_reports {options : NodeOptions} {m : Node D} {silences : ℕ → Silence}
    (watches : ∀ i, (rawMonitor options).Watches m i (silences i)) : RawReports m silences := by
  refine ⟨fun i => reported_once (watches i).reported, fun now => ?_⟩
  refine yields_mono (runNode_yields now m) fun after exchanges outcome => ?_
  obtain ⟨rx, received, sent, rfl, runs⟩ := outcome
  have follows (i : ℕ) : Follows (timerAt RxSlot.toTimer rx i) (fed now m silences i) := by
    rw [runs.timers, ← afterAll_feeds now m silences (timerAt RxSlot.toTimer m.rx i)]
    exact (follows_afterAll ((watches i).follows trivial) (watches i).reported _).1
  have due : (rx.filter fun s => s.due now) = losses now (fed now m silences) rx :=
    due_losses fun i s present => timerAt_some RxSlot.toTimer present ▸ follows i
  refine ⟨received, sent, ?_, runs.received, runs.sent⟩
  have calls (list : List (RxSlot D)) : list.flatMap timeoutExchanges = (list.map kept).flatMap fun s =>
      s.2.2.2.toList.flatMap fun handler => [⟨.timeout handler, ()⟩] := by
    rw [List.flatMap_map]
    rfl
  rw [due, calls, calls, losses_map, losses_map, runs.same]

theorem raw_initial (options : NodeOptions) (i : ℕ) :
    (rawMonitor options).Watches ({} : Node D) i {} where
  timeout := rfl
  follows := fun _ => follows_fresh 0 0
  reported := reported_fresh 0 0

end Raw

/-! ## EMCY frames -/

section Emcy
open CanopenServices CanopenServer CanopenDispatch NmtDispatch

variable {V : Type} {options : Options} {dictionary : List (ObjectDictionary.OdEntry V)}

/-- An EMCY frame that is sent, or fails to be. -/
def IsEmcy : Effect D → Bool
  | .send .emcy _ => true
  | _ => false

/-- The EMCY frames among the exchanges of a server. -/
def emcyFrames (exchanges : Exchanges D) : List (Effect D) := (exchanges.map (·.1)).filter IsEmcy

/-- A run tries to send as many EMCY frames as the tick of the received process data counts. -/
def Emits (options : Options) (server : Server V D) (exchanges : Exchanges D) : Prop :=
  ∃ now middle dispatched, Batch options server.rxQueue { server with rxQueue := [] } middle dispatched ∧
    (RpdoConsumer.tick now middle.nmtState middle.rpdo).Yields fun result timeouts =>
      ∃ rest, exchanges = ⟨.clock, now⟩ :: (dispatched ++ (timeouts ++ rest)) ∧
        emcyFrames exchanges = List.replicate result.1 (timeoutFrame options)

theorem emcyFrames_append (first second : Exchanges D) :
    emcyFrames (first ++ second) = emcyFrames first ++ emcyFrames second := by
  simp only [emcyFrames, List.map_append, List.filter_append]

theorem emcys_none {exchanges : Exchanges D} (none : ∀ exchange ∈ exchanges, IsEmcy exchange.1 = false) :
    emcyFrames exchanges = [] := filter_effects_none none

theorem answers_emcy {effect : Effect D} (answers : Answers effect) : IsEmcy effect = false := by
  cases effect with
  | send sender frame => exact answers.elim
  | _ => rfl

theorem later_emcy {state : NmtState} {effect : Effect D} (later : Later state effect) :
    IsEmcy effect = false := by
  cases effect with
  | send sender frame =>
    cases sender with
    | emcy => exact absurd rfl later.1
    | _ => rfl
  | _ => rfl

theorem timeouts_emcy (slots : List (RpdoSlot D)) :
    ∀ exchange ∈ slots.flatMap timeoutCalls, IsEmcy exchange.1 = false := by
  intro exchange member
  obtain ⟨handler, same⟩ := timeoutCalls_effect member
  rw [same]
  rfl

theorem run_emits (server : Server V D) :
    (runServer options dictionary server).Yields fun _ exchanges => Emits options server exchanges := by
  refine yields_bind.mpr fun now => ?_
  have batch := dispatchAll_batch options dictionary server.rxQueue { server with rxQueue := [] }
  refine yields_bind.mpr (yields_mono batch fun middle dispatched holds => ?_)
  refine yields_mono (tickServices_yields now middle) fun after exchanges outcome => ?_
  obtain ⟨emcys, rest, rfl, ticks⟩ := outcome
  refine ⟨now, middle, dispatched, holds.1, ?_⟩
  refine yields_mono (rpdoTick_yields now middle.nmtState middle.rpdo) fun result timeouts ticked => ?_
  obtain ⟨count, _, rfl⟩ := ticked
  refine ⟨emcys ++ rest, rfl, ?_⟩
  have all : emcyFrames emcys = List.replicate result.1 (timeoutFrame options) := by
    unfold emcyFrames
    rw [ticks.emcys, ← count]
    exact List.filter_eq_self.mpr fun effect member => (List.mem_replicate.mp member).2 ▸ rfl
  show emcyFrames (dispatched ++ _) = _
  rw [emcyFrames_append, emcyFrames_append, emcyFrames_append, all,
    emcys_none fun exchange member => answers_emcy (holds.2 exchange member),
    emcys_none (timeouts_emcy _), emcys_none fun exchange member => later_emcy (ticks.rest exchange member)]
  simp only [List.nil_append, List.append_nil]

end Emcy

/-! ## All three -/

/-- Whatever the operations of a monitor and their times: each silence is reported by the first
tick that sees that it is too long, and by no other, and a tick calls back for exactly the
silences that are too long and have not been reported. A run of a server tries to send one EMCY
frame for each that the tick of the received process data counts. -/
theorem losses_reported_once :
    (∀ (node : NodeId) (count : ℕ) (operations : List (RpdoOperation count D)),
      ((rpdoMonitor node count).watch operations (.initial count) fun _ => {}).Yields fun watched _ =>
        RpdoReports watched.1 watched.2) ∧
    (∀ operations : List (HbOperation D),
      (hbMonitor.watch operations [] fun _ => {}).Yields fun watched _ => HbReports watched.1 watched.2) ∧
    (∀ (options : RawNode.NodeOptions) (operations : List (RawOperation D)),
      ((rawMonitor options).watch operations {} fun _ => {}).Yields fun watched _ => RawReports watched.1 watched.2) ∧
    ∀ (V : Type) (options : CanopenServer.Options) (dictionary : List (ObjectDictionary.OdEntry V))
      (server : CanopenServer.Server V D),
      (CanopenServer.runServer options dictionary server).Yields fun _ exchanges => Emits options server exchanges := by
  refine ⟨fun node count operations => ?_, fun operations => ?_, fun options operations => ?_,
    fun V options dictionary => run_emits⟩
  · exact yields_mono (watch_yields rpdo_lawful operations _ _ rpdo_initial) fun watched _ => rpdo_reports
  · exact yields_mono (watch_yields hb_lawful operations _ _ hb_initial) fun watched _ => hb_reports
  · exact yields_mono (watch_yields (raw_lawful options) operations _ _ (raw_initial options)) fun watched _ => raw_reports

end Emblib.LivenessMonitors
