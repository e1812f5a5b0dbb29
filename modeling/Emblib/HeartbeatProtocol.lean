import Mathlib.Data.Finset.Dedup
import Mathlib.Data.Finset.Max
import Emblib.PacedProducers

/-! The heartbeat protocol of two nodes: one produces heartbeats and another watches them. The bus
between them takes the frames and hands each over some time later, in any order. -/
namespace Emblib.HeartbeatProtocol
open Programs Runs Watchdogs Pacers Can CanopenServices CanopenDispatch PacedProducers

variable {D : Type}

/-- The producer of one node, the frames that are on their way with the times at which they were
taken, and the watches of the other node. -/
structure Network (D : Type) where
  now : Int
  producer : Producer
  ticked : Int
  bus : List (Int × Frame)
  watches : List (WatchSlot D)

/-- The producer's node is given time at least so often that a frame which is due is taken, and
a frame is on its way for at most so long. -/
structure Bounds where
  gap : ℕ
  delay : ℕ

inductive Action (D : Type) where
  | produce (state : NmtState)
  | deliver (i : ℕ)
  | receive (frame : Frame)
  | check
  | watch (remote : NodeId) (timeout : Int) (onLost : Option D)

structure Label (D : Type) where
  action : Action D
  time : Int
  exchanges : Exchanges D

/-- The clock does not go back, and the bounds have been met up to this time. -/
structure Timely (bounds : Bounds) (net : Network D) (time : Int) : Prop where
  monotone : net.now ≤ time
  active : time ≤ net.ticked + bounds.gap
  prompt : ∀ sent ∈ net.bus, time ≤ sent.1 + bounds.delay

/-- The frames that the bus has taken. -/
def taken (time : Int) (exchanges : Exchanges D) : List (Int × Frame) :=
  exchanges.filterMap fun
    | ⟨.send _ frame, sent⟩ => if sent then some (time, frame) else none
    | _ => none

/-- The bus has refused a frame. -/
def refused (exchanges : Exchanges D) : Bool :=
  exchanges.any fun
    | ⟨.send _ _, sent⟩ => !sent
    | _ => false

/-- A frame that the consumer receives from another node can have any identifier. -/
inductive Step (bounds : Bounds) (node : NodeId) (net : Network D) : Label D → Network D → Prop where
  | produce (timely : Timely bounds net time)
      (executes : (Producer.tickHeartbeat node time state net.producer).Executes exchanges after) :
      Step bounds node net ⟨.produce state, time, exchanges⟩
        { net with
          now := time
          producer := after
          ticked := if refused exchanges then net.ticked else time
          bus := net.bus ++ taken time exchanges }
  | deliver (timely : Timely bounds net time) (waits : net.bus[i]? = some sent) :
      Step bounds node net ⟨.deliver i, time, []⟩
        { net with
          now := time
          bus := net.bus.eraseIdx i
          watches := (HbConsumer.tryHandle sent.2 time net.watches).2 }
  | receive (timely : Timely bounds net time) :
      Step bounds node net ⟨.receive frame, time, []⟩
        { net with now := time, watches := (HbConsumer.tryHandle frame time net.watches).2 }
  | check (timely : Timely bounds net time)
      (executes : (HbConsumer.tick time net.watches).Executes exchanges after) :
      Step bounds node net ⟨.check, time, exchanges⟩ { net with now := time, watches := after }
  | watch (timeout : Int) (timely : Timely bounds net time)
      (executes : (HbConsumer.watch remote timeout onLost time net.watches).Executes exchanges (done, after)) :
      Step bounds node net ⟨.watch remote timeout onLost, time, exchanges⟩ { net with now := time, watches := after }

/-- The producer has been given a period, and nobody watches it yet. -/
def initial (period start : Int) : Network D where
  now := start
  producer := Producer.setPeriod period start
  ticked := start
  bus := []
  watches := []

/-! ## What a watch has heard -/

/-- The watch of the node has heard each frame that is no longer on its way, and frames have been
taken so often that it will not become too old. The frames on their way were taken at these times. -/
structure Heard (bounds : Bounds) (period now last : Int) (times : List Int) (w : WatchSlot D) : Prop where
  patient : w.timeout = 0 ∨ period + bounds.gap + bounds.delay ≤ w.timeout
  unreported : w.timedOut = false
  past : w.lastRx ≤ now
  last : last ∈ times ∨ last ≤ w.lastRx
  earlier : ∀ time ∈ times, ∃ before, time - before < period + bounds.gap ∧
    (before < time ∧ before ∈ times ∨ before ≤ w.lastRx)

/-- The watches are those of distinct nodes. -/
structure Distinct (watches : List (WatchSlot D)) : Prop where
  own : ∀ w ∈ watches, w.cobId = peerCobId .heartbeat w.remote
  distinct : (watches.map (·.cobId)).Nodup

structure Alive (bounds : Bounds) (node : NodeId) (period : Int) (net : Network D) : Prop where
  paced : net.producer.period = period
  recent : net.ticked - net.producer.lastTx < period
  past : ∀ sent ∈ net.bus, sent.1 ≤ net.now
  lastPast : net.producer.lastTx ≤ net.now
  frames : ∀ sent ∈ net.bus, sent.2.id = peerCobId .heartbeat node
  watches : Distinct net.watches
  heard : ∀ w ∈ net.watches, w.cobId = peerCobId .heartbeat node →
    Heard bounds period net.now net.producer.lastTx (net.bus.map (·.1)) w

variable {bounds : Bounds} {node : NodeId} {period now last time : Int} {times : List Int} {net : Network D}
  {w : WatchSlot D}

/-- The watch is younger than its timeout: the oldest frame on its way has a predecessor, which
has been heard. -/
theorem heard_young (active : time - last < period + bounds.gap) (prompt : ∀ sent ∈ times, time ≤ sent + bounds.delay)
    (heard : Heard bounds period now last times w) : time - w.lastRx < period + bounds.gap + bounds.delay := by
  by_cases empty : times = []
  · rcases heard.last with waits | reached
    · rw [empty] at waits
      exact nomatch waits
    · omega
  · obtain ⟨sent, member⟩ := List.exists_mem_of_ne_nil _ empty
    obtain ⟨oldest, among, least⟩ := Finset.exists_min_image times.toFinset id ⟨sent, List.mem_toFinset.mpr member⟩
    have waits := List.mem_toFinset.mp among
    obtain ⟨before, near, reached⟩ := heard.earlier oldest waits
    have behind : before ≤ w.lastRx := by
      refine reached.resolve_left fun younger => ?_
      exact Int.not_le.mpr younger.1 (least before (List.mem_toFinset.mpr younger.2))
    have arrives := prompt oldest waits
    omega

theorem heard_quiet (active : time - last < period + bounds.gap) (prompt : ∀ sent ∈ times, time ≤ sent + bounds.delay)
    (heard : Heard bounds period now last times w) : w.due time = false := by
  have young := heard_young active prompt heard
  unfold Timer.due
  rcases heard.patient with off | long
  · simp [off]
  · have early : ¬w.timeout ≤ time - w.lastRx := by omega
    simp [early]

/-- A watch that is restarted or fed now has heard everything. -/
theorem heard_now (past : ∀ sent ∈ times, sent ≤ now) (lastPast : last ≤ now) (positive : 0 < period)
    (recent : w.lastRx = now) (unreported : w.timedOut = false)
    (patient : w.timeout = 0 ∨ period + bounds.gap + bounds.delay ≤ w.timeout) :
    Heard bounds period now last times w where
  patient := patient
  unreported := unreported
  past := Int.le_of_eq recent
  last := .inr (recent ▸ lastPast)
  earlier := fun sent waits => ⟨sent, by omega, .inr (recent ▸ past sent waits)⟩

theorem heard_later (heard : Heard bounds period now last times w) (monotone : now ≤ time) :
    Heard bounds period time last times w :=
  { heard with past := heard.past.trans monotone }

/-- Another frame is taken. -/
theorem heard_taken (heard : Heard bounds period now last times w) (monotone : now ≤ time) (later : last < time)
    (active : time - last < period + bounds.gap) : Heard bounds period time time (times ++ [time]) w where
  patient := heard.patient
  unreported := heard.unreported
  past := heard.past.trans monotone
  last := .inl (List.mem_append_right _ (List.mem_singleton_self time))
  earlier := by
    intro sent waits
    rcases List.mem_append.mp waits with waits | new
    · obtain ⟨before, near, reached⟩ := heard.earlier sent waits
      exact ⟨before, near, reached.imp_left (And.imp_right (List.mem_append_left _))⟩
    · rw [List.mem_singleton.mp new]
      exact ⟨last, active, heard.last.imp_left fun waits => ⟨later, List.mem_append_left _ waits⟩⟩

/-! ## The watches -/

variable {watches : List (WatchSlot D)}

theorem distinct_modify (distinct : Distinct watches) (i : ℕ) (update : WatchSlot D → WatchSlot D)
    (cobId : ∀ w, (update w).cobId = w.cobId) (remote : ∀ w, (update w).remote = w.remote) :
    Distinct (watches.modify i update) where
  own := by
    intro w member
    obtain ⟨j, inside, rfl⟩ := List.mem_iff_getElem.mp member
    rw [List.length_modify] at inside
    rw [List.getElem_modify]
    have own := distinct.own watches[j] (List.getElem_mem inside)
    split
    · rw [cobId, remote, own]
    · exact own
  distinct := by
    rw [map_modify_same (·.cobId) cobId watches i]
    exact distinct.distinct

theorem tryHandle_distinct (distinct : Distinct watches) (frame : Frame) (now : Int) :
    Distinct (HbConsumer.tryHandle frame now watches).2 := by
  unfold HbConsumer.tryHandle
  cases HbConsumer.slotOf frame watches with
  | none => exact distinct
  | some i => exact distinct_modify distinct i _ (fun _ => rfl) fun _ => rfl

/-- Exactly the watch with the identifier of the frame is fed. -/
theorem mem_tryHandle (distinct : Distinct watches) {frame : Frame} {now : Int}
    (member : w ∈ (HbConsumer.tryHandle frame now watches).2) :
    w ∈ watches ∧ w.cobId ≠ frame.id ∨
      ∃ before ∈ watches, before.cobId = frame.id ∧ w = { before with lastRx := now, timedOut := false } := by
  unfold HbConsumer.tryHandle at member
  cases slot : HbConsumer.slotOf frame watches with
  | none =>
    rw [slot] at member
    have absent := List.findIdx?_eq_none_iff.mp slot w member
    exact .inl ⟨member, of_decide_eq_false absent⟩
  | some i =>
    rw [slot] at member
    obtain ⟨inside, found, _⟩ := List.findIdx?_eq_some_iff_getElem.mp slot
    have same : watches[i].cobId = frame.id := of_decide_eq_true found
    obtain ⟨j, bound, rfl⟩ := List.mem_iff_getElem.mp member
    rw [List.length_modify] at bound
    rw [List.getElem_modify]
    by_cases here : i = j
    · subst here
      rw [if_pos rfl]
      exact .inr ⟨watches[i], List.getElem_mem inside, same, rfl⟩
    · rw [if_neg here]
      refine .inl ⟨List.getElem_mem bound, fun other => here ?_⟩
      have left : i < (watches.map (·.cobId)).length := by rwa [List.length_map]
      have right : j < (watches.map (·.cobId)).length := by rwa [List.length_map]
      have equal : (watches.map (·.cobId))[i] = (watches.map (·.cobId))[j] := by
        rw [List.getElem_map, List.getElem_map, same, other]
      exact (List.Nodup.getElem_inj_iff distinct.distinct).mp equal

/-! ## Steps -/

theorem Alive.times_past (alive : Alive bounds node period net) (monotone : net.now ≤ time) :
    ∀ sent ∈ net.bus.map (·.1), sent ≤ time := by
  refine List.forall_mem_map.mpr fun sent member => ?_
  exact (alive.past sent member).trans monotone

theorem alive_receive (alive : Alive bounds node period net) (positive : 0 < period) (monotone : net.now ≤ time)
    (frame : Frame) :
    Alive bounds node period { net with now := time, watches := (HbConsumer.tryHandle frame time net.watches).2 } where
  paced := alive.paced
  recent := alive.recent
  past := fun sent member => (alive.past sent member).trans monotone
  lastPast := alive.lastPast.trans monotone
  frames := alive.frames
  watches := tryHandle_distinct alive.watches frame time
  heard := by
    intro w member watched
    rcases mem_tryHandle alive.watches member with ⟨among, _⟩ | ⟨before, among, _, rfl⟩
    · exact heard_later (alive.heard w among watched) monotone
    · refine heard_now (alive.times_past monotone) (alive.lastPast.trans monotone) positive rfl rfl ?_
      exact (alive.heard before among watched).patient

theorem alive_deliver (alive : Alive bounds node period net) (positive : 0 < period) (monotone : net.now ≤ time)
    {i : ℕ} {sent : Int × Frame} (waits : net.bus[i]? = some sent) :
    Alive bounds node period
      { net with
        now := time
        bus := net.bus.eraseIdx i
        watches := (HbConsumer.tryHandle sent.2 time net.watches).2 } where
  paced := alive.paced
  recent := alive.recent
  past := fun other member => (alive.past other (List.mem_of_mem_eraseIdx member)).trans monotone
  lastPast := alive.lastPast.trans monotone
  frames := fun other member => alive.frames other (List.mem_of_mem_eraseIdx member)
  watches := tryHandle_distinct alive.watches sent.2 time
  heard := by
    intro w member watched
    have id := alive.frames sent (List.mem_of_getElem? waits)
    -- The frame is one of the node, so its watch is the one that is fed.
    rcases mem_tryHandle alive.watches member with ⟨_, other⟩ | ⟨before, among, _, rfl⟩
    · exact absurd (watched.trans id.symm) other
    · have past : ∀ other ∈ (net.bus.eraseIdx i).map (·.1), other ≤ time :=
        List.forall_mem_map.mpr fun other member =>
          (alive.past other (List.mem_of_mem_eraseIdx member)).trans monotone
      refine heard_now past (alive.lastPast.trans monotone) positive rfl rfl ?_
      exact (alive.heard before among watched).patient

theorem taken_sends (time : Int) (sender : Sender) (frame : Frame) (outcome : Outcome) :
    taken time (sends (D := D) sender frame outcome) = if outcome = some true then [(time, frame)] else [] := by
  cases outcome with
  | none => rfl
  | some sent =>
    cases sent with
    | false => rfl
    | true => rfl

theorem refused_sends (sender : Sender) (frame : Frame) (outcome : Outcome) :
    refused (sends (D := D) sender frame outcome) = decide (outcome = some false) := by
  cases outcome with
  | none => rfl
  | some sent =>
    cases sent with
    | false => rfl
    | true => rfl

/-- A frame that is taken follows the one before it by less than a period and a gap. -/
theorem alive_produce (alive : Alive bounds node period net) (positive : 0 < period) (timely : Timely bounds net time)
    {state : NmtState} {exchanges : Exchanges D} {after : Producer}
    (executes : (Producer.tickHeartbeat node time state net.producer).Executes exchanges after) :
    Alive bounds node period
      { net with
        now := time
        producer := after
        ticked := if refused exchanges then net.ticked else time
        bus := net.bus ++ taken time exchanges } := by
  have monotone := timely.monotone
  have active := timely.active
  have recent := alive.recent
  have past (sent : Int × Frame) (member : sent ∈ net.bus) : sent.1 ≤ time :=
    (alive.past sent member).trans monotone
  have heard (w : WatchSlot D) (member : w ∈ net.watches) (watched : w.cobId = peerCobId .heartbeat node) :=
    heard_later (alive.heard w member watched) monotone
  obtain ⟨outcome, rfl, rightly, rfl⟩ := executes_yields executes
    (tickWith_outcome .heartbeat (heartbeatFrame node state) time net.producer)
  simp only [Pacer.due, alive.paced, Bool.and_eq_true, Bool.not_eq_true', decide_eq_false_iff_not,
    decide_eq_true_eq] at rightly
  rw [taken_sends, refused_sends]
  cases outcome with
  | none =>
    have early : ¬(¬period = 0 ∧ period ≤ time - net.producer.lastTx) := fun due => rightly.mpr due rfl
    have fresh : time - net.producer.lastTx < period := by omega
    show Alive bounds node period { net with now := time, ticked := time, bus := net.bus ++ [] }
    rw [List.append_nil]
    exact ⟨alive.paced, fresh, past, alive.lastPast.trans monotone, alive.frames, alive.watches, heard⟩
  | some sent =>
    obtain ⟨_, elapsed⟩ := rightly.mp (Option.some_ne_none sent)
    cases sent with
    | false =>
      show Alive bounds node period { net with now := time, bus := net.bus ++ [] }
      rw [List.append_nil]
      exact ⟨alive.paced, recent, past, alive.lastPast.trans monotone, alive.frames, alive.watches, heard⟩
    | true =>
      have positioned : (net.bus ++ [(time, heartbeatFrame node state)]).map (·.1) = net.bus.map (·.1) ++ [time] :=
        List.map_append
      have now : time - time < period := by omega
      refine ⟨alive.paced, now, ?_, Int.le_refl time, ?_, alive.watches, fun w member watched => ?_⟩
      · exact List.forall_mem_append.mpr ⟨past, List.forall_mem_singleton.mpr (Int.le_refl time)⟩
      · exact List.forall_mem_append.mpr ⟨alive.frames, List.forall_mem_singleton.mpr rfl⟩
      · show Heard bounds period time time ((net.bus ++ [(time, heartbeatFrame node state)]).map (·.1)) w
        rw [positioned]
        exact heard_taken (alive.heard w member watched) monotone (by omega) (by omega)

/-- Of the node nothing is reported. -/
def Quiet (node : NodeId) (exchanges : Exchanges D) : Prop :=
  ∀ exchange ∈ exchanges, ∀ handler, exchange.1 ≠ .lost handler node

theorem alive_check (alive : Alive bounds node period net) (timely : Timely bounds net time)
    {exchanges : Exchanges D} {after : List (WatchSlot D)} (executes : (HbConsumer.tick time net.watches).Executes exchanges after) :
    Alive bounds node period { net with now := time, watches := after } ∧ Quiet node exchanges := by
  have active := timely.active
  have recent := alive.recent
  have prompt : ∀ sent ∈ net.bus.map (·.1), time ≤ sent + bounds.delay := List.forall_mem_map.mpr timely.prompt
  have quiet (w : WatchSlot D) (member : w ∈ net.watches) (watched : w.cobId = peerCobId .heartbeat node) :
      w.due time = false := heard_quiet (by omega) prompt (alive.heard w member watched)
  obtain ⟨rfl, rfl⟩ := executes_yields executes (hbTick_yields net.watches)
  have cobId (w : WatchSlot D) : (if w.due time then { w with timedOut := true } else w).cobId = w.cobId := by
    split
    · rfl
    · rfl
  constructor
  · refine ⟨alive.paced, recent, fun sent member => (alive.past sent member).trans timely.monotone,
      alive.lastPast.trans timely.monotone, alive.frames, ⟨?_, ?_⟩, ?_⟩
    · refine List.forall_mem_map.mpr fun w member => ?_
      rw [cobId, alive.watches.own w member]
      split
      · rfl
      · rfl
    · have same : (WatchSlot.cobId ∘ fun w : WatchSlot D => if w.due time then { w with timedOut := true } else w) =
          WatchSlot.cobId := funext cobId
      rw [List.map_map, same]
      exact alive.watches.distinct
    · refine List.forall_mem_map.mpr fun w member watched => ?_
      rw [cobId] at watched
      rw [quiet w member watched]
      exact heard_later (alive.heard w member watched) timely.monotone
  · intro exchange member handler lost
    obtain ⟨w, reported, called⟩ := List.mem_flatMap.mp member
    obtain ⟨among, due⟩ := List.mem_filter.mp reported
    obtain ⟨other, _, called⟩ := List.mem_flatMap.mp called
    rw [List.mem_singleton.mp called] at lost
    obtain ⟨_, remote⟩ := Effect.lost.inj lost
    have watched : w.cobId = peerCobId .heartbeat node := by rw [alive.watches.own w among, remote]
    rw [quiet w among watched] at due
    exact Bool.false_ne_true due

/-- A watch is changed and started anew, or added if there is room. -/
theorem watch_outcome (remote : NodeId) (timeout : Int) (onLost : Option D) (now : Int) (distinct : Distinct watches) :
    (HbConsumer.watch remote timeout onLost now watches).Yields fun result exchanges =>
      Distinct result.2 ∧ (∀ exchange ∈ exchanges, ∃ id, exchange.1 = .addFilter id) ∧
        ∀ w ∈ result.2, w ∈ watches ∨ w.cobId = peerCobId .heartbeat remote ∧ w.timeout = timeout ∧
          w.lastRx = now ∧ w.timedOut = false := by
  unfold HbConsumer.watch
  dsimp only
  cases found : watches.findIdx? fun w => w.cobId = peerCobId .heartbeat remote with
  | some i =>
    refine ⟨distinct_modify distinct i _ (fun _ => rfl) fun _ => rfl, nofun, fun w member => ?_⟩
    obtain ⟨inside, same, _⟩ := List.findIdx?_eq_some_iff_getElem.mp found
    obtain ⟨j, bound, rfl⟩ := List.mem_iff_getElem.mp member
    rw [List.length_modify] at bound
    rw [List.getElem_modify]
    by_cases here : i = j
    · subst here
      rw [if_pos rfl]
      exact .inr ⟨of_decide_eq_true same, rfl, rfl, rfl⟩
    · rw [if_neg here]
      exact .inl (List.getElem_mem bound)
  | none =>
    dsimp only
    have absent (w : WatchSlot D) (member : w ∈ watches) : w.cobId ≠ peerCobId .heartbeat remote :=
      of_decide_eq_false (List.findIdx?_eq_none_iff.mp found w member)
    split
    · refine fun _ => ⟨⟨?_, ?_⟩, ?_, ?_⟩
      · exact List.forall_mem_append.mpr ⟨distinct.own, List.forall_mem_singleton.mpr rfl⟩
      · rw [List.map_append, List.map_singleton]
        refine List.nodup_append.mpr ⟨distinct.distinct, List.nodup_singleton _, ?_⟩
        intro id among other new same
        obtain ⟨w, member, rfl⟩ := List.mem_map.mp among
        rw [List.mem_singleton.mp new] at same
        exact absent w member same
      · exact List.forall_mem_singleton.mpr ⟨_, rfl⟩
      · intro w member
        refine (List.mem_append.mp member).imp_right fun new => ?_
        rw [List.mem_singleton.mp new]
        exact ⟨rfl, rfl, rfl, rfl⟩
    · exact ⟨distinct, nofun, fun w member => .inl member⟩

theorem alive_watch (alive : Alive bounds node period net) (positive : 0 < period) (monotone : net.now ≤ time)
    {remote : NodeId} {timeout : Int} {onLost : Option D} {done : Bool} {exchanges : Exchanges D}
    {after : List (WatchSlot D)}
    (executes : (HbConsumer.watch remote timeout onLost time net.watches).Executes exchanges (done, after))
    (patient : remote = node → timeout = 0 ∨ period + bounds.gap + bounds.delay ≤ timeout) :
    Alive bounds node period { net with now := time, watches := after } ∧ Quiet node exchanges := by
  obtain ⟨distinct, silent, watches⟩ := executes_yields executes
    (watch_outcome remote timeout onLost time alive.watches)
  constructor
  · refine ⟨alive.paced, alive.recent, fun sent member => (alive.past sent member).trans monotone,
      alive.lastPast.trans monotone, alive.frames, distinct, fun w member watched => ?_⟩
    rcases watches w member with among | ⟨cobId, timeout, recent, unreported⟩
    · exact heard_later (alive.heard w among watched) monotone
    · have same : remote = node := peerCobId_injective (cobId.symm.trans watched)
      refine heard_now (alive.times_past monotone) (alive.lastPast.trans monotone) positive recent unreported ?_
      rw [timeout]
      exact patient same
  · intro exchange member handler lost
    obtain ⟨id, filter⟩ := silent exchange member
    exact nomatch filter.symm.trans lost

/-- The other node has patience with this one: it waits for as long as the period, the gap and
the delay can take together. -/
def Patient (bounds : Bounds) (node : NodeId) (period : Int) (label : Label D) : Prop :=
  ∀ timeout onLost, label.action = .watch node timeout onLost →
    timeout = 0 ∨ period + bounds.gap + bounds.delay ≤ timeout

theorem alive_step (alive : Alive bounds node period net) (positive : 0 < period) {label : Label D} {after : Network D}
    (patient : Patient bounds node period label) (step : Step bounds node net label after) :
    Alive bounds node period after ∧ Quiet node label.exchanges := by
  cases step with
  | produce timely executes =>
    refine ⟨alive_produce alive positive timely executes, fun exchange member handler lost => ?_⟩
    obtain ⟨outcome, rfl, _⟩ := executes_yields executes (tickWith_outcome .heartbeat _ _ net.producer)
    obtain ⟨sent, _, rfl⟩ := List.mem_map.mp member
    exact nomatch lost
  | deliver timely waits => exact ⟨alive_deliver alive positive timely.monotone waits, nofun⟩
  | receive timely => exact ⟨alive_receive alive positive timely.monotone _, nofun⟩
  | check timely executes => exact alive_check alive timely executes
  | watch timeout timely executes =>
    refine alive_watch alive positive timely.monotone executes fun same => ?_
    subst same
    exact patient timeout _ rfl

theorem initial_alive (positive : 0 < period) (start : Int) :
    Alive bounds node period (initial (D := D) period start) where
  paced := rfl
  recent := by
    show start - start < period
    omega
  past := nofun
  lastPast := Int.le_refl start
  frames := nofun
  watches := ⟨nofun, List.nodup_nil⟩
  heard := nofun

/-- A node that is given time is never reported lost: as long as its frames are taken within a
gap and are on their way for no longer than a delay, a watch whose timeout is at least the
period, the gap and the delay together stays quiet, in whatever order the frames arrive. -/
theorem live_node_never_lost (positive : 0 < period) (start : Int) {labels : List (Label D)} {final : Network D}
    (run : Run (Step bounds node) (initial period start) labels final)
    (patient : ∀ label ∈ labels, Patient bounds node period label) :
    ∀ label ∈ labels, Quiet node label.exchanges := by
  have holds := run_invariant
    (fun labels net => (∀ label ∈ labels, Patient bounds node period label) →
      Alive bounds node period net ∧ ∀ label ∈ labels, Quiet node label.exchanges) run
    (fun _ => ⟨initial_alive positive start, nofun⟩)
    (fun labels middle label final _ before step patient => by
      obtain ⟨earlier, own⟩ := List.forall_mem_append.mp patient
      obtain ⟨alive, quiet⟩ := before earlier
      obtain ⟨after, silent⟩ := alive_step alive positive (own label (List.mem_singleton_self label)) step
      exact ⟨after, List.forall_mem_append.mpr ⟨quiet, List.forall_mem_singleton.mpr silent⟩⟩)
  exact (holds patient).2

/-- A heartbeat that is sent at 2, arrives at 3 and is checked then. -/
theorem live_node_never_lost_testing : ∃ labels final,
    Run (Step (D := Unit) ⟨1, 1⟩ NodeId.five) (initial 2 0) labels final ∧ labels.map (·.time) = [0, 1, 2, 3, 3] ∧
      ∀ label ∈ labels, Quiet NodeId.five label.exchanges := by
  have next {labels : List (Label Unit)} {middle final : Network Unit}
      (before : Run (Step ⟨1, 1⟩ NodeId.five) (initial 2 0) labels middle) (label : Label Unit)
      (step : Step ⟨1, 1⟩ NodeId.five middle label final) :
      Run (Step ⟨1, 1⟩ NodeId.five) (initial 2 0) (labels ++ [label]) final := .snoc before step
  have timely {net : Network Unit} {time : Int} (now : net.now ≤ time ∧ time ≤ net.ticked + 1 ∧
      ∀ sent ∈ net.bus, time ≤ sent.1 + 1) : Timely ⟨1, 1⟩ net time := ⟨now.1, now.2.1, now.2.2⟩
  have watched := next .nil ⟨.watch NodeId.five 4 (some ()), 0, _⟩
    (.watch 4 (timely (by decide)) ⟨(), [], rfl, rfl, rfl⟩)
  have idle := next watched ⟨.produce .operational, 1, _⟩ (.produce (timely (by decide)) ⟨rfl, rfl⟩)
  have sent := next idle ⟨.produce .operational, 2, _⟩ (.produce (timely (by decide)) ⟨true, [], rfl, rfl, rfl⟩)
  have delivered := next sent ⟨.deliver 0, 3, _⟩ (.deliver (timely (by decide)) rfl)
  have checked := next delivered ⟨.check, 3, _⟩ (.check (timely (by decide)) ⟨rfl, rfl⟩)
  refine ⟨_, _, checked, rfl, live_node_never_lost (by decide) 0 checked ?_⟩
  simp [Patient]
end Emblib.HeartbeatProtocol
