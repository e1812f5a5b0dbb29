import Emblib.Library.Pacer
import Emblib.Library.Program

/-! Slots that send in periods. A slot asks its provider for a payload when its period is over, and offers it
to a receiver that takes it or not. The channel of a slot is what its configuration and its exchanges tell,
without the times that the slot remembers. -/
namespace Emblib.Pacers
open Programs

variable {E A D P S : Type} {R : E → Type}

/-! ## Slots -/

structure Slot (A D : Type) where
  address : A
  provider : Option D
  period : Int
  lastTx : Int

/-- A slot without a provider is switched off. -/
def Slot.pacer (s : Slot A D) : Pacer := ⟨if s.provider.isSome then s.period else 0, s.lastTx⟩

/-- How a payload is asked for and offered, and what is exchanged by that. -/
structure Line (E : Type) (R : E → Type) (A D P : Type) where
  offer : A → D → Program E R (P × Bool)
  exchanges : A → D → P × Bool → List (Sigma R)
  exact : ∀ address provider,
    (offer address provider).Yields fun offered told => told = exchanges address provider offered

/-- Whether the slot has sent something. -/
def Slot.tick (line : Line E R A D P) (now : Int) (s : Slot A D) : Program E R Bool :=
  match s.provider with
  | none => return false
  | some provider => do
    if s.period = 0 then return false
    if now - s.lastTx < s.period then return false
    let offered ← line.offer s.address provider
    return offered.2

def Slot.ticked (now : Int) (s : Slot A D) (sent : Bool) : Slot A D := if sent then { s with lastTx := now } else s

/-! ## Channels -/

/-- A slot offers nothing, or the payload that it is provided with; the receiver takes it or not. -/
abbrev Offer (P : Type) := Option (P × Bool)

def Offer.outcome (offer : Offer P) : Outcome := offer.map (·.2)

/-- A slot as it is configured, and what it has sent since. -/
structure Channel (A D : Type) where
  address : A
  provider : Option D := none
  emission : Emission := {}

def Channel.configured (address : A) (provider : Option D) (period now : Int) : Channel A D where
  address := address
  provider := provider
  emission := ⟨if provider.isSome then period else 0, now, []⟩

def Channel.exchanges (line : Line E R A D P) (channel : Channel A D) : Offer P → List (Sigma R)
  | none => []
  | some offered => channel.provider.toList.flatMap fun provider => line.exchanges channel.address provider offered

def Channel.ticked (now : Int) (channel : Channel A D) (offer : Offer P) : Channel A D :=
  { channel with emission := channel.emission.after (.tick now offer.outcome) }

/-- What several slots exchange one after the other. -/
def exchangesOf (line : Line E R A D P) (channels : List (Channel A D)) (offers : List (Offer P)) : List (Sigma R) :=
  (List.zipWith (Channel.exchanges line) channels offers).flatten

def tickedAll (now : Int) (channels : List (Channel A D)) (offers : List (Offer P)) : List (Channel A D) :=
  List.zipWith (Channel.ticked now) channels offers

/-- The slot and its channel are of one configuration, and the slot remembers what it has to. -/
structure Shows (s : Slot A D) (channel : Channel A D) : Prop where
  address : s.address = channel.address
  provider : s.provider = channel.provider
  knows : Knows s.pacer channel.emission
  keeps : channel.emission.Keeps

variable {line : Line E R A D P} {s : Slot A D} {channel : Channel A D}

theorem exchangesOf_cons (line : Line E R A D P) (channel : Channel A D) (channels : List (Channel A D))
    (offer : Offer P) (offers : List (Offer P)) :
    exchangesOf line (channel :: channels) (offer :: offers) =
      channel.exchanges line offer ++ exchangesOf line channels offers := by
  rw [exchangesOf, List.zipWith_cons_cons, List.flatten_cons, exchangesOf]

theorem shows_configured (address : A) (provider : Option D) (period now : Int) :
    Shows ⟨address, provider, period, now⟩ (.configured address provider period now) :=
  ⟨rfl, rfl, knows_fresh _ now, keeps_fresh _ now⟩

/-- The slot is asked for a payload if it is due, and offers it. -/
theorem tick_yields (shows : Shows s channel) (line : Line E R A D P) (now : Int) :
    (s.tick line now).Yields fun sent exchanges => ∃ offer : Offer P,
      exchanges = channel.exchanges line offer ∧ Shows (s.ticked now sent) (channel.ticked now offer) := by
  have idle (quiet : s.pacer.due now = false) : Shows s (channel.ticked now (none : Offer P)) := by
    have rightly : (none : Outcome) ≠ none ↔ s.pacer.due now = true := by simp [quiet]
    obtain ⟨knows, keeps⟩ := keeps_tick shows.knows shows.keeps rightly
    exact ⟨shows.address, shows.provider, knows, keeps⟩
  unfold Slot.tick
  cases provider : s.provider with
  | none =>
    refine ⟨none, rfl, idle ?_⟩
    simp [Pacer.due, Slot.pacer, provider]
  | some handler =>
    have provided : channel.provider = some handler := shows.provider.symm.trans provider
    dsimp only
    split
    · rename_i off
      refine ⟨none, rfl, idle ?_⟩
      simp [Pacer.due, Slot.pacer, off]
    · rename_i on
      split
      · rename_i early
        refine ⟨none, rfl, idle ?_⟩
        simp [Pacer.due, Slot.pacer, provider, early]
      · rename_i elapsed
        have due : s.pacer.due now = true := by
          simp only [Pacer.due, Slot.pacer, provider, Option.isSome_some, if_true, on, decide_false, Bool.not_false,
            Int.not_lt.mp elapsed, decide_true, Bool.and_self]
        refine yields_bind.mpr (yields_mono (line.exact s.address handler) fun offered told same => ?_)
        refine ⟨some offered, ?_, ?_⟩
        · rw [List.append_nil, same, Channel.exchanges, provided, Option.toList_some, List.flatMap_singleton,
            shows.address]
        · have rightly : some offered.2 ≠ none ↔ s.pacer.due now = true :=
            iff_of_true (Option.some_ne_none _) due
          obtain ⟨knows, keeps⟩ := keeps_tick shows.knows shows.keeps rightly
          obtain ⟨payload, sent⟩ := offered
          cases sent with
          | false => exact ⟨shows.address, shows.provider, knows, keeps⟩
          | true => exact ⟨shows.address, shows.provider, knows, keeps⟩

/-- A loop that ticks its slots one after the other, and notes in each of them when it has sent. -/
theorem ticks_yields {slotOf : S → Slot A D} {tick : S → Program E R S} {loop : List S → Program E R (List S)}
    {note : S → Bool → S} {now : Int} (noted : ∀ s sent, slotOf (note s sent) = (slotOf s).ticked now sent)
    (ticks : ∀ s, tick s = do return note s (← (slotOf s).tick line now))
    (nil : loop [] = .pure [])
    (cons : ∀ s rest, loop (s :: rest) = do
      let s ← tick s
      return s :: (← loop rest))
    {slots : List S} {channels : List (Channel A D)}
    (shows : List.Forall₂ (fun s => Shows (slotOf s)) slots channels) :
    (loop slots).Yields fun after exchanges => ∃ offers : List (Offer P), offers.length = channels.length ∧
      exchanges = exchangesOf line channels offers ∧
      List.Forall₂ (fun s => Shows (slotOf s)) after (tickedAll now channels offers) := by
  induction shows with
  | nil =>
    rw [nil]
    exact ⟨[], rfl, rfl, .nil⟩
  | @cons slot channel rest channels first shows ih =>
    rw [cons, ticks]
    refine yields_bind.mpr (yields_bind.mpr (yields_mono (tick_yields first line now) fun sent own told => ?_))
    refine yields_bind.mpr (yields_mono ih fun slots others said => ?_)
    obtain ⟨offer, rfl, showing⟩ := told
    obtain ⟨offers, complete, rfl, all⟩ := said
    refine ⟨offer :: offers, congrArg (· + 1) complete, ?_, .cons (noted slot sent ▸ showing) all⟩
    rw [exchangesOf_cons, List.append_nil, List.append_nil]

end Emblib.Pacers
