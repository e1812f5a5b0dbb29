import Mathlib.Algebra.Ring.Nat
import Mathlib.Data.List.FinRange
import Mathlib.Logic.Function.Basic

/-! `trouble::registry` and `trouble::registry_mirror`: for each level a set of the statuses
that are active at it. An index outside of an array, a bit outside of a bitset and an
overflow of a signed counter have no result. -/
namespace Emblib.Trouble

/-! ## `double_buffer` -/

structure DoubleBuffer (T : Type) where
  buf : Fin 2 → T
  front : Fin 2

def DoubleBuffer.store (buffer : DoubleBuffer T) (value : T) : DoubleBuffer T :=
  let back := 1 - buffer.front
  { buf := Function.update buffer.buf back value, front := back }

def DoubleBuffer.load (buffer : DoubleBuffer T) : T := buffer.buf buffer.front

@[simp] theorem load_store (buffer : DoubleBuffer T) (value : T) : (buffer.store value).load = value :=
  Function.update_self _ _ _

/-! ## `std::bitset` -/

def bitSet (flags : BitVec n) (pos : Nat) : Option (BitVec n) :=
  if pos < n then some (flags ||| BitVec.twoPow n pos) else none

def bitReset (flags : BitVec n) (pos : Nat) : Option (BitVec n) :=
  if pos < n then some (flags &&& ~~~BitVec.twoPow n pos) else none

def bitTest (flags : BitVec n) (pos : Nat) : Option Bool :=
  if pos < n then some (flags.getLsbD pos) else none

def bitAny (flags : BitVec n) : Bool := flags != 0

/-- `bitSet` and `bitReset` give one bit a value and leave the others alone. -/
def Assigns (bit : BitVec n → Nat → Option (BitVec n)) (value : Bool) : Prop :=
  ∀ flags pos, pos < n → ∃ after, bit flags pos = some after ∧
    ∀ j, after.getLsbD j = if j = pos then value else flags.getLsbD j

theorem bitSet_assigns : Assigns (n := n) bitSet true := by
  refine fun flags pos inside => ⟨_, if_pos inside, fun j => ?_⟩
  by_cases here : j = pos
  · simp [here, inside]
  · simp [here, Ne.symm here]

theorem bitReset_assigns : Assigns (n := n) bitReset false := by
  refine fun flags pos inside => ⟨_, if_pos inside, fun j => ?_⟩
  by_cases here : j = pos
  · simp [here, inside]
  · by_cases below : j < n
    · simp [here, below]
    · simp [here, Nat.le_of_not_lt below]

theorem bitAny_iff (flags : BitVec n) : bitAny flags = true ↔ ∃ j, j < n ∧ flags.getLsbD j = true := by
  constructor
  · intro any
    by_contra none
    refine (bne_iff_ne.mp any) (BitVec.eq_of_getLsbD_eq fun j below => ?_)
    have inactive : flags.getLsbD j = false := Bool.eq_false_iff.mpr fun active => none ⟨j, below, active⟩
    simpa using inactive
  · rintro ⟨j, _, active⟩
    refine bne_iff_ne.mpr fun zero => ?_
    rw [zero] at active
    exact absurd active (by simp)

/-! ## Statuses and levels -/

/-- The underlying type of the enumeration `Level`, in two's complement. -/
structure Underlying where
  bits : Nat
  signed : Bool
  positive : 0 < bits

def Underlying.lowest (type : Underlying) : Int :=
  if type.signed then -((2 ^ (type.bits - 1) : Nat) : Int) else 0

def Underlying.highest (type : Underlying) : Int :=
  if type.signed then ((2 ^ (type.bits - 1) : Nat) : Int) - 1 else ((2 ^ type.bits : Nat) : Int) - 1

/-- `++l`. From `int` on a signed counter must not overflow; a narrower one is computed as an
`int` and converted back. -/
def Underlying.increment (type : Underlying) (l : Int) : Option Int :=
  if l < type.highest then some (l + 1)
  else if type.signed ∧ 32 ≤ type.bits then none
  else some type.lowest

/-- `static_cast<Level>` of an integer. -/
def Underlying.cast (type : Underlying) (value : Int) : Int :=
  (value - type.lowest) % ((2 ^ type.bits : Nat) : Int) + type.lowest

/-- `type_index`, the position of the first occurrence. -/
def typeIndex [DecidableEq S] (t : S) : List S → Option Nat
  | [] => none
  | u :: rest => if t = u then some 0 else (typeIndex t rest).map (1 + ·)

/-- The template arguments of a registry, as its `static_assert`s check them. A level is
named by the value of its enumerator. -/
structure Config (S : Type) [DecidableEq S] where
  underlying : Underlying
  statuses : List S
  levelMin : S → Int
  levelMax : S → Int
  levelCount : Nat
  enumerators : ∀ s ∈ statuses, underlying.lowest ≤ levelMin s ∧ levelMax s ≤ underlying.highest
  unique : statuses.Nodup
  validLevelRanges : ∀ s ∈ statuses, levelMin s ≤ levelMax s
  levelsWithin : ∀ s ∈ statuses, levelMax s < levelCount
  statusCount : statuses.length ≤ 256

section Registry
variable {S : Type} [DecidableEq S]

/-- `valid_level`. -/
def Config.Valid (config : Config S) (s : S) (l : Int) : Prop :=
  s ∈ config.statuses ∧ config.levelMin s ≤ l ∧ l ≤ config.levelMax s

/-- `id_of`, a conversion to an 8-bit integer. -/
def Config.idOf (config : Config S) (s : S) : Option Nat := (typeIndex s config.statuses).map (· % 256)

abbrev Config.Flags (config : Config S) := BitVec config.statuses.length

/-- An index into an array of `LevelCount` elements. -/
def Config.index (config : Config S) (l : Int) : Option (Fin config.levelCount) :=
  if inside : 0 ≤ l ∧ l < config.levelCount then some ⟨l.toNat, by omega⟩ else none

/-! ## `registry` -/

structure Registry (config : Config S) where
  shadow : Fin config.levelCount → config.Flags
  flags : Fin config.levelCount → DoubleBuffer config.Flags

variable {config : Config S}

def Registry.initial (config : Config S) : Registry config where
  shadow := fun _ => 0
  flags := fun _ => ⟨fun _ => 0, 0⟩

/-- Change the bit of a status in the shadow of a level and publish the shadow. -/
def change (bit : config.Flags → Nat → Option config.Flags) (s : S) (l : Int)
    (registry : Registry config) :
    Option (Registry config) := do
  let i ← config.index l
  let id ← config.idOf s
  let shadow ← bit (registry.shadow i) id
  return {
    shadow := Function.update registry.shadow i shadow
    flags := Function.update registry.flags i ((registry.flags i).store shadow) }

/-- `set<S, Lvl>`. -/
def set (s : S) (l : Int) (registry : Registry config) : Option (Registry config) :=
  change bitSet s l registry

/-- `reset<S, Lvl>`. -/
def resetLevel (s : S) (l : Int) (registry : Registry config) : Option (Registry config) :=
  change bitReset s l registry

/-- The loop in `reset<S>`, for at most so many rounds. -/
def resetLoop : Nat → S → Int → Int → Registry config → Option (Registry config)
  | 0, _, _, _, _ => none
  | fuel + 1, s, l, hi, registry =>
    if l ≤ hi then do
      let registry ← change bitReset s l registry
      resetLoop fuel s (← config.underlying.increment l) hi registry
    else some registry

/-- `reset<S>`. -/
def reset (fuel : Nat) (s : S) (registry : Registry config) : Option (Registry config) :=
  if config.levelMin s = config.levelMax s then resetLevel s (config.levelMin s) registry
  else resetLoop fuel s (config.levelMin s) (config.levelMax s) registry

/-- `test<S, Lvl>`. -/
def testLevel (s : S) (l : Int) (registry : Registry config) : Option Bool := do
  let i ← config.index l
  let id ← config.idOf s
  bitTest (registry.flags i).load id

/-- The loop in `test<S>`, for at most so many rounds. -/
def testLoop : Nat → S → Int → Int → Registry config → Option Bool
  | 0, _, _, _, _ => none
  | fuel + 1, s, l, hi, registry =>
    if l ≤ hi then do
      if ← testLevel s l registry then some true
      else testLoop fuel s (← config.underlying.increment l) hi registry
    else some false

/-- `test<S>`. -/
def test (fuel : Nat) (s : S) (registry : Registry config) : Option Bool :=
  if config.levelMin s = config.levelMax s then testLevel s (config.levelMin s) registry
  else testLoop fuel s (config.levelMin s) (config.levelMax s) registry

/-- `flags(lvl)`. -/
def flags (l : Int) (registry : Registry config) : Option config.Flags :=
  (config.index l).map fun i => (registry.flags i).load

/-- `any(lvl)`. -/
def anyLevel (l : Int) (registry : Registry config) : Option Bool := (flags l registry).map bitAny

/-- `any()`. -/
def any (registry : Registry config) : Bool :=
  (List.finRange config.levelCount).any fun i => bitAny (registry.flags i).load

def clear (registry : Registry config) : Registry config where
  shadow := fun _ => 0
  flags := fun i => (registry.flags i).store 0

/-! ## `registry_mirror` -/

abbrev Mirror (config : Config S) := Fin config.levelCount → config.Flags

namespace Mirror

def initial (config : Config S) : Mirror config := fun _ => 0

def store (l : Int) (flags : config.Flags) (mirror : Mirror config) : Option (Mirror config) :=
  (config.index l).map fun i => Function.update mirror i flags

/-- `test<S>(lvl)`. -/
def testLevel (s : S) (l : Int) (mirror : Mirror config) : Option Bool := do
  let i ← config.index l
  let id ← config.idOf s
  bitTest (mirror i) id

/-- The loop in `test<S>()`, over the levels that are left. -/
def testLoop (mirror : Mirror config) (id : Nat) : List (Fin config.levelCount) → Option Bool
  | [] => some false
  | i :: rest => do
    if ← bitTest (mirror i) id then some true
    else testLoop mirror id rest

/-- `test<S>()`. -/
def test (s : S) (mirror : Mirror config) : Option Bool := do
  testLoop mirror (← config.idOf s) (List.finRange config.levelCount)

/-- `any(lvl)`. -/
def anyLevel (l : Int) (mirror : Mirror config) : Option Bool :=
  (config.index l).map fun i => bitAny (mirror i)

/-- `any()`. -/
def any (mirror : Mirror config) : Bool :=
  (List.finRange config.levelCount).any fun i => bitAny (mirror i)

/-- The loop in `worst`, from so many levels down. -/
def worstLoop (mirror : Mirror config) : (l : Nat) → l ≤ config.levelCount → Option Int
  | 0, _ => none
  | l + 1, inside =>
    if bitAny (mirror ⟨l, inside⟩) then some (config.underlying.cast l)
    else worstLoop mirror l (Nat.le_of_succ_le inside)

def worst (mirror : Mirror config) : Option Int := worstLoop mirror config.levelCount le_rfl

def clear (config : Config S) : Mirror config := fun _ => 0

end Mirror

end Registry

end Emblib.Trouble
