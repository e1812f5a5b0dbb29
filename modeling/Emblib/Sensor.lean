import Mathlib.Data.List.FinRange
import Mathlib.Logic.Function.Basic

/-! The sensor cores. A singlephase core prefilters, converts and filters each sample; a polyphase
core submits the components of a frame to as many singlephase cores. What the stages do and which
state they keep is left to them. -/
namespace Emblib.Sensor

/-- The calls of a prefilter, a converter and a filter, which may all change their own state. -/
structure Stages (P C F Sample Raw Value Output : Type) where
  prefilter : P → Sample → Raw × P
  convert : C → Raw → Value × C
  push : F → Value → F
  output : F → Output

structure Singlephase (P C F : Type) where
  prefilter : P
  converter : C
  filter : F

/-- The cores of a polyphase sensor. -/
abbrev Polyphase (n : Nat) (P C F : Type) : Type := Fin n → Singlephase P C F

variable {n : Nat} {P C F Sample Raw Value Output : Type}

section Cores
variable (stages : Stages P C F Sample Raw Value Output)

def Singlephase.value (core : Singlephase P C F) : Output := stages.output core.filter

def Singlephase.submit (core : Singlephase P C F) (sample : Sample) : Singlephase P C F :=
  let (raw, prefilter) := stages.prefilter core.prefilter sample
  let (value, converter) := stages.convert core.converter raw
  { prefilter, converter, filter := stages.push core.filter value }

def Polyphase.value (cores : Polyphase n P C F) (phase : Fin n) : Output :=
  (cores phase).value stages

def Polyphase.values (cores : Polyphase n P C F) : Fin n → Output := fun phase => cores.value stages phase

/-- The components are submitted one after the other. -/
def Polyphase.submit (cores : Polyphase n P C F) (sample : Fin n → Sample) : Polyphase n P C F :=
  (List.finRange n).foldl
    (fun cores phase => Function.update cores phase ((cores phase).submit stages (sample phase))) cores

end Cores

/-! ## The phases -/

/-- Updating the places of a list one after the other changes each of them once. -/
theorem foldl_update {A : Type} (next : Fin n → A → A) (places : List (Fin n)) (nodup : places.Nodup)
    (values : Fin n → A) (place : Fin n) :
    places.foldl (fun values place => Function.update values place (next place (values place))) values
        place = if place ∈ places then next place (values place) else values place := by
  induction places generalizing values with
  | nil => simp
  | cons first later ih =>
    obtain ⟨fresh, rest⟩ := List.nodup_cons.mp nodup
    rw [List.foldl_cons, ih rest]
    by_cases same : place = first
    · subst same
      rw [if_neg fresh, if_pos List.mem_cons_self, Function.update_self]
    · rw [Function.update_of_ne same]
      simp only [List.mem_cons, same, false_or]

/-- A frame submits its components to their phases. -/
theorem submit_phase (stages : Stages P C F Sample Raw Value Output) (cores : Polyphase n P C F)
    (sample : Fin n → Sample) (phase : Fin n) :
    cores.submit stages sample phase = (cores phase).submit stages (sample phase) := by
  have each := foldl_update (fun phase (core : Singlephase P C F) => core.submit stages (sample phase))
    (List.finRange n) (List.nodup_finRange n) cores phase
  rwa [if_pos (List.mem_finRange phase)] at each

/-- A phase does not know of the others. -/
theorem submitAll_phase (stages : Stages P C F Sample Raw Value Output) (cores : Polyphase n P C F)
    (frames : List (Fin n → Sample)) (phase : Fin n) :
    frames.foldl (Polyphase.submit stages) cores phase =
      (frames.map (· phase)).foldl (Singlephase.submit stages) (cores phase) := by
  induction frames generalizing cores with
  | nil => rfl
  | cons frame later ih =>
    rw [List.foldl_cons, ih, submit_phase, List.map_cons, List.foldl_cons]

end Emblib.Sensor
