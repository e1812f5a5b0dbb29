import Emblib.Library.Machine
import Emblib.NvmStore

/-! The registry is a finite map from the names of its layout to values. Every member is
simulated by an update of the map, so whole runs are; and since no member leaves the
range of its layout, registries over disjoint ranges of one storage are independent. -/
namespace Emblib.NvmRefinement
open Programs Machines ByteMemory NvmLayout NvmRegistry NvmStore

/-! ## Operations -/

inductive Operation {capacity : Nat} (registry : Registry capacity) where
  | get (name : registry.layout.Name)
  | set (name : registry.layout.Name) (val : registry.layout.Value name.index)
  | reset (name : registry.layout.Name)
  | resetAll

inductive Outcome where
  | value (result : Except NvmError (List UInt8))
  | done (result : Except NvmError Unit)
  deriving DecidableEq

section Operations
variable {capacity : Nat} {registry : Registry capacity}

def perform : Operation registry → Storage Outcome
  | .get name => do return .value (← registry.get name)
  | .set name val => do return .done (← registry.set name val)
  | .reset name => do return .done (← registry.reset name)
  | .resetAll => do return .done (← registry.resetAll)

theorem perform_issues (op : Operation registry) :
    (perform op).Issues (Call.Within registry.layout.base registry.layout.size) := by
  cases op with
  | get name => exact Program.issues_bind (get_issues name) fun _ => trivial
  | set name val => exact Program.issues_bind (set_issues name val) fun _ => trivial
  | reset name => exact Program.issues_bind (set_issues name _) fun _ => trivial
  | resetAll => exact Program.issues_bind resetAll_issues fun _ => trivial

/-! ## The finite map -/

/-- What reading each parameter gives. -/
abbrev Entries (registry : Registry capacity) : Type :=
  registry.layout.Index → Except NvmError (List UInt8)

/-- The operations on the map. -/
def update : Operation registry → Entries registry → Outcome × Entries registry
  | .get name, entries => (.value (entries name.index), entries)
  | .set name val, entries => (.done (.ok ()), Function.update entries name.index (.ok val.1))
  | .reset name, entries =>
    (.done (.ok ()),
      Function.update entries name.index (.ok (registry.layout.defaultValue name.index).1))
  | .resetAll, _ => (.done (.ok ()), fun index => .ok (registry.layout.defaultValue index).1)

/-- The map a memory stands for. -/
def entriesOf (registry : Registry capacity) (memory : Memory) : Entries registry :=
  fun index => readFrame registry.layout index memory

theorem entriesOf_set (name : registry.layout.Name) (val : registry.layout.Value name.index)
    (memory : Memory) :
    entriesOf registry (run plain (registry.set name val) memory).2 =
      Function.update (entriesOf registry memory) name.index (.ok val.1) := by
  funext index
  rw [entriesOf, get_after_set, Function.update_apply]
  rfl

/-- One operation on the memory is one operation on the map. -/
theorem perform_refines (op : Operation registry) (memory : Memory) :
    (run plain (perform op) memory).1 = (update op (entriesOf registry memory)).1 ∧
      entriesOf registry (run plain (perform op) memory).2 =
        (update op (entriesOf registry memory)).2 := by
  cases op with
  | get name =>
    simp only [perform, run_bind, run_get]
    exact ⟨rfl, rfl⟩
  | set name val =>
    simp only [perform, run_bind]
    exact ⟨by rw [run_set]; rfl, entriesOf_set name val memory⟩
  | reset name =>
    simp only [perform, run_bind]
    exact ⟨by rw [run_reset]; rfl, entriesOf_set name _ memory⟩
  | resetAll =>
    obtain ⟨good, defaults⟩ := @run_resetAll _ registry memory
    simp only [perform, run_bind]
    exact ⟨by rw [good]; rfl, funext defaults⟩

/-! ## The last value written -/

/-- The value an operation writes to a parameter. -/
def Operation.writes (op : Operation registry) (index : registry.layout.Index) : Option (List UInt8) :=
  match op with
  | .get _ => none
  | .set name val => if index = name.index then some val.1 else none
  | .reset name =>
    if index = name.index then some (registry.layout.defaultValue name.index).1 else none
  | .resetAll => some (registry.layout.defaultValue index).1

/-- The value most recently written to a parameter. -/
def lastWritten : List (Operation registry) → registry.layout.Index → Option (List UInt8)
  | [], _ => none
  | op :: ops, index => (lastWritten ops index).or (op.writes index)

theorem update_writes (op : Operation registry) (entries : Entries registry)
    (index : registry.layout.Index) :
    (update op entries).2 index = (op.writes index).elim (entries index) .ok := by
  cases op with
  | get name => rfl
  | set name val =>
    simp only [update, Operation.writes, Function.update_apply]
    split <;> rfl
  | reset name =>
    simp only [update, Operation.writes, Function.update_apply]
    split
    · rename_i same
      subst same
      rfl
    · rfl
  | resetAll => rfl

theorem updates_lastWritten (ops : List (Operation registry)) (entries : Entries registry)
    (index : registry.layout.Index) :
    (execute update ops entries).2 index = (lastWritten ops index).elim (entries index) .ok := by
  induction ops generalizing entries with
  | nil => rfl
  | cons op ops ih =>
    rw [execute_cons, ih, update_writes, lastWritten]
    cases lastWritten ops index with
    | none => rfl
    | some val => rfl

end Operations

/-! ## Over a storage -/

section Stores
variable {S : Type} {store : Store S} {registry other : Registry store.capacity} {state : S}

/-- The registry object on its storage. -/
def machine (store : Store S) (registry : Registry store.capacity) :
    Operation registry → S → Outcome × S :=
  fun op state => run store.handler (perform op) state

/-- What `get` would return for a name in this state. -/
def lookup (store : Store S) (registry : Registry store.capacity) (name : registry.layout.Name)
    (state : S) : Except NvmError (List UInt8) :=
  (run store.handler (registry.get name) state).1

theorem lookup_entries (name : registry.layout.Name) :
    lookup store registry name state = entriesOf registry (store.bytes state) name.index := by
  rw [lookup, (store_run store (get_issues name) state).1, run_get]
  rfl

theorem machine_get (name : registry.layout.Name) :
    (machine store registry (.get name) state).1 = .value (lookup store registry name state) := by
  simp only [machine, perform, run_bind]
  rfl

theorem machine_refines (ops : List (Operation registry)) :
    (execute (machine store registry) ops state).1 =
        (execute update ops (entriesOf registry (store.bytes state))).1 ∧
      entriesOf registry (store.bytes (execute (machine store registry) ops state).2) =
        (execute update ops (entriesOf registry (store.bytes state))).2 := by
  refine execute_refines (fun state entries => entriesOf registry (store.bytes state) = entries)
    ?_ ops rfl
  rintro op state _ rfl
  obtain ⟨result, bytes⟩ := store_run store (perform_issues op) state
  rw [machine, result, bytes]
  exact perform_refines op (store.bytes state)

/-- Outside the range of its layout a registry changes nothing. -/
theorem machine_confined (op : Operation registry) :
    Confined registry.layout.base registry.layout.size (store.bytes state)
      (store.bytes (machine store registry op state).2) := by
  rw [machine, (store_run store (perform_issues op) state).2]
  refine run_preserves (Confined registry.layout.base registry.layout.size (store.bytes state))
    ?_ (perform op) (perform_issues op) confined_refl
  intro call within memory confined address outside
  cases call with
  | read addr size => exact confined address outside
  | write addr bytes =>
    obtain ⟨low, high⟩ := within
    refine Eq.trans ?_ (confined address outside)
    exact confined_patch address (by omega)

/-- The two states have the same bytes in the range of the layout. -/
def SameRange (store : Store S) (registry : Registry store.capacity) (state second : S) : Prop :=
  Agree registry.layout.base registry.layout.size (store.bytes state) (store.bytes second)

/-- The bytes outside its range have no influence on a registry. -/
theorem machine_blind (op : Operation registry) (state second : S)
    (same : SameRange store registry state second) :
    (machine store registry op state).1 = (machine store registry op second).1 ∧
      SameRange store registry (machine store registry op state).2
        (machine store registry op second).2 := by
  obtain ⟨leftResult, leftBytes⟩ := store_run store (perform_issues op) state
  obtain ⟨rightResult, rightBytes⟩ := store_run store (perform_issues op) second
  simp only [SameRange, machine, leftResult, rightResult, leftBytes, rightBytes]
  refine run_related (Agree registry.layout.base registry.layout.size) ?_ (perform op)
    (perform_issues op) same
  intro call within left right agree
  cases call with
  | read addr size => exact ⟨congrArg Except.ok (slice_agree agree within.1 within.2), agree⟩
  | write addr bytes => exact ⟨rfl, patch_agree agree addr bytes⟩

/-- The ranges of the two layouts are disjoint. -/
def Apart (first second : Registry capacity) : Prop :=
  first.layout.base + first.layout.size ≤ second.layout.base ∨
    second.layout.base + second.layout.size ≤ first.layout.base

theorem machine_quiet (apart : Apart registry other) (op : Operation other) (state second : S)
    (same : SameRange store registry state second) :
    SameRange store registry (machine store other op state).2 second := by
  intro address above below
  refine Eq.trans (machine_confined op address ?_) (same address above below)
  rcases apart with before | after
  · exact .inl (by omega)
  · exact .inr (by omega)

/-- **A registry refines a finite map.** After any operations `get` returns the value most
recently written under its name, or else what it returned at first; an operation on one
name changes no result for another; every access stays in the range of the layout; and
the operations of a registry over a disjoint range, in any interleaving, change neither
the outcomes nor the results of `get`. -/
theorem registry_refines_map (store : Store S) (registry : Registry store.capacity) (state : S) :
    (∀ (ops : List (Operation registry)) (name : registry.layout.Name),
        lookup store registry name (execute (machine store registry) ops state).2 =
          (lastWritten ops name.index).elim (lookup store registry name state) .ok) ∧
      (∀ (name other : registry.layout.Name) (val : registry.layout.Value other.index),
        name.name ≠ other.name →
        lookup store registry name (machine store registry (.set other val) state).2 =
            lookup store registry name state ∧
          lookup store registry name (machine store registry (.reset other) state).2 =
            lookup store registry name state) ∧
      (∀ op : Operation registry,
        (perform op).Issues (Call.Within registry.layout.base registry.layout.size) ∧
          Confined registry.layout.base registry.layout.size (store.bytes state)
            (store.bytes (machine store registry op state).2)) ∧
      ∀ second : Registry store.capacity, Apart registry second →
        ∀ mixed : List (Operation registry ⊕ Operation second),
          (execute (either (machine store registry) (machine store second)) mixed state).1.filterMap
              Sum.getLeft? =
            (execute (machine store registry) (mixed.filterMap Sum.getLeft?) state).1 ∧
          ∀ name, lookup store registry name
              (execute (either (machine store registry) (machine store second)) mixed state).2 =
            lookup store registry name
              (execute (machine store registry) (mixed.filterMap Sum.getLeft?) state).2 := by
  have written : ∀ (ops : List (Operation registry)) (name : registry.layout.Name),
      lookup store registry name (execute (machine store registry) ops state).2 =
        (lastWritten ops name.index).elim (lookup store registry name state) .ok := by
    intro ops name
    rw [lookup_entries, lookup_entries, machine_refines ops |>.2, updates_lastWritten]
  refine ⟨written, ?_, fun op => ⟨perform_issues op, machine_confined op⟩, ?_⟩
  · intro name other val different
    have index : name.index ≠ other.index := fun same => different (name_index_injective same)
    have afterSet := written [.set other val] name
    have afterReset := written [.reset other] name
    simp only [lastWritten, Operation.writes, if_neg index, Option.or_none, Option.elim_none]
      at afterSet afterReset
    exact ⟨afterSet, afterReset⟩
  · intro second apart mixed
    obtain ⟨outcomes, range⟩ := execute_undisturbed (SameRange store registry) machine_blind
      (machine_quiet apart) mixed (fun _ _ _ => rfl : SameRange store registry state state)
    refine ⟨outcomes, fun name => ?_⟩
    have answers := (machine_blind (.get name) _ _ range).1
    rw [machine_get, machine_get] at answers
    exact Outcome.value.inj answers

end Stores

end Emblib.NvmRefinement
