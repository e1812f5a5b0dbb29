import Emblib.Library.Machine
import Emblib.SdoServer

/-! The SDO server treats the object dictionary as a finite map with permissions. The
entries are plain variables of the application. What a request does is decided by the map
alone, before any variable is looked at; the server's search, its checks and its accessors
carry out that decision. -/
namespace Emblib.SdoDictionary
open Programs Machines Can Sdo ObjectDictionary SdoServer

variable {X : Type} {typeOf : X → Scalar}

/-! ## Entries for plain variables -/

/-- The application's variables, each of its own type. -/
abbrev Values (typeOf : X → Scalar) : Type := (x : X) → (typeOf x).Carrier

/-- `od_read_var`. -/
def odReadVar (x : X) : Accessor (Values typeOf) OdValue := do return ⟨typeOf x, (← get) x⟩

/-- `od_write_var`. -/
def odWriteVar [DecidableEq X] (x : X) (val : OdValue) : Accessor (Values typeOf) Unit := do
  if same : val.type = typeOf x then
    modify fun values => Function.update values x (same ▸ val.value)
  else throw .dataTypeMismatch

/-- What is declared about a variable. Its entry has the data type of the variable. -/
structure Declared (typeOf : X → Scalar) where
  key : OdKey
  var : X
  access : OdAccess
  defaultValue : Option OdValue

abbrev Declared.type (declared : Declared typeOf) : Scalar := typeOf declared.var

def Declared.entry [DecidableEq X] (declared : Declared typeOf) : OdEntry (Values typeOf) where
  key := declared.key
  object := {
    access := declared.access
    dataType := declared.type.dataType
    defaultValue := declared.defaultValue
    read := odReadVar declared.var
    write := odWriteVar declared.var }

/-- Declarations with distinct keys of distinct variables, in any order. -/
structure Dictionary (typeOf : X → Scalar) where
  declared : List (Declared typeOf)
  keys : (declared.map (·.key)).Nodup
  vars : (declared.map (·.var)).Nodup

variable [DecidableEq X]

/-- The dictionary of the server. -/
def Dictionary.sorted (dictionary : Dictionary typeOf) : List (OdEntry (Values typeOf)) :=
  initDictionary (dictionary.declared.map Declared.entry)

/-! ## The map -/

/-- What is done with a request. -/
inductive Decision (typeOf : X → Scalar) where
  | refuse (code : AbortCode)
  | fetch (declared : Declared typeOf)
  | assign (declared : Declared typeOf) (value : declared.type.Carrier)

def Dictionary.lookup (dictionary : Dictionary typeOf) (key : OdKey) : Option (Declared typeOf) :=
  dictionary.declared.find? fun declared => declared.key == key

def Declared.writable (declared : Declared typeOf) : Bool :=
  declared.access == .rw || declared.access == .wo

/-- A value for a variable, if it is of its type. -/
def Declared.assigned (declared : Declared typeOf) (val : OdValue) : Decision typeOf :=
  if same : val.type = declared.type then .assign declared (same ▸ val.value)
  else .refuse .dataTypeMismatch

/-- A request to restore a default names its target in the data field. -/
def restores (rsdo : ExpeditedSdo) : Bool :=
  rsdo.cs == clientInitWrite && requestKey rsdo == restoreDefaultParameterKey

def Dictionary.decide (dictionary : Dictionary typeOf) (rsdo : ExpeditedSdo) : Decision typeOf :=
  if restores rsdo then
    match dictionary.lookup (targetKey rsdo.data) with
    | none => .refuse .objectNotFound
    | some declared =>
      if declared.writable then
        match declared.defaultValue with
        | none => .refuse .noDataAvailable
        | some value => declared.assigned value
      else .refuse .writeToReadOnly
  else
    match dictionary.lookup (requestKey rsdo) with
    | none => .refuse .objectNotFound
    | some declared =>
      if rsdo.cs = clientInitRead then
        if declared.access = .wo then .refuse .readFromWriteOnly else .fetch declared
      else if rsdo.cs = clientInitWrite then
        if declared.writable then declared.assigned (makeOdValue rsdo.data declared.type.dataType)
        else .refuse .writeToReadOnly
      else .refuse .invalidCs

/-- The response and the variables afterwards. -/
def Decision.execute (rsdo : ExpeditedSdo) :
    Decision typeOf → Values typeOf → Except AbortCode ExpeditedSdo × Values typeOf
  | .refuse code, values => (.error code, values)
  | .fetch declared, values =>
    (.ok (readResponse declared.entry rsdo ⟨declared.type, values declared.var⟩), values)
  | .assign declared value, values =>
    (.ok (writeResponse rsdo), Function.update values declared.var value)

/-! ## The server carries out the decision -/

section Refines
variable {dictionary : Dictionary typeOf} {declared : Declared typeOf} {key : OdKey} {rsdo : ExpeditedSdo}
  {values : Values typeOf}

omit [DecidableEq X] in
theorem lookup_some (found : dictionary.lookup key = some declared) :
    declared ∈ dictionary.declared ∧ declared.key = key := by
  unfold Dictionary.lookup at found
  have same := List.find?_some found
  exact ⟨List.mem_of_find?_eq_some found, beq_iff_eq.mp same⟩

omit [DecidableEq X] in
theorem lookup_iff : dictionary.lookup key = some declared ↔
    declared ∈ dictionary.declared ∧ declared.key = key := by
  refine ⟨lookup_some, ?_⟩
  rintro ⟨member, rfl⟩
  cases found : dictionary.lookup declared.key with
  | none =>
    have other := List.find?_eq_none.mp found declared member
    exact absurd (beq_self_eq_true declared.key) other
  | some first =>
    obtain ⟨known, same⟩ := lookup_some found
    exact congrArg some (List.inj_on_of_nodup_map dictionary.keys known member same)

theorem entries_distinct : Distinct (dictionary.declared.map Declared.entry) := by
  have keys := dictionary.keys
  rw [Distinct, List.map_map]
  exact keys

/-- The binary search in the sorted dictionary looks up the map. -/
theorem find_lookup : find dictionary.sorted key = (dictionary.lookup key).map Declared.entry := by
  cases found : dictionary.lookup key with
  | none =>
    refine Option.eq_none_iff_forall_ne_some.mpr fun entry search => ?_
    obtain ⟨member, same⟩ := (find_iff entries_distinct).mp search
    obtain ⟨declared, known, rfl⟩ := List.mem_map.mp member
    have present := lookup_iff.mpr ⟨known, same⟩
    exact nomatch found.symm.trans present
  | some declared =>
    obtain ⟨member, same⟩ := lookup_iff.mp found
    exact (find_iff entries_distinct).mpr ⟨List.mem_map_of_mem member, same⟩

/-- Writing a value that is assigned, or refused. -/
theorem stored_assigned (declared : Declared typeOf) (val : OdValue) :
    stored rsdo ((odWriteVar declared.var val).call values) = (declared.assigned val).execute rsdo values := by
  unfold odWriteVar Declared.assigned
  by_cases same : val.type = typeOf declared.var
  · have typed : val.type = declared.type := same
    rw [dif_pos same, dif_pos typed]
    rfl
  · have typed : ¬val.type = declared.type := same
    rw [dif_neg same, dif_neg typed]
    rfl

theorem call_restore : (writeRestoreDefault dictionary.sorted rsdo).call values =
    Decision.execute rsdo (match dictionary.lookup (targetKey rsdo.data) with
    | none => .refuse .objectNotFound
    | some declared =>
      if declared.writable then
        match declared.defaultValue with
        | none => .refuse .noDataAvailable
        | some value => declared.assigned value
      else .refuse .writeToReadOnly) values := by
  rw [call_writeRestoreDefault, restoreDefaultParameter, find_lookup]
  cases dictionary.lookup (targetKey rsdo.data) with
  | none => rfl
  | some declared =>
    simp only [Option.map_some]
    rw [Accessor.call_guard]
    cases writable : declared.writable with
    | false =>
      have refused : declared.entry.object.hasWritePermission = false := writable
      simp only [refused, Bool.false_eq_true, if_false]
      rfl
    | true =>
      have allowed : declared.entry.object.hasWritePermission = true := writable
      simp only [allowed, if_true]
      cases default : declared.defaultValue with
      | none =>
        have none : declared.entry.object.defaultValue = none := default
        simp only [none]
        rfl
      | some value =>
        have some : declared.entry.object.defaultValue = some value := default
        simp only [some]
        exact stored_assigned declared value

/-- **The server decides by the map.** -/
theorem call_result : (result dictionary.sorted rsdo).call values =
    (dictionary.decide rsdo).execute rsdo values := by
  unfold result Dictionary.decide
  by_cases restoring : rsdo.cs = clientInitWrite ∧ requestKey rsdo = restoreDefaultParameterKey
  · have named : restores rsdo = true := by simpa [restores] using restoring
    rw [if_pos restoring, if_pos named]
    exact call_restore
  · have named : ¬restores rsdo = true := by simpa [restores] using restoring
    rw [if_neg restoring, if_neg named, find_lookup]
    cases dictionary.lookup (requestKey rsdo) with
    | none => rfl
    | some declared =>
      simp only [Option.map_some]
      split
      · rw [call_readExpedited]
        by_cases hidden : declared.access = .wo
        · have refused : declared.entry.object.hasReadPermission = false := by
            simp [OdObject.hasReadPermission, Declared.entry, hidden]
          simp only [refused, Bool.false_eq_true, if_false, if_pos hidden]
          rfl
        · have allowed : declared.entry.object.hasReadPermission = true := by
            simp [OdObject.hasReadPermission, Declared.entry, hidden]
          simp only [allowed, if_true, if_neg hidden]
          rfl
      · split
        · rw [call_writeExpedited]
          cases writable : declared.writable with
          | false =>
            have refused : declared.entry.object.hasWritePermission = false := writable
            simp only [refused, Bool.false_eq_true, if_false]
            rfl
          | true =>
            have allowed : declared.entry.object.hasWritePermission = true := writable
            simp only [allowed, if_true]
            exact stored_assigned declared _
        · rfl

omit [DecidableEq X] in
theorem assigned_assign {other : Declared typeOf} {value : other.type.Carrier} {val : OdValue}
    (assigned : declared.assigned val = .assign other value) :
    other = declared ∧ val = ⟨other.type, value⟩ := by
  obtain ⟨type, given⟩ := val
  unfold Declared.assigned at assigned
  split at assigned
  · rename_i same
    simp only [Decision.assign.injEq] at assigned
    obtain ⟨rfl, value_eq⟩ := assigned
    obtain rfl := eq_of_heq value_eq
    obtain rfl : type = declared.type := same
    exact ⟨rfl, rfl⟩
  · exact nomatch assigned

omit [DecidableEq X] in
theorem assigned_typed (value : declared.type.Carrier) :
    declared.assigned ⟨declared.type, value⟩ = .assign declared value := by
  unfold Declared.assigned
  exact dif_pos rfl

omit [DecidableEq X] in
theorem assigned_fetch {other : Declared typeOf} {val : OdValue} :
    declared.assigned val ≠ .fetch other := by
  unfold Declared.assigned
  split <;> exact nofun

/-- Where the value of an assignment comes from. -/
def Source (rsdo : ExpeditedSdo) (declared : Declared typeOf) (value : declared.type.Carrier) : Prop :=
  if restores rsdo then
    declared.key = targetKey rsdo.data ∧ declared.defaultValue = some ⟨declared.type, value⟩
  else
    declared.key = requestKey rsdo ∧
      makeOdValue rsdo.data declared.type.dataType = ⟨declared.type, value⟩

omit [DecidableEq X] in
theorem restores_iff : restores rsdo = true ↔
    rsdo.cs = clientInitWrite ∧ requestKey rsdo = restoreDefaultParameterKey := by
  simp [restores]

omit [DecidableEq X] in
/-- Only a write assigns, to an entry that permits it. -/
theorem decide_assign {value : declared.type.Carrier}
    (decision : dictionary.decide rsdo = .assign declared value) :
    declared ∈ dictionary.declared ∧ declared.writable = true ∧ rsdo.cs = clientInitWrite ∧
      Source rsdo declared value := by
  unfold Dictionary.decide at decision
  unfold Source
  split at decision
  · rename_i restoring
    rw [if_pos restoring]
    split at decision
    · exact nomatch decision
    · rename_i found
      obtain ⟨member, key⟩ := lookup_some found
      split at decision
      · rename_i writable
        split at decision
        · exact nomatch decision
        · rename_i default
          obtain ⟨rfl, value_eq⟩ := assigned_assign decision
          rw [value_eq] at default
          exact ⟨member, writable, (restores_iff.mp restoring).1, key, default⟩
      · exact nomatch decision
  · rename_i ordinary
    rw [if_neg ordinary]
    split at decision
    · exact nomatch decision
    · rename_i found
      obtain ⟨member, key⟩ := lookup_some found
      split at decision
      · split at decision <;> exact nomatch decision
      · split at decision
        · rename_i command
          split at decision
          · rename_i writable
            obtain ⟨rfl, value_eq⟩ := assigned_assign decision
            exact ⟨member, writable, command, key, value_eq⟩
          · exact nomatch decision
        · exact nomatch decision

omit [DecidableEq X] in
/-- Only a read fetches, from an entry that permits it. -/
theorem decide_fetch (decision : dictionary.decide rsdo = .fetch declared) :
    declared ∈ dictionary.declared ∧ declared.access ≠ .wo ∧ rsdo.cs = clientInitRead ∧
      declared.key = requestKey rsdo := by
  unfold Dictionary.decide at decision
  split at decision
  · split at decision
    · exact nomatch decision
    · split at decision
      · split at decision
        · exact nomatch decision
        · exact absurd decision assigned_fetch
      · exact nomatch decision
  · split at decision
    · exact nomatch decision
    · rename_i found
      obtain ⟨member, key⟩ := lookup_some found
      split at decision
      · rename_i command
        split at decision
        · exact nomatch decision
        · rename_i permitted
          obtain rfl := Decision.fetch.inj decision
          exact ⟨member, permitted, command, key⟩
      · split at decision
        · split at decision
          · exact absurd decision assigned_fetch
          · exact nomatch decision
        · exact nomatch decision

omit [DecidableEq X] in
/-- A write with a value for an entry that permits it assigns. -/
theorem decide_source {value : declared.type.Carrier} (member : declared ∈ dictionary.declared)
    (writable : declared.writable = true) (command : rsdo.cs = clientInitWrite)
    (source : Source rsdo declared value) : dictionary.decide rsdo = .assign declared value := by
  unfold Source at source
  unfold Dictionary.decide
  split at source
  · rename_i restoring
    obtain ⟨key, default⟩ := source
    rw [if_pos restoring, lookup_iff.mpr ⟨member, key⟩]
    simp only [if_pos writable, default]
    exact assigned_typed value
  · rename_i ordinary
    obtain ⟨key, made⟩ := source
    have notRead : ¬rsdo.cs = clientInitRead := by
      rw [command]
      decide
    rw [if_neg ordinary, lookup_iff.mpr ⟨member, key⟩]
    simp only [if_neg notRead, if_pos command, if_pos writable, made]
    exact assigned_typed value

omit [DecidableEq X] in
/-- A read of an entry that permits it fetches. -/
theorem decide_read (member : declared ∈ dictionary.declared) (access : declared.access ≠ .wo)
    (command : rsdo.cs = clientInitRead) (key : declared.key = requestKey rsdo) :
    dictionary.decide rsdo = .fetch declared := by
  have ordinary : ¬restores rsdo = true := by
    rw [restores_iff, command]
    exact fun restoring => absurd restoring.1 (by decide)
  unfold Dictionary.decide
  rw [if_neg ordinary, lookup_iff.mpr ⟨member, key⟩]
  simp only [if_pos command, if_neg access]

end Refines

/-! ## Requests in any number -/

section Requests
variable {node : NodeId} {dictionary : Dictionary typeOf} {server : Server (Values typeOf)} {request : Payload}

/-- The frame of a request to this server. -/
def requestFrame (node : NodeId) (request : Payload) : Frame where
  format := .standard
  id := rsdoCobId node
  len := 8
  payload := request

/-- The response, unless the request is an abort, and the server afterwards. -/
def handle (node : NodeId) (dictionary : Dictionary typeOf) (request : Payload)
    (server : Server (Values typeOf)) :
    Option Payload × Server (Values typeOf) :=
  let response := if (ExpeditedSdo.fromPayload request).cs = csAbort then none
    else some (answer dictionary.sorted request server.values)
  (response, (tryHandle node dictionary.sorted (requestFrame node request) server).2)

/-- The decision is carried out, except for an abort. -/
theorem handle_values : (handle node dictionary request server).2.values =
    let rsdo := ExpeditedSdo.fromPayload request
    if rsdo.cs = csAbort then server.values else ((dictionary.decide rsdo).execute rsdo server.values).2 := by
  by_cases abort : (ExpeditedSdo.fromPayload request).cs = csAbort
  · simp only [if_pos abort]
    have ignored : ¬Answered node (requestFrame node request) := fun answered => answered.2 abort
    exact congrArg Server.values (tryHandle_ignored ignored)
  · simp only [if_neg abort]
    have answered : Answered node (requestFrame node request) := ⟨rfl, abort⟩
    rw [← call_result]
    exact tryHandle_values answered

/-- What one request may do: `before` and `after` are the variables, `outcome` what is answered. -/
structure Permitted (dictionary : Dictionary typeOf) (rsdo : ExpeditedSdo) (before after : Values typeOf)
    (outcome : Except AbortCode ExpeditedSdo) : Prop where
  /-- At most the variable of the entry with the requested key changes; a restore gives the
  variable of the entry with the key in the data field its default. -/
  changes : after ≠ before → ∃ declared ∈ dictionary.declared,
    (declared.access = .rw ∨ declared.access = .wo) ∧ rsdo.cs = clientInitWrite ∧
      (∀ x, x ≠ declared.var → after x = before x) ∧ Source rsdo declared (after declared.var)
  /-- Reads, aborts and what is answered by an abort change nothing. -/
  unchanged : (rsdo.cs = clientInitRead ∨ rsdo.cs = csAbort ∨ ∃ code, outcome = .error code) → after = before
  /-- A successful read carries the value, in its first bytes, and nothing but zeros behind. -/
  reads : rsdo.cs = clientInitRead → ∀ tsdo, outcome = .ok tsdo → ∃ declared ∈ dictionary.declared,
    declared.key = requestKey rsdo ∧ declared.access ≠ .wo ∧
      tsdo.data = toRaw ⟨declared.type, before declared.var⟩ ∧
      makeOdValue tsdo.data declared.type.dataType = ⟨declared.type, before declared.var⟩ ∧
      (∀ i : Fin 4, odDataTypeSizes declared.type.dataType ≤ i.val → tsdo.data.get i = 0) ∧
      tsdo.dataEmptyBytes.toNat = 4 - odDataTypeSizes declared.type.dataType
  /-- An acknowledged write has stored the value that it carries, or the default, in its entry's variable. -/
  stores : rsdo.cs = clientInitWrite → ∀ tsdo, outcome = .ok tsdo → ∃ declared ∈ dictionary.declared,
    (declared.access = .rw ∨ declared.access = .wo) ∧
      (∀ x, x ≠ declared.var → after x = before x) ∧ Source rsdo declared (after declared.var)
  /-- Where there is a value for an entry that permits it, the write is acknowledged. -/
  grants : rsdo.cs = clientInitWrite → ∀ declared ∈ dictionary.declared,
    declared.access = .rw ∨ declared.access = .wo → ∀ value, Source rsdo declared value →
      outcome = .ok (writeResponse rsdo) ∧ after = Function.update before declared.var value
  /-- A read of an entry that permits it succeeds. -/
  answers : rsdo.cs = clientInitRead → ∀ declared ∈ dictionary.declared, declared.key = requestKey rsdo →
    declared.access ≠ .wo → outcome = .ok (readResponse declared.entry rsdo ⟨declared.type, before declared.var⟩)

omit [DecidableEq X] in
theorem writable_iff {declared : Declared typeOf} :
    declared.writable = true ↔ declared.access = .rw ∨ declared.access = .wo := by
  simp [Declared.writable]

/-- What becomes of a write that the map decides on. -/
theorem execute_source {declared : Declared typeOf} {value : declared.type.Carrier} {rsdo : ExpeditedSdo}
    (values : Values typeOf) (member : declared ∈ dictionary.declared)
    (access : declared.access = .rw ∨ declared.access = .wo) (command : rsdo.cs = clientInitWrite)
    (source : Source rsdo declared value) :
    (dictionary.decide rsdo).execute rsdo values =
      (.ok (writeResponse rsdo), Function.update values declared.var value) := by
  rw [decide_source member (writable_iff.mpr access) command source]
  rfl

theorem execute_read {declared : Declared typeOf} {rsdo : ExpeditedSdo} (values : Values typeOf)
    (member : declared ∈ dictionary.declared) (access : declared.access ≠ .wo)
    (command : rsdo.cs = clientInitRead) (key : declared.key = requestKey rsdo) :
    (dictionary.decide rsdo).execute rsdo values =
      (.ok (readResponse declared.entry rsdo ⟨declared.type, values declared.var⟩), values) := by
  rw [decide_read member access command key]
  rfl

theorem execute_permitted (dictionary : Dictionary typeOf) (rsdo : ExpeditedSdo)
    (values : Values typeOf) :
    Permitted dictionary rsdo values ((dictionary.decide rsdo).execute rsdo values).2
      ((dictionary.decide rsdo).execute rsdo values).1 := by
  have granted : ∀ _ : rsdo.cs = clientInitWrite, ∀ declared ∈ dictionary.declared,
      declared.access = .rw ∨ declared.access = .wo → ∀ value, Source rsdo declared value →
        ((dictionary.decide rsdo).execute rsdo values).1 = .ok (writeResponse rsdo) ∧
          ((dictionary.decide rsdo).execute rsdo values).2 = Function.update values declared.var value := by
    intro command declared member access value source
    rw [execute_source values member access command source]
    exact ⟨rfl, rfl⟩
  have answered : ∀ _ : rsdo.cs = clientInitRead, ∀ declared ∈ dictionary.declared,
      declared.key = requestKey rsdo → declared.access ≠ .wo →
        ((dictionary.decide rsdo).execute rsdo values).1 =
          .ok (readResponse declared.entry rsdo ⟨declared.type, values declared.var⟩) := by
    intro command declared member key access
    rw [execute_read values member access command key]
  cases decision : dictionary.decide rsdo with
  | refuse code =>
    rw [decision] at granted answered
    exact {
      changes := fun changed => absurd rfl changed
      unchanged := fun _ => rfl
      reads := fun _ _ success => nomatch success
      stores := fun _ _ success => nomatch success
      grants := granted
      answers := answered }
  | fetch declared =>
    rw [decision] at granted answered
    obtain ⟨member, permitted, command, key⟩ := decide_fetch decision
    refine {
      changes := fun changed => absurd rfl changed
      unchanged := fun _ => rfl
      reads := fun _ tsdo success => ?_
      stores := fun write => ?_
      grants := granted
      answers := answered }
    · obtain rfl := Except.ok.inj success
      refine ⟨declared, member, key, permitted, rfl, makeOdValue_toRaw _, fun i behind => toRaw_zero _ i behind, ?_⟩
      simp only [readResponse, Declared.entry]
      cases declared.type <;> rfl
    · rw [command] at write
      exact absurd write (by decide)
  | assign declared value =>
    rw [decision] at granted answered
    obtain ⟨member, writable, command, source⟩ := decide_assign decision
    have notRead : rsdo.cs ≠ clientInitRead := by
      rw [command]
      decide
    have notAbort : rsdo.cs ≠ csAbort := by
      rw [command]
      decide
    have apart (x : X) (different : x ≠ declared.var) : Function.update values declared.var value x = values x :=
      Function.update_of_ne different _ _
    have stored : Source rsdo declared (Function.update values declared.var value declared.var) := by
      rw [Function.update_self]
      exact source
    refine {
      changes := fun _ => ⟨declared, member, writable_iff.mp writable, command, apart, stored⟩
      unchanged := ?_
      reads := fun read => absurd read notRead
      stores := fun _ _ _ => ⟨declared, member, writable_iff.mp writable, apart, stored⟩
      grants := granted
      answers := answered }
    rintro (read | abort | ⟨code, refused⟩)
    · exact absurd read notRead
    · exact absurd abort notAbort
    · exact nomatch refused

theorem handle_permitted (dictionary : Dictionary typeOf) (request : Payload)
    (server : Server (Values typeOf)) :
    let rsdo := ExpeditedSdo.fromPayload request
    Permitted dictionary rsdo server.values (handle node dictionary request server).2.values
      ((result dictionary.sorted rsdo).call server.values).1 := by
  intro rsdo
  have permitted := execute_permitted dictionary rsdo server.values
  rw [handle_values, call_result]
  simp only
  split
  · rename_i abort
    have notRead : rsdo.cs ≠ clientInitRead := by
      rw [abort]
      decide
    have notWrite : rsdo.cs ≠ clientInitWrite := by
      rw [abort]
      decide
    exact {
      changes := fun changed => absurd rfl changed
      unchanged := fun _ => rfl
      reads := fun read => absurd read notRead
      stores := fun write => absurd write notWrite
      grants := fun write => absurd write notWrite
      answers := fun read => absurd read notRead }
  · exact permitted

/-! What cannot be read stays hidden. -/

/-- The same values, except in variables that are written only. -/
def Alike (dictionary : Dictionary typeOf) (values other : Values typeOf) : Prop :=
  ∀ x, values x ≠ other x → ∃ declared ∈ dictionary.declared, declared.var = x ∧ declared.access = .wo

/-- A decision that does not fetch a hidden variable does not tell such values apart. -/
theorem execute_alike {values other : Values typeOf} (rsdo : ExpeditedSdo)
    (alike : Alike dictionary values other) :
    ((dictionary.decide rsdo).execute rsdo values).1 = ((dictionary.decide rsdo).execute rsdo other).1 ∧
      Alike dictionary ((dictionary.decide rsdo).execute rsdo values).2
        ((dictionary.decide rsdo).execute rsdo other).2 := by
  cases decision : dictionary.decide rsdo with
  | refuse code => exact ⟨rfl, alike⟩
  | fetch declared =>
    obtain ⟨member, permitted, _, _⟩ := decide_fetch decision
    have same : values declared.var = other declared.var := by
      by_contra different
      obtain ⟨hidden, known, var, access⟩ := alike _ different
      obtain rfl := List.inj_on_of_nodup_map dictionary.vars known member var
      exact permitted access
    simp only [Decision.execute, same]
    exact ⟨trivial, alike⟩
  | assign declared value =>
    refine ⟨rfl, fun x different => ?_⟩
    by_cases here : x = declared.var
    · subst here
      simp only [Decision.execute, Function.update_self, ne_eq, not_true] at different
    · simp only [Decision.execute, Function.update_of_ne here] at different
      exact alike x different

/-- Nor does any sequence of requests. -/
theorem requests_alike (requests : List Payload) {server other : Server (Values typeOf)}
    (alike : Alike dictionary server.values other.values) :
    (execute (handle node dictionary) requests server).1 = (execute (handle node dictionary) requests other).1 := by
  refine (execute_refines (fun server other => Alike dictionary server.values other.values) ?_ requests alike).1
  intro request server other alike
  obtain ⟨same, after⟩ := execute_alike (ExpeditedSdo.fromPayload request) alike
  rw [handle_values, handle_values]
  simp only [handle, answer, call_result, same]
  refine ⟨trivial, ?_⟩
  split
  · exact alike
  · exact after

/-! What has been written is read. -/

/-- The key of the entry that a write is about. -/
def target (rsdo : ExpeditedSdo) : Option OdKey :=
  if restores rsdo then some (targetKey rsdo.data)
  else if rsdo.cs = clientInitWrite then some (requestKey rsdo) else none

/-- Requests about other entries leave a variable alone. -/
theorem handle_other {declared : Declared typeOf} (member : declared ∈ dictionary.declared)
    (other : target (ExpeditedSdo.fromPayload request) ≠ some declared.key) :
    (handle node dictionary request server).2.values declared.var = server.values declared.var := by
  by_contra different
  have permitted := @handle_permitted _ _ _ node dictionary request server
  obtain ⟨changed, known, _, command, apart, source⟩ :=
    permitted.changes fun same => different (congrFun same declared.var)
  have var : declared.var = changed.var := by
    by_contra notVar
    exact different (apart _ notVar)
  obtain rfl := List.inj_on_of_nodup_map dictionary.vars member known var
  unfold target at other
  unfold Source at source
  split at source
  · rename_i restoring
    rw [if_pos restoring] at other
    exact other (congrArg some source.1.symm)
  · rename_i ordinary
    rw [if_neg ordinary, if_pos command] at other
    exact other (congrArg some source.1.symm)

theorem handles_other {declared : Declared typeOf} (member : declared ∈ dictionary.declared)
    (requests : List Payload)
    (others : ∀ request ∈ requests, target (ExpeditedSdo.fromPayload request) ≠ some declared.key) :
    (execute (handle node dictionary) requests server).2.values declared.var = server.values declared.var := by
  induction requests generalizing server with
  | nil => rfl
  | cons request requests ih =>
    refine (ih fun later present => others later (List.mem_cons_of_mem _ present)).trans ?_
    exact handle_other member (others request List.mem_cons_self)

/-- A write to an entry that permits it. -/
theorem handle_write {declared : Declared typeOf} (member : declared ∈ dictionary.declared)
    (access : declared.access = .rw)
    (command : (ExpeditedSdo.fromPayload request).cs = clientInitWrite)
    (key : requestKey (ExpeditedSdo.fromPayload request) = declared.key)
    (ordinary : declared.key ≠ restoreDefaultParameterKey) :
    (⟨declared.type, (handle node dictionary request server).2.values declared.var⟩ : OdValue) =
      makeOdValue (ExpeditedSdo.fromPayload request).data declared.type.dataType := by
  have notRestore : ¬restores (ExpeditedSdo.fromPayload request) = true := by
    rw [restores_iff, key]
    exact fun restoring => ordinary restoring.2
  obtain ⟨value, made⟩ := odValue_typed
    (makeOdValue_type (ExpeditedSdo.fromPayload request).data declared.type)
  have source : Source (ExpeditedSdo.fromPayload request) declared value := by
    unfold Source
    rw [if_neg notRestore]
    exact ⟨key.symm, made⟩
  have notAbort : ¬(ExpeditedSdo.fromPayload request).cs = csAbort := by rw [command]; decide
  rw [handle_values, made]
  simp only [if_neg notAbort, execute_source _ member (.inl access) command source, Function.update_self]

/-- A read from an entry that permits it. -/
theorem handle_read {declared : Declared typeOf} (member : declared ∈ dictionary.declared)
    (access : declared.access ≠ .wo)
    (command : (ExpeditedSdo.fromPayload request).cs = clientInitRead)
    (key : requestKey (ExpeditedSdo.fromPayload request) = declared.key) :
    (handle node dictionary request server).1 =
      some (readResponse declared.entry (ExpeditedSdo.fromPayload request)
        ⟨declared.type, server.values declared.var⟩).toPayload := by
  have notAbort : ¬(ExpeditedSdo.fromPayload request).cs = csAbort := by rw [command]; decide
  simp only [handle, if_neg notAbort, answer, call_result, execute_read _ member access command key.symm, response]

/-- **The dictionary is a finite map with permissions.** In every state that requests can
lead to, whatever the payload of the next one: only the variable of the addressed entry, or
of the entry whose default is restored, can change, and only if the entry is written; an
acknowledged write stores its value, and an acknowledged restore the default; a request that
reads, aborts or is refused changes nothing; a read carries the value. No response depends on
a variable that is written only. And what has been written is read, until another write or
restore to the same entry. -/
theorem dictionary_is_permissioned_map (node : NodeId) (dictionary : Dictionary typeOf)
    (server : Server (Values typeOf)) (requests : List Payload) :
    let reached := (execute (handle node dictionary) requests server).2
    (∀ request, Permitted dictionary (ExpeditedSdo.fromPayload request) reached.values
        (handle node dictionary request reached).2.values
        ((result dictionary.sorted (ExpeditedSdo.fromPayload request)).call reached.values).1) ∧
      (∀ other : Server (Values typeOf), Alike dictionary server.values other.values →
        (execute (handle node dictionary) requests server).1 =
          (execute (handle node dictionary) requests other).1) ∧
      ∀ declared ∈ dictionary.declared, declared.access = .rw → declared.key ≠ restoreDefaultParameterKey →
        ∀ write read between,
          (ExpeditedSdo.fromPayload write).cs = clientInitWrite →
          requestKey (ExpeditedSdo.fromPayload write) = declared.key →
          (∀ request ∈ between, target (ExpeditedSdo.fromPayload request) ≠ some declared.key) →
          (ExpeditedSdo.fromPayload read).cs = clientInitRead →
          requestKey (ExpeditedSdo.fromPayload read) = declared.key →
          (handle node dictionary read (execute (handle node dictionary) (write :: between) reached).2).1 =
            some (readResponse declared.entry (ExpeditedSdo.fromPayload read)
              (makeOdValue (ExpeditedSdo.fromPayload write).data declared.type.dataType)).toPayload := by
  intro reached
  refine ⟨fun request => handle_permitted dictionary request reached,
    fun other alike => requests_alike requests alike, ?_⟩
  intro declared member access ordinary write read between writes writeKey others reads readKey
  have readable : declared.access ≠ .wo := by rw [access]; decide
  have kept :=
    @handles_other _ _ _ node dictionary (handle node dictionary write reached).2 _ member between others
  rw [handle_read member readable reads readKey, execute_cons, kept,
    handle_write member access writes writeKey ordinary]

end Requests
end Emblib.SdoDictionary
