import Emblib.SdoDictionary

/-! What an SDO download has to declare about its data. A request says whether it carries
the data itself, and how many of its data bytes are empty; the server looks at neither. -/
namespace Emblib.SdoDownload
open Programs Can Sdo ObjectDictionary SdoServer SdoDictionary

variable {X : Type} [DecidableEq X] {typeOf : X → Scalar} {dictionary : Dictionary typeOf}
  {declared : Declared typeOf} {rsdo : ExpeditedSdo} {node : NodeId} {server : Server (Values typeOf)}
  {request : Payload}

/-- The request carries the object's value: the transfer is expedited, and a declared size
is that of the object. -/
def Carries (rsdo : ExpeditedSdo) (declared : Declared typeOf) : Prop :=
  rsdo.expeditedTransfer = 1 ∧
    (rsdo.dataSizeIndicated = 1 →
      4 - rsdo.dataEmptyBytes.toNat = odDataTypeSizes declared.type.dataType)

/-- Unless the request carries the value, it is answered by an abort and changes nothing. -/
def Guarded (node : NodeId) (dictionary : Dictionary typeOf) (declared : Declared typeOf)
    (server : Server (Values typeOf)) (request : Payload) : Prop :=
  ¬Carries (ExpeditedSdo.fromPayload request) declared →
    (∃ code, ((result dictionary.sorted (ExpeditedSdo.fromPayload request)).call server.values).1 = .error code) ∧
      (handle node dictionary request server).2.values declared.var = server.values declared.var

/-- No default can be restored to the entry that the data field names. -/
def RestoreRefused (dictionary : Dictionary typeOf) (rsdo : ExpeditedSdo) : Prop :=
  ∀ named, dictionary.lookup (targetKey rsdo.data) = some named → named.writable = true →
    ∀ value, named.defaultValue = some value → value.type ≠ named.type

/-- The permissions already refuse the request. -/
def Refused (dictionary : Dictionary typeOf) (declared : Declared typeOf) (rsdo : ExpeditedSdo) : Prop :=
  if restores rsdo then RestoreRefused dictionary rsdo else declared.writable = false

omit [DecidableEq X] in
theorem assigned_refuse {val : OdValue} :
    (∃ code, declared.assigned val = .refuse code) ↔ val.type ≠ declared.type := by
  unfold Declared.assigned
  split
  · rename_i same
    simp [same]
  · rename_i different
    simp [different]

omit [DecidableEq X] in
/-- A write is refused by the permissions, or not at all. -/
theorem decide_refuse (member : declared ∈ dictionary.declared) (command : rsdo.cs = clientInitWrite)
    (key : requestKey rsdo = declared.key) :
    (∃ code, dictionary.decide rsdo = .refuse code) ↔ Refused dictionary declared rsdo := by
  unfold Dictionary.decide Refused
  split
  · unfold RestoreRefused
    cases dictionary.lookup (targetKey rsdo.data) with
    | none => exact ⟨fun _ _ found => (nomatch found), fun _ => ⟨_, rfl⟩⟩
    | some named =>
      simp only
      cases writable : named.writable with
      | false =>
        rw [if_neg Bool.false_ne_true]
        refine ⟨fun _ other found allowed => ?_, fun _ => ⟨_, rfl⟩⟩
        obtain rfl := Option.some.inj found
        exact absurd (writable.symm.trans allowed) Bool.false_ne_true
      | true =>
        rw [if_pos rfl]
        cases default : named.defaultValue with
        | none =>
          refine ⟨fun _ other found _ value restored => ?_, fun _ => ⟨_, rfl⟩⟩
          obtain rfl := Option.some.inj found
          exact nomatch default.symm.trans restored
        | some value =>
          constructor
          · intro refused other found _ restoredValue restored
            obtain rfl := Option.some.inj found
            obtain rfl := Option.some.inj (default.symm.trans restored)
            exact assigned_refuse.mp refused
          · intro refused
            exact assigned_refuse.mpr (refused named rfl writable value default)
  · have found := lookup_iff.mpr ⟨member, key.symm⟩
    have notRead : ¬rsdo.cs = clientInitRead := by rw [command]; decide
    rw [found]
    simp only [if_neg notRead]
    cases writable : declared.writable with
    | false => exact ⟨fun _ => rfl, fun _ => ⟨_, rfl⟩⟩
    | true =>
      have assigned := mt assigned_refuse.mp (not_not.mpr (makeOdValue_type rsdo.data declared.type))
      exact ⟨fun refused => absurd refused assigned, nofun⟩

/-- **A download is guarded exactly where the permissions refuse it.** A write request to an
entry is answered by an abort, and leaves the variable alone, whenever it does not carry
the object's value, if and only if it does carry it or is refused anyway. -/
theorem download_guarded_iff (member : declared ∈ dictionary.declared)
    (command : (ExpeditedSdo.fromPayload request).cs = clientInitWrite)
    (key : requestKey (ExpeditedSdo.fromPayload request) = declared.key) :
    Guarded node dictionary declared server request ↔
      Carries (ExpeditedSdo.fromPayload request) declared ∨
        Refused dictionary declared (ExpeditedSdo.fromPayload request) := by
  have refuse := decide_refuse member command key
  have notAbort : ¬(ExpeditedSdo.fromPayload request).cs = csAbort := by rw [command]; decide
  unfold Guarded
  rw [← refuse, call_result, handle_values]
  simp only [if_neg notAbort]
  constructor
  · intro guarded
    by_cases carries : Carries (ExpeditedSdo.fromPayload request) declared
    · exact .inl carries
    · obtain ⟨⟨code, aborted⟩, _⟩ := guarded carries
      cases decision : dictionary.decide (ExpeditedSdo.fromPayload request) with
      | refuse code => exact .inr ⟨code, rfl⟩
      | fetch fetched =>
        rw [decision] at aborted
        exact nomatch aborted
      | assign assigned value =>
        rw [decision] at aborted
        exact nomatch aborted
  · rintro (carries | ⟨code, decision⟩) lacks
    · exact absurd carries lacks
    · rw [decision]
      exact ⟨⟨code, rfl⟩, rfl⟩

/-! ## A segmented download -/

/-- One variable, a `uint32_t`. -/
def testingEntry : Declared (fun _ : Unit => Scalar.uint32) where
  key := ⟨0x2000, 0⟩
  var := ()
  access := .rw
  defaultValue := none

def testingDictionary : Dictionary (fun _ : Unit => Scalar.uint32) where
  declared := [testingEntry]
  keys := List.nodup_singleton _
  vars := List.nodup_singleton _

def testingServer : Server (Values fun _ : Unit => Scalar.uint32) where
  values := fun _ => (7 : BitVec 32)
  queue := .initial

def testingNode : NodeId := ⟨1, by decide⟩

/-- The first frame of a segmented download of 100 bytes: not expedited, the size in the data. -/
def segmentedDownload : Payload := #v[0x21, 0x00, 0x20, 0x00, 100, 0, 0, 0]

/-- An expedited download of four bytes. -/
def expeditedDownload : Payload := #v[0x23, 0x00, 0x20, 0x00, 1, 2, 3, 4]

theorem download_guarded_iff_testing :
    Guarded testingNode testingDictionary testingEntry testingServer expeditedDownload := by
  have iff := @download_guarded_iff _ _ _ testingDictionary testingEntry testingNode testingServer
    expeditedDownload (List.mem_singleton.mpr rfl) (by decide) (by decide)
  exact iff.mpr (.inl (by unfold Carries; decide))

/-- The byte count of a segmented download is stored as the value. -/
theorem segmented_download_stored :
    ¬Guarded testingNode testingDictionary testingEntry testingServer segmentedDownload ∧
      (ExpeditedSdo.fromPayload segmentedDownload).expeditedTransfer = 0 ∧
      testingServer.values () = (7 : BitVec 32) ∧
      (handle testingNode testingDictionary segmentedDownload testingServer).2.values () = (100 : BitVec 32) := by
  have decision : testingDictionary.decide (ExpeditedSdo.fromPayload segmentedDownload) =
      .assign testingEntry (100 : BitVec 32) := by rfl
  have stored : (handle testingNode testingDictionary segmentedDownload testingServer).2.values () =
      (100 : BitVec 32) := by
    rw [handle_values]
    simp only [decision]
    rfl
  refine ⟨fun guarded => ?_, rfl, rfl, stored⟩
  obtain ⟨_, same⟩ := guarded (by unfold Carries; decide)
  have changed : (100 : BitVec 32) ≠ 7 := by decide
  exact changed (stored.symm.trans same)

end Emblib.SdoDownload
