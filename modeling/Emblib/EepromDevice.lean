import Mathlib.Logic.Function.Basic
import Emblib.EepromStorage
import Emblib.NvmHash

/-! What a driver may do to the EEPROM behind it, and what each part of `read` and
`write` does against such a driver. Two drivers matter: one that never fails until
the power goes, and one whose calls may fail and leave garbage behind. -/
namespace Emblib.EepromDevice
open Programs ByteMemory EepromStorage

/-- The contents of every page. -/
abbrev Pages := Nat → Memory

def writePage (pages : Pages) (page offset : Nat) (bytes : List UInt8) : Pages :=
  Function.update pages page (patch (pages page) offset bytes)

/-- A driver call without any fault. -/
def clean : (call : Call) → Pages → Reply call × Pages
  | .read page offset len _, pages => ((.ok, slice (pages page) offset len), pages)
  | .write page offset bytes _, pages => (.ok, writePage pages page offset bytes)

/-- Every call succeeds until the power goes; then any subset of the bytes of the
write in progress has changed. -/
def powerLoss : Device Call Reply Pages where
  answers call pages reply after := clean call pages = (reply, after)
  tears
    | .read .., pages, torn => torn = pages
    | .write page offset bytes _, pages, torn =>
      ∃ memory, Torn offset bytes (pages page) memory ∧ torn = Function.update pages page memory

/-- Arbitrary bytes in the range of a write that did not succeed. -/
def Scrambles (page offset count : Nat) (pages after : Pages) : Prop :=
  ∃ memory, Confined offset count (pages page) memory ∧ after = Function.update pages page memory

/-- Any call may fail: a read leaves garbage in the buffer it was given, a write
leaves garbage in its range, whether it returns an error or the power goes. -/
def faulty : Device Call Reply Pages where
  answers
    | .read page offset len _, pages, (sts, bytes), after =>
      after = pages ∧ bytes.length = len ∧ (sts = .ok → bytes = slice (pages page) offset len)
    | .write page offset bytes _, pages, sts, after =>
      (sts = .ok ∧ after = writePage pages page offset bytes) ∨
        (sts ≠ .ok ∧ Scrambles page offset bytes.length pages after)
  tears
    | .read .., pages, torn => torn = pages
    | .write page offset bytes _, pages, torn => Scrambles page offset bytes.length pages torn

/-- What both drivers have in common: reads change nothing and a successful one is
exact, writes change only their own page and a successful one is exact. -/
structure Lawful (device : Device Call Reply Pages) : Prop where
  read_answer : ∀ page offset len timeout pages reply after,
    device.answers (.read page offset len timeout) pages reply after →
      after = pages ∧ reply.2.length = len ∧
        (reply.1 = .ok → reply.2 = slice (pages page) offset len)
  read_tear : ∀ page offset len timeout pages torn,
    device.tears (.read page offset len timeout) pages torn → torn = pages
  write_answer : ∀ page offset bytes timeout pages sts after,
    device.answers (.write page offset bytes timeout) pages sts after →
      (∀ other, other ≠ page → after other = pages other) ∧
        (sts = Status.ok → after = writePage pages page offset bytes)
  write_tear : ∀ page offset bytes timeout pages torn,
    device.tears (.write page offset bytes timeout) pages torn →
      ∀ other, other ≠ page → torn other = pages other

theorem writePage_other (different : other ≠ page) :
    writePage pages page offset bytes other = pages other :=
  Function.update_of_ne different _ _

theorem powerLoss_lawful : Lawful powerLoss where
  read_answer := by
    rintro page offset len timeout pages reply after answers
    cases answers
    exact ⟨rfl, slice_length, fun _ => rfl⟩
  read_tear := by
    rintro page offset len timeout pages torn rfl
    rfl
  write_answer := by
    rintro page offset bytes timeout pages sts after answers
    cases answers
    exact ⟨fun other different => writePage_other different, fun _ => rfl⟩
  write_tear := by
    rintro page offset bytes timeout pages torn ⟨memory, _, rfl⟩ other different
    exact Function.update_of_ne different _ _

theorem faulty_lawful : Lawful faulty where
  read_answer := fun _ _ _ _ _ _ _ answers => answers
  read_tear := fun _ _ _ _ _ _ tears => tears
  write_answer := by
    rintro page offset bytes timeout pages sts after (⟨good, rfl⟩ | ⟨bad, memory, _, rfl⟩)
    · exact ⟨fun other different => writePage_other different, fun _ => rfl⟩
    · exact ⟨fun other different => Function.update_of_ne different _ _, fun good => absurd good bad⟩
  write_tear := by
    rintro page offset bytes timeout pages torn ⟨memory, _, rfl⟩ other different
    exact Function.update_of_ne different _ _

/-! ## The two copies of a page -/

/-- The data and the stored CRC of one copy. -/
def data (pages : Pages) (page len : Nat) : List UInt8 := slice (pages page) 0 len

def storedCrc (pages : Pages) (page len : Nat) : List UInt8 := slice (pages page) len 4

/-- The stored CRC is the CRC of the data. -/
def Verifies (config : Config) (pages : Pages) (page len : Nat) : Prop :=
  config.calcCrc32 (data pages page len) = config.crcOfBytes (storedCrc pages page len)

instance : Decidable (Verifies config pages page len) :=
  inferInstanceAs (Decidable (_ = _))

/-- The copy is the record of this value: the bytes, then their CRC. -/
def Holds (config : Config) (pages : Pages) (page : Nat) (value : List UInt8) : Prop :=
  data pages page value.length = value ∧
    storedCrc pages page value.length = config.crcBytes (config.calcCrc32 value)

@[simp] theorem data_length : (data pages page len).length = len := slice_length

@[simp] theorem storedCrc_length : (storedCrc pages page len).length = 4 := slice_length

@[simp] theorem crcBytes_length (config : Config) (crc : UInt32) : (config.crcBytes crc).length = 4 :=
  encode_length _ _ _

@[simp] theorem crcOfBytes_crcBytes (config : Config) (crc : UInt32) :
    config.crcOfBytes (config.crcBytes crc) = crc := by
  have bound := crc.toNat_lt
  apply UInt32.toNat_inj.mp
  simp only [Config.crcOfBytes, Config.crcBytes, decode_encode, UInt32.toNat_ofNat']
  omega

theorem crcBytes_crcOfBytes (config : Config) (size : bytes.length = 4) :
    config.crcBytes (config.crcOfBytes bytes) = bytes := by
  have bound := decode_bound config.order bytes
  rw [size] at bound
  have exactly : (config.crcOfBytes bytes).toNat = config.order.decode bytes := by
    simp only [Config.crcOfBytes, UInt32.toNat_ofNat']
    omega
  rw [Config.crcBytes, exactly, ← size]
  exact encode_decode _ _

theorem holds_iff (size : value.length = len) :
    Holds config pages page value ↔ data pages page len = value ∧ Verifies config pages page len := by
  subst size
  unfold Holds Verifies
  constructor
  · rintro ⟨exact_data, exact_crc⟩
    exact ⟨exact_data, by rw [exact_data, exact_crc, crcOfBytes_crcBytes]⟩
  · rintro ⟨exact_data, verifies⟩
    refine ⟨exact_data, ?_⟩
    rw [exact_data] at verifies
    rw [verifies, crcBytes_crcOfBytes config storedCrc_length]

theorem data_congr (same : after page = pages page) : data after page len = data pages page len := by
  simp [data, same]

theorem storedCrc_congr (same : after page = pages page) :
    storedCrc after page len = storedCrc pages page len := by
  simp [storedCrc, same]

theorem verifies_congr (same : after page = pages page) :
    Verifies config after page len ↔ Verifies config pages page len := by
  rw [Verifies, Verifies, data_congr same, storedCrc_congr same]

theorem holds_congr (same : after page = pages page) :
    Holds config after page value ↔ Holds config pages page value := by
  rw [Holds, Holds, data_congr same, storedCrc_congr same]

theorem secondary_ne {config : Config} (inside : page < config.availablePageCount) :
    config.secondaryPage page ≠ page := by
  unfold Config.secondaryPage
  omega

/-- Both copies hold the value. -/
def Settled (config : Config) (page : Nat) (value : List UInt8) (pages : Pages) : Prop :=
  Holds config pages page value ∧ Holds config pages (config.secondaryPage page) value

section Written
variable {config : Config} {pages : Pages} {page : Nat} {value : List UInt8}

theorem written_data : data (writePage pages page 0 value) page value.length = value := by
  simp [data, writePage, slice_patch_same]

theorem written_crc :
    storedCrc (writePage pages page 0 value) page value.length = storedCrc pages page value.length := by
  simp only [storedCrc, writePage, Function.update_self]
  exact slice_patch_disjoint (.inr (by omega))

theorem rewritten_holds : Holds config (writePage (writePage pages page 0 value) page value.length
    (config.crcBytes (config.calcCrc32 value))) page value := by
  constructor
  · simp only [data, writePage, Function.update_self]
    rw [slice_patch_disjoint (.inl (by omega)), slice_patch_same]
  · simp only [storedCrc, writePage, Function.update_self]
    exact slice_patch_self (by simp)

theorem rewritten_other {first second : List UInt8} {start offset : Nat} (different : other ≠ page) :
    writePage (writePage pages page start first) page offset second other = pages other := by
  rw [writePage_other different, writePage_other different]

end Written

/-! ## The parts of `read` and `write` -/

/-- What `read` knows of a copy after looking at it. -/
structure Seen (config : Config) (pages : Pages) (page len : Nat) (copy : CopyRead) : Prop where
  flagged : copy.ok = true → copy.sts = .ok
  taken : copy.sts = .ok → copy.buf.take len = data pages page len
  crc : copy.sts = .ok → copy.crc = config.calcCrc32 (data pages page len)
  verified : copy.sts = .ok → (copy.ok = true ↔ Verifies config pages page len)

section Parts
variable {config : Config} {device : Device Call Reply Pages} {pages : Pages} {during : Pages → Prop}
  {page len : Nat} {buf : List UInt8} {timeout : Int}

theorem driverRead_ensures {next : Status × List UInt8 → Driver A} (lawful : Lawful device)
    (start : during pages)
    (rest : ∀ sts bytes, bytes.length = len → (sts = .ok → bytes = slice (pages page) offset len) →
      Ensures device post during (next (sts, bytes)) pages) :
    Ensures device post during (driverRead page offset len timeout >>= next) pages := by
  refine ⟨start, fun torn tears => ?_, ?_⟩
  · obtain rfl := lawful.read_tear _ _ _ _ _ _ tears
    exact start
  · rintro ⟨sts, bytes⟩ middle answers
    obtain ⟨rfl, size, faithful⟩ := lawful.read_answer _ _ _ _ _ _ _ answers
    exact rest sts bytes size faithful

/-- Looking at a copy changes nothing and reports it faithfully. -/
theorem readCopy_ensures (lawful : Lawful device) (start : during pages) :
    Ensures device (fun copy after => after = pages ∧ Seen config pages page len copy) during
      (readCopy config page buf len errors timeout) pages := by
  unfold readCopy
  apply driverRead_ensures lawful start
  intro sts bytes size exact_data
  by_cases failed : sts = .ok
  · simp only [failed, ne_eq, not_true_eq_false, ↓reduceIte]
    apply driverRead_ensures lawful start
    intro sts crc crcSize exact_crc
    by_cases again : sts = .ok
    · have taken : (overwrite buf bytes).take len = data pages page len := by
        rw [overwrite_take buf size]
        exact exact_data failed
      have stored : crc = storedCrc pages page len := exact_crc again
      simp only [again, taken, stored, not_true_eq_false, ↓reduceIte]
      split
      · rename_i same
        exact ⟨⟨rfl, fun _ => rfl, fun _ => taken, fun _ => rfl,
          fun _ => by simpa [Verifies] using same⟩, start⟩
      · rename_i different
        exact ⟨⟨rfl, fun _ => rfl, fun _ => taken, fun _ => rfl,
          fun _ => by simpa [Verifies] using different⟩, start⟩
    · simp only [again, not_false_eq_true, ↓reduceIte]
      exact ⟨⟨rfl, by simp, fun good => absurd good again, fun good => absurd good again,
        fun good => absurd good again⟩, start⟩
  · simp only [failed, ne_eq, not_false_eq_true, ↓reduceIte]
    exact ⟨⟨rfl, by simp, fun good => absurd good failed, fun good => absurd good failed,
      fun good => absurd good failed⟩, start⟩

/-- `read` is judged by its last part, from the pages it started with and from what
looking at the two copies can report. -/
theorem read_ensures {known : Nat → CopyRead → Prop}
    (look : ∀ page buf errors, Ensures device (fun copy after => after = pages ∧ known page copy)
      during (readCopy config page buf len errors timeout) pages)
    (inside : page < config.availablePageCount) (fits : len < config.availablePageBytes)
    (rest : ∀ primary secondary, known page primary → known (config.secondaryPage page) secondary →
      Ensures device post during (readEnd config page len primary secondary timeout) pages) :
    Ensures device post during (Storage.read config storage page buf len timeout) pages := by
  simp only [Storage.read, ge_iff_le, Nat.not_le.mpr inside, Nat.not_le.mpr fits, ↓reduceIte]
  refine ensures_bind.mpr (ensures_weaken (look _ _ _) ?_)
  rintro primary _ ⟨rfl, primaryKnown⟩
  refine ensures_bind.mpr (ensures_weaken (look _ _ _) ?_)
  rintro secondary _ ⟨rfl, secondaryKnown⟩
  exact rest primary secondary primaryKnown secondaryKnown

/-- Every page but this one is as it was. -/
def OnlyPage (page : Nat) (pages after : Pages) : Prop :=
  ∀ other, other ≠ page → after other = pages other

theorem onlyPage_trans (first : OnlyPage page pages middle) (second : OnlyPage page middle after) :
    OnlyPage page pages after :=
  fun other different => (second other different).trans (first other different)

theorem driverWrite_ensures {next : Status → Driver A} (lawful : Lawful device) (start : during pages)
    (only : ∀ after, OnlyPage page pages after → during after)
    (rest : ∀ sts after, OnlyPage page pages after →
      (sts = .ok → after = writePage pages page offset bytes) →
      Ensures device post during (next sts) after) :
    Ensures device post during (driverWrite page offset bytes timeout >>= next) pages := by
  refine ⟨start, fun torn tears => only torn (lawful.write_tear _ _ _ _ _ _ tears), ?_⟩
  intro sts after answers
  obtain ⟨others, exactly⟩ := lawful.write_answer _ _ _ _ _ _ _ answers
  exact rest sts after others exactly

/-- `repairCopy` touches no other page, whatever its two writes do. -/
theorem repairCopy_ensures (lawful : Lawful device) :
    Ensures device (fun _ after => OnlyPage page pages after) (OnlyPage page pages)
      (repairCopy config page buf len crc timeout) pages := by
  apply driverWrite_ensures lawful (fun _ _ => rfl) (fun _ only => only)
  intro _ middle first _
  apply driverWrite_ensures lawful first (fun _ only => onlyPage_trans first only)
  intro _ after second _
  exact ⟨onlyPage_trans first second, onlyPage_trans first second⟩

/-- `writeCopy` touches no other page; when it reports success its own page holds the
record in full. -/
theorem writeCopy_ensures {value : List UInt8} (lawful : Lawful device)
    (taken : buf.take value.length = value) :
    Ensures device
      (fun sts after => OnlyPage page pages after ∧ (sts = .ok → Holds config after page value))
      (OnlyPage page pages)
      (writeCopy page buf value.length (config.crcBytes (config.calcCrc32 value)) timeout) pages := by
  unfold writeCopy
  rw [taken]
  apply driverWrite_ensures lawful (fun _ _ => rfl) (fun _ only => only)
  intro sts middle first firstExact
  by_cases good : sts = .ok
  · simp only [good, ne_eq, not_true_eq_false, ↓reduceIte]
    refine ⟨first, fun torn tears => onlyPage_trans first (lawful.write_tear _ _ _ _ _ _ tears), ?_⟩
    intro last after answers
    obtain ⟨second, secondExact⟩ := lawful.write_answer _ _ _ _ _ _ _ answers
    refine ⟨⟨onlyPage_trans first second, fun done => ?_⟩, onlyPage_trans first second⟩
    rw [secondExact done, firstExact good]
    exact rewritten_holds
  · simp only [good, ne_eq, not_false_eq_true, ↓reduceIte]
    exact ⟨⟨first, fun done => absurd done good⟩, first⟩

end Parts

/-! ## A small device -/

/-- The geometry of the repository's test driver, with the CRC-32 of the NVM layout. -/
def testingConfig : Config where
  pageBytes := 64
  pageCount := 8
  calcCrc32 := NvmHash.crc32 []
  sizeBits := 32
  order := .little

/-- Every byte zero, as in a static array. -/
def blank : Pages := fun _ _ => 0

/-- Page 0 after the bytes have been stored there without a fault. -/
def stored (bytes : List UInt8) : Pages :=
  (run clean (Storage.write testingConfig ⟨[], {}⟩ 0 bytes bytes.length 0) blank).2

end Emblib.EepromDevice
