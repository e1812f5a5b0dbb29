import Emblib.Library.Run
import Emblib.EepromDevice

/-! A power loss in the middle of a page write is decided once and for all. As long
as the primary copy is not completely new, every later read restores the old record
from the secondary; from the moment it is, every later read spreads the new one. The
repair writes of a read that is itself cut off keep the page on the same side. -/
namespace Emblib.EepromPowerLoss
open Programs ByteMemory Runs EepromStorage EepromDevice

/-- The CRC tells the two records apart and exposes every other byte-wise mixture of
their data, next to any byte-wise mixture of their stored CRCs. -/
structure Separates (config : Config) (old new : List UInt8) : Prop where
  distinct : old ≠ new → config.calcCrc32 old ≠ config.calcCrc32 new
  exposes : ∀ mixed crc, Mixture old new mixed →
    Mixture (config.crcBytes (config.calcCrc32 old)) (config.crcBytes (config.calcCrc32 new)) crc →
    config.crcBytes (config.calcCrc32 mixed) = crc → mixed = old ∨ mixed = new

/-- A copy caught between the two records: each byte is from one of them. -/
structure Mixed (config : Config) (old new : List UInt8) (pages : Pages) (page : Nat) : Prop where
  data : Mixture old new (data pages page old.length)
  crc : Mixture (config.crcBytes (config.calcCrc32 old)) (config.crcBytes (config.calcCrc32 new))
    (storedCrc pages page old.length)

/-- The write is undone: the secondary still holds the old record, and the primary
is not completely the new one. -/
structure StillOld (config : Config) (page : Nat) (old new : List UInt8) (pages : Pages) : Prop where
  secondary : Holds config pages (config.secondaryPage page) old
  primary : Mixed config old new pages page
  incomplete : ¬ Holds config pages page new

/-- The write is done: the primary holds the new record. -/
structure AlreadyNew (config : Config) (page : Nat) (old new : List UInt8) (pages : Pages) : Prop where
  primary : Holds config pages page new
  secondary : Mixed config old new pages (config.secondaryPage page)

theorem holds_mixed_old (holds : Holds config pages page old) : Mixed config old new pages page :=
  ⟨by rw [holds.1]; exact mixture_left, by rw [holds.2]; exact mixture_left⟩

/-- A mixed copy that verifies is one of the two records in full. -/
theorem mixed_verifies (separates : Separates config old new) (size : new.length = old.length)
    (mixed : Mixed config old new pages page) (verifies : Verifies config pages page old.length) :
    Holds config pages page old ∨ Holds config pages page new := by
  have stored : config.crcBytes (config.calcCrc32 (data pages page old.length)) =
      storedCrc pages page old.length := by
    rw [verifies, crcBytes_crcOfBytes config storedCrc_length]
  rcases separates.exposes _ _ mixed.data mixed.crc stored with old_data | new_data
  · exact .inl ((holds_iff rfl).mpr ⟨old_data, verifies⟩)
  · exact .inr ((holds_iff size).mpr ⟨new_data, verifies⟩)

/-! ## One copy rewritten until the power goes -/

/-- A copy is rewritten with a value: what the page may look like while the data is
written, and while the CRC is written after it. -/
structure Rewriting (config : Config) (pages : Pages) (page : Nat) (value : List UInt8)
    (during : Pages → Prop) : Prop where
  data : ∀ torn, (∀ other, other ≠ page → torn other = pages other) →
    Mixture (data pages page value.length) value (EepromDevice.data torn page value.length) →
    storedCrc torn page value.length = storedCrc pages page value.length → during torn
  crc : ∀ torn, (∀ other, other ≠ page → torn other = pages other) →
    EepromDevice.data torn page value.length = value →
    Mixture (storedCrc pages page value.length) (config.crcBytes (config.calcCrc32 value))
      (storedCrc torn page value.length) → during torn

theorem torn_data {value : List UInt8} (torn : Torn 0 value (pages page) memory) :
    Mixture (data pages page value.length) value
        (data (Function.update pages page memory) page value.length) ∧
      storedCrc (Function.update pages page memory) page value.length =
        storedCrc pages page value.length := by
  simp only [data, storedCrc, Function.update_self]
  exact ⟨torn_mixture torn rfl, slice_confined (torn_confined torn) (.inr (by omega))⟩

theorem torn_crc {config : Config} {value : List UInt8} {crc : UInt32}
    (torn : Torn value.length (config.crcBytes crc) (pages page) memory) :
    data (Function.update pages page memory) page value.length = data pages page value.length ∧
      Mixture (storedCrc pages page value.length) (config.crcBytes crc)
        (storedCrc (Function.update pages page memory) page value.length) := by
  simp only [data, storedCrc, Function.update_self]
  exact ⟨slice_confined (torn_confined torn) (.inl (by omega)), torn_mixture torn (by simp)⟩

/-- Under a driver that only loses power, a write request reaches its exact result. -/
theorem driverWrite_powerLoss {next : Status → Driver A} (start : during pages)
    (tears : ∀ memory, Torn offset bytes (pages page) memory →
      during (Function.update pages page memory))
    (rest : Ensures powerLoss post during (next .ok) (writePage pages page offset bytes)) :
    Ensures powerLoss post during (driverWrite page offset bytes timeout >>= next) pages := by
  refine ⟨start, ?_, ?_⟩
  · rintro torn ⟨memory, partly, rfl⟩
    exact tears memory partly
  · rintro reply middle answers
    cases answers
    exact rest

section Rewrite
variable {config : Config} {pages : Pages} {page : Nat} {value buf : List UInt8}
  {during : Pages → Prop}

theorem rewriting_start (rewriting : Rewriting config pages page value during) : during pages :=
  rewriting.data pages (fun _ _ => rfl) mixture_left rfl

theorem rewriting_torn_data (rewriting : Rewriting config pages page value during)
    (torn : Torn 0 value (pages page) memory) : during (Function.update pages page memory) := by
  obtain ⟨mixed, kept⟩ := torn_data torn
  exact rewriting.data _ (fun other different => Function.update_of_ne different _ _) mixed kept

theorem rewriting_middle (rewriting : Rewriting config pages page value during) :
    during (writePage pages page 0 value) := by
  refine rewriting.data _ (fun other different => writePage_other different) ?_ written_crc
  rw [written_data]
  exact mixture_right (by simp)

theorem rewriting_torn_crc (rewriting : Rewriting config pages page value during)
    (torn : Torn value.length (config.crcBytes (config.calcCrc32 value))
      (writePage pages page 0 value page) memory) :
    during (Function.update (writePage pages page 0 value) page memory) := by
  obtain ⟨kept, mixed⟩ := torn_crc torn
  rw [written_data] at kept
  rw [written_crc] at mixed
  refine rewriting.crc _ (fun other different => ?_) kept mixed
  rw [Function.update_of_ne different, writePage_other different]

theorem rewriting_end (rewriting : Rewriting config pages page value during) :
    during (writePage (writePage pages page 0 value) page value.length
      (config.crcBytes (config.calcCrc32 value))) := by
  have written : Holds config (writePage (writePage pages page 0 value) page value.length
      (config.crcBytes (config.calcCrc32 value))) page value := rewritten_holds
  obtain ⟨exact_data, exact_crc⟩ := written
  refine rewriting.crc _ (fun other different => rewritten_other different) exact_data ?_
  rw [exact_crc]
  exact mixture_right (by simp)

/-- `repairCopy` leaves the record in full, through the states of a rewriting. -/
theorem repairCopy_powerLoss (rewriting : Rewriting config pages page value during)
    (taken : buf.take value.length = value) :
    Ensures powerLoss
      (fun _ after => Holds config after page value ∧ ∀ other, other ≠ page → after other = pages other)
      during (repairCopy config page buf value.length (config.calcCrc32 value) timeout) pages := by
  unfold repairCopy
  rw [taken]
  apply driverWrite_powerLoss (rewriting_start rewriting)
    (fun memory torn => rewriting_torn_data rewriting torn)
  apply driverWrite_powerLoss (rewriting_middle rewriting)
    (fun memory torn => rewriting_torn_crc rewriting torn)
  exact ⟨⟨rewritten_holds, fun other different => rewritten_other different⟩, rewriting_end rewriting⟩

/-- `writeCopy` does the same and reports success. -/
theorem writeCopy_powerLoss (rewriting : Rewriting config pages page value during)
    (taken : buf.take value.length = value) :
    Ensures powerLoss
      (fun sts after => sts = .ok ∧ Holds config after page value ∧
        ∀ other, other ≠ page → after other = pages other)
      during (writeCopy page buf value.length (config.crcBytes (config.calcCrc32 value)) timeout)
      pages := by
  unfold writeCopy
  rw [taken]
  apply driverWrite_powerLoss (rewriting_start rewriting)
    (fun memory torn => rewriting_torn_data rewriting torn)
  refine ⟨rewriting_middle rewriting, ?_, ?_⟩
  · rintro torn ⟨memory, partly, rfl⟩
    exact rewriting_torn_crc rewriting partly
  · rintro reply middle answers
    cases answers
    exact ⟨⟨rfl, rewritten_holds, fun other different => rewritten_other different⟩,
      rewriting_end rewriting⟩

end Rewrite

/-! ## One read after the cut -/

/-- Without driver errors a copy is reported exactly. -/
structure Reported (config : Config) (pages : Pages) (page len : Nat) (copy : CopyRead) : Prop where
  sts : copy.sts = .ok
  taken : copy.buf.take len = data pages page len
  crc : copy.crc = config.calcCrc32 (data pages page len)
  verified : copy.ok = true ↔ Verifies config pages page len

theorem driverRead_powerLoss {next : Status × List UInt8 → Driver A} (start : during pages)
    (rest : Ensures powerLoss post during (next (.ok, slice (pages page) offset len)) pages) :
    Ensures powerLoss post during (driverRead page offset len timeout >>= next) pages := by
  refine ⟨start, fun torn same => same ▸ start, ?_⟩
  rintro reply middle answers
  cases answers
  exact rest

theorem readCopy_powerLoss (start : during pages) :
    Ensures powerLoss (fun copy after => after = pages ∧ Reported config pages page len copy) during
      (readCopy config page buf len errors timeout) pages := by
  have answered : Ensures powerLoss (fun copy _ => copy.sts = .ok) during
      (readCopy config page buf len errors timeout) pages := by
    unfold readCopy
    apply driverRead_powerLoss start
    simp only [ne_eq, not_true_eq_false, ↓reduceIte]
    apply driverRead_powerLoss start
    simp only [not_true_eq_false, ↓reduceIte]
    split <;> exact ⟨rfl, start⟩
  refine ensures_mono (ensures_and (readCopy_ensures powerLoss_lawful start) answered) ?_ fun _ => And.left
  rintro copy after ⟨⟨rfl, seen⟩, good⟩ _
  exact ⟨rfl, good, seen.taken good, seen.crc good, seen.verified good⟩

section Page
variable {config : Config} {page : Nat} {old new : List UInt8} {pages : Pages}

theorem holds_reported (holds : Holds config pages page value)
    (reported : Reported config pages page value.length copy) :
    copy.ok = true ∧ copy.buf.take value.length = value ∧ copy.crc = config.calcCrc32 value := by
  have verifies := ((holds_iff rfl).mp holds).2
  refine ⟨reported.verified.mpr verifies, ?_, ?_⟩
  · rw [reported.taken, holds.1]
  · rw [reported.crc, holds.1]

/-- Old bytes written over a mixed primary cannot turn it into the new record. -/
theorem stillOld_rewriting (state : StillOld config page old new pages)
    (size : new.length = old.length) (inside : page < config.availablePageCount) :
    Rewriting config pages page old (StillOld config page old new) where
  data := by
    intro torn others mixed kept
    refine ⟨(holds_congr (others _ (secondary_ne inside))).mpr state.secondary,
      ⟨mixture_toward_old state.primary.data mixed, kept ▸ state.primary.crc⟩, ?_⟩
    intro complete
    have new_data : data torn page old.length = new := by
      rw [← size]
      exact complete.1
    have new_crc := complete.2
    rw [new_data] at mixed
    rw [size, kept] at new_crc
    have before := mixture_back state.primary.data mixed
    exact state.incomplete ⟨by rw [size]; exact before, by rw [size]; exact new_crc⟩
  crc := by
    intro torn others exact_data mixed
    refine ⟨(holds_congr (others _ (secondary_ne inside))).mpr state.secondary,
      ⟨by rw [exact_data]; exact mixture_left, mixture_toward_old state.primary.crc mixed⟩, ?_⟩
    intro complete
    have same : old = new := by
      have new_data := complete.1
      rw [size, exact_data] at new_data
      exact new_data
    subst same
    exact state.incomplete ⟨mixture_self state.primary.data, mixture_self state.primary.crc⟩

/-- A read of a page whose write is undone returns the old record and restores it. -/
theorem read_stillOld (separates : Separates config old new) (size : new.length = old.length)
    (inside : page < config.availablePageCount) (fits : old.length < config.availablePageBytes)
    (state : StillOld config page old new pages) :
    Ensures powerLoss
      (fun result after => result.1 = .ok ∧ result.2.1.take old.length = old ∧
        Settled config page old after ∧ StillOld config page old new after)
      (StillOld config page old new)
      (Storage.read config storage page buf old.length timeout) pages := by
  apply read_ensures (fun page buf errors => readCopy_powerLoss state) inside fits
  intro primary secondary primaryReported secondaryReported
  obtain ⟨secondaryOk, secondaryTaken, secondaryCrc⟩ := holds_reported state.secondary secondaryReported
  cases primaryOk : primary.ok with
  | true =>
    -- a primary that verifies is the old record: the new one is not complete
    have holds : Holds config pages page old :=
      (mixed_verifies separates size state.primary (primaryReported.verified.mp primaryOk)).resolve_right
        state.incomplete
    obtain ⟨_, primaryTaken, primaryCrc⟩ := holds_reported holds primaryReported
    rw [readEnd_agree primaryOk secondaryOk (primaryCrc.trans secondaryCrc.symm)]
    exact ⟨⟨rfl, primaryTaken, ⟨holds, state.secondary⟩, state⟩, state⟩
  | false =>
    rw [readEnd_restore primaryOk secondaryOk, secondaryCrc]
    refine ensures_bind.mpr (ensures_mono (repairCopy_powerLoss
      (stillOld_rewriting state size inside) secondaryTaken) ?_ fun _ seen => seen)
    rintro _ after ⟨restored, others⟩ seen
    refine ⟨⟨rfl, ?_, ⟨restored, seen.secondary⟩, seen⟩, seen⟩
    rw [secondaryTaken]
    exact overwrite_take _ rfl

/-- New bytes written over a mixed secondary keep the write done. -/
theorem alreadyNew_rewriting (state : AlreadyNew config page old new pages)
    (size : new.length = old.length) (inside : page < config.availablePageCount) :
    Rewriting config pages (config.secondaryPage page) new (AlreadyNew config page old new) where
  data := by
    intro torn others mixed kept
    rw [size] at mixed kept
    exact ⟨(holds_congr (others _ (Ne.symm (secondary_ne inside)))).mpr state.primary,
      mixture_toward_new state.secondary.data mixed, kept ▸ state.secondary.crc⟩
  crc := by
    intro torn others exact_data mixed
    rw [size] at exact_data mixed
    exact ⟨(holds_congr (others _ (Ne.symm (secondary_ne inside)))).mpr state.primary,
      by rw [exact_data]; exact mixture_right size, mixture_toward_new state.secondary.crc mixed⟩

/-- A read of a page whose write is done returns the new record and spreads it. -/
theorem read_alreadyNew (separates : Separates config old new) (size : new.length = old.length)
    (inside : page < config.availablePageCount) (fits : old.length < config.availablePageBytes)
    (state : AlreadyNew config page old new pages) :
    Ensures powerLoss
      (fun result after => result.1 = .ok ∧ result.2.1.take old.length = new ∧
        Settled config page new after ∧ AlreadyNew config page old new after)
      (AlreadyNew config page old new)
      (Storage.read config storage page buf old.length timeout) pages := by
  apply read_ensures (fun page buf errors => readCopy_powerLoss state) inside fits
  intro primary secondary primaryReported secondaryReported
  rw [← size] at primaryReported
  obtain ⟨primaryOk, primaryTaken, primaryCrc⟩ := holds_reported state.primary primaryReported
  rw [size] at primaryTaken
  by_cases agree : secondary.ok = true ∧ secondary.crc = config.calcCrc32 new
  · -- equal CRCs: the secondary cannot be a different old record
    obtain ⟨secondaryOk, secondaryCrc⟩ := agree
    have holds : Holds config pages (config.secondaryPage page) new := by
      rcases mixed_verifies separates size state.secondary
        (secondaryReported.verified.mp secondaryOk) with old_copy | new_copy
      · have crc := (holds_reported old_copy secondaryReported).2.2
        have same : old = new := by
          by_contra different
          exact separates.distinct different (crc.symm.trans secondaryCrc)
        exact same ▸ old_copy
      · exact new_copy
    rw [readEnd_agree primaryOk secondaryOk (primaryCrc.trans secondaryCrc.symm)]
    exact ⟨⟨rfl, primaryTaken, ⟨state.primary, holds⟩, state⟩, state⟩
  · have stale : secondary.ok = true → primary.crc ≠ secondary.crc :=
      fun secondaryOk same => agree ⟨secondaryOk, same.symm.trans primaryCrc⟩
    rw [readEnd_outdated primaryOk stale, primaryCrc]
    rw [← size] at primaryTaken ⊢
    refine ensures_bind.mpr (ensures_mono (repairCopy_powerLoss
      (alreadyNew_rewriting state size inside) primaryTaken) ?_ fun _ seen => seen)
    rintro _ after ⟨restored, others⟩ seen
    exact ⟨⟨rfl, primaryTaken, ⟨seen.primary, restored⟩, seen⟩, seen⟩

/-- A page whose copies agree is only looked at. -/
theorem read_settled (inside : page < config.availablePageCount)
    (fits : value.length < config.availablePageBytes) (settled : Settled config page value pages) :
    Ensures powerLoss (fun _ _ => True) (fun seen => seen = pages)
      (Storage.read config storage page buf value.length timeout) pages := by
  refine read_ensures (fun page buf errors => readCopy_powerLoss rfl) inside fits ?_
  intro primary secondary primaryReported secondaryReported
  obtain ⟨primaryOk, _, primaryCrc⟩ := holds_reported settled.1 primaryReported
  obtain ⟨secondaryOk, _, secondaryCrc⟩ := holds_reported settled.2 secondaryReported
  rw [readEnd_agree primaryOk secondaryOk (primaryCrc.trans secondaryCrc.symm)]
  exact ⟨trivial, rfl⟩

/-! ## The write that is cut off -/

/-- While the primary is written, the page is on one side or the other. -/
theorem decided (secondary : Holds config pages (config.secondaryPage page) old)
    (mixed : Mixed config old new pages page) :
    StillOld config page old new pages ∨ AlreadyNew config page old new pages := by
  by_cases complete : Holds config pages page new
  · exact .inr ⟨complete, holds_mixed_old secondary⟩
  · exact .inl ⟨secondary, mixed, complete⟩

theorem write_primary_rewriting (settled : Settled config page old pages)
    (size : new.length = old.length) (inside : page < config.availablePageCount) :
    Rewriting config pages page new
      (fun seen => StillOld config page old new seen ∨ AlreadyNew config page old new seen) where
  data := by
    intro torn others mixed kept
    rw [size] at mixed kept
    apply decided ((holds_congr (others _ (secondary_ne inside))).mpr settled.2)
    refine ⟨?_, ?_⟩
    · rw [settled.1.1] at mixed
      exact mixed
    · rw [kept, settled.1.2]
      exact mixture_left
  crc := by
    intro torn others exact_data mixed
    rw [size] at exact_data mixed
    apply decided ((holds_congr (others _ (secondary_ne inside))).mpr settled.2)
    refine ⟨?_, ?_⟩
    · rw [exact_data]
      exact mixture_right size
    · rw [settled.1.2] at mixed
      exact mixed

/-- Wherever the write is cut off, the page is on one of the two sides; a write that
is not cut off ends with the new record in both copies. -/
theorem write_decides (size : new.length = old.length) (inside : page < config.availablePageCount)
    (fits : old.length < config.availablePageBytes) (settled : Settled config page old pages) :
    Ensures powerLoss
      (fun result after => result.1 = .ok ∧ Settled config page new after)
      (fun seen => StillOld config page old new seen ∨ AlreadyNew config page old new seen)
      (Storage.write config storage page new old.length timeout) pages := by
  simp only [Storage.write, ge_iff_le, Nat.not_le.mpr inside, Nat.not_le.mpr fits, ↓reduceIte]
  rw [← size, List.take_length]
  refine ensures_bind.mpr (ensures_mono (writeCopy_powerLoss
    (write_primary_rewriting settled size inside) List.take_length) ?_ fun _ seen => seen)
  rintro sts middle ⟨rfl, primary, others⟩ _
  have state : AlreadyNew config page old new middle :=
    ⟨primary, holds_mixed_old ((holds_congr (others _ (secondary_ne inside))).mpr settled.2)⟩
  simp only [ne_eq, not_true_eq_false, ↓reduceIte]
  refine ensures_bind.mpr (ensures_mono (writeCopy_powerLoss
    (alreadyNew_rewriting state size inside) List.take_length) ?_ fun _ seen => .inr seen)
  rintro sts final ⟨rfl, secondary, _⟩ seen
  simp only [not_true_eq_false, ↓reduceIte]
  exact ⟨⟨rfl, seen.primary, secondary⟩, .inr seen⟩

end Page

/-! ## Runs of reads -/

/-- One read call: it completes with a status and the data it delivered, or it is cut
off itself. The storage object, the buffer and the timeout may differ each time. -/
inductive ReadAttempt (config : Config) (page len : Nat) :
    Pages → Option (Status × List UInt8) → Pages → Prop where
  | completed (ran : Completes powerLoss (Storage.read config storage page buf len timeout) before
      (sts, out, storage') after) : ReadAttempt config page len before (some (sts, out.take len)) after
  | cut (seen : Visits powerLoss (Storage.read config storage page buf len timeout) before after) :
      ReadAttempt config page len before none after

/-- Every completed read delivered the value, and once there is one both copies hold it. -/
def Delivered (config : Config) (page : Nat) (value : List UInt8)
    (outcomes : List (Option (Status × List UInt8))) (pages : Pages) : Prop :=
  (∀ result, some result ∈ outcomes → result = (.ok, value)) ∧
    ((∃ result, some result ∈ outcomes) → Settled config page value pages)

/-- A side of the page that every read keeps, and from which every read delivers the
same value, makes a whole run of reads deliver that value. -/
theorem reads_deliver {side : Pages → Prop} (inside : page < config.availablePageCount)
    (fits : len < config.availablePageBytes) (size : value.length = len)
    (each : ∀ storage buf timeout pages, side pages →
      Ensures powerLoss
        (fun result after => result.1 = .ok ∧ result.2.1.take len = value ∧
          Settled config page value after ∧ side after)
        side (Storage.read config storage page buf len timeout) pages)
    (start : side torn) (reads : Run (ReadAttempt config page len) torn outcomes final) :
    side final ∧ Delivered config page value outcomes final := by
  refine run_invariant (fun outcomes pages => side pages ∧ Delivered config page value outcomes pages)
    reads ⟨start, ?_⟩ ?_
  · exact ⟨fun result member => by simp at member, fun ⟨result, member⟩ => by simp at member⟩
  · rintro outcomes middle outcome after _ ⟨kept, delivered⟩ attempt
    cases attempt with
    | completed ran =>
      obtain ⟨good, taken, settled, keeps⟩ := completes_ensures (each _ _ _ _ kept) ran
      refine ⟨keeps, fun result member => ?_, fun _ => settled⟩
      rcases List.mem_append.mp member with earlier | now
      · exact delivered.1 result earlier
      · obtain rfl := Option.some.inj (List.mem_singleton.mp now)
        exact Prod.ext good taken
    | cut seen =>
      refine ⟨visits_ensures (each _ _ _ _ kept) seen, fun result member => ?_, ?_⟩
      · rcases List.mem_append.mp member with earlier | now
        · exact delivered.1 result earlier
        · simp at now
      · rintro ⟨result, member⟩
        have earlier : some result ∈ outcomes := by simpa using member
        have settled := delivered.2 ⟨result, earlier⟩
        subst size
        obtain rfl := visits_ensures (read_settled inside fits settled) seen
        exact settled

/-- **A page write is atomic under power loss.** Cut off anywhere, and followed by any
run of reads that may be cut off themselves, the write has either not happened or has
happened for every read that completes, and the first of these settles both copies. -/
theorem cut_write_is_atomic (inside : page < config.availablePageCount)
    (fits : old.length < config.availablePageBytes) (size : new.length = old.length)
    (separates : Separates config old new) (recorded : Settled config page old start)
    (cut : Visits powerLoss (Storage.write config storage page new old.length timeout) start torn)
    (reads : Run (ReadAttempt config page old.length) torn outcomes final) :
    ∃ value, (value = old ∨ value = new) ∧ Delivered config page value outcomes final := by
  rcases visits_ensures (write_decides size inside fits recorded) cut with undone | done
  · have delivered := reads_deliver inside fits rfl
      (fun _ _ _ _ state => read_stillOld separates size inside fits state) undone reads
    exact ⟨old, .inl rfl, delivered.2⟩
  · have delivered := reads_deliver inside fits size
      (fun _ _ _ _ state => read_alreadyNew separates size inside fits state) done reads
    exact ⟨new, .inr rfl, delivered.2⟩

/-- The power goes after one byte of `[3, 4]` has replaced one of `[1, 2]`; the first
read afterwards is cut off before it does anything, the second one completes. -/
theorem cut_write_is_atomic_testing :
    ∃ value, (value = [1, 2] ∨ value = [3, 4]) ∧
      Delivered testingConfig 0 value [none, some (.ok, [1, 2])]
        (run clean (Storage.read testingConfig ⟨[], {}⟩ 0 [0, 0] 2 0)
          (writePage (stored [1, 2]) 0 0 [3])).2 := by
  have separates : Separates testingConfig [1, 2] [3, 4] := by
    refine ⟨by decide, ?_⟩
    rintro mixed crc ⟨size, pick⟩ ⟨_, exposed⟩ rfl
    match mixed, size with
    | [first, second], _ =>
      have left : first = 1 ∨ first = 3 := by simpa using pick 0
      have right : second = 2 ∨ second = 4 := by simpa using pick 1
      rcases left with rfl | rfl <;> rcases right with rfl | rfl
      · exact .inl rfl
      · exact absurd (exposed 0) (by decide)
      · exact absurd (exposed 0) (by decide)
      · exact .inr rfl
  have recorded : Settled testingConfig 0 [1, 2] (stored [1, 2]) := by
    refine ⟨⟨?_, ?_⟩, ?_, ?_⟩ <;> decide +kernel
  have partly : Torn 0 [3, 4] (stored [1, 2] 0) (patch (stored [1, 2] 0) 0 [3]) := by
    intro address
    cases address with
    | zero => exact .inr rfl
    | succ address => exact .inl (patch_above (by simp))
  have cut : Visits powerLoss (Storage.write testingConfig ⟨[], {}⟩ 0 [3, 4] 2 0)
      (stored [1, 2]) (writePage (stored [1, 2]) 0 0 [3]) :=
    .inr (.inl ⟨_, partly, rfl⟩)
  have early : Visits powerLoss (Storage.read testingConfig ⟨[], {}⟩ 0 [0, 0] 2 0)
      (writePage (stored [1, 2]) 0 0 [3]) (writePage (stored [1, 2]) 0 0 [3]) := .inl rfl
  have ran : Completes powerLoss (Storage.read testingConfig ⟨[], {}⟩ 0 [0, 0] 2 0)
      (writePage (stored [1, 2]) 0 0 [3]) _ _ := completes_run (fun _ _ => rfl) _ _
  have first := ReadAttempt.cut early
  have second := ReadAttempt.completed ran
  exact cut_write_is_atomic (by decide) (by decide) rfl separates recorded cut
    (.snoc (.snoc .nil first) second)

end Emblib.EepromPowerLoss
