import Emblib.EepromPowerLoss

/-! Driver calls that fail at any time, leaving garbage. `read` only overwrites a copy
after it has verified the other one in the same call, so reads never lose data. `write`
does not look at the copies: after one failed write the next one may begin with the
copy that is still good, so redundancy survives exactly as long as each write begins
with a good secondary. -/
namespace Emblib.EepromFaults
open Programs ByteMemory Runs EepromStorage EepromDevice EepromPowerLoss

/-- The page numbers of the two copies. -/
def IsCopy (config : Config) (page copy : Nat) : Prop := copy = page ∨ copy = config.secondaryPage page

/-- The CRC detects garbage: a copy with other data than the value does not verify. -/
def Detects (config : Config) (page : Nat) (value : List UInt8) (pages : Pages) : Prop :=
  ∀ copy, IsCopy config page copy → Verifies config pages copy value.length →
    data pages copy value.length = value

/-- At least one copy still verifies and holds the value. -/
def Survives (config : Config) (page : Nat) (value : List UInt8) (pages : Pages) : Prop :=
  Holds config pages page value ∨ Holds config pages (config.secondaryPage page) value

section Page
variable {config : Config} {page : Nat} {value : List UInt8} {pages : Pages}

theorem seen_holds (detects : Detects config page value pages) (isCopy : IsCopy config page copy)
    (seen : Seen config pages copy value.length result) (flag : result.ok = true) :
    Holds config pages copy value ∧ result.buf.take value.length = value := by
  have good := seen.flagged flag
  have verifies := (seen.verified good).mp flag
  have exactly := detects copy isCopy verifies
  exact ⟨(holds_iff rfl).mpr ⟨exactly, verifies⟩, (seen.taken good).trans exactly⟩

theorem survives_primary (others : OnlyPage (config.secondaryPage page) pages after)
    (inside : page < config.availablePageCount) (holds : Holds config pages page value) :
    Survives config page value after :=
  .inl ((holds_congr (others _ (Ne.symm (secondary_ne inside)))).mpr holds)

theorem survives_secondary (others : OnlyPage page pages after)
    (inside : page < config.availablePageCount)
    (holds : Holds config pages (config.secondaryPage page) value) :
    Survives config page value after :=
  .inr ((holds_congr (others _ (secondary_ne inside))).mpr holds)

/-- One read with any pattern of driver failures: a copy is only overwritten while the
other one holds the value, and a read that returns ok delivers it. -/
theorem read_faulty (inside : page < config.availablePageCount)
    (fits : value.length < config.availablePageBytes) (detects : Detects config page value pages)
    (survives : Survives config page value pages) :
    Ensures faulty
      (fun result after => (result.1 = .ok → result.2.1.take value.length = value) ∧
        Survives config page value after)
      (Survives config page value)
      (Storage.read config storage page buf value.length timeout) pages := by
  refine read_ensures (fun _ _ _ => readCopy_ensures faulty_lawful survives) inside fits ?_
  intro primary secondary primarySeen secondarySeen
  cases primaryOk : primary.ok with
  | true =>
    obtain ⟨holds, taken⟩ := seen_holds detects (.inl rfl) primarySeen primaryOk
    by_cases agree : secondary.ok = true ∧ primary.crc = secondary.crc
    · rw [readEnd_agree primaryOk agree.1 agree.2]
      exact ⟨⟨fun _ => taken, survives⟩, survives⟩
    · -- the primary was verified in this call and is not touched by the repair
      rw [readEnd_outdated primaryOk fun secondaryOk same => agree ⟨secondaryOk, same⟩]
      refine ensures_bind.mpr (ensures_mono (repairCopy_ensures faulty_lawful) ?_ ?_)
      · intro _ after others _
        have kept := survives_primary others inside holds
        exact ⟨⟨fun _ => taken, kept⟩, kept⟩
      · exact fun middle others => survives_primary others inside holds
  | false =>
    cases secondaryOk : secondary.ok with
    | true =>
      obtain ⟨holds, taken⟩ := seen_holds detects (.inr rfl) secondarySeen secondaryOk
      rw [readEnd_restore primaryOk secondaryOk]
      refine ensures_bind.mpr (ensures_mono (repairCopy_ensures faulty_lawful) ?_ ?_)
      · intro _ after others _
        have kept := survives_secondary others inside holds
        refine ⟨⟨fun _ => ?_, kept⟩, kept⟩
        rw [taken]
        exact overwrite_take _ rfl
      · exact fun middle others => survives_secondary others inside holds
    | false =>
      obtain ⟨sts, errors, bad, ends⟩ := @readEnd_failed config primary secondary page
        value.length timeout primaryOk secondaryOk
      rw [ends]
      exact ⟨⟨fun good => absurd good bad, survives⟩, survives⟩

/-- A write that returns ok has been given a page and a length it accepts, and leaves
the record in both copies. -/
theorem write_faulty :
    Ensures faulty
      (fun result after => result.1 = .ok → page < config.availablePageCount ∧
        value.length < config.availablePageBytes ∧ Settled config page value after)
      (fun _ => True) (Storage.write config storage page value value.length timeout) pages := by
  unfold Storage.write
  split
  · exact ⟨(fun good => nomatch good), trivial⟩
  split
  · exact ⟨(fun good => nomatch good), trivial⟩
  rename_i inside fits
  rw [List.take_length]
  refine ensures_bind.mpr (ensures_mono
    (writeCopy_ensures faulty_lawful List.take_length) ?_ fun _ _ => trivial)
  rintro first middle ⟨_, primary⟩ _
  by_cases firstOk : first = .ok
  · simp only [firstOk, ne_eq, not_true_eq_false, ↓reduceIte]
    refine ensures_bind.mpr (ensures_mono
      (writeCopy_ensures faulty_lawful List.take_length) ?_ fun _ _ => trivial)
    rintro second after ⟨others, secondary⟩ _
    by_cases secondOk : second = .ok
    · simp only [secondOk, not_true_eq_false, ↓reduceIte]
      have accepted : page < config.availablePageCount := by omega
      have kept := (holds_congr (others _ (Ne.symm (secondary_ne accepted)))).mpr (primary firstOk)
      exact ⟨fun _ => ⟨accepted, by omega, kept, secondary secondOk⟩, trivial⟩
    · simp only [secondOk, not_false_eq_true, ↓reduceIte]
      exact ⟨fun good => absurd good secondOk, trivial⟩
  · simp only [firstOk, ne_eq, not_false_eq_true, ↓reduceIte]
    exact ⟨fun good => absurd good firstOk, trivial⟩

theorem rewriting_trivial : Rewriting config pages page value fun _ => True :=
  ⟨fun _ _ _ _ => trivial, fun _ _ _ _ => trivial⟩

/-- Without driver errors a page with at least one good copy is read, and the data of
the good copy is spread unless both verify already. -/
theorem read_fault_free (inside : page < config.availablePageCount)
    (fits : len < config.availablePageBytes)
    (verifies : Verifies config pages page len ∨ Verifies config pages (config.secondaryPage page) len) :
    Ensures powerLoss
      (fun result after => result.1 = .ok ∧ ∃ copy, IsCopy config page copy ∧
        Verifies config pages copy len ∧ result.2.1.take len = data pages copy len ∧
        (Settled config page (data pages copy len) after ∨ (after = pages ∧
          Verifies config pages page len ∧ Verifies config pages (config.secondaryPage page) len)))
      (fun _ => True) (Storage.read config storage page buf len timeout) pages := by
  refine read_ensures (fun _ _ _ => readCopy_powerLoss trivial) inside fits ?_
  intro primary secondary primaryReported secondaryReported
  cases primaryOk : primary.ok with
  | true =>
    have primaryGood := primaryReported.verified.mp primaryOk
    by_cases agree : secondary.ok = true ∧ primary.crc = secondary.crc
    · rw [readEnd_agree primaryOk agree.1 agree.2]
      exact ⟨⟨rfl, page, .inl rfl, primaryGood, primaryReported.taken,
        .inr ⟨rfl, primaryGood, secondaryReported.verified.mp agree.1⟩⟩, trivial⟩
    · rw [readEnd_outdated primaryOk fun secondaryOk same => agree ⟨secondaryOk, same⟩,
        primaryReported.crc]
      have taken := primaryReported.taken
      have size : (data pages page len).length = len := data_length
      have holds : Holds config pages page (data pages page len) :=
        (holds_iff size).mpr ⟨rfl, primaryGood⟩
      generalize data pages page len = value at taken size holds ⊢
      subst size
      refine ensures_bind.mpr (ensures_weaken (repairCopy_powerLoss rewriting_trivial taken) ?_)
      rintro _ after ⟨restored, others⟩
      have kept := (holds_congr (others _ (Ne.symm (secondary_ne inside)))).mpr holds
      exact ⟨⟨rfl, page, .inl rfl, primaryGood, by rw [taken, holds.1], .inl
        (by rw [holds.1]; exact ⟨kept, restored⟩)⟩, trivial⟩
  | false =>
    have primaryBad : ¬ Verifies config pages page len := fun good =>
      Bool.false_ne_true (primaryOk.symm.trans (primaryReported.verified.mpr good))
    have secondaryGood := verifies.resolve_left primaryBad
    have secondaryOk := secondaryReported.verified.mpr secondaryGood
    rw [readEnd_restore primaryOk secondaryOk, secondaryReported.crc]
    have taken := secondaryReported.taken
    have size : (data pages (config.secondaryPage page) len).length = len := data_length
    have holds : Holds config pages (config.secondaryPage page)
        (data pages (config.secondaryPage page) len) :=
      (holds_iff size).mpr ⟨rfl, secondaryGood⟩
    generalize data pages (config.secondaryPage page) len = value at taken size holds ⊢
    subst size
    refine ensures_bind.mpr (ensures_weaken (repairCopy_powerLoss rewriting_trivial taken) ?_)
    rintro _ after ⟨restored, others⟩
    have kept := (holds_congr (others _ (secondary_ne inside))).mpr holds
    refine ⟨⟨rfl, config.secondaryPage page, .inr rfl, secondaryGood, ?_, .inl ?_⟩, trivial⟩
    · rw [taken, holds.1]
      exact overwrite_take _ rfl
    · rw [holds.1]
      exact ⟨restored, kept⟩

/-! ## Reads never lose data -/

/-- One completed read call under any driver failures, with its status and the data it
delivered. It starts where the CRC detects garbage. -/
inductive FaultyRead (config : Config) (page : Nat) (value : List UInt8) :
    Pages → Status × List UInt8 → Pages → Prop where
  | call (detects : Detects config page value before)
      (ran : Completes faulty (Storage.read config storage page buf value.length timeout) before
        (sts, out, storage') after) :
      FaultyRead config page value before (sts, out.take value.length) after

theorem faulty_reads_survive (inside : page < config.availablePageCount)
    (fits : value.length < config.availablePageBytes) (start : Survives config page value written)
    (reads : Run (FaultyRead config page value) written outcomes now) :
    (∀ outcome ∈ outcomes, outcome.1 = .ok → outcome.2 = value) ∧ Survives config page value now := by
  refine run_invariant (fun outcomes pages =>
    (∀ outcome ∈ outcomes, outcome.1 = .ok → outcome.2 = value) ∧ Survives config page value pages)
    reads ⟨fun outcome member => by simp at member, start⟩ ?_
  rintro outcomes middle outcome after _ ⟨delivered, survives⟩ ⟨detects, ran⟩
  obtain ⟨taken, kept⟩ := completes_ensures (read_faulty inside fits detects survives) ran
  refine ⟨fun result member => ?_, kept⟩
  rcases List.mem_append.mp member with earlier | last
  · exact delivered result earlier
  · obtain rfl := List.mem_singleton.mp last
    exact taken

/-- A read without faults of a page with a good copy, as a run of the clean driver. -/
theorem read_clean (inside : page < config.availablePageCount)
    (fits : len < config.availablePageBytes)
    (verifies : Verifies config pages page len ∨ Verifies config pages (config.secondaryPage page) len) :
    ∃ out storage' after,
      run clean (Storage.read config storage page buf len timeout) pages = ((.ok, out, storage'), after) ∧
      ∃ copy, IsCopy config page copy ∧
        Verifies config pages copy len ∧ out.take len = data pages copy len ∧
        (Settled config page (data pages copy len) after ∨ (after = pages ∧
          Verifies config pages page len ∧ Verifies config pages (config.secondaryPage page) len)) := by
  have ran : Completes powerLoss (Storage.read config storage page buf len timeout) pages
      (run clean (Storage.read config storage page buf len timeout) pages).1
      (run clean (Storage.read config storage page buf len timeout) pages).2 :=
    completes_run (fun _ _ => rfl) _ _
  obtain ⟨good, copy, spread⟩ := completes_ensures (read_fault_free inside fits verifies) ran
  exact ⟨_, _, _, Prod.ext (Prod.ext good rfl) rfl, copy, spread⟩

/-- **Reads never lose data.** After a write that returned ok, whatever driver calls
fail inside the reads that follow: a read that returns ok delivers the value; in every
state reached, the middle of a read included, one copy holds it; and a read in which no
driver call fails delivers it and leaves it in both copies. -/
theorem reads_never_lose_data
    (written : Completes faulty (Storage.write config storage page value value.length timeout) before
      (.ok, storage') start)
    (reads : Run (FaultyRead config page value) start outcomes now)
    (detects : Detects config page value now) (later : Storage) (buf : List UInt8) (limit : Int) :
    (∀ outcome ∈ outcomes, outcome.1 = .ok → outcome.2 = value) ∧
      (∀ seen, Visits faulty (Storage.read config later page buf value.length limit) now seen →
        Survives config page value seen) ∧
      ∃ out later' after,
        run clean (Storage.read config later page buf value.length limit) now =
          ((.ok, out, later'), after) ∧
        out.take value.length = value ∧ Settled config page value after := by
  obtain ⟨inside, fits, settled⟩ := completes_ensures write_faulty written rfl
  obtain ⟨delivered, survives⟩ := faulty_reads_survive inside fits (.inl settled.1) reads
  refine ⟨delivered, fun seen visits => ?_, ?_⟩
  · exact visits_ensures (read_faulty inside fits detects survives) visits
  · have verifies : Verifies config now page value.length ∨
        Verifies config now (config.secondaryPage page) value.length :=
      survives.imp (fun holds => ((holds_iff rfl).mp holds).2) fun holds => ((holds_iff rfl).mp holds).2
    obtain ⟨out, later', after, ran, copy, isCopy, verified, taken, spread⟩ :=
      @read_clean config page now value.length later buf limit inside fits verifies
    have exactly := detects copy isCopy verified
    rw [exactly] at taken spread
    refine ⟨out, later', after, ran, taken, ?_⟩
    rcases spread with settled | ⟨same, primaryGood, secondaryGood⟩
    · exact settled
    · rw [same]
      exact ⟨(holds_iff rfl).mpr ⟨detects _ (.inl rfl) primaryGood, primaryGood⟩,
        (holds_iff rfl).mpr ⟨detects _ (.inr rfl) secondaryGood, secondaryGood⟩⟩

end Page

theorem faulty_clean : ∀ call pages, faulty.answers call pages (clean call pages).1 (clean call pages).2
  | .read _ _ _ _, _ => ⟨rfl, slice_length, fun _ => rfl⟩
  | .write _ _ _ _, _ => .inl ⟨rfl, rfl⟩

/-- A driver whose calls fail on the data of one page and leave nines there. -/
def broken (bad : Nat) : (call : Call) → Pages → Reply call × Pages
  | .read page offset len timeout, pages =>
    if page = bad ∧ offset = 0 then ((.readFailed, List.replicate len 9), pages)
    else clean (.read page offset len timeout) pages
  | .write page offset bytes timeout, pages =>
    if page = bad ∧ offset = 0 then
      (.writeFailed, writePage pages page offset (List.replicate bytes.length 9))
    else clean (.write page offset bytes timeout) pages

theorem faulty_broken (call : Call) (pages : Pages) :
    faulty.answers call pages (broken bad call pages).1 (broken bad call pages).2 := by
  cases call with
  | read page offset len timeout =>
    by_cases hit : page = bad ∧ offset = 0
    · simp only [broken, if_pos hit]
      exact ⟨rfl, List.length_replicate, fun good => nomatch good⟩
    · simp only [broken, if_neg hit]
      exact faulty_clean _ _
  | write page offset bytes timeout =>
    by_cases hit : page = bad ∧ offset = 0
    · simp only [broken, if_pos hit]
      have confined : Confined offset (List.replicate bytes.length (9 : UInt8)).length (pages page)
          (patch (pages page) offset (List.replicate bytes.length 9)) := confined_patch
      rw [List.length_replicate] at confined
      exact .inr ⟨(fun good => nomatch good), _, confined, rfl⟩
    · simp only [broken, if_neg hit]
      exact faulty_clean _ _

/-- Page 0 of the small device after a read to which the primary data was broken. -/
def damaged : Pages :=
  (run (broken 0) (Storage.read testingConfig ⟨[], {}⟩ 0 [0, 0] 2 0) (stored [1, 2])).2

/-- The first read fails to read the primary and, restoring it, to write it: garbage
stays in the primary, and the value is delivered from the secondary. -/
theorem reads_never_lose_data_testing :
    (∀ outcome ∈ [(Status.ok, [(1 : UInt8), 2])], outcome.1 = .ok → outcome.2 = [1, 2]) ∧
      (∀ seen, Visits faulty (Storage.read testingConfig ⟨[], {}⟩ 0 [0, 0] 2 0) damaged seen →
        Survives testingConfig 0 [1, 2] seen) ∧
      ∃ out later' after,
        run clean (Storage.read testingConfig ⟨[], {}⟩ 0 [0, 0] 2 0) damaged =
          ((.ok, out, later'), after) ∧
        out.take 2 = [1, 2] ∧ Settled testingConfig 0 [1, 2] after := by
  have written : Completes faulty (Storage.write testingConfig ⟨[], {}⟩ 0 [1, 2] 2 0) blank
      (.ok, ⟨[], {}⟩) (stored [1, 2]) := completes_run faulty_clean _ _
  have before : Detects testingConfig 0 [1, 2] (stored [1, 2]) := by
    rintro copy (rfl | rfl) _ <;> decide +kernel
  have after : Detects testingConfig 0 [1, 2] damaged := by
    rintro copy (rfl | rfl) verifies
    · exact absurd verifies (by decide +kernel)
    · decide +kernel
  have ran : Completes faulty (Storage.read testingConfig ⟨[], {}⟩ 0 [0, 0] 2 0) (stored [1, 2])
      (.ok, [1, 2], ⟨[1, 2], { read := 1, primaryDataCorrupted := 1 }⟩) damaged :=
    completes_run (@faulty_broken 0) _ _
  exact reads_never_lose_data written (.snoc .nil (.call before ran)) after ⟨[], {}⟩ [0, 0] 0

/-! ## Writes that fail -/

/-- At least one copy verifies, whatever it holds. -/
def Redundant (config : Config) (page len : Nat) (pages : Pages) : Prop :=
  Verifies config pages page len ∨ Verifies config pages (config.secondaryPage page) len

/-- The page verifies once in the states of any call, up to any of them: the call may
complete, fail or be cut off there. A write is labelled with its value; it starts where
the copy it does not touch first is good. -/
inductive Access (config : Config) (page len : Nat) : Pages → Option (List UInt8) → Pages → Prop where
  | write (size : value.length = len) (guard : Verifies config before (config.secondaryPage page) len)
      (seen : Visits faulty (Storage.write config storage page value len timeout) before after) :
      Access config page len before (some value) after
  | read (seen : Visits faulty (Storage.read config storage page buf len timeout) before after) :
      Access config page len before none after

section Writes
variable {config : Config} {page len : Nat} {pages : Pages}

theorem redundant_primary (others : OnlyPage (config.secondaryPage page) pages after)
    (inside : page < config.availablePageCount) (verifies : Verifies config pages page len) :
    Redundant config page len after :=
  .inl ((verifies_congr (others _ (Ne.symm (secondary_ne inside)))).mpr verifies)

theorem redundant_secondary (others : OnlyPage page pages after)
    (inside : page < config.availablePageCount)
    (verifies : Verifies config pages (config.secondaryPage page) len) :
    Redundant config page len after :=
  .inr ((verifies_congr (others _ (secondary_ne inside))).mpr verifies)

/-- A write over a good secondary: while the primary is written the secondary is good,
and the secondary is only written once the primary is. -/
theorem write_redundant {value : List UInt8} (inside : page < config.availablePageCount)
    (guard : Verifies config pages (config.secondaryPage page) value.length) :
    Ensures faulty (fun _ _ => True) (Redundant config page value.length)
      (Storage.write config storage page value value.length timeout) pages := by
  have start : Redundant config page value.length pages := .inr guard
  simp only [Storage.write, ge_iff_le, Nat.not_le.mpr inside, ↓reduceIte]
  split
  · exact ⟨trivial, start⟩
  rw [List.take_length]
  refine ensures_bind.mpr (ensures_mono
    (writeCopy_ensures faulty_lawful List.take_length) ?_
    fun middle others => redundant_secondary others inside guard)
  rintro first middle ⟨_, primary⟩ others
  by_cases firstOk : first = .ok
  · have good : Verifies config middle page value.length := ((holds_iff rfl).mp (primary firstOk)).2
    simp only [firstOk, ne_eq, not_true_eq_false, ↓reduceIte]
    refine ensures_bind.mpr (ensures_mono
      (writeCopy_ensures faulty_lawful List.take_length) ?_
      fun after others => redundant_primary others inside good)
    rintro second after ⟨others, _⟩ _
    have kept := redundant_primary others inside good
    split <;> exact ⟨trivial, kept⟩
  · simp only [firstOk, ne_eq, not_false_eq_true, ↓reduceIte]
    exact ⟨trivial, redundant_secondary others inside guard⟩

/-- A read writes a copy only after it has verified the other one. -/
theorem read_redundant (inside : page < config.availablePageCount)
    (fits : len < config.availablePageBytes) (redundant : Redundant config page len pages) :
    Ensures faulty (fun _ _ => True) (Redundant config page len)
      (Storage.read config storage page buf len timeout) pages := by
  refine read_ensures (fun _ _ _ => readCopy_ensures faulty_lawful redundant) inside fits ?_
  intro primary secondary primarySeen secondarySeen
  cases primaryOk : primary.ok with
  | true =>
    have good := (primarySeen.verified (primarySeen.flagged primaryOk)).mp primaryOk
    by_cases agree : secondary.ok = true ∧ primary.crc = secondary.crc
    · rw [readEnd_agree primaryOk agree.1 agree.2]
      exact ⟨trivial, redundant⟩
    · rw [readEnd_outdated primaryOk fun secondaryOk same => agree ⟨secondaryOk, same⟩]
      refine ensures_bind.mpr (ensures_mono (repairCopy_ensures faulty_lawful) ?_
        fun middle others => redundant_primary others inside good)
      exact fun _ after others _ => ⟨trivial, redundant_primary others inside good⟩
  | false =>
    cases secondaryOk : secondary.ok with
    | true =>
      have good := (secondarySeen.verified (secondarySeen.flagged secondaryOk)).mp secondaryOk
      rw [readEnd_restore primaryOk secondaryOk]
      refine ensures_bind.mpr (ensures_mono (repairCopy_ensures faulty_lawful) ?_
        fun middle others => redundant_secondary others inside good)
      exact fun _ after others _ => ⟨trivial, redundant_secondary others inside good⟩
    | false =>
      obtain ⟨sts, errors, bad, ends⟩ := @readEnd_failed config primary secondary page
        len timeout primaryOk secondaryOk
      rw [ends]
      exact ⟨trivial, redundant⟩

theorem accesses_redundant (inside : page < config.availablePageCount)
    (fits : len < config.availablePageBytes) (start : Redundant config page len written)
    (accesses : Run (Access config page len) written given now) : Redundant config page len now := by
  refine run_invariant (fun _ pages => Redundant config page len pages) accesses start ?_
  rintro given middle label after _ redundant access
  cases access with
  | write size guard seen =>
    subst size
    exact visits_ensures (write_redundant inside guard) seen
  | read seen => exact visits_ensures (read_redundant inside fits redundant) seen

/-- **Redundancy survives writes that start with a good secondary.** After a write that
returned ok, in every state that writes and reads lead to under any driver failures,
one copy verifies; a read without faults returns ok from there, leaves both copies
verifying, and delivers a value a write was given if the CRC detects all others. -/
theorem guarded_writes_keep_redundancy {value : List UInt8}
    (written : Completes faulty (Storage.write config storage page value value.length timeout) before
      (.ok, storage') start)
    (accesses : Run (Access config page value.length) start given now)
    (later : Storage) (buf : List UInt8) (limit : Int) :
    Redundant config page value.length now ∧
      ∃ out later' after,
        run clean (Storage.read config later page buf value.length limit) now =
          ((.ok, out, later'), after) ∧
        Verifies config after page value.length ∧
        Verifies config after (config.secondaryPage page) value.length ∧
        ((∀ copy, IsCopy config page copy → Verifies config now copy value.length →
            some (data now copy value.length) ∈ some value :: given) →
          some (out.take value.length) ∈ some value :: given) := by
  obtain ⟨inside, fits, settled⟩ := completes_ensures write_faulty written rfl
  have start : Redundant config page value.length start := .inl ((holds_iff rfl).mp settled.1).2
  have redundant := accesses_redundant inside fits start accesses
  obtain ⟨out, later', after, ran, copy, isCopy, verified, taken, spread⟩ :=
    @read_clean config page now value.length later buf limit inside fits redundant
  refine ⟨redundant, out, later', after, ran, ?_⟩
  have both : Verifies config after page value.length ∧
      Verifies config after (config.secondaryPage page) value.length := by
    rcases spread with settled | ⟨rfl, good⟩
    · have size : (data now copy value.length).length = value.length := data_length
      exact ⟨((holds_iff size).mp settled.1).2, ((holds_iff size).mp settled.2).2⟩
    · exact good
  exact ⟨both.1, both.2, fun detects => taken ▸ detects copy isCopy verified⟩

end Writes

/-- Page 0 of the small device after a write that failed on the secondary. -/
def halfway : Pages :=
  (run (broken 3) (Storage.write testingConfig ⟨[], {}⟩ 0 [3, 4] 2 0) (stored [1, 2])).2

/-- The same after one more write, which failed on the primary. -/
def lost : Pages := (run (broken 0) (Storage.write testingConfig ⟨[], {}⟩ 0 [5, 6] 2 0) halfway).2

/-- The write that failed may be read before the next one begins. -/
theorem guarded_writes_keep_redundancy_testing :
    Redundant testingConfig 0 2 halfway ∧
      ∃ out later' after,
        run clean (Storage.read testingConfig ⟨[], {}⟩ 0 [0, 0] 2 0) halfway =
          ((.ok, out, later'), after) ∧
        Verifies testingConfig after 0 2 ∧ Verifies testingConfig after 3 2 ∧
        ((∀ copy, IsCopy testingConfig 0 copy → Verifies testingConfig halfway copy 2 →
            some (data halfway copy 2) ∈ [some [1, 2], some [3, 4]]) →
          some (out.take 2) ∈ [some [1, 2], some [3, 4]]) := by
  have written : Completes faulty (Storage.write testingConfig ⟨[], {}⟩ 0 [1, 2] 2 0) blank
      (.ok, ⟨[], {}⟩) (stored [1, 2]) := completes_run faulty_clean _ _
  have failed : Completes faulty (Storage.write testingConfig ⟨[], {}⟩ 0 [3, 4] 2 0) (stored [1, 2])
      (.writeFailed, ⟨[], { write := 1 }⟩) halfway := completes_run (@faulty_broken 3) _ _
  have guard : Verifies testingConfig (stored [1, 2]) 3 2 := by decide +kernel
  have access : Access testingConfig 0 2 (stored [1, 2]) (some [3, 4]) halfway :=
    .write rfl guard (completes_visits failed)
  exact guarded_writes_keep_redundancy written (.snoc .nil access) ⟨[], {}⟩ [0, 0] 0

/-- A write looks at neither copy: the second of two writes that fail in a row begins with
the copy that the first one left good, and then neither copy verifies. -/
theorem failed_writes_lose_redundancy :
    Completes faulty (Storage.write testingConfig ⟨[], {}⟩ 0 [1, 2] 2 0) blank
        (.ok, ⟨[], {}⟩) (stored [1, 2]) ∧
      Completes faulty (Storage.write testingConfig ⟨[], {}⟩ 0 [3, 4] 2 0) (stored [1, 2])
        (.writeFailed, ⟨[], { write := 1 }⟩) halfway ∧
      Completes faulty (Storage.write testingConfig ⟨[], {}⟩ 0 [5, 6] 2 0) halfway
        (.writeFailed, ⟨[], { write := 1 }⟩) lost ∧
      ¬ Verifies testingConfig lost 0 2 ∧
      ¬ Verifies testingConfig lost (testingConfig.secondaryPage 0) 2 ∧
      (run clean (Storage.read testingConfig ⟨[], {}⟩ 0 [0, 0] 2 0) lost).1.1 = .dataCorrupted := by
  refine ⟨completes_run faulty_clean _ _, completes_run (@faulty_broken 3) _ _,
    completes_run (@faulty_broken 0) _ _, ?_, ?_, ?_⟩ <;> decide +kernel

end Emblib.EepromFaults
