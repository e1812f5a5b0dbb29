import Emblib.EepromDevice
import Emblib.Library.Lockstep
import Emblib.Library.Machine

/-! Logical pages do not interfere. A call for a page addresses its two copies only, inside the bytes
of a page, and the copies of two pages are different ones. The scratch buffer is shared by all pages,
but what it contains when a call begins does not reach the caller. -/
namespace Emblib.EepromIsolation
open Programs Machines ByteMemory EepromStorage EepromDevice

/-! ## A driver with independent pages -/

/-- The status in a reply. -/
def replied : (call : Call) → Reply call → Status
  | .read .., reply => reply.1
  | .write .., sts => sts

/-- The reply to a call, and what the call makes of the page, depend on the addressed page only. A read
that succeeds fills its buffer. -/
structure PageDriver (P : Type) where
  answer : (call : Call) → P → Reply call × P
  fills : ∀ page offset len timeout state sts bytes after,
    answer (.read page offset len timeout) state = ((sts, bytes), after) → sts = .ok → bytes.length = len

namespace PageDriver
variable {P : Type}

def handler (driver : PageDriver P) (call : Call) (pages : Nat → P) : Reply call × (Nat → P) :=
  let (reply, after) := driver.answer call (pages call.page)
  (reply, Function.update pages call.page after)

/-- The driver can give this reply. -/
def Gives (driver : PageDriver P) (call : Call) (reply : Reply call) : Prop :=
  ∃ state, reply = (driver.answer call state).1

/-- Some call of the driver returns this status. -/
def Reports (driver : PageDriver P) (sts : Status) : Prop :=
  ∃ call state, replied call (driver.answer call state).1 = sts

end PageDriver

/-! ## Reads and writes of pages -/

/-- A call of the storage: a page with the buffer, length and timeout that it is given. -/
inductive Operation where
  | read (page : Nat) (buf : List UInt8) (len : Nat) (timeout : Int)
  | write (page : Nat) (buf : List UInt8) (len : Nat) (timeout : Int)
  deriving DecidableEq, Repr

namespace Operation

def page : Operation → Nat
  | read page _ _ _ => page
  | write page _ _ _ => page

def buf : Operation → List UInt8
  | read _ buf _ _ => buf
  | write _ buf _ _ => buf

def len : Operation → Nat
  | read _ _ len _ => len
  | write _ _ len _ => len

end Operation

/-- The status that is returned, and the buffer of the caller after the call. -/
structure Outcome where
  sts : Status
  buf : List UInt8
  deriving DecidableEq, Repr

def perform (config : Config) (storage : Storage) : Operation → Driver (Outcome × Storage)
  | .read page buf len timeout => do
    let (sts, buf, storage) ← storage.read config page buf len timeout
    return (⟨sts, buf⟩, storage)
  | .write page buf len timeout => do
    let (sts, storage) ← storage.write config page buf len timeout
    return (⟨sts, buf⟩, storage)

/-- What the caller gets, and the driver calls that are made on the way. -/
structure Answer where
  outcome : Outcome
  calls : List Call

def step {P : Type} (driver : PageDriver P) (config : Config) (op : Operation)
    (state : Storage × (Nat → P)) : Answer × (Storage × (Nat → P)) :=
  let program := perform config state.1 op
  let ((outcome, storage), pages) := run driver.handler program state.2
  (⟨outcome, requests driver.handler program state.2⟩, (storage, pages))

/-- The page and the length pass the checks. -/
def Accepts (config : Config) (op : Operation) : Prop :=
  op.page < config.availablePageCount ∧ op.len < config.availablePageBytes

/-! ## The addressed bytes -/

/-- The device has room for a CRC and for two pages, and its sizes are values of `size_t`. -/
structure Geometry (config : Config) : Prop where
  crcFits : 4 ≤ config.pageBytes
  copiesFit : 2 ≤ config.pageCount
  bytesRange : config.pageBytes < 2 ^ config.sizeBits
  countRange : config.pageCount < 2 ^ config.sizeBits

/-- A copy of the page is addressed, inside the bytes of a page. -/
def Addresses (config : Config) (page : Nat) (call : Call) : Prop :=
  (call.page = page ∨ call.page = config.secondaryPage page) ∧
    call.offset + call.size ≤ config.pageBytes

section Addressed
variable {config : Config} {page other : Nat}

/-- A subtraction in `size_t` that does not wrap around. -/
theorem sizeSub_exact (low : right ≤ left) (high : left < 2 ^ config.sizeBits) :
    config.sizeSub left right = left - right := by
  calc config.sizeSub left right
      = (left - right + 2 ^ config.sizeBits) % 2 ^ config.sizeBits := by
        rw [Config.sizeSub, Nat.sub_add_comm low]
    _ = left - right := by
        rw [Nat.add_mod_right, Nat.mod_eq_of_lt (by omega)]

theorem availablePageBytes_eq (geometry : Geometry config) :
    config.availablePageBytes = config.pageBytes - 4 :=
  sizeSub_exact geometry.crcFits geometry.bytesRange

theorem availablePageCount_eq (geometry : Geometry config) :
    config.availablePageCount = (config.pageCount - 2) / 2 :=
  congrArg (· / 2) (sizeSub_exact geometry.copiesFit geometry.countRange)

theorem addresses_inside (geometry : Geometry config) (inside : page < config.availablePageCount)
    (addresses : Addresses config page call) : call.page < config.pageCount := by
  have count := availablePageCount_eq geometry
  have copies := addresses.1
  unfold Config.secondaryPage at copies
  omega

/-- The copies of two pages are different ones. -/
theorem addresses_apart (inside : page < config.availablePageCount)
    (otherInside : other < config.availablePageCount) (different : page ≠ other)
    (addresses : Addresses config page call) :
    call.page ≠ other ∧ call.page ≠ config.secondaryPage other := by
  have copies := addresses.1
  unfold Config.secondaryPage at copies ⊢
  omega

section Issued
variable {copy len : Nat} (isCopy : copy = page ∨ copy = config.secondaryPage page)
  (fits : len + 4 ≤ config.pageBytes)
include isCopy fits

theorem readCopy_issues (buf : List UInt8) (errors : Errors) (timeout : Int) :
    (readCopy config copy buf len errors timeout).Issues (Addresses config page) := by
  have data : Addresses config page (.read copy 0 len timeout) := ⟨isCopy, by
    simp only [Call.offset, Call.size]
    omega⟩
  have crc : Addresses config page (.read copy len 4 timeout) := ⟨isCopy, fits⟩
  unfold readCopy
  refine Program.issues_bind ⟨data, fun _ => trivial⟩ fun (sts, bytes) => ?_
  dsimp only
  split
  · trivial
  refine Program.issues_bind ⟨crc, fun _ => trivial⟩ fun (sts, bytes) => ?_
  dsimp only
  split
  · trivial
  split <;> trivial

/-- Both ways to write a copy: the data, then the CRC behind it. -/
theorem copy_written (buf : List UInt8) (crc : UInt32) (timeout : Int) :
    Addresses config page (.write copy 0 (buf.take len) timeout) ∧
      Addresses config page (.write copy len (config.crcBytes crc) timeout) := by
  refine ⟨⟨isCopy, ?_⟩, isCopy, ?_⟩
  · simp only [Call.offset, Call.size, List.length_take]
    omega
  · simp only [Call.offset, Call.size, crcBytes_length]
    omega

theorem repairCopy_issues (buf : List UInt8) (crc : UInt32) (timeout : Int) :
    (repairCopy config copy buf len crc timeout).Issues (Addresses config page) := by
  obtain ⟨data, check⟩ := copy_written isCopy fits buf crc timeout
  exact ⟨data, fun _ => ⟨check, fun _ => trivial⟩⟩

theorem writeCopy_issues (buf : List UInt8) (crc : UInt32) (timeout : Int) :
    (writeCopy copy buf len (config.crcBytes crc) timeout).Issues (Addresses config page) := by
  obtain ⟨data, check⟩ := copy_written isCopy fits buf crc timeout
  unfold writeCopy
  refine Program.issues_bind ⟨data, fun _ => trivial⟩ fun sts => ?_
  split
  · trivial
  · exact ⟨check, fun _ => trivial⟩

end Issued

theorem readEnd_issues (fits : len + 4 ≤ config.pageBytes) (primary secondary : CopyRead) (timeout : Int) :
    (readEnd config page len primary secondary timeout).Issues (Addresses config page) := by
  unfold readEnd
  split
  · trivial
  split
  · exact Program.issues_bind (repairCopy_issues (.inr rfl) fits _ _ _) fun _ => trivial
  split
  · exact Program.issues_bind (repairCopy_issues (.inl rfl) fits _ _ _) fun _ => trivial
  split <;> trivial

/-- A call addresses the copies of its own page only, and none at all if it is rejected. -/
theorem perform_issues (geometry : Geometry config) (storage : Storage) (op : Operation) :
    (perform config storage op).Issues fun call => Accepts config op ∧ Addresses config op.page call := by
  have bytes := availablePageBytes_eq geometry
  cases op with
  | read page buf len timeout =>
    refine Program.issues_bind ?_ fun _ => trivial
    unfold Storage.read
    split
    · trivial
    split
    · trivial
    rename_i inside below
    have fits : len + 4 ≤ config.pageBytes := by omega
    refine Program.issues_mono ?_ fun call addresses => ⟨⟨not_le.mp inside, not_le.mp below⟩, addresses⟩
    refine Program.issues_bind (readCopy_issues (.inl rfl) fits _ _ _) fun primary => ?_
    refine Program.issues_bind (readCopy_issues (.inr rfl) fits _ _ _) fun secondary => ?_
    exact readEnd_issues fits primary secondary timeout
  | write page buf len timeout =>
    refine Program.issues_bind ?_ fun _ => trivial
    unfold Storage.write
    split
    · trivial
    split
    · trivial
    rename_i inside below
    have fits : len + 4 ≤ config.pageBytes := by omega
    refine Program.issues_mono ?_ fun call addresses => ⟨⟨not_le.mp inside, not_le.mp below⟩, addresses⟩
    refine Program.issues_bind (writeCopy_issues (.inl rfl) fits _ _ _) fun sts => ?_
    split
    · trivial
    refine Program.issues_bind (writeCopy_issues (.inr rfl) fits _ _ _) fun sts => ?_
    split <;> trivial

end Addressed
/-! ## The scratch buffer -/

section Scratch
variable {P : Type} {driver : PageDriver P} {config : Config} {page len : Nat} {timeout : Int}

theorem gives_reports {call : Call} {reply : Reply call} (given : driver.Gives call reply) :
    driver.Reports (replied call reply) := by
  obtain ⟨state, rfl⟩ := given
  exact ⟨call, state, rfl⟩

theorem gives_fills (given : driver.Gives (.read page offset len timeout) (sts, bytes)) (ok : sts = .ok) :
    bytes.length = len := by
  obtain ⟨state, same⟩ := given
  exact driver.fills page offset len timeout state sts bytes _ (Prod.ext same.symm rfl) ok

/-- What `read` knows of a copy is the same, although its buffers may have had other contents. -/
structure SameCopy (driver : PageDriver P) (len : Nat) (copy other : CopyRead) : Prop where
  sts : copy.sts = other.sts
  crc : copy.crc = other.crc
  ok : copy.ok = other.ok
  taken : copy.ok = true → copy.buf.take len = other.buf.take len
  reported : copy.sts = .ok ∨ driver.Reports copy.sts

/-- The caller gets the same, and the status is one of the storage or of the driver. -/
structure SameResult (driver : PageDriver P) (result other : Status × List UInt8 × Storage) : Prop where
  sts : result.1 = other.1
  buf : result.2.1 = other.2.1
  reported : result.1 = .ok ∨ result.1 = .dataCorrupted ∨ driver.Reports result.1

theorem driverRead_lockstep (page offset len : Nat) (timeout : Int) :
    Lockstep driver.Gives
      (fun reply same => same = reply ∧ driver.Gives (.read page offset len timeout) reply)
      (driverRead page offset len timeout) (driverRead page offset len timeout) :=
  lockstep_perform (Call.read page offset len timeout)

theorem driverWrite_lockstep (page offset : Nat) (bytes : List UInt8) (timeout : Int) :
    Lockstep driver.Gives
      (fun sts same => same = sts ∧ driver.Gives (.write page offset bytes timeout) sts)
      (driverWrite page offset bytes timeout) (driverWrite page offset bytes timeout) :=
  lockstep_perform (Call.write page offset bytes timeout)

theorem readCopy_lockstep (buf buf' : List UInt8) (errors errors' : Errors) :
    Lockstep driver.Gives
      (fun copy other => SameCopy driver len copy other ∧ (buf = buf' → copy.buf = other.buf))
      (readCopy config page buf len errors timeout) (readCopy config page buf' len errors' timeout) := by
  unfold readCopy
  refine lockstep_bind (driverRead_lockstep _ _ _ _) ?_
  rintro ⟨sts, bytes⟩ _ ⟨rfl, given⟩
  have reported : driver.Reports sts := gives_reports given
  by_cases readable : sts = .ok
  · have filled := gives_fills given readable
    have taken : (overwrite buf bytes).take len = (overwrite buf' bytes).take len :=
      (overwrite_take buf filled).trans (overwrite_take buf' filled).symm
    simp only [readable, ne_eq, not_true_eq_false, if_false, taken]
    refine lockstep_bind (driverRead_lockstep _ _ _ _) ?_
    rintro ⟨sts, crcBytes⟩ _ ⟨rfl, given⟩
    have reported : driver.Reports sts := gives_reports given
    by_cases checkable : sts = .ok
    · simp only [checkable, not_true_eq_false, if_false]
      split <;> exact .pure ⟨⟨rfl, rfl, rfl, fun _ => taken, .inl rfl⟩, fun same => by rw [same]⟩
    · simp only [checkable, not_false_eq_true, if_true]
      exact .pure ⟨⟨rfl, rfl, rfl, nofun, .inr reported⟩, fun same => by rw [same]⟩
  · simp only [readable, ne_eq, not_false_eq_true, if_true]
    exact .pure ⟨⟨rfl, rfl, rfl, nofun, .inr reported⟩, fun same => by rw [same]⟩

theorem repairCopy_lockstep {buf buf' : List UInt8} {crc crc' : UInt32}
    (taken : buf.take len = buf'.take len) (same : crc = crc') :
    Lockstep driver.Gives Eq (repairCopy config page buf len crc timeout)
      (repairCopy config page buf' len crc' timeout) := by
  unfold repairCopy
  rw [taken, same]
  exact lockstep_refl _

theorem readEnd_lockstep {primary secondary primary' secondary' : CopyRead}
    (first : SameCopy driver len primary primary') (buf : primary.buf = primary'.buf)
    (second : SameCopy driver len secondary secondary') :
    Lockstep driver.Gives (SameResult driver) (readEnd config page len primary secondary timeout)
      (readEnd config page len primary' secondary' timeout) := by
  cases primaryOk : primary.ok with
  | true =>
    have primaryOk' := first.ok.symm.trans primaryOk
    by_cases agree : secondary.ok = true ∧ primary.crc = secondary.crc
    · have agree' : primary'.crc = secondary'.crc := first.crc.symm.trans (agree.2.trans second.crc)
      rw [readEnd_agree primaryOk agree.1 agree.2,
        readEnd_agree primaryOk' (second.ok.symm.trans agree.1) agree']
      exact .pure ⟨rfl, buf, .inl rfl⟩
    · have stale' (secondaryOk : secondary'.ok = true) : primary'.crc ≠ secondary'.crc := fun same =>
        agree ⟨second.ok.trans secondaryOk, first.crc.trans (same.trans second.crc.symm)⟩
      rw [readEnd_outdated primaryOk fun secondaryOk same => agree ⟨secondaryOk, same⟩,
        readEnd_outdated primaryOk' stale']
      refine lockstep_bind (repairCopy_lockstep (first.taken primaryOk) first.crc) ?_
      exact fun _ _ _ => .pure ⟨rfl, buf, .inl rfl⟩
  | false =>
    have primaryBad' := first.ok.symm.trans primaryOk
    cases secondaryOk : secondary.ok with
    | true =>
      have taken := second.taken secondaryOk
      rw [readEnd_restore primaryOk secondaryOk,
        readEnd_restore primaryBad' (second.ok.symm.trans secondaryOk), buf, taken]
      refine lockstep_bind (repairCopy_lockstep taken second.crc) ?_
      exact fun _ _ _ => .pure ⟨rfl, rfl, .inl rfl⟩
    | false =>
      have secondaryBad' := second.ok.symm.trans secondaryOk
      simp only [readEnd, primaryOk, secondaryOk, primaryBad', secondaryBad', ← second.sts,
        Bool.false_and, Bool.and_false, Bool.or_false, Bool.false_eq_true, if_false]
      cases second.reported with
      | inl readable =>
        rw [if_pos readable, if_pos readable]
        exact .pure ⟨rfl, buf, .inr (.inl rfl)⟩
      | inr reported =>
        split
        · exact .pure ⟨rfl, buf, .inr (.inl rfl)⟩
        · exact .pure ⟨rfl, buf, .inr (.inr reported)⟩

theorem writeCopy_lockstep (page : Nat) (buf crcBytes : List UInt8) (len : Nat) (timeout : Int) :
    Lockstep driver.Gives (fun sts same => same = sts ∧ (sts = .ok ∨ driver.Reports sts))
      (writeCopy page buf len crcBytes timeout) (writeCopy page buf len crcBytes timeout) := by
  unfold writeCopy
  refine lockstep_bind (driverWrite_lockstep _ _ _ _) ?_
  rintro sts _ ⟨rfl, given⟩
  split
  · exact .pure ⟨rfl, .inr (gives_reports given)⟩
  · exact lockstep_mono (driverWrite_lockstep _ _ _ _) fun sts same given =>
      ⟨given.1, .inr (gives_reports given.2)⟩

/-- What the caller gets, whatever the scratch buffer and the counters were. -/
def SameOutcome (driver : PageDriver P) (result other : Outcome × Storage) : Prop :=
  result.1 = other.1 ∧
    (result.1.sts = .ok ∨ result.1.sts = .dataCorrupted ∨ driver.Reports result.1.sts)

/-- A call that is accepted makes the same driver calls and returns the same from any state of the
storage object. -/
theorem perform_lockstep (accepted : Accepts config op) (storage other : Storage) :
    Lockstep driver.Gives (SameOutcome driver) (perform config storage op) (perform config other op) := by
  obtain ⟨inside, below⟩ := accepted
  cases op with
  | read page buf len timeout =>
    suffices read : Lockstep driver.Gives (SameResult driver) (storage.read config page buf len timeout)
        (other.read config page buf len timeout) by
      refine lockstep_bind read ?_
      rintro ⟨sts, buf, _⟩ ⟨_, _, _⟩ ⟨rfl, rfl, reported⟩
      exact .pure ⟨rfl, reported⟩
    have passes : ¬ page ≥ config.availablePageCount := not_le.mpr inside
    have short : ¬ len ≥ config.availablePageBytes := not_le.mpr below
    unfold Storage.read
    rw [if_neg passes, if_neg short, if_neg passes, if_neg short]
    refine lockstep_bind (readCopy_lockstep _ _ _ _) fun primary primary' first => ?_
    refine lockstep_bind (readCopy_lockstep _ _ _ _) fun secondary secondary' second => ?_
    exact readEnd_lockstep first.1 (first.2 rfl) second.1
  | write page buf len timeout =>
    suffices write : Lockstep driver.Gives
        (fun result other => result.1 = other.1 ∧ (result.1 = .ok ∨ driver.Reports result.1))
        (storage.write config page buf len timeout) (other.write config page buf len timeout) by
      refine lockstep_bind write ?_
      rintro ⟨sts, _⟩ ⟨_, _⟩ ⟨rfl, reported⟩
      exact .pure ⟨rfl, reported.imp_right .inr⟩
    have passes : ¬ page ≥ config.availablePageCount := not_le.mpr inside
    have short : ¬ len ≥ config.availablePageBytes := not_le.mpr below
    unfold Storage.write
    rw [if_neg passes, if_neg short, if_neg passes, if_neg short]
    refine lockstep_bind (writeCopy_lockstep _ _ _ _ _) ?_
    rintro sts _ ⟨rfl, reported⟩
    split
    · exact .pure ⟨rfl, reported⟩
    refine lockstep_bind (writeCopy_lockstep _ _ _ _ _) ?_
    rintro sts _ ⟨rfl, reported⟩
    split <;> exact .pure ⟨rfl, reported⟩

/-- What a call returns that does not pass the checks. -/
def rejection (config : Config) (op : Operation) : Outcome := ⟨config.rejection op.page, op.buf⟩

theorem perform_rejected (rejected : ¬ Accepts config op) (storage : Storage) :
    perform config storage op = return (rejection config op, storage) := by
  cases op with
  | read page buf len timeout =>
    have outOfRange : ¬ (page < config.availablePageCount ∧ len < config.availablePageBytes) := rejected
    simp only [perform]
    rw [read_rejected outOfRange]
    rfl
  | write page buf len timeout =>
    have outOfRange : ¬ (page < config.availablePageCount ∧ len < config.availablePageBytes) := rejected
    simp only [perform]
    rw [write_rejected outOfRange]
    rfl

/-! ## Calls for several pages -/

/-- The copies of the page are the same. -/
def SameCopies (config : Config) (page : Nat) (pages others : Nat → P) : Prop :=
  pages page = others page ∧ pages (config.secondaryPage page) = others (config.secondaryPage page)

theorem handler_blind (addresses : Addresses config page call) {pages others : Nat → P}
    (same : SameCopies config page pages others) :
    (driver.handler call pages).1 = (driver.handler call others).1 ∧
      driver.Gives call (driver.handler call pages).1 ∧
      SameCopies config page (driver.handler call pages).2 (driver.handler call others).2 := by
  have addressed : pages call.page = others call.page := by
    cases addresses.1 with
    | inl primary => rw [primary]; exact same.1
    | inr secondary => rw [secondary]; exact same.2
  simp only [PageDriver.handler, addressed]
  refine ⟨trivial, ⟨_, rfl⟩, ?_, ?_⟩
  · rw [Function.update_apply, Function.update_apply, same.1]
  · rw [Function.update_apply, Function.update_apply, same.2]

theorem handler_quiet (primary : call.page ≠ page) (secondary : call.page ≠ config.secondaryPage page)
    {pages others : Nat → P} (same : SameCopies config page pages others) :
    SameCopies config page (driver.handler call pages).2 others := by
  simp only [PageDriver.handler, SameCopies, Function.update_of_ne primary.symm,
    Function.update_of_ne secondary.symm]
  exact same

/-- The same, for a page that has copies. -/
def SamePage (config : Config) (page : Nat) (state other : Storage × (Nat → P)) : Prop :=
  page < config.availablePageCount → SameCopies config page state.2 other.2

theorem step_rejected (rejected : ¬ Accepts config op) (state : Storage × (Nat → P)) :
    step driver config op state = (⟨rejection config op, []⟩, state) := by
  simp only [step, perform_rejected rejected]
  rfl

/-- A call that is accepted does the same where the copies of its page are the same. -/
theorem step_accepted (driver : PageDriver P) (geometry : Geometry config) (accepted : Accepts config op)
    {state other : Storage × (Nat → P)} (same : SameCopies config op.page state.2 other.2) :
    let answer := (step driver config op state).1
    answer = (step driver config op other).1 ∧
      (answer.outcome.sts = .ok ∨ answer.outcome.sts = .dataCorrupted ∨
        driver.Reports answer.outcome.sts) ∧
      SameCopies config op.page (step driver config op state).2.2 (step driver config op other).2.2 := by
  obtain ⟨returned, asked, copies⟩ := lockstep_run (perform_lockstep accepted state.1 other.1)
    (perform_issues geometry state.1 op) (SameCopies config op.page)
    (fun call allowed pages others alike => handler_blind allowed.2 alike) same
  exact ⟨congrArg₂ Answer.mk returned.1 asked, returned.2, copies⟩

/-- A call answers alike where the copies of its page are the same. -/
theorem step_blind (geometry : Geometry config) (op : Operation) {state other : Storage × (Nat → P)}
    (same : SamePage config op.page state other) :
    (step driver config op state).1 = (step driver config op other).1 ∧
      SamePage config op.page (step driver config op state).2 (step driver config op other).2 := by
  by_cases accepted : Accepts config op
  · obtain ⟨answer, _, copies⟩ := step_accepted driver geometry accepted (same accepted.1)
    exact ⟨answer, fun _ => copies⟩
  · rw [step_rejected accepted, step_rejected accepted]
    exact ⟨rfl, same⟩

/-- A call for another page leaves the copies of a page alone. -/
theorem step_quiet (geometry : Geometry config) (different : op.page ≠ page)
    {state other : Storage × (Nat → P)} (same : SamePage config page state other) :
    SamePage config page (step driver config op state).2 other := by
  intro inside
  refine run_preserves (fun pages => SameCopies config page pages other.2)
    (fun call allowed pages copies => ?_) _ (perform_issues geometry state.1 op) (same inside)
  obtain ⟨primary, secondary⟩ := addresses_apart allowed.1.1 inside different allowed.2
  exact handler_quiet primary secondary copies

/-- What every call is like: the driver calls address the copies of its own page, there are none if the
call is rejected, and no other call fails with the status of a rejection unless the driver does. -/
structure Sound (driver : PageDriver P) (config : Config) (op : Operation) (answer : Answer) : Prop where
  addressed : ∀ call ∈ answer.calls, Accepts config op ∧ Addresses config op.page call
  rejected : ¬ Accepts config op → answer = ⟨rejection config op, []⟩
  reported : answer.outcome.sts = .invalidAddress ∨ answer.outcome.sts = .invalidDataSize →
    answer.calls = [] ∨ driver.Reports answer.outcome.sts

theorem step_sound (driver : PageDriver P) (geometry : Geometry config) (op : Operation)
    (state : Storage × (Nat → P)) :
    Sound driver config op (step driver config op state).1 := by
  have issues := perform_issues geometry state.1 op
  by_cases accepted : Accepts config op
  · have copies : SameCopies config op.page state.2 state.2 := ⟨rfl, rfl⟩
    obtain ⟨_, status, _⟩ := step_accepted driver geometry accepted copies
    refine ⟨requests_issues issues _, fun rejected => absurd accepted rejected, ?_⟩
    rintro (outside | long)
    · rw [outside] at status ⊢
      exact .inr ((status.resolve_left nofun).resolve_left nofun)
    · rw [long] at status ⊢
      exact .inr ((status.resolve_left nofun).resolve_left nofun)
  · rw [step_rejected accepted]
    exact ⟨nofun, fun _ => rfl, fun _ => .inl rfl⟩

/-- **EEPROM pages do not interfere.** Every driver call stays inside the device, the calls for two pages
are for different pages of the driver, and a page is answered as if there were no calls for other ones.
A call that is rejected makes no driver call. -/
theorem eeprom_pages_isolated (driver : PageDriver P) (geometry : Geometry config) (ops : List Operation)
    (state : Storage × (Nat → P)) :
    let log := ops.zip (execute (step driver config) ops state).1
    (∀ entry ∈ log, ∀ call ∈ entry.2.calls,
      call.page < config.pageCount ∧ call.offset + call.size ≤ config.pageBytes) ∧
    (∀ entry ∈ log, ∀ other ∈ log, entry.1.page ≠ other.1.page →
      ∀ call ∈ entry.2.calls, ∀ otherCall ∈ other.2.calls, call.page ≠ otherCall.page) ∧
    (∀ page, answersTo (fun op => op.page = page) ops (execute (step driver config) ops state).1 =
      (execute (step driver config) (ops.filter fun op => op.page = page) state).1) ∧
    (∀ entry ∈ log, ¬ Accepts config entry.1 → entry.2 = ⟨rejection config entry.1, []⟩) ∧
    ∀ entry ∈ log, (entry.2.outcome.sts = .invalidAddress ∨ entry.2.outcome.sts = .invalidDataSize) →
      entry.2.calls = [] ∨ driver.Reports entry.2.outcome.sts := by
  have sound := execute_each (step_sound driver geometry) ops state
  refine ⟨fun entry member call made => ?_, fun entry member other otherMember different => ?_,
    fun page => ?_, fun entry member => (sound entry member).rejected,
    fun entry member => (sound entry member).reported⟩
  · obtain ⟨accepted, addresses⟩ := (sound entry member).addressed call made
    exact ⟨addresses_inside geometry accepted.1 addresses, addresses.2⟩
  · intro call made otherCall otherMade same
    obtain ⟨accepted, addresses⟩ := (sound entry member).addressed call made
    obtain ⟨otherAccepted, otherAddresses⟩ := (sound other otherMember).addressed otherCall otherMade
    obtain ⟨primary, secondary⟩ := addresses_apart accepted.1 otherAccepted.1 different addresses
    rw [same] at primary secondary
    exact otherAddresses.1.elim primary secondary
  · refine (execute_selected (fun op => decide (op.page = page)) (SamePage config page) ?_ ?_ ops
      fun _ => ⟨rfl, rfl⟩).1
    · intro op chosen before other same
      obtain rfl := of_decide_eq_true chosen
      exact step_blind geometry op same
    · intro op left before other same
      exact step_quiet geometry (of_decide_eq_false left) same

end Scratch

/-! ## A memory -/

/-- A driver that stores bytes and never fails. -/
def memoryDriver : PageDriver Memory where
  answer
    | .read _ offset len _, memory => ((.ok, slice memory offset len), memory)
    | .write _ offset bytes _, memory => (.ok, patch memory offset bytes)
  fills := by
    rintro page offset len timeout memory sts bytes after answered _
    cases answered
    exact slice_length

theorem testing_geometry : Geometry testingConfig where
  crcFits := by decide
  copiesFit := by decide
  bytesRange := by decide
  countRange := by decide

/-- A read of page 1 between a write and a read of page 0, the first one of which fills the scratch
buffer and fails. -/
theorem eeprom_pages_isolated_testing :
    let ops : List Operation := [.write 0 [1, 2] 2 0, .read 1 [0, 0] 2 0, .read 0 [9, 9] 2 0]
    let start : Storage × (Nat → Memory) := (⟨[], {}⟩, blank)
    answersTo (fun op => op.page = 0) ops (execute (step memoryDriver testingConfig) ops start).1 =
      (execute (step memoryDriver testingConfig) [.write 0 [1, 2] 2 0, .read 0 [9, 9] 2 0] start).1 :=
  (eeprom_pages_isolated memoryDriver testing_geometry
    [.write 0 [1, 2] 2 0, .read 1 [0, 0] 2 0, .read 0 [9, 9] 2 0] (⟨[], {}⟩, blank)).2.2.1 0

end Emblib.EepromIsolation
