import Emblib.TroubleMirror

/-! The loops over the levels of a status. The counter has the underlying type of the levels, and it
is incremented once more behind the last level: where that level is the largest value of the type,
no increment ever gets past it. The checks of the registry bound the levels from above only. -/
namespace Emblib.TroubleLoops
open Trouble TroubleMirror

/-! ## The counter -/

/-- `for (auto l = lo; l <= hi; ++l)`: the levels it goes through, in at most so many rounds. -/
def levels (type : Underlying) : Nat → Int → Int → Option (List Int)
  | 0, _, _ => none
  | fuel + 1, l, hi =>
    if l ≤ hi then do
      let rest ← levels type fuel (← type.increment l) hi
      return l :: rest
    else some []

section Counter
variable {type : Underlying} {fuel : Nat} {l hi : Int} {visited : List Int}

theorem lowest_le_highest (type : Underlying) : type.lowest ≤ type.highest := by
  unfold Underlying.lowest Underlying.highest
  have half : 0 < 2 ^ (type.bits - 1) := Nat.two_pow_pos _
  have full : 0 < 2 ^ type.bits := Nat.two_pow_pos _
  split
  · omega
  · omega

/-- A loop up to the largest value never ends: from there the counter overflows, or starts over. -/
theorem levels_ends (ended : levels type fuel l hi = some visited) (more : l ≤ hi)
    (bound : hi ≤ type.highest) : hi < type.highest := by
  induction fuel generalizing l visited with
  | zero => cases ended
  | succ fuel ih =>
    rw [levels, if_pos more] at ended
    obtain ⟨next, counted, rest⟩ := Option.bind_eq_some_iff.mp ended
    obtain ⟨later, went, _⟩ := Option.bind_eq_some_iff.mp rest
    unfold Underlying.increment at counted
    by_cases below : l < type.highest
    · rw [if_pos below] at counted
      obtain rfl := Option.some.inj counted
      by_cases again : l + 1 ≤ hi
      · exact ih went again
      · omega
    · rw [if_neg below] at counted
      split at counted
      · cases counted
      · obtain rfl := Option.some.inj counted
        have same : hi = type.highest := by omega
        exact ih went (same ▸ lowest_le_highest type)

/-- Below the largest value, the loop visits each level once. -/
theorem levels_visits (last : hi < type.highest) (count : Nat) (span : hi + 1 - l = count) :
    ∃ visited, levels type (count + 1) l hi = some visited ∧ visited.length = count ∧
      ∀ k ∈ visited, l ≤ k ∧ k ≤ hi := by
  induction count generalizing l with
  | zero => exact ⟨[], if_neg (by omega), rfl, nofun⟩
  | succ count ih =>
    obtain ⟨visited, went, length, inside⟩ := ih (l := l + 1) (by omega)
    refine ⟨l :: visited, ?_, congrArg Nat.succ length, ?_⟩
    · have more : l ≤ hi := by omega
      have counted : type.increment l = some (l + 1) := if_pos (by omega)
      rw [levels, if_pos more, counted]
      simp only [Option.bind_eq_bind, Option.bind_some, went]
      rfl
    · intro k member
      cases member with
      | head => omega
      | tail _ later =>
        have range := inside k later
        omega

end Counter

/-! ## The loops of the registry -/

section Loops
variable {S : Type} [DecidableEq S] {config : Config S} {s : S} {visited : List Int}
  {registry : Registry config}

/-- The loop of `reset<S>` resets each level that the counter goes through. -/
theorem resetLoop_eq (fuel : Nat) (s : S) (l hi : Int) (registry : Registry config) :
    resetLoop fuel s l hi registry = (levels config.underlying fuel l hi).bind fun visited =>
      visited.foldlM (fun registry l => change bitReset s l registry) registry := by
  induction fuel generalizing l registry with
  | zero => rfl
  | succ fuel ih =>
    unfold resetLoop levels
    by_cases more : l ≤ hi
    · rw [if_pos more, if_pos more]
      simp only [Option.bind_eq_bind, Option.pure_def, Option.bind_assoc, Option.bind_some,
        List.foldlM_cons, ih]
      cases config.underlying.increment l with
      | none => simp
      | some next =>
        cases change bitReset s l registry with
        | none => simp
        | some after => rfl
    · rw [if_neg more, if_neg more]
      rfl

/-- The loop of `test<S>`, over the levels that are left. -/
def testLevels (s : S) (registry : Registry config) : List Int → Option Bool
  | [] => some false
  | l :: rest => do
    if ← testLevel s l registry then some true
    else testLevels s registry rest

theorem testLoop_eq {fuel : Nat} {l hi : Int} (went : levels config.underlying fuel l hi = some visited) :
    testLoop fuel s l hi registry = testLevels s registry visited := by
  induction fuel generalizing l visited with
  | zero => cases went
  | succ fuel ih =>
    unfold levels at went
    unfold testLoop
    by_cases more : l ≤ hi
    · rw [if_pos more] at went ⊢
      obtain ⟨next, counted, rest⟩ := Option.bind_eq_some_iff.mp went
      obtain ⟨later, walked, listed⟩ := Option.bind_eq_some_iff.mp rest
      obtain rfl := Option.some.inj listed
      simp only [counted, Option.bind_eq_bind, Option.bind_some, ih walked]
      rfl
    · rw [if_neg more] at went ⊢
      obtain rfl := Option.some.inj went
      rfl

/-- Where the status is not active, the loop of `test<S>` ends only if its counter does. -/
theorem testLoop_inactive {fuel : Nat} {l hi : Int} {found : Bool}
    (inactive : ∀ l, testLevel s l registry ≠ some true)
    (ended : testLoop fuel s l hi registry = some found) :
    ∃ visited, levels config.underlying fuel l hi = some visited := by
  induction fuel generalizing l with
  | zero => cases ended
  | succ fuel ih =>
    unfold testLoop at ended
    unfold levels
    by_cases more : l ≤ hi
    · rw [if_pos more] at ended ⊢
      obtain ⟨here, tested, rest⟩ := Option.bind_eq_some_iff.mp ended
      cases here with
      | true => exact absurd tested (inactive l)
      | false =>
        obtain ⟨next, counted, later⟩ := Option.bind_eq_some_iff.mp rest
        obtain ⟨visited, went⟩ := ih later
        simp only [counted, went, Option.bind_eq_bind, Option.bind_some]
        exact ⟨_, rfl⟩
    · rw [if_neg more]
      exact ⟨[], rfl⟩

/-- A round of the loop in `clear`. -/
def clearLevel (registry : Registry config) (l : Nat) : Option (Registry config) := do
  let i ← config.index l
  return { registry with flags := Function.update registry.flags i ((registry.flags i).store 0) }

/-- `clear`, with its loop over the levels. -/
def clearLoop (registry : Registry config) : Option (Registry config) :=
  (List.range config.levelCount).foldlM clearLevel { registry with shadow := fun _ => 0 }

theorem clearLevels_prefix (registry : Registry config) {count : Nat} (room : count ≤ config.levelCount) :
    (List.range count).foldlM clearLevel registry = some { registry with
      flags := fun i => if i.val < count then (registry.flags i).store 0 else registry.flags i } := by
  induction count with
  | zero => simp
  | succ count ih =>
    obtain ⟨i, index, place⟩ :=
      index_inside (Int.natCast_nonneg count) (Int.ofNat_lt.mpr (Nat.lt_of_succ_le room))
    have place : i.val = count := Int.ofNat_inj.mp place
    rw [List.range_succ, List.foldlM_append, ih (Nat.le_of_succ_le room)]
    simp only [Option.bind_eq_bind, Option.bind_some, List.foldlM_cons, List.foldlM_nil, clearLevel,
      index, Option.pure_def]
    congr 2
    funext j
    by_cases here : j = i
    · subst here
      rw [Function.update_self, if_neg (by omega), if_pos (by omega)]
    · have elsewhere : j.val ≠ count := fun same => here (Fin.ext (same.trans place.symm))
      have step : j.val < count + 1 ↔ j.val < count := by omega
      rw [Function.update_of_ne here, if_congr step rfl rfl]

theorem clearLoop_eq (registry : Registry config) : clearLoop registry = some (clear registry) := by
  rw [clearLoop, clearLevels_prefix _ le_rfl]
  simp only [Fin.is_lt, if_true]
  rfl

/-! ## Accesses inside of the arrays -/

/-- An index into an array of `LevelCount` elements. -/
def Inside (config : Config S) (l : Int) : Prop := 0 ≤ l ∧ l < config.levelCount

theorem change_inside (member : s ∈ config.statuses) (inside : Inside config l)
    (registry : Registry config) : ∃ after, change bitReset s l registry = some after := by
  obtain ⟨i, index, _⟩ := index_inside inside.1 inside.2
  obtain ⟨id, position⟩ := idOf_complete member
  obtain ⟨shadow, assigned, _⟩ := bitReset_assigns (registry.shadow i) id (idOf_lt position)
  unfold change
  simp only [index, position, assigned, Option.bind_eq_bind, Option.bind_some]
  exact ⟨_, rfl⟩

theorem testLevel_inside (member : s ∈ config.statuses) (inside : Inside config l)
    (registry : Registry config) : ∃ found, testLevel s l registry = some found := by
  obtain ⟨i, index, _⟩ := index_inside inside.1 inside.2
  obtain ⟨id, position⟩ := idOf_complete member
  unfold testLevel
  simp only [index, position, Option.bind_eq_bind, Option.bind_some]
  exact ⟨_, if_pos (idOf_lt position)⟩

theorem changes_inside (member : s ∈ config.statuses) (inside : ∀ l ∈ visited, Inside config l)
    (registry : Registry config) :
    ∃ after, visited.foldlM (fun registry l => change bitReset s l registry) registry = some after := by
  induction visited generalizing registry with
  | nil => exact ⟨registry, rfl⟩
  | cons l rest ih =>
    obtain ⟨between, changed⟩ := change_inside member (inside l List.mem_cons_self) registry
    rw [List.foldlM_cons, changed]
    exact ih (fun k later => inside k (List.mem_cons_of_mem l later)) between

theorem testLevels_inside (member : s ∈ config.statuses) (inside : ∀ l ∈ visited, Inside config l)
    (registry : Registry config) : ∃ found, testLevels s registry visited = some found := by
  induction visited with
  | nil => exact ⟨false, rfl⟩
  | cons l rest ih =>
    obtain ⟨found, tested⟩ := testLevel_inside member (inside l List.mem_cons_self) registry
    unfold testLevels
    rw [tested]
    cases found with
    | true => exact ⟨true, rfl⟩
    | false => exact ih fun k later => inside k (List.mem_cons_of_mem l later)

/-! ## Safety -/

/-- `level_max - level_min + 1`. -/
def rounds (config : Config S) (s : S) : Nat := (config.levelMax s - config.levelMin s + 1).toNat

/-- Every access is inside of its array, and the loop over the levels of a status ends after a round
for each of them, before its counter overflows. -/
structure Safe (config : Config S) : Prop where
  /-- `set<S, Lvl>`, `reset<S, Lvl>` and `test<S, Lvl>` -/
  level : ∀ s l, config.Valid s l → Inside config l
  loop : ∀ s ∈ config.statuses, config.levelMin s < config.levelMax s →
    ∃ visited,
      levels config.underlying (rounds config s + 1) (config.levelMin s) (config.levelMax s) =
        some visited ∧
      visited.length = rounds config s ∧
      ∀ l ∈ visited, Inside config l ∧ l < config.underlying.highest
  reset : ∀ s ∈ config.statuses, ∀ registry : Registry config,
    ∃ after, reset (rounds config s + 1) s registry = some after
  test : ∀ s ∈ config.statuses, ∀ registry : Registry config,
    ∃ found, test (rounds config s + 1) s registry = some found
  clear : ∀ registry : Registry config, ∃ after, clearLoop registry = some after

/-- No status has a negative level, and none that is looped over has the largest value of the type. -/
def Bounded (config : Config S) : Prop :=
  ∀ s ∈ config.statuses, 0 ≤ config.levelMin s ∧
    (config.levelMin s < config.levelMax s → config.levelMax s < config.underlying.highest)

theorem loop_of_bounded (bounded : Bounded config) (member : s ∈ config.statuses)
    (range : config.levelMin s < config.levelMax s) :
    ∃ visited,
      levels config.underlying (rounds config s + 1) (config.levelMin s) (config.levelMax s) =
        some visited ∧
      visited.length = rounds config s ∧
      ∀ l ∈ visited, Inside config l ∧ l < config.underlying.highest := by
  obtain ⟨nonneg, last⟩ := bounded s member
  have within := config.levelsWithin s member
  have span : config.levelMax s + 1 - config.levelMin s = rounds config s := by
    unfold rounds
    omega
  obtain ⟨visited, went, length, between⟩ := levels_visits (last range) _ span
  refine ⟨visited, went, length, fun l visit => ?_⟩
  obtain ⟨above, below⟩ := between l visit
  exact ⟨⟨nonneg.trans above, below.trans_lt within⟩, below.trans_lt (last range)⟩

theorem single_inside (bounded : Bounded config) (member : s ∈ config.statuses) :
    Inside config (config.levelMin s) :=
  ⟨(bounded s member).1, (config.validLevelRanges s member).trans_lt (config.levelsWithin s member)⟩

/-- **The level loops are safe exactly where the levels are not negative and a status of several
levels stays below the largest value of the underlying type.** -/
theorem level_loops_safe_iff (config : Config S) : Safe config ↔ Bounded config := by
  constructor
  · intro safe s member
    have range := config.validLevelRanges s member
    refine ⟨(safe.level s _ ⟨member, le_rfl, range⟩).1, fun several => ?_⟩
    obtain ⟨visited, ended, _⟩ := safe.loop s member several
    exact levels_ends ended range (config.enumerators s member).2
  · intro bounded
    constructor
    · rintro s l ⟨member, above, below⟩
      exact ⟨(bounded s member).1.trans above, below.trans_lt (config.levelsWithin s member)⟩
    · exact fun s member range => loop_of_bounded bounded member range
    · intro s member registry
      unfold reset
      split
      case isTrue single => exact change_inside member (single_inside bounded member) registry
      case isFalse several =>
        have range := lt_of_le_of_ne (config.validLevelRanges s member) several
        obtain ⟨visited, went, _, inside⟩ := loop_of_bounded bounded member range
        rw [resetLoop_eq, went]
        exact changes_inside member (fun l visit => (inside l visit).1) registry
    · intro s member registry
      unfold test
      split
      case isTrue single => exact testLevel_inside member (single_inside bounded member) registry
      case isFalse several =>
        have range := lt_of_le_of_ne (config.validLevelRanges s member) several
        obtain ⟨visited, went, _, inside⟩ := loop_of_bounded bounded member range
        rw [testLoop_eq went]
        exact testLevels_inside member (fun l visit => (inside l visit).1) registry
    · exact fun registry => ⟨_, clearLoop_eq registry⟩

end Loops

/-! ## A level that is the largest value -/

theorem uint8_positive : 0 < 8 := Nat.succ_pos 7

theorem testing_range : (254 : Int) ≤ 255 := Int.sub_nonneg.mp (Int.zero_le_ofNat 1)

/-- One status, at the levels 254 and 255 of an `enum class Level : std::uint8_t`. -/
def testingBytes : Config Unit where
  underlying := ⟨8, false, uint8_positive⟩
  statuses := [()]
  levelMin _ := 254
  levelMax _ := 255
  levelCount := 256
  enumerators _ _ := ⟨Int.zero_le_ofNat 254, le_rfl⟩
  unique := List.nodup_singleton ()
  validLevelRanges _ _ := testing_range
  levelsWithin _ _ := Int.lt_succ 255
  statusCount := Nat.succ_le_succ (Nat.zero_le 255)

theorem testing_ends (fuel : Nat) : levels testingBytes.underlying fuel 254 255 = none := by
  cases went : levels testingBytes.underlying fuel 254 255 with
  | none => rfl
  | some visited => exact absurd (levels_ends went testing_range le_rfl) (lt_irrefl _)

/-- `reset<S>` does not end in any number of rounds, and `test<S>` does not where nothing is set. -/
theorem loops_never_end :
    ¬Safe testingBytes ∧
      (∀ fuel (registry : Registry testingBytes), reset fuel () registry = none) ∧
      ∀ fuel, test fuel () (Registry.initial testingBytes) = none := by
  have resets (fuel : Nat) (registry : Registry testingBytes) : reset fuel () registry = none := by
    have looped : reset fuel () registry = resetLoop fuel () 254 255 registry := rfl
    rw [looped, resetLoop_eq, testing_ends]
    rfl
  refine ⟨fun safe => ?_, resets, fun fuel => ?_⟩
  · obtain ⟨after, ended⟩ := safe.reset () List.mem_cons_self (Registry.initial testingBytes)
    rw [resets] at ended
    cases ended
  · have looped : test fuel () (Registry.initial testingBytes) =
        testLoop fuel () 254 255 (Registry.initial testingBytes) := rfl
    have inactive (l : Int) : testLevel () l (Registry.initial testingBytes) ≠ some true := by
      intro active
      obtain ⟨i, _, rest⟩ := Option.bind_eq_some_iff.mp active
      obtain ⟨id, position, tested⟩ := Option.bind_eq_some_iff.mp rest
      rw [bitTest, if_pos (idOf_lt position)] at tested
      simp [Registry.initial, DoubleBuffer.load] at tested
    rw [looped]
    cases ended : testLoop fuel () 254 255 (Registry.initial testingBytes) with
    | none => rfl
    | some found =>
      obtain ⟨visited, went⟩ := testLoop_inactive inactive ended
      rw [testing_ends] at went
      cases went

end Emblib.TroubleLoops
