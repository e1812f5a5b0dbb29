import Mathlib.Data.List.Induction
import Emblib.Trouble

/-! A trouble registry and its mirror agree. What carries the argument is that a status is
never active outside of its own levels, so that a scan of these and a scan of all levels
find the same. -/
namespace Emblib.TroubleMirror
open Trouble

variable {S : Type} [DecidableEq S] {config : Config S}

/-! ## Positions of statuses -/

theorem typeIndex_sound {t : S} {list : List S} {i : Nat} (found : typeIndex t list = some i) :
    list[i]? = some t := by
  induction list generalizing i with
  | nil => cases found
  | cons u rest ih =>
    unfold typeIndex at found
    split at found
    · rename_i same
      cases found
      exact congrArg some same.symm
    · obtain ⟨j, inside, rfl⟩ := Option.map_eq_some_iff.mp found
      rw [Nat.add_comm]
      exact ih inside

theorem typeIndex_complete {t : S} {list : List S} (member : t ∈ list) :
    ∃ i, typeIndex t list = some i := by
  induction list with
  | nil => cases member
  | cons u rest ih =>
    unfold typeIndex
    split
    · exact ⟨0, rfl⟩
    · rename_i different
      obtain ⟨i, found⟩ := ih ((List.mem_cons.mp member).resolve_left different)
      exact ⟨1 + i, by rw [found]; rfl⟩

/-- The conversion to an 8-bit integer changes no position. -/
theorem idOf_sound {s : S} {id : Nat} (found : config.idOf s = some id) :
    config.statuses[id]? = some s := by
  obtain ⟨i, position, rfl⟩ := Option.map_eq_some_iff.mp found
  have holds := typeIndex_sound position
  obtain ⟨inside, _⟩ := List.getElem?_eq_some_iff.mp holds
  rwa [Nat.mod_eq_of_lt (Nat.lt_of_lt_of_le inside config.statusCount)]

theorem idOf_lt {s : S} {id : Nat} (found : config.idOf s = some id) : id < config.statuses.length :=
  (List.getElem?_eq_some_iff.mp (idOf_sound found)).1

theorem idOf_complete {s : S} (member : s ∈ config.statuses) : ∃ id, config.idOf s = some id := by
  obtain ⟨i, position⟩ := typeIndex_complete member
  exact ⟨i % 256, by rw [Config.idOf, position]; rfl⟩

/-- Distinct statuses have distinct bits. -/
theorem idOf_eq_iff {s t : S} {id other : Nat} (first : config.idOf s = some id)
    (second : config.idOf t = some other) :
    other = id ↔ t = s := by
  constructor
  · rintro rfl
    exact Option.some.inj ((idOf_sound second).symm.trans (idOf_sound first))
  · rintro rfl
    exact Option.some.inj (second.symm.trans first)

/-- Every bit belongs to a status. -/
theorem idOf_getElem {s : S} {id : Nat} (holds : config.statuses[id]? = some s) :
    config.idOf s = some id := by
  obtain ⟨inside, _⟩ := List.getElem?_eq_some_iff.mp holds
  obtain ⟨other, found⟩ := idOf_complete (List.mem_of_getElem? holds)
  have same := (List.getElem?_inj inside config.unique).mp (holds.trans (idOf_sound found).symm)
  rw [found, same]

theorem index_inside {l : Int} (nonneg : 0 ≤ l) (below : l < config.levelCount) :
    ∃ i, config.index l = some i ∧ (i.val : Int) = l :=
  ⟨⟨l.toNat, by omega⟩, dif_pos ⟨nonneg, below⟩, Int.toNat_of_nonneg nonneg⟩

theorem index_sound {l : Int} {i : Fin config.levelCount} (found : config.index l = some i) :
    (i.val : Int) = l := by
  unfold Config.index at found
  split at found
  · rename_i inside
    cases found
    exact Int.toNat_of_nonneg inside.1
  · cases found

/-! ## Operations of the registry -/

/-- Set and reset of a level, reset of a status, and clear. -/
inductive Command (config : Config S) where
  | set (s : S) (l : Int) (valid : config.Valid s l)
  | resetLevel (s : S) (l : Int) (valid : config.Valid s l)
  | reset (s : S) (member : s ∈ config.statuses)
  | clear

def perform (fuel : Nat) : Command config → Registry config → Option (Registry config)
  | .set s l _, registry => set s l registry
  | .resetLevel s l _, registry => resetLevel s l registry
  | .reset s _, registry => reset fuel s registry
  | .clear, registry => some (clear registry)

def execute (fuel : Nat) : List (Command config) → Registry config → Option (Registry config)
  | [], registry => some registry
  | command :: rest, registry => do execute fuel rest (← perform fuel command registry)

/-- The operation decides whether the status is active at the level. -/
def Touches : Command config → S → Int → Prop
  | .set s l _, t, k => t = s ∧ k = l
  | .resetLevel s l _, t, k => t = s ∧ k = l
  | .reset s _, t, k => t = s ∧ config.levelMin s ≤ k ∧ k ≤ config.levelMax s
  | .clear, _, _ => True

def Sets : Command config → S → Int → Prop
  | .set s l _, t, k => t = s ∧ k = l
  | _, _, _ => False

/-- The last operation that touched the status at the level has set it. -/
def LastSet (commands : List (Command config)) (s : S) (l : Int) : Prop :=
  ∃ earlier command later, commands = earlier ++ command :: later ∧ Sets command s l ∧
    ∀ other ∈ later, ¬Touches other s l

theorem sets_touches {command : Command config} {s : S} {l : Int} (sets : Sets command s l) :
    Touches command s l := by
  cases command with
  | set t k valid => exact sets
  | resetLevel t k valid => cases sets
  | reset t member => cases sets
  | clear => cases sets

theorem lastSet_snoc {commands : List (Command config)} {command : Command config} {s : S} {l : Int} :
    LastSet (commands ++ [command]) s l ↔ Sets command s l ∨ ¬Touches command s l ∧ LastSet commands s l := by
  constructor
  · rintro ⟨earlier, setter, later, shape, sets, untouched⟩
    cases later using List.reverseRecOn with
    | nil =>
      obtain ⟨_, same⟩ := List.append_inj' shape rfl
      obtain rfl := List.singleton_inj.mp same
      exact .inl sets
    | append_singleton later last =>
      rw [← List.cons_append, ← List.append_assoc] at shape
      obtain ⟨before, same⟩ := List.append_inj' shape rfl
      obtain rfl := List.singleton_inj.mp same
      exact .inr ⟨untouched _ (by simp), earlier, setter, later, before, sets,
        fun other member => untouched other (List.mem_append_left _ member)⟩
  · rintro (sets | ⟨untouched, earlier, setter, later, rfl, sets, before⟩)
    · exact ⟨commands, command, [], rfl, sets, nofun⟩
    · refine ⟨earlier, setter, later ++ [command], by simp, sets, fun other member => ?_⟩
      cases List.mem_append.mp member with
      | inl early => exact before other early
      | inr last => exact List.mem_singleton.mp last ▸ untouched

/-- Only valid levels of a status can be set. -/
theorem lastSet_valid {commands : List (Command config)} {s : S} {l : Int}
    (active : LastSet commands s l) :
    config.Valid s l := by
  obtain ⟨_, command, _, _, sets, _⟩ := active
  cases command with
  | set t k valid =>
    obtain ⟨rfl, rfl⟩ := sets
    exact valid
  | resetLevel t k valid => cases sets
  | reset t member => cases sets
  | clear => cases sets

/-! ## What the registry represents -/

/-- The published flags are the shadow, and its bits are the active statuses. -/
structure Represents (active : S → Int → Prop) (registry : Registry config) : Prop where
  published : ∀ i, (registry.flags i).load = registry.shadow i
  bits : ∀ s id, config.idOf s = some id → ∀ i, (registry.shadow i).getLsbD id = true ↔ active s i.val

variable {registry : Registry config} {active other : S → Int → Prop}

theorem represents_congr (represents : Represents active registry)
    (same : ∀ s l, active s l ↔ other s l) :
    Represents other registry :=
  ⟨represents.published, fun s id found i => (represents.bits s id found i).trans (same s i.val)⟩

theorem initial_represents : Represents (fun _ _ => False) (Registry.initial config) :=
  ⟨fun _ => rfl, fun _ _ _ _ => by simp [Registry.initial]⟩

theorem clear_represents (registry : Registry config) : Represents (fun _ _ => False) (clear registry) :=
  ⟨fun _ => load_store _ _, fun _ _ _ _ => by simp [clear]⟩

/-- One bit of one level takes the value. -/
theorem change_represents {bit : config.Flags → Nat → Option config.Flags} {value : Bool}
    (assigns : Assigns bit value)
    (represents : Represents active registry) {s : S} (member : s ∈ config.statuses) {l : Int}
    (nonneg : 0 ≤ l) (below : l < config.levelCount) :
    ∃ after, change bit s l registry = some after ∧
      Represents (fun t k => t = s ∧ k = l ∧ value = true ∨ ¬(t = s ∧ k = l) ∧ active t k) after := by
  obtain ⟨i, index, place⟩ := index_inside nonneg below
  obtain ⟨id, position⟩ := idOf_complete member
  obtain ⟨shadow, assigned, bits⟩ := assigns (registry.shadow i) id (idOf_lt position)
  refine ⟨_, by simp only [change, index, position, Option.bind_eq_bind, Option.bind_some, assigned]; rfl, ?_, ?_⟩
  · intro j
    by_cases here : j = i
    · subst here
      simp only [Function.update_self, load_store]
    · simp only [Function.update_of_ne here]
      exact represents.published j
  · intro t other found j
    by_cases here : j = i
    · subst here
      simp only [Function.update_self, bits, idOf_eq_iff position found, place]
      by_cases same : t = s
      · simp [same]
      · simp only [same, if_false, false_and, false_or, not_false_eq_true, true_and]
        rw [represents.bits t other found j, place]
    · have elsewhere : (j.val : Int) ≠ l := fun same => here (Fin.ext (by omega))
      simp only [Function.update_of_ne here, elsewhere, false_and, and_false, false_or, not_false_eq_true, true_and]
      exact represents.bits t other found j

theorem increment_below {l : Int} (below : l < config.underlying.highest) :
    config.underlying.increment l = some (l + 1) :=
  if_pos below

/-- The loop visits each level up to the last one; it is the counter's last step that must
not be the largest value of its type. The induction is on the rounds that are left. -/
theorem resetLoop_represents {s : S} (member : s ∈ config.statuses) {hi : Int}
    (within : hi < config.levelCount)
    (last : hi < config.underlying.highest) {fuel : Nat} {l : Int} (nonneg : 0 ≤ l)
    (enough : (hi + 1 - l).toNat < fuel) (represents : Represents active registry) :
    ∃ after, resetLoop fuel s l hi registry = some after ∧
      Represents (fun t k => ¬(t = s ∧ l ≤ k ∧ k ≤ hi) ∧ active t k) after := by
  induction fuel generalizing l registry active with
  | zero => omega
  | succ fuel ih =>
    by_cases more : l ≤ hi
    · obtain ⟨middle, changed, between⟩ :=
        change_represents bitReset_assigns represents member nonneg (by omega)
      obtain ⟨after, rest, final⟩ := ih (l := l + 1) (by omega) (by omega) between
      refine ⟨after, ?_, represents_congr final fun t k => ?_⟩
      · simp only [resetLoop, if_pos more, changed, Option.bind_eq_bind, Option.bind_some,
          increment_below (show l < config.underlying.highest by omega), rest]
      · constructor
        · rintro ⟨later, ⟨_, _, impossible⟩ | ⟨now, active⟩⟩
          · cases impossible
          · exact ⟨fun ⟨same, above, below⟩ => later ⟨same, by
              have : k ≠ l := fun here => now ⟨same, here⟩
              omega, below⟩, active⟩
        · rintro ⟨outside, active⟩
          exact ⟨fun ⟨same, above, below⟩ => outside ⟨same, by omega, below⟩,
            .inr ⟨fun ⟨same, here⟩ => outside ⟨same, by omega, by omega⟩, active⟩⟩
    · refine ⟨registry, if_neg more, represents_congr represents fun t k => ?_⟩
      exact ⟨fun active => ⟨fun ⟨_, above, below⟩ => more (above.trans below), active⟩, And.right⟩

theorem testLevel_represents (represents : Represents active registry) {s : S}
    (member : s ∈ config.statuses) {l : Int} (nonneg : 0 ≤ l) (below : l < config.levelCount) :
    ∃ found, testLevel s l registry = some found ∧ (found = true ↔ active s l) := by
  obtain ⟨i, index, place⟩ := index_inside nonneg below
  obtain ⟨id, position⟩ := idOf_complete member
  refine ⟨(registry.flags i).load.getLsbD id, ?_, ?_⟩
  · simp only [testLevel, index, position, Option.bind_eq_bind, Option.bind_some, bitTest, if_pos (idOf_lt position)]
  · rw [represents.published, represents.bits s id position, place]

theorem testLoop_represents (represents : Represents active registry) {s : S}
    (member : s ∈ config.statuses)
    {hi : Int} (within : hi < config.levelCount) (last : hi < config.underlying.highest)
    {fuel : Nat} {l : Int} (nonneg : 0 ≤ l) (enough : (hi + 1 - l).toNat < fuel) :
    ∃ found, testLoop fuel s l hi registry = some found ∧ (found = true ↔ ∃ k, l ≤ k ∧ k ≤ hi ∧ active s k) := by
  induction fuel generalizing l with
  | zero => omega
  | succ fuel ih =>
    by_cases more : l ≤ hi
    · obtain ⟨here, tested, meaning⟩ :=
        testLevel_represents represents member nonneg (by omega : l < config.levelCount)
      cases here with
      | true =>
        refine ⟨true, ?_, fun _ => ⟨l, Int.le_refl l, more, meaning.mp rfl⟩, fun _ => rfl⟩
        simp only [testLoop, if_pos more, tested, Option.bind_eq_bind, Option.bind_some, if_true]
      | false =>
        obtain ⟨found, rest, later⟩ := ih (l := l + 1) (by omega) (by omega)
        refine ⟨found, ?_, later.trans ⟨?_, ?_⟩⟩
        · simp only [testLoop, if_pos more, tested, Option.bind_eq_bind, Option.bind_some, Bool.false_eq_true,
            if_false, increment_below (show l < config.underlying.highest by omega), rest]
        · rintro ⟨k, above, below, active⟩
          exact ⟨k, by omega, below, active⟩
        · rintro ⟨k, above, below, active⟩
          have : k ≠ l := fun same => Bool.false_ne_true (meaning.mpr (same ▸ active))
          exact ⟨k, by omega, below, active⟩
    · refine ⟨false, if_neg more, iff_of_false Bool.false_ne_true ?_⟩
      rintro ⟨k, above, below, _⟩
      exact absurd (above.trans below) more

/-- The levels are not negative, and the last one is not the largest value of the type. -/
structure Plain (config : Config S) : Prop where
  nonneg : ∀ s ∈ config.statuses, 0 ≤ config.levelMin s
  below : ∀ s ∈ config.statuses, config.levelMax s < config.underlying.highest

variable {fuel : Nat}

theorem reset_represents (plain : Plain config) (enough : config.levelCount < fuel)
    (represents : Represents active registry) {s : S} (member : s ∈ config.statuses) :
    ∃ after, reset fuel s registry = some after ∧
      Represents (fun t k => ¬(t = s ∧ config.levelMin s ≤ k ∧ k ≤ config.levelMax s) ∧ active t k) after := by
  have nonneg := plain.nonneg s member
  have within := config.levelsWithin s member
  have range := config.validLevelRanges s member
  unfold reset
  split
  · rename_i single
    obtain ⟨after, changed, final⟩ :=
      change_represents bitReset_assigns represents member nonneg (by omega)
    refine ⟨after, changed, represents_congr final fun t k => ?_⟩
    have one : k = config.levelMin s ↔ config.levelMin s ≤ k ∧ k ≤ config.levelMax s := by omega
    simp only [one, Bool.false_eq_true, and_false, false_or]
  · exact resetLoop_represents member within (plain.below s member) nonneg (by omega) represents

/-- `test<S>` finds the status if and only if it is active at one of its own levels. -/
theorem test_represents (plain : Plain config) (enough : config.levelCount < fuel)
    (represents : Represents active registry) {s : S} (member : s ∈ config.statuses) :
    ∃ found, test fuel s registry = some found ∧
      (found = true ↔ ∃ k, config.levelMin s ≤ k ∧ k ≤ config.levelMax s ∧ active s k) := by
  have nonneg := plain.nonneg s member
  have within := config.levelsWithin s member
  have range := config.validLevelRanges s member
  unfold test
  split
  · rename_i single
    obtain ⟨found, tested, meaning⟩ := testLevel_represents represents member nonneg (by omega)
    refine ⟨found, tested, meaning.trans ⟨fun active => ⟨_, Int.le_refl _, range, active⟩, ?_⟩⟩
    rintro ⟨k, above, below, active⟩
    obtain rfl : k = config.levelMin s := by omega
    exact active
  · exact testLoop_represents represents member within (plain.below s member) nonneg (by omega)

/-- One operation: it decides what it touches and leaves the rest alone. -/
theorem perform_represents (plain : Plain config) (enough : config.levelCount < fuel)
    (represents : Represents active registry) (command : Command config) :
    ∃ after, perform fuel command registry = some after ∧
      Represents (fun s l => Sets command s l ∨ ¬Touches command s l ∧ active s l) after := by
  cases command with
  | set s l valid =>
    have nonneg := plain.nonneg s valid.1
    have within := config.levelsWithin s valid.1
    obtain ⟨member, above, below⟩ := valid
    obtain ⟨after, changed, final⟩ :=
      change_represents bitSet_assigns represents member (nonneg.trans above) (by omega)
    refine ⟨after, changed, represents_congr final fun t k => ?_⟩
    simp only [and_true, Sets, Touches]
  | resetLevel s l valid =>
    have nonneg := plain.nonneg s valid.1
    have within := config.levelsWithin s valid.1
    obtain ⟨member, above, below⟩ := valid
    obtain ⟨after, changed, final⟩ :=
      change_represents bitReset_assigns represents member (nonneg.trans above) (by omega)
    refine ⟨after, changed, represents_congr final fun t k => ?_⟩
    simp only [Bool.false_eq_true, and_false, Sets, Touches]
  | reset s member =>
    obtain ⟨after, changed, final⟩ := reset_represents plain enough represents member
    refine ⟨after, changed, represents_congr final fun t k => ?_⟩
    simp only [false_or, Sets, Touches]
  | clear =>
    refine ⟨clear registry, rfl, represents_congr (clear_represents registry) fun t k => ?_⟩
    simp only [Sets, Touches, not_true_eq_false, false_and, or_self]

theorem execute_represents (plain : Plain config) (enough : config.levelCount < fuel)
    {earlier commands : List (Command config)} (represents : Represents (LastSet earlier) registry) :
    ∃ final, execute fuel commands registry = some final ∧ Represents (LastSet (earlier ++ commands)) final := by
  induction commands generalizing earlier registry with
  | nil => exact ⟨registry, rfl, by rwa [List.append_nil]⟩
  | cons command rest ih =>
    obtain ⟨middle, performed, between⟩ := perform_represents plain enough represents command
    obtain ⟨final, executed, last⟩ := ih (represents_congr between fun s l => lastSet_snoc.symm)
    refine ⟨final, ?_, ?_⟩
    · simp only [execute, performed, Option.bind_eq_bind, Option.bind_some, executed]
    · rwa [List.append_assoc] at last

/-! ## The mirror -/

/-- A level that indexes the arrays. -/
abbrev Level (config : Config S) :=
  { l : Int // 0 ≤ l ∧ l < config.levelCount ∧ l ≤ config.underlying.highest }

/-- What a mirror may have received before. -/
inductive MirrorCommand (config : Config S) where
  | store (l : Level config) (flags : config.Flags)
  | clear

def receive : List (MirrorCommand config) → Mirror config → Option (Mirror config)
  | [], mirror => some mirror
  | .store l flags :: rest, mirror => do receive rest (← mirror.store l.1 flags)
  | .clear :: rest, _ => receive rest (Mirror.clear config)

/-- `store(l, registry::flags(l))` for each of the levels. -/
def refresh (registry : Registry config) : List (Level config) → Mirror config → Option (Mirror config)
  | [], mirror => some mirror
  | l :: rest, mirror => do refresh registry rest (← mirror.store l.1 (← flags l.1 registry))

variable {mirror : Mirror config}

theorem store_level (l : Level config) (flags : config.Flags) (mirror : Mirror config) :
    ∃ i, config.index l.1 = some i ∧ (i.val : Int) = l.1 ∧
      mirror.store l.1 flags = some (Function.update mirror i flags) := by
  obtain ⟨i, index, place⟩ := index_inside l.2.1 l.2.2.1
  exact ⟨i, index, place, by rw [Mirror.store, index]; rfl⟩

/-- No enumerator names a level above the largest value of its type. -/
theorem receive_spare {commands : List (MirrorCommand config)}
    (spare : ∀ i : Fin config.levelCount, config.underlying.highest < i.val → mirror i = 0) :
    ∃ after, receive commands mirror = some after ∧
      ∀ i : Fin config.levelCount, config.underlying.highest < i.val → after i = 0 := by
  induction commands generalizing mirror with
  | nil => exact ⟨mirror, rfl, spare⟩
  | cons command rest ih =>
    cases command with
    | store l flags =>
      obtain ⟨i, _, place, stored⟩ := store_level l flags mirror
      simp only [receive, stored, Option.bind_eq_bind, Option.bind_some]
      refine ih fun j above => ?_
      have elsewhere : j ≠ i := fun same => absurd l.2.2.2 (by rw [← place, ← same]; omega)
      rw [Function.update_of_ne elsewhere]
      exact spare j above
    | clear => exact ih fun _ _ => rfl

/-- Each level is refreshed or keeps what it had. -/
theorem refresh_reaches (levels : List (Level config)) :
    ∃ after, refresh registry levels mirror = some after ∧ ∀ i : Fin config.levelCount,
      after i = (registry.flags i).load ∨ after i = mirror i ∧ ∀ l ∈ levels, l.1 ≠ i.val := by
  induction levels generalizing mirror with
  | nil => exact ⟨mirror, rfl, fun _ => .inr ⟨rfl, nofun⟩⟩
  | cons l rest ih =>
    obtain ⟨i, index, place⟩ := index_inside l.2.1 l.2.2.1
    have published : flags l.1 registry = some (registry.flags i).load := by rw [flags, index]; rfl
    have stored : mirror.store l.1 (registry.flags i).load =
        some (Function.update mirror i (registry.flags i).load) := by rw [Mirror.store, index]; rfl
    simp only [refresh, published, stored, Option.bind_eq_bind, Option.bind_some]
    obtain ⟨after, refreshed, reaches⟩ := @ih (Function.update mirror i (registry.flags i).load)
    refine ⟨after, refreshed, fun j => ?_⟩
    cases reaches j with
    | inl done => exact .inl done
    | inr kept =>
      obtain ⟨same, absent⟩ := kept
      by_cases here : j = i
      · subst here
        exact .inl (same.trans (Function.update_self _ _ _))
      · rw [Function.update_of_ne here] at same
        refine .inr ⟨same, fun other member => ?_⟩
        cases List.mem_cons.mp member with
        | inl first => exact fun equal => here (Fin.ext (by rw [first] at equal; omega))
        | inr later => exact absent other later

/-- Beyond the levels of all statuses nothing is active. -/
theorem load_spare {commands : List (Command config)}
    (represents : Represents (LastSet commands) registry)
    {i : Fin config.levelCount} (above : config.underlying.highest < i.val) :
    (registry.flags i).load = 0 := by
  refine BitVec.eq_of_getLsbD_eq fun j below => ?_
  obtain ⟨s, holds⟩ : ∃ s, config.statuses[j]? = some s := ⟨_, List.getElem?_eq_getElem below⟩
  have inactive : ¬LastSet commands s i.val := fun active => by
    obtain ⟨member, _, within⟩ := lastSet_valid active
    have := (config.enumerators s member).2
    omega
  rw [← represents.bits s j (idOf_getElem holds), ← represents.published] at inactive
  simpa using inactive

/-- After a refresh of every level the mirror holds what the registry has published. -/
theorem refresh_complete {commands : List (Command config)}
    (represents : Represents (LastSet commands) registry)
    (spare : ∀ i : Fin config.levelCount, config.underlying.highest < i.val → mirror i = 0)
    {levels : List (Level config)} (complete : ∀ l, l ∈ levels) :
    ∃ after, refresh registry levels mirror = some after ∧ ∀ i, after i = (registry.flags i).load := by
  obtain ⟨after, refreshed, reaches⟩ := @refresh_reaches _ _ _ registry mirror levels
  refine ⟨after, refreshed, fun i => ?_⟩
  cases reaches i with
  | inl done => exact done
  | inr kept =>
    obtain ⟨same, absent⟩ := kept
    have above : config.underlying.highest < i.val := by
      by_contra reachable
      exact absent ⟨i.val, by omega, by omega, by omega⟩ (complete _) rfl
    rw [same, spare i above, load_spare represents above]

/-! ## The queries -/

section Queries
variable (mirrors : ∀ i, mirror i = (registry.flags i).load)
include mirrors

theorem mirror_testLevel (s : S) (l : Int) : mirror.testLevel s l = testLevel s l registry := by
  unfold Mirror.testLevel testLevel
  simp only [mirrors]

theorem mirror_anyLevel (l : Int) : mirror.anyLevel l = anyLevel l registry := by
  unfold Mirror.anyLevel anyLevel flags
  rw [Option.map_map]
  simp only [mirrors]
  rfl

theorem mirror_any : mirror.any = any registry := by
  unfold Mirror.any any
  simp only [mirrors]

variable {commands : List (Command config)} (represents : Represents (LastSet commands) registry)
include represents

omit mirrors in
/-- A level has active flags if and only if a status is active at it. -/
theorem bitAny_represents (i : Fin config.levelCount) :
    bitAny (registry.flags i).load = true ↔ ∃ s, LastSet commands s i.val := by
  rw [bitAny_iff, represents.published]
  constructor
  · rintro ⟨j, below, active⟩
    obtain ⟨s, holds⟩ : ∃ s, config.statuses[j]? = some s := ⟨_, List.getElem?_eq_getElem below⟩
    exact ⟨s, (represents.bits s j (idOf_getElem holds) i).mp active⟩
  · rintro ⟨s, active⟩
    obtain ⟨id, position⟩ := idOf_complete (lastSet_valid active).1
    exact ⟨id, idOf_lt position, (represents.bits s id position i).mpr active⟩

theorem mirror_testLoop {s : S} {id : Nat} (position : config.idOf s = some id)
    (levels : List (Fin config.levelCount)) :
    ∃ found, mirror.testLoop id levels = some found ∧ (found = true ↔ ∃ i ∈ levels, LastSet commands s i.val) := by
  induction levels with
  | nil => exact ⟨false, rfl, by simp⟩
  | cons i rest ih =>
    have meaning := represents.bits s id position i
    rw [← represents.published, ← mirrors] at meaning
    simp only [Mirror.testLoop, bitTest, if_pos (idOf_lt position), Option.bind_eq_bind, Option.bind_some]
    cases active : (mirror i).getLsbD id with
    | true => exact ⟨true, rfl, fun _ => ⟨i, List.mem_cons_self, meaning.mp active⟩, fun _ => rfl⟩
    | false =>
      obtain ⟨found, rest, later⟩ := ih
      refine ⟨found, rest, later.trans ⟨?_, ?_⟩⟩
      · rintro ⟨j, member, active⟩
        exact ⟨j, List.mem_cons_of_mem _ member, active⟩
      · rintro ⟨j, member, set⟩
        cases List.mem_cons.mp member with
        | inl first => exact absurd (meaning.mpr (first ▸ set)) (by rw [active]; exact Bool.false_ne_true)
        | inr later => exact ⟨j, later, set⟩

/-- Both scans find the status if and only if it is active at some level. -/
theorem mirror_test (plain : Plain config) (enough : config.levelCount < fuel) {s : S}
    (member : s ∈ config.statuses) :
    ∃ found, mirror.test s = some found ∧ test fuel s registry = some found ∧
      (found = true ↔ ∃ l, LastSet commands s l) := by
  obtain ⟨id, position⟩ := idOf_complete member
  obtain ⟨all, scanned, everywhere⟩ := mirror_testLoop mirrors represents position (List.finRange _)
  obtain ⟨own, tested, inRange⟩ := test_represents plain enough represents member
  have anywhere : all = true ↔ ∃ l, LastSet commands s l := by
    refine everywhere.trans ⟨fun ⟨i, _, active⟩ => ⟨i.val, active⟩, fun ⟨l, active⟩ => ?_⟩
    obtain ⟨_, above, below⟩ := lastSet_valid active
    have nonneg := plain.nonneg s member
    have within := config.levelsWithin s member
    obtain ⟨i, _, place⟩ := @index_inside _ _ config l (by omega) (by omega)
    exact ⟨i, List.mem_finRange i, place ▸ active⟩
  have narrow : own = true ↔ ∃ l, LastSet commands s l := by
    refine inRange.trans ⟨fun ⟨l, _, _, active⟩ => ⟨l, active⟩, fun ⟨l, active⟩ => ?_⟩
    obtain ⟨_, above, below⟩ := lastSet_valid active
    exact ⟨l, above, below, active⟩
  have same : own = all := Bool.eq_iff_iff.mpr (narrow.trans anywhere.symm)
  refine ⟨all, ?_, same ▸ tested, anywhere⟩
  rw [Mirror.test, position]
  exact scanned

end Queries

theorem worstLoop_iff {n : Nat} (inside : n ≤ config.levelCount) {l : Int} :
    mirror.worstLoop n inside = some l ↔ ∃ i : Fin config.levelCount, i.val < n ∧ config.underlying.cast i.val = l ∧
      bitAny (mirror i) = true ∧
        ∀ j : Fin config.levelCount, j.val < n → bitAny (mirror j) = true → j ≤ i := by
  induction n with
  | zero => exact ⟨nofun, fun ⟨_, below, _⟩ => absurd below (Nat.not_lt_zero _)⟩
  | succ n ih =>
    unfold Mirror.worstLoop
    cases top : bitAny (mirror ⟨n, inside⟩) with
    | true =>
      rw [if_pos rfl, Option.some_inj]
      constructor
      · rintro rfl
        exact ⟨⟨n, inside⟩, Nat.lt_succ_self n, rfl, top, fun j below _ => Nat.le_of_lt_succ below⟩
      · rintro ⟨i, below, rfl, _, highest⟩
        have same : i.val = n :=
          Nat.le_antisymm (Nat.le_of_lt_succ below) (highest ⟨n, inside⟩ (Nat.lt_succ_self n) top)
        rw [same]
    | false =>
      rw [if_neg Bool.false_ne_true, ih (Nat.le_of_succ_le inside)]
      have skip : ∀ j : Fin config.levelCount, bitAny (mirror j) = true → j.val ≠ n := by
        rintro j active rfl
        exact Bool.false_ne_true (top.symm.trans active)
      constructor
      · rintro ⟨i, below, value, active, highest⟩
        exact ⟨i, by omega, value, active, fun j under also => highest j (by have := skip j also; omega) also⟩
      · rintro ⟨i, below, value, active, highest⟩
        have := skip i active
        exact ⟨i, by omega, value, active, fun j under also => highest j (by omega) also⟩

theorem lowest_nonpos (type : Underlying) : type.lowest ≤ 0 := by
  unfold Underlying.lowest
  split
  · exact Int.neg_nonpos_of_nonneg (Int.natCast_nonneg _)
  · exact Int.le_refl 0

theorem cast_fits {type : Underlying} {value : Int} (above : type.lowest ≤ value)
    (below : value ≤ type.highest) :
    type.cast value = value := by
  have width : type.highest - type.lowest < ((2 ^ type.bits : Nat) : Int) := by
    obtain ⟨n, size⟩ := Nat.exists_eq_add_of_lt type.positive
    unfold Underlying.highest Underlying.lowest
    rw [size, Nat.zero_add, Nat.add_sub_cancel, Nat.pow_succ]
    split <;> omega
  unfold Underlying.cast
  rw [Int.emod_eq_of_lt (by omega) (by omega)]
  omega

/-- `worst` is the highest level with an active status. -/
theorem mirror_worst (plain : Plain config) {commands : List (Command config)}
    (represents : Represents (LastSet commands) registry)
    (mirrors : ∀ i, mirror i = (registry.flags i).load) {l : Int} :
    mirror.worst = some l ↔
      (∃ s, LastSet commands s l) ∧ ∀ k, (∃ s, LastSet commands s k) → k ≤ l := by
  have meaning : ∀ i, bitAny (mirror i) = true ↔ ∃ s, LastSet commands s i.val := fun i => by
    rw [mirrors, bitAny_represents represents]
  have place : ∀ {s k}, LastSet commands s k → ∃ i : Fin config.levelCount, (i.val : Int) = k := fun active => by
    obtain ⟨member, above, below⟩ := lastSet_valid active
    have nonneg := plain.nonneg _ member
    have within := config.levelsWithin _ member
    obtain ⟨i, _, same⟩ := @index_inside _ _ config _ (nonneg.trans above) (by omega)
    exact ⟨i, same⟩
  have named : ∀ {s} {i : Fin config.levelCount}, LastSet commands s i.val → config.underlying.cast i.val = i.val :=
    fun active => by
      obtain ⟨member, _, below⟩ := lastSet_valid active
      have top := (config.enumerators _ member).2
      have bottom := lowest_nonpos config.underlying
      exact cast_fits (by omega) (by omega)
  unfold Mirror.worst
  rw [worstLoop_iff]
  constructor
  · rintro ⟨i, _, rfl, active, highest⟩
    obtain ⟨s, set⟩ := (meaning i).mp active
    rw [named set]
    refine ⟨⟨s, set⟩, fun k ⟨t, also⟩ => ?_⟩
    obtain ⟨j, rfl⟩ := place also
    exact Int.ofNat_le.mpr (highest j j.isLt ((meaning j).mpr ⟨t, also⟩))
  · rintro ⟨⟨s, set⟩, highest⟩
    obtain ⟨i, rfl⟩ := place set
    exact ⟨i, i.isLt, named set, (meaning i).mpr ⟨s, set⟩,
      fun j _ also => Int.ofNat_le.mp (highest j.val ((meaning j).mp also))⟩

/-! ## Registry and mirror -/

/-- What is true of the registry after the operations: the shadow is published, a bit tells
whether the last operation on its status and level was a set, and a status is active at its
own levels only. -/
structure Tracks (commands : List (Command config)) (registry : Registry config) : Prop where
  published : ∀ i, (registry.flags i).load = registry.shadow i
  bits : ∀ s ∈ config.statuses, ∀ l : Int, 0 ≤ l → l < config.levelCount →
    ∃ bit, testLevel s l registry = some bit ∧ (bit = true ↔ LastSet commands s l)
  ranged : ∀ s l, testLevel s l registry = some true → config.Valid s l

/-- The queries of the mirror have the results of the registry. -/
structure Agrees (fuel : Nat) (commands : List (Command config)) (registry : Registry config)
    (mirror : Mirror config) : Prop where
  test : ∀ s ∈ config.statuses, ∃ found, mirror.test s = some found ∧ Trouble.test fuel s registry = some found ∧
    (found = true ↔ ∃ l, LastSet commands s l)
  testLevel : ∀ s l, mirror.testLevel s l = Trouble.testLevel s l registry
  anyLevel : ∀ l, mirror.anyLevel l = Trouble.anyLevel l registry
  anyActive : ∀ l : Level config, Trouble.anyLevel l.1 registry = some true ↔ ∃ s, LastSet commands s l.1
  any : mirror.any = Trouble.any registry
  worst : ∀ l, mirror.worst = some l ↔ (∃ s, LastSet commands s l) ∧ ∀ k, (∃ s, LastSet commands s k) → k ≤ l

theorem represents_tracks {commands : List (Command config)}
    (represents : Represents (LastSet commands) registry) : Tracks commands registry where
  published := represents.published
  bits := fun _ member _ nonneg below => testLevel_represents represents member nonneg below
  ranged := fun s l active => by
    obtain ⟨i, index, rest⟩ := Option.bind_eq_some_iff.mp active
    obtain ⟨id, position, tested⟩ := Option.bind_eq_some_iff.mp rest
    rw [bitTest, if_pos (idOf_lt position), represents.published, Option.some_inj,
      represents.bits s id position] at tested
    exact index_sound index ▸ lastSet_valid tested

theorem represents_agrees {commands : List (Command config)} (plain : Plain config)
    (enough : config.levelCount < fuel)
    (represents : Represents (LastSet commands) registry)
    (mirrors : ∀ i, mirror i = (registry.flags i).load) :
    Agrees fuel commands registry mirror where
  test := fun _ member => mirror_test mirrors represents plain enough member
  testLevel := mirror_testLevel mirrors
  anyLevel := mirror_anyLevel mirrors
  anyActive := fun l => by
    obtain ⟨i, index, place⟩ := index_inside l.2.1 l.2.2.1
    rw [Trouble.anyLevel, flags, index, Option.map_some, Option.map_some, Option.some_inj, bitAny_represents represents,
      place]
  any := mirror_any mirrors
  worst := fun _ => mirror_worst plain represents mirrors

/-- **Registry and mirror agree.** After every sequence of operations the registry tracks
which statuses are active; one more operation changes only what it touches; and a mirror,
whatever it has received before, agrees with the registry once it is refreshed. -/
theorem registry_mirror_agrees (plain : Plain config) (enough : config.levelCount < fuel)
    (commands : List (Command config)) (received : List (MirrorCommand config))
    {levels : List (Level config)} (complete : ∀ l, l ∈ levels) :
    ∃ registry, execute fuel commands (Registry.initial config) = some registry ∧ Tracks commands registry ∧
      (∀ command, ∃ after, perform fuel command registry = some after ∧
        ∀ s l, ¬Touches command s l → testLevel s l after = testLevel s l registry) ∧
      ∃ before mirror, receive received (Mirror.initial config) = some before ∧
        refresh registry levels before = some mirror ∧ Agrees fuel commands registry mirror := by
  have initial : Represents (LastSet ([] : List (Command config))) (Registry.initial config) := by
    refine represents_congr initial_represents fun s l => iff_of_false id ?_
    rintro ⟨earlier, command, later, shape, _⟩
    simp at shape
  obtain ⟨registry, executed, represents⟩ : ∃ registry, execute fuel commands (Registry.initial config) = some registry ∧
      Represents (LastSet ([] ++ commands)) registry := execute_represents plain enough initial
  rw [List.nil_append] at represents
  obtain ⟨before, had, spare⟩ : ∃ before, receive received (Mirror.initial config) = some before ∧
      ∀ i : Fin config.levelCount, config.underlying.highest < i.val → before i = 0 := receive_spare fun _ _ => rfl
  obtain ⟨mirror, refreshed, mirrors⟩ := refresh_complete represents spare complete
  refine ⟨registry, executed, represents_tracks represents, fun command => ?_, before, mirror, had, refreshed,
    represents_agrees plain enough represents mirrors⟩
  obtain ⟨after, performed, changed⟩ := perform_represents plain enough represents command
  refine ⟨after, performed, fun s l untouched => ?_⟩
  unfold testLevel
  cases index : config.index l with
  | none => rfl
  | some i =>
    cases position : config.idOf s with
    | none => rfl
    | some id =>
      have quiet : ¬Sets command s i.val := fun sets => untouched (index_sound index ▸ sets_touches sets)
      have still : ¬Touches command s i.val := fun touches => untouched (index_sound index ▸ touches)
      have same : (after.flags i).load.getLsbD id = (registry.flags i).load.getLsbD id := by
        rw [changed.published, represents.published, Bool.eq_iff_iff, changed.bits s id position,
          represents.bits s id position]
        simp only [quiet, still, false_or, not_false_eq_true, true_and]
      simp only [Option.bind_eq_bind, Option.bind_some, bitTest, same]

/-! ## Two statuses on three levels -/

inductive Testing where
  | overheat
  | undervoltage
  deriving DecidableEq

theorem testing_bits : 0 < 8 := by decide

/-- An 8-bit enumeration; one status has two levels, the other one. -/
def testingConfig : Config Testing where
  underlying := ⟨8, false, testing_bits⟩
  statuses := [.overheat, .undervoltage]
  levelMin
    | .overheat => 1
    | .undervoltage => 0
  levelMax
    | .overheat => 2
    | .undervoltage => 0
  levelCount := 3
  enumerators := by decide
  unique := by decide
  validLevelRanges := by decide
  levelsWithin := by decide
  statusCount := by decide

theorem testing_plain : Plain testingConfig := ⟨by decide, by decide⟩

def testingCommands : List (Command testingConfig) :=
  [.set .overheat 2 ⟨by decide, by decide, by decide⟩, .set .undervoltage 0 ⟨by decide, by decide, by decide⟩,
    .reset .overheat (by decide)]

def testingLevels : List (Level testingConfig) :=
  [⟨0, by decide⟩, ⟨1, by decide⟩, ⟨2, by decide⟩]

theorem testing_complete (l : Level testingConfig) : l ∈ testingLevels := by
  obtain ⟨l, nonneg, below, highest⟩ := l
  have three : l < 3 := below
  obtain rfl | rfl | rfl : l = 0 ∨ l = 1 ∨ l = 2 := by omega
  · exact .head _
  · exact .tail _ (.head _)
  · exact .tail _ (.tail _ (.head _))

theorem registry_mirror_agrees_testing :
    ∃ registry, execute 4 testingCommands (Registry.initial testingConfig) = some registry ∧
      ∃ mirror, refresh registry testingLevels (Mirror.initial testingConfig) = some mirror ∧
        Agrees 4 testingCommands registry mirror := by
  have enough : testingConfig.levelCount < 4 := by decide
  obtain ⟨registry, executed, _, _, before, mirror, received, refreshed, agrees⟩ :=
    registry_mirror_agrees testing_plain enough testingCommands [] testing_complete
  obtain rfl := Option.some.inj received
  exact ⟨registry, executed, mirror, refreshed, agrees⟩

end Emblib.TroubleMirror
