import Mathlib.Data.List.Nodup
import Emblib.Library.BinarySearch
import Emblib.Sdo

/-! The object dictionary: entries with their keys, permissions and accessors, sorted once
and then searched by key. -/
namespace Emblib.ObjectDictionary
open Can Sdo BinarySearch

structure OdKey where
  index : BitVec 16
  subindex : BitVec 8
  deriving DecidableEq

inductive OdAccess where
  | rw
  | ro
  | wo
  | const
  deriving DecidableEq

/-- What an accessor does with the application's variables, which may fail. -/
abbrev Accessor (V A : Type) := ExceptT AbortCode (StateM V) A

namespace Accessor
variable {V A B : Type}

/-- The result and the variables afterwards. -/
def call (accessor : Accessor V A) (values : V) : Except AbortCode A × V := accessor.run.run values

@[simp] theorem call_throw (code : AbortCode) (values : V) :
    call (throw code : Accessor V A) values = (.error code, values) := rfl

@[simp] theorem call_pure (value : A) (values : V) :
    call (pure value : Accessor V A) values = (.ok value, values) := rfl

theorem call_bind (accessor : Accessor V A) (next : A → Accessor V B) (values : V) :
    call (accessor >>= next) values =
      match call accessor values with
      | (.ok value, after) => call (next value) after
      | (.error code, after) => (.error code, after) := by
  simp only [call, ExceptT.run_bind, StateT.run_bind]
  cases accessor.run.run values with
  | mk result after => cases result <;> rfl

/-- An accessor behind a permission. -/
theorem call_guard (allowed : Bool) (code : AbortCode) (accessor : Accessor V A) (values : V) :
    call (do
      if !allowed then throw code
      accessor) values =
      if allowed then call accessor values else (.error code, values) := by
  cases allowed <;> rfl

end Accessor

structure OdObject (V : Type) where
  access : OdAccess
  dataType : OdValueType
  defaultValue : Option OdValue
  read : Accessor V OdValue
  write : OdValue → Accessor V Unit

def OdObject.hasReadPermission (object : OdObject V) : Bool := object.access != .wo

def OdObject.hasWritePermission (object : OdObject V) : Bool :=
  object.access == .rw || object.access == .wo

structure OdEntry (V : Type) where
  key : OdKey
  object : OdObject V

/-! ## Order -/

/-- `operator<(od_entry const&, od_entry const&)`. -/
def entryLess (lhs rhs : OdEntry V) : Bool :=
  lhs.key.index < rhs.key.index ||
    (lhs.key.index == rhs.key.index && lhs.key.subindex < rhs.key.subindex)

/-- `operator<(od_entry const&, od_key const&)`. -/
def entryLessKey (lhs : OdEntry V) (rhs : OdKey) : Bool :=
  lhs.key.index < rhs.index || (lhs.key.index == rhs.index && lhs.key.subindex < rhs.subindex)

/-- `operator==(od_key const&, od_entry const&)`. -/
def keyEqual (lhs : OdKey) (rhs : OdEntry V) : Bool :=
  lhs.index == rhs.key.index && lhs.subindex == rhs.key.subindex

/-- The dictionary as `init_dictionary` leaves it. -/
def initDictionary (dictionary : List (OdEntry V)) : List (OdEntry V) :=
  dictionary.mergeSort fun lhs rhs => !entryLess rhs lhs

def find (dictionary : List (OdEntry V)) (key : OdKey) : Option (OdEntry V) :=
  match dictionary[lowerBound (entryLessKey · key) dictionary]? with
  | none => none
  | some entry => if keyEqual key entry then some entry else none

/-! ## The search finds the entry with the key -/

/-- The position of a key in the order. -/
def OdKey.rank (key : OdKey) : Nat := key.index.toNat * 256 + key.subindex.toNat

section Find
variable {V : Type} {entry : OdEntry V} {dictionary : List (OdEntry V)} {key other : OdKey}

theorem rank_inj (same : key.rank = other.rank) : key = other := by
  obtain ⟨index, subindex⟩ := key
  obtain ⟨index', subindex'⟩ := other
  simp only [OdKey.rank] at same
  have bound := subindex.isLt
  have bound' := subindex'.isLt
  congr 1
  · exact BitVec.eq_of_toNat_eq (by omega)
  · exact BitVec.eq_of_toNat_eq (by omega)

theorem entryLessKey_iff : entryLessKey entry key = true ↔ entry.key.rank < key.rank := by
  have bound := entry.key.subindex.isLt
  have bound' := key.subindex.isLt
  simp only [entryLessKey, OdKey.rank, Bool.or_eq_true, Bool.and_eq_true, decide_eq_true_eq, beq_iff_eq,
    BitVec.lt_def, ← BitVec.toNat_inj]
  omega

theorem entryLess_iff {lhs rhs : OdEntry V} : entryLess lhs rhs = true ↔ lhs.key.rank < rhs.key.rank :=
  entryLessKey_iff

theorem keyEqual_iff : keyEqual key entry = true ↔ entry.key = key := by
  obtain ⟨index, subindex⟩ := key
  obtain ⟨⟨index', subindex'⟩, object⟩ := entry
  simp only [keyEqual, Bool.and_eq_true, beq_iff_eq, OdKey.mk.injEq]
  exact and_congr eq_comm eq_comm

theorem notLess_iff {lhs rhs : OdEntry V} :
    (!entryLess rhs lhs) = true ↔ lhs.key.rank ≤ rhs.key.rank := by
  rw [Bool.not_eq_true', ← Bool.not_eq_true, entryLess_iff, Nat.not_lt]

theorem initDictionary_perm : (initDictionary dictionary).Perm dictionary := List.mergeSort_perm _ _

theorem initDictionary_sorted :
    (initDictionary dictionary).Pairwise fun a b => a.key.rank ≤ b.key.rank := by
  refine (List.pairwise_mergeSort (fun a b c first second => ?_) (fun a b => ?_) dictionary).imp
    fun {a b} ordered => notLess_iff.mp ordered
  · exact notLess_iff.mpr (Nat.le_trans (notLess_iff.mp first) (notLess_iff.mp second))
  · rw [Bool.or_eq_true, notLess_iff, notLess_iff]
    exact Nat.le_total _ _

/-- The keys of a dictionary are pairwise distinct. -/
def Distinct (dictionary : List (OdEntry V)) : Prop := (dictionary.map (·.key)).Nodup

theorem distinct_unique (distinct : Distinct dictionary) {first second : OdEntry V}
    (member : first ∈ dictionary) (member' : second ∈ dictionary) (same : first.key = second.key) :
    first = second :=
  List.inj_on_of_nodup_map distinct member member' same

/-- **The search is exact.** In the sorted dictionary it finds the entry with the key, if
there is one, in whatever order the entries were given. -/
theorem find_iff (distinct : Distinct dictionary) :
    find (initDictionary dictionary) key = some entry ↔ entry ∈ dictionary ∧ entry.key = key := by
  obtain ⟨point, partitioned⟩ := partitioned_rank (@initDictionary_sorted _ dictionary) key.rank
    fun item => @entryLessKey_iff _ item key
  have position := lowerBound_eq partitioned
  simp only [find, position]
  constructor
  · intro found
    cases here : (initDictionary dictionary)[point]? with
    | none => simp [here] at found
    | some candidate =>
      simp only [here] at found
      split at found
      · rename_i equal
        obtain rfl := Option.some.inj found
        exact ⟨initDictionary_perm.mem_iff.mp (List.mem_of_getElem? here), keyEqual_iff.mp equal⟩
      · exact nomatch found
  · rintro ⟨member, rfl⟩
    obtain ⟨i, below, here⟩ := List.mem_iff_getElem.mp (initDictionary_perm.mem_iff.mpr member)
    have place := List.getElem?_eq_some_iff.mpr ⟨below, here⟩
    -- the entry is at the point: it is not before it, and what is between has its key
    have late : point ≤ i := Nat.not_lt.mp fun early =>
      absurd (entryLessKey_iff.mp ((partitioned.2 i entry place).mpr early)) (Nat.lt_irrefl _)
    obtain ⟨candidate, atPoint⟩ : ∃ candidate, (initDictionary dictionary)[point]? = some candidate :=
      ⟨_, List.getElem?_eq_getElem (Nat.lt_of_le_of_lt late below)⟩
    have notBefore := mt (partitioned.2 point candidate atPoint).mp (Nat.lt_irrefl _)
    rw [entryLessKey_iff, Nat.not_lt] at notBefore
    have ordered : candidate.key.rank ≤ entry.key.rank := by
      rcases Nat.lt_or_eq_of_le late with before | rfl
      · obtain ⟨inside, rfl⟩ := List.getElem?_eq_some_iff.mp atPoint
        rw [← here]
        exact List.pairwise_iff_getElem.mp initDictionary_sorted _ _ inside below before
      · obtain rfl := Option.some.inj (atPoint.symm.trans place)
        exact Nat.le_refl _
    have known := initDictionary_perm.mem_iff.mp (List.mem_of_getElem? atPoint)
    have same := distinct_unique distinct known member (rank_inj (Nat.le_antisymm ordered notBefore))
    simp only [atPoint, same, if_pos (keyEqual_iff.mpr rfl)]

end Find
end Emblib.ObjectDictionary
