import SmartContracts.Chain.StateEntry
import SmartContracts.Data.OrderedMap

namespace SmartContracts.Chain

open SmartContracts.Data Serialize

/-! # Maps in the state

The state of a contract is a trie of entries, in the order of their keys.  A map
keeps its values under keys that begin with eight bytes of its own, so that one
trie holds many maps.
-/

/-- Byte strings in the order of their bytes. -/
instance bytesOrder : LinearOrder Bytes :=
  LinearOrder.lift' (List.map UInt8.toNat)
    (List.map_injective_iff.mpr fun _ _ => UInt8.toNat_inj.mp)

def Precedes (first second : Bytes) : Prop := first.map UInt8.toNat < second.map UInt8.toNat

instance precedesIrrefl : Std.Irrefl Precedes := ⟨fun bytes => lt_irrefl (bytes.map UInt8.toNat)⟩

instance precedesAntisymm : Std.Antisymm Precedes :=
  ⟨fun _ _ before after => absurd (before.trans after) (lt_irrefl _)⟩

abbrev StateTrie := OrderedMap Bytes Bytes

/-- Where the next prefix for a map is kept. -/
def nextItemPrefixKey : Bytes := serial (0 : UInt64)

def initialNextItemPrefix : Bytes := serial (2 : UInt64)

def prefixOf (collectionPrefix : UInt64) : Vector UInt8 8 :=
  ⟨(toLeBytes collectionPrefix).toArray, length_toLeBytes collectionPrefix⟩

structure StateMap (κ α : Type) where
  mapPrefix : Vector UInt8 8

/-- An entry of a map with its value at hand; it is stored when it is dropped. -/
structure OccupiedEntry (α : Type) where
  value : α
  stateEntry : StateEntry

/-- The value was changed, and the entry goes out of scope. -/
def OccupiedEntry.storeValue {α : Type} [serializeValue : Serialize α] (entry : OccupiedEntry α) :
    Option StateEntry :=
  (entry.stateEntry.truncate 0).put entry.value

namespace StateMap

variable {κ α : Type}

/-- The map that is given the next prefix. -/
def newMap (trie : StateTrie) : Option (StateTrie × StateMap κ α) := do
  let entry := StateEntry.atStart ((trie.get? nextItemPrefixKey).getD initialNextItemPrefix)
  let (collectionPrefix, entry) ← (entry.read : Option (UInt64 × StateEntry))
  let entry ← entry.overwrite (collectionPrefix + 1)
  return (trie.insert nextItemPrefixKey entry.bytes,
    { mapPrefix := prefixOf collectionPrefix })

/-- Whether there is an entry under the prefix itself. -/
def isEmpty (map : StateMap κ α) (trie : StateTrie) : Bool :=
  (trie.get? map.mapPrefix.toList).isNone

def clearFlat (map : StateMap κ α) (trie : StateTrie) : StateTrie :=
  trie.filterKeys fun bytes => ! map.mapPrefix.toList.isPrefixOf bytes

variable [serializeKey : Serialize κ]

def keyWithMapPrefix (map : StateMap κ α) (key : κ) : Bytes :=
  map.mapPrefix.toList ++ serial key

variable [serializeValue : Serialize α]

/-- The outer option is a trap, on a value that cannot be read. -/
def get (map : StateMap κ α) (trie : StateTrie) (key : κ) : Option (Option α) :=
  match trie.get? (map.keyWithMapPrefix key) with
  | none => some none
  | some entry => (fromBytes entry).map some

/-- The value that was there comes back. -/
def insert (map : StateMap κ α) (trie : StateTrie) (key : κ) (value : α) :
    Option (StateTrie × Option α) :=
  match trie.get? (map.keyWithMapPrefix key) with
  | none => do
      let stateEntry ← (StateEntry.atStart []).put value
      return (trie.insert (map.keyWithMapPrefix key) stateEntry.bytes, none)
  | some entry => do
      let (oldValue, stateEntry) ← (StateEntry.atStart entry).read
      let stateEntry ← (stateEntry.truncate 0).overwrite value
      return (trie.insert (map.keyWithMapPrefix key) stateEntry.bytes, some oldValue)

/-- A reference from `get_mut`, through which the value is changed and which then
goes out of scope. -/
def modify (map : StateMap κ α) (trie : StateTrie) (key : κ) (update : α → α) :
    Option (Option StateTrie) :=
  match trie.get? (map.keyWithMapPrefix key) with
  | none => some none
  | some entry => do
      let (value, stateEntry) ← (StateEntry.atStart entry).read
      let stateEntry ← stateEntry.overwrite (update value)
      return some (trie.insert (map.keyWithMapPrefix key) stateEntry.bytes)

/-- `entry(key).or_insert(default)` -/
def orInsert (map : StateMap κ α) (trie : StateTrie) (key : κ) (default : α) :
    Option (StateTrie × OccupiedEntry α) :=
  match trie.get? (map.keyWithMapPrefix key) with
  | none => do
      let stateEntry ← (StateEntry.atStart []).put default
      return (trie.insert (map.keyWithMapPrefix key) stateEntry.bytes,
        { value := default, stateEntry := stateEntry.moveToStart })
  | some entry => do
      let (value, stateEntry) ← (StateEntry.atStart entry).read
      return (trie, { value, stateEntry })

/-- `entry(key).or_insert(default)`, changed through the entry that comes back. -/
def raise (map : StateMap κ α) (trie : StateTrie) (key : κ) (default : α) (update : α → α) :
    Option (StateTrie × α) := do
  let (trie, entry) ← map.orInsert trie key default
  let entry := { entry with value := update entry.value }
  let stateEntry ← entry.storeValue
  return (trie.insert (map.keyWithMapPrefix key) stateEntry.bytes, entry.value)

def removeAndGet (map : StateMap κ α) (trie : StateTrie) (key : κ) :
    Option (StateTrie × Option α) :=
  match trie.get? (map.keyWithMapPrefix key) with
  | none => some (trie, none)
  | some entry => do
      let oldValue ← fromBytes entry
      return (trie.erase (map.keyWithMapPrefix key), some oldValue)

/-- The entries behind the prefix, which is eight bytes long; each is read when the
iterator comes to it. -/
def iter (map : StateMap κ α) (trie : StateTrie) : List (Option (κ × α)) :=
  (trie.entries.filter (map.mapPrefix.toList.isPrefixOf ·.1)).map fun (bytes, entry) => do
    let key ← fromBytes (bytes.drop 8)
    let value ← fromBytes entry
    return (key, value)

end StateMap

/-- What is written into a map is not seen outside of it. -/
theorem get?_insert_outside {κ α : Type} [serializeKey : Serialize κ] {map : StateMap κ α}
    {trie : StateTrie} {key : κ} {bytes entry : Bytes}
    (outside : ¬ map.mapPrefix.toList <+: bytes) :
    (trie.insert (map.keyWithMapPrefix key) entry).get? bytes = trie.get? bytes :=
  OrderedMap.get?_insert_other fun same => outside (same ▸ List.prefix_append _ _)

/-- Only the prefix is written where a map is part of a state. -/
instance serializeStateMap {κ α : Type} : Serialize (StateMap κ α) where
  serial map := serial map.mapPrefix
  deserial := do
    let mapPrefix ← deserial
    return { mapPrefix }
  Fits _ := True
  inverts := by
    have written : Inverts (deserial >>= fun mapPrefix => pure ({ mapPrefix } : StateMap κ α))
        (fun map => serial map.mapPrefix) fun map => True ∧ Fits map.mapPrefix := by
      apply (inverts (α := Vector UInt8 8)).last StateMap.mapPrefix
      intro map mapPrefix _
      rw [true_and]
      exact ⟨congrArg StateMap.mk, congrArg StateMap.mapPrefix⟩
    exact written.congr fun map => ⟨fun _ => ⟨trivial, fits_array 8 _⟩, fun _ => trivial⟩

theorem length_serial_map {κ α : Type} (map : StateMap κ α) : (serial map).length = 8 := by
  have each : ∀ byte : UInt8, (serial byte).length = 1 := fun byte => length_lowBytes 1 byte.toNat
  change (map.mapPrefix.toList.flatMap serial).length = 8
  rw [List.length_flatMap, funext each, List.map_const', List.sum_replicate,
    Vector.length_toList]
  rfl

/-! ## Prefixes -/

section Prefixes

variable {first second : UInt64} {trie : StateTrie} {collectionPrefix : UInt64}

@[simp] theorem toList_prefixOf : (prefixOf first).toList = toLeBytes first := rfl

theorem prefixOf_disjoint {bytes : Bytes} (one : (prefixOf first).toList <+: bytes)
    (two : (prefixOf second).toList <+: bytes) : first = second := by
  obtain ⟨rest, rfl⟩ := one
  obtain ⟨more, same⟩ := two
  exact (inverts.prefix_free (fits_u64 first) (fits_u64 second) same.symm).1

/-- The next prefix goes to the map, and the one after it is kept for the next. -/
theorem newMap_next {κ α : Type} (next : serial collectionPrefix <+:
      (trie.get? nextItemPrefixKey).getD initialNextItemPrefix) :
    ∃ entry, StateMap.newMap trie = some (trie.insert nextItemPrefixKey entry,
        ({ mapPrefix := prefixOf collectionPrefix } : StateMap κ α)) ∧
      serial (collectionPrefix + 1) <+: entry := by
  have small : (serial (collectionPrefix + 1)).length ≤ maxEntrySize := by
    rw [show (serial (collectionPrefix + 1)).length = 8 from length_toLeBytes _]
    decide
  let rest := ((trie.get? nextItemPrefixKey).getD initialNextItemPrefix).drop
    (serial (collectionPrefix + 1)).length
  refine ⟨serial (collectionPrefix + 1) ++ rest, ?_, List.prefix_append _ _⟩
  rw [StateMap.newMap]
  dsimp only
  rw [StateEntry.read_iff.mpr ⟨⟨fits_u64 collectionPrefix, next⟩, rfl⟩, Option.bind_eq_bind,
    Option.bind_some]
  exact Option.bind_eq_some_iff.mpr ⟨_, StateEntry.overwrite_iff.mpr ⟨small, rfl⟩, rfl⟩

end Prefixes

/-! ## What a map stands for -/

/-- Keys take at least a byte, can all be read back, and come in the order of
their bytes. -/
class KeyOrder (κ : Type) [LinearOrder κ] [serialize : Serialize κ] : Prop where
  fits : ∀ key : κ, Fits key
  positive : ∀ key : κ, 0 < (serial key).length
  ordered : ∀ first second : κ, first < second → Precedes (serial first) (serial second)

instance accountOrder : KeyOrder AccountAddress where
  fits := fits_account
  positive account := account.size.symm ▸ Nat.succ_pos 31
  ordered _ _ before := before

section Represents

variable {κ α : Type} [LinearOrder κ] [serializeKey : Serialize κ] [serializeValue : Serialize α]

/-- Under the prefix there are the values of the map, each in front of its entry,
and nothing else. -/
structure Represents (trie : StateTrie) (map : StateMap κ α) (content : OrderedMap κ α) :
    Prop where
  found : ∀ key value, content.get? key = some value → Fits value ∧
    ∃ entry, trie.get? (map.keyWithMapPrefix key) = some entry ∧ serial value <+: entry
  only : ∀ bytes entry, trie.get? bytes = some entry → map.mapPrefix.toList <+: bytes →
    ∃ key value, content.get? key = some value ∧ bytes = map.keyWithMapPrefix key

namespace Represents

variable {trie after : StateTrie} {map : StateMap κ α} {content : OrderedMap κ α} {key : κ}
  {value : α}

theorem empty (unused : ∀ bytes, map.mapPrefix.toList <+: bytes → trie.get? bytes = none) :
    Represents trie map .empty where
  found _ _ present := nomatch present
  only bytes entry stored under := by
    rw [unused bytes under] at stored
    cases stored

/-- What is written under other keys is not seen. -/
theorem frame (represents : Represents trie map content)
    (same : ∀ bytes, map.mapPrefix.toList <+: bytes → after.get? bytes = trie.get? bytes) :
    Represents after map content where
  found key value present := by
    rw [same (map.keyWithMapPrefix key) (List.prefix_append _ _)]
    exact represents.found key value present
  only bytes entry stored under := by
    rw [same bytes under] at stored
    exact represents.only bytes entry stored under

theorem occupied (represents : Represents trie map content)
    (present : content.get? key = some value) :
    ∃ entry, trie.get? (map.keyWithMapPrefix key) = some entry ∧
      Fits value ∧ serial value <+: entry := by
  obtain ⟨fits, entry, stored, front⟩ := represents.found key value present
  exact ⟨entry, stored, fits, front⟩

variable [keyOrder : KeyOrder κ]

omit serializeValue in
theorem keyWithMapPrefix_injective {other : κ}
    (same : map.keyWithMapPrefix key = map.keyWithMapPrefix other) : key = other := by
  have bytes : serial key = serial other := List.append_cancel_left same
  exact (inverts.prefix_free (KeyOrder.fits key) (KeyOrder.fits other)
    (congrArg (· ++ ([] : Bytes)) bytes)).1

omit serializeValue in
theorem keyWithMapPrefix_precedes {other : κ} (before : key < other) :
    Precedes (map.keyWithMapPrefix key) (map.keyWithMapPrefix other) := by
  have below : (serial key).map UInt8.toNat < (serial other).map UInt8.toNat :=
    KeyOrder.ordered key other before
  change (map.mapPrefix.toList ++ serial key).map UInt8.toNat <
    (map.mapPrefix.toList ++ serial other).map UInt8.toNat
  rw [List.map_append, List.map_append]
  exact List.append_left_lt below

/-- An entry with the value in front is written under the key. -/
theorem write (represents : Represents trie map content) {entry : Bytes} (fits : Fits value)
    (front : serial value <+: entry) :
    Represents (trie.insert (map.keyWithMapPrefix key) entry) map (content.insert key value) where
  found other kept present := by
    rw [OrderedMap.get?_insert] at present
    split at present
    · obtain rfl := Option.some.inj present
      rename_i same
      subst same
      exact ⟨fits, entry, OrderedMap.get?_insert_self, front⟩
    · rename_i different
      obtain ⟨fits, entry, stored, front⟩ := represents.found other kept present
      refine ⟨fits, entry, ?_, front⟩
      rwa [OrderedMap.get?_insert_other fun same => different (keyWithMapPrefix_injective same)]
  only bytes found stored under := by
    rw [OrderedMap.get?_insert] at stored
    split at stored
    · rename_i same
      exact ⟨key, value, OrderedMap.get?_insert_self, same⟩
    · obtain ⟨other, kept, known, rfl⟩ := represents.only bytes found stored under
      by_cases same : other = key
      · exact ⟨key, value, OrderedMap.get?_insert_self, by rw [same]⟩
      · exact ⟨other, kept, by rwa [OrderedMap.get?_insert_other same], rfl⟩

theorem erase (represents : Represents trie map content) :
    Represents (trie.erase (map.keyWithMapPrefix key)) map (content.erase key) where
  found other kept present := by
    rw [OrderedMap.get?_erase] at present
    split at present
    · cases present
    · rename_i different
      rw [OrderedMap.get?_erase, if_neg fun same => different (keyWithMapPrefix_injective same)]
      exact represents.found other kept present
  only bytes found stored under := by
    rw [OrderedMap.get?_erase] at stored
    split at stored
    · cases stored
    · rename_i different
      obtain ⟨other, kept, known, rfl⟩ := represents.only bytes found stored under
      have still : other ≠ key := fun same => different (congrArg map.keyWithMapPrefix same)
      exact ⟨other, kept, by rwa [OrderedMap.get?_erase, if_neg still], rfl⟩

/-! ### The operations -/

section Operations

variable (represents : Represents trie map content)

include represents

theorem vacant (absent : content.get? key = none) :
    trie.get? (map.keyWithMapPrefix key) = none := by
  by_contra present
  obtain ⟨entry, found⟩ := Option.ne_none_iff_exists'.mp present
  obtain ⟨other, value, known, same⟩ := represents.only _ entry found (List.prefix_append _ _)
  rw [keyWithMapPrefix_injective same, known] at absent
  cases absent

theorem get : map.get trie key = some (content.get? key) := by
  cases present : content.get? key with
  | none => rw [StateMap.get, represents.vacant present]
  | some value =>
      obtain ⟨entry, stored, front⟩ := represents.occupied present
      rw [StateMap.get, stored]
      exact congrArg (Option.map some) (fromBytes_iff.mpr front)

theorem insert (small : (serial value).length ≤ maxEntrySize) :
    map.insert trie key value =
      some (trie.insert (map.keyWithMapPrefix key) (serial value), content.get? key) := by
  cases present : content.get? key with
  | none =>
      rw [StateMap.insert, represents.vacant present]
      dsimp only
      rw [StateEntry.put_empty_iff.mpr ⟨small, rfl⟩]
      rfl
  | some old =>
      obtain ⟨entry, stored, front⟩ := represents.occupied present
      have stands : (serial old).length ≤ entry.length := front.2.length_le
      rw [StateMap.insert, stored]
      dsimp only
      rw [StateEntry.read_iff.mpr ⟨front, rfl⟩, Option.bind_eq_bind, Option.bind_some]
      dsimp only
      rw [StateEntry.truncate_zero stands, StateEntry.overwrite, StateEntry.moveToStart]
      exact Option.bind_eq_some_iff.mpr ⟨_, StateEntry.put_empty_iff.mpr ⟨small, rfl⟩, rfl⟩

theorem modify_vacant {update : α → α} (absent : content.get? key = none) :
    map.modify trie key update = some none := by
  rw [StateMap.modify, represents.vacant absent]

omit keyOrder in
/-- What is longer than the new value stays behind it. -/
theorem modify_occupied {update : α → α} (present : content.get? key = some value)
    (small : (serial (update value)).length ≤ maxEntrySize) :
    ∃ entry, map.modify trie key update =
        some (some (trie.insert (map.keyWithMapPrefix key) entry)) ∧
      serial (update value) <+: entry := by
  obtain ⟨entry, stored, front⟩ := represents.occupied present
  refine ⟨_, ?_, List.prefix_append _ (entry.drop (serial (update value)).length)⟩
  rw [StateMap.modify, stored]
  dsimp only
  rw [StateEntry.read_iff.mpr ⟨front, rfl⟩, Option.bind_eq_bind, Option.bind_some]
  exact Option.bind_eq_some_iff.mpr ⟨_, StateEntry.overwrite_iff.mpr ⟨small, rfl⟩, rfl⟩

theorem raise {default : α} {update : α → α} (smallDefault : (serial default).length ≤ maxEntrySize)
    (small : (serial (update ((content.get? key).getD default))).length ≤ maxEntrySize) :
    map.raise trie key default update =
      some (trie.insert (map.keyWithMapPrefix key)
          (serial (update ((content.get? key).getD default))),
        update ((content.get? key).getD default)) := by
  cases present : content.get? key with
  | none =>
      rw [present, Option.getD_none] at small
      rw [StateMap.raise, StateMap.orInsert, represents.vacant present]
      dsimp only
      rw [StateEntry.put_empty_iff.mpr ⟨smallDefault, rfl⟩]
      simp only [Option.bind_eq_bind, Option.bind_some, Option.pure_def, Option.getD_none,
        OccupiedEntry.storeValue, StateEntry.moveToStart]
      rw [StateEntry.truncate_zero (Nat.zero_le _), StateEntry.put_empty_iff.mpr ⟨small, rfl⟩,
        Option.bind_some, OrderedMap.insert_insert]
  | some old =>
      obtain ⟨entry, stored, front⟩ := represents.occupied present
      have stands : (serial old).length ≤ entry.length := front.2.length_le
      rw [present, Option.getD_some] at small
      rw [StateMap.raise, StateMap.orInsert, stored]
      dsimp only
      rw [StateEntry.read_iff.mpr ⟨front, rfl⟩]
      simp only [Option.bind_eq_bind, Option.bind_some, Option.pure_def, Option.getD_some,
        OccupiedEntry.storeValue]
      rw [StateEntry.truncate_zero stands]
      exact Option.bind_eq_some_iff.mpr ⟨_, StateEntry.put_empty_iff.mpr ⟨small, rfl⟩, rfl⟩

theorem removeAndGet :
    map.removeAndGet trie key =
      some (trie.erase (map.keyWithMapPrefix key), content.get? key) := by
  cases present : content.get? key with
  | none =>
      rw [StateMap.removeAndGet, represents.vacant present,
        OrderedMap.erase_absent (represents.vacant present)]
  | some old =>
      obtain ⟨entry, stored, front⟩ := represents.occupied present
      rw [StateMap.removeAndGet, stored]
      dsimp only
      rw [fromBytes_iff.mpr front]
      rfl

/-- The entries of the trie under the prefix are those of the map. -/
theorem keys_iter :
    ((trie.entries.filter (map.mapPrefix.toList.isPrefixOf ·.1)).map Prod.fst) =
      content.keys.map map.keyWithMapPrefix := by
  apply List.Pairwise.eq_of_mem_iff (r := Precedes)
  · exact trie.ascending.sublist (List.filter_sublist.map _)
  · apply List.pairwise_map.mpr
    exact content.ascending.imp keyWithMapPrefix_precedes
  · intro bytes
    simp only [List.mem_map, List.mem_filter, List.isPrefixOf_iff_prefix]
    constructor
    · rintro ⟨⟨_, entry⟩, ⟨member, under⟩, rfl⟩
      obtain ⟨key, value, present, same⟩ :=
        represents.only _ entry (OrderedMap.get?_eq_some.mpr member) under
      exact ⟨key, OrderedMap.mem_keys.mpr ⟨value, present⟩, same.symm⟩
    · rintro ⟨key, member, rfl⟩
      obtain ⟨value, present⟩ := OrderedMap.mem_keys.mp member
      obtain ⟨entry, stored, _⟩ := represents.occupied present
      exact ⟨(_, entry), ⟨OrderedMap.get?_eq_some.mp stored, List.prefix_append _ _⟩, rfl⟩

/-- The iterator meets the entries of the map, in order, and can read them all. -/
theorem iter : map.iter trie = content.entries.map some := by
  -- an entry is known by its key, and the keys are known
  let readAt (bytes : Bytes) : Option (κ × α) := do
    let entry ← trie.get? bytes
    let key ← fromBytes (bytes.drop 8)
    let value ← fromBytes entry
    return (key, value)
  have there : map.iter trie =
      (trie.entries.filter (map.mapPrefix.toList.isPrefixOf ·.1)).map fun entry =>
        readAt entry.1 := by
    apply List.map_congr_left
    rintro ⟨bytes, entry⟩ member
    have stored := OrderedMap.get?_eq_some.mpr (List.mem_filter.mp member).1
    simp only [readAt, stored, Option.bind_eq_bind, Option.bind_some]
  have back : content.entries.map some =
      content.entries.map fun entry => readAt (map.keyWithMapPrefix entry.1) := by
    apply List.map_congr_left
    rintro ⟨key, value⟩ member
    obtain ⟨entry, stored, front⟩ := represents.occupied (OrderedMap.get?_eq_some.mpr member)
    have behind : (map.keyWithMapPrefix key).drop 8 = serial key :=
      List.drop_left' map.mapPrefix.length_toList
    have readKey : fromBytes (serial key) = some key :=
      fromBytes_iff.mpr ⟨KeyOrder.fits key, List.prefix_rfl⟩
    change some (key, value) = readAt (map.keyWithMapPrefix key)
    simp only [readAt, stored, behind, readKey, fromBytes_iff.mpr front, Option.bind_eq_bind,
      Option.bind_some, Option.pure_def]
  have keys := congrArg (List.map readAt) represents.keys_iter
  rw [List.map_map, OrderedMap.keys, List.map_map, List.map_map] at keys
  rw [there, back]
  exact keys

end Operations

omit keyOrder in
theorem clearFlat : Represents (map.clearFlat trie) map (.empty : OrderedMap κ α) := by
  apply empty
  intro bytes under
  rw [StateMap.clearFlat, OrderedMap.get?_filterKeys, if_neg]
  simpa using under

/-- The entry that is asked for is never there. -/
theorem isEmpty (represents : Represents trie map content) : map.isEmpty trie = true := by
  rw [StateMap.isEmpty, Option.isNone_iff_eq_none]
  by_contra present
  obtain ⟨entry, found⟩ := Option.ne_none_iff_exists'.mp present
  obtain ⟨key, _, _, same⟩ := represents.only _ entry found List.prefix_rfl
  have longer := congrArg List.length same
  have positive := KeyOrder.positive key
  rw [StateMap.keyWithMapPrefix, List.length_append] at longer
  omega

end Represents

end Represents

end SmartContracts.Chain
