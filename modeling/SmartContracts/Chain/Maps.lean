import SmartContracts.Chain.StateMap
import SmartContracts.Data.Lists
import SmartContracts.Semantics.Runs

namespace SmartContracts.Chain

open SmartContracts.Data SmartContracts.Semantics Serialize

/-! # The maps of a contract

A contract makes its maps one after the other, each with keys and values of its own
types, and all of them keep their values in the one trie of the contract.  For the
contract each is an ordered map by itself.
-/

inductive MapCall (κ α : Type) where
  | get (key : κ)
  | insert (key : κ) (value : α)
  | modify (key : κ) (update : α → α)
  | raise (key : κ) (default : α) (update : α → α)
  | removeAndGet (key : κ)
  | clearFlat
  | iter
  | isEmpty

inductive Answer (κ α : Type) where
  | done
  | value (found : Option α)
  | changed (found : Bool)
  | entries (found : List (κ × α))
  | empty (found : Bool)

namespace MapCall

variable {κ α : Type} [serializeKey : Serialize κ] [serializeValue : Serialize α]

/-- What the call does to the trie. -/
def execute (map : StateMap κ α) (trie : StateTrie) :
    MapCall κ α → Option (StateTrie × Answer κ α)
  | get key => do
      let found ← map.get trie key
      return (trie, .value found)
  | insert key value => do
      let (trie, old) ← map.insert trie key value
      return (trie, .value old)
  | modify key update => do
      match ← map.modify trie key update with
      | none => return (trie, .changed false)
      | some trie => return (trie, .changed true)
  | raise key default update => do
      let (trie, value) ← map.raise trie key default update
      return (trie, .value (some value))
  | removeAndGet key => do
      let (trie, old) ← map.removeAndGet trie key
      return (trie, .value old)
  | clearFlat => some (map.clearFlat trie, .done)
  | iter => do
      let found ← (map.iter trie).mapM id
      return (trie, .entries found)
  | isEmpty => some (trie, .empty (map.isEmpty trie))

variable [LinearOrder κ]

/-- What the call does to the map.  Asked whether the map is empty, the code says
yes whatever is in it. -/
def meaning (content : OrderedMap κ α) : MapCall κ α → OrderedMap κ α × Answer κ α
  | get key => (content, .value (content.get? key))
  | insert key value => (content.insert key value, .value (content.get? key))
  | modify key update =>
      match content.get? key with
      | none => (content, .changed false)
      | some value => (content.insert key (update value), .changed true)
  | raise key default update =>
      let value := update ((content.get? key).getD default)
      (content.insert key value, .value (some value))
  | removeAndGet key => (content.erase key, .value (content.get? key))
  | clearFlat => (.empty, .done)
  | iter => (content, .entries content.entries)
  | isEmpty => (content, .empty true)

/-- What the call writes can be stored. -/
def Small (content : OrderedMap κ α) : MapCall κ α → Prop
  | insert _ value => Storable value
  | modify key update => ∀ value, content.get? key = some value → Storable (update value)
  | raise key default update =>
      Storable default ∧ Storable (update ((content.get? key).getD default))
  | _ => True

end MapCall

section OneMap

variable {κ α : Type} [LinearOrder κ] [serializeKey : Serialize κ] [serializeValue : Serialize α]
  [keyOrder : KeyOrder κ] {trie : StateTrie} {map : StateMap κ α} {content : OrderedMap κ α}

/-- A call does to the trie what it does to the map, and leaves alone what is not
under the prefix. -/
theorem Represents.execute (represents : Represents trie map content) {call : MapCall κ α}
    (small : call.Small content) :
    ∃ after, call.execute map trie = some (after, (call.meaning content).2) ∧
      Represents after map (call.meaning content).1 ∧
      ∀ bytes, ¬ map.mapPrefix.toList <+: bytes → after.get? bytes = trie.get? bytes := by
  cases call with
  | get key =>
      refine ⟨trie, ?_, represents, fun _ _ => rfl⟩
      rw [MapCall.execute, represents.get]
      rfl
  | insert key value =>
      refine ⟨_, ?_, represents.write small.1 List.prefix_rfl, fun _ => get?_insert_outside⟩
      rw [MapCall.execute, represents.insert small.2]
      rfl
  | modify key update =>
      cases present : content.get? key with
      | none =>
          refine ⟨trie, ?_, ?_, fun _ _ => rfl⟩
          · rw [MapCall.execute, represents.modify_vacant present, MapCall.meaning, present]
            rfl
          · rw [MapCall.meaning, present]
            exact represents
      | some value =>
          have fits := small value present
          obtain ⟨entry, modified, front⟩ := represents.modify_occupied present fits.2
          refine ⟨trie.insert (map.keyWithMapPrefix key) entry, ?_, ?_,
            fun _ => get?_insert_outside⟩
          · rw [MapCall.execute, modified, MapCall.meaning, present]
            rfl
          · rw [MapCall.meaning, present]
            exact represents.write fits.1 front
  | raise key default update =>
      refine ⟨_, ?_, represents.write small.2.1 List.prefix_rfl, fun _ => get?_insert_outside⟩
      rw [MapCall.execute, represents.raise small.1.2 small.2.2]
      rfl
  | removeAndGet key =>
      refine ⟨_, ?_, represents.erase, ?_⟩
      · rw [MapCall.execute, represents.removeAndGet]
        rfl
      · intro bytes outside
        have other : bytes ≠ map.keyWithMapPrefix key :=
          fun same => outside (same ▸ List.prefix_append _ _)
        rw [OrderedMap.get?_erase, if_neg other]
  | clearFlat =>
      refine ⟨_, rfl, Represents.clearFlat, ?_⟩
      intro bytes outside
      rw [StateMap.clearFlat, OrderedMap.get?_filterKeys, if_pos]
      rwa [Bool.not_eq_true', ← Bool.not_eq_true, List.isPrefixOf_iff_prefix]
  | iter =>
      refine ⟨trie, ?_, represents, fun _ _ => rfl⟩
      have all : (content.entries.map some).mapM id = some content.entries :=
        mapM_eq_some.mpr (List.map_id _)
      rw [MapCall.execute, represents.iter, all]
      rfl
  | isEmpty =>
      refine ⟨trie, ?_, represents, fun _ _ => rfl⟩
      rw [MapCall.execute, represents.isEmpty]
      rfl

end OneMap

/-! ## Many maps -/

inductive BuilderCall (κ α : ℕ → Type) where
  | newMap
  | on (index : ℕ) (call : MapCall (κ index) (α index))

/-- Which map answered, and what. -/
abbrev Answers (κ α : ℕ → Type) := List ((index : ℕ) × Answer (κ index) (α index))

/-- The trie, and the prefixes of the maps in the order in which they were made. -/
structure StoredMaps (κ α : ℕ → Type) where
  trie : StateTrie
  prefixes : List (Vector UInt8 8)
  answers : Answers κ α

structure PlainMaps (κ α : ℕ → Type) [∀ index, LinearOrder (κ index)] where
  count : ℕ
  maps : (index : ℕ) → OrderedMap (κ index) (α index)
  answers : Answers κ α

section Many

variable {κ α : ℕ → Type} [keysOrdered : ∀ index, LinearOrder (κ index)]
  [serializeKeys : ∀ index, Serialize (κ index)] [serializeValues : ∀ index, Serialize (α index)]

def StoredMaps.start (trie : StateTrie) : StoredMaps κ α := { trie, prefixes := [], answers := [] }

def PlainMaps.start : PlainMaps κ α := { count := 0, maps := fun _ => .empty, answers := [] }

/-- A call on a map that was not made cannot be written. -/
def StoredMaps.execute (stored : StoredMaps κ α) : BuilderCall κ α → Option (StoredMaps κ α)
  | .newMap => do
      let (trie, map) ← StateMap.newMap (κ := κ stored.prefixes.length)
        (α := α stored.prefixes.length) stored.trie
      return { stored with trie, prefixes := stored.prefixes ++ [map.mapPrefix] }
  | .on index call =>
      match stored.prefixes[index]? with
      | none => some stored
      | some mapPrefix => do
          let (trie, answer) ← call.execute { mapPrefix } stored.trie
          return { stored with trie, answers := stored.answers ++ [⟨index, answer⟩] }

def PlainMaps.meaning (plain : PlainMaps κ α) : BuilderCall κ α → PlainMaps κ α
  | .newMap => { plain with count := plain.count + 1 }
  | .on index call =>
      if index < plain.count then
        let (content, answer) := call.meaning (plain.maps index)
        { plain with
          maps := Function.update plain.maps index content
          answers := plain.answers ++ [⟨index, answer⟩] }
      else plain

/-- There is a prefix left for a new map, and what is written can be stored. -/
def PlainMaps.Small (plain : PlainMaps κ α) : BuilderCall κ α → Prop
  | .newMap => plain.count < 2 ^ 64 - 2
  | .on index call => call.Small (plain.maps index)

/-- The prefix of the map that is made after so many others. -/
def prefixAt (index : ℕ) : Vector UInt8 8 := prefixOf (UInt64.ofNat (2 + index))

/-- The trie holds the maps that were made, each under a prefix of its own. -/
structure Holds (stored : StoredMaps κ α) (plain : PlainMaps κ α) : Prop where
  next : serial (UInt64.ofNat (2 + plain.count)) <+:
    (stored.trie.get? nextItemPrefixKey).getD initialNextItemPrefix
  prefixes : stored.prefixes = (List.range plain.count).map prefixAt
  bounded : plain.count ≤ 2 ^ 64 - 2
  represents : ∀ index, index < plain.count →
    Represents stored.trie { mapPrefix := prefixAt index } (plain.maps index)
  unmade : ∀ index, plain.count ≤ index → plain.maps index = .empty
  others : ∀ bytes entry, stored.trie.get? bytes = some entry → 8 ≤ bytes.length →
    bytes = nextItemPrefixKey ∨ ∃ index < plain.count, (prefixAt index).toList <+: bytes
  answers : stored.answers = plain.answers

omit keysOrdered serializeKeys serializeValues in
theorem toNat_prefixAt {index : ℕ} (room : index < 2 ^ 64 - 2) :
    (UInt64.ofNat (2 + index)).toNat = 2 + index := by
  apply UInt64.toNat_ofNat_of_lt'
  change 2 + index < 2 ^ 64
  omega

omit keysOrdered serializeKeys serializeValues in
theorem prefixAt_disjoint {first second : ℕ} {bytes : Bytes} (room : first < 2 ^ 64 - 2)
    (roomOther : second < 2 ^ 64 - 2) (one : (prefixAt first).toList <+: bytes)
    (two : (prefixAt second).toList <+: bytes) : first = second := by
  have same := congrArg UInt64.toNat (prefixOf_disjoint one two)
  rw [toNat_prefixAt room, toNat_prefixAt roomOther] at same
  exact Nat.add_left_cancel same

omit keysOrdered serializeKeys serializeValues in
/-- No map has the prefix under which the next prefix is kept. -/
theorem prefixAt_counter {index : ℕ} (room : index < 2 ^ 64 - 2) :
    ¬ (prefixAt index).toList <+: nextItemPrefixKey := by
  intro under
  have zero : UInt64.ofNat (2 + index) = 0 := prefixOf_disjoint under List.prefix_rfl
  have same := congrArg UInt64.toNat zero
  rw [toNat_prefixAt room, UInt64.toNat_zero] at same
  omega

variable {stored : StoredMaps κ α} {plain : PlainMaps κ α}

theorem Holds.newMap (holds : Holds stored plain) (room : plain.count < 2 ^ 64 - 2) :
    ∃ after, stored.execute .newMap = some after ∧ Holds after (plain.meaning .newMap) := by
  obtain ⟨entry, made, next⟩ := newMap_next (κ := κ stored.prefixes.length)
    (α := α stored.prefixes.length) holds.next
  refine ⟨{ stored with
    trie := stored.trie.insert nextItemPrefixKey entry
    prefixes := stored.prefixes ++ [prefixAt plain.count] }, ?_, ?_⟩
  · rw [StoredMaps.execute, made]
    rfl
  have apart : ∀ index, index < 2 ^ 64 - 2 → ∀ bytes, (prefixAt index).toList <+: bytes →
      (stored.trie.insert nextItemPrefixKey entry).get? bytes = stored.trie.get? bytes :=
    fun index room bytes under =>
      OrderedMap.get?_insert_other fun same => prefixAt_counter room (same ▸ under)
  refine ⟨?_, ?_, room, ?_,
    fun index unmade => holds.unmade index ((Nat.le_succ _).trans unmade), ?_, holds.answers⟩
  · change serial (UInt64.ofNat (2 + (plain.count + 1))) <+: _
    rw [OrderedMap.get?_insert_self, Option.getD_some, ← Nat.add_assoc, UInt64.ofNat_add]
    exact next
  · change _ = (List.range (plain.count + 1)).map prefixAt
    rw [List.range_succ, List.map_append, ← holds.prefixes]
    rfl
  · intro index made
    rcases Nat.lt_succ_iff_lt_or_eq.mp made with before | rfl
    · have inside := before.trans room
      exact (holds.represents index before).frame (apart index inside)
    · change Represents _ _ (plain.maps plain.count)
      rw [holds.unmade plain.count le_rfl]
      apply Represents.empty
      intro bytes under
      rw [apart plain.count room bytes under]
      by_contra present
      obtain ⟨found, stands⟩ := Option.ne_none_iff_exists'.mp present
      have long : 8 ≤ bytes.length := (prefixAt plain.count).length_toList ▸ under.length_le
      rcases holds.others bytes found stands long with rfl | ⟨index, made, below⟩
      · exact prefixAt_counter room under
      · exact absurd (prefixAt_disjoint (made.trans room) room below under) made.ne
  · intro bytes found stands long
    rw [OrderedMap.get?_insert] at stands
    split at stands
    · rename_i same
      exact .inl same
    · rcases holds.others bytes found stands long with same | ⟨index, made, below⟩
      · exact .inl same
      · exact .inr ⟨index, made.trans (Nat.lt_succ_self _), below⟩

variable [keyOrders : ∀ index, KeyOrder (κ index)]

theorem Holds.on (holds : Holds stored plain) {index : ℕ} {call : MapCall (κ index) (α index)}
    (small : call.Small (plain.maps index)) :
    ∃ after, stored.execute (.on index call) = some after ∧
      Holds after (plain.meaning (.on index call)) := by
  by_cases made : index < plain.count
  · obtain ⟨trie, executed, represents, outside⟩ := (holds.represents index made).execute small
    have room : index < 2 ^ 64 - 2 := made.trans_le holds.bounded
    have mapPrefix : stored.prefixes[index]? = some (prefixAt index) := by
      rw [holds.prefixes, List.getElem?_map, List.getElem?_range made]
      rfl
    refine ⟨{ stored with
      trie
      answers := stored.answers ++ [⟨index, (call.meaning (plain.maps index)).2⟩] }, ?_, ?_⟩
    · rw [StoredMaps.execute, mapPrefix]
      dsimp only
      rw [executed]
      rfl
    rw [PlainMaps.meaning, if_pos made]
    refine ⟨?_, holds.prefixes, holds.bounded, ?_, ?_, ?_, congrArg (· ++ _) holds.answers⟩
    · dsimp only
      rw [outside nextItemPrefixKey (prefixAt_counter room)]
      exact holds.next
    · intro other before
      by_cases same : other = index
      · subst same
        dsimp only
        rw [Function.update_self]
        exact represents
      · dsimp only
        rw [Function.update_of_ne same]
        apply (holds.represents other before).frame
        intro bytes under
        exact outside bytes fun here =>
          same (prefixAt_disjoint (before.trans_le holds.bounded) room under here)
    · intro other unmade
      have different : other ≠ index := (made.trans_le unmade).ne'
      dsimp only
      rw [Function.update_of_ne different]
      exact holds.unmade other unmade
    · intro bytes entry stands long
      by_cases under : (prefixAt index).toList <+: bytes
      · exact .inr ⟨index, made, under⟩
      · dsimp only at stands
        rw [outside bytes under] at stands
        exact holds.others bytes entry stands long
  · refine ⟨stored, ?_, ?_⟩
    · have none : stored.prefixes[index]? = none := by
        rw [holds.prefixes, List.getElem?_map, List.getElem?_eq_none]
        · rfl
        · rw [List.length_range]
          exact not_lt.mp made
      rw [StoredMaps.execute, none]
    · rw [PlainMaps.meaning, if_neg made]
      exact holds

/-- Every run of calls goes through, and each answers as if the maps were kept by
themselves. -/
theorem maps_agree {trie : StateTrie}
    (fresh : ∀ bytes, 8 ≤ bytes.length → trie.get? bytes = none)
    {calls : List (BuilderCall κ α)} (small : Along PlainMaps.meaning PlainMaps.Small .start calls) :
    ∃ stored, calls.foldlM StoredMaps.execute (.start trie) = some stored ∧
      Holds stored (run PlainMaps.meaning .start calls) := by
  have each : ∀ (stored : StoredMaps κ α) plain call, Holds stored plain → plain.Small call →
      ∃ after, stored.execute call = some after ∧ Holds after (plain.meaning call) := by
    intro stored plain call holds small
    cases call with
    | newMap => exact holds.newMap small
    | on index call => exact holds.on small
  have initially : Holds (.start trie : StoredMaps κ α) .start := by
    refine ⟨?_, rfl, Nat.zero_le _, fun _ none => absurd none (Nat.not_lt_zero _),
      fun _ _ => rfl, ?_, rfl⟩
    · change _ <+: (trie.get? nextItemPrefixKey).getD initialNextItemPrefix
      rw [fresh nextItemPrefixKey (length_toLeBytes 0).ge, Option.getD_none]
      exact List.prefix_rfl
    · intro bytes entry stands long
      change trie.get? bytes = some entry at stands
      rw [fresh bytes long] at stands
      cases stands
  exact run_followed each initially small

end Many

/-- Two maps are made; the first one gets a value, and both are asked for it. -/
def twoMaps : List (BuilderCall (fun _ => AccountAddress) fun _ => Amount) :=
  [.newMap, .newMap, .on 0 (.insert (.ofByte 1) 5), .on 0 (.get (.ofByte 1)),
    .on 1 (.get (.ofByte 1))]

theorem maps_agree_two :
    ∃ stored, twoMaps.foldlM StoredMaps.execute (.start .empty) = some stored ∧
      Holds stored (run PlainMaps.meaning .start twoMaps) := by
  have small : (serial (5 : UInt64)).length ≤ maxEntrySize := by decide
  have all : Along PlainMaps.meaning PlainMaps.Small .start twoMaps :=
    ⟨show 0 < 2 ^ 64 - 2 by decide, show 1 < 2 ^ 64 - 2 by decide, ⟨fits_u64 5, small⟩,
      trivial, trivial, trivial⟩
  exact maps_agree (fun _ _ => rfl) all

end SmartContracts.Chain
