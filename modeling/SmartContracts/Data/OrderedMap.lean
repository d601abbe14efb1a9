import Mathlib

namespace SmartContracts.Data

/-! # Finite maps with ordered keys

An association list whose keys ascend strictly.  The order of the entries is
the order in which the map is iterated, and strictness makes every key unique.
Insertion is described once, by the two shape lemmas `insert_fresh` and
`insert_present`: everything that is summed, counted or tested over the entries
follows from how the entry list changes.
-/

universe u v

variable {κ : Type u} {α : Type v} [LinearOrder κ]

structure OrderedMap (κ : Type u) (α : Type v) [LinearOrder κ] where
  entries : List (κ × α)
  ascending : (entries.map Prod.fst).Pairwise (· < ·)

namespace OrderedMap

variable {map : OrderedMap κ α} {key other : κ} {value old : α}

def empty : OrderedMap κ α := ⟨[], List.Pairwise.nil⟩

instance : Inhabited (OrderedMap κ α) := ⟨empty⟩

def get? (map : OrderedMap κ α) (key : κ) : Option α :=
  (map.entries.find? (fun entry => entry.1 = key)).map Prod.snd

def keys (map : OrderedMap κ α) : List κ := map.entries.map Prod.fst

def values (map : OrderedMap κ α) : List α := map.entries.map Prod.snd

/-- The keys, in order, whose values pass the test. -/
def keysWhere (map : OrderedMap κ α) (holds : α → Prop) [DecidablePred holds] : List κ :=
  (map.entries.filter (fun entry => holds entry.2)).map Prod.fst

def insertEntry (key : κ) (value : α) : List (κ × α) → List (κ × α)
  | [] => [(key, value)]
  | entry :: rest =>
      if key < entry.1 then (key, value) :: entry :: rest
      else if key = entry.1 then (key, value) :: rest
      else entry :: insertEntry key value rest

theorem mem_insertEntry_key {entries : List (κ × α)} {entry : κ × α}
    (member : entry ∈ insertEntry key value entries) :
    entry = (key, value) ∨ entry ∈ entries := by
  induction entries with
  | nil => simpa [insertEntry] using member
  | cons head rest ih =>
      simp only [insertEntry] at member
      split at member
      · simpa using member
      · split at member
        · rcases List.mem_cons.mp member with same | inRest
          · exact .inl same
          · exact .inr (List.mem_cons_of_mem _ inRest)
        · rcases List.mem_cons.mp member with same | inRest
          · exact .inr (by simp [same])
          · exact (ih inRest).imp id (List.mem_cons_of_mem _)

theorem insertEntry_ascending {entries : List (κ × α)}
    (ascending : (entries.map Prod.fst).Pairwise (· < ·)) :
    ((insertEntry key value entries).map Prod.fst).Pairwise (· < ·) := by
  induction entries with
  | nil => simp [insertEntry]
  | cons head rest ih =>
      obtain ⟨below, tail⟩ := List.pairwise_cons.mp ascending
      simp only [insertEntry]
      split
      · rename_i before
        refine List.pairwise_cons.mpr ⟨fun later member => ?_, ascending⟩
        rcases List.mem_cons.mp member with same | inRest
        · exact same ▸ before
        · exact before.trans (below later inRest)
      · split
        · rename_i same
          exact List.pairwise_cons.mpr ⟨same ▸ below, tail⟩
        · rename_i notBefore different
          have after : head.1 < key := lt_of_le_of_ne (not_lt.mp notBefore) (Ne.symm different)
          refine List.pairwise_cons.mpr ⟨fun later member => ?_, ih tail⟩
          obtain ⟨entry, inserted, rfl⟩ := List.mem_map.mp member
          rcases mem_insertEntry_key inserted with same | inRest
          · exact same ▸ after
          · exact below _ (List.mem_map_of_mem inRest)

def insert (map : OrderedMap κ α) (key : κ) (value : α) : OrderedMap κ α :=
  ⟨insertEntry key value map.entries, insertEntry_ascending map.ascending⟩

@[simp] theorem entries_empty : (empty : OrderedMap κ α).entries = [] := rfl

@[simp] theorem get?_empty : (empty : OrderedMap κ α).get? key = none := rfl

theorem keys_nodup (map : OrderedMap κ α) : map.keys.Nodup :=
  map.ascending.imp ne_of_lt

theorem get?_eq_some : map.get? key = some value ↔ (key, value) ∈ map.entries := by
  constructor
  · intro found
    obtain ⟨entry, located, rfl⟩ := Option.map_eq_some_iff.mp found
    have same : entry.1 = key := by simpa using List.find?_some located
    exact same ▸ List.mem_of_find?_eq_some located
  · intro member
    cases located : map.entries.find? (fun entry => entry.1 = key) with
    | none => simpa using List.find?_eq_none.mp located (key, value) member
    | some entry =>
        have same : entry.1 = key := by simpa using List.find?_some located
        have unique : entry = (key, value) :=
          List.inj_on_of_nodup_map map.keys_nodup
            (List.mem_of_find?_eq_some located) member same
        simp [get?, located, unique]

theorem get?_eq_none : map.get? key = none ↔ key ∉ map.keys := by
  simp [get?, keys, List.find?_eq_none]
  exact ⟨fun none value member => none key value member rfl,
    fun none other value member same => none value (same ▸ member)⟩

theorem mem_keys : key ∈ map.keys ↔ ∃ value, map.get? key = some value := by
  simp [keys, get?_eq_some]

theorem insertEntry_absent {entries : List (κ × α)}
    (absent : key ∉ entries.map Prod.fst) :
    ∃ before after, entries = before ++ after ∧
      insertEntry key value entries = before ++ (key, value) :: after := by
  induction entries with
  | nil => exact ⟨[], [], rfl, rfl⟩
  | cons head rest ih =>
      simp only [List.map_cons, List.mem_cons, not_or] at absent
      simp only [insertEntry, if_neg absent.1]
      split
      · exact ⟨[], head :: rest, rfl, rfl⟩
      · obtain ⟨before, after, split, inserted⟩ := ih absent.2
        exact ⟨head :: before, after, by simp [split], by simp [inserted]⟩

theorem insertEntry_found {entries : List (κ × α)}
    (ascending : (entries.map Prod.fst).Pairwise (· < ·)) (member : (key, old) ∈ entries) :
    ∃ before after, entries = before ++ (key, old) :: after ∧
      insertEntry key value entries = before ++ (key, value) :: after := by
  induction entries with
  | nil => simp at member
  | cons head rest ih =>
      obtain ⟨below, tail⟩ := List.pairwise_cons.mp ascending
      rcases List.mem_cons.mp member with rfl | inRest
      · exact ⟨[], rest, rfl, by simp [insertEntry]⟩
      · have later : head.1 < key := below key (List.mem_map_of_mem inRest)
        obtain ⟨before, after, split, inserted⟩ := ih tail inRest
        refine ⟨head :: before, after, by simp [split], ?_⟩
        simp [insertEntry, not_lt_of_gt later, ne_of_gt later, inserted]

/-- Inserting a new key puts one entry between two parts of the old list. -/
theorem insert_fresh (absent : map.get? key = none) (value : α) :
    ∃ before after, map.entries = before ++ after ∧
      (map.insert key value).entries = before ++ (key, value) :: after :=
  insertEntry_absent (get?_eq_none.mp absent)

/-- Inserting a present key replaces its value in place. -/
theorem insert_present (present : map.get? key = some old) (value : α) :
    ∃ before after, map.entries = before ++ (key, old) :: after ∧
      (map.insert key value).entries = before ++ (key, value) :: after :=
  insertEntry_found map.ascending (get?_eq_some.mp present)

theorem length_insert_fresh (absent : map.get? key = none) (value : α) :
    (map.insert key value).entries.length = map.entries.length + 1 := by
  obtain ⟨before, after, split, inserted⟩ := insert_fresh absent value
  rw [split, inserted]
  simp only [List.length_append, List.length_cons]
  omega

theorem length_insert_present (present : map.get? key = some old) (value : α) :
    (map.insert key value).entries.length = map.entries.length := by
  obtain ⟨before, after, split, inserted⟩ := insert_present present value
  rw [split, inserted]
  simp

theorem insertEntry_insertEntry (entries : List (κ × α)) (first second : α) :
    insertEntry key second (insertEntry key first entries) = insertEntry key second entries := by
  induction entries with
  | nil => simp [insertEntry]
  | cons head rest ih =>
      by_cases before : key < head.1
      · simp [insertEntry, before]
      · by_cases same : key = head.1
        · simp [insertEntry, same]
        · simp [insertEntry, before, same, ih]

/-- Of two insertions under one key only the second counts. -/
theorem insert_insert (map : OrderedMap κ α) (first second : α) :
    (map.insert key first).insert key second = map.insert key second := by
  simp [insert, insertEntry_insertEntry]

theorem keys_insert_present (present : map.get? key = some old) (value : α) :
    (map.insert key value).keys = map.keys := by
  obtain ⟨before, after, split, inserted⟩ := insert_present present value
  simp [keys, split, inserted]

theorem mem_entries_insert {entry : κ × α} :
    entry ∈ (map.insert key value).entries ↔
      entry = (key, value) ∨ (entry.1 ≠ key ∧ entry ∈ map.entries) := by
  cases found : map.get? key with
  | none =>
      obtain ⟨before, after, split, inserted⟩ := insert_fresh found value
      have unused := get?_eq_none.mp found
      have other : entry ∈ map.entries → entry.1 ≠ key := fun member same =>
        unused (same ▸ List.mem_map_of_mem member)
      rw [split] at other ⊢
      simp only [inserted, List.mem_append, List.mem_cons] at other ⊢
      tauto
  | some old =>
      obtain ⟨before, after, split, inserted⟩ := insert_present found value
      have nodup := map.keys_nodup
      simp only [keys, split, List.map_append, List.map_cons,
        List.nodup_middle, List.nodup_cons, List.mem_append, not_or] at nodup
      have inBefore : entry ∈ before → entry.1 ≠ key := fun member same =>
        nodup.1.1 (same ▸ List.mem_map_of_mem member)
      have inAfter : entry ∈ after → entry.1 ≠ key := fun member same =>
        nodup.1.2 (same ▸ List.mem_map_of_mem member)
      have replaced : entry = (key, old) → entry.1 = key := fun same => same ▸ rfl
      simp only [split, inserted, List.mem_append, List.mem_cons]
      tauto

theorem get?_insert : (map.insert key value).get? other =
    if other = key then some value else map.get? other := by
  apply Option.ext
  intro found
  rw [get?_eq_some, mem_entries_insert]
  by_cases same : other = key
  · simp [same, eq_comm]
  · simp [same, get?_eq_some]

@[simp] theorem get?_insert_self : (map.insert key value).get? key = some value := by
  rw [get?_insert, if_pos rfl]

theorem get?_insert_other (different : other ≠ key) :
    (map.insert key value).get? other = map.get? other := by
  rw [get?_insert, if_neg different]

theorem mem_values : value ∈ map.values ↔ ∃ key, map.get? key = some value := by
  simp [values, get?_eq_some]

theorem mem_values_of_get? (found : map.get? key = some value) : value ∈ map.values :=
  mem_values.mpr ⟨key, found⟩

theorem mem_values_insert : value ∈ (map.insert key value).values :=
  mem_values_of_get? get?_insert_self

theorem forall_values_insert {holds : α → Prop} (all : ∀ old ∈ map.values, holds old)
    (new : holds value) : ∀ kept ∈ (map.insert key value).values, holds kept := by
  intro kept member
  obtain ⟨other, found⟩ := mem_values.mp member
  rw [get?_insert] at found
  split at found
  · exact Option.some.inj found ▸ new
  · exact all kept (mem_values_of_get? found)

/-- When some value of a map fails a test, replacing one makes them all pass
exactly if the new value passes and the replaced one was the only failure. -/
theorem forall_values_insert_last {holds : α → Prop} (present : map.get? key = some old)
    (failing : ∃ other ∈ map.values, ¬ holds other) :
    (∀ kept ∈ (map.insert key value).values, holds kept) ↔
      holds value ∧ ∀ other kept, map.get? other = some kept → (¬ holds kept ↔ other = key) := by
  constructor
  · intro all
    have others : ∀ other kept, map.get? other = some kept → ¬ holds kept → other = key := by
      intro other kept found fails
      by_contra different
      exact fails (all kept (mem_values_of_get? (by rwa [get?_insert_other different])))
    refine ⟨all value mem_values_insert, fun other kept found => ⟨others other kept found, ?_⟩⟩
    intro same
    subst same
    obtain ⟨failure, member, fails⟩ := failing
    obtain ⟨place, located⟩ := mem_values.mp member
    have here := others place failure located fails
    subst here
    rw [located, Option.some.injEq] at found
    exact found ▸ fails
  · intro ⟨passes, only⟩ kept member
    obtain ⟨other, found⟩ := mem_values.mp member
    rw [get?_insert] at found
    split at found
    · exact Option.some.inj found ▸ passes
    · rename_i different
      by_contra fails
      exact different ((only other kept found).mp fails)

/-! ## The keys that pass a test -/

section KeysWhere

variable {holds : α → Prop} [DecidablePred holds]

theorem mem_keysWhere :
    key ∈ map.keysWhere holds ↔ ∃ value, map.get? key = some value ∧ holds value := by
  simp [keysWhere, get?_eq_some]

theorem keysWhere_eq_nil : map.keysWhere holds = [] ↔ ∀ value ∈ map.values, ¬ holds value := by
  simp only [keysWhere, values, List.map_eq_nil_iff, List.filter_eq_nil_iff, decide_eq_true_eq,
    List.forall_mem_map]

theorem length_keysWhere_add :
    (map.keysWhere holds).length + (map.keysWhere (¬ holds ·)).length = map.entries.length := by
  simp only [keysWhere, List.length_map, decide_not]
  exact (List.length_eq_length_filter_add fun entry : κ × α => decide (holds entry.2)).symm

theorem keysWhere_insert_fresh (absent : map.get? key = none) (fails : ¬ holds value) :
    (map.insert key value).keysWhere holds = map.keysWhere holds := by
  obtain ⟨before, after, split, inserted⟩ := insert_fresh absent value
  simp [keysWhere, split, inserted, fails]

theorem keysWhere_insert_fresh_perm (absent : map.get? key = none) (passes : holds value) :
    ((map.insert key value).keysWhere holds).Perm (key :: map.keysWhere holds) := by
  obtain ⟨before, after, split, inserted⟩ := insert_fresh absent value
  simp only [keysWhere, split, inserted, List.filter_append, List.filter_cons, passes,
    decide_true, if_true, List.map_append, List.map_cons]
  exact List.perm_middle

theorem keysWhere_insert_same (present : map.get? key = some old)
    (same : holds value ↔ holds old) :
    (map.insert key value).keysWhere holds = map.keysWhere holds := by
  obtain ⟨before, after, split, inserted⟩ := insert_present present value
  by_cases passes : holds old
  · simp [keysWhere, split, inserted, passes, same]
  · simp [keysWhere, split, inserted, passes, same]

theorem keysWhere_insert_gain (present : map.get? key = some old) (failed : ¬ holds old)
    (passes : holds value) :
    ((map.insert key value).keysWhere holds).Perm (key :: map.keysWhere holds) := by
  obtain ⟨before, after, split, inserted⟩ := insert_present present value
  simp only [keysWhere, split, inserted, List.filter_append, List.filter_cons, passes, failed,
    decide_true, decide_false, if_true, Bool.false_eq_true, if_false, List.map_append,
    List.map_cons]
  exact List.perm_middle

theorem keysWhere_insert_lose (present : map.get? key = some old) (passed : holds old)
    (fails : ¬ holds value) :
    (map.keysWhere holds).Perm (key :: (map.insert key value).keysWhere holds) := by
  obtain ⟨before, after, split, inserted⟩ := insert_present present value
  simp only [keysWhere, split, inserted, List.filter_append, List.filter_cons, passed, fails,
    decide_true, decide_false, if_true, Bool.false_eq_true, if_false, List.map_append,
    List.map_cons]
  exact List.perm_middle

end KeysWhere

/-! ## Removing entries -/

section FilterKeys

variable {keep : κ → Bool}

/-- The entries whose keys are kept. -/
def filterKeys (map : OrderedMap κ α) (keep : κ → Bool) : OrderedMap κ α :=
  ⟨map.entries.filter (keep ·.1), map.ascending.sublist (List.filter_sublist.map _)⟩

def erase (map : OrderedMap κ α) (key : κ) : OrderedMap κ α := map.filterKeys (· ≠ key)

theorem get?_filterKeys :
    (map.filterKeys keep).get? key = if keep key then map.get? key else none := by
  apply Option.ext
  intro value
  rw [get?_eq_some, filterKeys, List.mem_filter, ← get?_eq_some]
  cases keep key <;> simp

theorem get?_erase :
    (map.erase key).get? other = if other = key then none else map.get? other := by
  rw [erase, get?_filterKeys]
  by_cases same : other = key <;> simp [same]

theorem erase_absent (absent : map.get? key = none) : map.erase key = map := by
  have all : map.entries.filter (fun entry => entry.1 ≠ key) = map.entries := by
    apply List.filter_eq_self.mpr
    intro entry member
    have other : entry.1 ≠ key := fun same =>
      get?_eq_none.mp absent (same ▸ List.mem_map_of_mem member)
    simpa using other
  obtain ⟨entries, ascending⟩ := map
  exact (mk.injEq ..).mpr all

end FilterKeys

/-! ## Sums over the entries -/

theorem sum_insert_fresh (weight : κ × α → ℕ) (absent : map.get? key = none) (value : α) :
    ((map.insert key value).entries.map weight).sum =
      (map.entries.map weight).sum + weight (key, value) := by
  obtain ⟨before, after, split, inserted⟩ := insert_fresh absent value
  simp only [split, inserted, List.map_append, List.map_cons, List.sum_append, List.sum_cons]
  omega

theorem sum_insert_present (weight : κ × α → ℕ) (present : map.get? key = some old)
    (value : α) :
    ((map.insert key value).entries.map weight).sum + weight (key, old) =
      (map.entries.map weight).sum + weight (key, value) := by
  obtain ⟨before, after, split, inserted⟩ := insert_present present value
  simp only [split, inserted, List.map_append, List.map_cons, List.sum_append, List.sum_cons]
  omega

end OrderedMap

end SmartContracts.Data
