import SmartContracts.Chain.StateMap
import SmartContracts.Chain.Views
import SmartContracts.Semantics.Runs

namespace SmartContracts.Chain

open SmartContracts.Data SmartContracts.Semantics Serialize

/-! # Exported functions

The chain keeps a contract as a trie: the state is in the entry of the empty key,
and the maps in it keep their values under other keys.  The function exported for
an entrypoint reads the state from the start of its entry, calls the entrypoint,
and writes the new state over the old one.  It means to cut off what is left of the
old state behind it, but asks for the size of the entry when the old bytes are
still there.
-/

def rootKey : Bytes := []

/-- No map has its values there. -/
theorem rootKey_outside {κ α : Type} (map : StateMap κ α) :
    ¬ map.mapPrefix.toList <+: rootKey := by
  intro under
  have short := under.length_le
  rw [Vector.length_toList] at short
  cases short

def rootEntry (trie : StateTrie) : Bytes := (trie.get? rootKey).getD []

/-- What an entrypoint works on: the state that was read, and the trie around it. -/
structure Loaded (ρ : Type) where
  root : ρ
  trie : StateTrie

section Exported

variable {ρ μ : Type} [serialize : Serialize ρ]

/-- The new state over the old entry; a state that does not fit is a trap. -/
def saveState (entry : Bytes) (state : ρ) : Option Bytes := do
  let rootEntryEnd ← (StateEntry.atStart entry).put state
  let newStateSize := rootEntryEnd.size
  return (rootEntryEnd.truncate newStateSize).bytes

/-- The tail of a longer old state stays. -/
theorem saveState_iff {entry after : Bytes} {state : ρ} :
    saveState entry state = some after ↔
      (serial state).length ≤ maxEntrySize ∧
        after = serial state ++ entry.drop (serial state).length := by
  have written : ∀ rootEntryEnd, (StateEntry.atStart entry).put state = some rootEntryEnd ↔
      (serial state).length ≤ maxEntrySize ∧
        rootEntryEnd = { bytes := serial state ++ entry.drop (serial state).length
                         currentPosition := (serial state).length } :=
    fun _ => @StateEntry.overwrite_iff (.atStart entry) _ _ _ state
  have whole : ∀ entry : StateEntry, entry.truncate entry.size = entry :=
    fun entry => if_neg (lt_irrefl _)
  rw [saveState, Option.bind_eq_bind, Option.bind_eq_some_iff]
  simp only [whole, written]
  constructor
  · rintro ⟨_, ⟨fits, rfl⟩, made⟩
    exact ⟨fits, (Option.some.inj made).symm⟩
  · rintro ⟨fits, rfl⟩
    exact ⟨_, ⟨fits, rfl⟩, rfl⟩

/-- The state that a contract begins with goes into an entry of its own. -/
def exportedInit (init : StateTrie → Option (ρ × StateTrie)) : Option StateTrie := do
  let (root, trie) ← init .empty
  let entry ← (StateEntry.atStart []).put root
  return trie.insert rootKey entry.bytes

variable (entrypoint : Host (Loaded ρ) → μ → Option (Host (Loaded ρ)))

/-- What is left of a call on the chain, where the entrypoint leaves the outcome. -/
def exported (stored : Host StateTrie) (message : μ) : Option (Host StateTrie) := do
  let entry ← stored.state.get? rootKey
  let root ← fromBytes entry
  let after ← entrypoint (stored.withState { root, trie := stored.state }) message
  let entry ← after.state.trie.get? rootKey
  let saved ← saveState entry after.state.root
  return after.withState (after.state.trie.insert rootKey saved)

def exportedStep (stored : Host StateTrie) (message : μ) : Host StateTrie :=
  (exported entrypoint stored message).getD stored

end Exported

def calledStep {σ μ : Type} (outcome : Host σ → μ → Option (Host σ)) (host : Host σ)
    (message : μ) : Host σ :=
  (outcome host message).getD host

/-! ## What is stored -/

section Stores

variable {ρ σ μ : Type} [serialize : Serialize ρ]

/-- The chain keeps this host: its money, and in front of the root entry what stands
for its state. -/
structure Stores (view : Loaded ρ → σ → Prop) (stored : Host StateTrie) (host : Host σ) :
    Prop where
  chain : stored.withState host.state = host
  root : ∃ root entry, stored.state.get? rootKey = some entry ∧
    (Fits root ∧ serial root <+: entry) ∧ view { root, trie := stored.state } host.state

/-- The loaded state stands for the other one, with this in the root entry. -/
def Above (entry : Option Bytes) (view : Loaded ρ → σ → Prop) (loaded : Loaded ρ) (state : σ) :
    Prop :=
  loaded.trie.get? rootKey = entry ∧ view loaded state

/-- The entrypoint leaves what stands for the outcome, and keeps off the root entry. -/
structure Implements (view : Loaded ρ → σ → Prop) (size : σ → ℕ)
    (entrypoint : Host (Loaded ρ) → μ → Option (Host (Loaded ρ)))
    (outcome : Host σ → μ → Option (Host σ)) : Prop where
  calls : ∀ entry loaded host message, Shows (Above entry view) loaded host →
    Option.Rel (Shows (Above entry view)) (entrypoint loaded message) (outcome host message)
  -- what is written to the root entry is not looked at
  frame : ∀ root trie state entry, view { root, trie } state →
    view { root, trie := trie.insert rootKey entry } state
  sized : ∀ loaded state, view loaded state → (serial loaded.root).length = size state

/-- The state a call leaves can be stored. -/
def Savable (size : σ → ℕ) (outcome : Host σ → μ → Option (Host σ)) (host : Host σ)
    (message : μ) : Prop :=
  ∀ after, outcome host message = some after → size after.state ≤ maxEntrySize

instance decidableSavable (size : σ → ℕ) (outcome : Host σ → μ → Option (Host σ)) :
    ∀ host message, Decidable (Savable size outcome host message) :=
  fun host message =>
    decidable_of_iff ((outcome host message).all fun after => size after.state ≤ maxEntrySize)
      (by simp only [Option.all_eq_true, decide_eq_true_eq, Savable])

variable {view : Loaded ρ → σ → Prop} {size : σ → ℕ}
  {entrypoint : Host (Loaded ρ) → μ → Option (Host (Loaded ρ))}
  {outcome : Host σ → μ → Option (Host σ)} {stored : Host StateTrie} {host after : Host σ}
  {message : μ}

variable (implements : Implements view size entrypoint outcome)

include implements

theorem Stores.exported_none (stores : Stores view stored host)
    (fails : outcome host message = none) : exported entrypoint stored message = none := by
  obtain ⟨root, entry, found, front, shown⟩ := stores.root
  have before : Shows (Above (some entry) view)
      (stored.withState { root, trie := stored.state }) host := ⟨stores.chain, found, shown⟩
  have agree := implements.calls (some entry) _ host message before
  rw [exported, found]
  simp only [Option.bind_eq_bind, Option.bind_some, fromBytes_iff.mpr front]
  rw [fails] at agree
  cases called : entrypoint (stored.withState { root, trie := stored.state }) message with
  | none => rfl
  | some loaded =>
      rw [called] at agree
      cases agree

/-- The chain keeps the outcome if it can be stored, and else turns the call away. -/
theorem Stores.exported_returned (readable : Readable ρ) (stores : Stores view stored host)
    (returned : outcome host message = some after) :
    if size after.state ≤ maxEntrySize then
      ∃ next, exported entrypoint stored message = some next ∧ Stores view next after ∧
        (rootEntry stored.state).length ≤ (rootEntry next.state).length
    else exported entrypoint stored message = none := by
  obtain ⟨root, entry, found, front, shown⟩ := stores.root
  have before : Shows (Above (some entry) view)
      (stored.withState { root, trie := stored.state }) host := ⟨stores.chain, found, shown⟩
  have agree := implements.calls (some entry) _ host message before
  rw [returned] at agree
  obtain ⟨loaded, called, shows⟩ : ∃ loaded, entrypoint
      (stored.withState { root, trie := stored.state }) message = some loaded ∧
      Shows (Above (some entry) view) loaded after := by
    cases called : entrypoint (stored.withState { root, trie := stored.state }) message with
    | none =>
        rw [called] at agree
        cases agree
    | some loaded =>
        rw [called] at agree
        cases agree with
        | some shows => exact ⟨loaded, rfl, shows⟩
  rw [← implements.sized _ _ shows.state.2, exported, found]
  simp only [Option.bind_eq_bind, Option.bind_some, fromBytes_iff.mpr front, called,
    shows.state.1]
  split
  · rename_i fits
    have below : (serial loaded.state.root).length < 2 ^ 32 :=
      fits.trans_lt StateEntry.maxEntrySize_small
    rw [saveState_iff.mpr ⟨fits, rfl⟩]
    refine ⟨_, rfl, ⟨shows.chain, loaded.state.root, _, OrderedMap.get?_insert_self,
      ⟨readable _ below, List.prefix_append _ _⟩,
      implements.frame _ _ _ _ shows.state.2⟩, ?_⟩
    rw [rootEntry, rootEntry, found, Host.withState, OrderedMap.get?_insert_self,
      Option.getD_some, Option.getD_some, List.length_append, List.length_drop]
    omega
  · rename_i large
    have fails : saveState entry loaded.state.root = none :=
      Option.eq_none_iff_forall_ne_some.mpr fun _ saved => large (saveState_iff.mp saved).1
    rw [fails, Option.bind_none]

theorem Stores.step_large (readable : Readable ρ) (stores : Stores view stored host)
    (large : ¬ Savable size outcome host message) :
    exportedStep entrypoint stored message = stored := by
  obtain ⟨after, returned, large⟩ : ∃ after, outcome host message = some after ∧
      ¬ size after.state ≤ maxEntrySize := by
    simpa only [Savable, not_forall, exists_prop] using large
  have fails := stores.exported_returned implements readable returned
  rw [if_neg large] at fails
  rw [exportedStep, fails, Option.getD_none]

theorem Stores.step_savable (readable : Readable ρ) (stores : Stores view stored host)
    (savable : Savable size outcome host message) :
    Stores view (exportedStep entrypoint stored message) (calledStep outcome host message) ∧
      (rootEntry stored.state).length ≤
        (rootEntry (exportedStep entrypoint stored message).state).length := by
  rw [exportedStep, calledStep]
  cases returned : outcome host message with
  | none =>
      rw [stores.exported_none implements returned]
      exact ⟨stores, le_rfl⟩
  | some after =>
      have exports := stores.exported_returned implements readable returned
      rw [if_pos (savable after returned)] at exports
      obtain ⟨next, made, later⟩ := exports
      rw [made]
      exact later

/-- Over a run the chain keeps the state the entrypoints leave, in the run without
the calls whose state was too large where they stood.  The root entry never gets
shorter, however short the state becomes. -/
theorem Stores.run (readable : Readable ρ) (stores : Stores view stored host)
    (messages : List μ) :
    Stores view (run (exportedStep entrypoint) stored messages)
        (run (calledStep outcome) host
          (served (calledStep outcome) (Savable size outcome) host messages)) ∧
      (rootEntry stored.state).length ≤
        (rootEntry (run (exportedStep entrypoint) stored messages).state).length := by
  refine @run_served _ _ (calledStep outcome) (Savable size outcome) _ _
    (exportedStep entrypoint) (fun low high => Stores view low high ∧
      (rootEntry stored.state).length ≤ (rootEntry low.state).length)
    ?_ ?_ stored host ⟨stores, le_rfl⟩ messages
  · intro low high message kept savable
    obtain ⟨stores, longer⟩ := kept
    obtain ⟨next, grown⟩ := stores.step_savable implements readable savable
    exact ⟨next, longer.trans grown⟩
  · intro low high message kept large
    obtain ⟨stores, longer⟩ := kept
    rw [stores.step_large implements readable large]
    exact ⟨stores, longer⟩

end Stores

/-! ## Contracts without maps -/

section Mapless

variable {ρ μ : Type} [serialize : Serialize ρ]

/-- An entrypoint that works on the root alone. -/
def mapless (outcome : Host ρ → μ → Option (Host ρ)) (loaded : Host (Loaded ρ)) (message : μ) :
    Option (Host (Loaded ρ)) := do
  let after ← outcome (loaded.withState loaded.state.root) message
  return after.withState { root := after.state, trie := loaded.state.trie }

theorem mapless_implements (outcome : Host ρ → μ → Option (Host ρ)) :
    Implements (fun loaded state => loaded.root = state) (fun state => (serial state).length)
      (mapless outcome) outcome where
  calls entry loaded host message shows := by
    rw [mapless, shows.state.2, shows.chain]
    cases outcome host message with
    | none => exact .none
    | some after => exact .some ⟨rfl, shows.state.1, rfl⟩
  frame _ _ _ _ shown := shown
  sized _ _ shown := congrArg (fun state => (serial state).length) shown

end Mapless

end SmartContracts.Chain
