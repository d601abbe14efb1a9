import SmartContracts.Auction.Bidding
import SmartContracts.Chain.Export

namespace SmartContracts.Auction

open SmartContracts.Chain SmartContracts.Data SmartContracts.Semantics Serialize

/-! # The auction on the chain

On the chain the state of an auction is spread over a trie.  The root entry holds
the fields and the prefix of the bid map, and each bid is an entry of its own.  The
entrypoints are written here against the trie, operation by operation, and the
auction so kept behaves as the one whose state is a value.
-/

/-! ## The root -/

namespace AuctionState

def tag : AuctionState → UInt8
  | notSoldYet => 0
  | sold _ => 1

/-- What follows the tag of the variant. -/
def fields : AuctionState → Bytes
  | notSoldYet => []
  | sold winner => serial winner

def deserialFields : UInt8 → Source UInt8 AuctionState
  | 0 => pure notSoldYet
  | 1 => do
      let winner ← deserial
      return sold winner
  | _ => Source.fail

theorem inverts_fields (byte : UInt8) :
    Inverts (deserialFields byte) fields fun state => (True ∧ state.tag = byte) ∧ True := by
  apply Inverts.of_iff
  intro input state rest
  unfold deserialFields
  split
  · constructor
    · intro found
      obtain ⟨rfl, rfl⟩ := Prod.mk.inj (Option.some.inj found)
      exact ⟨⟨⟨trivial, rfl⟩, trivial⟩, rfl⟩
    · rintro ⟨⟨⟨_, same⟩, _⟩, rfl⟩
      cases state with
      | notSoldYet => rfl
      | sold winner => cases same
  · rw [Inverts.bind_iff]
    constructor
    · rintro ⟨winner, middle, one, two⟩
      obtain ⟨_, rfl⟩ := inverts.write_read one
      obtain ⟨rfl, rfl⟩ := Prod.mk.inj (Option.some.inj two)
      exact ⟨⟨⟨trivial, rfl⟩, trivial⟩, rfl⟩
    · rintro ⟨⟨⟨_, same⟩, _⟩, rfl⟩
      cases state with
      | notSoldYet => cases same
      | sold winner => exact ⟨winner, rest, inverts.read_write rest trivial, rfl⟩
  · rename_i notUnsold notSold
    constructor
    · intro found
      cases found
    · rintro ⟨⟨⟨_, same⟩, _⟩, _⟩
      cases state with
      | notSoldYet => exact absurd same.symm notUnsold
      | sold winner => exact absurd same.symm notSold

end AuctionState

instance serializeAuctionState : Serialize AuctionState where
  serial state := serial state.tag ++ state.fields
  deserial := do
    let byte : UInt8 ← deserial
    AuctionState.deserialFields byte
  Fits _ := True
  inverts := by
    have written := (inverts (α := UInt8)).field AuctionState.tag AuctionState.inverts_fields
    exact written.congr fun _ => ⟨fun _ => ⟨trivial, trivial, trivial⟩, fun _ => trivial⟩

instance serializeInitParameter : Serialize InitParameter where
  serial parameter := serial parameter.item ++ serial parameter.expiry
  deserial := do
    let item ← deserial
    let expiry ← deserial
    return { item, expiry }
  Fits parameter := Fits parameter.item ∧ Fits parameter.expiry
  inverts := by
    apply Inverts.record
    apply Inverts.field InitParameter.item inverts fun item => ?_
    apply Inverts.last InitParameter.expiry inverts
    rintro ⟨⟩ expiry _
    simp

/-- The state as it is read from the root entry. -/
structure Root where
  auctionState : AuctionState
  highestBid : Amount
  item : String
  expiry : Timestamp
  bids : StateMap AccountAddress Amount

instance serializeRoot : Serialize Root where
  serial root :=
    serial root.auctionState ++ (serial root.highestBid ++ (serial root.item ++
      (serial root.expiry ++ serial root.bids)))
  deserial := do
    let auctionState ← deserial
    let highestBid ← deserial
    let item ← deserial
    let expiry ← deserial
    let bids ← deserial
    return { auctionState, highestBid, item, expiry, bids }
  Fits root := Fits root.auctionState ∧ Fits root.highestBid ∧ Fits root.item ∧
    Fits root.expiry ∧ Fits root.bids
  inverts := by
    apply Inverts.record
    apply Inverts.field Root.auctionState inverts fun auctionState => ?_
    apply Inverts.field Root.highestBid inverts fun highestBid => ?_
    apply Inverts.field Root.item inverts fun item => ?_
    apply Inverts.field Root.expiry inverts fun expiry => ?_
    apply Inverts.last Root.bids inverts
    rintro ⟨⟩ bids _
    simp [and_assoc]

theorem readable_root : Readable Root := by
  intro root short
  have part : serial root.item <:+: serial root :=
    ⟨serial root.auctionState ++ serial root.highestBid, serial root.expiry ++ serial root.bids, by
      simp only [List.append_assoc]
      rfl⟩
  exact ⟨trivial, trivial, readable_string _ (part.length_le.trans_lt short), trivial, trivial⟩

/-! ## The entrypoints -/

def storedInit (parameter : Bytes) (trie : StateTrie) : Option (Root × StateTrie) := do
  let parameter : InitParameter ← fromBytes parameter
  let (trie, bids) ← StateMap.newMap trie
  let root := {
    auctionState := .notSoldYet
    highestBid := 0
    item := parameter.item
    expiry := parameter.expiry
    bids }
  return (root, trie)

def storedBid (ctx : ReceiveContext) (amount : Amount) : Receive BidError (Loaded Root) Unit := do
  let { root, trie } ← Receive.state
  Receive.ensure (root.auctionState = .notSoldYet) .auctionFinalized
  Receive.ensure (ctx.slotTime ≤ root.expiry) .bidsOverWaitingForAuctionFinalization
  let senderAddress ← Receive.senderAccount ctx .contractSender
  let (trie, bidToUpdate) ←
    Receive.unwrapAbort (root.bids.raise trie senderAddress 0 (· + amount))
  Receive.setState { root, trie }
  Receive.ensure (bidToUpdate > root.highestBid) .bidTooLow
  Receive.setState { root := { root with highestBid := bidToUpdate }, trie }

/-- The loop over the bids as the iterator comes to them. -/
def storedReturnBids (highestBid : Amount) :
    List (Option (AccountAddress × Amount)) → Option (AccountAddress × Amount) →
      Receive FinalizeError (Loaded Root) (Option (AccountAddress × Amount))
  | [], remainingBid => pure remainingBid
  | entry :: rest, remainingBid => do
      let (addr, amnt) ← Receive.unwrapAbort entry
      if amnt < highestBid then do
        Receive.transfer (fun _ => .bidMapError) addr amnt
        storedReturnBids highestBid rest remainingBid
      else do
        Receive.ensure (remainingBid = none) .bidMapError
        storedReturnBids highestBid rest (some (addr, amnt))

def storedFinalize (ctx : ReceiveContext) : Receive FinalizeError (Loaded Root) Unit := do
  let { root, trie } ← Receive.state
  Receive.ensure (root.auctionState = .notSoldYet) .auctionFinalized
  Receive.ensure (ctx.slotTime > root.expiry) .auctionStillActive
  let balance ← Receive.selfBalance
  if balance = 0 then pure ()
  else do
    Receive.transfer (fun _ => .bidMapError) ctx.owner root.highestBid
    let remainingBid ← storedReturnBids root.highestBid (root.bids.iter trie) none
    match remainingBid with
    | some (addr, amount) =>
        Receive.ensure (amount = root.highestBid) .bidMapError
        Receive.setState { root := { root with auctionState := .sold addr }, trie }
    | none => Receive.bail .bidMapError

/-! ## They stand for one another -/

/-- The root and the entries behind the prefix are the state. -/
structure Holds (loaded : Loaded Root) (state : State) : Prop where
  auctionState : loaded.root.auctionState = state.auctionState
  highestBid : loaded.root.highestBid = state.highestBid
  item : loaded.root.item = state.item
  expiry : loaded.root.expiry = state.expiry
  bids : Represents loaded.trie loaded.root.bids state.bids

/-- How many bytes of the root entry are the state. -/
def State.size (state : State) : ℕ :=
  (serial state.auctionState).length + 8 + (serial state.item).length + 8 + 8

theorem Holds.size {loaded : Loaded Root} {state : State} (holds : Holds loaded state) :
    (serial loaded.root).length = state.size := by
  have parts : (serial loaded.root).length = (serial loaded.root.auctionState).length +
      ((serial loaded.root.highestBid).length + ((serial loaded.root.item).length +
        ((serial loaded.root.expiry).length + (serial loaded.root.bids).length))) := by
    simp only [← List.length_append]
    rfl
  have word : ∀ word : UInt64, (serial word).length = 8 := length_toLeBytes
  rw [parts, word, word, length_serial_map, holds.auctionState, holds.item, State.size]
  omega

/-- The root entry is not looked at. -/
theorem Holds.save {root : Root} {trie : StateTrie} {state : State}
    (holds : Holds { root, trie } state) (entry : Bytes) :
    Holds { root, trie := trie.insert rootKey entry } state := by
  have apart : ∀ bytes, root.bids.mapPrefix.toList <+: bytes →
      (trie.insert rootKey entry).get? bytes = trie.get? bytes :=
    fun bytes under =>
      OrderedMap.get?_insert_other fun same => rootKey_outside root.bids (same ▸ under)
  exact { holds with bids := holds.bids.frame apart }

theorem small_amount (amount : Amount) : (serial amount).length ≤ maxEntrySize := by
  rw [show (serial amount).length = 8 from length_toLeBytes amount]
  decide

theorem storedBid_simulates (ctx : ReceiveContext) (amount : Amount) (entry : Option Bytes) :
    Simulates (Shows (Above entry Holds)) (fun _ _ => True) (storedBid ctx amount)
      (auctionBid ctx amount) := by
  apply Simulates.bind Receive.state_simulates
  rintro ⟨root, trie⟩ state ⟨above, holds⟩
  apply Simulates.bind (Receive.ensure_simulates (by rw [← holds.auctionState]) _)
  intro _ _ _
  apply Simulates.bind (Receive.ensure_simulates (by rw [← holds.expiry]) _)
  intro _ _ _
  apply Simulates.bind (Receive.senderAccount_simulates ctx _)
  rintro sender _ rfl
  have raised : root.bids.raise trie sender 0 (· + amount) =
      some (trie.insert (root.bids.keyWithMapPrefix sender) (serial (state.raised sender amount)),
        state.raised sender amount) :=
    holds.bids.raise (small_amount 0) (small_amount _)
  have keeps : (trie.insert (root.bids.keyWithMapPrefix sender)
      (serial (state.raised sender amount))).get? rootKey = entry :=
    (get?_insert_outside (rootKey_outside root.bids)).trans above
  have bids : Represents (trie.insert (root.bids.keyWithMapPrefix sender)
      (serial (state.raised sender amount))) root.bids
      (state.bids.insert sender (state.raised sender amount)) :=
    holds.bids.write (fits_u64 _) List.prefix_rfl
  simp only [raised, Receive.unwrapAbort, pure_bind]
  apply Simulates.bind (Receive.setState_simulates ⟨keeps, { holds with bids }⟩)
  intro _ _ _
  apply Simulates.bind (Receive.ensure_simulates (by rw [← holds.highestBid]; rfl) _)
  intro _ _ _
  exact Receive.setState_simulates ⟨keeps, { holds with highestBid := rfl, bids }⟩

theorem storedReturnBids_simulates {view : Loaded Root → State → Prop} (highestBid : Amount)
    (entries : List (AccountAddress × Amount)) (remaining : Option (AccountAddress × Amount)) :
    Simulates (Shows view) Eq (storedReturnBids highestBid (entries.map some) remaining)
      (returnBids highestBid entries remaining) := by
  induction entries generalizing remaining with
  | nil => exact .pure rfl
  | cons entry rest ih =>
      obtain ⟨addr, amnt⟩ := entry
      simp only [List.map_cons, storedReturnBids, returnBids, Receive.unwrapAbort, pure_bind]
      apply Simulates.ite Iff.rfl
      · intro _
        apply Simulates.bind (Receive.transfer_simulates _ addr amnt)
        intro _ _ _
        exact ih remaining
      · intro _
        apply Simulates.bind (Receive.ensure_simulates Iff.rfl _)
        intro _ _ _
        exact ih (some (addr, amnt))

theorem storedFinalize_simulates (ctx : ReceiveContext) (entry : Option Bytes) :
    Simulates (Shows (Above entry Holds)) (fun _ _ => True) (storedFinalize ctx)
      (auctionFinalize ctx) := by
  apply Simulates.bind Receive.state_simulates
  rintro ⟨root, trie⟩ state ⟨above, holds⟩
  apply Simulates.bind (Receive.ensure_simulates (by rw [← holds.auctionState]) _)
  intro _ _ _
  apply Simulates.bind (Receive.ensure_simulates (by rw [← holds.expiry]) _)
  intro _ _ _
  apply Simulates.bind Receive.selfBalance_simulates
  rintro balance _ rfl
  apply Simulates.ite Iff.rfl
  · exact fun _ => .pure trivial
  intro _
  rw [← holds.highestBid, holds.bids.iter]
  apply Simulates.bind (Receive.transfer_simulates _ ctx.owner root.highestBid)
  intro _ _ _
  apply Simulates.bind (storedReturnBids_simulates root.highestBid state.bids.entries none)
  rintro remaining _ rfl
  cases remaining with
  | none => exact Receive.bail_simulates _
  | some left =>
      obtain ⟨addr, amount⟩ := left
      apply Simulates.bind (Receive.ensure_simulates Iff.rfl _)
      intro _ _ _
      exact Receive.setState_simulates ⟨above, { holds with auctionState := rfl, highestBid := rfl }⟩

/-! ## Runs -/

section Machine

variable (owner : AccountAddress)

def outcome (host : Host State) (tx : Transaction) : Option (Host State) :=
  match tx.entrypoint with
  | .bid => host.returned tx.amount (auctionBid (tx.context owner) tx.amount)
  | .finalize => host.returnedUnpaid tx.amount (auctionFinalize (tx.context owner))

def storedOutcome (loaded : Host (Loaded Root)) (tx : Transaction) : Option (Host (Loaded Root)) :=
  match tx.entrypoint with
  | .bid => loaded.returned tx.amount (storedBid (tx.context owner) tx.amount)
  | .finalize => loaded.returnedUnpaid tx.amount (storedFinalize (tx.context owner))

/-- The auction on the chain. -/
def storedStep (stored : Host StateTrie) (tx : Transaction) : Host StateTrie :=
  exportedStep (storedOutcome owner) stored tx

theorem step_called : step owner = calledStep (outcome owner) := by
  funext host tx
  rw [step, calledStep, outcome]
  cases tx.entrypoint with
  | bid =>
      dsimp only
      rw [Host.transact, Host.returned]
      cases (auctionBid (tx.context owner) tx.amount).run (host.receiving tx.amount) <;> rfl
  | finalize =>
      dsimp only
      rw [Host.transactUnpaid, Host.returnedUnpaid]
      split
      · rw [Host.transact, Host.returned]
        cases (auctionFinalize (tx.context owner)).run (host.receiving 0) <;> rfl
      · rfl

theorem storedOutcome_implements :
    Implements Holds State.size (storedOutcome owner) (outcome owner) where
  calls entry loaded host tx shows := by
    rw [storedOutcome, outcome]
    cases tx.entrypoint with
    | bid => exact shows.returned (storedBid_simulates (tx.context owner) tx.amount entry) tx.amount
    | finalize =>
        exact shows.returnedUnpaid (storedFinalize_simulates (tx.context owner) entry) tx.amount
  frame _ _ _ entry holds := holds.save entry
  sized _ _ holds := holds.size

end Machine

variable {owner : AccountAddress} {host after : Host State} {tx : Transaction}

theorem outcome_item (returned : outcome owner host tx = some after) :
    after.state.item = host.state.item := by
  rw [outcome] at returned
  cases call : tx.entrypoint with
  | bid =>
      rw [call] at returned
      obtain ⟨_, ran⟩ := Host.returned_eq_some.mp returned
      obtain ⟨_, _, _, _, _, rfl⟩ := auctionBid_ok.mp ran
      rfl
  | finalize =>
      rw [call] at returned
      obtain ⟨_, _, ran⟩ := Host.returnedUnpaid_eq_some.mp returned
      obtain ⟨_, _, ⟨_, rfl⟩ | ⟨_, _, _, _, rfl⟩⟩ := auctionFinalize_ok.mp ran
      · rfl
      · rfl

/-- The winner is the only part of the root that is not there from the start. -/
theorem size_le (state : State) : state.size ≤ 57 + (serial state.item).length := by
  have tagged : (serial state.auctionState).length ≤ 33 := by
    cases state.auctionState with
    | notSoldYet => decide
    | sold winner =>
        have parts : (serial (AuctionState.sold winner)).length =
            (serial (1 : UInt8)).length + winner.bytes.length := List.length_append
        rw [parts, winner.size, show (serial (1 : UInt8)).length = 1 from length_lowBytes 1 _]
  rw [State.size]
  omega

/-- An auction is deployed if its parameter can be read and its root be stored. -/
theorem exportedInit_stores (parameter : Bytes) :
    match auctionInit (fromBytes parameter) with
    | none => exportedInit (storedInit parameter) = none
    | some start =>
        if start.size ≤ maxEntrySize then
          ∃ trie, exportedInit (storedInit parameter) = some trie ∧
            Stores Holds (Host.deployed trie) (Host.deployed start)
        else exportedInit (storedInit parameter) = none := by
  cases parsed : (fromBytes parameter : Option InitParameter) with
  | none =>
      rw [auctionInit, exportedInit, storedInit, parsed]
      rfl
  | some found =>
      obtain ⟨next, made, _⟩ := @newMap_next .empty 2 AccountAddress Amount List.prefix_rfl
      let start : State := {
        auctionState := .notSoldYet
        highestBid := 0
        item := found.item
        expiry := found.expiry
        bids := .empty }
      let loaded : Loaded Root := {
        root := { start with bids := { mapPrefix := prefixOf 2 } }
        trie := OrderedMap.empty.insert nextItemPrefixKey next }
      have began : auctionInit (some found) = some start := rfl
      have init : storedInit parameter .empty = some (loaded.root, loaded.trie) := by
        rw [storedInit, parsed]
        simp only [Option.bind_eq_bind, Option.bind_some, made]
        rfl
      have holds : Holds loaded start := by
        refine ⟨rfl, rfl, rfl, rfl, Represents.empty fun bytes under => ?_⟩
        have apart : bytes ≠ nextItemPrefixKey := by
          rintro rfl
          exact absurd (prefixOf_disjoint under (List.prefix_rfl : (prefixOf 0).toList <+: _))
            (by decide)
        exact (OrderedMap.get?_insert_other apart).trans OrderedMap.get?_empty
      rw [began]
      dsimp only
      rw [exportedInit, init, ← holds.size]
      simp only [Option.bind_eq_bind, Option.bind_some]
      split
      · rename_i fits
        have fit : Fits loaded.root :=
          readable_root _ (fits.trans_lt StateEntry.maxEntrySize_small)
        rw [StateEntry.put_empty_iff.mpr ⟨fits, rfl⟩]
        exact ⟨_, rfl, rfl, loaded.root, _, OrderedMap.get?_insert_self, ⟨fit, List.prefix_rfl⟩,
          holds.save _⟩
      · rename_i large
        have fails : (StateEntry.atStart []).put loaded.root = none :=
          Option.eq_none_iff_forall_ne_some.mpr fun _ put =>
            large (StateEntry.put_empty_iff.mp put).1
        rw [fails, Option.bind_none]

/-- The state that a transaction leaves can be stored. -/
abbrev Saves (owner : AccountAddress) : Host State → Transaction → Prop :=
  Savable State.size (outcome owner)

/-- An item that leaves room for the winner is one that every later state can be
stored with. -/
theorem saves_of_room (owner : AccountAddress) {host : Host State}
    (room : 57 + (serial host.state.item).length ≤ maxEntrySize) (txs : List Transaction) :
    Along (step owner) (Saves owner) host txs := by
  apply @along_of_invariant _ _ (step owner) (Saves owner)
    (fun later => later.state.item = host.state.item) (fun _ => True)
  · rfl
  · intro later tx same _
    refine ⟨fun after returned => ?_, ?_⟩
    · have bound := size_le after.state
      rw [outcome_item returned, same] at bound
      exact bound.trans room
    · rw [step_called, calledStep]
      cases returned : outcome owner later tx with
      | none => exact same
      | some after => exact (outcome_item returned).trans same
  · exact fun _ _ => trivial

/-- Every run on the chain is the one of the auction without the transactions whose
state was too large where they stood; there are none where the item leaves room for
the winner. -/
theorem stored_run_agrees (owner : AccountAddress) {parameter : Bytes} {trie : StateTrie}
    (deployed : exportedInit (storedInit parameter) = some trie)
    (missingAccounts : List AccountAddress) (txs : List Transaction) :
    ∃ start, auctionInit (fromBytes parameter) = some start ∧
      (served (step owner) (Saves owner) { Host.deployed start with missingAccounts } txs).Sublist
        txs ∧
      Stores Holds (run (storedStep owner) { Host.deployed trie with missingAccounts } txs)
        (run (step owner) { Host.deployed start with missingAccounts }
          (served (step owner) (Saves owner) { Host.deployed start with missingAccounts } txs)) ∧
      (57 + (serial start.item).length ≤ maxEntrySize →
        served (step owner) (Saves owner) { Host.deployed start with missingAccounts } txs =
          txs) := by
  have stored := exportedInit_stores parameter
  rw [deployed] at stored
  cases began : auctionInit (fromBytes parameter) with
  | none =>
      rw [began] at stored
      cases stored
  | some start =>
      rw [began] at stored
      dsimp only at stored
      split at stored
      · obtain ⟨_, ⟨⟩, stores⟩ := stored
        have present : Stores Holds { Host.deployed trie with missingAccounts }
            { Host.deployed start with missingAccounts } := ⟨rfl, stores.root⟩
        obtain ⟨later, _⟩ := present.run (storedOutcome_implements owner) readable_root txs
        rw [← step_called] at later
        refine ⟨start, rfl, served_sublist _ txs, later, fun room => served_of_along ?_⟩
        exact @saves_of_room owner { Host.deployed start with missingAccounts } room txs
      · cases stored

namespace Gavel

def parameter : Bytes := toBytes ({ item := "gavel", expiry := 10 } : InitParameter)

/-- One bids, another bids too little, and the auction is finalized. -/
def sales : List Transaction :=
  [⟨.account (.ofByte 1), 3, 5, .bid⟩, ⟨.account (.ofByte 2), 4, 4, .bid⟩,
    ⟨.account (.ofByte 3), 11, 0, .finalize⟩]

end Gavel

theorem stored_run_agrees_gavel :
    ∃ trie, exportedInit (storedInit Gavel.parameter) = some trie ∧
      ∃ start, auctionInit (fromBytes Gavel.parameter) = some start ∧
        (served (step (.ofByte 0)) (Saves (.ofByte 0))
          { Host.deployed start with missingAccounts := [] } Gavel.sales).Sublist Gavel.sales ∧
        Stores Holds (run (storedStep (.ofByte 0))
            { Host.deployed trie with missingAccounts := [] } Gavel.sales)
          (run (step (.ofByte 0)) { Host.deployed start with missingAccounts := [] }
            (served (step (.ofByte 0)) (Saves (.ofByte 0))
              { Host.deployed start with missingAccounts := [] } Gavel.sales)) ∧
        (57 + (serial start.item).length ≤ maxEntrySize →
          served (step (.ofByte 0)) (Saves (.ofByte 0))
            { Host.deployed start with missingAccounts := [] } Gavel.sales = Gavel.sales) := by
  have some : (exportedInit (storedInit Gavel.parameter)).isSome = true := by decide +kernel
  obtain ⟨trie, deployed⟩ := Option.isSome_iff_exists.mp some
  exact ⟨trie, deployed, stored_run_agrees (.ofByte 0) deployed [] Gavel.sales⟩

end SmartContracts.Auction
