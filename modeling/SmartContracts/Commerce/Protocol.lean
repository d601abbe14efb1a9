import SmartContracts.Commerce.Machine

namespace SmartContracts.Commerce

open SmartContracts.Chain SmartContracts.Semantics

/-! # The purchase protocol

Each purchase goes its own way through the states, moved by its buyer and the
vendor.  `Edge` is the protocol as it is documented and `Move` the same for all
purchases together; the contract refines it.
-/

inductive Edge : State → Party → Action → State → Prop where
  | accepted : Edge .requested .vendor .acceptContract .accepted
  | rejected : Edge .requested .vendor .rejectContract .rejected
  | aborted (item : UInt64) : Edge .requested .buyer (.abort item) .failed
  | delivered : Edge .accepted .vendor .itemWasDelivered .delivered
  | undelivered : Edge .accepted .buyer .buyerTimeout .failed
  | confirmed : Edge .delivered .buyer .confirmDelivery .completed
  | unconfirmed : Edge .delivered .vendor .sellerTimeout .completed
  | disputed (commitment : UInt64) :
      Edge .delivered .buyer (.disputeDelivery commitment) .dispute
  | unanswered : Edge .dispute .buyer .buyerTimeout .failed
  | forfeited : Edge .dispute .vendor .forfeitDispute .failed
  | countered (randomBit : Bool) : Edge .dispute .vendor (.counterDispute randomBit) .counter
  | opened (buyerBit : Bool) : Edge .counter .buyer (.openCommitment buyerBit) .failed
  | unopened : Edge .counter .vendor .sellerTimeout .completed

def State.closed : State → Bool
  | .rejected | .completed | .failed => true
  | .null | .requested | .accepted | .delivered | .dispute | .counter => false

namespace Edge

variable {source target : State} {party : Party} {action : Action}

theorem source_open (edge : Edge source party action target) : source.closed = false := by
  cases edge <;> rfl

theorem target_ne_null (edge : Edge source party action target) : target ≠ .null := by
  cases edge <;> exact State.noConfusion

end Edge

inductive Move : List State → List State → Prop where
  | request (purchases : List State) : Move purchases (purchases ++ [.requested])
  | along {purchases : List State} {position : ℕ} {source target : State} {party : Party}
      {action : Action} (found : purchases[position]? = some source)
      (edge : Edge source party action target) : Move purchases (purchases.set position target)
  | stay (purchases : List State) : Move purchases purchases

namespace Move

variable {before after : List State}

theorem null_free (move : Move before after) (free : ∀ state ∈ before, state ≠ .null) :
    ∀ state ∈ after, state ≠ .null := by
  cases move with
  | request =>
      intro state member
      rcases List.mem_append.mp member with old | new
      · exact free state old
      · rw [List.mem_singleton.mp new]
        decide
  | along found edge =>
      intro state member
      rcases List.mem_or_eq_of_mem_set member with old | rfl
      · exact free state old
      · exact edge.target_ne_null
  | stay => exact free

theorem run_null_free (moves : Relation.ReflTransGen Move before after)
    (free : ∀ state ∈ before, state ≠ .null) : ∀ state ∈ after, state ≠ .null := by
  induction moves with
  | refl => exact free
  | tail _ move ih => exact move.null_free ih

theorem keeps_closed (move : Move before after) {position : ℕ} {state : State}
    (found : before[position]? = some state) (closed : state.closed = true) :
    after[position]? = some state := by
  cases move with
  | request => rw [List.getElem?_append_left (List.getElem?_eq_some_iff.mp found).1, found]
  | along moved edge =>
      rw [List.getElem?_set_ne, found]
      intro same
      have source := Option.some.inj (found.symm.trans (same ▸ moved))
      rw [source, edge.source_open] at closed
      cases closed
  | stay => exact found

end Move

def ContractState.purchases (state : ContractState) : List State :=
  state.contracts.map Purchase.state

section Refinement

variable {owner : AccountAddress} {before after : Host ContractState} {tx : Transaction}

theorem Action.edge {action : Action} {source : State} (stage : source ∈ action.sources) :
    Edge source action.party action action.target := by
  cases action <;> simp only [sources, List.mem_cons, List.not_mem_nil, or_false] at stage
  case buyerTimeout | sellerTimeout =>
    rcases stage with rfl | rfl <;> constructor
  all_goals subst stage; constructor

/-- The protocol pays out on the edges that close a purchase. -/
theorem Action.payment_isSome {action : Action} {state : ContractState} {purchase : Purchase}
    {price : UInt64} : (action.payment state purchase price).isSome = action.target.closed := by
  cases action <;> rfl

theorem Effect.moves (effect : Effect before tx after) :
    Move before.state.purchases after.state.purchases := by
  cases effect with
  | requested parameters _ buyer _ _ _ _ host =>
      subst host
      simpa [ContractState.purchases, ContractState.requested] using Move.request _
  | acted id action _ acts =>
      obtain ⟨purchase, found, price, _, _, stage, _, _, rfl⟩ := acts
      have edge := Action.edge stage
      rw [← action.written_state purchase] at edge
      simpa [ContractState.purchases, ContractState.withContract, List.map_set] using
        Move.along (by simpa [ContractState.purchases] using ⟨purchase, found, rfl⟩) edge
  | relisted _ _ _ _ host =>
      subst host
      exact .stay _

theorem step_moves (host : Host ContractState) (tx : Transaction) :
    Move host.state.purchases (step owner host tx).state.purchases := by
  rcases step_cases owner host tx with same | returned
  · rw [same]
    exact .stay _
  · exact (effect_of_outcome returned).moves

/-- The states of all purchases are reached by moves of the protocol. -/
theorem run_moves (start : Host ContractState) (txs : List Transaction) :
    Relation.ReflTransGen Move start.state.purchases
      (run (step owner) start txs).state.purchases :=
  @run_invariant _ _ (step owner)
    (fun host => Relation.ReflTransGen Move start.state.purchases host.state.purchases) start
    .refl (fun host tx moves => moves.tail (step_moves host tx)) txs

theorem run_null_free {start : Host ContractState} (unsold : start.state.contracts = [])
    (txs : List Transaction) :
    ∀ purchase ∈ (run (step owner) start txs).state.contracts, purchase.state ≠ .null := by
  have free : ∀ state ∈ (run (step owner) start txs).state.purchases, state ≠ .null :=
    Move.run_null_free (run_moves start txs) (by simp [ContractState.purchases, unsold])
  exact fun purchase member => free purchase.state (List.mem_map_of_mem member)

/-- A closed purchase is left as it is. -/
theorem Effect.keeps_closed (effect : Effect before tx after) {position : ℕ}
    {purchase : Purchase} (found : before.state.contracts[position]? = some purchase)
    (closed : purchase.state.closed = true) :
    after.state.contracts[position]? = some purchase := by
  cases effect with
  | requested _ _ _ _ _ _ _ host =>
      subst host
      exact (List.getElem?_append_left (List.getElem?_eq_some_iff.mp found).1).trans found
  | acted id action _ acts =>
      obtain ⟨named, namedFound, price, _, _, stage, _, _, rfl⟩ := acts
      have other : asUsize id ≠ position := by
        intro same
        have isNamed := Option.some.inj (found.symm.trans (same ▸ namedFound))
        rw [isNamed, (Action.edge stage).source_open] at closed
        cases closed
      simp only [Host.offering_state, ContractState.withContract, List.getElem?_set_ne other]
      exact found
  | relisted _ _ _ unsold _ =>
      rw [unsold, List.getElem?_nil] at found
      cases found

/-- Every successful call follows the protocol, from every state a run reaches. -/
theorem purchase_protocol {start : Host ContractState} (unsold : start.state.contracts = [])
    (txs : List Transaction) (tx : Transaction) {after : Host ContractState} :
    let before := run (step owner) start txs
    outcome owner before tx = some after →
    (∀ purchase ∈ before.state.contracts, purchase.state ≠ .null) ∧
    (∀ (position : ℕ) (purchase : Purchase),
      before.state.contracts[position]? = some purchase → purchase.state.closed = true →
      after.state.contracts[position]? = some purchase) ∧
    (tx.call.target = none →
      before.state.contracts <+: after.state.contracts ∧ after.attempted = before.attempted) ∧
    ∀ id action, tx.call.target = some (id, action) →
      ∃ purchase next price, before.state.contracts[asUsize id]? = some purchase ∧
        after.state = before.state.withContract id next ∧
        Edge purchase.state action.party action next.state ∧
        tx.sender = .account (action.party.account before.state purchase) ∧
        action.price before.state purchase = some price ∧
        let payment := action.payment before.state purchase price
        after.attempted = before.attempted ++ payment.toList ∧
        payment.isSome = next.state.closed := by
  intro before returned
  have effect := effect_of_outcome returned
  refine ⟨run_null_free unsold txs, fun _ _ => effect.keeps_closed, fun untargeted => ?_,
    fun id action named => ?_⟩
  · cases effect with
    | requested _ _ _ _ _ _ _ host => exact host ▸ ⟨List.prefix_append _ _, rfl⟩
    | acted _ _ target _ => cases untargeted.symm.trans target
    | relisted _ _ _ _ host => exact host ▸ ⟨List.prefix_rfl, rfl⟩
  · cases effect with
    | requested _ _ _ call _ _ _ _ => cases named.symm.trans (congrArg Call.target call)
    | relisted _ call _ _ _ => cases named.symm.trans (congrArg Call.target call)
    | acted _ _ target acts =>
        cases Option.some.inj (named.symm.trans target)
        obtain ⟨purchase, found, price, priced, party, stage, _, _, host⟩ := acts
        refine ⟨purchase, action.written purchase, price, found, ?_, ?_, party, priced, ?_, ?_⟩
        · rw [host, Host.offering_state]
          rfl
        · rw [action.written_state]
          exact Action.edge stage
        · rw [host, Host.offering_attempted]
          rfl
        · rw [action.written_state]
          exact Action.payment_isSome

end Refinement

/-! ## A small shop

The vendor 0 sells one thing for 100 and another for 1.
-/

namespace Shop

def vendor : AccountAddress := .ofByte 0

def start : Host ContractState :=
  Host.deployed {
    vendor, timeout := 1, contracts := [], listings := [⟨100, "painting"⟩, ⟨1, "postcard"⟩] }

def send (index : UInt8) (amount : Amount) (call : Call) : Transaction :=
  { sender := .account (.ofByte index), slotTime := 0, amount, call }

def requests (index : UInt8) (item : UInt64) (amount : Amount) : Transaction :=
  send index amount (.requestPurchase (some { info := "", timestamp := 0, item }))

def rejects (id : UInt64) : Transaction := send 0 0 (.rejectContract (some { id }))

def accepts (id : UInt64) : Transaction := send 0 0 (.acceptContract (some { id }))

def delivers (id : UInt64) : Transaction := send 0 0 (.itemWasDelivered (some { id }))

end Shop

theorem purchase_protocol_rejected :
    let before := run (step Shop.vendor) Shop.start [Shop.requests 1 0 100, Shop.requests 2 0 100]
    ∃ after, outcome Shop.vendor before (Shop.rejects 1) = some after ∧
      ∃ purchase next payment, before.state.contracts[1]? = some purchase ∧
        after.state = before.state.withContract 1 next ∧
        Edge purchase.state .vendor .rejectContract next.state ∧
        after.attempted = before.attempted ++ Option.toList payment ∧
        payment.isSome = next.state.closed := by
  intro before
  have returns : (outcome Shop.vendor before (Shop.rejects 1)).isSome = true := by
    decide +kernel
  obtain ⟨after, returned⟩ := Option.isSome_iff_exists.mp returns
  obtain ⟨_, _, _, moves⟩ := @purchase_protocol Shop.vendor Shop.start rfl
    [Shop.requests 1 0 100, Shop.requests 2 0 100] (Shop.rejects 1) after returned
  obtain ⟨purchase, next, _, found, written, edge, _, _, attempted, closes⟩ :=
    moves 1 .rejectContract rfl
  exact ⟨after, returned, purchase, next, _, found, written, edge, attempted, closes⟩

end SmartContracts.Commerce
