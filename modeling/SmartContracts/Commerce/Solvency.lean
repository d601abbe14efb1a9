import SmartContracts.Commerce.Protocol

namespace SmartContracts.Commerce

open SmartContracts.Chain SmartContracts.Semantics

/-! # What the contract holds for its purchases

The books add to the contract what has been paid in for each purchase.  Every
purchase is stored as one of the first listing and later priced by it, and a
buyer who aborts names the listing to be refunded by, so the books balance as
far as these prices do not exceed what was paid in.
-/

theorem sum_range_change {f g : ℕ → ℕ} {n position : ℕ} (inside : position < n)
    (same : ∀ other, other ≠ position → g other = f other) :
    ∑ i ∈ Finset.range n, g i + f position = ∑ i ∈ Finset.range n, f i + g position := by
  have member : position ∈ Finset.range n := Finset.mem_range.mpr inside
  have others : ∑ i ∈ (Finset.range n).erase position, g i =
      ∑ i ∈ (Finset.range n).erase position, f i :=
    Finset.sum_congr rfl fun other outside => same other (Finset.ne_of_mem_erase outside)
  rw [← Finset.add_sum_erase _ f member, ← Finset.add_sum_erase _ g member, others]
  omega

/-- The purchase a call names; a request names the one it creates. -/
def Call.named (call : Call) (purchases : ℕ) : Option ℕ :=
  match call with
  | .requestPurchase _ => some purchases
  | _ => call.target.map fun (id, _) => asUsize id

theorem Call.named_of_target {call : Call} {id : UInt64} {action : Action}
    (target : call.target = some (id, action)) (purchases : ℕ) :
    call.named purchases = some (asUsize id) := by
  have same : call.named purchases = call.target.map fun (id, _) => asUsize id := by
    cases call with
    | requestPurchase parameter => cases target
    | _ => rfl
  rw [same, target]
  rfl

structure Books where
  host : Host ContractState
  -- the amounts of all successful calls on a purchase, by its position
  paidIn : ℕ → ℕ

namespace Books

def opening (host : Host ContractState) : Books := { host, paidIn := fun _ => 0 }

def record (books : Books) (tx : Transaction) (after : Host ContractState) : Books where
  host := after
  paidIn :=
    match tx.call.named books.host.state.contracts.length with
    | some position =>
        Function.update books.paidIn position (books.paidIn position + tx.amount.toNat)
    | none => books.paidIn

def step (owner : AccountAddress) (books : Books) (tx : Transaction) : Books :=
  match outcome owner books.host tx with
  | some after => books.record tx after
  | none => books

def heldFor (books : Books) (position : ℕ) : ℕ :=
  match books.host.state.contracts[position]? with
  | some purchase => if purchase.state.closed then 0 else books.paidIn position
  | none => 0

/-- What has been paid in for the purchases that are still open. -/
def held (books : Books) : ℕ :=
  ∑ position ∈ Finset.range books.host.state.contracts.length, books.heldFor position

theorem run_host (owner : AccountAddress) (books : Books) (txs : List Transaction) :
    (run (step owner) books txs).host = run (Commerce.step owner) books.host txs := by
  refine run_map (fun books tx => ?_) books txs
  unfold step Commerce.step
  cases outcome owner books.host tx <;> rfl

end Books

namespace Books

variable {books : Books} {tx : Transaction} {after : Host ContractState} {id : UInt64}
  {action : Action}

theorem paidIn_record (target : tx.call.target = some (id, action)) :
    (books.record tx after).paidIn = Function.update books.paidIn (asUsize id)
      (books.paidIn (asUsize id) + tx.amount.toNat) := by
  simp only [record, Call.named_of_target target]

/-- An action moves what is held for its own purchase only. -/
theorem held_record (target : tx.call.target = some (id, action)) {purchase next : Purchase}
    (found : books.host.state.contracts[asUsize id]? = some purchase)
    (opened : purchase.state.closed = false)
    (written : after.state.contracts = books.host.state.contracts.set (asUsize id) next) :
    (books.record tx after).held + books.paidIn (asUsize id) =
      books.held +
        if next.state.closed then 0 else books.paidIn (asUsize id) + tx.amount.toNat := by
  have inside : asUsize id < books.host.state.contracts.length :=
    (List.getElem?_eq_some_iff.mp found).1
  have recorded : (books.record tx after).host.state.contracts = after.state.contracts := rfl
  have before : books.heldFor (asUsize id) = books.paidIn (asUsize id) := by
    simp [heldFor, found, opened]
  have now : (books.record tx after).heldFor (asUsize id) =
      if next.state.closed then 0 else books.paidIn (asUsize id) + tx.amount.toNat := by
    rw [heldFor, recorded, written, List.getElem?_set_self inside, paidIn_record target,
      Function.update_self]
  have others : ∀ other, other ≠ asUsize id →
      (books.record tx after).heldFor other = books.heldFor other := by
    intro other different
    rw [heldFor, recorded, written, List.getElem?_set_ne different.symm, paidIn_record target,
      Function.update_of_ne different, heldFor]
  have change := sum_range_change inside others
  rw [before, now] at change
  rw [held, held, recorded, written, List.length_set]
  exact change

variable {parameters : BuyerRequestPurchaseParameter} {purchase : Purchase}

theorem paidIn_request (call : tx.call = .requestPurchase (some parameters)) :
    (books.record tx after).paidIn = Function.update books.paidIn
      books.host.state.contracts.length
      (books.paidIn books.host.state.contracts.length + tx.amount.toNat) := by
  simp only [record, call, Call.named]

/-- A request adds what is paid with it. -/
theorem held_request (call : tx.call = .requestPurchase (some parameters))
    (fresh : books.paidIn books.host.state.contracts.length = 0)
    (opened : purchase.state.closed = false)
    (contracts : after.state.contracts = books.host.state.contracts ++ [purchase]) :
    (books.record tx after).held = books.held + tx.amount.toNat := by
  have recorded : (books.record tx after).host.state.contracts = after.state.contracts := rfl
  have last : (books.record tx after).heldFor books.host.state.contracts.length =
      tx.amount.toNat := by
    simp [heldFor, recorded, contracts, opened, paidIn_request call, fresh]
  have others : ∀ position ∈ Finset.range books.host.state.contracts.length,
      (books.record tx after).heldFor position = books.heldFor position := by
    intro position member
    have inside := Finset.mem_range.mp member
    rw [heldFor, recorded, contracts, List.getElem?_append_left inside, paidIn_request call,
      Function.update_of_ne (by omega), heldFor]
  rw [held, recorded, contracts, List.length_append, List.length_singleton,
    Finset.sum_range_succ, Finset.sum_congr rfl others, last, held]

end Books

/-- A request names a listing no cheaper than the first one, as which it is
stored, and an abort names one no dearer than what was paid. -/
structure FairlyPriced (books : Books) (tx : Transaction) : Prop where
  request : ∀ parameters buyer listing first, tx.call = .requestPurchase (some parameters) →
    tx.sender = .account buyer →
    books.host.state.listings[asUsize parameters.item]? = some listing →
    tx.amount = listing.itemValue → books.host.state.listings[0]? = some first →
    first.itemValue ≤ listing.itemValue
  abort : ∀ parameters purchase listing, tx.call = .buyerAbort (some parameters) →
    books.host.state.contracts[asUsize parameters.id]? = some purchase →
    tx.sender = .account purchase.buyer → purchase.state = .requested → tx.amount = 0 →
    books.host.state.listings[asUsize parameters.item]? = some listing →
    listing.itemValue.toNat ≤ books.paidIn (asUsize parameters.id)

/-! ## Stakes -/

/-- How many times the price an open purchase has been paid for. -/
def State.stake : State → ℕ
  | .requested | .accepted | .delivered => 1
  | .dispute => 2
  | .counter => 3
  | .null | .rejected | .completed | .failed => 0

namespace Action

attribute [local simp] sources target price wager payment

variable {action : Action} {state : ContractState} {purchase : Purchase} {price : UInt64}

theorem payment_le_stake {payee : AccountAddress} {amount : Amount}
    (stage : purchase.state ∈ action.sources) (kept : ∀ item, action ≠ .abort item)
    (pays : action.payment state purchase price = some (payee, amount)) :
    amount.toNat ≤ purchase.state.stake * price.toNat := by
  have twice : (price * 2).toNat ≤ 2 * price.toNat := by
    rw [UInt64.toNat_mul, Nat.mul_comm]
    exact Nat.mod_le _ _
  cases action with
  | abort item => exact absurd rfl (kept item)
  | disputeDelivery | counterDispute | acceptContract | itemWasDelivered => cases pays
  | confirmDelivery | rejectContract =>
      obtain ⟨_, rfl⟩ : _ ∧ price = amount := by simpa using pays
      rw [List.mem_singleton.mp stage]
      simp [State.stake]
  | forfeitDispute =>
      obtain ⟨_, rfl⟩ : _ ∧ price * 2 = amount := by simpa using pays
      rw [List.mem_singleton.mp stage]
      exact twice
  | openCommitment bit =>
      obtain ⟨_, rfl⟩ : _ ∧ 2 * price = amount := by simpa using pays
      rw [List.mem_singleton.mp stage, UInt64.mul_comm]
      exact twice.trans (Nat.mul_le_mul_right _ (by decide))
  | sellerTimeout =>
      obtain ⟨_, rfl⟩ : _ ∧ price = amount := by simpa using pays
      have stages : purchase.state = .delivered ∨ purchase.state = .counter := by
        simpa using stage
      rcases stages with stage | stage <;> rw [stage] <;> simp only [State.stake] <;> omega
  | buyerTimeout =>
      obtain ⟨_, rfl⟩ : _ ∧
          (if purchase.state = .dispute then price * 2 else price) = amount := by
        simpa using pays
      have stages : purchase.state = .dispute ∨ purchase.state = .accepted := by
        simpa using stage
      rcases stages with stage | stage
      · rw [stage, if_pos rfl]
        exact twice
      · rw [stage, if_neg (by decide)]
        simp [State.stake]

/-- A wager raises what has been paid by as much as it raises the stake. -/
theorem stake_target (stage : purchase.state ∈ action.sources) :
    action.target.stake * price.toNat ≤
      purchase.state.stake * price.toNat + (action.wager price).toNat := by
  cases action <;> simp only [sources, List.mem_cons, List.not_mem_nil, or_false] at stage
  case buyerTimeout | sellerTimeout => simp [State.stake]
  all_goals simp only [stage, target, State.stake, wager]; omega

/-! A purchase stored as one of the first listing is priced by it. -/

theorem wager_eq_first {first : Item} (stored : purchase.item = 0)
    (listed : state.listings[0]? = some first) (found : action.price state purchase = some price) :
    action.wager price = action.wager first.itemValue := by
  have zero : asUsize 0 = 0 := rfl
  cases action <;> simp_all

theorem price_eq_first {payee : AccountAddress} {amount : Amount} (stored : purchase.item = 0)
    (found : action.price state purchase = some price) (kept : ∀ item, action ≠ .abort item)
    (pays : action.payment state purchase price = some (payee, amount)) :
    ∃ first, state.listings[0]? = some first ∧ first.itemValue = price := by
  have zero : asUsize 0 = 0 := rfl
  cases action with
  | abort item => exact absurd rfl (kept item)
  | disputeDelivery | counterDispute | acceptContract | itemWasDelivered => cases pays
  | _ => simpa [stored, zero] using found

end Action

/-! ## The books balance -/

structure Balanced (books : Books) : Prop where
  solvent : books.held ≤ books.host.balance
  stored : ∀ purchase ∈ books.host.state.contracts, purchase.item = 0
  staked : ∀ (position : ℕ) (purchase : Purchase) (first : Item),
    books.host.state.contracts[position]? = some purchase →
    books.host.state.listings[0]? = some first →
    purchase.state.stake * first.itemValue.toNat ≤ books.paidIn position
  blank : ∀ position ≥ books.host.state.contracts.length, books.paidIn position = 0

namespace Balanced

variable {books : Books} {tx : Transaction} {after : Host ContractState}

theorem opening {host : Host ContractState} (unsold : host.state.contracts = []) :
    Balanced (Books.opening host) where
  solvent := by simp [Books.held, Books.opening, unsold]
  stored := by simp [Books.opening, unsold]
  staked := by simp [Books.opening, unsold]
  blank _ _ := rfl

/-- What an action pays out has been paid in for its purchase. -/
theorem payment_le (balanced : Balanced books) (priced : FairlyPriced books tx) {id : UInt64}
    {action : Action} (target : tx.call.target = some (id, action)) {purchase : Purchase}
    (found : books.host.state.contracts[asUsize id]? = some purchase) {price : UInt64}
    (quoted : action.price books.host.state purchase = some price)
    (party : tx.sender = .account (action.party.account books.host.state purchase))
    (stage : purchase.state ∈ action.sources) (wager : tx.amount = action.wager price)
    {payee : AccountAddress} {amount : Amount}
    (pays : action.payment books.host.state purchase price = some (payee, amount)) :
    amount.toNat ≤ books.paidIn (asUsize id) := by
  by_cases kept : ∀ item, action ≠ .abort item
  · have stored := balanced.stored purchase (List.mem_of_getElem? found)
    obtain ⟨first, listed, rfl⟩ := Action.price_eq_first stored quoted kept pays
    exact (Action.payment_le_stake stage kept pays).trans
      (balanced.staked _ purchase first found listed)
  · simp only [not_forall, not_not] at kept
    obtain ⟨item, rfl⟩ := kept
    obtain ⟨parameters, call, rfl, rfl⟩ : ∃ parameters : BuyAbortParameter,
        tx.call = .buyerAbort (some parameters) ∧ parameters.id = id ∧
          parameters.item = item := by
      cases call : tx.call <;> simp_all [Call.target]
    obtain ⟨listing, listed, rfl⟩ : ∃ listing,
        books.host.state.listings[asUsize parameters.item]? = some listing ∧
          listing.itemValue = price := by
      simpa [Action.price] using quoted
    obtain ⟨_, rfl⟩ : _ ∧ listing.itemValue = amount := by simpa [Action.payment] using pays
    exact priced.abort parameters purchase listing call found party
      (by simpa [Action.sources] using stage) wager listed

section Acted

variable {id : UInt64} {action : Action} {purchase : Purchase} {price : UInt64}
  (target : tx.call.target = some (id, action))
  (found : books.host.state.contracts[asUsize id]? = some purchase)
  (quoted : action.price books.host.state purchase = some price)
  (stage : purchase.state ∈ action.sources) (wager : tx.amount = action.wager price)
  (written : after.state.contracts =
    books.host.state.contracts.set (asUsize id) (action.written purchase))

include target found quoted stage wager written

/-- The wager is added, and what is paid out was held for this purchase. -/
theorem acted_solvent (balanced : Balanced books) (priced : FairlyPriced books tx)
    (party : tx.sender = .account (action.party.account books.host.state purchase))
    (balance : after.balance = books.host.balance + tx.amount.toNat ∨
      ∃ payee amount,
        action.payment books.host.state purchase price = some (payee, amount) ∧
        after.balance = books.host.balance + tx.amount.toNat - amount.toNat) :
    (books.record tx after).held ≤ after.balance := by
  have solvent := balanced.solvent
  have held := Books.held_record target found (Action.edge stage).source_open written
  rw [Action.written_state] at held
  rcases balance with kept | ⟨payee, amount, pays, lower⟩
  · split at held <;> omega
  · have paid := balanced.payment_le priced target found quoted party stage wager pays
    have closed : action.target.closed = true :=
      Action.payment_isSome.symm.trans (congrArg Option.isSome pays)
    rw [if_pos closed] at held
    omega

theorem acted_staked (balanced : Balanced books)
    (listings : after.state.listings = books.host.state.listings) {position : ℕ}
    {other : Purchase} {first : Item} (otherFound : after.state.contracts[position]? = some other)
    (listed : after.state.listings[0]? = some first) :
    other.state.stake * first.itemValue.toNat ≤ (books.record tx after).paidIn position := by
  rw [listings] at listed
  rw [written] at otherFound
  rw [Books.paidIn_record target]
  by_cases same : position = asUsize id
  · subst same
    rw [List.getElem?_set_self (List.getElem?_eq_some_iff.mp found).1, Option.some.injEq]
      at otherFound
    subst otherFound
    have stored := balanced.stored purchase (List.mem_of_getElem? found)
    have raised := @Action.stake_target action purchase first.itemValue stage
    have paid := balanced.staked _ purchase first found listed
    rw [Function.update_self, Action.written_state, wager,
      Action.wager_eq_first stored listed quoted]
    omega
  · rw [List.getElem?_set_ne (Ne.symm same)] at otherFound
    rw [Function.update_of_ne same]
    exact balanced.staked position other first otherFound listed

end Acted

theorem acted (balanced : Balanced books) (priced : FairlyPriced books tx) {id : UInt64}
    {action : Action} (target : tx.call.target = some (id, action))
    (acts : Acts action tx.sender tx.amount id (books.host.receiving tx.amount) after) :
    Balanced (books.record tx after) := by
  obtain ⟨purchase, found, price, quoted, party, stage, wager, _, acted⟩ := acts
  have state : after.state = books.host.state.withContract id (action.written purchase) := by
    rw [acted, Host.offering_state]
    rfl
  have written := congrArg ContractState.contracts state
  refine ⟨?_, ?_, ?_, ?_⟩
  · exact balanced.acted_solvent target found quoted stage wager written priced party
      (acted ▸ Host.offering_balance)
  · intro other member
    change other ∈ after.state.contracts at member
    rw [written] at member
    rcases List.mem_or_eq_of_mem_set member with old | rfl
    · exact balanced.stored other old
    · rw [Action.written_item, balanced.stored purchase (List.mem_of_getElem? found)]
  · intro position other first otherFound listed
    have listings : after.state.listings = books.host.state.listings := by rw [state]; rfl
    exact balanced.acted_staked target found quoted stage wager written listings otherFound listed
  · intro position beyond
    change position ≥ after.state.contracts.length at beyond
    have inside : asUsize id < books.host.state.contracts.length :=
      (List.getElem?_eq_some_iff.mp found).1
    rw [written, ContractState.withContract, List.length_set] at beyond
    rw [Books.paidIn_record target, Function.update_of_ne (by omega)]
    exact balanced.blank position beyond

/-- A new purchase is paid for with at least the price of the first listing. -/
theorem requested (balanced : Balanced books) (priced : FairlyPriced books tx)
    {parameters : BuyerRequestPurchaseParameter} {listing : Item} {buyer : AccountAddress}
    (call : tx.call = .requestPurchase (some parameters))
    (listed : books.host.state.listings[asUsize parameters.item]? = some listing)
    (paid : tx.amount = listing.itemValue) (account : tx.sender = .account buyer)
    (host : after = { books.host.receiving tx.amount with
      state := books.host.state.requested buyer parameters }) :
    Balanced (books.record tx after) := by
  subst host
  have fresh := balanced.blank _ le_rfl
  refine ⟨?_, ?_, ?_, ?_⟩
  · rw [Books.held_request call fresh rfl rfl]
    exact Nat.add_le_add_right balanced.solvent _
  · intro other member
    rcases List.mem_append.mp member with old | new
    · exact balanced.stored other old
    · rw [List.mem_singleton.mp new]
  · intro position other first found firstListed
    change (books.host.state.contracts ++ [_])[position]? = some other at found
    rw [Books.paidIn_request call, fresh, zero_add]
    by_cases new : position = books.host.state.contracts.length
    · subst new
      rw [List.getElem?_concat_length, Option.some.injEq] at found
      have enough := priced.request parameters buyer listing first call account listed paid
        firstListed
      rw [Function.update_self, paid, ← found]
      simpa [State.stake] using UInt64.le_iff_toNat_le.mp enough
    · have inside : position < books.host.state.contracts.length := by
        have within := (List.getElem?_eq_some_iff.mp found).1
        rw [List.length_append, List.length_singleton] at within
        omega
      rw [List.getElem?_append_left inside] at found
      rw [Function.update_of_ne new]
      exact balanced.staked position other first found firstListed
  · intro position beyond
    change position ≥ (books.host.state.contracts ++ [_]).length at beyond
    rw [List.length_append, List.length_singleton] at beyond
    rw [Books.paidIn_request call, Function.update_of_ne (by omega)]
    exact balanced.blank position (by omega)

theorem relisted (balanced : Balanced books) {parameters : SellerUpdateListingsParameter}
    (call : tx.call = .updateListings (some parameters))
    (unsold : books.host.state.contracts = [])
    (host : after = { books.host with state := books.host.state.relisted parameters }) :
    Balanced (books.record tx after) := by
  have nothing : (books.record tx after).host.state.contracts = [] := by
    change after.state.contracts = []
    rw [host]
    exact unsold
  have paidIn : (books.record tx after).paidIn = books.paidIn := by
    simp only [Books.record, call, Call.named, Call.target, Option.map_none]
  refine ⟨?_, ?_, ?_, ?_⟩
  · simp [Books.held, nothing]
  · simp [nothing]
  · simp [nothing]
  · intro position _
    rw [paidIn]
    exact balanced.blank position (by simp [unsold])

end Balanced

theorem step_balanced {owner : AccountAddress} {books : Books} (balanced : Balanced books)
    {tx : Transaction} (priced : FairlyPriced books tx) : Balanced (books.step owner tx) := by
  unfold Books.step
  split
  · rename_i after returned
    cases effect_of_outcome returned with
    | requested _ _ _ call listed paid account host =>
        exact balanced.requested priced call listed paid account host
    | acted _ _ target acts => exact balanced.acted priced target acts
    | relisted _ call _ unsold host => exact balanced.relisted call unsold host
  · exact balanced

/-- Along fairly priced runs the contract holds what has been paid in for the
purchases that are open. -/
theorem held_le_balance {owner : AccountAddress} {start : Host ContractState}
    (unsold : start.state.contracts = []) {txs : List Transaction}
    (priced : Along (Books.step owner) FairlyPriced (Books.opening start) txs) :
    let books := run (Books.step owner) (Books.opening start) txs
    books.host = run (step owner) start txs ∧ books.held ≤ books.host.balance := by
  refine ⟨Books.run_host owner _ txs, ?_⟩
  have balanced := @run_preserves _ _ (Books.step owner) FairlyPriced Balanced
    (Books.opening start) txs (Balanced.opening unsold)
    (fun _ _ before fair => step_balanced before fair) priced
  exact balanced.solvent

theorem held_le_balance_two_requests :
    let aborts := Shop.send 2 0 (.buyerAbort (some { id := 1, item := 0 }))
    let books := run (Books.step Shop.vendor) (Books.opening Shop.start)
      [Shop.requests 1 0 100, Shop.requests 2 0 100, aborts]
    books.held = 100 ∧ books.held ≤ books.host.balance := by
  intro aborts books
  have requested : ∀ index (before : Books),
      FairlyPriced before (Shop.requests index 0 100) := by
    refine fun index before => ⟨?_, fun _ _ _ call => by cases call⟩
    intro parameters _ listing first call _ named _ listed
    cases call
    exact (Option.some.inj (listed.symm.trans named) ▸ UInt64.le_refl _)
  have aborted : FairlyPriced (run (Books.step Shop.vendor) (Books.opening Shop.start)
      [Shop.requests 1 0 100, Shop.requests 2 0 100]) aborts := by
    refine ⟨fun _ _ _ _ call => (by cases call), ?_⟩
    intro parameters _ listing call _ _ _ _ listed
    cases call
    have reached : ∀ before, run (Books.step Shop.vendor) (Books.opening Shop.start)
        [Shop.requests 1 0 100, Shop.requests 2 0 100] = before →
        before.host.state.listings[asUsize 0]? = some ⟨100, "painting"⟩ ∧
          before.paidIn (asUsize 1) = 100 := by
      rintro _ rfl
      decide +kernel
    obtain ⟨painting, paid⟩ := reached _ rfl
    cases Option.some.inj (listed.symm.trans painting)
    exact paid.ge
  have priced : Along (Books.step Shop.vendor) FairlyPriced (Books.opening Shop.start)
      [Shop.requests 1 0 100, Shop.requests 2 0 100, aborts] :=
    ⟨requested 1 _, requested 2 _, aborted, trivial⟩
  have holds : books.held = 100 := by decide +kernel
  exact ⟨holds, (@held_le_balance Shop.vendor Shop.start rfl _ priced).2⟩

/-- A buyer of the postcard aborts for the price of the painting. -/
theorem not_held_le_balance_postcard :
    let books := run (Books.step Shop.vendor) (Books.opening Shop.start)
      [Shop.requests 1 0 100, Shop.requests 2 1 1,
        Shop.send 2 0 (.buyerAbort (some { id := 1, item := 0 }))]
    books.held = 100 ∧ books.host.balance = 1 ∧ ¬ books.held ≤ books.host.balance := by
  decide +kernel

end SmartContracts.Commerce
