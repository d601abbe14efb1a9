import SmartContracts.Commerce.Dispute
import SmartContracts.Commerce.Solvency
import SmartContracts.Commerce.Transfers

namespace SmartContracts.Commerce

open SmartContracts.Chain SmartContracts.Semantics

/-! # Money left in the contract

The accounts add to the contract what has been paid in and out for each
purchase.  A purchase is settled when it ends if it was requested at the price
it is later paid out by; what has been wagered on a disputed purchase is only
paid out in full while the vendor has not countered.
-/

structure Accounts where
  host : Host ContractState
  -- by the position of a purchase: the amount of its request,
  requested : ℕ → ℕ
  -- the amounts of all successful calls on it,
  paidIn : ℕ → ℕ
  -- and what these have transferred to its buyer and the vendor
  paidOut : ℕ → ℕ

/-- What a call has transferred to the buyer of a purchase and to the vendor. -/
def transferredFor (position : ℕ) (before after : Host ContractState) : ℕ :=
  match before.state.contracts[position]? with
  | some purchase =>
      Payments.total ((after.transfers.drop before.transfers.length).filter fun payment =>
        payment.1 = purchase.buyer ∨ payment.1 = before.state.vendor)
  | none => 0

namespace Accounts

def opening (host : Host ContractState) : Accounts :=
  { host, requested := fun _ => 0, paidIn := fun _ => 0, paidOut := fun _ => 0 }

def record (accounts : Accounts) (tx : Transaction) (after : Host ContractState) : Accounts :=
  let sold := accounts.host.state.contracts.length
  match tx.call.named sold with
  | some position =>
      { host := after
        requested :=
          if position = sold then Function.update accounts.requested position tx.amount.toNat
          else accounts.requested
        paidIn := Function.update accounts.paidIn position
          (accounts.paidIn position + tx.amount.toNat)
        paidOut := Function.update accounts.paidOut position
          (accounts.paidOut position + transferredFor position accounts.host after) }
  | none => { accounts with host := after }

def step (owner : AccountAddress) (accounts : Accounts) (tx : Transaction) : Accounts :=
  match outcome owner accounts.host tx with
  | some after => accounts.record tx after
  | none => accounts

theorem record_host {accounts : Accounts} {tx : Transaction} {after : Host ContractState} :
    (accounts.record tx after).host = after := by
  simp only [record]
  split <;> rfl

theorem run_host (owner : AccountAddress) (accounts : Accounts) (txs : List Transaction) :
    (run (step owner) accounts txs).host = run (Commerce.step owner) accounts.host txs := by
  refine run_map (fun accounts tx => ?_) accounts txs
  unfold step Commerce.step
  cases outcome owner accounts.host tx with
  | none => rfl
  | some after => exact record_host

/-- Every purchase that has ended has been paid out what was paid in for it. -/
def Settled (accounts : Accounts) : Prop :=
  ∀ (position : ℕ) (purchase : Purchase),
    accounts.host.state.contracts[position]? = some purchase → purchase.state.closed = true →
    accounts.paidOut position = accounts.paidIn position

/-- A call on a purchase moves the accounts of this purchase only. -/
structure Posted (before after : Accounts) (position : ℕ) (purchase next : Purchase)
    (wager owed : ℕ) : Prop where
  found : before.host.state.contracts[position]? = some purchase
  opened : purchase.state.closed = false
  contracts : after.host.state.contracts = before.host.state.contracts.set position next
  listings : after.host.state.listings = before.host.state.listings
  requested : after.requested = before.requested
  paidIn : after.paidIn =
    Function.update before.paidIn position (before.paidIn position + wager)
  paidOut : after.paidOut =
    Function.update before.paidOut position (before.paidOut position + owed)
  balance : after.host.balance + owed = before.host.balance + wager

/-- A request opens the accounts of a new purchase. -/
structure Entered (before after : Accounts) (purchase : Purchase) (amount : ℕ) : Prop where
  contracts : after.host.state.contracts = before.host.state.contracts ++ [purchase]
  stage : purchase.state = .requested
  listings : after.host.state.listings = before.host.state.listings
  requested : after.requested =
    Function.update before.requested before.host.state.contracts.length amount
  paidIn : after.paidIn = Function.update before.paidIn before.host.state.contracts.length
    (before.paidIn before.host.state.contracts.length + amount)
  paidOut : after.paidOut = before.paidOut
  balance : after.host.balance = before.host.balance + amount

end Accounts

/-- The transfers that a call attempts succeed. -/
def Completes (owner : AccountAddress) (accounts : Accounts) (tx : Transaction) : Prop :=
  ∀ after, outcome owner accounts.host tx = some after →
    ∃ payments, after.attempted = accounts.host.attempted ++ payments ∧
      after.transfers = accounts.host.transfers ++ payments

theorem completes_iff {owner : AccountAddress} {accounts : Accounts} {tx : Transaction} :
    Completes owner accounts tx ↔
      (outcome owner accounts.host tx).all (fun after =>
        decide (after.attempted = accounts.host.attempted ++
          after.attempted.drop accounts.host.attempted.length) &&
        decide (after.transfers = accounts.host.transfers ++
          after.attempted.drop accounts.host.attempted.length)) = true := by
  unfold Completes
  cases outcome owner accounts.host tx with
  | none => simp
  | some after =>
      simp only [Option.some.injEq, forall_eq', Option.all_some, Bool.and_eq_true,
        decide_eq_true_eq]
      constructor
      · intro completed
        obtain ⟨payments, attempted, transferred⟩ := completed
        rw [attempted, List.drop_left]
        exact ⟨rfl, transferred⟩
      · intro completed
        exact ⟨_, completed⟩

instance decidableCompletes (owner : AccountAddress) (accounts : Accounts) (tx : Transaction) :
    Decidable (Completes owner accounts tx) :=
  decidable_of_iff _ completes_iff.symm

/-- What an action pays out. -/
def Action.owed (state : ContractState) (purchase : Purchase) (price : UInt64)
    (action : Action) : ℕ :=
  Payments.total (action.payment state purchase price).toList

theorem Action.payee {action : Action} {state : ContractState} {purchase : Purchase}
    {price : UInt64} {payment : AccountAddress × Amount}
    (pays : action.payment state purchase price = some payment) :
    payment.1 = purchase.buyer ∨ payment.1 = state.vendor := by
  cases action with
  | disputeDelivery | counterDispute | acceptContract | itemWasDelivered => cases pays
  | openCommitment bit =>
      cases pays
      simp only
      split
      · exact .inr rfl
      · exact .inl rfl
  | confirmDelivery | sellerTimeout =>
      cases pays
      exact .inr rfl
  | abort | rejectContract | buyerTimeout | forfeitDispute =>
      cases pays
      exact .inl rfl

namespace Accounts

variable {owner : AccountAddress} {accounts : Accounts} {tx : Transaction}
  {after : Host ContractState} {id : UInt64} {action : Action}

theorem posted (target : tx.call.target = some (id, action))
    (acts : Acts action tx.sender tx.amount id (accounts.host.receiving tx.amount) after)
    (completes : ∃ payments, after.attempted = accounts.host.attempted ++ payments ∧
      after.transfers = accounts.host.transfers ++ payments) :
    ∃ purchase price, action.price accounts.host.state purchase = some price ∧
      purchase.state ∈ action.sources ∧
      Posted accounts (accounts.record tx after) (asUsize id) purchase (action.written purchase)
        (action.wager price).toNat (action.owed accounts.host.state purchase price) := by
  obtain ⟨purchase, found, price, quoted, party, stage, wager, _, acted⟩ := acts
  obtain ⟨payments, attempted, transferred⟩ := completes
  have found : accounts.host.state.contracts[asUsize id]? = some purchase := found
  have inside : asUsize id < accounts.host.state.contracts.length :=
    (List.getElem?_eq_some_iff.mp found).1
  have owes : payments = (action.payment accounts.host.state purchase price).toList := by
    rw [acted, Host.offering_attempted] at attempted
    exact (List.append_cancel_left attempted).symm
  have all : transferredFor (asUsize id) accounts.host after =
      action.owed accounts.host.state purchase price := by
    have kept : ∀ payment ∈ (action.payment accounts.host.state purchase price).toList,
        payment.1 = purchase.buyer ∨ payment.1 = accounts.host.state.vendor :=
      fun payment member => Action.payee (Option.mem_toList.mp member)
    simp only [transferredFor, found]
    rw [transferred, List.drop_left, owes, Action.owed, List.filter_eq_self.mpr]
    exact fun payment member => decide_eq_true (kept payment member)
  have balance : after.balance + action.owed accounts.host.state purchase price =
      accounts.host.balance + tx.amount.toNat := by
    rw [owes] at transferred
    rw [acted] at transferred ⊢
    exact Host.balance_of_transferred transferred
  have state : after.state =
      accounts.host.state.withContract id (action.written purchase) := by
    rw [acted, Host.offering_state]
    rfl
  have recorded : accounts.record tx after =
      { host := after
        requested := accounts.requested
        paidIn := Function.update accounts.paidIn (asUsize id)
          (accounts.paidIn (asUsize id) + tx.amount.toNat)
        paidOut := Function.update accounts.paidOut (asUsize id)
          (accounts.paidOut (asUsize id) + transferredFor (asUsize id) accounts.host after) } := by
    simp only [record, Call.named_of_target target, if_neg (Nat.ne_of_lt inside)]
  rw [wager] at balance
  rw [recorded, all, wager]
  refine ⟨purchase, price, quoted, stage, found, (Action.edge stage).source_open, ?_, ?_, rfl, rfl,
    rfl, balance⟩
  · exact congrArg ContractState.contracts state
  · exact (congrArg ContractState.listings state).trans rfl

theorem entered {parameters : BuyerRequestPurchaseParameter} {buyer : AccountAddress}
    (call : tx.call = .requestPurchase (some parameters))
    (host : after = { accounts.host.receiving tx.amount with
      state := accounts.host.state.requested buyer parameters }) :
    ∃ purchase, Entered accounts (accounts.record tx after) purchase tx.amount.toNat := by
  subst host
  have recorded : (accounts.record tx { accounts.host.receiving tx.amount with
      state := accounts.host.state.requested buyer parameters }).host =
        { accounts.host.receiving tx.amount with
          state := accounts.host.state.requested buyer parameters } := record_host
  refine ⟨_, congrArg (fun host => host.state.contracts) recorded, rfl,
    congrArg (fun host => host.state.listings) recorded, ?_, ?_, ?_,
    congrArg Host.balance recorded⟩
  · simp [record, call, Call.named]
  · simp [record, call, Call.named]
  · simp [record, call, Call.named, transferredFor]

end Accounts

/-! ## What the accounts say of every run -/

/-- How many wagers an open purchase has drawn. -/
def State.wagers : State → ℕ
  | .dispute => 1
  | .counter => 2
  | .null | .requested | .accepted | .delivered | .rejected | .completed | .failed => 0

def ContractState.priceOf (state : ContractState) (item : UInt64) : ℕ :=
  (state.listings[asUsize item]?.map fun listing => listing.itemValue.toNat).getD 0

theorem ContractState.priceOf_eq {state : ContractState} {item price : UInt64}
    (listed : state.listings[asUsize item]?.map Item.itemValue = some price) :
    state.priceOf item = price.toNat := by
  obtain ⟨listing, found, rfl⟩ := Option.map_eq_some_iff.mp listed
  simp [priceOf, found]

theorem sum_range_update {f : ℕ → ℕ} {n position : ℕ} (inside : position < n) (extra : ℕ) :
    ∑ i ∈ Finset.range n, Function.update f position (f position + extra) i =
      ∑ i ∈ Finset.range n, f i + extra := by
  have change := @sum_range_change f (Function.update f position (f position + extra)) n position
    inside fun other different => Function.update_of_ne different _ _
  rw [Function.update_self] at change
  omega

structure Accounted (accounts : Accounts) : Prop where
  balanced : accounts.host.balance +
      ∑ i ∈ Finset.range accounts.host.state.contracts.length, accounts.paidOut i =
    ∑ i ∈ Finset.range accounts.host.state.contracts.length, accounts.paidIn i
  unpaid : ∀ (position : ℕ) (purchase : Purchase),
    accounts.host.state.contracts[position]? = some purchase → purchase.state.closed = false →
    accounts.paidOut position = 0
  wagered : ∀ (position : ℕ) (purchase : Purchase),
    accounts.host.state.contracts[position]? = some purchase → purchase.state.closed = false →
    accounts.paidIn position = accounts.requested position +
      purchase.state.wagers * accounts.host.state.priceOf 0
  blank : ∀ position ≥ accounts.host.state.contracts.length,
    accounts.paidIn position = 0 ∧ accounts.paidOut position = 0

namespace Accounts

variable {before after : Accounts} {position amount wager owed : ℕ} {purchase next : Purchase}

namespace Posted

theorem found_after (posted : Posted before after position purchase next wager owed)
    {other : ℕ} {found : Purchase} :
    after.host.state.contracts[other]? = some found ↔
      (other = position ∧ found = next) ∨
      (other ≠ position ∧ before.host.state.contracts[other]? = some found) := by
  have inside : position < before.host.state.contracts.length :=
    (List.getElem?_eq_some_iff.mp posted.found).1
  rw [posted.contracts]
  by_cases same : other = position
  · subst same
    rw [List.getElem?_set_self inside]
    simp [eq_comm]
  · rw [List.getElem?_set_ne (Ne.symm same)]
    simp [same]

theorem accounted (posted : Posted before after position purchase next wager owed)
    (accounted : Accounted before)
    (kept : next.state.closed = false → owed = 0 ∧
      next.state.wagers * before.host.state.priceOf 0 =
        purchase.state.wagers * before.host.state.priceOf 0 + wager) : Accounted after := by
  have inside : position < before.host.state.contracts.length :=
    (List.getElem?_eq_some_iff.mp posted.found).1
  have price : after.host.state.priceOf 0 = before.host.state.priceOf 0 := by
    unfold ContractState.priceOf
    rw [posted.listings]
  have length : after.host.state.contracts.length = before.host.state.contracts.length := by
    rw [posted.contracts, List.length_set]
  refine ⟨?_, ?_, ?_, ?_⟩
  · have balance := posted.balance
    have balanced := accounted.balanced
    rw [length, posted.paidIn, posted.paidOut, sum_range_update inside, sum_range_update inside]
    omega
  · intro other found located opened
    rw [posted.paidOut]
    rcases posted.found_after.mp located with ⟨rfl, rfl⟩ | ⟨different, old⟩
    · rw [Function.update_self, (kept opened).1, accounted.unpaid _ _ posted.found posted.opened]
    · rw [Function.update_of_ne different, accounted.unpaid _ _ old opened]
  · intro other found located opened
    rw [posted.paidIn, posted.requested, price]
    rcases posted.found_after.mp located with ⟨rfl, rfl⟩ | ⟨different, old⟩
    · have wagered := accounted.wagered _ _ posted.found posted.opened
      rw [Function.update_self, (kept opened).2]
      omega
    · rw [Function.update_of_ne different, accounted.wagered _ _ old opened]
  · intro other beyond
    rw [length] at beyond
    rw [posted.paidIn, posted.paidOut, Function.update_of_ne (by omega),
      Function.update_of_ne (by omega)]
    exact accounted.blank other beyond

theorem settled_iff (posted : Posted before after position purchase next wager owed)
    (accounted : Accounted before) :
    after.Settled ↔ before.Settled ∧
      (next.state.closed = true → owed = before.paidIn position + wager) := by
  have unpaid := accounted.unpaid _ _ posted.found posted.opened
  unfold Settled
  rw [posted.paidIn, posted.paidOut]
  constructor
  · intro settled
    refine ⟨fun other found located closed => ?_, fun closed => ?_⟩
    · have different : other ≠ position := by
        rintro rfl
        cases Option.some.inj (located.symm.trans posted.found)
        cases posted.opened.symm.trans closed
      have same := settled other found (posted.found_after.mpr (.inr ⟨different, located⟩)) closed
      rwa [Function.update_of_ne different, Function.update_of_ne different] at same
    · have same := settled position next (posted.found_after.mpr (.inl ⟨rfl, rfl⟩)) closed
      rwa [Function.update_self, Function.update_self, unpaid, zero_add] at same
  · intro settled other found located closed
    rcases posted.found_after.mp located with ⟨rfl, rfl⟩ | ⟨different, old⟩
    · rw [Function.update_self, Function.update_self, unpaid, zero_add]
      exact settled.2 closed
    · rw [Function.update_of_ne different, Function.update_of_ne different]
      exact settled.1 other found old closed

end Posted

namespace Entered

theorem found_after (entered : Entered before after purchase amount) {other : ℕ}
    {found : Purchase} :
    after.host.state.contracts[other]? = some found ↔
      (other = before.host.state.contracts.length ∧ found = purchase) ∨
      (other < before.host.state.contracts.length ∧
        before.host.state.contracts[other]? = some found) := by
  rw [entered.contracts]
  rcases Nat.lt_trichotomy other before.host.state.contracts.length with inside | rfl | beyond
  · rw [List.getElem?_append_left inside]
    simp [inside, Nat.ne_of_lt inside]
  · simp [eq_comm]
  · rw [List.getElem?_eq_none (by simpa using beyond)]
    simp [Nat.ne_of_gt beyond, Nat.not_lt_of_gt beyond]

theorem accounted (entered : Entered before after purchase amount)
    (accounted : Accounted before) : Accounted after := by
  obtain ⟨noneIn, noneOut⟩ := accounted.blank _ le_rfl
  have price : after.host.state.priceOf 0 = before.host.state.priceOf 0 := by
    unfold ContractState.priceOf
    rw [entered.listings]
  have length : after.host.state.contracts.length =
      before.host.state.contracts.length + 1 := by
    rw [entered.contracts, List.length_append, List.length_singleton]
  refine ⟨?_, ?_, ?_, ?_⟩
  · have balanced := accounted.balanced
    have earlier : ∑ i ∈ Finset.range before.host.state.contracts.length, after.paidIn i =
        ∑ i ∈ Finset.range before.host.state.contracts.length, before.paidIn i := by
      refine Finset.sum_congr rfl fun other member => ?_
      have inside := Finset.mem_range.mp member
      rw [entered.paidIn, Function.update_of_ne (Nat.ne_of_lt inside)]
    have last : after.paidIn before.host.state.contracts.length = amount := by
      rw [entered.paidIn, Function.update_self, noneIn, zero_add]
    rw [length, Finset.sum_range_succ, Finset.sum_range_succ, earlier, last, entered.paidOut,
      noneOut, entered.balance]
    omega
  · intro other found located opened
    rw [entered.paidOut]
    rcases entered.found_after.mp located with ⟨rfl, rfl⟩ | ⟨_, old⟩
    · exact noneOut
    · exact accounted.unpaid _ _ old opened
  · intro other found located opened
    rw [entered.paidIn, entered.requested, price]
    rcases entered.found_after.mp located with ⟨rfl, rfl⟩ | ⟨inside, old⟩
    · rw [Function.update_self, Function.update_self, noneIn, entered.stage]
      simp [State.wagers]
    · rw [Function.update_of_ne (Nat.ne_of_lt inside),
        Function.update_of_ne (Nat.ne_of_lt inside)]
      exact accounted.wagered _ _ old opened
  · intro other beyond
    rw [length] at beyond
    rw [entered.paidIn, entered.paidOut, Function.update_of_ne (by omega)]
    exact accounted.blank other (by omega)

theorem settled_iff (entered : Entered before after purchase amount) :
    after.Settled ↔ before.Settled := by
  unfold Settled
  rw [entered.paidIn, entered.paidOut]
  constructor
  · intro settled other found located closed
    have inside := (List.getElem?_eq_some_iff.mp located).1
    have same := settled other found (entered.found_after.mpr (.inr ⟨inside, located⟩)) closed
    rwa [Function.update_of_ne (Nat.ne_of_lt inside)] at same
  · intro settled other found located closed
    rcases entered.found_after.mp located with ⟨rfl, rfl⟩ | ⟨inside, old⟩
    · rw [entered.stage] at closed
      cases closed
    · rw [Function.update_of_ne (Nat.ne_of_lt inside)]
      exact settled other found old closed

end Entered

end Accounts

/-! ## When a purchase ends settled -/

/-- The amount of the request is the one the closing action goes by. -/
def Action.Fair (state : ContractState) (purchase : Purchase) (requested : ℕ) : Action → Prop
  | abort item => requested = state.priceOf item
  | rejectContract | confirmDelivery => requested = state.priceOf 0
  | buyerTimeout => requested = state.priceOf 0 ∧
      (purchase.state = .dispute → 2 * state.priceOf 0 < 2 ^ 64)
  | forfeitDispute => requested = state.priceOf 0 ∧ 2 * state.priceOf 0 < 2 ^ 64
  -- nothing is paid back of the price of a purchase that has been countered
  | openCommitment _ => requested = 0 ∧ 2 * state.priceOf 0 < 2 ^ 64
  | sellerTimeout =>
      if purchase.state = .counter then requested = 0 ∧ state.priceOf 0 = 0
      else requested = state.priceOf 0
  | disputeDelivery _ | counterDispute _ | acceptContract | itemWasDelivered => True

namespace Action

variable {action : Action} {state : ContractState} {purchase : Purchase} {price : UInt64}
  {first : Item}

theorem wagers_target (stage : purchase.state ∈ action.sources)
    (opened : action.target.closed = false) :
    action.target.wagers * price.toNat =
      purchase.state.wagers * price.toNat + (action.wager price).toNat := by
  cases action with
  | abort | confirmDelivery | buyerTimeout | openCommitment | sellerTimeout | rejectContract
  | forfeitDispute => cases opened
  | disputeDelivery | counterDispute | acceptContract | itemWasDelivered =>
      have zero : (0 : UInt64).toNat = 0 := rfl
      rw [List.mem_singleton.mp stage]
      simp only [target, State.wagers, wager, zero]
      omega

theorem owed_of_opened (opened : action.target.closed = false) :
    action.owed state purchase price = 0 := by
  have none : action.payment state purchase price = none := by
    rw [← Option.not_isSome_iff_eq_none, payment_isSome, opened]
    exact Bool.false_ne_true
  rw [owed, none]
  rfl

theorem total_singleton (payee : AccountAddress) (amount : Amount) :
    Payments.total (some (payee, amount)).toList = amount.toNat := by
  simp [Payments.total]

/-- Twice the price, once it wraps around, is less than the price. -/
theorem double_eq_iff {total : ℕ} (enough : price.toNat ≤ total) :
    (price * 2).toNat = total ↔ total = 2 * price.toNat ∧ 2 * price.toNat < 2 ^ 64 := by
  have two : (2 : UInt64).toNat = 2 := rfl
  have bounded := price.toNat_lt
  rw [UInt64.toNat_mul, two]
  omega

theorem fair_iff (stored : purchase.item = 0) (quoted : action.price state purchase = some price)
    (stage : purchase.state ∈ action.sources) (closed : action.target.closed = true)
    (requested : ℕ) :
    action.owed state purchase price = requested + purchase.state.wagers * state.priceOf 0 ↔
      action.Fair state purchase requested := by
  have listed : state.listings[asUsize purchase.item]?.map Item.itemValue = some price →
      state.priceOf 0 = price.toNat := by
    rw [stored]
    exact ContractState.priceOf_eq
  cases action with
  | disputeDelivery | counterDispute | acceptContract | itemWasDelivered => cases closed
  | abort item =>
      rw [List.mem_singleton.mp stage, Fair, ContractState.priceOf_eq quoted, owed, payment,
        total_singleton, State.wagers]
      omega
  | rejectContract | confirmDelivery =>
      rw [List.mem_singleton.mp stage, Fair, listed quoted, owed, payment, total_singleton,
        State.wagers]
      omega
  | forfeitDispute =>
      rw [List.mem_singleton.mp stage, Fair, listed quoted, owed, payment, total_singleton,
        State.wagers, double_eq_iff (by omega)]
      omega
  | openCommitment bit =>
      rw [List.mem_singleton.mp stage, Fair, listed quoted, owed, payment, total_singleton,
        State.wagers, UInt64.mul_comm, double_eq_iff (by omega)]
      omega
  | sellerTimeout =>
      have stages : purchase.state = .delivered ∨ purchase.state = .counter := by
        simpa [sources] using stage
      rw [Fair, listed quoted, owed, payment, total_singleton]
      rcases stages with stage | stage
      · rw [stage, if_neg (by decide), State.wagers]
        omega
      · rw [stage, if_pos rfl, State.wagers]
        omega
  | buyerTimeout =>
      have stages : purchase.state = .dispute ∨ purchase.state = .accepted := by
        simpa [sources] using stage
      rw [Fair, listed quoted, owed, payment, total_singleton]
      rcases stages with stage | stage
      · rw [stage, if_pos rfl, State.wagers, double_eq_iff (by omega)]
        simp only [eq_self, forall_const]
        omega
      · rw [stage, if_neg (by decide), State.wagers]
        simp only [reduceCtorEq, false_implies, and_true]
        omega

theorem fair_of_opened (opened : action.target.closed = false) (requested : ℕ) :
    action.Fair state purchase requested := by
  cases action with
  | disputeDelivery | counterDispute | acceptContract | itemWasDelivered => trivial
  | _ => cases opened

end Action

/-- A call that closes a purchase goes by the amount of its request. -/
def FairlyClosed (owner : AccountAddress) (accounts : Accounts) (tx : Transaction) : Prop :=
  ∀ id action purchase, tx.call.target = some (id, action) →
    (outcome owner accounts.host tx).isSome = true →
    accounts.host.state.contracts[asUsize id]? = some purchase →
    action.Fair accounts.host.state purchase (accounts.requested (asUsize id))

section Runs

variable {owner : AccountAddress} {accounts : Accounts} {tx : Transaction}

/-- What is owed when a purchase ends is what was paid for it, if its request was fair. -/
theorem step_posted (stored : Stored accounts.host.state) (accounted : Accounted accounts)
    {after : Host ContractState} {id : UInt64} {action : Action}
    (target : tx.call.target = some (id, action))
    (acts : Acts action tx.sender tx.amount id (accounts.host.receiving tx.amount) after)
    (completes : ∃ payments, after.attempted = accounts.host.attempted ++ payments ∧
      after.transfers = accounts.host.transfers ++ payments) :
    Accounted (accounts.record tx after) ∧
      ∃ purchase, accounts.host.state.contracts[asUsize id]? = some purchase ∧
        ((accounts.record tx after).Settled ↔ accounts.Settled ∧
          action.Fair accounts.host.state purchase (accounts.requested (asUsize id))) := by
  obtain ⟨purchase, price, quoted, stage, posted⟩ := Accounts.posted target acts completes
  obtain ⟨first, listed, _⟩ := stored.listing posted.found
  have item := stored.item purchase (List.mem_of_getElem? posted.found)
  have firstPrice : accounts.host.state.priceOf 0 = first.itemValue.toNat := by
    refine ContractState.priceOf_eq ?_
    change accounts.host.state.listings[0]?.map Item.itemValue = _
    rw [listed, Option.map_some]
  refine ⟨posted.accounted accounted fun opened => ?_, purchase, posted.found, ?_⟩
  · rw [Action.written_state] at opened ⊢
    refine ⟨Action.owed_of_opened opened, ?_⟩
    rw [firstPrice, Action.wager_eq_first item listed quoted]
    exact Action.wagers_target stage opened
  · rw [posted.settled_iff accounted, Action.written_state,
      accounted.wagered _ _ posted.found posted.opened]
    refine and_congr_right fun _ => ?_
    cases ends : action.target.closed with
    | false => simp [Action.fair_of_opened ends]
    | true =>
        have zero : (action.wager price).toNat = 0 :=
          congrArg UInt64.toNat (Action.wager_of_closed ends)
        simp only [zero, add_zero, eq_self, forall_const]
        exact Action.fair_iff item quoted stage ends _

theorem step_settled (stored : Stored accounts.host.state) (accounted : Accounted accounts)
    (completes : Completes owner accounts tx) :
    Accounted (accounts.step owner tx) ∧
      ((accounts.step owner tx).Settled ↔
        accounts.Settled ∧ FairlyClosed owner accounts tx) := by
  unfold Accounts.step
  cases returned : outcome owner accounts.host tx with
  | none =>
      refine ⟨accounted, (and_iff_left ?_).symm⟩
      intro _ _ _ _ succeeds
      rw [returned] at succeeds
      cases succeeds
  | some after =>
      dsimp only
      have untargeted : tx.call.target = none → FairlyClosed owner accounts tx := by
        intro none _ _ _ target
        cases none.symm.trans target
      cases effect_of_outcome returned with
      | requested _ _ _ call _ _ _ host =>
          obtain ⟨_, entered⟩ := Accounts.entered call host
          refine ⟨entered.accounted accounted, entered.settled_iff.trans (and_iff_left ?_).symm⟩
          exact untargeted (congrArg Call.target call)
      | acted id action target acts =>
          obtain ⟨accountedAfter, purchase, found, settled⟩ :=
            step_posted stored accounted target acts (completes after returned)
          refine ⟨accountedAfter, settled.trans (and_congr_right fun _ => ?_)⟩
          constructor
          · intro fair _ _ _ named _ located
            cases Option.some.inj (target.symm.trans named)
            cases Option.some.inj (found.symm.trans located)
            exact fair
          · intro fair
            exact fair id action purchase target (by rw [returned]; rfl) found
      | relisted parameters call _ unsold host =>
          have nothing : (accounts.record tx after).host.state.contracts = [] := by
            rw [Accounts.record_host, host]
            exact unsold
          have same : accounts.record tx after = { accounts with host := after } := by
            simp only [Accounts.record, call, Call.named, Call.target, Option.map_none]
          refine ⟨?_, ?_⟩
          · have balanced := accounted.balanced
            refine ⟨?_, by simp [nothing], by simp [nothing], fun position _ => ?_⟩
            · rw [unsold] at balanced
              rw [nothing, same, host]
              exact balanced
            · rw [same]
              exact accounted.blank position (by simp [unsold])
          · have settled : ∀ accounts : Accounts, accounts.host.state.contracts = [] →
                accounts.Settled := by
              intro accounts none _ _ found
              rw [none] at found
              cases found
            exact iff_of_true (settled _ nothing)
              ⟨settled _ unsold, untargeted (congrArg Call.target call)⟩

theorem step_stored (stored : Stored accounts.host.state) (tx : Transaction) :
    Stored (accounts.step owner tx).host.state := by
  unfold Accounts.step
  cases returned : outcome owner accounts.host tx with
  | none => exact stored
  | some after =>
      dsimp only
      rw [Accounts.record_host]
      exact stored.effect (effect_of_outcome returned)

theorem Accounted.opening {start : Host ContractState} (unsold : start.state.contracts = [])
    (unfunded : start.balance = 0) : Accounted (Accounts.opening start) := by
  have nothing : (Accounts.opening start).host.state.contracts = [] := unsold
  refine ⟨?_, by simp [nothing], by simp [nothing], fun _ _ => ⟨rfl, rfl⟩⟩
  rw [nothing]
  exact unfunded

/-- Nothing is left of purchases that have all ended settled. -/
theorem Accounted.balance_zero (accounted : Accounted accounts) (settled : accounts.Settled)
    (ended : ∀ purchase ∈ accounts.host.state.contracts, purchase.state.closed = true) :
    accounts.host.balance = 0 := by
  have balanced := accounted.balanced
  have same : ∑ i ∈ Finset.range accounts.host.state.contracts.length, accounts.paidOut i =
      ∑ i ∈ Finset.range accounts.host.state.contracts.length, accounts.paidIn i := by
    refine Finset.sum_congr rfl fun position member => ?_
    have found := List.getElem?_eq_getElem (Finset.mem_range.mp member)
    exact settled position _ found (ended _ (List.getElem_mem _))
  omega

/-- In a run whose transfers succeed, all that is paid in for a purchase is paid
out when it ends, and nothing is left once all have ended, just where every
purchase is closed by the amount of its request. -/
theorem strands_nothing_iff {start : Host ContractState} (unsold : start.state.contracts = [])
    (unfunded : start.balance = 0) {txs : List Transaction}
    (completes : Along (Accounts.step owner) (Completes owner) (Accounts.opening start) txs) :
    let accounts := run (Accounts.step owner) (Accounts.opening start) txs
    accounts.host = run (step owner) start txs ∧
    ((accounts.Settled ∧
      ((∀ purchase ∈ accounts.host.state.contracts, purchase.state.closed = true) →
        accounts.host.balance = 0)) ↔
      Along (Accounts.step owner) (FairlyClosed owner) (Accounts.opening start) txs) := by
  intro accounts
  have host : accounts.host = run (step owner) start txs := Accounts.run_host owner _ txs
  refine ⟨host, ?_⟩
  have initially : Stored (Accounts.opening start).host.state ∧
      Accounted (Accounts.opening start) :=
    ⟨@run_stored owner start unsold [], .opening unsold unfunded⟩
  have kept : ∀ before tx, Stored before.host.state ∧ Accounted before →
      Completes owner before tx →
      Stored (before.step owner tx).host.state ∧ Accounted (before.step owner tx) :=
    fun _ tx holds done => ⟨step_stored holds.1 tx, (step_settled holds.1 holds.2 done).1⟩
  have accounted : Accounted accounts :=
    (@run_preserves _ _ (Accounts.step owner) (Completes owner)
      (fun accounts => Stored accounts.host.state ∧ Accounted accounts) _ txs initially kept
      completes).2
  have settled : accounts.Settled ↔ _ ∧ _ :=
    @run_iff _ _ (Accounts.step owner) (FairlyClosed owner)
      (fun accounts => Stored accounts.host.state ∧ Accounted accounts) Accounts.Settled
      (Completes owner) _ txs initially kept
      (fun _ _ holds done => (step_settled holds.1 holds.2 done).2) completes
  have none : (Accounts.opening start).Settled := by
    intro _ _ found
    rw [show (Accounts.opening start).host.state.contracts = [] from unsold] at found
    cases found
  rw [and_iff_left_of_imp fun isSettled => accounted.balance_zero isSettled, settled]
  exact and_iff_right none

end Runs

namespace Shop

def confirmed : List Transaction :=
  [requests 1 0 100, accepts 0, delivers 0, send 1 0 (.confirmDelivery (some { id := 0 }))]

def opened : List Transaction :=
  disputed 0 ++ [Commerce.opening (.ofByte 1) 0 { id := 0, buyerBit := true, nonce := 0 }]

end Shop

theorem strands_nothing_iff_confirmed :
    Along (Accounts.step Shop.vendor) (FairlyClosed Shop.vendor) (Accounts.opening Shop.start)
      Shop.confirmed := by
  have completes : Along (Accounts.step Shop.vendor) (Completes Shop.vendor)
      (Accounts.opening Shop.start) Shop.confirmed := by
    decide +kernel
  have reached : ∀ accounts, run (Accounts.step Shop.vendor) (Accounts.opening Shop.start)
      Shop.confirmed = accounts →
      accounts.host.state.contracts.length = 1 ∧ accounts.host.balance = 0 ∧
        accounts.paidOut 0 = accounts.paidIn 0 := by
    rintro _ rfl
    decide +kernel
  obtain ⟨length, balance, paid⟩ := reached _ rfl
  refine (@strands_nothing_iff Shop.vendor Shop.start rfl rfl Shop.confirmed completes).2.mp
    ⟨fun position purchase found _ => ?_, fun _ => balance⟩
  have inside := (List.getElem?_eq_some_iff.mp found).1
  obtain rfl : position = 0 := by omega
  exact paid

/-- The buyer wins a disputed purchase, and the price stays in the contract. -/
theorem not_settled_opened :
    let accounts := run (Accounts.step Shop.vendor) (Accounts.opening Shop.start) Shop.opened
    Shop.start.state.contracts = [] ∧ Shop.start.balance = 0 ∧
    Along (Accounts.step Shop.vendor) (Completes Shop.vendor) (Accounts.opening Shop.start)
      Shop.opened ∧
    accounts.host.state.purchases = [.failed] ∧ accounts.host.balance = 100 ∧
    accounts.paidIn 0 = 300 ∧ accounts.paidOut 0 = 200 := by
  refine ⟨rfl, rfl, ?_⟩
  decide +kernel

end SmartContracts.Commerce
