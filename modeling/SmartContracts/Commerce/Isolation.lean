import SmartContracts.Commerce.Protocol

namespace SmartContracts.Commerce

open SmartContracts.Chain SmartContracts.Semantics

/-! # Purchases do not interfere

A call that names a purchase reads no other one, and no call reads the balance.
So what becomes of a purchase is decided by the calls that name it and those that
name none, in their order; calls that name different purchases may come in any
order.  The payments are recorded next to the purchases they were made for.
-/

structure Paying where
  host : Host ContractState
  -- the payments attempted since the start, each with the purchase it was for
  paid : List (ℕ × AccountAddress × Amount)

/-- The call names this purchase, or none. -/
def concerns (position : ℕ) (tx : Transaction) : Bool :=
  match tx.call.target with
  | some (id, _) => asUsize id = position
  | none => true

namespace Paying

def record (paying : Paying) (tx : Transaction) (after : Host ContractState) : Paying where
  host := after
  paid :=
    match tx.call.target with
    | some (id, _) =>
        paying.paid ++ (after.attempted.drop paying.host.attempted.length).map (asUsize id, ·)
    | none => paying.paid

def step (owner : AccountAddress) (paying : Paying) (tx : Transaction) : Paying :=
  match outcome owner paying.host tx with
  | some after => paying.record tx after
  | none => paying

/-- What there is to see for the parties of a purchase. -/
structure View where
  vendor : AccountAddress
  timeout : UInt64
  listings : List Item
  count : ℕ
  purchase : Option Purchase
  paid : List (ℕ × AccountAddress × Amount)

def view (position : ℕ) (paying : Paying) : View where
  vendor := paying.host.state.vendor
  timeout := paying.host.state.timeout
  listings := paying.host.state.listings
  count := paying.host.state.contracts.length
  purchase := paying.host.state.contracts[position]?
  paid := paying.paid.filter (·.1 = position)

theorem run_host (owner : AccountAddress) (paying : Paying) (txs : List Transaction) :
    (run (step owner) paying txs).host = run (Commerce.step owner) paying.host txs := by
  apply run_map
  intro paying tx
  unfold step Commerce.step
  cases outcome owner paying.host tx <;> rfl

end Paying

section Step

variable {owner : AccountAddress} {position : ℕ} {first second : Paying} {tx : Transaction}

theorem outcome_requests {before after : Host ContractState}
    {parameters : BuyerRequestPurchaseParameter}
    (call : tx.call = .requestPurchase (some parameters)) :
    outcome owner before tx = some after ↔
      ∃ listing, before.state.listings[asUsize parameters.item]? = some listing ∧
        tx.amount = listing.itemValue ∧ ∃ buyer, tx.sender = .account buyer ∧
        after = { before.receiving tx.amount with
          state := before.state.requested buyer parameters } := by
  simp only [outcome, call, Host.returned_eq_some, buyerRequestPurchase_ok]
  constructor
  · intro returned
    obtain ⟨_, _, same, listing, listed, priced, buyer, account, host, _⟩ := returned
    cases same
    exact ⟨listing, listed, priced, buyer, account, host.symm⟩
  · intro requested
    obtain ⟨listing, listed, priced, buyer, account, host⟩ := requested
    exact ⟨0, parameters, rfl, listing, listed, priced, buyer, account, host.symm, rfl⟩

theorem concerns_target {id : UInt64} {action : Action}
    (target : tx.call.target = some (id, action)) :
    concerns position tx = decide (asUsize id = position) := by
  rw [concerns, target]

theorem filter_labelled {α : Type} (label : ℕ) (entries : List α) :
    (entries.map (label, ·)).filter (·.1 = position) =
      if label = position then entries.map (position, ·) else [] := by
  rw [List.filter_map]
  by_cases own : label = position
  · simp [Function.comp_def, own]
  · simp [Function.comp_def, own]

/-- What a call on a purchase changes for the parties of one. -/
theorem view_acted {paying : Paying} {after : Host ContractState} {id : UInt64} {action : Action}
    {purchase : Purchase} {price : UInt64} (target : tx.call.target = some (id, action))
    (found : paying.host.state.contracts[asUsize id]? = some purchase)
    (host : after = Host.offering
      { paying.host.receiving tx.amount with
        state := paying.host.state.withContract id (action.written purchase) }
      (action.payment paying.host.state purchase price)) :
    (paying.record tx after).view position =
      if asUsize id = position then
        { paying.view position with
          purchase := some (action.written purchase)
          paid := (paying.view position).paid ++
            (action.payment paying.host.state purchase price).toList.map (position, ·) }
      else paying.view position := by
  have entered : after.attempted.drop paying.host.attempted.length =
      (action.payment paying.host.state purchase price).toList := by
    rw [host, Host.offering_attempted]
    exact List.drop_left
  have state : after.state = paying.host.state.withContract id (action.written purchase) := by
    rw [host, Host.offering_state]
  have inside := (List.getElem?_eq_some_iff.mp found).1
  simp only [Paying.view, Paying.record, target, entered, state, ContractState.withContract,
    List.length_set, List.filter_append, filter_labelled]
  by_cases own : asUsize id = position
  · rw [if_pos own, if_pos own, ← own, List.getElem?_set_self inside]
  · rw [if_neg own, if_neg own, List.getElem?_set_ne own, List.append_nil]

theorem paid_untargeted {paying : Paying} {after : Host ContractState}
    (untargeted : tx.call.target = none) :
    (paying.record tx after).paid = paying.paid := by
  rw [Paying.record, untargeted]

/-- Where a call returns, it returns wherever the same is seen, and leaves the same. -/
theorem outcome_view (own : concerns position tx = true)
    (same : first.view position = second.view position) {after : Host ContractState}
    (returned : outcome owner first.host tx = some after) :
    ∃ other, outcome owner second.host tx = some other ∧
      (first.record tx after).view position = (second.record tx other).view position := by
  obtain ⟨vendor, timeout, listings, count, purchase, paid⟩ := Paying.View.mk.inj same
  cases effect_of_outcome returned with
  | requested parameters listing buyer call listed priced account host =>
      refine ⟨_, (outcome_requests call).mpr
        ⟨listing, listings ▸ listed, priced, buyer, account, rfl⟩, ?_⟩
      have untargeted : tx.call.target = none := congrArg Call.target call
      simp only [Paying.view, paid_untargeted untargeted, paid]
      simp only [Paying.record, host, ContractState.requested, vendor, timeout,
        listings, List.length_append, count, List.getElem?_append, purchase]
  | relisted parameters call account unsold host =>
      have unsold' : second.host.state.contracts = [] :=
        List.length_eq_zero_iff.mp (count.symm.trans (congrArg List.length unsold))
      obtain ⟨relists, _⟩ := (outcome_relists call).mp returned
      have also : Relists second.host.state tx parameters :=
        ⟨call, relists.unpaid, vendor ▸ relists.vendor, unsold', listings ▸ relists.listed⟩
      refine ⟨_, (outcome_relists call).mpr ⟨also, rfl⟩, ?_⟩
      have untargeted : tx.call.target = none := congrArg Call.target call
      simp only [Paying.view, paid_untargeted untargeted, paid]
      simp only [Paying.record, host, ContractState.relisted, vendor, timeout, listings, count,
        purchase]
  | acted id action target acts =>
      have position_eq : asUsize id = position := by
        rw [concerns_target target] at own
        exact of_decide_eq_true own
      obtain ⟨bought, found, price, priced, party, stage, wager, admits, host⟩ := acts
      rw [Host.receiving_state] at found priced party admits
      have also : second.host.state.contracts[asUsize id]? = some bought := by
        rw [position_eq, ← purchase, ← position_eq, found]
      have payment : action.payment first.host.state bought price =
          action.payment second.host.state bought price := by
        cases action <;> simp only [Action.payment, vendor]
      have quoted : action.price second.host.state bought = some price := by
        rw [← priced]
        cases action <;> simp only [Action.price, listings]
      have admitted : action.Admits second.host.state bought := by
        cases action <;> simp only [Action.Admits] at admits ⊢ <;>
          first
            | exact admits
            | exact timeout ▸ admits
      have partyAlso : tx.sender =
          .account (action.party.account second.host.state bought) := by
        rw [party]
        cases action.party <;> simp only [Party.account, vendor]
      refine ⟨_, (outcome_target target).mpr
        ⟨bought, also, price, quoted, partyAlso, stage, wager, admitted, rfl⟩, ?_⟩
      rw [view_acted target found host, same, payment]
      exact (view_acted target also rfl).symm

theorem step_acts (own : concerns position tx = true)
    (same : first.view position = second.view position) :
    (Paying.step owner first tx).view position = (Paying.step owner second tx).view position := by
  unfold Paying.step
  cases firstReturned : outcome owner first.host tx with
  | some after =>
      obtain ⟨other, returned, views⟩ := outcome_view own same firstReturned
      rw [returned]
      exact views
  | none =>
      cases secondReturned : outcome owner second.host tx with
      | some after =>
          obtain ⟨other, returned, _⟩ := outcome_view own same.symm secondReturned
          cases returned.symm.trans firstReturned
      | none => exact same

theorem step_ignores {paying : Paying} (other : concerns position tx = false) :
    (Paying.step owner paying tx).view position = paying.view position := by
  unfold Paying.step
  cases returned : outcome owner paying.host tx with
  | none => rfl
  | some after =>
      cases target : tx.call.target with
      | none =>
          rw [concerns, target] at other
          cases other
      | some named =>
          obtain ⟨id, action⟩ := named
          rw [concerns_target target] at other
          obtain ⟨bought, found, price, _, _, _, _, _, host⟩ := (outcome_target target).mp returned
          rw [Host.receiving_state] at found
          have acted := @view_acted position _ _ _ _ _ _ _ target found host
          rwa [if_neg (of_decide_eq_false other)] at acted

end Step

section Run

variable {owner : AccountAddress} {start : Host ContractState} {position : ℕ}

/-- A purchase goes its way without the calls that name others. -/
theorem purchase_isolated (paying : Paying) (txs : List Transaction) :
    (run (Paying.step owner) paying txs).view position =
      (run (Paying.step owner) paying (txs.filter (concerns position))).view position :=
  run_view (fun _ _ _ => step_acts) (fun _ _ => step_ignores) paying txs

theorem step_paid {paying : Paying} {tx : Transaction}
    (before : paying.host.attempted = start.attempted ++ paying.paid.map Prod.snd) :
    (Paying.step owner paying tx).host.attempted =
      start.attempted ++ (Paying.step owner paying tx).paid.map Prod.snd := by
  unfold Paying.step
  cases returned : outcome owner paying.host tx with
  | none => exact before
  | some after =>
      cases effect_of_outcome returned with
      | requested _ _ _ call _ _ _ host =>
          change after.attempted = _
          rw [paid_untargeted (congrArg Call.target call), host]
          exact before
      | relisted _ call _ _ host =>
          change after.attempted = _
          rw [paid_untargeted (congrArg Call.target call), host]
          exact before
      | acted id action target acts =>
          obtain ⟨purchase, _, price, _, _, _, _, _, host⟩ := acts
          have entered : after.attempted = paying.host.attempted ++
              (action.payment paying.host.state purchase price).toList := by
            rw [host, Host.offering_attempted]
            rfl
          simp only [Paying.record, target, entered, List.drop_left, List.map_append, List.map_map]
          simp [before, Function.comp_def]

/-- The payments on record are those that were attempted. -/
theorem run_paid (txs : List Transaction) :
    (run (Paying.step owner) ⟨start, []⟩ txs).host.attempted =
      start.attempted ++ (run (Paying.step owner) ⟨start, []⟩ txs).paid.map Prod.snd :=
  @run_invariant _ _ (Paying.step owner)
    (fun paying => paying.host.attempted = start.attempted ++ paying.paid.map Prod.snd)
    ⟨start, []⟩ (List.append_nil _).symm (fun _ _ before => step_paid before) txs

/-- Interleavings in which every purchase gets its calls in the same order, among
the calls that name none, leave the same purchases and attempt the same payments. -/
theorem interleavings_agree {txs others : List Transaction}
    (same : ∀ position, txs.filter (concerns position) = others.filter (concerns position)) :
    (run (step owner) start txs).state = (run (step owner) start others).state ∧
    (run (step owner) start txs).attempted.Perm (run (step owner) start others).attempted := by
  have views : ∀ position,
      (run (Paying.step owner) ⟨start, []⟩ txs).view position =
        (run (Paying.step owner) ⟨start, []⟩ others).view position := by
    intro position
    rw [purchase_isolated _ txs, purchase_isolated _ others, same position]
  have firstHost := Paying.run_host owner ⟨start, []⟩ txs
  have secondHost := Paying.run_host owner ⟨start, []⟩ others
  have paid : (run (Paying.step owner) ⟨start, []⟩ txs).paid.Perm
      (run (Paying.step owner) ⟨start, []⟩ others).paid := by
    apply List.perm_iff_count.mpr
    intro entry
    have own := congrArg Paying.View.paid (views entry.1)
    have counts := congrArg (List.count entry) own
    rwa [Paying.view, Paying.view, List.count_filter (by simp), List.count_filter (by simp)]
      at counts
  rw [← firstHost, ← secondHost]
  refine ⟨?_, ?_⟩
  · have seen := views 0
    obtain ⟨vendor, timeout, listings, _, _, _⟩ := Paying.View.mk.inj seen
    have contracts := List.ext_getElem? fun position =>
      congrArg Paying.View.purchase (views position)
    exact (ContractState.mk.injEq ..).mpr ⟨vendor, timeout, contracts, listings⟩
  · rw [run_paid, run_paid]
    exact (paid.map Prod.snd).append_left _

end Run

theorem interleavings_agree_two :
    let requests := [Shop.requests 1 0 100, Shop.requests 2 0 100]
    let first := run (step Shop.vendor) Shop.start (requests ++ [Shop.rejects 0, Shop.accepts 1])
    let second := run (step Shop.vendor) Shop.start (requests ++ [Shop.accepts 1, Shop.rejects 0])
    first.state = second.state ∧ first.attempted.Perm second.attempted := by
  refine interleavings_agree fun position => ?_
  rcases position with _ | _ | position
  · rfl
  · rfl
  · rfl

end SmartContracts.Commerce
