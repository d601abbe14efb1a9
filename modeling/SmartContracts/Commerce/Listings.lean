import SmartContracts.Commerce.Protocol
import SmartContracts.Data.Lists

namespace SmartContracts.Commerce

open SmartContracts.Chain SmartContracts.Data SmartContracts.Semantics

/-! # The terms of sale

The listings can only be edited while nothing has been requested, and nothing
ever adds one.  So the terms are frozen by the first purchase, and a contract
that starts without listings stays without.
-/

/-- What a purchase keeps of its request. -/
def Purchase.terms (purchase : Purchase) : AccountAddress × UInt64 × String :=
  (purchase.buyer, purchase.item, purchase.notes)

theorem Action.written_terms (purchase : Purchase) (action : Action) :
    (action.written purchase).terms = purchase.terms := by
  cases action <;> rfl

structure Frozen (before after : ContractState) : Prop where
  vendor : after.vendor = before.vendor
  timeout : after.timeout = before.timeout
  terms : before.contracts.map Purchase.terms <+: after.contracts.map Purchase.terms
  listings : before.contracts ≠ [] → after.listings = before.listings

namespace Frozen

variable {before middle after : ContractState}

theorem refl (state : ContractState) : Frozen state state :=
  ⟨rfl, rfl, List.prefix_rfl, fun _ => rfl⟩

theorem sold (frozen : Frozen before after) (sold : before.contracts ≠ []) :
    after.contracts ≠ [] := by
  intro unsold
  have terms := frozen.terms
  rw [unsold, List.map_nil, List.prefix_nil, List.map_eq_nil_iff] at terms
  exact sold terms

theorem trans (first : Frozen before middle) (last : Frozen middle after) :
    Frozen before after := by
  refine ⟨last.vendor.trans first.vendor, last.timeout.trans first.timeout,
    first.terms.trans last.terms, fun sold => ?_⟩
  exact (last.listings (first.sold sold)).trans (first.listings sold)

theorem purchase (frozen : Frozen before after) {position : ℕ} {purchase : Purchase}
    (found : before.contracts[position]? = some purchase) :
    ∃ kept, after.contracts[position]? = some kept ∧ kept.terms = purchase.terms := by
  have listed : (before.contracts.map Purchase.terms)[position]? = some purchase.terms := by
    rw [List.getElem?_map, found, Option.map_some]
  obtain ⟨added, appended⟩ := frozen.terms
  have inside := (List.getElem?_eq_some_iff.mp listed).1
  rw [← @List.getElem?_append_left _ _ added _ inside, appended, List.getElem?_map] at listed
  exact Option.map_eq_some_iff.mp listed

end Frozen

variable {owner : AccountAddress} {host : Host ContractState} {tx : Transaction}

theorem Effect.frozen {before after : Host ContractState} (effect : Effect before tx after) :
    Frozen before.state after.state := by
  cases effect with
  | requested _ _ _ _ _ _ _ host =>
      rw [host]
      refine ⟨rfl, rfl, ?_, fun _ => rfl⟩
      simp only [ContractState.requested, List.map_append]
      exact List.prefix_append _ _
  | acted id action _ acts =>
      obtain ⟨purchase, found, _, _, _, _, _, _, rfl⟩ := acts
      rw [Host.offering_state]
      refine ⟨rfl, rfl, ?_, fun _ => rfl⟩
      have same := map_set_same found (Action.written_terms purchase action)
      exact same ▸ List.prefix_rfl
  | relisted _ _ _ unsold host =>
      rw [host]
      exact ⟨rfl, rfl, List.prefix_rfl, fun sold => absurd unsold sold⟩

theorem step_frozen (host : Host ContractState) (tx : Transaction) :
    Frozen host.state (step owner host tx).state := by
  rcases step_cases owner host tx with same | returned
  · rw [same]
    exact .refl _
  · exact (effect_of_outcome returned).frozen

theorem run_frozen (start : Host ContractState) (txs : List Transaction) :
    Frozen start.state (run (step owner) start txs).state :=
  @run_invariant _ _ (step owner) (fun host => Frozen start.state host.state) start
    (.refl _) (fun host tx frozen => frozen.trans (step_frozen host tx)) txs

theorem Frozen.price {before after : ContractState} (frozen : Frozen before after)
    (sold : before.contracts ≠ []) (purchase : Purchase) (action : Action) :
    action.price after purchase = action.price before purchase := by
  have listings := frozen.listings sold
  cases action <;> simp only [Action.price, listings]

/-- Vendor, timeout and what purchases keep of their requests never change, nor
do the listings once there is a purchase.  So what is paid for a purchase is
priced by the listings from the time of its request. -/
theorem terms_frozen (start : Host ContractState) (past later : List Transaction) :
    let before := run (step owner) start past
    let after := run (step owner) start (past ++ later)
    after.state.vendor = before.state.vendor ∧ after.state.timeout = before.state.timeout ∧
    before.state.contracts.length ≤ after.state.contracts.length ∧
    (∀ (position : ℕ) (purchase : Purchase),
      before.state.contracts[position]? = some purchase →
      ∃ kept, after.state.contracts[position]? = some kept ∧ kept.buyer = purchase.buyer ∧
        kept.item = purchase.item ∧ kept.notes = purchase.notes) ∧
    (before.state.contracts ≠ [] → after.state.listings = before.state.listings) ∧
    ∀ tx next id action, outcome owner after tx = some next →
      tx.call.target = some (id, action) → asUsize id < before.state.contracts.length →
      ∃ purchase price, after.state.contracts[asUsize id]? = some purchase ∧
        action.price before.state purchase = some price ∧
        next.attempted =
          after.attempted ++ (action.payment before.state purchase price).toList := by
  intro before after
  have frozen : Frozen before.state after.state := by
    simp only [after, run_append]
    exact run_frozen before later
  have longer := frozen.terms.length_le
  rw [List.length_map, List.length_map] at longer
  refine ⟨frozen.vendor, frozen.timeout, longer, ?_, frozen.listings, ?_⟩
  · intro position purchase found
    obtain ⟨kept, located, terms⟩ := frozen.purchase found
    obtain ⟨buyer, rest⟩ := Prod.mk.inj terms
    obtain ⟨item, notes⟩ := Prod.mk.inj rest
    exact ⟨kept, located, buyer, item, notes⟩
  · intro tx next id action returned target requested
    obtain ⟨purchase, found, price, priced, _, _, _, _, host⟩ :=
      (outcome_target target).mp returned
    have sold : before.state.contracts ≠ [] := List.ne_nil_of_length_pos (by omega)
    have priceBefore : action.price after.state purchase = some price := priced
    rw [frozen.price sold] at priceBefore
    have payment : action.payment after.state purchase price =
        action.payment before.state purchase price := by
      cases action <;> simp only [Action.payment, frozen.vendor]
    refine ⟨purchase, price, found, priceBefore, ?_⟩
    rw [host, Host.offering_attempted, ← payment]
    rfl

/-! ## A contract without listings -/

/-- Some run of calls ends with a purchase being requested. -/
def Sells (owner : AccountAddress) (start : Host ContractState) : Prop :=
  ∃ txs tx parameter, tx.call = .requestPurchase parameter ∧
    (outcome owner (run (step owner) start txs) tx).isSome

/-- Every entrypoint looks up a purchase or a listing, and there is neither. -/
theorem outcome_unlisted (unlisted : host.state.listings = []) (unsold : host.state.contracts = [])
    (tx : Transaction) : outcome owner host tx = none := by
  cases returned : outcome owner host tx with
  | none => rfl
  | some after =>
      cases effect_of_outcome returned with
      | requested _ _ _ _ listed =>
          rw [unlisted] at listed
          cases listed
      | acted _ _ _ acts =>
          obtain ⟨_, found, _⟩ := acts
          rw [Host.receiving_state, unsold] at found
          cases found
      | relisted parameters call =>
          obtain ⟨_, listed⟩ := ((outcome_relists call).mp returned).1.listed
          rw [unlisted] at listed
          cases listed

theorem run_unlisted {start : Host ContractState} (unlisted : start.state.listings = [])
    (unsold : start.state.contracts = []) (txs : List Transaction) :
    run (step owner) start txs = start := by
  refine @run_invariant _ _ (step owner) (fun host => host = start) start rfl ?_ txs
  intro host tx same
  rw [same, step, outcome_unlisted unlisted unsold, Option.getD_none]

theorem sells_nothing_unlisted {start : Host ContractState}
    (unlisted : start.state.listings = []) (unsold : start.state.contracts = []) :
    ¬ Sells owner start := by
  intro sells
  obtain ⟨txs, tx, _, _, returns⟩ := sells
  rw [run_unlisted unlisted unsold, outcome_unlisted unlisted unsold] at returns
  cases returns

theorem commerceInit_ok {parameter : Option InitParameter} {state : ContractState} :
    commerceInit parameter = .ok state ↔
      ∃ given, parameter = some given ∧ 0 < given.timeout ∧
        state = { vendor := given.vendor, timeout := given.timeout, contracts := [],
                  listings := [] } := by
  cases parameter with
  | none => simp [commerceInit]
  | some given =>
      by_cases positive : 0 < given.timeout
      · simp [commerceInit, positive, eq_comm]
      · simp [commerceInit, positive]

/-- Whatever the vendor and the timeout, an initialized contract never sells. -/
theorem deployed_sells_nothing {parameter : Option InitParameter} {start : Host ContractState}
    (deployed : commerceInit parameter = .ok start.state) : ¬ Sells owner start := by
  obtain ⟨_, _, _, state⟩ := commerceInit_ok.mp deployed
  refine sells_nothing_unlisted ?_ ?_
  · rw [state]
  · rw [state]

namespace Shop

/-- The shop as its initialization leaves it. -/
def unlisted : Host ContractState :=
  Host.deployed { vendor, timeout := 1, contracts := [], listings := [] }

end Shop

theorem deployed_sells_nothing_shop : ¬ Sells Shop.vendor Shop.unlisted :=
  @deployed_sells_nothing Shop.vendor (some { vendor := Shop.vendor, timeout := 1 }) Shop.unlisted
    rfl

theorem not_sells_shop :
    ∃ state, commerceInit (some { vendor := Shop.vendor, timeout := 1 }) = .ok state ∧
      ¬ Sells Shop.vendor (Host.deployed state) :=
  ⟨_, rfl, sells_nothing_unlisted rfl rfl⟩

end SmartContracts.Commerce
