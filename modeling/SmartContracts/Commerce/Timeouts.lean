import SmartContracts.Commerce.Solvency

namespace SmartContracts.Commerce

open SmartContracts.Chain SmartContracts.Semantics

/-! # Timeouts

The clock adds to the contract when each purchase was last acted on.  The
contract keeps a timestamp of its own for that: the buyer chooses it, four
calls move it on by ten, and a timeout compares it with itself.
-/

structure Clocked where
  host : Host ContractState
  -- the slot time of the last successful call on a purchase, by its position
  last : ℕ → Timestamp

namespace Clocked

def record (clocked : Clocked) (tx : Transaction) (after : Host ContractState) : Clocked where
  host := after
  last :=
    match tx.call.named clocked.host.state.contracts.length with
    | some position => Function.update clocked.last position tx.slotTime
    | none => clocked.last

def step (owner : AccountAddress) (clocked : Clocked) (tx : Transaction) : Clocked :=
  match outcome owner clocked.host tx with
  | some after => clocked.record tx after
  | none => clocked

theorem run_host (owner : AccountAddress) (clocked : Clocked) (txs : List Transaction) :
    (run (step owner) clocked txs).host = run (Commerce.step owner) clocked.host txs := by
  refine run_map (fun clocked tx => ?_) clocked txs
  unfold step Commerce.step
  cases outcome owner clocked.host tx <;> rfl

end Clocked

/-- More than the timeout has passed since the last call. -/
def Late (timeout : UInt64) (last now : Timestamp) : Prop :=
  last.toNat + timeout.toNat < now.toNat

def Action.timeout : Action → Bool
  | buyerTimeout | sellerTimeout => true
  | _ => false

variable {owner : AccountAddress} {host : Host ContractState} {tx : Transaction} {id : UInt64}
  {action : Action} {purchase : Purchase}

/-- The clock is not read: the stored timestamp alone decides. -/
theorem timeout_isSome (stored : Stored host.state)
    (target : tx.call.target = some (id, action)) (timeout : action.timeout = true)
    (found : host.state.contracts[asUsize id]? = some purchase)
    (party : tx.sender = .account (action.party.account host.state purchase))
    (stage : purchase.state ∈ action.sources) (unpaid : tx.amount = 0) :
    (outcome owner host tx).isSome ↔
      tsfix purchase.timestamp > purchase.timestamp + host.state.timeout := by
  obtain ⟨first, _, listed⟩ := stored.listing found
  have quoted : action.price host.state purchase = some first.itemValue := by
    cases action with
    | buyerTimeout | sellerTimeout => simp only [Action.price, listed, Option.map_some]
    | _ => cases timeout
  have wager : action.wager first.itemValue = 0 := by
    cases action with
    | buyerTimeout | sellerTimeout => rfl
    | _ => cases timeout
  have admits : action.Admits host.state purchase ↔
      tsfix purchase.timestamp > purchase.timestamp + host.state.timeout := by
    cases action with
    | buyerTimeout | sellerTimeout => rfl
    | _ => cases timeout
  rw [Option.isSome_iff_exists, ← admits]
  simp only [outcome_target target]
  constructor
  · intro acted
    obtain ⟨_, named, namedFound, _, _, _, _, _, admits, _⟩ := acted
    cases Option.some.inj (found.symm.trans namedFound)
    exact admits
  · intro admits
    exact ⟨_, purchase, found, first.itemValue, quoted, party, stage, unpaid.trans wager.symm,
      admits, rfl⟩

theorem tsfix_gt_iff {timestamp : Timestamp} {timeout : UInt64}
    (fixes : timestamp.toNat + 10 < 2 ^ 64)
    (ends : timestamp.toNat + timeout.toNat < 2 ^ 64) :
    tsfix timestamp > timestamp + timeout ↔ timeout < 10 := by
  have ten : (10 : UInt64).toNat = 10 := rfl
  rw [gt_iff_lt, UInt64.lt_iff_toNat_lt, UInt64.lt_iff_toNat_lt, tsfix, UInt64.toNat_add,
    UInt64.toNat_add, ten, Nat.mod_eq_of_lt fixes, Nat.mod_eq_of_lt ends]
  omega

/-- A timeout goes by the inactivity of its purchase just where this agrees with
the stored timestamp, hence with the timeout being less than ten. -/
theorem timeout_iff_late {start : Host ContractState} (unsold : start.state.contracts = [])
    (last : ℕ → Timestamp) (txs : List Transaction) :
    let clocked := run (Clocked.step owner) ⟨start, last⟩ txs
    let state := clocked.host.state
    clocked.host = run (step owner) start txs ∧
    ∀ id action purchase tx, tx.call.target = some (id, action) → action.timeout = true →
      state.contracts[asUsize id]? = some purchase →
      tx.sender = .account (action.party.account state purchase) →
      purchase.state ∈ action.sources → tx.amount = 0 →
      let late := Late state.timeout (clocked.last (asUsize id)) tx.slotTime
      let passes := tsfix purchase.timestamp > purchase.timestamp + state.timeout
      (((outcome owner clocked.host tx).isSome ↔ late) ↔
        (late ∧ passes) ∨ (¬ late ∧ ¬ passes)) ∧
      (purchase.timestamp.toNat + 10 < 2 ^ 64 →
        purchase.timestamp.toNat + state.timeout.toNat < 2 ^ 64 →
        (passes ↔ state.timeout < 10)) := by
  intro clocked state
  have host := Clocked.run_host owner ⟨start, last⟩ txs
  refine ⟨host, ?_⟩
  intro id action purchase tx target timeout found party stage unpaid late passes
  have stored : Stored clocked.host.state := host ▸ run_stored unsold txs
  refine ⟨?_, tsfix_gt_iff⟩
  rw [timeout_isSome stored target timeout found party stage unpaid]
  exact iff_comm.trans iff_iff_and_or_not_and_not

namespace Shop

/-- The buyer 1 calls for a timeout of the first purchase. -/
def times (slotTime : Timestamp) : Transaction :=
  { send 1 0 (.buyerCallTimeout (some { id := 0 })) with slotTime }

def accepted : Clocked :=
  run (Clocked.step vendor) ⟨start, fun _ => 0⟩ [requests 1 0 100, accepts 0]

end Shop

theorem timeout_iff_late_shop :
    (outcome Shop.vendor Shop.accepted.host (Shop.times 5)).isSome ↔
      Late Shop.accepted.host.state.timeout (Shop.accepted.last 0) 5 := by
  have reached : ∀ clocked, Shop.accepted = clocked →
      clocked.host.state.contracts[asUsize 0]?.map
        (fun purchase => (purchase.state, purchase.buyer, purchase.timestamp)) =
          some (.accepted, .ofByte 1, 10) ∧
      clocked.host.state.timeout = 1 ∧ clocked.last (asUsize 0) = 0 := by
    rintro _ rfl
    decide +kernel
  obtain ⟨first, timeout, last⟩ := reached _ rfl
  obtain ⟨purchase, found, same⟩ := Option.map_eq_some_iff.mp first
  obtain ⟨stage, rest⟩ := Prod.mk.inj same
  obtain ⟨buyer, timestamp⟩ := Prod.mk.inj rest
  have exact := ((@timeout_iff_late Shop.vendor Shop.start rfl (fun _ => 0)
    [Shop.requests 1 0 100, Shop.accepts 0]).2 0 .buyerTimeout purchase (Shop.times 5) rfl rfl
    found (congrArg Address.account buyer.symm) (by simp [stage, Action.sources]) rfl).1
  refine exact.mpr (.inl ⟨?_, ?_⟩)
  · change Late Shop.accepted.host.state.timeout (Shop.accepted.last (asUsize 0)) 5
    rw [timeout, last, Late]
    decide
  · change tsfix purchase.timestamp > purchase.timestamp + Shop.accepted.host.state.timeout
    rw [timeout, timestamp]
    decide

/-- The purchase has just been accepted, at the time at which its timeout is
called with success. -/
theorem not_timeout_iff_late :
    Shop.start.state.contracts = [] ∧ 0 < Shop.start.state.timeout ∧
    (outcome Shop.vendor Shop.accepted.host (Shop.times 0)).isSome = true ∧
    Shop.accepted.host.state.purchases = [.accepted] ∧
    ¬ Late Shop.accepted.host.state.timeout (Shop.accepted.last 0) 0 := by
  refine ⟨rfl, by decide, ?_, ?_, ?_⟩
  · decide +kernel
  · decide +kernel
  · exact Nat.not_lt_zero _

end SmartContracts.Commerce
