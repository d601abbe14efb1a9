import SmartContracts.Commerce.Protocol

namespace SmartContracts.Commerce

open SmartContracts.Chain SmartContracts.Semantics

/-! # Who can close a purchase

Some accounts act and all others stay away.  Whether they can bring an open
purchase to an end is decided by its state, its timestamp and its commitment,
and they never get from a purchase they cannot close to one they can.
-/

/-- More than the timeout has passed on the timestamp of the contract. -/
def Overdue (state : ContractState) (timestamp : Timestamp) : Prop :=
  tsfix timestamp > timestamp + state.timeout

/-- The accounts that act can close the purchase. -/
def Closable (acts : AccountAddress → Prop) (state : ContractState) (purchase : Purchase) : Prop :=
  match purchase.state with
  | .null => False
  | .requested => acts purchase.buyer ∨ acts state.vendor
  | .accepted =>
      acts purchase.buyer ∧ Overdue state purchase.timestamp ∨
        acts state.vendor ∧ (acts purchase.buyer ∨ Overdue state (tsfix purchase.timestamp))
  | .delivered => acts purchase.buyer ∨ acts state.vendor ∧ Overdue state purchase.timestamp
  | .dispute => acts state.vendor ∨ acts purchase.buyer ∧ Overdue state purchase.timestamp
  | .counter =>
      acts purchase.buyer ∧ purchase.commit = 0 ∨
        acts state.vendor ∧ Overdue state purchase.timestamp
  | .rejected | .completed | .failed => True

def SentBy (acts : AccountAddress → Prop) (tx : Transaction) : Prop :=
  ∃ account, acts account ∧ tx.sender = .account account

variable {owner : AccountAddress} {acts : AccountAddress → Prop}

theorem closable_of_closed {state : ContractState} {purchase : Purchase}
    (closed : purchase.state.closed = true) : Closable acts state purchase := by
  unfold Closable
  cases stage : purchase.state <;> simp_all [State.closed]

section Step

variable {host after : Host ContractState} {tx : Transaction} {position : ℕ}
  {purchase : Purchase}

/-- An action that leaves a purchase closable found it closable. -/
theorem Action.closable {action : Action} {state : ContractState}
    (party : acts (action.party.account state purchase)) (stage : purchase.state ∈ action.sources)
    (admits : action.Admits state purchase)
    (closable : Closable acts state (action.written purchase)) : Closable acts state purchase := by
  cases action <;>
    simp only [Action.sources, List.mem_cons, List.not_mem_nil, or_false] at stage
  case buyerTimeout | sellerTimeout =>
    rcases stage with stage | stage <;> simp only [Closable, stage] <;>
      simp only [Action.party, Party.account, Action.Admits] at party admits <;>
      tauto
  all_goals
    simp only [Closable, stage]
    simp only [Closable, Action.written, Action.party, Party.account, Action.Admits] at *
    tauto

theorem Effect.closable (effect : Effect host tx after) (sent : SentBy acts tx)
    (found : host.state.contracts[position]? = some purchase) :
    ∃ next, after.state.contracts[position]? = some next ∧
      (Closable acts after.state next → Closable acts host.state purchase) := by
  cases effect with
  | requested _ _ _ _ _ _ _ host =>
      subst host
      have inside := (List.getElem?_eq_some_iff.mp found).1
      exact ⟨purchase, (List.getElem?_append_left inside).trans found, id⟩
  | relisted _ _ _ unsold _ =>
      rw [unsold, List.getElem?_nil] at found
      cases found
  | acted id action _ done =>
      obtain ⟨named, namedFound, price, _, party, stage, _, admits, rfl⟩ := done
      rw [Host.receiving_state] at namedFound party admits
      by_cases own : asUsize id = position
      · subst own
        obtain rfl := Option.some.inj (namedFound.symm.trans found)
        have inside := (List.getElem?_eq_some_iff.mp found).1
        obtain ⟨account, member, sender⟩ := sent
        obtain rfl := Address.account.inj (sender.symm.trans party)
        refine ⟨action.written named, ?_, fun closable => ?_⟩
        · rw [Host.offering_state]
          exact List.getElem?_set_self inside
        · rw [Host.offering_state] at closable
          exact action.closable member stage admits closable
      · refine ⟨purchase, ?_, fun closable => ?_⟩
        · rw [Host.offering_state]
          exact (List.getElem?_set_ne own).trans found
        · rwa [Host.offering_state] at closable

/-- No run of the accounts makes a purchase closable for them. -/
theorem run_closable {txs : List Transaction} (sent : ∀ tx ∈ txs, SentBy acts tx)
    (found : host.state.contracts[position]? = some purchase) :
    ∃ next, (run (step owner) host txs).state.contracts[position]? = some next ∧
      (Closable acts (run (step owner) host txs).state next →
        Closable acts host.state purchase) := by
  induction txs generalizing host purchase with
  | nil => exact ⟨purchase, found, id⟩
  | cons tx rest ih =>
      have later : ∀ other ∈ rest, SentBy acts other :=
        fun other member => sent other (List.mem_cons_of_mem _ member)
      rw [run_cons]
      rcases step_cases owner host tx with same | returned
      · rw [same]
        exact ih later found
      · obtain ⟨middle, middleFound, back⟩ :=
          (effect_of_outcome returned).closable (sent tx List.mem_cons_self) found
        obtain ⟨next, nextFound, further⟩ := ih later middleFound
        exact ⟨next, nextFound, back ∘ further⟩

end Step

/-! ## The calls that close a purchase -/

/-- A call that does this, with nothing in it that is not read. -/
def Action.call (id : UInt64) : Action → Call
  | abort item => .buyerAbort (some { id, item })
  | confirmDelivery => .confirmDelivery (some { id })
  | disputeDelivery commitment => .disputeDelivery (some { id, commitment })
  | buyerTimeout => .buyerCallTimeout (some { id })
  | openCommitment buyerBit => .openCommitment (some { id, buyerBit, nonce := 0 })
  | sellerTimeout => .sellerCallTimeout (some { id })
  | rejectContract => .rejectContract (some { id })
  | acceptContract => .acceptContract (some { id })
  | itemWasDelivered => .itemWasDelivered (some { id })
  | forfeitDispute => .forfeitDispute (some { id })
  | counterDispute randomBit => .counterDispute (some { id, randomBit })

theorem Action.call_target (id : UInt64) (action : Action) :
    (action.call id).target = some (id, action) := by
  cases action <;> rfl

section Forward

variable {host : Host ContractState} {id : UInt64} {purchase : Purchase}

/-- The accounts can close the purchase as they find it. -/
def Closes (owner : AccountAddress) (acts : AccountAddress → Prop) (host : Host ContractState)
    (position : ℕ) : Prop :=
  ∃ txs : List Transaction, (∀ tx ∈ txs, SentBy acts tx) ∧
    ∃ last, (run (step owner) host txs).state.contracts[position]? = some last ∧
      last.state.closed = true

variable (stored : Stored host.state) (found : host.state.contracts[asUsize id]? = some purchase)

include stored found

/-- What one of the accounts may do without money, it can do. -/
theorem acts_free {action : Action} (free : ∀ price, action.wager price = 0)
    (listed : ∀ item, action = .abort item → item = 0)
    (party : acts (action.party.account host.state purchase))
    (stage : purchase.state ∈ action.sources) (admits : action.Admits host.state purchase) :
    ∃ tx, SentBy acts tx ∧ Stored (step owner host tx).state ∧
      (step owner host tx).state = host.state.withContract id (action.written purchase) := by
  obtain ⟨first, head, listing⟩ := stored.listing found
  have quoted : ∃ price, action.price host.state purchase = some price := by
    cases action with
    | abort item =>
        obtain rfl := listed item rfl
        exact ⟨first.itemValue, congrArg (Option.map Item.itemValue) head⟩
    | acceptContract | itemWasDelivered => exact ⟨0, rfl⟩
    | _ => exact ⟨first.itemValue, congrArg (Option.map Item.itemValue) listing⟩
  obtain ⟨price, priced⟩ := quoted
  let tx : Transaction :=
    { sender := .account (action.party.account host.state purchase), slotTime := 0, amount := 0
      call := action.call id }
  have returned := (@outcome_target owner host _ tx id action (action.call_target id)).mpr
    ⟨purchase, found, price, priced, rfl, stage, (free price).symm, admits, rfl⟩
  have stepped : outcome owner host tx = some (step owner host tx) := by
    rw [step, returned, Option.getD_some]
  refine ⟨tx, ⟨_, party, rfl⟩, stored.effect (effect_of_outcome stepped), ?_⟩
  rw [step, returned, Option.getD_some, Host.offering_state]
  rfl

theorem closes_now {action : Action} (free : ∀ price, action.wager price = 0)
    (listed : ∀ item, action = .abort item → item = 0)
    (party : acts (action.party.account host.state purchase))
    (stage : purchase.state ∈ action.sources) (admits : action.Admits host.state purchase)
    (closed : action.target.closed = true) : Closes owner acts host (asUsize id) := by
  obtain ⟨tx, sent, _, after⟩ := @acts_free owner acts host id purchase stored found action free
    listed party stage admits
  have inside := (List.getElem?_eq_some_iff.mp found).1
  refine ⟨[tx], fun other member => ?_, action.written purchase, ?_, ?_⟩
  · rwa [List.mem_singleton.mp member]
  · rw [run_cons, run_nil, after]
    exact List.getElem?_set_self inside
  · rwa [action.written_state]

/-- Delivered goods bring a purchase one step further. -/
theorem closes_delivered (vendor : acts host.state.vendor) (stage : purchase.state = .accepted)
    (further : ∀ next : Host ContractState, Stored next.state →
      next.state = host.state.withContract id (Action.itemWasDelivered.written purchase) →
      Closes owner acts next (asUsize id)) : Closes owner acts host (asUsize id) := by
  obtain ⟨tx, sent, storedAfter, after⟩ := @acts_free owner acts host id purchase stored found
    .itemWasDelivered (fun _ => rfl) (fun _ => nofun) vendor (by simp [Action.sources, stage])
    trivial
  obtain ⟨txs, all, last, lastFound, closed⟩ := further _ storedAfter after
  refine ⟨tx :: txs, fun other member => ?_, last, lastFound, closed⟩
  rcases List.mem_cons.mp member with rfl | later
  · exact sent
  · exact all other later

theorem closes_of_closable (closable : Closable acts host.state purchase) :
    Closes owner acts host (asUsize id) := by
  have now := @closes_now owner acts host id purchase stored found
  have inside := (List.getElem?_eq_some_iff.mp found).1
  cases stage : purchase.state with
  | null => simp [Closable, stage] at closable
  | rejected | completed | failed =>
      exact ⟨[], fun _ none => absurd none List.not_mem_nil, purchase, found, by rw [stage]; rfl⟩
  | requested =>
      simp only [Closable, stage] at closable
      rcases closable with buyer | vendor
      · exact @now (.abort 0) (fun _ => rfl) (fun _ same => (Action.abort.inj same).symm) buyer
          (by simp [Action.sources, stage]) trivial rfl
      · exact @now .rejectContract (fun _ => rfl) (fun _ => nofun) vendor
          (by simp [Action.sources, stage]) trivial rfl
  | delivered =>
      simp only [Closable, stage] at closable
      rcases closable with buyer | ⟨vendor, passes⟩
      · exact @now .confirmDelivery (fun _ => rfl) (fun _ => nofun) buyer
          (by simp [Action.sources, stage]) trivial rfl
      · exact @now .sellerTimeout (fun _ => rfl) (fun _ => nofun) vendor
          (by simp [Action.sources, stage]) passes rfl
  | dispute =>
      simp only [Closable, stage] at closable
      rcases closable with vendor | ⟨buyer, passes⟩
      · exact @now .forfeitDispute (fun _ => rfl) (fun _ => nofun) vendor
          (by simp [Action.sources, stage]) trivial rfl
      · exact @now .buyerTimeout (fun _ => rfl) (fun _ => nofun) buyer
          (by simp [Action.sources, stage]) passes rfl
  | counter =>
      simp only [Closable, stage] at closable
      rcases closable with ⟨buyer, uncommitted⟩ | ⟨vendor, passes⟩
      · exact @now (.openCommitment false) (fun _ => rfl) (fun _ => nofun) buyer
          (by simp [Action.sources, stage]) uncommitted rfl
      · exact @now .sellerTimeout (fun _ => rfl) (fun _ => nofun) vendor
          (by simp [Action.sources, stage]) passes rfl
  | accepted =>
      simp only [Closable, stage] at closable
      rcases closable with ⟨buyer, passes⟩ | ⟨vendor, either⟩
      · exact @now .buyerTimeout (fun _ => rfl) (fun _ => nofun) buyer
          (by simp [Action.sources, stage]) passes rfl
      · refine closes_delivered stored found vendor stage fun next storedNext after => ?_
        have delivered : next.state.contracts[asUsize id]? =
            some (Action.itemWasDelivered.written purchase) := by
          rw [after]
          exact List.getElem?_set_self inside
        rcases either with buyer | passes
        · exact @closes_now owner acts next id _ storedNext delivered .confirmDelivery
            (fun _ => rfl) (fun _ => nofun) buyer (by simp [Action.sources, Action.written])
            trivial rfl
        · exact @closes_now owner acts next id _ storedNext delivered .sellerTimeout
            (fun _ => rfl) (fun _ => nofun) (by rw [after]; exact vendor)
            (by simp [Action.sources, Action.written]) (by rw [after]; exact passes) rfl

end Forward

/-- From every state a run reaches, the accounts can close a purchase just where
its state, its timestamp and its commitment let them. -/
theorem closes_iff {start : Host ContractState} (unsold : start.state.contracts = [])
    (txs : List Transaction) {id : UInt64} {purchase : Purchase} :
    let host := run (step owner) start txs
    host.state.contracts[asUsize id]? = some purchase →
    (Closes owner acts host (asUsize id) ↔ Closable acts host.state purchase) := by
  intro host found
  constructor
  · intro closes
    obtain ⟨more, sent, last, lastFound, closed⟩ := closes
    obtain ⟨next, nextFound, back⟩ := @run_closable owner acts host _ _ more sent found
    obtain rfl := Option.some.inj (nextFound.symm.trans lastFound)
    exact back (closable_of_closed closed)
  · exact closes_of_closable (run_stored unsold txs) found

/-- The vendor who has accepted, alone. -/
theorem closes_iff_accepted :
    let host := run (step Shop.vendor) Shop.start [Shop.requests 1 0 100, Shop.accepts 0]
    ∃ purchase, host.state.contracts[0]? = some purchase ∧
      (Closes Shop.vendor (· = Shop.vendor) host 0 ↔
        Closable (· = Shop.vendor) host.state purchase) := by
  intro host
  have present : host.state.contracts[0]?.isSome = true := by
    decide +kernel
  obtain ⟨purchase, found⟩ := Option.isSome_iff_exists.mp present
  exact ⟨purchase, found, @closes_iff Shop.vendor _ Shop.start rfl _ 0 purchase found⟩

end SmartContracts.Commerce
