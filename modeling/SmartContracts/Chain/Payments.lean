import SmartContracts.Chain.Host

namespace SmartContracts.Chain

open SmartContracts.Semantics

/-! # Paying a list of accounts

A loop of transfers, each followed by `?`, goes through exactly when no payee
is missing and the balance covers the sum.  `Host.paid` is the host it leaves.
-/

abbrev Payments := List (AccountAddress × Amount)

def Payments.total (payments : Payments) : ℕ := (payments.map (·.2.toNat)).sum

@[simp] theorem Payments.total_nil : Payments.total [] = 0 := rfl

@[simp] theorem Payments.total_cons (payment : AccountAddress × Amount) (rest : Payments) :
    Payments.total (payment :: rest) = payment.2.toNat + rest.total := by
  simp [Payments.total]

variable {first second : Payments}

theorem Payments.total_append :
    Payments.total (first ++ second) = first.total + second.total := by
  simp [Payments.total]

theorem Payments.total_perm (permuted : first.Perm second) : first.total = second.total := by
  unfold Payments.total
  exact (permuted.map _).sum_eq

/-- The same amount to each of some accounts. -/
def Payments.equal (accounts : List AccountAddress) (amount : Amount) : Payments :=
  accounts.map (fun account => (account, amount))

@[simp] theorem Payments.total_equal (accounts : List AccountAddress) (amount : Amount) :
    (Payments.equal accounts amount).total = accounts.length * amount.toNat := by
  simp [Payments.equal, Payments.total, Function.comp_def]

namespace Host

variable {σ : Type} {host : Host σ}

structure CanPay (host : Host σ) (payments : Payments) : Prop where
  exist : ∀ payment ∈ payments, payment.1 ∉ host.missingAccounts
  covered : payments.total ≤ host.balance

def paid (host : Host σ) (payments : Payments) : Host σ :=
  { host with
    balance := host.balance - payments.total
    transfers := host.transfers ++ payments
    attempted := host.attempted ++ payments }

theorem paid_nil : host.paid [] = host := by
  simp [paid]

theorem paid_paid : (host.paid first).paid second = host.paid (first ++ second) := by
  simp [paid, Payments.total_append, Nat.sub_sub]

theorem canPay_nil : host.CanPay [] := ⟨by simp, by simp⟩

theorem canPay_append :
    host.CanPay (first ++ second) ↔ host.CanPay first ∧ (host.paid first).CanPay second := by
  constructor
  · intro both
    have covered := both.covered
    rw [Payments.total_append] at covered
    refine ⟨⟨fun payment member => both.exist payment (by simp [member]), by omega⟩,
      ⟨fun payment member => both.exist payment (by simp [member]), ?_⟩⟩
    change second.total ≤ host.balance - first.total
    omega
  · intro ⟨left, right⟩
    have leftCovered := left.covered
    have rightCovered : second.total ≤ host.balance - first.total := right.covered
    refine ⟨fun payment member => ?_, by rw [Payments.total_append]; omega⟩
    rcases List.mem_append.mp member with inFirst | inSecond
    · exact left.exist payment inFirst
    · exact right.exist payment inSecond

theorem canPay_cons {payment : AccountAddress × Amount} {rest : Payments} :
    host.CanPay (payment :: rest) ↔ host.CanPay [payment] ∧ (host.paid [payment]).CanPay rest := by
  rw [← canPay_append, List.singleton_append]

theorem transferResult_ok_iff {receiver : AccountAddress} {amount : Amount} :
    host.transferResult receiver amount = .ok () ↔ host.CanPay [(receiver, amount)] := by
  rw [transferResult_ok]
  constructor
  · intro ⟨present, covered⟩
    exact ⟨by simpa using present, by simpa using covered⟩
  · intro payable
    exact ⟨payable.exist (receiver, amount) (by simp), by simpa using payable.covered⟩

theorem afterTransfer_eq_paid {receiver : AccountAddress} {amount : Amount}
    (payable : host.CanPay [(receiver, amount)]) :
    host.afterTransfer receiver amount = host.paid [(receiver, amount)] := by
  rw [afterTransfer_of_ok (transferResult_ok_iff.mpr payable)]
  simp [paid]

/-! At most one payment whose outcome the caller does not look at. -/

def offering (host : Host σ) : Option (AccountAddress × Amount) → Host σ
  | none => host
  | some (receiver, amount) => host.afterTransfer receiver amount

variable {payment : Option (AccountAddress × Amount)}

@[simp] theorem offering_state : (host.offering payment).state = host.state := by
  cases payment <;> simp [offering]

@[simp] theorem offering_missingAccounts :
    (host.offering payment).missingAccounts = host.missingAccounts := by
  cases payment <;> simp [offering]

@[simp] theorem offering_attempted :
    (host.offering payment).attempted = host.attempted ++ payment.toList := by
  cases payment <;> simp [offering]

/-- Either the payment goes through or the balance stays. -/
theorem offering_balance :
    (host.offering payment).balance = host.balance ∨
      ∃ receiver amount, payment = some (receiver, amount) ∧
        (host.offering payment).balance = host.balance - amount.toNat := by
  cases payment with
  | none => exact .inl rfl
  | some payment =>
      obtain ⟨receiver, amount⟩ := payment
      cases result : host.transferResult receiver amount with
      | ok completed =>
          refine .inr ⟨receiver, amount, rfl, ?_⟩
          rw [offering, afterTransfer_of_ok result]
      | error failure => simp [offering, afterTransfer, result]

/-- A payment that was transferred came out of the balance. -/
theorem balance_of_transferred
    (transferred : (host.offering payment).transfers = host.transfers ++ payment.toList) :
    (host.offering payment).balance + Payments.total payment.toList = host.balance := by
  cases payment with
  | none => rfl
  | some payment =>
      obtain ⟨receiver, amount⟩ := payment
      cases result : host.transferResult receiver amount with
      | ok completed =>
          have covered := (transferResult_ok.mp result).2
          rw [offering, afterTransfer_of_ok result]
          exact Nat.sub_add_cancel covered
      | error failure => simp [offering, afterTransfer, result] at transferred

end Host

namespace Receive

variable {ε σ α : Type} {before after : Host σ} {convert : TransferError → ε}

/-- `for (account, amount) in payments { host.invoke_transfer(account, amount)?; }` -/
def payAll (convert : TransferError → ε) : Payments → Receive ε σ Unit
  | [] => pure ()
  | (account, amount) :: rest => do
      transfer convert account amount
      payAll convert rest

theorem transfer_ok {account : AccountAddress} {amount : Amount} {result : Unit} :
    (transfer convert account amount : Receive ε σ Unit).run before = .ok result after ↔
      before.CanPay [(account, amount)] ∧ after = before.paid [(account, amount)] := by
  rw [transfer_ok_iff, Host.transferResult_ok_iff]
  constructor
  · intro ⟨payable, transferred⟩
    exact ⟨payable, transferred.trans (Host.afterTransfer_eq_paid payable)⟩
  · intro ⟨payable, paid⟩
    exact ⟨payable, paid.trans (Host.afterTransfer_eq_paid payable).symm⟩

theorem pay_ok {account : AccountAddress} {amount : Amount} {rest : Receive ε σ α}
    {result : α} :
    (transfer convert account amount >>= fun _ => rest).run before = .ok result after ↔
      before.CanPay [(account, amount)] ∧
        rest.run (before.paid [(account, amount)]) = .ok result after := by
  simp only [bind_ok, transfer_ok]
  constructor
  · intro ⟨_, _, ⟨payable, paid⟩, remaining⟩
    exact ⟨payable, paid ▸ remaining⟩
  · intro ⟨payable, remaining⟩
    exact ⟨(), _, ⟨payable, rfl⟩, remaining⟩

theorem payAll_ok {payments : Payments} :
    (payAll convert payments : Receive ε σ Unit).run before = .ok () after ↔
      before.CanPay payments ∧ after = before.paid payments := by
  induction payments generalizing before with
  | nil => simp [payAll, Host.paid_nil, Host.canPay_nil, eq_comm]
  | cons payment rest ih =>
      rw [payAll, pay_ok, ih, Host.paid_paid, ← and_assoc, ← Host.canPay_append]
      rfl

end Receive

end SmartContracts.Chain
