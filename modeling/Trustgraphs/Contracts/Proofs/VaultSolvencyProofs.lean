import Trustgraphs.Contracts.Proofs.VaultRunProofs

/-!
# The vault is solvent

At every point of every run, also while a call waits for code of others, the vault has at least the
ETH and the USDC that its accounts hold and that it owes (`run_solvent`).
-/

namespace Trustgraphs.ProvingVault

open Outcome Function CallStack Evm

section

attribute [local instance] FixedBytes.fintype

variable {H : Hashes} {imm : Immutables} {env : Env} {w w' : World} {instanceId : B256} {payee : Address}

section Underflow

variable {α β : Type}

def NoUnderflow (x : Result α) : Prop := x ≠ .error .underflow

theorem NoUnderflow.ok (a : α) : NoUnderflow (.ok a) := fun h => (nomatch h)

theorem NoUnderflow.error {e : Revert} (h : e ≠ .underflow) : NoUnderflow (.error e : Result α) :=
  fun he => h (Except.error.inj he)

theorem NoUnderflow.bind {x : Result α} {f : α → Result β} (hx : NoUnderflow x)
    (hf : ∀ a, x = .ok a → NoUnderflow (f a)) : NoUnderflow (x >>= f) := by
  intro h
  rcases bind_eq_error.mp h with h | ⟨a, ha, h⟩
  · exact hx h
  · exact hf a ha h

theorem NoUnderflow.ite {c : Prop} [Decidable c] {x y : Result α} (hx : c → NoUnderflow x)
    (hy : ¬ c → NoUnderflow y) : NoUnderflow (if c then x else y) := by
  by_cases h : c
  · rw [if_pos h]
    exact hx h
  · rw [if_neg h]
    exact hy h

theorem NoUnderflow.arith {x : Option α} : NoUnderflow (arith x) := by
  cases x with
  | none => exact .error (by simp)
  | some a => exact .ok a

theorem NoUnderflow.minus {n : ℕ} {a b : BitVec n} (h : b.toNat ≤ a.toNat) : NoUnderflow (minus a b) := by
  rw [Evm.minus, Checked.sub, if_pos h]
  exact .ok _

theorem NoUnderflow.quotient {a b : U256} : NoUnderflow (quotient a b) :=
  .ite (fun _ => .error (by simp)) fun _ => .ok _

theorem NoUnderflow.surplus {a b : U256} : NoUnderflow (surplus a b) := by
  refine .ite (fun h => .minus ?_) fun _ => .ok _
  rw [BitVec.lt_def] at h
  exact h.le

theorem NoUnderflow.get {x : Answer α} : NoUnderflow x.get := by
  cases x with
  | value a => exact .ok a
  | reverted => exact .error (by simp)
  | undecodable => exact .error (by simp)

theorem NoUnderflow.tryGet {x : Answer α} : NoUnderflow x.tryGet := by
  cases x with
  | value a => exact .ok _
  | reverted => exact .ok _
  | undecodable => exact .error (by simp)

theorem NoUnderflow.revert {e : Error} : NoUnderflow (.error (.error e) : Result α) := .error (by simp)

end Underflow

theorem NoUnderflow.nonReentrant {f : World → Result World} (h : ∀ w, NoUnderflow (f w)) :
    NoUnderflow (w.nonReentrant f) := by
  refine .ite (fun _ => .error (by simp)) fun _ he => ?_
  exact h _ (map_eq_error.mp he)

theorem NoUnderflow.onlyConstitutional : NoUnderflow (onlyConstitutional env w instanceId) :=
  .ite (fun _ => .revert) fun _ => .bind .get fun _ _ => .ite (fun _ => .ok _) fun _ => .revert

theorem NoUnderflow.resolve : NoUnderflow (resolve env instanceId) := by
  refine .bind .get fun record _ => .ite (fun _ => .revert) fun _ => .bind ?_ fun _ _ => .ok _
  exact .bind .get fun _ _ => .ite (fun _ => .ok _) fun _ => .revert

theorem NoUnderflow.bindAccount : NoUnderflow (bindAccount env w instanceId) :=
  .ite (fun _ => .ok _) fun _ => .bind .resolve fun _ _ => .ok _

variable {checkpointId : ℕ} {a : Account} {ethUsdPrice : U256}

theorem NoUnderflow.sizeOf {snapshot : Address} : NoUnderflow (sizeOf env snapshot checkpointId) := by
  refine .bind .tryGet fun accumulator _ => ?_
  cases accumulator with
  | none => exact .ok _
  | some accumulator =>
    refine .bind .tryGet fun checkpoint _ => ?_
    cases checkpoint with
    | none => exact .ok _
    | some checkpoint =>
      refine .bind .tryGet fun anchors _ => ?_
      cases anchors with
      | none => exact .ok _
      | some anchors =>
        refine .bind .tryGet fun work _ => ?_
        cases work with
        | none => exact .ok _
        | some work => exact .ok _

theorem NoUnderflow.termsOf :
    NoUnderflow (termsOf env w instanceId a checkpointId) := .bind .sizeOf fun _ _ => .ok _

theorem NoUnderflow.acceptedStatement {snapshot : Address} :
    NoUnderflow (acceptedStatement H env snapshot checkpointId) :=
  .bind .get fun _ _ => .bind .get fun _ _ => .bind .get fun _ _ => .bind .get fun _ _ => .ok _

theorem NoUnderflow.ethUsd : NoUnderflow (ethUsd imm env w) := by
  refine .bind .tryGet fun answer _ => ?_
  cases answer with
  | none => exact .ok _
  | some answer =>
    refine .ite (fun _ => .ok _) fun _ => .ite (fun _ => .ok _) fun _ => .ite (fun _ => .ok _) fun h => ?_
    rw [not_or, BitVec.lt_def, not_lt] at h
    exact .bind (.minus h.2) fun _ _ => .ite (fun _ => .ok _) fun _ => .ok _

theorem NoUnderflow.quoteLegs {t : Terms} {band : UInt8} {gasUsed : U256} :
    NoUnderflow (quoteLegs env w t band gasUsed ethUsdPrice) := by
  refine .bind (.bind .arith fun _ _ => .quotient) fun units _ => .ite (fun _ => .ok _) fun _ => ?_
  exact .bind (.bind .arith fun _ _ => .bind .arith fun _ _ => .quotient) fun _ _ =>
    .bind .surplus fun _ _ => .ok _

theorem NoUnderflow.payableUsd : NoUnderflow (payableUsd a ethUsdPrice) := by
  refine .bind .arith fun _ _ => .bind .quotient fun _ _ => .ite (fun _ => ?_) fun _ => .ok _
  exact .bind .arith fun _ _ => .bind .quotient fun _ _ => .arith

theorem NoUnderflow.pay {usdAmount : U256} :
    NoUnderflow (pay imm w instanceId payee usdAmount ethUsdPrice) := by
  refine .ite (fun _ => .ok _) fun _ => .bind ?_ fun r _ => ?_
  · refine .ite (fun _ => .ok _) fun _ => .bind .arith fun _ _ => .bind .quotient fun wantWei _ => ?_
    refine .ite (fun _ => .ok _) fun _ => .bind (.minus ?_) fun _ _ => .bind .arith fun _ _ =>
      .bind .arith fun _ _ => .bind .quotient fun _ _ => .bind .surplus fun _ _ => .ok _
    rw [toNat_narrow (toNat_atMost rfl)]
    exact toNat_atMost rfl
  · refine .ite (fun _ => .ok _) fun _ => .bind .arith fun _ _ => .bind .quotient fun wantUsdc _ => ?_
    refine .ite (fun _ => .ok _) fun _ => .bind (.minus ?_) fun _ _ => .bind .arith fun _ _ =>
      .bind .arith fun _ _ => .bind .quotient fun _ _ => .bind .arith fun _ _ => .ok _
    rw [toNat_narrow (toNat_atMost rfl)]
    exact toNat_atMost rfl

theorem NoUnderflow.skip {minPayoutUsd : U256} : NoUnderflow (skip w minPayoutUsd) :=
  .ite (fun _ => .revert) fun _ => .ok _

theorem NoUnderflow.settle {t : Terms} {recipient : Address} {gasUsed minPayoutUsd : U256} :
    NoUnderflow (settle H imm env w instanceId t checkpointId recipient gasUsed minPayoutUsd) := by
  refine .ite (fun _ => .skip) fun _ => .ite (fun _ => .skip) fun _ => .ite (fun _ => .skip) fun _ =>
    .ite (fun _ => .skip) fun _ => .bind .ethUsd fun price _ => ?_
  cases price with
  | none => exact .skip
  | some ethUsdPrice =>
    refine .bind .quoteLegs fun _ _ => .bind .arith fun _ _ => .bind .payableUsd fun _ _ =>
      .ite (fun _ => .revert) fun _ => .bind .pay fun _ _ => .bind .pay fun _ _ => .bind .arith fun _ _ =>
        .bind .arith fun _ _ => .ite (fun _ => .ok _) fun _ => .bind .skip fun _ _ => .ok _

theorem NoUnderflow.sendUSDC {amount : ℕ} : NoUnderflow (sendUSDC imm env w payee amount) :=
  .ite (fun _ => .ok _) fun _ => .ite (fun _ => .error (by simp)) fun _ => .ite (fun _ => .ok _) fun _ => .ok _

theorem NoUnderflow.debitWithdrawal : NoUnderflow (debitWithdrawal imm env w instanceId payee) := by
  refine .bind .onlyConstitutional fun _ _ => .ite (fun _ => .revert) fun _ => .ite (fun _ => .revert) fun _ =>
    .ite (fun _ => .revert) fun _ => .bind (.minus (toNat_min rfl).1) fun _ _ =>
      .bind (.minus (toNat_min rfl).1) fun _ _ => .bind .sendUSDC fun _ _ => .ok _

theorem ended_ne_underflow {r : Result World} (h : NoUnderflow r) :
    (ended r : Turn World Waiting Revert) ≠ .reverted .underflow := by
  cases r with
  | ok w => rintro ⟨⟩
  | error e =>
    intro he
    exact h (by rw [Turn.reverted.inj he])

theorem sendETH_ne_underflow {amount : ℕ} : sendETH imm w payee amount ≠ .reverted .underflow := by
  rw [sendETH]
  by_cases h : payee = imm.address ∨ w.ethBalance < amount
  · rw [if_pos h]
    rintro ⟨⟩
  · rw [if_neg h]
    rintro ⟨⟩

/-- No first turn of a call fails for an underflow. -/
theorem enter_no_underflow (H : Hashes) (imm : Immutables) (i : Env × Call) (w : World) :
    enter H imm i w ≠ .reverted .underflow := by
  obtain ⟨env, call⟩ := i
  rw [enter]
  by_cases hself : env.msgSender = imm.address
  · rw [if_pos hself]
    rintro ⟨⟩
  rw [if_neg hself]
  cases call with
  | depositETH instanceId msgValue =>
    refine ended_ne_underflow (.ite (fun _ => .revert) fun _ => .bind .bindAccount fun _ _ => ?_)
    exact .bind .arith fun _ _ => .ok _
  | depositUSDC instanceId amount =>
    refine ended_ne_underflow (.ite (fun _ => .revert) fun _ => .bind .bindAccount fun w₁ _ => ?_)
    refine .ite (fun _ => .error (by simp)) fun _ => .ite (fun hlt => ?_) fun _ => .ite (fun _ => .revert) fun _ =>
      .bind .arith fun _ _ => .ok _
    exact absurd hlt (not_lt.mpr (Nat.le_add_right _ _))
  | migrate instanceId =>
    exact ended_ne_underflow (.nonReentrant fun _ => .bind .onlyConstitutional fun _ _ =>
      .bind .resolve fun _ _ => .ite (fun _ => .revert) fun _ => .ok _)
  | submitAndClaim instanceId args =>
    have hstart : NoUnderflow (submitStart env w instanceId args) :=
      .ite (fun _ => .error (by simp)) fun _ => .ite (fun _ => .revert) fun _ =>
        .bind (.ite (fun _ => .revert) fun _ => .ok _) fun _ _ => .bind .termsOf fun _ _ => .ok _
    dsimp only
    cases hs : submitStart env w instanceId args with
    | ok r => rintro ⟨⟩
    | error e =>
      intro he
      exact hstart (by rw [hs, Turn.reverted.inj he])
  | claim instanceId checkpointId =>
    refine ended_ne_underflow (.nonReentrant fun w => .ite (fun _ => .revert) fun _ => ?_)
    refine .bind (.ite (fun _ => .revert) fun _ => .ok _) fun _ _ => .bind .get fun _ _ =>
      .ite (fun _ => .revert) fun _ => .bind .get fun _ _ => .ite (fun _ => .revert) fun _ =>
        .bind .get fun _ _ => .ite (fun _ => .revert) fun _ => .bind .termsOf fun _ _ =>
          .bind .acceptedStatement fun _ _ => .bind .settle fun _ _ => .ok _
  | setFeePerRootUsd program band usdPerRoot =>
    exact ended_ne_underflow (.ite (fun _ => .error (by simp)) fun _ => .ite (fun _ => .revert) fun _ => .ok _)
  | setGasParams maxUnits nominalUnits =>
    exact ended_ne_underflow (.ite (fun _ => .error (by simp)) fun _ => .ite (fun _ => .revert) fun _ => .ok _)
  | setPolicy instanceId minPaidIntervalBlocks maxPerRootUsd =>
    exact ended_ne_underflow (.nonReentrant fun _ => .bind .onlyConstitutional fun _ _ => .ok _)
  | requestWithdrawal instanceId ethAmount usdcAmount =>
    exact ended_ne_underflow (.nonReentrant fun _ => .bind .onlyConstitutional fun _ _ =>
      .ite (fun _ => .revert) fun _ => .ite (fun _ => .revert) fun _ => .bind .arith fun _ _ =>
        .bind .arith fun _ _ => .ite (fun _ => .error (by simp)) fun _ => .ok _)
  | cancelWithdrawal instanceId =>
    exact ended_ne_underflow (.nonReentrant fun _ => .bind .onlyConstitutional fun _ _ =>
      .ite (fun _ => .revert) fun _ => .ok _)
  | executeWithdrawal instanceId payee =>
    show executeWithdrawal imm env w instanceId payee ≠ _
    rw [executeWithdrawal]
    by_cases hentered : w.entered
    · rw [if_pos hentered]
      rintro ⟨⟩
    rw [if_neg hentered]
    cases hd : debitWithdrawal imm env { w with entered := true } instanceId payee with
    | error e =>
      intro he
      exact NoUnderflow.debitWithdrawal (hd.trans (congrArg Except.error (Turn.reverted.inj he)))
    | ok r =>
      dsimp only
      by_cases hzero : r.2 ≠ 0
      · rw [if_pos hzero]
        exact sendETH_ne_underflow
      · rw [if_neg hzero]
        rintro ⟨⟩
  | withdrawCredit token payee =>
    show withdrawCredit imm env w token payee ≠ _
    rw [withdrawCredit]
    by_cases hentered : w.entered
    · rw [if_pos hentered]
      rintro ⟨⟩
    rw [if_neg hentered]
    dsimp only
    by_cases hzero : w.credit env.msgSender token = 0
    · rw [if_pos hzero]
      rintro ⟨⟩
    rw [if_neg hzero]
    by_cases hpayee : payee = 0
    · rw [if_pos hpayee]
      rintro ⟨⟩
    rw [if_neg hpayee]
    by_cases heth : token = ETH
    · rw [if_pos heth]
      exact sendETH_ne_underflow
    rw [if_neg heth]
    by_cases husdc : token = imm.usdc
    · rw [if_pos husdc]
      cases hs : sendUSDC imm env ((w.lock true).setCredit env.msgSender token 0) payee
          (w.credit env.msgSender token).toNat with
      | ok w₁ =>
        erw [hs]
        rintro ⟨⟩
      | error e =>
        erw [hs]
        intro he
        exact NoUnderflow.sendUSDC (hs.trans (congrArg Except.error (Turn.reverted.inj he)))
    · rw [if_neg husdc]
      rintro ⟨⟩
  | setRoles isFeeSetter => rintro ⟨⟩

theorem resume_no_underflow (H : Hashes) (imm : Immutables) (k : Waiting) (a : Option Return) (w : World) :
    resume H imm k a w ≠ .reverted .underflow := by
  cases k with
  | sendingETH =>
    cases a with
    | none => rintro ⟨⟩
    | some r => rintro ⟨⟩
  | sendingToken =>
    cases a with
    | none => rintro ⟨⟩
    | some r => rintro ⟨⟩
  | submitting env instanceId args t =>
    cases a with
    | none => rintro ⟨⟩
    | some r =>
      refine ended_ne_underflow (.bind .get fun _ _ => .ite (fun _ => ?_) fun _ => .bind .get fun _ _ =>
        .ite (fun _ => ?_) fun _ => ?_)
      · exact .bind .get fun _ _ => .revert
      · exact .bind .get fun _ _ => .revert
      · exact .bind .acceptedStatement fun _ _ => .bind .settle fun _ _ => .ok _

/-- The vault has what its accounts hold and what it owes. -/
structure Solvent (imm : Immutables) (w : World) : Prop where
  eth : ∑ instanceId, w.ethOf instanceId + ∑ account, w.owed account ETH ≤ w.ethBalance
  usdc : ∑ instanceId, w.usdcOf instanceId + ∑ account, w.owed account imm.usdc ≤ w.usdcBalance

theorem Solvent.congr (h : Solvent imm w) (haccounts : w'.accounts = w.accounts) (hcredit : w'.credit = w.credit)
    (heth : w.ethBalance ≤ w'.ethBalance) (husdc : w.usdcBalance ≤ w'.usdcBalance) : Solvent imm w' where
  eth := by
    refine le_trans ?_ heth
    simp only [World.ethOf, World.owed, haccounts, hcredit]
    exact h.eth
  usdc := by
    refine le_trans ?_ husdc
    simp only [World.usdcOf, World.owed, haccounts, hcredit]
    exact h.usdc

theorem ethOf_update (h : w'.accounts = update w.accounts instanceId a) (i : B256) :
    w'.ethOf i = if i = instanceId then a.ethBalance.toNat else w.ethOf i := by
  rw [World.ethOf, h]
  by_cases hi : i = instanceId
  · rw [if_pos hi, hi, update_self]
  · rw [if_neg hi, update_of_ne hi]
    rfl

theorem usdcOf_update (h : w'.accounts = update w.accounts instanceId a) (i : B256) :
    w'.usdcOf i = if i = instanceId then a.usdcBalance.toNat else w.usdcOf i := by
  rw [World.usdcOf, h]
  by_cases hi : i = instanceId
  · rw [if_pos hi, hi, update_self]
  · rw [if_neg hi, update_of_ne hi]
    rfl

theorem sum_ethOf (w w' : World) (instanceId : B256) {x y : ℕ}
    (h : w'.accounts = update w.accounts instanceId a) (hx : a.ethBalance.toNat + y = w.ethOf instanceId + x) :
    ∑ i, w'.ethOf i + y = ∑ i, w.ethOf i + x := by
  have hgrown : ∑ i, (w.ethOf i + if i = instanceId then x else 0) = ∑ i, w.ethOf i + x :=
    Ledger.sum_grown fun _ => rfl
  have hshrunk : ∑ i, w'.ethOf i + y = ∑ i, (w.ethOf i + if i = instanceId then x else 0) := by
    refine Ledger.sum_shrunk (k := instanceId) fun i => ?_
    rw [ethOf_update h]
    by_cases hi : i = instanceId
    · rw [if_pos hi, if_pos hi, if_pos hi, hi, hx]
    · rw [if_neg hi, if_neg hi, if_neg hi]
  exact hshrunk.trans hgrown

theorem sum_usdcOf (w w' : World) (instanceId : B256) {x y : ℕ}
    (h : w'.accounts = update w.accounts instanceId a)
    (hx : a.usdcBalance.toNat + y = w.usdcOf instanceId + x) :
    ∑ i, w'.usdcOf i + y = ∑ i, w.usdcOf i + x := by
  have hgrown : ∑ i, (w.usdcOf i + if i = instanceId then x else 0) = ∑ i, w.usdcOf i + x :=
    Ledger.sum_grown fun _ => rfl
  have hshrunk : ∑ i, w'.usdcOf i + y = ∑ i, (w.usdcOf i + if i = instanceId then x else 0) := by
    refine Ledger.sum_shrunk (k := instanceId) fun i => ?_
    rw [usdcOf_update h]
    by_cases hi : i = instanceId
    · rw [if_pos hi, if_pos hi, if_pos hi, hi, hx]
    · rw [if_neg hi, if_neg hi, if_neg hi]
  exact hshrunk.trans hgrown

theorem Paid.solvent {paid : Payment} (hne : imm.usdc ≠ ETH) (hpaid : Paid imm instanceId payee paid w w')
    (h : Solvent imm w) : Solvent imm w' := by
  obtain ⟨eth, usdc, haccounts⟩ := hpaid.account
  have hethBalance : w'.ethBalance = w.ethBalance := by rw [hpaid.frame]
  have husdcBalance : w'.usdcBalance = w.usdcBalance := by rw [hpaid.frame]
  have hethOf := ethOf_update haccounts instanceId
  have husdcOf := usdcOf_update haccounts instanceId
  rw [if_pos rfl] at hethOf husdcOf
  refine ⟨?_, ?_⟩
  · have hcredit : ∑ a, w'.owed a ETH = ∑ a, w.owed a ETH + paid.ethSpent.toNat := by
      refine Ledger.sum_grown (k := payee) fun a => ?_
      have hother : ¬ (a = payee ∧ ETH = imm.usdc) := fun hand => hne hand.2.symm
      rw [hpaid.credit, if_neg hother, Nat.add_zero]
      simp
    have haccount := sum_ethOf w w' instanceId (x := 0) (y := paid.ethSpent.toNat) haccounts (by
      rw [← hethOf]
      exact hpaid.eth)
    have hbefore := h.eth
    omega
  · have hcredit : ∑ a, w'.owed a imm.usdc = ∑ a, w.owed a imm.usdc + paid.usdcSpent.toNat := by
      refine Ledger.sum_grown (k := payee) fun a => ?_
      have hother : ¬ (a = payee ∧ imm.usdc = ETH) := fun hand => hne hand.2
      rw [hpaid.credit, if_neg hother, Nat.add_zero]
      simp
    have haccount := sum_usdcOf w w' instanceId (x := 0) (y := paid.usdcSpent.toNat) haccounts (by
      rw [← husdcOf]
      exact hpaid.usdc)
    have hbefore := h.usdc
    omega

theorem Opened.solvent {call : Call} (hopened : Opened imm w call w') (h : Solvent imm w) : Solvent imm w' := by
  have hethBefore := h.eth
  have husdcBefore := h.usdc
  cases hopened with
  | fees => exact h.congr rfl rfl le_rfl le_rfl
  | depositedETH instanceId msgValue snapshot program amount eth heth =>
    set v := ({ w with ethBalance := w.ethBalance + amount.toNat }.setAccount instanceId
      ⟨snapshot, program, eth, (w.accounts instanceId).usdcBalance⟩).note
        (.deposited instanceId ETH amount) with hv
    have hethSum := sum_ethOf w v instanceId (x := amount.toNat) (y := 0) rfl heth
    have husdcSum := sum_usdcOf w v instanceId (x := 0) (y := 0) rfl rfl
    refine ⟨?_, ?_⟩
    · show ∑ i, v.ethOf i + ∑ a, w.owed a ETH ≤ w.ethBalance + amount.toNat
      omega
    · show ∑ i, v.usdcOf i + ∑ a, w.owed a imm.usdc ≤ w.usdcBalance
      omega
  | depositedUSDC instanceId value snapshot program amount usdc husdc =>
    set v := ({ w with usdcBalance := w.usdcBalance + amount.toNat }.setAccount instanceId
      ⟨snapshot, program, (w.accounts instanceId).ethBalance, usdc⟩).note
        (.deposited instanceId imm.usdc amount) with hv
    have hethSum := sum_ethOf w v instanceId (x := 0) (y := 0) rfl rfl
    have husdcSum := sum_usdcOf w v instanceId (x := amount.toNat) (y := 0) rfl husdc
    refine ⟨?_, ?_⟩
    · show ∑ i, v.ethOf i + ∑ a, w.owed a ETH ≤ w.ethBalance
      omega
    · show ∑ i, v.usdcOf i + ∑ a, w.owed a imm.usdc ≤ w.usdcBalance + amount.toNat
      omega

theorem sum_owed_setCredit (w : World) (account token token' : Address) :
    ∑ a, (w.setCredit account token 0).owed a token' + (if token = token' then w.owed account token else 0) =
      ∑ a, w.owed a token' := by
  refine Ledger.sum_shrunk (k := account) fun a => ?_
  rw [owed_setCredit]
  by_cases ha : a = account
  · by_cases ht : token' = token
    · rw [if_pos ⟨ha, ht⟩, if_pos ha, if_pos ht.symm, ha, ht]
      exact Nat.zero_add _
    · rw [if_neg fun hand => ht hand.2, if_pos ha, if_neg (Ne.symm ht), Nat.add_zero]
  · rw [if_neg fun hand => ha hand.1, if_neg ha, Nat.add_zero]

theorem Guarded.solvent (hne : imm.usdc ≠ ETH) (hguarded : Guarded H imm env w w') (h : Solvent imm w) :
    Solvent imm w' := by
  have hethBefore := h.eth
  have husdcBefore := h.usdc
  cases hguarded with
  | nothing => exact h
  | migrated instanceId snapshot program =>
    set v := w.setAccount instanceId { w.accounts instanceId with snapshot := snapshot, program := program }
      with hv
    have hethSum := sum_ethOf w v instanceId (x := 0) (y := 0) rfl rfl
    have husdcSum := sum_usdcOf w v instanceId (x := 0) (y := 0) rfl rfl
    refine ⟨?_, ?_⟩
    · show ∑ i, v.ethOf i + ∑ a, w.owed a ETH ≤ w.ethBalance
      omega
    · show ∑ i, v.usdcOf i + ∑ a, w.owed a imm.usdc ≤ w.usdcBalance
      omega
  | settled s _ hs =>
    obtain ⟨fee, gas, w₁, w₂, hfee, hgas, -, -, rfl⟩ := hs.legs
    exact (hgas.solvent hne (hfee.solvent hne h)).congr rfl rfl le_rfl le_rfl
  | policySet => exact h.congr rfl rfl le_rfl le_rfl
  | requested => exact h.congr rfl rfl le_rfl le_rfl
  | cancelled => exact h.congr rfl rfl le_rfl le_rfl
  | withdrawn instanceId eth usdc ethLeft usdcLeft ethBalance usdcBalance _ _ _ _ hethDebit husdcDebit
      hethSent husdcSent =>
    set v := ((w.setAccount instanceId { w.accounts instanceId with ethBalance := ethLeft, usdcBalance := usdcLeft }
      ).setPending instanceId ⟨0, 0, 0⟩).note (.withdrawn instanceId eth usdc) with hv
    have hethSum := sum_ethOf w v instanceId (x := 0) (y := eth.toNat) rfl hethDebit
    have husdcSum := sum_usdcOf w v instanceId (x := 0) (y := usdc.toNat) rfl husdcDebit
    refine ⟨?_, ?_⟩
    · show ∑ i, v.ethOf i + ∑ a, w.owed a ETH ≤ ethBalance
      omega
    · show ∑ i, v.usdcOf i + ∑ a, w.owed a imm.usdc ≤ usdcBalance
      omega
  | creditWithdrawn account token ethBalance usdcBalance _ hethSent husdcSent =>
    have hethSum := sum_owed_setCredit w account token ETH
    have husdcSum := sum_owed_setCredit w account token imm.usdc
    refine ⟨?_, ?_⟩
    · show ∑ i, w.ethOf i + ∑ a, (w.setCredit account token 0).owed a ETH ≤ ethBalance
      omega
    · show ∑ i, w.usdcOf i + ∑ a, (w.setCredit account token 0).owed a imm.usdc ≤ usdcBalance
      omega

theorem Solvent.lock (h : Solvent imm w) (entered : Bool) : Solvent imm (w.lock entered) :=
  h.congr rfl rfl le_rfl le_rfl

theorem kept_solvent (hne : imm.usdc ≠ ETH) : Kept H imm (fun _ _ => True) (Solvent imm) where
  opened _ _ hopened h := hopened.solvent h
  guarded _ _ hguarded h := hguarded.solvent hne h
  lock entered h := h.lock entered
  outside o h := by
    cases o with
    | eth amount => exact h.congr rfl rfl (Nat.le_add_right _ _) le_rfl
    | usdc amount => exact h.congr rfl rfl le_rfl (Nat.le_add_right _ _)
  between b hb h := by
    rw [advance, Option.ite_none_left_eq_some] at hb
    rw [← Option.some.inj hb.2]
    exact h.congr rfl rfl le_rfl le_rfl

theorem Start.solvent (h : Start imm w) : imm.usdc ≠ ETH ∧ Solvent imm w := by
  obtain ⟨registry, feed, feeSetter, admin, feedDecimals, stablecoinDecimals, hok⟩ := h.constructed
  obtain ⟨hargs, hok⟩ := of_guard hok
  obtain ⟨-, hok⟩ := of_guard hok
  obtain ⟨-, hok⟩ := of_guard hok
  have hstorage := (Prod.mk.inj (ok_inj hok)).2
  have haccounts : w.accounts = fun _ => ⟨0, 0, 0, 0⟩ := by rw [← hstorage]
  have hcredit : w.credit = fun _ _ => 0 := by rw [← hstorage]
  refine ⟨fun hzero => hargs (.inr (.inl hzero)), ?_, ?_⟩
  · simp [World.ethOf, World.owed, haccounts, hcredit]
  · simp [World.usdcOf, World.owed, haccounts, hcredit]

/-- At every point of a run the vault has what its accounts hold and what it owes, and no turn from there
fails for an underflow. -/
theorem run_solvent (H : Hashes) (imm : Immutables) (w : World) (hstart : Start imm w) (events : List Event) :
    Solvent imm (run H imm w events).world ∧
    (∀ i, enter H imm i (run H imm w events).world ≠ .reverted .underflow) ∧
    ∀ k a w', resume H imm k a w' ≠ .reverted .underflow := by
  obtain ⟨hne, hw⟩ := hstart.solvent
  refine ⟨?_, fun i => enter_no_underflow H imm i _, fun k a w' => resume_no_underflow H imm k a w'⟩
  exact (kept_solvent hne).run_holds hstart hw (allowed_true w events)

end

namespace VaultExample

def reentry : List Event :=
  setup ++ [call prover (.claim (word 1) 0), call prover (.withdrawCredit ETH prover),
    call prover (.withdrawCredit ETH prover), call prover (.depositETH (word 2) 5),
    .answer (some ⟨view, 0⟩)]

theorem reentry_balance : (constructed.toOption.map fun r =>
    ((run hashes imm (start r.2) reentry).world.ethBalance,
      ((run hashes imm (start r.2) reentry).world.accounts (word 1)).ethBalance)) =
    some (996666666666666672, 996666666666666667) := by
  decide +kernel

end VaultExample

open VaultExample in
/-- The vault after a withdrawal in which its receiver deposits 5 wei. -/
theorem run_solvent_reentry : ∃ s, (run hashes imm (start s) reentry).world.ethBalance = 996666666666666672 ∧
    Solvent imm (run hashes imm (start s) reentry).world := by
  obtain ⟨s, hs, hstart⟩ := exists_start
  have h := reentry_balance
  rw [hs] at h
  exact ⟨s, (Prod.mk.inj (Option.some.inj h)).1, (run_solvent hashes imm (start s) hstart reentry).1⟩

end Trustgraphs.ProvingVault
