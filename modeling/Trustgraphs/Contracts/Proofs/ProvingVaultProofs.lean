import Trustgraphs.Contracts.ProvingVault
import Trustgraphs.Lib.Ledger

/-!
# What the calls of the vault do

A call outside the lock funds an account or moves a parameter (`Opened`); a guarded call does one
thing more, under the lock (`Guarded`).
-/

namespace Trustgraphs.ProvingVault

open Outcome Function Checked Evm

variable {H : Hashes} {imm : Immutables} {env : Env} {w w' : World} {instanceId : B256}
  {payee : Address} {usdAmount ethUsdPrice : U256}

section

variable {α : Type}

theorem quotient_eq_ok {a b c : U256} : quotient a b = .ok c ↔ b ≠ 0 ∧ c.toNat = a.toNat / b.toNat := by
  rw [quotient, ite_error_eq_ok, Except.ok.injEq, ← BitVec.toNat_udiv, BitVec.toNat_inj, eq_comm (a := c)]

theorem get_eq_ok {x : Answer α} {a : α} : x.get = .ok a ↔ x = .value a := by
  cases x with
  | value b => exact ⟨fun h => congrArg Answer.value (ok_inj h), fun h => by rw [h]; rfl⟩
  | reverted => exact ⟨fun h => (nomatch h), fun h => (nomatch h)⟩
  | undecodable => exact ⟨fun h => (nomatch h), fun h => (nomatch h)⟩

theorem nonReentrant_eq_ok {f : World → Result World} : w.nonReentrant f = .ok w' ↔
    w.entered = false ∧ ∃ w₁, f { w with entered := true } = .ok w₁ ∧ w' = { w₁ with entered := false } := by
  rw [World.nonReentrant, ite_error_eq_ok, map_eq_ok, Bool.not_eq_true]
  simp only [eq_comm]

theorem toNat_widen {n : ℕ} (x : BitVec n) (h : n ≤ 256) : (widen x).toNat = x.toNat := by
  rw [widen, BitVec.toNat_setWidth, Nat.mod_eq_of_lt]
  exact x.isLt.trans_le (Nat.pow_le_pow_right (by decide) h)

theorem toNat_narrow {x : U256} {y : U128} (h : x.toNat ≤ y.toNat) : (x.setWidth 128).toNat = x.toNat := by
  rw [BitVec.toNat_setWidth, Nat.mod_eq_of_lt (lt_of_le_of_lt h y.isLt)]

end

def World.ethOf (w : World) (instanceId : B256) : ℕ := (w.accounts instanceId).ethBalance.toNat

def World.usdcOf (w : World) (instanceId : B256) : ℕ := (w.accounts instanceId).usdcBalance.toNat

def World.owed (w : World) (account token : Address) : ℕ := (w.credit account token).toNat

/-- A value is credited and debited, in ETH and in USDC. -/
structure Paid (imm : Immutables) (instanceId : B256) (payee : Address) (paid : Payment) (w w' : World) :
    Prop where
  frame : w' = { w with accounts := w'.accounts, credit := w'.credit }
  account : ∃ eth usdc : U128, w'.accounts = update w.accounts instanceId
    { w.accounts instanceId with ethBalance := eth, usdcBalance := usdc }
  eth : w'.ethOf instanceId + paid.ethSpent.toNat = w.ethOf instanceId
  usdc : w'.usdcOf instanceId + paid.usdcSpent.toNat = w.usdcOf instanceId
  credit : ∀ account token, w'.owed account token = w.owed account token +
    (if account = payee ∧ token = ETH then paid.ethSpent.toNat else 0) +
    (if account = payee ∧ token = imm.usdc then paid.usdcSpent.toNat else 0)

theorem owed_setCredit (w : World) (payee token account token' : Address) (c : U256) :
    (w.setCredit payee token c).owed account token' =
      if account = payee ∧ token' = token then c.toNat else w.owed account token' := by
  rw [World.owed, World.owed]
  show (update w.credit payee (update (w.credit payee) token c) account token').toNat = _
  by_cases ha : account = payee
  · subst ha
    rw [update_self]
    by_cases ht : token' = token
    · subst ht
      rw [update_self, if_pos ⟨rfl, rfl⟩]
    · rw [update_of_ne ht, if_neg fun h => ht h.2]
  · rw [update_of_ne ha, if_neg fun h => ha h.1]

theorem Paid.refl : Paid imm instanceId payee ⟨0, 0, 0⟩ w w where
  frame := rfl
  account := ⟨(w.accounts instanceId).ethBalance, (w.accounts instanceId).usdcBalance,
    (update_eq_self _ _).symm⟩
  eth := Nat.add_zero _
  usdc := Nat.add_zero _
  credit account token := by simp

variable {paid : Payment} {amount : U256} {args : SubmitArgs}

theorem Paid.congr {paid' : Payment} (h : Paid imm instanceId payee paid w w')
    (heth : paid'.ethSpent = paid.ethSpent) (husdc : paid'.usdcSpent = paid.usdcSpent) :
    Paid imm instanceId payee paid' w w' where
  frame := h.frame
  account := h.account
  eth := heth ▸ h.eth
  usdc := husdc ▸ h.usdc
  credit := by
    rw [heth, husdc]
    exact h.credit

theorem Paid.eq_of_zero (h : Paid imm instanceId payee paid w w') (heth : paid.ethSpent = 0)
    (husdc : paid.usdcSpent = 0) : w' = w := by
  have hpaid : Paid imm instanceId payee ⟨0, 0, 0⟩ w w' := h.congr heth.symm husdc.symm
  obtain ⟨eth, usdc, haccount⟩ := hpaid.account
  have heq : eth = (w.accounts instanceId).ethBalance := by
    have he := hpaid.eth
    rw [World.ethOf, haccount, update_self] at he
    exact BitVec.toNat_inj.mp he
  have huq : usdc = (w.accounts instanceId).usdcBalance := by
    have hu := hpaid.usdc
    rw [World.usdcOf, haccount, update_self] at hu
    exact BitVec.toNat_inj.mp hu
  have hcredit : w'.credit = w.credit := by
    funext account token
    have hc : w'.owed account token = w.owed account token := by
      rw [hpaid.credit account token]
      simp
    exact BitVec.toNat_inj.mp hc
  subst heq huq
  rw [hpaid.frame, haccount, update_eq_self, hcredit]

theorem Paid.moveETH {eth : U128} {credit coveredUsd : U256}
    (heth : (w.accounts instanceId).ethBalance.toNat = amount.toNat + eth.toNat)
    (hcredit : credit.toNat = (w.credit payee ETH).toNat + amount.toNat) :
    Paid imm instanceId payee ⟨coveredUsd, amount, 0⟩ w
      ((w.setAccount instanceId { w.accounts instanceId with ethBalance := eth }).setCredit payee ETH
        credit) where
  frame := rfl
  account := ⟨eth, (w.accounts instanceId).usdcBalance, rfl⟩
  eth := by
    show (update w.accounts instanceId _ instanceId).ethBalance.toNat + amount.toNat =
      (w.accounts instanceId).ethBalance.toNat
    rw [update_self, heth, Nat.add_comm]
  usdc := by
    show (update w.accounts instanceId _ instanceId).usdcBalance.toNat + 0 =
      (w.accounts instanceId).usdcBalance.toNat
    rw [update_self]
    rfl
  credit account token := by
    rw [owed_setCredit]
    by_cases h : account = payee ∧ token = ETH
    · obtain ⟨rfl, rfl⟩ := h
      rw [if_pos ⟨rfl, rfl⟩, if_pos ⟨rfl, rfl⟩, hcredit]
      simp [World.owed]
    · rw [if_neg h, if_neg h]
      simp [World.owed, World.setAccount]

theorem Paid.moveUSDC {usdc : U128} {credit : U256}
    (husdc : (w.accounts instanceId).usdcBalance.toNat = amount.toNat + usdc.toNat)
    (hcredit : credit.toNat = (w.credit payee imm.usdc).toNat + amount.toNat) (hpaid : paid.ethSpent = 0)
    (hamount : paid.usdcSpent = amount) :
    Paid imm instanceId payee paid w
      ((w.setAccount instanceId { w.accounts instanceId with usdcBalance := usdc }).setCredit payee imm.usdc
        credit) where
  frame := rfl
  account := ⟨(w.accounts instanceId).ethBalance, usdc, rfl⟩
  eth := by
    show (update w.accounts instanceId _ instanceId).ethBalance.toNat + paid.ethSpent.toNat =
      (w.accounts instanceId).ethBalance.toNat
    rw [update_self, hpaid]
    rfl
  usdc := by
    show (update w.accounts instanceId _ instanceId).usdcBalance.toNat + paid.usdcSpent.toNat =
      (w.accounts instanceId).usdcBalance.toNat
    rw [update_self, hamount, husdc, Nat.add_comm]
  credit account token := by
    have hzero : (if account = payee ∧ token = ETH then BitVec.toNat (0 : U256) else 0) = 0 := by simp
    rw [owed_setCredit, hpaid, hamount, hzero, Nat.add_zero]
    by_cases h : account = payee ∧ token = imm.usdc
    · obtain ⟨rfl, rfl⟩ := h
      rw [if_pos ⟨rfl, rfl⟩, if_pos ⟨rfl, rfl⟩, hcredit]
      rfl
    · rw [if_neg h, if_neg h]
      rfl

theorem Paid.trans {paid' : Payment} {w₁ : World} (h : Paid imm instanceId payee paid w w₁)
    (h' : Paid imm instanceId payee paid' w₁ w') {both : Payment}
    (heth : both.ethSpent.toNat = paid.ethSpent.toNat + paid'.ethSpent.toNat)
    (husdc : both.usdcSpent.toNat = paid.usdcSpent.toNat + paid'.usdcSpent.toNat) :
    Paid imm instanceId payee both w w' where
  frame := by rw [h'.frame, h.frame]
  account := by
    obtain ⟨eth, usdc, ha⟩ := h.account
    obtain ⟨eth', usdc', ha'⟩ := h'.account
    refine ⟨eth', usdc', ?_⟩
    rw [ha', ha, update_self, update_idem]
  eth := by
    have h₁ := h.eth
    have h₂ := h'.eth
    omega
  usdc := by
    have h₁ := h.usdc
    have h₂ := h'.usdc
    omega
  credit account token := by
    rw [h'.credit, h.credit, heth, husdc]
    by_cases he : account = payee ∧ token = ETH
    · by_cases hu : account = payee ∧ token = imm.usdc
      · simp only [if_pos he, if_pos hu]
        omega
      · simp only [if_pos he, if_neg hu]
        omega
    · by_cases hu : account = payee ∧ token = imm.usdc
      · simp only [if_neg he, if_pos hu]
        omega
      · simp only [if_neg he, if_neg hu]

theorem toNat_atMost {balance : U128} {want : U256}
    (h : amount = if widen balance < want then widen balance else want) : amount.toNat ≤ balance.toNat := by
  have hwiden := toNat_widen balance (by decide)
  by_cases hlt : widen balance < want
  · rw [h, if_pos hlt, hwiden]
  · rw [h, if_neg hlt]
    rw [BitVec.lt_def, hwiden] at hlt
    omega

theorem payETH_eq_ok {left : U256}
    (h : payETH w instanceId payee usdAmount ethUsdPrice = .ok (w', paid, left)) :
    Paid imm instanceId payee paid w w' ∧ paid.usdcSpent = 0 := by
  rw [payETH] at h
  dsimp only at h
  by_cases hzero : (w.accounts instanceId).ethBalance = 0
  · rw [if_pos hzero, Except.ok.injEq] at h
    obtain ⟨rfl, hpaid⟩ := Prod.mk.inj h
    obtain ⟨rfl, -⟩ := Prod.mk.inj hpaid
    exact ⟨.refl, rfl⟩
  · rw [if_neg hzero] at h
    obtain ⟨product, -, h⟩ := of_bind h
    obtain ⟨wantWei, -, h⟩ := of_bind h
    set payWei := if widen (w.accounts instanceId).ethBalance < wantWei then
      widen (w.accounts instanceId).ethBalance else wantWei with hpayWei
    by_cases hpay : payWei = 0
    · rw [if_pos hpay, Except.ok.injEq] at h
      obtain ⟨rfl, hpaid⟩ := Prod.mk.inj h
      obtain ⟨rfl, -⟩ := Prod.mk.inj hpaid
      exact ⟨.refl, rfl⟩
    · rw [if_neg hpay] at h
      obtain ⟨ethBalance, hbalance, h⟩ := of_bind h
      obtain ⟨credit, hcredit, h⟩ := of_bind h
      obtain ⟨value, -, h⟩ := of_bind h
      obtain ⟨coveredUsd, -, h⟩ := of_bind h
      obtain ⟨_, -, h⟩ := of_bind h
      obtain ⟨rfl, hpaid⟩ := Prod.mk.inj (ok_inj h)
      obtain ⟨rfl, -⟩ := Prod.mk.inj hpaid
      rw [minus_eq_ok, toNat_narrow (toNat_atMost hpayWei)] at hbalance
      exact ⟨.moveETH hbalance (add_eq_some.mp (arith_eq_ok.mp hcredit)), rfl⟩

theorem payUSDC_eq_ok {before : Payment}
    (h : payUSDC imm w instanceId payee before usdAmount = .ok (w', paid)) (hbefore : before.usdcSpent = 0) :
    Paid imm instanceId payee { paid with ethSpent := 0 } w w' ∧ paid.ethSpent = before.ethSpent := by
  rw [payUSDC] at h
  dsimp only at h
  by_cases hzero : usdAmount = 0 ∨ (w.accounts instanceId).usdcBalance = 0
  · rw [if_pos hzero, Except.ok.injEq] at h
    obtain ⟨rfl, rfl⟩ := Prod.mk.inj h
    exact ⟨Paid.refl.congr rfl hbefore, rfl⟩
  · rw [if_neg hzero] at h
    obtain ⟨product, -, h⟩ := of_bind h
    obtain ⟨wantUsdc, -, h⟩ := of_bind h
    set payUsdc := if widen (w.accounts instanceId).usdcBalance < wantUsdc then
      widen (w.accounts instanceId).usdcBalance else wantUsdc with hpayUsdc
    by_cases hpay : payUsdc = 0
    · rw [if_pos hpay, Except.ok.injEq] at h
      obtain ⟨rfl, rfl⟩ := Prod.mk.inj h
      exact ⟨Paid.refl.congr rfl hbefore, rfl⟩
    · rw [if_neg hpay] at h
      obtain ⟨usdcBalance, hbalance, h⟩ := of_bind h
      obtain ⟨credit, hcredit, h⟩ := of_bind h
      obtain ⟨product', -, h⟩ := of_bind h
      obtain ⟨value, -, h⟩ := of_bind h
      obtain ⟨paidUsd, -, h⟩ := of_bind h
      obtain ⟨rfl, rfl⟩ := Prod.mk.inj (ok_inj h)
      rw [minus_eq_ok, toNat_narrow (toNat_atMost hpayUsdc)] at hbalance
      exact ⟨.moveUSDC hbalance (add_eq_some.mp (arith_eq_ok.mp hcredit)) rfl rfl, rfl⟩

theorem pay_eq_ok (h : pay imm w instanceId payee usdAmount ethUsdPrice = .ok (w', paid)) :
    Paid imm instanceId payee paid w w' := by
  rw [pay] at h
  by_cases hzero : usdAmount = 0 ∨ payee = 0
  · rw [if_pos hzero, Except.ok.injEq] at h
    obtain ⟨rfl, rfl⟩ := Prod.mk.inj h
    exact .refl
  · rw [if_neg hzero] at h
    obtain ⟨⟨w₁, before, left⟩, heth, h⟩ := of_bind h
    obtain ⟨hpaid, hbefore⟩ := payETH_eq_ok heth
    obtain ⟨hpaid', hsame⟩ := payUSDC_eq_ok h hbefore
    refine hpaid.trans hpaid' ?_ ?_
    · rw [hsame]
      rfl
    · rw [hbefore]
      show _ = 0 + _
      rw [Nat.zero_add]

/-- A paid claim: both legs are paid, its slots are consumed, and it is noted. -/
structure Settled (imm : Immutables) (s : Settlement) (w w' : World) : Prop where
  legs : ∃ fee gas w₁ w₂, Paid imm s.instanceId s.recipient fee w w₁ ∧
    Paid imm s.instanceId s.submitter gas w₁ w₂ ∧
    s.ethSpent.toNat = fee.ethSpent.toNat + gas.ethSpent.toNat ∧
    s.usdcSpent.toNat = fee.usdcSpent.toNat + gas.usdcSpent.toNat ∧
    w' = ((w₂.consume s.instanceId s.terms s.checkpointId).setLastPaidBlock s.instanceId
      w₂.blockNumber).note (.settled s)
  nonzero : s.ethSpent ≠ 0 ∨ s.usdcSpent ≠ 0
  cadence : s.terms.lastPaidBlock ≠ 0 →
    s.terms.lastPaidBlock.toNat + s.terms.minPaidIntervalBlocks.toNat ≤ w.blockNumber.toNat
  unpaid : w.paidStatement s.instanceId s.terms.statement = false

variable {t : Terms} {checkpointId : Nat} {recipient : Address} {gasUsed minPayoutUsd feeUsd gasUsd : U256}

theorem skip_eq_ok {r : World × U256 × U256} (h : skip w minPayoutUsd = .ok r) :
    r = (w, 0, 0) ∧ minPayoutUsd = 0 := by
  rw [skip, ite_error_eq_ok, not_not] at h
  exact ⟨(ok_inj h.2).symm, h.1⟩

/-- A priced settlement: the legs that are due, what they paid, and the worlds after each. -/
structure Payout where
  ethUsdPrice : U256
  feeDue : U256
  gasDue : U256
  fee : Payment
  gas : Payment
  afterFee : World
  afterGas : World

structure PaysOut (H : Hashes) (imm : Immutables) (env : Env) (w : World) (instanceId : B256) (t : Terms)
    (recipient : Address) (gasUsed minPayoutUsd : U256) (p : Payout) : Prop where
  priced : ethUsd imm env w = .ok (some p.ethUsdPrice)
  quoted : quoteLegs env w t (bandOf H t.program t.leafCount t.anchorCount) gasUsed p.ethUsdPrice =
    .ok (p.feeDue, p.gasDue)
  /-- The prover's minimum is due and can be paid. -/
  enough : ∃ payable, payableUsd (w.accounts instanceId) p.ethUsdPrice = .ok payable ∧
    minPayoutUsd.toNat ≤ p.feeDue.toNat + p.gasDue.toNat ∧ minPayoutUsd.toNat ≤ payable.toNat
  feePaid : pay imm w instanceId recipient p.feeDue p.ethUsdPrice = .ok (p.afterFee, p.fee)
  gasPaid : pay imm p.afterFee instanceId env.msgSender p.gasDue p.ethUsdPrice = .ok (p.afterGas, p.gas)

/-- How a payout ends: nothing was spent, or the settlement is noted. -/
def Payout.Ends (p : Payout) (imm : Immutables) (s : Settlement) (minPayoutUsd : U256) (w w' : World) : Prop :=
  s.feeUsd = p.fee.paidUsd ∧ s.gasUsd = p.gas.paidUsd ∧
  s.ethSpent.toNat = p.fee.ethSpent.toNat + p.gas.ethSpent.toNat ∧
  s.usdcSpent.toNat = p.fee.usdcSpent.toNat + p.gas.usdcSpent.toNat ∧
  (s.ethSpent = 0 ∧ s.usdcSpent = 0 ∧ w' = w ∧ minPayoutUsd = 0 ∨
    Settled imm s w w' ∧ w' = ((p.afterGas.consume s.instanceId s.terms s.checkpointId).setLastPaidBlock
      s.instanceId p.afterGas.blockNumber).note (.settled s))

/-- A settlement pays nothing and leaves the vault as it is, or gets to a payout. -/
theorem settle_cases (h : settle H imm env w instanceId t checkpointId recipient gasUsed minPayoutUsd =
      .ok (w', feeUsd, gasUsd)) :
    (w', feeUsd, gasUsd) = (w, 0, 0) ∧ minPayoutUsd = 0 ∨
    ∃ p ethSpent usdcSpent, PaysOut H imm env w instanceId t recipient gasUsed minPayoutUsd p ∧
      p.Ends imm ⟨instanceId, checkpointId, t, recipient, env.msgSender, feeUsd, gasUsd, ethSpent, usdcSpent⟩
        minPayoutUsd w w' := by
  rw [settle] at h
  by_cases hdisabled : t.maxPerRootUsd = 0
  · rw [if_pos hdisabled] at h
    exact .inl (skip_eq_ok h)
  rw [if_neg hdisabled] at h
  by_cases hcadence : t.lastPaidBlock ≠ 0 ∧
      w.blockNumber.toNat < t.lastPaidBlock.toNat + t.minPaidIntervalBlocks.toNat
  · rw [if_pos hcadence] at h
    exact .inl (skip_eq_ok h)
  rw [if_neg hcadence] at h
  dsimp only at h
  by_cases hunknown : t.sizeKnown = false ∨ bandOf H t.program t.leafCount t.anchorCount = 0
  · rw [if_pos hunknown] at h
    exact .inl (skip_eq_ok h)
  rw [if_neg hunknown] at h
  by_cases hpaid : w.paidStatement instanceId t.statement
  · rw [if_pos hpaid] at h
    exact .inl (skip_eq_ok h)
  rw [if_neg hpaid] at h
  obtain ⟨price, hprice, h⟩ := of_bind h
  cases price with
  | none => exact .inl (skip_eq_ok h)
  | some ethUsdPrice =>
    obtain ⟨⟨feeDue, gasDue⟩, hquote, h⟩ := of_bind h
    obtain ⟨total, htotal, h⟩ := of_bind h
    obtain ⟨payable, hpayable, h⟩ := of_bind h
    obtain ⟨hoffered, h⟩ := of_guard h
    obtain ⟨⟨w₁, fee⟩, hfee, h⟩ := of_bind h
    obtain ⟨⟨w₂, gas⟩, hgas, h⟩ := of_bind h
    obtain ⟨ethSpent, heth, h⟩ := of_bind h
    obtain ⟨usdcSpent, husdc, h⟩ := of_bind h
    have hfeePaid := pay_eq_ok hfee
    have hgasPaid := pay_eq_ok hgas
    rw [arith_eq_ok, add_eq_some] at heth husdc htotal
    have henough : minPayoutUsd.toNat ≤ total.toNat ∧ minPayoutUsd.toNat ≤ payable.toNat := by
      by_cases hlt : total < payable
      · rw [if_pos hlt, BitVec.lt_def] at hoffered
        rw [BitVec.lt_def] at hlt
        omega
      · rw [if_neg hlt, BitVec.lt_def] at hoffered
        rw [BitVec.lt_def] at hlt
        omega
    have hpays : PaysOut H imm env w instanceId t recipient gasUsed minPayoutUsd
        ⟨ethUsdPrice, feeDue, gasDue, fee, gas, w₁, w₂⟩ :=
      ⟨hprice, hquote, ⟨payable, hpayable, htotal ▸ henough.1, henough.2⟩, hfee, hgas⟩
    by_cases hspent : ethSpent ≠ 0 ∨ usdcSpent ≠ 0
    · rw [if_pos hspent] at h
      obtain ⟨rfl, hreported⟩ := Prod.mk.inj (ok_inj h)
      obtain ⟨rfl, rfl⟩ := Prod.mk.inj hreported
      refine .inr ⟨_, ethSpent, usdcSpent, hpays, rfl, rfl, heth, husdc, .inr ⟨?_, rfl⟩⟩
      refine ⟨⟨fee, gas, w₁, w₂, hfeePaid, hgasPaid, heth, husdc, rfl⟩, hspent, ?_, ?_⟩
      · intro hlast
        exact not_lt.mp fun hlt => hcadence ⟨hlast, hlt⟩
      · exact Bool.not_eq_true _ ▸ hpaid
    · rw [if_neg hspent] at h
      obtain ⟨_, hskip, h⟩ := of_bind h
      obtain ⟨rfl, hreported⟩ := Prod.mk.inj (ok_inj h)
      obtain ⟨rfl, rfl⟩ := Prod.mk.inj hreported
      -- nothing was spent in either leg
      push Not at hspent
      obtain ⟨rfl, rfl⟩ := hspent
      have hzero : ∀ {x y z : U256}, z = 0 → z.toNat = x.toNat + y.toNat → x = 0 ∧ y = 0 := by
        rintro x y z rfl hxy
        have hz : (0 : U256).toNat = 0 := rfl
        exact ⟨BitVec.toNat_inj.mp (by omega), BitVec.toNat_inj.mp (by omega)⟩
      obtain ⟨hfe, hge⟩ := hzero rfl heth
      obtain ⟨hfu, hgu⟩ := hzero rfl husdc
      refine .inr ⟨_, 0, 0, hpays, rfl, rfl, heth, husdc, .inl ⟨rfl, rfl, ?_, (skip_eq_ok hskip).2⟩⟩
      exact (hgasPaid.eq_of_zero hge hgu).trans (hfeePaid.eq_of_zero hfe hfu)

theorem settle_eq_ok (h : settle H imm env w instanceId t checkpointId recipient gasUsed minPayoutUsd =
      .ok (w', feeUsd, gasUsd)) :
    w' = w ∨ ∃ s, Settled imm s w w' ∧ s.instanceId = instanceId ∧ s.checkpointId = checkpointId ∧
      s.terms = t := by
  rcases settle_cases h with ⟨hskip, -⟩ | ⟨p, ethSpent, usdcSpent, -, -, -, -, -, ⟨-, -, hsame, -⟩ | ⟨hs, -⟩⟩
  · exact .inl (Prod.mk.inj hskip).1
  · exact .inl hsame
  · exact .inr ⟨_, hs, rfl, rfl, rfl⟩

inductive Opened (imm : Immutables) (w : World) : Call → World → Prop
  | fees (call : Call) (feePerRootUsd : B256 → UInt8 → U256) (maxGasUnitsPerClaim nominalGasUnits : U256)
      (isFeeSetter : Address → Bool)
      (units : maxGasUnitsPerClaim = w.maxGasUnitsPerClaim ∨ maxGasUnitsPerClaim.toNat ≤ 30000000) :
      Opened imm w call { w with
        feePerRootUsd := feePerRootUsd
        maxGasUnitsPerClaim := maxGasUnitsPerClaim
        nominalGasUnits := nominalGasUnits
        isFeeSetter := isFeeSetter }
  | depositedETH (instanceId : B256) (msgValue : U256) (snapshot : Address) (program : B256) (amount eth : U128)
      (h : eth.toNat = w.ethOf instanceId + amount.toNat) :
      Opened imm w (.depositETH instanceId msgValue)
        (({ w with ethBalance := w.ethBalance + amount.toNat }.setAccount instanceId
        ⟨snapshot, program, eth, (w.accounts instanceId).usdcBalance⟩).note
          (.deposited instanceId ETH amount))
  | depositedUSDC (instanceId : B256) (value : U256) (snapshot : Address) (program : B256) (amount usdc : U128)
      (h : usdc.toNat = w.usdcOf instanceId + amount.toNat) :
      Opened imm w (.depositUSDC instanceId value)
        (({ w with usdcBalance := w.usdcBalance + amount.toNat }.setAccount instanceId
        ⟨snapshot, program, (w.accounts instanceId).ethBalance, usdc⟩).note
          (.deposited instanceId imm.usdc amount))

inductive Guarded (H : Hashes) (imm : Immutables) (env : Env) (w : World) : World → Prop
  | nothing : Guarded H imm env w w
  | migrated (instanceId : B256) (snapshot : Address) (program : B256) :
      Guarded H imm env w (w.setAccount instanceId
        { w.accounts instanceId with snapshot := snapshot, program := program })
  /-- The checkpoint has not been paid, the terms have the interval and the last paid block of the policy, and
  the snapshot answers that it accepted the checkpoint. -/
  | settled (s : Settlement) (w' : World) (h : Settled imm s w w')
      (unclaimed : w.claimed s.instanceId s.terms.snapshot s.checkpointId = false)
      (last : s.terms.lastPaidBlock = (w.policies s.instanceId).lastPaidBlock)
      (interval : s.terms.minPaidIntervalBlocks = (w.policies s.instanceId).minPaidIntervalBlocks)
      (accepted : acceptedStatement H env s.terms.snapshot s.checkpointId = .ok s.terms.statement) :
      Guarded H imm env w w'
  | policySet (instanceId : B256) (minPaidIntervalBlocks : UInt64) (maxPerRootUsd : U96) :
      Guarded H imm env w (w.setPolicy instanceId
        ⟨minPaidIntervalBlocks, maxPerRootUsd, (w.policies instanceId).lastPaidBlock⟩)
  | requested (instanceId : B256) (ethAmount usdcAmount : U256) (eth usdc : U128) (readyAt : UInt64)
      (ethHeld : ethAmount.toNat ≤ w.ethOf instanceId) (usdcHeld : usdcAmount.toNat ≤ w.usdcOf instanceId)
      (ethPending : eth.toNat = (w.pending instanceId).ethAmount.toNat + ethAmount.toNat)
      (usdcPending : usdc.toNat = (w.pending instanceId).usdcAmount.toNat + usdcAmount.toNat)
      (ready : readyAt.toNat = w.timestamp.toNat + WITHDRAWAL_NOTICE.toNat) :
      Guarded H imm env w ((w.setPending instanceId ⟨eth, usdc, readyAt⟩).note
        (.requested instanceId ethAmount usdcAmount))
  | cancelled (instanceId : B256) :
      Guarded H imm env w ((w.setPending instanceId ⟨0, 0, 0⟩).note (.cancelled instanceId))
  | withdrawn (instanceId : B256) (eth usdc ethLeft usdcLeft : U128) (ethBalance usdcBalance : ℕ)
      (pending : (w.pending instanceId).readyAt ≠ 0)
      (ready : (w.pending instanceId).readyAt.toNat ≤ w.timestamp.toNat)
      (ethAtMost : eth.toNat ≤ (w.pending instanceId).ethAmount.toNat)
      (usdcAtMost : usdc.toNat ≤ (w.pending instanceId).usdcAmount.toNat)
      (ethDebit : ethLeft.toNat + eth.toNat = w.ethOf instanceId)
      (usdcDebit : usdcLeft.toNat + usdc.toNat = w.usdcOf instanceId)
      (ethSent : w.ethBalance ≤ ethBalance + eth.toNat) (usdcSent : w.usdcBalance ≤ usdcBalance + usdc.toNat) :
      Guarded H imm env w { ((w.setAccount instanceId
        { w.accounts instanceId with ethBalance := ethLeft, usdcBalance := usdcLeft }).setPending instanceId
          ⟨0, 0, 0⟩).note (.withdrawn instanceId eth usdc) with
        ethBalance := ethBalance, usdcBalance := usdcBalance }
  | creditWithdrawn (account token : Address) (ethBalance usdcBalance : ℕ) (credit : w.credit account token ≠ 0)
      (ethSent : w.ethBalance ≤ ethBalance + if token = ETH then w.owed account token else 0)
      (usdcSent : w.usdcBalance ≤ usdcBalance + if token = imm.usdc then w.owed account token else 0) :
      Guarded H imm env w
        { w.setCredit account token 0 with ethBalance := ethBalance, usdcBalance := usdcBalance }

def World.lock (w : World) (entered : Bool) : World := { w with entered := entered }

theorem bindAccount_eq_ok (h : bindAccount env w instanceId = .ok w') : ∃ snapshot program,
    w' = w.setAccount instanceId { w.accounts instanceId with snapshot := snapshot, program := program } := by
  rw [bindAccount] at h
  by_cases hbound : (w.accounts instanceId).snapshot ≠ 0
  · rw [if_pos hbound, Except.ok.injEq] at h
    refine ⟨(w.accounts instanceId).snapshot, (w.accounts instanceId).program, ?_⟩
    rw [← h, World.setAccount, update_eq_self]
  · rw [if_neg hbound] at h
    obtain ⟨record, -, h⟩ := of_bind h
    exact ⟨record.snapshot, record.program, (ok_inj h).symm⟩

theorem toNat_narrow_lt {x : U256} (h : ¬ 2 ^ 128 ≤ x.toNat) : (x.setWidth 128).toNat = x.toNat := by
  rw [BitVec.toNat_setWidth, Nat.mod_eq_of_lt (not_le.mp h)]

theorem depositETH_eq_ok {msgValue : U256} (h : depositETH env w instanceId msgValue = .ok w') :
    Opened imm w (.depositETH instanceId msgValue) w' := by
  obtain ⟨hvalue, h⟩ := of_guard h
  obtain ⟨w₁, hbind, h⟩ := of_bind h
  obtain ⟨snapshot, program, rfl⟩ := bindAccount_eq_ok hbind
  obtain ⟨eth, heth, h⟩ := of_bind h
  rw [arith_eq_ok, add_eq_some] at heth
  have hamount := toNat_narrow_lt fun hle => hvalue (.inr hle)
  have hdeposited : Opened imm w _ _ := .depositedETH instanceId msgValue snapshot program
    (msgValue.setWidth 128) eth (by
      rw [heth]
      simp [World.setAccount, World.ethOf])
  rw [← ok_inj h]
  simpa [World.setAccount, World.note, hamount] using hdeposited

theorem depositUSDC_eq_ok (h : depositUSDC imm env w instanceId amount = .ok w') :
    Opened imm w (.depositUSDC instanceId amount) w' := by
  obtain ⟨hvalue, h⟩ := of_guard h
  obtain ⟨w₁, hbind, h⟩ := of_bind h
  obtain ⟨snapshot, program, rfl⟩ := bindAccount_eq_ok hbind
  obtain ⟨-, h⟩ := of_guard h
  obtain ⟨-, h⟩ := of_guard h
  obtain ⟨-, h⟩ := of_guard h
  obtain ⟨usdc, husdc, h⟩ := of_bind h
  have hnarrow : amount.toNat % 2 ^ 128 = amount.toNat :=
    Nat.mod_eq_of_lt (not_le.mp fun hle => hvalue (.inr hle))
  rw [arith_eq_ok, add_eq_some] at husdc
  have hdeposited : Opened imm w _ _ := .depositedUSDC instanceId amount snapshot program
    (amount.setWidth 128) usdc (by
      rw [husdc]
      simp [World.setAccount, World.usdcOf])
  rw [BitVec.toNat_setWidth, hnarrow] at hdeposited
  rw [← ok_inj h]
  simpa [World.setAccount, World.note] using hdeposited

theorem migrate_eq_ok (h : migrate env w instanceId = .ok w') :
    w.entered = false ∧ ∃ w₁, Guarded H imm env (w.lock true) w₁ ∧ w' = w₁.lock false := by
  obtain ⟨hentered, w₁, hrun, rfl⟩ := nonReentrant_eq_ok.mp h
  obtain ⟨_, -, hrun⟩ := of_bind hrun
  obtain ⟨record, -, hrun⟩ := of_bind hrun
  obtain ⟨-, hrun⟩ := of_guard hrun
  exact ⟨hentered, w₁, ok_inj hrun ▸ .migrated instanceId record.snapshot record.program, rfl⟩

theorem setPolicy_eq_ok {minPaidIntervalBlocks : UInt64} {maxPerRootUsd : U96}
    (h : setPolicy env w instanceId minPaidIntervalBlocks maxPerRootUsd = .ok w') :
    w.entered = false ∧ ∃ w₁, Guarded H imm env (w.lock true) w₁ ∧ w' = w₁.lock false := by
  obtain ⟨hentered, w₁, hrun, rfl⟩ := nonReentrant_eq_ok.mp h
  obtain ⟨_, -, hrun⟩ := of_bind hrun
  exact ⟨hentered, w₁, ok_inj hrun ▸ .policySet instanceId minPaidIntervalBlocks maxPerRootUsd, rfl⟩

theorem requestWithdrawal_eq_ok {ethAmount usdcAmount : U256}
    (h : requestWithdrawal env w instanceId ethAmount usdcAmount = .ok w') :
    w.entered = false ∧ ∃ w₁, Guarded H imm env (w.lock true) w₁ ∧ w' = w₁.lock false := by
  obtain ⟨hentered, w₁, hrun, rfl⟩ := nonReentrant_eq_ok.mp h
  obtain ⟨_, -, hrun⟩ := of_bind hrun
  obtain ⟨-, hrun⟩ := of_guard hrun
  obtain ⟨hheld, hrun⟩ := of_guard hrun
  obtain ⟨eth, heth, hrun⟩ := of_bind hrun
  obtain ⟨usdc, husdc, hrun⟩ := of_bind hrun
  obtain ⟨hready, hrun⟩ := of_guard hrun
  rw [not_or, BitVec.lt_def, BitVec.lt_def, not_lt, not_lt, toNat_widen _ (by decide),
    toNat_widen _ (by decide)] at hheld
  rw [arith_eq_ok, add_eq_some] at heth husdc
  rw [toNat_narrow hheld.1] at heth
  rw [toNat_narrow hheld.2] at husdc
  refine ⟨hentered, w₁, ok_inj hrun ▸ .requested instanceId ethAmount usdcAmount eth usdc _ hheld.1
    hheld.2 heth husdc ?_, rfl⟩
  rw [UInt64.toNat_add, Nat.mod_eq_of_lt (not_le.mp hready)]
  rfl

theorem cancelWithdrawal_eq_ok (h : cancelWithdrawal env w instanceId = .ok w') :
    w.entered = false ∧ ∃ w₁, Guarded H imm env (w.lock true) w₁ ∧ w' = w₁.lock false := by
  obtain ⟨hentered, w₁, hrun, rfl⟩ := nonReentrant_eq_ok.mp h
  obtain ⟨_, -, hrun⟩ := of_bind hrun
  obtain ⟨-, hrun⟩ := of_guard hrun
  exact ⟨hentered, w₁, ok_inj hrun ▸ .cancelled instanceId, rfl⟩

theorem termsOf_eq_ok {a : Account} (h : termsOf env w instanceId a checkpointId = .ok t) :
    t.snapshot = a.snapshot ∧ t.lastPaidBlock = (w.policies instanceId).lastPaidBlock ∧
      t.minPaidIntervalBlocks = (w.policies instanceId).minPaidIntervalBlocks := by
  obtain ⟨size, -, h⟩ := of_bind h
  rw [← ok_inj h]
  exact ⟨rfl, rfl, rfl⟩

theorem requireUnclaimed_eq_ok {snapshot : Address}
    (h : requireUnclaimed w instanceId snapshot checkpointId = .ok ()) :
    w.claimed instanceId snapshot checkpointId = false := by
  rw [requireUnclaimed, ite_error_eq_ok] at h
  simpa using h.1

/-- A claim is paid: of an unpaid checkpoint, under the terms that were read. -/
def Claimed (H : Hashes) (imm : Immutables) (env : Env) (instanceId : B256) (checkpointId : Nat)
    (w w' : World) : Prop :=
  ∃ s, Settled imm s w w' ∧ s.instanceId = instanceId ∧ s.checkpointId = checkpointId ∧
    w.claimed s.instanceId s.terms.snapshot s.checkpointId = false ∧
    s.terms.lastPaidBlock = (w.policies s.instanceId).lastPaidBlock ∧
    s.terms.minPaidIntervalBlocks = (w.policies s.instanceId).minPaidIntervalBlocks ∧
    acceptedStatement H env s.terms.snapshot s.checkpointId = .ok s.terms.statement

theorem settle_claimed {statement : B256}
    (h : settle H imm env w instanceId { t with statement := statement } checkpointId recipient gasUsed
      minPayoutUsd = .ok (w', feeUsd, gasUsd))
    (hclaimed : w.claimed instanceId t.snapshot checkpointId = false)
    (hlast : t.lastPaidBlock = (w.policies instanceId).lastPaidBlock)
    (hinterval : t.minPaidIntervalBlocks = (w.policies instanceId).minPaidIntervalBlocks)
    (haccepted : acceptedStatement H env t.snapshot checkpointId = .ok statement) :
    w' = w ∨ Claimed H imm env instanceId checkpointId w w' := by
  rcases settle_eq_ok h with rfl | ⟨s, hs, rfl, rfl, hterms⟩
  · exact .inl rfl
  · refine .inr ⟨s, hs, rfl, rfl, ?_, ?_, ?_, ?_⟩
    · rw [hterms]
      exact hclaimed
    · rw [hterms]
      exact hlast
    · rw [hterms]
      exact hinterval
    · rw [hterms]
      exact haccepted

theorem Claimed.guarded (h : Claimed H imm env instanceId checkpointId w w') : Guarded H imm env w w' := by
  obtain ⟨s, hs, rfl, rfl, hunclaimed, hlast, hinterval, haccepted⟩ := h
  exact .settled s w' hs hunclaimed hlast hinterval haccepted

theorem claim_eq_ok (h : claim H imm env w instanceId checkpointId = .ok w') :
    w.entered = false ∧ ∃ w₁, (w₁ = w.lock true ∨ Claimed H imm env instanceId checkpointId (w.lock true) w₁) ∧
      w' = w₁.lock false := by
  obtain ⟨hentered, w₁, hrun, rfl⟩ := nonReentrant_eq_ok.mp h
  obtain ⟨-, hrun⟩ := of_guard hrun
  obtain ⟨⟨⟩, hclaimed, hrun⟩ := of_bind hrun
  obtain ⟨applied, -, hrun⟩ := of_bind hrun
  obtain ⟨-, hrun⟩ := of_guard hrun
  obtain ⟨last, -, hrun⟩ := of_bind hrun
  obtain ⟨-, hrun⟩ := of_guard hrun
  obtain ⟨recipient, -, hrun⟩ := of_bind hrun
  obtain ⟨-, hrun⟩ := of_guard hrun
  obtain ⟨t, hterms, hrun⟩ := of_bind hrun
  obtain ⟨statement, hstatement, hrun⟩ := of_bind hrun
  obtain ⟨⟨w₂, feeUsd, gasUsd⟩, hsettle, hrun⟩ := of_bind hrun
  obtain ⟨hsnapshot, hlast, hinterval⟩ := termsOf_eq_ok hterms
  obtain rfl : w₂ = w₁ := ok_inj hrun
  refine ⟨hentered, w₂, settle_claimed hsettle ?_ hlast hinterval ?_, rfl⟩
  · rw [hsnapshot]
    exact requireUnclaimed_eq_ok hclaimed
  · rw [hsnapshot]
    exact hstatement

def Waits : Waiting → World → Prop
  | .submitting _ instanceId args t, w =>
    w.claimed instanceId t.snapshot args.checkpointId = false ∧
      t.lastPaidBlock = (w.policies instanceId).lastPaidBlock ∧
      t.minPaidIntervalBlocks = (w.policies instanceId).minPaidIntervalBlocks
  | _, _ => True

theorem submitStart_eq_ok {k : Waiting} (h : submitStart env w instanceId args = .ok (w', k)) :
    w.entered = false ∧ w' = w.lock true ∧ Waits k w' := by
  obtain ⟨hentered, h⟩ := of_guard h
  obtain ⟨-, h⟩ := of_guard h
  obtain ⟨⟨⟩, hclaimed, h⟩ := of_bind h
  obtain ⟨t, hterms, h⟩ := of_bind h
  obtain ⟨rfl, rfl⟩ := Prod.mk.inj (ok_inj h)
  obtain ⟨hsnapshot, hlast, hinterval⟩ := termsOf_eq_ok hterms
  refine ⟨by simpa using hentered, rfl, ?_, hlast, hinterval⟩
  rw [hsnapshot]
  exact requireUnclaimed_eq_ok hclaimed

theorem submitEnd_settle (h : submitEnd H imm env w instanceId args t gasUsed = .ok w') :
    ∃ statement w₁ feeUsd gasUsd', acceptedStatement H env t.snapshot args.checkpointId = .ok statement ∧
      settle H imm env w instanceId { t with statement := statement } args.checkpointId args.recipient gasUsed
        args.minPayoutUsd = .ok (w₁, feeUsd, gasUsd') ∧ w' = w₁.lock false := by
  have hrefused : ∀ x, (do
      let actual ← (env.view.lastAppliedCheckpoint t.snapshot).get
      .error (.error (.checkpointNotApplied args.checkpointId actual)) : Result World) ≠ .ok x := by
    intro x hx
    obtain ⟨_, -, hx⟩ := of_bind hx
    exact nomatch hx
  obtain ⟨applied, -, h⟩ := of_bind h
  by_cases happlied : applied = false
  · rw [if_pos happlied] at h
    exact absurd h (hrefused w')
  rw [if_neg happlied] at h
  obtain ⟨last, -, h⟩ := of_bind h
  by_cases hother : last ≠ args.checkpointId
  · rw [if_pos hother] at h
    exact absurd h (hrefused w')
  rw [if_neg hother] at h
  obtain ⟨statement, hstatement, h⟩ := of_bind h
  obtain ⟨⟨w₁, feeUsd, gasUsd'⟩, hsettle, h⟩ := of_bind h
  exact ⟨statement, w₁, feeUsd, gasUsd', hstatement, hsettle, (ok_inj h).symm⟩

theorem submitEnd_eq_ok (h : submitEnd H imm env w instanceId args t gasUsed = .ok w')
    (hclaimed : w.claimed instanceId t.snapshot args.checkpointId = false)
    (hlast : t.lastPaidBlock = (w.policies instanceId).lastPaidBlock)
    (hinterval : t.minPaidIntervalBlocks = (w.policies instanceId).minPaidIntervalBlocks) :
    ∃ w₁, (w₁ = w ∨ Claimed H imm env instanceId args.checkpointId w w₁) ∧ w' = w₁.lock false := by
  obtain ⟨statement, w₁, feeUsd, gasUsd', hstatement, hsettle, rfl⟩ := submitEnd_settle h
  exact ⟨w₁, settle_claimed hsettle hclaimed hlast hinterval hstatement, rfl⟩

theorem sendUSDC_eq_ok {amount : ℕ} (h : sendUSDC imm env w payee amount = .ok w') :
    ∃ usdcBalance, w' = { w with usdcBalance := usdcBalance } ∧ w.usdcBalance ≤ usdcBalance + amount := by
  rw [sendUSDC] at h
  by_cases hzero : amount = 0
  · rw [if_pos hzero, Except.ok.injEq] at h
    exact ⟨w.usdcBalance, h.symm, Nat.le_add_right _ _⟩
  rw [if_neg hzero, ite_error_eq_ok] at h
  obtain ⟨hheld, h⟩ := h
  rw [not_or, not_lt] at hheld
  by_cases hself : payee = imm.address
  · rw [if_pos hself, Except.ok.injEq] at h
    exact ⟨w.usdcBalance, h.symm, Nat.le_add_right _ _⟩
  · rw [if_neg hself, Except.ok.injEq] at h
    exact ⟨_, h.symm, Nat.le_of_eq (Nat.sub_add_cancel hheld.2).symm⟩

theorem sendETH_eq (imm : Immutables) (w : World) (payee : Address) (amount : ℕ) :
    (∃ e, sendETH imm w payee amount = .reverted e) ∨
    ∃ ethBalance, sendETH imm w payee amount = .waits { w with ethBalance := ethBalance } .sendingETH ∧
      w.ethBalance = ethBalance + amount := by
  rw [sendETH]
  by_cases h : payee = imm.address ∨ w.ethBalance < amount
  · rw [if_pos h]
    exact .inl ⟨_, rfl⟩
  · rw [if_neg h]
    rw [not_or, not_lt] at h
    exact .inr ⟨_, rfl, (Nat.sub_add_cancel h.2).symm⟩

theorem toNat_min {a b c : U128} (h : c = if a < b then a else b) : c.toNat ≤ a.toNat ∧ c.toNat ≤ b.toNat := by
  rw [h]
  by_cases hlt : a < b
  · rw [if_pos hlt]
    rw [BitVec.lt_def] at hlt
    exact ⟨le_rfl, hlt.le⟩
  · rw [if_neg hlt]
    rw [BitVec.lt_def] at hlt
    exact ⟨not_lt.mp hlt, le_rfl⟩

theorem debitWithdrawal_eq_ok {eth : U128} (h : debitWithdrawal imm env w instanceId payee = .ok (w', eth))
    (ethBalance : ℕ) (hsent : w.ethBalance ≤ ethBalance + eth.toNat) :
    w'.ethBalance = w.ethBalance ∧ Guarded H imm env w { w' with ethBalance := ethBalance } := by
  obtain ⟨_, -, h⟩ := of_bind h
  obtain ⟨hpending, h⟩ := of_guard h
  obtain ⟨hready, h⟩ := of_guard h
  obtain ⟨-, h⟩ := of_guard h
  obtain ⟨ethLeft, hethLeft, h⟩ := of_bind h
  obtain ⟨usdcLeft, husdcLeft, h⟩ := of_bind h
  obtain ⟨w₁, husdc, h⟩ := of_bind h
  obtain ⟨rfl, rfl⟩ := Prod.mk.inj (ok_inj h)
  obtain ⟨usdcBalance, rfl, husdcSent⟩ := sendUSDC_eq_ok husdc
  rw [minus_eq_ok] at hethLeft husdcLeft
  refine ⟨rfl, .withdrawn instanceId _ _ ethLeft usdcLeft ethBalance usdcBalance hpending
    (not_lt.mp hready) (toNat_min rfl).2 (toNat_min rfl).2 ?_ ?_ hsent husdcSent⟩
  · rw [World.ethOf, hethLeft, Nat.add_comm]
  · rw [World.usdcOf, husdcLeft, Nat.add_comm]

/-- How a turn ends that took the lock: it has released it, or it waits. -/
def TurnGuarded (H : Hashes) (imm : Immutables) (env : Env) (w : World) :
    CallStack.Turn World Waiting Revert → Prop
  | .returned w' => ∃ w₁, Guarded H imm env (w.lock true) w₁ ∧ w' = w₁.lock false
  | .reverted _ => True
  | .waits w' k => Guarded H imm env (w.lock true) w' ∧ Waits k w'

theorem executeWithdrawal_spec (hentered : w.entered = false) :
    TurnGuarded H imm env w (executeWithdrawal imm env w instanceId payee) := by
  rw [executeWithdrawal, if_neg (by simp [hentered])]
  cases hdebit : debitWithdrawal imm env { w with entered := true } instanceId payee with
  | error e => trivial
  | ok r =>
    obtain ⟨w₁, eth⟩ := r
    dsimp only
    by_cases hzero : eth ≠ 0
    · rw [if_pos hzero]
      rcases sendETH_eq imm w₁ payee eth.toNat with ⟨e, he⟩ | ⟨ethBalance, he, hsent⟩
      · rw [he]
        trivial
      · rw [he]
        obtain ⟨hsame, -⟩ := debitWithdrawal_eq_ok (H := H) hdebit w.ethBalance (Nat.le_add_right _ _)
        exact ⟨(debitWithdrawal_eq_ok hdebit ethBalance (hsame ▸ hsent.le)).2, trivial⟩
    · rw [if_neg hzero]
      obtain ⟨hsame, hguarded⟩ := debitWithdrawal_eq_ok (H := H) hdebit w.ethBalance (Nat.le_add_right _ _)
      refine ⟨w₁, ?_, rfl⟩
      have hw : { w₁ with ethBalance := w.ethBalance } = w₁ := by
        rw [← show w₁.ethBalance = w.ethBalance from hsame]
      exact hw ▸ hguarded

theorem withdrawCredit_spec {token : Address} (hentered : w.entered = false) :
    TurnGuarded H imm env w (withdrawCredit imm env w token payee) := by
  rw [withdrawCredit, if_neg (by simp [hentered])]
  dsimp only
  by_cases hzero : w.credit env.msgSender token = 0
  · rw [if_pos hzero]
    trivial
  rw [if_neg hzero]
  by_cases hpayee : payee = 0
  · rw [if_pos hpayee]
    trivial
  rw [if_neg hpayee]
  by_cases heth : token = ETH
  · rw [if_pos heth]
    rcases sendETH_eq imm ((w.lock true).setCredit env.msgSender token 0) payee
      (w.credit env.msgSender token).toNat with ⟨e, he⟩ | ⟨ethBalance, he, hsent⟩
    · change TurnGuarded H imm env w (sendETH imm ((w.lock true).setCredit env.msgSender token 0) payee _)
      rw [he]
      trivial
    · change TurnGuarded H imm env w (sendETH imm ((w.lock true).setCredit env.msgSender token 0) payee _)
      rw [he]
      refine ⟨.creditWithdrawn env.msgSender token ethBalance w.usdcBalance hzero ?_ (Nat.le_add_right _ _),
        trivial⟩
      rw [if_pos heth]
      exact hsent.le
  rw [if_neg heth]
  by_cases husdc : token = imm.usdc
  · rw [if_pos husdc]
    cases hsend : sendUSDC imm env ((w.lock true).setCredit env.msgSender token 0) payee
        (w.credit env.msgSender token).toNat with
    | error e =>
      erw [hsend]
      trivial
    | ok w₁ =>
      erw [hsend]
      obtain ⟨usdcBalance, rfl, hsent⟩ := sendUSDC_eq_ok hsend
      refine ⟨_, .creditWithdrawn env.msgSender token w.ethBalance usdcBalance hzero (Nat.le_add_right _ _) ?_,
        rfl⟩
      rw [if_pos husdc]
      exact hsent
  · rw [if_neg husdc]
    exact ⟨.creditWithdrawn env.msgSender token w.ethBalance w.usdcBalance hzero (Nat.le_add_right _ _)
      (Nat.le_add_right _ _), trivial⟩

/-- What the turn of a call does: it leaves the lock alone, or it takes it. -/
def TurnSpec (H : Hashes) (imm : Immutables) (i : Env × Call) (w : World)
    (turn : CallStack.Turn World Waiting Revert) : Prop :=
  (∃ w', turn = .returned w' ∧ Opened imm w i.2 w') ∨ (∃ e, turn = .reverted e) ∨
    w.entered = false ∧ TurnGuarded H imm i.1 w turn

theorem ended_guarded {call : Call} {r : Result World}
    (h : ∀ w', r = .ok w' → w.entered = false ∧ ∃ w₁, Guarded H imm env (w.lock true) w₁ ∧ w' = w₁.lock false) :
    TurnSpec H imm (env, call) w (ended r) := by
  cases r with
  | error e => exact .inr (.inl ⟨e, rfl⟩)
  | ok w' =>
    obtain ⟨hentered, hguarded⟩ := h w' rfl
    exact .inr (.inr ⟨hentered, hguarded⟩)

theorem ended_opened {call : Call} {r : Result World} (h : ∀ w', r = .ok w' → Opened imm w call w') :
    TurnSpec H imm (env, call) w (ended r) := by
  cases r with
  | error e => exact .inr (.inl ⟨e, rfl⟩)
  | ok w' => exact .inl ⟨w', rfl, h w' rfl⟩

/-- What a call does in its first turn. -/
theorem enter_spec (i : Env × Call) (w : World) : TurnSpec H imm i w (enter H imm i w) := by
  obtain ⟨env, call⟩ := i
  rw [enter]
  by_cases hself : env.msgSender = imm.address
  · rw [if_pos hself]
    exact .inr (.inl ⟨_, rfl⟩)
  rw [if_neg hself]
  cases call with
  | depositETH instanceId msgValue => exact ended_opened fun _ => depositETH_eq_ok
  | depositUSDC instanceId amount => exact ended_opened fun _ => depositUSDC_eq_ok
  | migrate instanceId => exact ended_guarded fun _ => migrate_eq_ok
  | submitAndClaim instanceId args =>
    cases hstart : submitStart env w instanceId args with
    | error e =>
      refine .inr (.inl ⟨e, ?_⟩)
      dsimp only
      rw [hstart]
    | ok r =>
      obtain ⟨w', k⟩ := r
      obtain ⟨hentered, rfl, hwaits⟩ := submitStart_eq_ok hstart
      refine .inr (.inr ⟨hentered, ?_⟩)
      dsimp only
      rw [hstart]
      exact ⟨.nothing, hwaits⟩
  | claim instanceId checkpointId =>
    refine ended_guarded fun w' h => ?_
    obtain ⟨hentered, w₁, rfl | hclaimed, rfl⟩ := claim_eq_ok h
    · exact ⟨hentered, _, .nothing, rfl⟩
    · exact ⟨hentered, w₁, hclaimed.guarded, rfl⟩
  | setFeePerRootUsd program band usdPerRoot =>
    refine ended_opened fun w' h => ?_
    obtain ⟨-, h⟩ := of_guard h
    obtain ⟨-, h⟩ := of_guard h
    exact ok_inj h ▸ .fees _ _ _ _ _ (.inl rfl)
  | setGasParams maxUnits nominalUnits =>
    refine ended_opened fun w' h => ?_
    obtain ⟨-, h⟩ := of_guard h
    obtain ⟨hunits, h⟩ := of_guard h
    rw [not_or, BitVec.lt_def, not_lt] at hunits
    exact ok_inj h ▸ .fees _ _ _ _ _ (.inr hunits.1)
  | setPolicy instanceId minPaidIntervalBlocks maxPerRootUsd => exact ended_guarded fun _ => setPolicy_eq_ok
  | requestWithdrawal instanceId ethAmount usdcAmount => exact ended_guarded fun _ => requestWithdrawal_eq_ok
  | cancelWithdrawal instanceId => exact ended_guarded fun _ => cancelWithdrawal_eq_ok
  | executeWithdrawal instanceId payee =>
    by_cases hentered : w.entered = false
    · exact .inr (.inr ⟨hentered, executeWithdrawal_spec hentered⟩)
    · refine .inr (.inl ⟨.error .reentrantCall, ?_⟩)
      show executeWithdrawal imm env w instanceId payee = _
      rw [executeWithdrawal, if_pos (by simpa using hentered)]
  | withdrawCredit token payee =>
    by_cases hentered : w.entered = false
    · exact .inr (.inr ⟨hentered, withdrawCredit_spec hentered⟩)
    · refine .inr (.inl ⟨.error .reentrantCall, ?_⟩)
      show withdrawCredit imm env w token payee = _
      rw [withdrawCredit, if_pos (by simpa using hentered)]
  | setRoles isFeeSetter => exact .inl ⟨_, rfl, .fees _ _ _ _ _ (.inl rfl)⟩

theorem resume_spec {k : Waiting} (hk : Waits k w) (a : Option Return) :
    (∃ e, resume H imm k a w = .reverted e) ∨
    ∃ (r : Return) (env : Env) (w₁ : World), a = some r ∧ resume H imm k a w = .returned (w₁.lock false) ∧
      Guarded H imm { env with view := r.view } w w₁ := by
  cases a with
  | none =>
    cases k with
    | submitting env instanceId args t => exact .inl ⟨_, rfl⟩
    | sendingETH => exact .inl ⟨_, rfl⟩
    | sendingToken => exact .inl ⟨_, rfl⟩
  | some r =>
    cases k with
    | submitting env instanceId args t =>
      cases hend : submitEnd H imm { env with view := r.view } w instanceId args t r.gasUsed with
      | error e =>
        refine .inl ⟨e, ?_⟩
        show ended (submitEnd H imm { env with view := r.view } w instanceId args t r.gasUsed) = _
        rw [hend]
        rfl
      | ok w' =>
        obtain ⟨w₁, hclaimed, rfl⟩ := submitEnd_eq_ok hend hk.1 hk.2.1 hk.2.2
        have hguarded : Guarded H imm { env with view := r.view } w w₁ := by
          rcases hclaimed with rfl | hclaimed
          · exact .nothing
          · exact hclaimed.guarded
        refine .inr ⟨r, env, w₁, rfl, ?_, hguarded⟩
        show ended (submitEnd H imm { env with view := r.view } w instanceId args t r.gasUsed) = _
        rw [hend]
        rfl
    | sendingETH => exact .inr ⟨r, ⟨0, 0, r.view, true⟩, w, rfl, rfl, .nothing⟩
    | sendingToken => exact .inr ⟨r, ⟨0, 0, r.view, true⟩, w, rfl, rfl, .nothing⟩

end Trustgraphs.ProvingVault
