import Trustgraphs.Contracts.Proofs.ProvingVaultProofs

/-!
# What a leg of a payout is worth

A leg reports the value that it moved, each asset rounded down (`Leg.reported`).
-/

namespace Trustgraphs.ProvingVault

open Outcome Checked Evm

variable {H : Hashes} {imm : Immutables} {env : Env} {w w' : World} {instanceId : B256}
  {payee : Address} {usdAmount ethUsdPrice : U256}

/-- One wei in units of 1e-26 dollars, or one unit of USDC where that is worth more. -/
def coin (ethUsdPrice : U256) : ℕ := max ethUsdPrice.toNat (100 * 10 ^ 18)

/-- What was moved is worth, in units of 1e-26 dollars. -/
def Payment.value (paid : Payment) (ethUsdPrice : U256) : ℕ :=
  paid.ethSpent.toNat * ethUsdPrice.toNat + paid.usdcSpent.toNat * (100 * 10 ^ 18)

def World.worth (w : World) (instanceId : B256) (ethUsdPrice : U256) : ℕ :=
  w.ethOf instanceId * ethUsdPrice.toNat + w.usdcOf instanceId * (100 * 10 ^ 18)

structure Leg (w : World) (instanceId : B256) (payee : Address) (usdAmount ethUsdPrice : U256)
    (paid : Payment) : Prop where
  reported : paid.paidUsd.toNat = paid.ethSpent.toNat * ethUsdPrice.toNat / 10 ^ 18 + paid.usdcSpent.toNat * 100
  due : paid.paidUsd.toNat ≤ usdAmount.toNat
  enough : payee ≠ 0 → w.worth instanceId ethUsdPrice = paid.value ethUsdPrice ∨
    usdAmount.toNat * 10 ^ 18 < paid.value ethUsdPrice + coin ethUsdPrice

theorem toNat_WEI : WEI.toNat = 10 ^ 18 := rfl

theorem toNat_USD : USD.toNat = 10 ^ 8 := rfl

theorem toNat_USDC_SCALE : USDC_SCALE.toNat = 10 ^ 6 := rfl

theorem toNat_zero : (0 : U256).toNat = 0 := rfl

theorem lesser_toNat {a b : U256} : (if a < b then a else b).toNat = min a.toNat b.toNat := by
  by_cases h : a < b
  · rw [if_pos h]
    rw [BitVec.lt_def] at h
    omega
  · rw [if_neg h]
    rw [BitVec.lt_def] at h
    omega

variable {paid : Payment}

/-- The ETH of a leg: rounded to whole wei, which the account has, or all that it has. -/
theorem payETH_leg {left : U256} (h : payETH w instanceId payee usdAmount ethUsdPrice = .ok (w', paid, left)) :
    paid.paidUsd.toNat = paid.ethSpent.toNat * ethUsdPrice.toNat / 10 ^ 18 ∧
    left.toNat + paid.paidUsd.toNat = usdAmount.toNat ∧
    (paid.ethSpent.toNat = w.ethOf instanceId ∨
      usdAmount.toNat * 10 ^ 18 < paid.ethSpent.toNat * ethUsdPrice.toNat + ethUsdPrice.toNat) := by
  rw [payETH] at h
  dsimp only at h
  by_cases hzero : (w.accounts instanceId).ethBalance = 0
  · rw [if_pos hzero, Except.ok.injEq] at h
    obtain ⟨-, hpaid⟩ := Prod.mk.inj h
    obtain ⟨rfl, rfl⟩ := Prod.mk.inj hpaid
    refine ⟨by simp, rfl, .inl ?_⟩
    rw [World.ethOf, hzero]
    rfl
  · rw [if_neg hzero] at h
    obtain ⟨product, hproduct, h⟩ := of_bind h
    obtain ⟨wantWei, hwant, h⟩ := of_bind h
    rw [arith_eq_ok, mul_eq_some, toNat_WEI] at hproduct
    obtain ⟨hprice, hwant⟩ := quotient_eq_ok.mp hwant
    rw [hproduct] at hwant
    have hpositive : 0 < ethUsdPrice.toNat := by
      rw [Nat.pos_iff_ne_zero]
      exact fun he => hprice (BitVec.toNat_inj.mp he)
    -- what is wanted is the amount to less than a wei
    have hwantLe : wantWei.toNat * ethUsdPrice.toNat ≤ usdAmount.toNat * 10 ^ 18 := by
      rw [hwant]
      exact Nat.div_mul_le_self _ _
    have hwantLt : usdAmount.toNat * 10 ^ 18 < wantWei.toNat * ethUsdPrice.toNat + ethUsdPrice.toNat := by
      have hlt := Nat.lt_mul_div_succ (usdAmount.toNat * 10 ^ 18) hpositive
      rw [← hwant, Nat.mul_comm ethUsdPrice.toNat, Nat.add_mul, Nat.one_mul] at hlt
      exact hlt
    set payWei := if widen (w.accounts instanceId).ethBalance < wantWei then
      widen (w.accounts instanceId).ethBalance else wantWei with hpayWei
    have hpayNat : payWei.toNat = min (w.ethOf instanceId) wantWei.toNat := by
      rw [hpayWei, lesser_toNat, toNat_widen _ (by decide)]
      rfl
    have hdebit : payWei.toNat = w.ethOf instanceId ∨ payWei.toNat = wantWei.toNat := by omega
    have hpayLe : payWei.toNat * ethUsdPrice.toNat ≤ usdAmount.toNat * 10 ^ 18 := by
      refine le_trans (Nat.mul_le_mul_right _ ?_) hwantLe
      omega
    have hpayLt : payWei.toNat = w.ethOf instanceId ∨
        usdAmount.toNat * 10 ^ 18 < payWei.toNat * ethUsdPrice.toNat + ethUsdPrice.toNat := by
      rcases hdebit with hall | hwanted
      · exact .inl hall
      · rw [hwanted]
        exact .inr hwantLt
    by_cases hpay : payWei = 0
    · rw [if_pos hpay, Except.ok.injEq] at h
      obtain ⟨-, hpaid⟩ := Prod.mk.inj h
      obtain ⟨rfl, rfl⟩ := Prod.mk.inj hpaid
      rw [hpay] at hpayLt
      exact ⟨by simp, rfl, hpayLt⟩
    · rw [if_neg hpay] at h
      obtain ⟨ethBalance, -, h⟩ := of_bind h
      obtain ⟨credit, -, h⟩ := of_bind h
      obtain ⟨value, hvalue, h⟩ := of_bind h
      obtain ⟨coveredUsd, hcovered, h⟩ := of_bind h
      obtain ⟨left', hleft, h⟩ := of_bind h
      obtain ⟨-, hpaid⟩ := Prod.mk.inj (ok_inj h)
      obtain ⟨rfl, rfl⟩ := Prod.mk.inj hpaid
      rw [arith_eq_ok, mul_eq_some] at hvalue
      rw [quotient_eq_ok, hvalue, toNat_WEI] at hcovered
      rw [surplus_eq_ok] at hleft
      have hcoveredLe : coveredUsd.toNat ≤ usdAmount.toNat := by
        rw [hcovered.2]
        omega
      refine ⟨hcovered.2, ?_, hpayLt⟩
      show left'.toNat + coveredUsd.toNat = _
      omega

/-- The USDC of a leg: rounded to whole units, which the account has, or all that it has. -/
theorem payUSDC_leg {before : Payment}
    (h : payUSDC imm w instanceId payee before usdAmount = .ok (w', paid)) (hbefore : before.usdcSpent = 0) :
    paid.paidUsd.toNat = before.paidUsd.toNat + paid.usdcSpent.toNat * 100 ∧
    paid.usdcSpent.toNat * 100 ≤ usdAmount.toNat ∧
    (paid.usdcSpent.toNat = w.usdcOf instanceId ∨ usdAmount.toNat < paid.usdcSpent.toNat * 100 + 100) := by
  rw [payUSDC] at h
  dsimp only at h
  by_cases hzero : usdAmount = 0 ∨ (w.accounts instanceId).usdcBalance = 0
  · rw [if_pos hzero, Except.ok.injEq] at h
    obtain ⟨-, rfl⟩ := Prod.mk.inj h
    rw [hbefore, toNat_zero]
    refine ⟨rfl, Nat.zero_le _, ?_⟩
    rcases hzero with rfl | hempty
    · exact .inr (by rw [toNat_zero]; omega)
    · rw [World.usdcOf, hempty]
      exact .inl rfl
  · rw [if_neg hzero] at h
    obtain ⟨product, hproduct, h⟩ := of_bind h
    obtain ⟨wantUsdc, hwant, h⟩ := of_bind h
    rw [arith_eq_ok, mul_eq_some, toNat_USDC_SCALE] at hproduct
    rw [quotient_eq_ok, hproduct, toNat_USD] at hwant
    set payUsdc := if widen (w.accounts instanceId).usdcBalance < wantUsdc then
      widen (w.accounts instanceId).usdcBalance else wantUsdc with hpayUsdc
    have hpayNat : payUsdc.toNat = min (w.usdcOf instanceId) wantUsdc.toNat := by
      rw [hpayUsdc, lesser_toNat, toNat_widen _ (by decide)]
      rfl
    have hpayLe : payUsdc.toNat * 100 ≤ usdAmount.toNat := by omega
    have hpayLt : payUsdc.toNat = w.usdcOf instanceId ∨ usdAmount.toNat < payUsdc.toNat * 100 + 100 := by
      omega
    by_cases hpay : payUsdc = 0
    · rw [if_pos hpay, Except.ok.injEq] at h
      obtain ⟨-, rfl⟩ := Prod.mk.inj h
      rw [hpay] at hpayLe hpayLt
      rw [hbefore]
      exact ⟨rfl, hpayLe, hpayLt⟩
    · rw [if_neg hpay] at h
      obtain ⟨usdcBalance, -, h⟩ := of_bind h
      obtain ⟨credit, -, h⟩ := of_bind h
      obtain ⟨product', hproduct', h⟩ := of_bind h
      obtain ⟨value, hvalue, h⟩ := of_bind h
      obtain ⟨paidUsd, hpaidUsd, h⟩ := of_bind h
      obtain ⟨-, rfl⟩ := Prod.mk.inj (ok_inj h)
      rw [arith_eq_ok, mul_eq_some, toNat_USD] at hproduct'
      rw [quotient_eq_ok, hproduct', toNat_USDC_SCALE] at hvalue
      rw [arith_eq_ok, add_eq_some] at hpaidUsd
      refine ⟨?_, hpayLe, hpayLt⟩
      show paidUsd.toNat = before.paidUsd.toNat + payUsdc.toNat * 100
      omega

theorem pay_leg (h : pay imm w instanceId payee usdAmount ethUsdPrice = .ok (w', paid)) :
    Leg w instanceId payee usdAmount ethUsdPrice paid := by
  rw [pay] at h
  have hcoin : 100 * 10 ^ 18 ≤ coin ethUsdPrice := le_max_right _ _
  have hwei : ethUsdPrice.toNat ≤ coin ethUsdPrice := le_max_left _ _
  by_cases hzero : usdAmount = 0 ∨ payee = 0
  · rw [if_pos hzero, Except.ok.injEq] at h
    obtain ⟨-, rfl⟩ := Prod.mk.inj h
    refine ⟨by simp, by simp, fun hpayee => .inr ?_⟩
    rw [hzero.resolve_right hpayee, toNat_zero]
    omega
  · rw [if_neg hzero] at h
    obtain ⟨⟨w₁, before, left⟩, heth, h⟩ := of_bind h
    obtain ⟨hpaid, hbefore⟩ := (payETH_eq_ok heth : Paid imm instanceId payee before w w₁ ∧ _)
    obtain ⟨-, hsame⟩ := payUSDC_eq_ok h hbefore
    obtain ⟨hreported, hleft, hwhole⟩ := payETH_leg heth
    obtain ⟨hreported', hdue, hwhole'⟩ := payUSDC_leg h hbefore
    have husdcOf : w₁.usdcOf instanceId = w.usdcOf instanceId := by
      have husdc := hpaid.usdc
      rw [hbefore, toNat_zero, Nat.add_zero] at husdc
      exact husdc
    rw [husdcOf] at hwhole'
    refine ⟨by rw [hsame]; omega, by omega, fun _ => ?_⟩
    rw [Payment.value, World.worth, hsame]
    rcases hwhole with hempty | hshort
    · -- the account has no more ETH, and what is left is paid in USDC
      rw [hempty] at hreported ⊢
      rcases hwhole' with hempty' | hshort'
      · rw [hempty']
        exact .inl rfl
      · refine .inr ?_
        omega
    · refine .inr ?_
      omega

theorem Leg.value_lt (h : Leg w instanceId payee usdAmount ethUsdPrice paid) :
    paid.value ethUsdPrice < (paid.paidUsd.toNat + 1) * 10 ^ 18 := by
  rw [Payment.value, h.reported]
  omega

theorem Paid.worth (h : Paid imm instanceId payee paid w w') (ethUsdPrice : U256) :
    w'.worth instanceId ethUsdPrice + paid.value ethUsdPrice = w.worth instanceId ethUsdPrice := by
  rw [World.worth, World.worth, Payment.value, ← h.eth, ← h.usdc]
  ring

theorem quoteLegs_le {t : Terms} {band : UInt8} {gasUsed feeDue gasDue : U256}
    (h : quoteLegs env w t band gasUsed ethUsdPrice = .ok (feeDue, gasDue)) :
    feeDue.toNat + gasDue.toNat ≤ t.maxPerRootUsd.toNat := by
  rw [quoteLegs] at h
  have hcap := toNat_widen t.maxPerRootUsd (by decide)
  set fee := if widen t.maxPerRootUsd < w.feePerRootUsd t.program band then widen t.maxPerRootUsd
    else w.feePerRootUsd t.program band with hfee
  have hfeeLe : fee.toNat ≤ t.maxPerRootUsd.toNat := by
    rw [hfee, lesser_toNat]
    omega
  obtain ⟨units, -, h⟩ := of_bind h
  by_cases hunits : units = 0
  · rw [if_pos hunits] at h
    obtain ⟨rfl, rfl⟩ := Prod.mk.inj (ok_inj h)
    exact hfeeLe
  · rw [if_neg hunits] at h
    obtain ⟨gasUsd, -, h⟩ := of_bind h
    obtain ⟨room, hroom, h⟩ := of_bind h
    obtain ⟨rfl, hgas⟩ := Prod.mk.inj (ok_inj h)
    rw [surplus_eq_ok, hcap] at hroom
    have hgasNat := congrArg BitVec.toNat hgas
    rw [lesser_toNat] at hgasNat
    omega

theorem payableUsd_le {a : Account} {payable : U256} (h : payableUsd a ethUsdPrice = .ok payable) :
    payable.toNat * 10 ^ 18 ≤ a.ethBalance.toNat * ethUsdPrice.toNat + a.usdcBalance.toNat * (100 * 10 ^ 18) := by
  obtain ⟨product, hproduct, h⟩ := of_bind h
  obtain ⟨usd, husd, h⟩ := of_bind h
  rw [arith_eq_ok, mul_eq_some, toNat_widen _ (by decide), toNat_USD] at hproduct
  rw [quotient_eq_ok, hproduct, toNat_USDC_SCALE] at husd
  by_cases hprice : ethUsdPrice ≠ 0
  · rw [if_pos hprice] at h
    obtain ⟨value, hvalue, h⟩ := of_bind h
    obtain ⟨eth, heth, h⟩ := of_bind h
    rw [arith_eq_ok, mul_eq_some, toNat_widen _ (by decide)] at hvalue
    rw [quotient_eq_ok, hvalue, toNat_WEI] at heth
    rw [arith_eq_ok, add_eq_some] at h
    omega
  · rw [if_neg hprice] at h
    obtain rfl := ok_inj h
    omega

section

variable {t : Terms} {recipient : Address} {gasUsed minPayoutUsd : U256} {p : Payout}

theorem PaysOut.legs (h : PaysOut H imm env w instanceId t recipient gasUsed minPayoutUsd p) :
    Leg w instanceId recipient p.feeDue p.ethUsdPrice p.fee ∧
    Leg p.afterFee instanceId env.msgSender p.gasDue p.ethUsdPrice p.gas ∧
    Paid imm instanceId recipient p.fee w p.afterFee ∧
    Paid imm instanceId env.msgSender p.gas p.afterFee p.afterGas :=
  ⟨pay_leg h.feePaid, pay_leg h.gasPaid, pay_eq_ok h.feePaid, pay_eq_ok h.gasPaid⟩

theorem PaysOut.reported_le (h : PaysOut H imm env w instanceId t recipient gasUsed minPayoutUsd p) :
    p.fee.paidUsd.toNat + p.gas.paidUsd.toNat ≤ t.maxPerRootUsd.toNat := by
  obtain ⟨hfee, hgas, -, -⟩ := h.legs
  have hdue := quoteLegs_le h.quoted
  have hfeeDue := hfee.due
  have hgasDue := hgas.due
  omega

theorem PaysOut.value_lt (h : PaysOut H imm env w instanceId t recipient gasUsed minPayoutUsd p) :
    p.fee.value p.ethUsdPrice + p.gas.value p.ethUsdPrice < (t.maxPerRootUsd.toNat + 2) * 10 ^ 18 := by
  obtain ⟨hfee, hgas, -, -⟩ := h.legs
  have hcap := h.reported_le
  have hfeeLt := hfee.value_lt
  have hgasLt := hgas.value_lt
  omega

theorem PaysOut.minimum_lt (h : PaysOut H imm env w instanceId t recipient gasUsed minPayoutUsd p)
    (hrecipient : recipient ≠ 0) (hsender : env.msgSender ≠ 0) :
    minPayoutUsd.toNat * 10 ^ 18 <
      p.fee.value p.ethUsdPrice + p.gas.value p.ethUsdPrice + 2 * coin p.ethUsdPrice := by
  obtain ⟨hfee, hgas, hfeePaid, hgasPaid⟩ := h.legs
  obtain ⟨payable, hpayable, hdue, henough⟩ := h.enough
  have hworth := payableUsd_le hpayable
  have hafterFee := hfeePaid.worth p.ethUsdPrice
  change payable.toNat * 10 ^ 18 ≤ w.worth instanceId p.ethUsdPrice at hworth
  have hcoin : 0 < coin p.ethUsdPrice := lt_of_lt_of_le (by decide) (le_max_right _ (100 * 10 ^ 18))
  have hdue' := Nat.mul_le_mul_right (10 ^ 18) hdue
  have henough' := (Nat.mul_le_mul_right (10 ^ 18) henough).trans hworth
  rw [Nat.add_mul] at hdue'
  rcases hfee.enough hrecipient with hempty | hfeeLt
  · rw [hempty] at henough'
    linarith only [henough', hcoin]
  · rcases hgas.enough hsender with hempty' | hgasLt
    · rw [← hafterFee, hempty'] at henough'
      linarith only [henough', hcoin]
    · linarith only [hdue', hfeeLt, hgasLt]

end

end Trustgraphs.ProvingVault
