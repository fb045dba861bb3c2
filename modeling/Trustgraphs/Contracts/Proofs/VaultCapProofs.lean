import Trustgraphs.Contracts.Proofs.VaultLegProofs
import Trustgraphs.Contracts.Proofs.VaultSolvencyProofs

/-!
# A settlement stays within the cap

What a settlement reports is at most the cap of its terms, and what it debits is worth less than two
units more (`Within`).
-/

namespace Trustgraphs.ProvingVault

open Outcome Evm

section

attribute [local instance] FixedBytes.fintype

variable {H : Hashes} {imm : Immutables} {env : Env} {w w' : World} {instanceId : B256} {payee : Address}
  {t : Terms} {checkpointId : Nat} {recipient : Address} {gasUsed minPayoutUsd feeUsd gasUsd : U256}

/-- How a settlement that returns leaves the vault: nothing is paid, or the fee and then the gas. -/
structure Within (H : Hashes) (imm : Immutables) (env : Env) (w : World) (instanceId : B256) (t : Terms)
    (checkpointId : Nat) (recipient : Address) (gasUsed minPayoutUsd : U256) (w' : World)
    (feeUsd gasUsd : U256) : Prop where
  cap : feeUsd.toNat + gasUsd.toNat ≤ t.maxPerRootUsd.toNat
  legs : w' = w ∨ ∃ p ethSpent usdcSpent, PaysOut H imm env w instanceId t recipient gasUsed minPayoutUsd p ∧
    Paid imm instanceId recipient p.fee w p.afterFee ∧
    Paid imm instanceId env.msgSender p.gas p.afterFee p.afterGas ∧
    p.Ends imm ⟨instanceId, checkpointId, t, recipient, env.msgSender, feeUsd, gasUsd, ethSpent, usdcSpent⟩
      minPayoutUsd w w' ∧
    ethSpent.toNat ≤ w.ethOf instanceId ∧ usdcSpent.toNat ≤ w.usdcOf instanceId ∧
    ethSpent.toNat * p.ethUsdPrice.toNat + usdcSpent.toNat * (100 * 10 ^ 18) <
      (t.maxPerRootUsd.toNat + 2) * 10 ^ 18

theorem settle_within (h : settle H imm env w instanceId t checkpointId recipient gasUsed minPayoutUsd =
      .ok (w', feeUsd, gasUsd)) :
    Within H imm env w instanceId t checkpointId recipient gasUsed minPayoutUsd w' feeUsd gasUsd := by
  rcases settle_cases h with ⟨hskip, -⟩ | ⟨p, ethSpent, usdcSpent, hpays, hends⟩
  · obtain ⟨rfl, hzero⟩ := Prod.mk.inj hskip
    obtain ⟨rfl, rfl⟩ := Prod.mk.inj hzero
    exact ⟨Nat.zero_le _, .inl rfl⟩
  · obtain ⟨hfeeUsd, hgasUsd, heth, husdc, -⟩ := id hends
    obtain ⟨-, -, hfee, hgas⟩ := hpays.legs
    refine ⟨?_, .inr ⟨p, ethSpent, usdcSpent, hpays, hfee, hgas, hends, ?_, ?_, ?_⟩⟩
    · change feeUsd = p.fee.paidUsd at hfeeUsd
      change gasUsd = p.gas.paidUsd at hgasUsd
      rw [hfeeUsd, hgasUsd]
      exact hpays.reported_le
    · change ethSpent.toNat = _ at heth
      have hfeeEth := hfee.eth
      have hgasEth := hgas.eth
      omega
    · change usdcSpent.toNat = _ at husdc
      have hfeeUsdc := hfee.usdc
      have hgasUsdc := hgas.usdc
      omega
    · change ethSpent.toNat = _ at heth
      change usdcSpent.toNat = _ at husdc
      rw [heth, husdc]
      refine lt_of_eq_of_lt ?_ hpays.value_lt
      rw [Payment.value, Payment.value]
      ring

section Exact

variable {α β : Type}

def Succeeds (x : Result α) : Prop := ∃ a, x = .ok a

theorem Succeeds.ok (a : α) : Succeeds (.ok a) := ⟨a, rfl⟩

variable {x : Result α} {a b : U256}

theorem Succeeds.bind {f : α → Result β} (hx : Succeeds x)
    (hf : ∀ a, x = .ok a → Succeeds (f a)) : Succeeds (x >>= f) := by
  obtain ⟨a, rfl⟩ := hx
  exact hf a rfl

theorem Succeeds.ite {c : Prop} [Decidable c] {y : Result α} (hx : c → Succeeds x) (hy : ¬ c → Succeeds y) :
    Succeeds (if c then x else y) := by
  by_cases h : c
  · rw [if_pos h]
    exact hx h
  · rw [if_neg h]
    exact hy h

theorem Succeeds.mul (h : a.toNat * b.toNat < 2 ^ 256) : Succeeds (arith (Checked.mul a b)) := by
  rw [Checked.mul, Checked.ofNat, if_pos h]
  exact .ok _

theorem Succeeds.add (h : a.toNat + b.toNat < 2 ^ 256) : Succeeds (arith (Checked.add a b)) := by
  rw [Checked.add, if_pos h]
  exact .ok _

theorem Succeeds.minus {n : ℕ} {a b : BitVec n} (h : b.toNat ≤ a.toNat) : Succeeds (minus a b) := by
  rw [Evm.minus, Checked.sub, if_pos h]
  exact .ok _

theorem Succeeds.quotient (h : b ≠ 0) : Succeeds (quotient a b) :=
  .ite (fun hzero => absurd hzero h) fun _ => .ok _

theorem Succeeds.surplus : Succeeds (surplus a b) := by
  refine .ite (fun h => .minus ?_) fun _ => .ok _
  rw [BitVec.lt_def] at h
  exact h.le

theorem mul_overflows (h : ¬ a.toNat * b.toNat < 2 ^ 256) :
    (arith (Checked.mul a b) : Result U256) = .error .overflow := by
  rw [Checked.mul, Checked.ofNat, if_neg h]
  rfl

/-- A revert of the checked arithmetic. -/
def Arithmetic : Revert → Prop
  | .overflow => True
  | .underflow => True
  | .divisionByZero => True
  | _ => False

/-- A computation that does not end for its arithmetic. -/
def Exact (x : Result α) : Prop := ∀ e, x = .error e → ¬ Arithmetic e

theorem Succeeds.exact (h : Succeeds x) : Exact x := by
  obtain ⟨a, rfl⟩ := h
  exact fun _ he => absurd he (by simp)

theorem Exact.error {e : Revert} (h : ¬ Arithmetic e) : Exact (.error e : Result α) :=
  fun _ he => Except.error.inj he ▸ h

theorem Exact.bind {f : α → Result β} (hx : Exact x) (hf : ∀ a, x = .ok a → Exact (f a)) : Exact (x >>= f) := by
  intro e h
  rcases bind_eq_error.mp h with h | ⟨a, ha, h⟩
  · exact hx e h
  · exact hf a ha e h

theorem Exact.ite {c : Prop} [Decidable c] {y : Result α} (hx : c → Exact x) (hy : ¬ c → Exact y) :
    Exact (if c then x else y) := by
  by_cases h : c
  · rw [if_pos h]
    exact hx h
  · rw [if_neg h]
    exact hy h

theorem Exact.tryGet {x : Answer α} : Exact x.tryGet := by
  cases x with
  | value a => exact (Succeeds.ok _).exact
  | reverted => exact (Succeeds.ok _).exact
  | undecodable => exact .error fun h => h

theorem Exact.skip : Exact (skip w minPayoutUsd) := .ite (fun _ => .error fun h => h) fun _ => (Succeeds.ok _).exact

end Exact

structure Words (w : World) : Prop where
  eth : w.ethBalance < 2 ^ 256
  usdc : w.usdcBalance < 2 ^ 256

def unitsOf (w : World) (gasUsed : U256) : ℕ := min gasUsed.toNat w.maxGasUnitsPerClaim.toNat * 4 / 5

/-- At this price the gas to reimburse and the ETH of the account fit into a word. -/
structure Fits (env : Env) (w : World) (instanceId : B256) (gasUsed ethUsdPrice : U256) : Prop where
  gas : unitsOf w gasUsed * env.basefee.toNat * ethUsdPrice.toNat < 2 ^ 256
  eth : w.ethOf instanceId * ethUsdPrice.toNat < 2 ^ 256

/-- A settlement gets as far as a price: its policy is enabled, its interval is over, its size is priced and
its statement unpaid. -/
structure Priced (H : Hashes) (imm : Immutables) (env : Env) (w : World) (instanceId : B256) (t : Terms)
    (ethUsdPrice : U256) : Prop where
  enabled : t.maxPerRootUsd ≠ 0
  cadence : ¬ (t.lastPaidBlock ≠ 0 ∧
    w.blockNumber.toNat < t.lastPaidBlock.toNat + t.minPaidIntervalBlocks.toNat)
  band : ¬ (t.sizeKnown = false ∨ bandOf H t.program t.leafCount t.anchorCount = 0)
  unpaid : ¬ w.paidStatement instanceId t.statement = true
  price : ethUsd imm env w = .ok (some ethUsdPrice)

theorem Solvent.room (h : Solvent imm w) (hwords : Words w) (instanceId : B256) (payee : Address) :
    w.owed payee ETH + w.ethOf instanceId < 2 ^ 256 ∧
    w.owed payee imm.usdc + w.usdcOf instanceId < 2 ^ 256 := by
  have hle : ∀ {ι : Type} [Fintype ι] (f : ι → ℕ) (i : ι), f i ≤ ∑ j, f j :=
    fun f i => Finset.single_le_sum (fun _ _ => Nat.zero_le _) (Finset.mem_univ i)
  have heth := h.eth
  have husdc := h.usdc
  have hethWord := hwords.eth
  have husdcWord := hwords.usdc
  have hethOf := hle (fun i => w.ethOf i) instanceId
  have husdcOf := hle (fun i => w.usdcOf i) instanceId
  have hethOwed := hle (fun a => w.owed a ETH) payee
  have husdcOwed := hle (fun a => w.owed a imm.usdc) payee
  omega

theorem toNat_unitsOf {units : U256} (h : refundSafeGasUnits
    (if gasUsed < w.maxGasUnitsPerClaim then gasUsed else w.maxGasUnitsPerClaim) = .ok units) :
    units.toNat = unitsOf w gasUsed := by
  obtain ⟨product, hproduct, h⟩ := of_bind h
  rw [arith_eq_ok, Checked.mul_eq_some, lesser_toNat] at hproduct
  rw [quotient_eq_ok, hproduct] at h
  exact h.2

theorem Succeeds.units (hmax : w.maxGasUnitsPerClaim.toNat ≤ 30000000) : Succeeds (refundSafeGasUnits
    (if gasUsed < w.maxGasUnitsPerClaim then gasUsed else w.maxGasUnitsPerClaim)) := by
  refine .bind (.mul ?_) fun _ _ => .quotient (by decide)
  rw [lesser_toNat]
  have hfour : REFUND_SAFE_NUMERATOR.toNat = 4 := rfl
  rw [hfour]
  omega

variable {ethUsdPrice : U256}

theorem Succeeds.quoteLegs {band : UInt8} (hmax : w.maxGasUnitsPerClaim.toNat ≤ 30000000)
    (hprice : ethUsdPrice ≠ 0) (hfits : unitsOf w gasUsed * env.basefee.toNat * ethUsdPrice.toNat < 2 ^ 256) :
    Succeeds (quoteLegs env w t band gasUsed ethUsdPrice) := by
  refine .bind (.units hmax) fun units hunits => .ite (fun _ => .ok _) fun _ => ?_
  have hpositive : 0 < ethUsdPrice.toNat := by
    rw [Nat.pos_iff_ne_zero]
    exact fun he => hprice (BitVec.toNat_inj.mp he)
  rw [← toNat_unitsOf hunits] at hfits
  have hcost : units.toNat * env.basefee.toNat < 2 ^ 256 :=
    lt_of_le_of_lt (Nat.le_mul_of_pos_right _ hpositive) hfits
  refine .bind (.bind (.mul hcost) fun cost hcost => .bind (.mul ?_) fun _ _ => .quotient (by decide))
    fun _ _ => .bind .surplus fun _ _ => .ok _
  rw [arith_eq_ok, Checked.mul_eq_some] at hcost
  rw [hcost]
  exact hfits

theorem Succeeds.payableUsd {a : Account}
    (hfits : a.ethBalance.toNat * ethUsdPrice.toNat < 2 ^ 256) : Succeeds (payableUsd a ethUsdPrice) := by
  have husdcLt : (widen a.usdcBalance).toNat < 2 ^ 128 := by
    rw [toNat_widen _ (by decide)]
    exact a.usdcBalance.isLt
  refine .bind (.mul ?_) fun product hproduct => .bind (.quotient (by decide)) fun usd husd =>
    .ite (fun _ => ?_) fun _ => .ok _
  · rw [toNat_USD]
    omega
  · rw [arith_eq_ok, Checked.mul_eq_some, toNat_USD] at hproduct
    rw [quotient_eq_ok, hproduct, toNat_USDC_SCALE] at husd
    rw [← toNat_widen a.ethBalance (by decide)] at hfits
    refine .bind (.mul hfits) fun value hvalue => .bind (.quotient (by decide)) fun eth heth => .add ?_
    rw [arith_eq_ok, Checked.mul_eq_some] at hvalue
    rw [quotient_eq_ok, hvalue, toNat_WEI] at heth
    omega

/-- A leg under the cap is paid exactly. -/
theorem Succeeds.pay {usdAmount : U256} (hprice : ethUsdPrice ≠ 0)
    (hamount : usdAmount.toNat < 2 ^ 96) (hfits : w.ethOf instanceId * ethUsdPrice.toNat < 2 ^ 256)
    (hroom : w.owed payee ETH + w.ethOf instanceId < 2 ^ 256 ∧
      w.owed payee imm.usdc + w.usdcOf instanceId < 2 ^ 256)
    (hne : imm.usdc ≠ ETH) : Succeeds (pay imm w instanceId payee usdAmount ethUsdPrice) := by
  refine .ite (fun _ => .ok _) fun _ => .bind ?_ fun r hr => ?_
  · refine .ite (fun _ => .ok _) fun _ => .bind (.mul ?_) fun _ _ => .bind (.quotient hprice) fun wantWei _ => ?_
    · rw [toNat_WEI]
      omega
    set payWei := if widen (w.accounts instanceId).ethBalance < wantWei then
      widen (w.accounts instanceId).ethBalance else wantWei with hpayWei
    have hpayLe : payWei.toNat ≤ w.ethOf instanceId := toNat_atMost hpayWei
    refine .ite (fun _ => .ok _) fun _ => .bind (.minus ?_) fun _ _ => .bind (.add ?_) fun _ _ =>
      .bind (.mul ?_) fun _ _ => .bind (.quotient (by decide)) fun _ _ => .bind .surplus fun _ _ => .ok _
    · rw [toNat_narrow hpayLe]
      exact hpayLe
    · exact lt_of_le_of_lt (Nat.add_le_add_left hpayLe _) hroom.1
    · exact lt_of_le_of_lt (Nat.mul_le_mul_right _ hpayLe) hfits
  · obtain ⟨w₁, before, left⟩ := r
    obtain ⟨hpaid, hbefore⟩ : Paid imm instanceId payee before w w₁ ∧ _ := payETH_eq_ok hr
    obtain ⟨hreported, hleft, -⟩ := payETH_leg hr
    have husdcOf : w₁.usdcOf instanceId = w.usdcOf instanceId := by
      have husdc := hpaid.usdc
      rw [hbefore, toNat_zero, Nat.add_zero] at husdc
      exact husdc
    have howed : w₁.owed payee imm.usdc = w.owed payee imm.usdc := by
      rw [hpaid.credit, hbefore, toNat_zero, if_neg fun h => hne h.2]
      simp
    refine .ite (fun _ => .ok _) fun _ => .bind (.mul ?_) fun product hproduct =>
      .bind (.quotient (by decide)) fun wantUsdc hwant => ?_
    · rw [toNat_USDC_SCALE]
      omega
    change arith (Checked.mul left USDC_SCALE) = _ at hproduct
    rw [arith_eq_ok, Checked.mul_eq_some, toNat_USDC_SCALE] at hproduct
    rw [quotient_eq_ok, hproduct, toNat_USD] at hwant
    dsimp only
    set payUsdc := if widen (w₁.accounts instanceId).usdcBalance < wantUsdc then
      widen (w₁.accounts instanceId).usdcBalance else wantUsdc with hpayUsdc
    have hpayLe : payUsdc.toNat ≤ w₁.usdcOf instanceId := toNat_atMost hpayUsdc
    have hwantLe : payUsdc.toNat ≤ wantUsdc.toNat := by
      rw [hpayUsdc, lesser_toNat]
      exact min_le_right _ _
    refine .ite (fun _ => .ok _) fun _ => .bind (.minus ?_) fun _ _ => .bind (.add ?_) fun _ _ =>
      .bind (.mul ?_) fun product' hproduct' => .bind (.quotient (by decide)) fun value hvalue =>
        .bind (.add ?_) fun _ _ => .ok _
    · rw [toNat_narrow hpayLe]
      exact hpayLe
    · refine lt_of_le_of_lt (Nat.add_le_add_left hpayLe _) ?_
      rw [husdcOf]
      change w₁.owed payee imm.usdc + _ < _
      rw [howed]
      exact hroom.2
    · rw [toNat_USD]
      omega
    · rw [arith_eq_ok, Checked.mul_eq_some, toNat_USD] at hproduct'
      rw [quotient_eq_ok, hproduct', toNat_USDC_SCALE] at hvalue
      omega

theorem Exact.ethUsd : Exact (ethUsd imm env w) := by
  refine .bind .tryGet fun answer _ => ?_
  cases answer with
  | none => exact (Succeeds.ok _).exact
  | some answer =>
    refine .ite (fun _ => (Succeeds.ok _).exact) fun _ => .ite (fun _ => (Succeeds.ok _).exact) fun _ =>
      .ite (fun _ => (Succeeds.ok _).exact) fun h => Succeeds.exact ?_
    rw [not_or, BitVec.lt_def, not_lt] at h
    exact .bind (.minus h.2) fun _ _ => .ite (fun _ => .ok _) fun _ => .ok _

theorem ethUsd_ne_zero (h : ethUsd imm env w = .ok (some ethUsdPrice)) : ethUsdPrice ≠ 0 := by
  obtain ⟨answer, -, h⟩ := of_bind h
  rcases answer with _ | ⟨answer, updatedAt⟩
  · exact absurd h (by simp)
  dsimp only at h
  by_cases hsign : answer.toInt ≤ 0
  · rw [if_pos hsign] at h
    exact absurd h (by simp)
  rw [if_neg hsign] at h
  by_cases hband : answer < imm.minEthUsd ∨ imm.maxEthUsd < answer
  · rw [if_pos hband] at h
    exact absurd h (by simp)
  rw [if_neg hband] at h
  by_cases hahead : updatedAt = 0 ∨ MerkleSnapshot.uint256 w.timestamp < updatedAt
  · rw [if_pos hahead] at h
    exact absurd h (by simp)
  rw [if_neg hahead] at h
  obtain ⟨age, -, h⟩ := of_bind h
  by_cases hage : imm.feedMaxStaleness.toNat < age.toNat
  · rw [if_pos hage] at h
    exact absurd h (by simp)
  rw [if_neg hage] at h
  obtain rfl := Option.some.inj (ok_inj h)
  rintro rfl
  exact hsign (by decide)

/-- A priced settlement whose amounts fit is exact. -/
theorem Exact.settle (hne : imm.usdc ≠ ETH) (hsolvent : Solvent imm w) (hwords : Words w)
    (hmax : w.maxGasUnitsPerClaim.toNat ≤ 30000000)
    (hfits : ∀ ethUsdPrice, Priced H imm env w instanceId t ethUsdPrice →
      Fits env w instanceId gasUsed ethUsdPrice) :
    Exact (settle H imm env w instanceId t checkpointId recipient gasUsed minPayoutUsd) := by
  refine .ite (fun _ => .skip) fun henabled => .ite (fun _ => .skip) fun hcadence =>
    .ite (fun _ => .skip) fun hband => .ite (fun _ => .skip) fun hunpaid => .bind .ethUsd fun price hprice => ?_
  cases price with
  | none => exact .skip
  | some ethUsdPrice =>
    have hfit := hfits ethUsdPrice ⟨henabled, hcadence, hband, hunpaid, hprice⟩
    have hnonzero := ethUsd_ne_zero hprice
    have hlegs : Succeeds (quoteLegs env w t (bandOf H t.program t.leafCount t.anchorCount) gasUsed
      ethUsdPrice) := .quoteLegs hmax hnonzero hfit.gas
    refine .bind hlegs.exact fun legs hlegs => ?_
    obtain ⟨feeDue, gasDue⟩ := legs
    have hdue := quoteLegs_le hlegs
    have hcap := t.maxPerRootUsd.isLt
    have htotal : Succeeds (arith (Checked.add feeDue gasDue)) := .add (by omega)
    have hpayable : Succeeds (payableUsd (w.accounts instanceId) ethUsdPrice) := .payableUsd hfit.eth
    refine .bind htotal.exact fun total _ => .bind hpayable.exact fun payable _ =>
      .ite (fun _ => .error fun h => h) fun _ => ?_
    have hfee : Succeeds (pay imm w instanceId recipient feeDue ethUsdPrice) :=
      .pay hnonzero (by omega) hfit.eth (hsolvent.room hwords _ _) hne
    refine .bind hfee.exact fun fee hfee => ?_
    obtain ⟨w₁, fee⟩ := fee
    have hfeePaid := pay_eq_ok hfee
    have hethOf : w₁.ethOf instanceId ≤ w.ethOf instanceId := by
      have heth := hfeePaid.eth
      omega
    have hwords₁ : Words w₁ := by
      rw [hfeePaid.frame]
      exact ⟨hwords.eth, hwords.usdc⟩
    have hgas : Succeeds (pay imm w₁ instanceId env.msgSender gasDue ethUsdPrice) :=
      .pay hnonzero (by omega) (lt_of_le_of_lt (Nat.mul_le_mul_right _ hethOf) hfit.eth)
        ((hfeePaid.solvent hne hsolvent).room hwords₁ _ _) hne
    refine .bind hgas.exact fun gas hgas => ?_
    obtain ⟨w₂, gas⟩ := gas
    have hgasPaid := pay_eq_ok hgas
    have hspent : fee.ethSpent.toNat + gas.ethSpent.toNat < 2 ^ 256 ∧
        fee.usdcSpent.toNat + gas.usdcSpent.toNat < 2 ^ 256 := by
      have hethLt := (w.accounts instanceId).ethBalance.isLt
      have husdcLt := (w.accounts instanceId).usdcBalance.isLt
      change w.ethOf instanceId < _ at hethLt
      change w.usdcOf instanceId < _ at husdcLt
      have hfeeEth := hfeePaid.eth
      have hgasEth := hgasPaid.eth
      have hfeeUsdc := hfeePaid.usdc
      have hgasUsdc := hgasPaid.usdc
      omega
    exact .bind (Succeeds.add hspent.1).exact fun _ _ => .bind (Succeeds.add hspent.2).exact fun _ _ =>
      .ite (fun _ => (Succeeds.ok _).exact) fun _ => .bind .skip fun _ _ => (Succeeds.ok _).exact

theorem quoteLegs_overflows {band : UInt8} (hmax : w.maxGasUnitsPerClaim.toNat ≤ 30000000)
    (h : ¬ unitsOf w gasUsed * env.basefee.toNat * ethUsdPrice.toNat < 2 ^ 256) :
    quoteLegs env w t band gasUsed ethUsdPrice = .error .overflow := by
  obtain ⟨units, hunits⟩ : Succeeds (refundSafeGasUnits
    (if gasUsed < w.maxGasUnitsPerClaim then gasUsed else w.maxGasUnitsPerClaim)) := .units hmax
  rw [← toNat_unitsOf hunits] at h
  have hnonzero : units ≠ 0 := by
    rintro rfl
    exact h (by simp)
  rw [quoteLegs, hunits]
  show (if units = 0 then _ else _) = _
  rw [if_neg hnonzero]
  refine bind_eq_error.mpr (.inl ?_)
  by_cases hcost : units.toNat * env.basefee.toNat < 2 ^ 256
  · obtain ⟨cost, hcost⟩ := Succeeds.mul hcost
    have hcostNat := Checked.mul_eq_some.mp (arith_eq_ok.mp hcost)
    rw [← hcostNat] at h
    rw [gasUsdOf, hcost, ok_bind, mul_overflows h]
    rfl
  · rw [gasUsdOf, mul_overflows hcost]
    rfl

theorem settle_overflows (hmax : w.maxGasUnitsPerClaim.toNat ≤ 30000000)
    (hpriced : Priced H imm env w instanceId t ethUsdPrice) (h : ¬ Fits env w instanceId gasUsed ethUsdPrice) :
    settle H imm env w instanceId t checkpointId recipient gasUsed minPayoutUsd = .error .overflow := by
  rw [settle, if_neg hpriced.enabled, if_neg hpriced.cadence]
  dsimp only
  rw [if_neg hpriced.band, if_neg hpriced.unpaid, hpriced.price]
  show (quoteLegs env w t (bandOf H t.program t.leafCount t.anchorCount) gasUsed ethUsdPrice >>= _) = _
  by_cases hgas : unitsOf w gasUsed * env.basefee.toNat * ethUsdPrice.toNat < 2 ^ 256
  · have hnonzero := ethUsd_ne_zero hpriced.price
    obtain ⟨⟨feeDue, gasDue⟩, hlegs⟩ : Succeeds (quoteLegs env w t (bandOf H t.program t.leafCount t.anchorCount)
      gasUsed ethUsdPrice) := .quoteLegs hmax hnonzero hgas
    have hdue := quoteLegs_le hlegs
    have hcap := t.maxPerRootUsd.isLt
    obtain ⟨total, htotal⟩ : Succeeds (arith (Checked.add feeDue gasDue)) := .add (by omega)
    have heth : ¬ (widen (w.accounts instanceId).ethBalance).toNat * ethUsdPrice.toNat < 2 ^ 256 := by
      rw [toNat_widen _ (by decide)]
      exact fun heth => h ⟨hgas, heth⟩
    have husdcLt : (widen (w.accounts instanceId).usdcBalance).toNat * USD.toNat < 2 ^ 256 := by
      have hlt := (w.accounts instanceId).usdcBalance.isLt
      rw [toNat_widen _ (by decide), toNat_USD]
      omega
    obtain ⟨product, hproduct⟩ := Succeeds.mul husdcLt
    obtain ⟨usd, husd⟩ : Succeeds (quotient product USDC_SCALE) := .quotient (by decide)
    have hpayable : payableUsd (w.accounts instanceId) ethUsdPrice = .error .overflow := by
      rw [payableUsd, hproduct, ok_bind, husd, ok_bind, if_pos hnonzero, mul_overflows heth]
      rfl
    rw [hlegs, ok_bind]
    dsimp only
    rw [htotal, ok_bind, hpayable]
    rfl
  · rw [quoteLegs_overflows hmax hgas]
    rfl

theorem Opened.units {call : Call} (hopened : Opened imm w call w')
    (h : w.maxGasUnitsPerClaim.toNat ≤ 30000000) : w'.maxGasUnitsPerClaim.toNat ≤ 30000000 := by
  cases hopened with
  | fees _ fees max nominal roles hmax =>
    rcases hmax with hsame | hle
    · exact hsame ▸ h
    · exact hle
  | depositedETH => exact h
  | depositedUSDC => exact h

theorem kept_units : Kept H imm (fun _ _ => True) fun w => w.maxGasUnitsPerClaim.toNat ≤ 30000000 where
  opened _ _ hopened h := hopened.units h
  guarded _ _ hguarded h := by
    cases hguarded with
    | nothing => exact h
    | migrated => exact h
    | settled s _ hs =>
      obtain ⟨fee, gas, w₁, w₂, hfee, hgas, -, -, rfl⟩ := hs.legs
      show w₂.maxGasUnitsPerClaim.toNat ≤ _
      rw [hgas.frame, hfee.frame]
      exact h
    | policySet => exact h
    | requested => exact h
    | cancelled => exact h
    | withdrawn => exact h
    | creditWithdrawn => exact h
  lock _ h := h
  outside o h := by
    cases o with
    | eth amount => exact h
    | usdc amount => exact h
  between b hb h := by
    rw [advance, Option.ite_none_left_eq_some] at hb
    rw [← Option.some.inj hb.2]
    exact h

theorem Start.units (h : Start imm w) : w.maxGasUnitsPerClaim.toNat ≤ 30000000 := by
  obtain ⟨registry, feed, feeSetter, admin, feedDecimals, stablecoinDecimals, hok⟩ := h.constructed
  obtain ⟨-, hok⟩ := of_guard hok
  obtain ⟨-, hok⟩ := of_guard hok
  obtain ⟨-, hok⟩ := of_guard hok
  rw [← (Prod.mk.inj (ok_inj hok)).2]
  exact (by decide : (1500000 : U256).toNat ≤ 30000000)

/-- A settlement does not end for its arithmetic, and when it returns it is within the cap. -/
structure Capped (H : Hashes) (imm : Immutables) (env : Env) (w : World) (instanceId : B256) (t : Terms)
    (checkpointId : Nat) (recipient : Address) (gasUsed minPayoutUsd : U256) : Prop where
  exact : Exact (settle H imm env w instanceId t checkpointId recipient gasUsed minPayoutUsd)
  within : ∀ w' feeUsd gasUsd, settle H imm env w instanceId t checkpointId recipient gasUsed minPayoutUsd =
    .ok (w', feeUsd, gasUsd) →
    Within H imm env w instanceId t checkpointId recipient gasUsed minPayoutUsd w' feeUsd gasUsd

/-- At every point of a run a settlement is capped exactly when its amounts fit into words at the price that it
gets to. Those that return are within the cap anyway. -/
theorem run_settle_capped (H : Hashes) (imm : Immutables) (w : World) (hstart : Start imm w)
    (events : List Event) (hwords : Words (run H imm w events).world) (env : Env) (instanceId : B256) (t : Terms)
    (checkpointId : Nat) (recipient : Address) (gasUsed minPayoutUsd : U256) :
    (Capped H imm env (run H imm w events).world instanceId t checkpointId recipient gasUsed minPayoutUsd ↔
      ∀ ethUsdPrice, Priced H imm env (run H imm w events).world instanceId t ethUsdPrice →
        Fits env (run H imm w events).world instanceId gasUsed ethUsdPrice) ∧
    ∀ w' feeUsd gasUsd, settle H imm env (run H imm w events).world instanceId t checkpointId recipient gasUsed
      minPayoutUsd = .ok (w', feeUsd, gasUsd) →
      Within H imm env (run H imm w events).world instanceId t checkpointId recipient gasUsed minPayoutUsd w'
        feeUsd gasUsd := by
  obtain ⟨hne, hw⟩ := hstart.solvent
  have hsolvent : Solvent imm (run H imm w events).world :=
    (kept_solvent hne).run_holds hstart hw (CallStack.allowed_true w events)
  have hmax : (run H imm w events).world.maxGasUnitsPerClaim.toNat ≤ 30000000 :=
    kept_units.run_holds hstart hstart.units (CallStack.allowed_true w events)
  refine ⟨⟨fun h ethUsdPrice hpriced => ?_, fun h => ?_⟩, fun _ _ _ => settle_within⟩
  · by_contra hfits
    exact h.exact _ (settle_overflows hmax hpriced hfits) trivial
  · exact ⟨.settle hne hsolvent hwords hmax h, fun _ _ _ => settle_within⟩

end

namespace VaultExample

def terms : Terms := ⟨snapshot, program, 2000000000, 10, 0, 3, 0, true, statement⟩

def submitter : Env := ⟨prover, 10000000000, view, true⟩

theorem setup_facts : (constructed.toOption.map fun r =>
    ((run hashes imm (start r.2) setup).world.ethBalance, (run hashes imm (start r.2) setup).world.usdcBalance,
      (run hashes imm (start r.2) setup).world.ethOf (word 1),
      (run hashes imm (start r.2) setup).world.maxGasUnitsPerClaim,
      (ethUsd imm submitter (run hashes imm (start r.2) setup).world).toOption)) =
    some (1000000000000000000, 100000000, 1000000000000000000, 1500000, some (some 300000000000)) := by
  decide +kernel

def unbounded : Immutables := { imm with maxEthUsd := 2 ^ 255 }

def constructedUnbounded : Result (Immutables × Storage) :=
  constructor (addr 0x77) (addr 0x11) (addr 0x22) (addr 0x33) 3600 10000000000 (2 ^ 255) governance
    governance 8 6

def soaring : Env := { submitter with view := { view with latestRoundData := .value (2 ^ 200, 1000000) } }

def isOverflow {α : Type} : Result α → Bool
  | .error .overflow => true
  | _ => false

theorem eq_of_isOverflow {α : Type} {x : Result α} (h : isOverflow x = true) : x = .error .overflow := by
  cases x with
  | ok a => exact absurd h (by simp [isOverflow])
  | error e =>
    cases e with
    | overflow => rfl
    | _ => exact absurd h (by simp [isOverflow])

theorem unbounded_overflows : (constructedUnbounded.toOption.map fun r =>
    (isOverflow (settle hashes unbounded soaring (run hashes unbounded (start r.2) setup).world (word 1) terms 0
      prover 0 0), (run hashes unbounded (start r.2) setup).world.ethBalance,
      (run hashes unbounded (start r.2) setup).world.usdcBalance)) =
    some (true, 1000000000000000000, 100000000) := by
  decide +kernel

theorem exists_start_unbounded : ∃ s, constructedUnbounded = .ok (unbounded, s) ∧ Start unbounded (start s) := by
  have hsome : constructedUnbounded.toOption.isSome = true := by decide +kernel
  obtain ⟨⟨imm', s⟩, hs⟩ := Option.isSome_iff_exists.mp hsome
  rw [toOption_eq_some] at hs
  have himm : imm' = unbounded := by
    have hok := hs
    rw [constructedUnbounded, constructor, ite_error_eq_ok, ite_error_eq_ok, ite_error_eq_ok] at hok
    exact (Prod.mk.inj (ok_inj hok.2.2.2)).1.symm
  subst himm
  exact ⟨s, hs, ⟨addr 0x11, addr 0x33, governance, governance, 8, 6, hs⟩, rfl,
    fun h => absurd (show (100 : UInt64) = 0 from h) (by decide)⟩

end VaultExample

open VaultExample in
/-- The settlement of the first community after the setup is capped. -/
theorem run_settle_capped_setup : ∃ s, Start imm (start s) ∧
    Capped hashes imm submitter (run hashes imm (start s) setup).world (word 1) terms 0 prover 200000 0 := by
  obtain ⟨s, hs, hstart⟩ := exists_start
  have hfacts := setup_facts
  rw [hs] at hfacts
  obtain ⟨heth, hrest⟩ := Prod.mk.inj (Option.some.inj hfacts)
  obtain ⟨husdc, hrest⟩ := Prod.mk.inj hrest
  obtain ⟨hethOf, hrest⟩ := Prod.mk.inj hrest
  obtain ⟨hunits, hprice⟩ := Prod.mk.inj hrest
  refine ⟨s, hstart, (run_settle_capped hashes imm (start s) hstart setup ⟨?_, ?_⟩ submitter (word 1) terms 0 prover
    200000 0).1.mpr fun ethUsdPrice hpriced => ?_⟩
  · rw [heth]
    decide
  · rw [husdc]
    decide
  · have hsome := hpriced.price
    rw [← toOption_eq_some, hprice] at hsome
    obtain rfl := Option.some.inj (Option.some.inj hsome)
    refine ⟨?_, ?_⟩
    · rw [unitsOf, hunits]
      decide
    · rw [hethOf]
      decide

open VaultExample in
/-- One ETH at an accepted price of `2 ^ 200` overflows, and the settlement reverts. -/
theorem not_run_settle_capped : ∃ s, Start unbounded (start s) ∧
    Words (run hashes unbounded (start s) setup).world ∧
    settle hashes unbounded soaring (run hashes unbounded (start s) setup).world (word 1) terms 0 prover 0 0 =
      .error .overflow ∧
    ¬ Capped hashes unbounded soaring (run hashes unbounded (start s) setup).world (word 1) terms 0 prover 0 0 := by
  obtain ⟨s, hs, hstart⟩ := exists_start_unbounded
  have hfacts := unbounded_overflows
  rw [hs] at hfacts
  obtain ⟨hoverflow, hrest⟩ := Prod.mk.inj (Option.some.inj hfacts)
  obtain ⟨heth, husdc⟩ := Prod.mk.inj hrest
  have hsettle := eq_of_isOverflow hoverflow
  refine ⟨s, hstart, ⟨?_, ?_⟩, hsettle, fun h => h.exact _ hsettle trivial⟩
  · rw [heth]
    decide
  · rw [husdc]
    decide

end Trustgraphs.ProvingVault
