import Trustgraphs.Contracts.MerkleFundDistributor

/-!
# What the calls of the distributor do

A call outside the lock moves a parameter, the fee or the pause (`Opened`); a guarded call books a
round, a claim or a sweep and sends what it has booked (`Guarded`).
-/

namespace Trustgraphs.MerkleFundDistributor

open Evm Outcome Function Checked CallStack BitVec

variable {H : Hashes} {self : Address} {env : Env} {w w' : World}

def DistributionState.outstanding (d : DistributionState) : ℕ :=
  d.amountFunded.toNat - d.feeAmount.toNat - d.amountDistributed.toNat - d.sweptAmount.toNat

def outstandingOf (ds : List DistributionState) (token : Address) : ℕ :=
  (ds.map fun d => if d.token = token then d.outstanding else 0).sum

def World.outstanding (w : World) (token : Address) : ℕ := outstandingOf w.distributions token

def World.elapsed (w : World) : ℕ :=
  w.totalPausedDuration.toNat + if w.paused then w.timestamp.toNat - w.pauseStartedAt.toNat else 0

def Closed (w : World) (i : ℕ) (d : DistributionState) : Prop :=
  d.claimDeadline ≠ 0 ∧
    d.claimDeadline.toNat + w.elapsed < w.timestamp.toNat + (w.distributionPausedDuration i).toNat

structure Sound (w : World) : Prop where
  fee : w.feePercentage.toNat ≤ FEE_RANGE.toNat
  pendingFee : w.pendingFeePercentage.toNat ≤ FEE_RANGE.toNat
  round : ∀ d ∈ w.distributions,
    d.feeAmount.toNat + d.amountDistributed.toNat + d.sweptAmount.toNat ≤ d.amountFunded.toNat
  solvent : ∀ token, w.outstanding token ≤ w.balance token
  started : w.paused = true → w.pauseStartedAt.toNat ≤ w.timestamp.toNat
  elapsed : w.elapsed ≤ w.timestamp.toNat
  baseline : ∀ i < w.distributions.length, (w.distributionPausedDuration i).toNat ≤ w.totalPausedDuration.toNat
  swept : ∀ i d, w.distributions[i]? = some d → d.sweptAmount ≠ 0 → Closed w i d

theorem pausedDuration_eq (h : Sound w) : ∃ duration, pausedDuration w = .ok duration ∧
    duration.toNat = w.elapsed := by
  have helapsed := h.elapsed
  have hlt := w.timestamp.toNat_lt
  rw [pausedDuration, World.elapsed]
  rw [World.elapsed] at helapsed
  by_cases hpaused : w.paused = true
  · have hstarted := h.started hpaused
    rw [if_pos hpaused] at helapsed
    rw [if_pos hpaused, if_pos hpaused]
    obtain ⟨since, hsince, hvalue⟩ := minus_isOk (E := Error) (a := uint256 w.timestamp)
      (b := w.pauseStartedAt) (by rw [toNat_uint256]; exact hstarted)
    rw [toNat_uint256] at hvalue
    obtain ⟨duration, hadd, hsum⟩ := add_isSome (a := w.totalPausedDuration) (b := since) (by omega)
    refine ⟨duration, bind_eq_ok.mpr ⟨since, hsince, arith_eq_ok.mpr hadd⟩, ?_⟩
    rw [hsum, hvalue]
  · rw [if_neg hpaused, if_neg hpaused]
    exact ⟨_, rfl, rfl⟩

variable {i : ℕ} {d : DistributionState} {args : DistributeArgs}
  {state : MerkleSnapshot.MerkleState}

theorem effectiveClaimDeadline_eq (h : Sound w)
    (hd : w.distributions[i]? = some d) : ∃ deadline, effectiveClaimDeadline w i = .ok deadline ∧
      deadline.toNat = if d.claimDeadline = 0 then 0
        else d.claimDeadline.toNat + (w.elapsed - (w.distributionPausedDuration i).toNat) := by
  have hlt := w.timestamp.toNat_lt
  have hdeadline := d.claimDeadline.toNat_lt
  have helapsed := h.elapsed
  have hbase : (w.distributionPausedDuration i).toNat ≤ w.elapsed :=
    (h.baseline i (List.getElem?_eq_some_iff.mp hd).1).trans (Nat.le_add_right _ _)
  rw [effectiveClaimDeadline, hd]
  dsimp only
  by_cases hzero : d.claimDeadline = 0
  · rw [if_pos hzero, if_pos hzero]
    exact ⟨0, rfl, rfl⟩
  · rw [if_neg hzero, if_neg hzero]
    obtain ⟨duration, hduration, hvalue⟩ := pausedDuration_eq h
    obtain ⟨late, hadd, hsum⟩ := add_isSome (a := uint256 d.claimDeadline) (b := duration) (by
      rw [toNat_uint256]
      omega)
    rw [toNat_uint256] at hsum
    obtain ⟨deadline, hminus, hresult⟩ := minus_isOk (E := Error) (a := late)
      (b := w.distributionPausedDuration i) (by omega)
    refine ⟨deadline, bind_eq_ok.mpr ⟨duration, hduration, bind_eq_ok.mpr ⟨late, arith_eq_ok.mpr hadd, hminus⟩⟩,
      ?_⟩
    omega

theorem closed_iff (h : Sound w) (hd : w.distributions[i]? = some d)
    {deadline : U256} (hdeadline : effectiveClaimDeadline w i = .ok deadline) :
    Closed w i d ↔ deadline ≠ 0 ∧ deadline.toNat < w.timestamp.toNat := by
  obtain ⟨deadline', hdeadline', hvalue⟩ := effectiveClaimDeadline_eq h hd
  obtain rfl : deadline' = deadline := ok_inj (hdeadline'.symm.trans hdeadline)
  have hbase : (w.distributionPausedDuration i).toNat ≤ w.elapsed :=
    (h.baseline i (List.getElem?_eq_some_iff.mp hd).1).trans (Nat.le_add_right _ _)
  rw [Closed]
  by_cases hzero : d.claimDeadline = 0
  · rw [if_pos hzero] at hvalue
    exact iff_of_false (fun hand => hand.1 hzero) fun hand => hand.1 (toNat_inj.mp hvalue)
  · rw [if_neg hzero] at hvalue
    have hpos : deadline' ≠ 0 := by
      rintro rfl
      have hnat : d.claimDeadline.toNat = 0 := by
        change 0 = _ at hvalue
        omega
      exact hzero (UInt64.toNat_inj.mp hnat)
    constructor
    · rintro ⟨-, hlate⟩
      exact ⟨hpos, by omega⟩
    · rintro ⟨-, hlate⟩
      exact ⟨hzero, by omega⟩

inductive Opened (w : World) : World → Prop
  | configured (owner pendingOwner merkleSnapshot feeRecipient : Address) (allowlistEnabled : Bool)
      (allowlist : Address → Bool) :
      Opened w { w with
        owner := owner
        pendingOwner := pendingOwner
        merkleSnapshot := merkleSnapshot
        feeRecipient := feeRecipient
        allowlistEnabled := allowlistEnabled
        allowlist := allowlist }
  | feeLowered (v : U256) (lower : v.toNat ≤ w.feePercentage.toNat) :
      Opened w ({ w with pendingFeePercentage := 0, pendingFeeEffectiveAt := 0, feePercentage := v }.note
        (.feeSet v))
  | feeScheduled (v : U256) (effectiveAt : UInt64) (range : v.toNat ≤ FEE_RANGE.toNat)
      (delay : effectiveAt.toNat = w.timestamp.toNat + FEE_INCREASE_DELAY.toNat) :
      Opened w ({ w with pendingFeePercentage := v, pendingFeeEffectiveAt := effectiveAt }.note (.feeScheduled v))
  | feeApplied (scheduled : w.pendingFeeEffectiveAt ≠ 0)
      (ready : w.pendingFeeEffectiveAt.toNat ≤ w.timestamp.toNat) :
      Opened w ({ w with
        pendingFeePercentage := 0, pendingFeeEffectiveAt := 0, feePercentage := w.pendingFeePercentage }.note
          (.feeSet w.pendingFeePercentage))
  | paused (unpaused : w.paused = false) :
      Opened w { w with paused := true, pauseStartedAt := uint256 w.timestamp }
  | unpaused (paused : w.paused = true) (total : U256)
      (h : total.toNat + w.pauseStartedAt.toNat = w.totalPausedDuration.toNat + w.timestamp.toNat) :
      Opened w { w with paused := false, totalPausedDuration := total, pauseStartedAt := 0 }

inductive Guarded (w : World) : World → Prop
  | nothing : Guarded w w
  /-- What is received covers the round, and the fee is sent. -/
  | distributed (d : DistributionState) (balance : Address → ℕ) (unclaimed : d.amountDistributed = 0)
      (unswept : d.sweptAmount = 0)
      (fee : d.feeAmount.toNat = d.amountFunded.toNat * w.feePercentage.toNat / FEE_RANGE.toNat)
      (deadline : d.claimDeadline ≠ 0 → w.timestamp.toNat < d.claimDeadline.toNat)
      (covered : w.outstanding d.token + d.amountFunded.toNat ≤ balance d.token + d.feeAmount.toNat)
      (others : ∀ token, token ≠ d.token → w.balance token ≤ balance token) :
      Guarded w { { w with
        distributions := w.distributions ++ [d]
        distributionPausedDuration :=
          update w.distributionPausedDuration w.distributions.length w.totalPausedDuration
        }.note (.distributed w.distributions.length w.feePercentage) with balance := balance }
  /-- Before the deadline a claim of the account is booked within the budget of the round, and sent. -/
  | claimed (i : ℕ) (d : DistributionState) (account : Address) (amount amountDistributed deadline : U256)
      (balance : Address → ℕ) (found : w.distributions[i]? = some d)
      (window : effectiveClaimDeadline w i = .ok deadline)
      (early : deadline = 0 ∨ w.timestamp.toNat ≤ deadline.toNat) (unclaimed : w.claimed i account = 0)
      (nonzero : amount ≠ 0)
      (budget : d.feeAmount.toNat + d.amountDistributed.toNat + amount.toNat ≤ d.amountFunded.toNat)
      (booked : amountDistributed.toNat = d.amountDistributed.toNat + amount.toNat)
      (sent : w.balance d.token ≤ balance d.token + amount.toNat)
      (others : ∀ token, token ≠ d.token → w.balance token ≤ balance token) :
      Guarded w { ((w.setClaimed i account amount).setDistribution i
        { d with amountDistributed := amountDistributed }).note (.claimed i account amount) with
        balance := balance }
  /-- After the deadline what is left of the round is sent back, once. -/
  | swept (i : ℕ) (d : DistributionState) (amount deadline : U256) (balance : Address → ℕ)
      (found : w.distributions[i]? = some d) (window : effectiveClaimDeadline w i = .ok deadline)
      (late : deadline ≠ 0 ∧ deadline.toNat < w.timestamp.toNat) (unswept : d.sweptAmount = 0)
      (rest : d.feeAmount.toNat + d.amountDistributed.toNat + amount.toNat = d.amountFunded.toNat)
      (nonzero : amount ≠ 0) (sent : w.balance d.token ≤ balance d.token + amount.toNat)
      (others : ∀ token, token ≠ d.token → w.balance token ≤ balance token) :
      Guarded w { (w.setDistribution i { d with sweptAmount := amount }).note (.swept i amount) with
        balance := balance }

def Waits : Waiting → World → Prop
  | .pulling _ args _ balanceBefore, w =>
    (args.claimDeadline ≠ 0 → w.timestamp.toNat < args.claimDeadline.toNat) ∧
      w.outstanding args.token ≤ balanceBefore ∧ balanceBefore ≤ w.balance args.token
  | .sending _, _ => True

theorem onlyOwner_eq_ok {f : Result World} (h : onlyOwner env w f = .ok w') : f = .ok w' := by
  rw [onlyOwner, ite_error_eq_ok] at h
  exact h.2

theorem writeFeePercentage_eq_ok {v : U256} (h : writeFeePercentage w v = .ok w') :
    w' = { w with feePercentage := v }.note (.feeSet v) := by
  obtain ⟨-, h⟩ := of_guard h
  exact (ok_inj h).symm

theorem setFeePercentage_eq_ok {v : U256} (h : setFeePercentage env w v = .ok w') : Opened w w' := by
  have h := onlyOwner_eq_ok h
  by_cases hlower : v.toNat ≤ w.feePercentage.toNat
  · rw [if_pos hlower] at h
    rw [writeFeePercentage_eq_ok h]
    exact .feeLowered v hlower
  · rw [if_neg hlower] at h
    obtain ⟨hrange, h⟩ := of_guard h
    obtain ⟨effectiveAt, hadd, h⟩ := of_bind h
    rw [arith_eq_ok, add64_eq_some] at hadd
    rw [lt_def, not_lt] at hrange
    exact ok_inj h ▸ .feeScheduled v effectiveAt hrange hadd

theorem applyFeePercentageIncrease_eq_ok (h : applyFeePercentageIncrease w = .ok w') : Opened w w' := by
  obtain ⟨hscheduled, h⟩ := of_guard h
  obtain ⟨hready, h⟩ := of_guard h
  rw [writeFeePercentage_eq_ok h]
  exact .feeApplied hscheduled (UInt64.le_iff_toNat_le.mp (UInt64.not_lt.mp hready))

theorem pause_eq_ok (h : pause env w = .ok w') : Opened w w' := by
  have h := onlyOwner_eq_ok h
  obtain ⟨hpaused, h⟩ := of_guard h
  exact ok_inj h ▸ .paused (Bool.not_eq_true _ ▸ hpaused)

theorem unpause_eq_ok (h : unpause env w = .ok w') : Opened w w' := by
  have h := onlyOwner_eq_ok h
  obtain ⟨hpaused, h⟩ := of_guard h
  obtain ⟨since, hsince, h⟩ := of_bind h
  obtain ⟨total, htotal, h⟩ := of_bind h
  rw [minus_eq_ok, toNat_uint256] at hsince
  rw [arith_eq_ok, add_eq_some] at htotal
  exact ok_inj h ▸ .unpaused (by simpa using hpaused) total (by omega)

theorem send_eq (self : Address) (w : World) (token payee : Address) (amount : ℕ) (failure : Revert) :
    (∃ e, send self w token payee amount failure = .reverted e) ∨
    ∃ (balance : Address → ℕ) (failure' : Revert),
      send self w token payee amount failure = .waits { w with balance := balance } (.sending failure') ∧
      w.balance token ≤ balance token + amount ∧
      ∀ other, other ≠ token → w.balance other ≤ balance other := by
  have hdebit : ∀ token, w.balance token ≤ (w.debit token amount).balance token + amount := by
    intro token
    show _ ≤ update w.balance token (w.balance token - amount) token + amount
    rw [update_self]
    omega
  have hothers : ∀ token other, other ≠ token → w.balance other ≤ (w.debit token amount).balance other := by
    intro token other hother
    show _ ≤ update w.balance token (w.balance token - amount) other
    rw [update_of_ne hother]
  rw [send]
  by_cases hnative : token = 0
  · subst hnative
    rw [if_pos rfl]
    by_cases hrefused : payee = self ∨ w.balance 0 < amount
    · rw [if_pos hrefused]
      exact .inl ⟨_, rfl⟩
    · rw [if_neg hrefused]
      exact .inr ⟨_, _, rfl, hdebit 0, hothers 0⟩
  · rw [if_neg hnative]
    by_cases hrefused : w.balance token < amount
    · rw [if_pos hrefused]
      exact .inl ⟨_, rfl⟩
    · rw [if_neg hrefused]
      by_cases hself : payee = self
      · rw [if_pos hself]
        exact .inr ⟨w.balance, _, rfl, Nat.le_add_right _ _, fun _ _ => le_rfl⟩
      · rw [if_neg hself]
        exact .inr ⟨_, _, rfl, hdebit token, hothers token⟩

def GuardedTurn (w : World) : Turn World Waiting Revert → Prop
  | .returned w' => ∃ w₁, Guarded w w₁ ∧ w' = w₁.lock false
  | .reverted _ => True
  | .waits w' k => Guarded w w' ∧ Waits k w'

theorem book_spec {msgSender : Address} {funded : U256} {balance : Address → ℕ}
    (hdeadline : args.claimDeadline ≠ 0 → w.timestamp.toNat < args.claimDeadline.toNat)
    (hcovered : w.outstanding args.token + funded.toNat ≤ balance args.token)
    (hothers : ∀ token, token ≠ args.token → w.balance token ≤ balance token) :
    GuardedTurn w (book self { w with balance := balance } msgSender args state funded) := by
  rw [book]
  cases hfee : (Evm.mulDiv funded w.feePercentage FEE_RANGE : Result U256) with
  | error e => trivial
  | ok feeAmount =>
    dsimp only
    obtain ⟨-, hvalue⟩ := mulDiv_eq_ok.mp hfee
    by_cases hzero : feeAmount = 0
    · rw [if_pos hzero]
      refine ⟨_, .distributed (newDistribution { w with balance := balance } msgSender args state funded feeAmount)
        balance rfl rfl hvalue hdeadline ?_ hothers, rfl⟩
      exact hcovered.trans (Nat.le_add_right _ _)
    · rw [if_neg hzero]
      rcases send_eq self _ args.token w.feeRecipient feeAmount.toNat (.error .failedToTransferFee) with
        ⟨e, hsend⟩ | ⟨balance', failure, hsend, hpaid, hsame⟩
      · rw [hsend]
        trivial
      · rw [hsend]
        refine ⟨.distributed (newDistribution { w with balance := balance } msgSender args state funded feeAmount)
          balance' rfl rfl hvalue hdeadline ?_ fun token htoken => ?_, trivial⟩
        · exact hcovered.trans hpaid
        · exact (hothers token htoken).trans (hsame token htoken)

theorem balance_credit (w : World) (token other : Address) (amount : ℕ) :
    (w.credit token amount).balance other = w.balance other + if other = token then amount else 0 := by
  show update w.balance token _ other = _
  by_cases h : other = token
  · rw [h, update_self, if_pos rfl]
  · rw [update_of_ne h, if_neg h]
    rfl

theorem credit_zero (w : World) (token : Address) : w.credit token 0 = w := by
  rw [World.credit, Nat.add_zero, update_eq_self]

theorem checkDistribute_eq_ok (h : checkDistribute env w args = .ok state) :
    args.claimDeadline ≠ 0 → w.timestamp.toNat < args.claimDeadline.toNat := by
  obtain ⟨hdeadline, -⟩ := of_guard h
  intro hset
  have hlate : ¬ args.claimDeadline ≤ w.timestamp := fun hle => hdeadline ⟨hset, hle⟩
  rw [UInt64.le_iff_toNat_le] at hlate
  exact not_le.mp hlate

theorem distribute_spec (h : Sound w) (args : DistributeArgs) :
    (∃ e, distribute self env w args = .reverted e) ∨
      w.entered = false ∧ GuardedTurn (w.lock true) (distribute self env w args) := by
  rw [distribute]
  by_cases hallowed : w.allowlistEnabled ∧ w.allowlist env.msgSender = false
  · rw [if_pos hallowed]
    exact .inl ⟨_, rfl⟩
  rw [if_neg hallowed]
  by_cases hentered : w.entered = true
  · rw [if_pos hentered]
    exact .inl ⟨_, rfl⟩
  rw [if_neg hentered]
  by_cases hpaused : w.paused = true
  · rw [if_pos hpaused]
    exact .inl ⟨_, rfl⟩
  rw [if_neg hpaused]
  refine .inr ⟨by simpa using hentered, ?_⟩
  cases hcheck : checkDistribute env w args with
  | error e => trivial
  | ok state =>
    have hdeadline := checkDistribute_eq_ok hcheck
    dsimp only
    by_cases hnative : args.token = 0
    · rw [if_pos hnative]
      by_cases hamount : env.msgValue ≠ args.amount
      · rw [if_pos hamount]
        trivial
      · rw [if_neg hamount]
        push Not at hamount
        refine @book_spec self (w.lock true) _ _ _ _
          ((w.lock true).credit 0 env.msgValue.toNat).balance hdeadline ?_
          fun token _ => ?_
        · rw [balance_credit, hnative, if_pos rfl, hamount]
          exact Nat.add_le_add_right (h.solvent 0) _
        · rw [balance_credit]
          exact Nat.le_add_right _ _
    · rw [if_neg hnative]
      by_cases hvalue : 0 < env.msgValue.toNat
      · rw [if_pos hvalue]
        trivial
      · rw [if_neg hvalue, Nat.eq_zero_of_not_pos hvalue, credit_zero]
        exact ⟨.nothing, hdeadline, h.solvent args.token, le_rfl⟩

theorem pulled_spec {msgSender : Address}
    {balanceBefore : ℕ} (h : Waits (.pulling msgSender args state balanceBefore) w) :
    GuardedTurn w (pulled self w msgSender args state balanceBefore) := by
  obtain ⟨hdeadline, houtstanding, hbefore⟩ := h
  rw [pulled]
  have hbalance := balance_credit w args.token args.token args.amount.toNat
  by_cases hless : (w.credit args.token args.amount.toNat).balance args.token < balanceBefore
  · rw [if_pos hless]
    trivial
  rw [if_neg hless]
  cases hfunded : ofNat 256 ((w.credit args.token args.amount.toNat).balance args.token - balanceBefore) with
  | none => trivial
  | some funded =>
    rw [ofNat_eq_some] at hfunded
    refine @book_spec self w _ _ _ _ (w.credit args.token args.amount.toNat).balance hdeadline ?_ fun token _ => ?_
    · rw [if_pos rfl] at hbalance
      omega
    · rw [balance_credit]
      exact Nat.le_add_right _ _

theorem creditClaim_eq_ok {account token : Address} {value amount : U256} {proof : List B256}
    (h : creditClaim H w i account value proof = .ok (w', token, amount)) :
    ∃ d deadline amountDistributed, w.distributions[i]? = some d ∧ token = d.token ∧
      OzMerkle.verifyProof H d.root account value proof = true ∧
      amount.toNat = (d.amountFunded.toNat - d.feeAmount.toNat) * value.toNat / d.totalMerkleValue.toNat ∧
      effectiveClaimDeadline w i = .ok deadline ∧ (deadline = 0 ∨ w.timestamp.toNat ≤ deadline.toNat) ∧
      w.claimed i account = 0 ∧ amount ≠ 0 ∧
      d.feeAmount.toNat + d.amountDistributed.toNat + amount.toNat ≤ d.amountFunded.toNat ∧
      amountDistributed.toNat = d.amountDistributed.toNat + amount.toNat ∧
      w' = ((w.setClaimed i account amount).setDistribution i
        { d with amountDistributed := amountDistributed }).note (.claimed i account amount) := by
  rw [creditClaim] at h
  cases hd : w.distributions[i]? with
  | none =>
    rw [hd] at h
    exact nomatch h
  | some d =>
    rw [hd] at h
    dsimp only at h
    obtain ⟨-, h⟩ := of_guard h
    obtain ⟨-, h⟩ := of_guard h
    obtain ⟨deadline, hdeadline, h⟩ := of_bind h
    obtain ⟨hwindow, h⟩ := of_guard h
    obtain ⟨hclaimed, h⟩ := of_guard h
    obtain ⟨hproof, h⟩ := of_guard h
    obtain ⟨total, htotal, h⟩ := of_bind h
    obtain ⟨claimedAmount, hshare, h⟩ := of_bind h
    obtain ⟨hnonzero, h⟩ := of_guard h
    obtain ⟨remaining, hremaining, h⟩ := of_bind h
    obtain ⟨hbudget, h⟩ := of_guard h
    obtain ⟨amountDistributed, hadd, h⟩ := of_bind h
    obtain ⟨rfl, hpair⟩ := Prod.mk.inj (ok_inj h)
    obtain ⟨rfl, rfl⟩ := Prod.mk.inj hpair
    rw [minus_eq_ok] at htotal
    rw [arith_eq_ok, add_eq_some] at hadd
    rw [lt_def, not_lt] at hbudget
    refine ⟨d, deadline, amountDistributed, rfl, rfl, by simpa using hproof, ?_, hdeadline, ?_,
      not_ne_iff.mp hclaimed, hnonzero, ?_, hadd, rfl⟩
    · have hdistributable : d.amountFunded.toNat - d.feeAmount.toNat = total.toNat := by omega
      rw [(mulDiv_eq_ok.mp hshare).2, hdistributable]
    · by_cases hzero : deadline = 0
      · exact .inl hzero
      · exact .inr (not_lt.mp fun hlt => hwindow ⟨hzero, hlt⟩)
    · rw [surplus_eq_ok] at hremaining
      have hpositive : claimedAmount.toNat ≠ 0 := fun hzero => hnonzero (eq_of_toNat_eq hzero)
      omega

theorem claim_spec {account : Address} {value : U256} {proof : List B256} :
    (∃ e, claim H self w i account value proof = .reverted e) ∨
      w.entered = false ∧ GuardedTurn (w.lock true) (claim H self w i account value proof) := by
  rw [claim]
  by_cases hentered : w.entered = true
  · rw [if_pos hentered]
    exact .inl ⟨_, rfl⟩
  rw [if_neg hentered]
  by_cases hpaused : w.paused = true
  · rw [if_pos hpaused]
    exact .inl ⟨_, rfl⟩
  rw [if_neg hpaused]
  refine .inr ⟨by simpa using hentered, ?_⟩
  cases hcredit : creditClaim H (w.lock true) i account value proof with
  | error e => trivial
  | ok r =>
    obtain ⟨w₁, token, amount⟩ := r
    obtain ⟨d, deadline, amountDistributed, hfound, rfl, -, -, hdeadline, hwindow, hclaimed, hnonzero, hbudget,
      hbooked, rfl⟩ := creditClaim_eq_ok hcredit
    dsimp only
    rcases send_eq self _ d.token account amount.toNat (.error .failedToTransferTokens) with
      ⟨e, hsend⟩ | ⟨balance, failure, hsend, hpaid, hsame⟩
    · rw [hsend]
      trivial
    · rw [hsend]
      exact ⟨.claimed i d account amount amountDistributed deadline balance hfound hdeadline hwindow hclaimed
        hnonzero hbudget hbooked hpaid hsame, trivial⟩

theorem debitSweep_eq_ok {amount : U256} (h : debitSweep w i = .ok (w', d, amount)) :
    ∃ deadline, w.distributions[i]? = some d ∧ effectiveClaimDeadline w i = .ok deadline ∧
      (deadline ≠ 0 ∧ deadline.toNat < w.timestamp.toNat) ∧ d.sweptAmount = 0 ∧
      d.feeAmount.toNat + d.amountDistributed.toNat + amount.toNat = d.amountFunded.toNat ∧ amount ≠ 0 ∧
      w' = (w.setDistribution i { d with sweptAmount := amount }).note (.swept i amount) := by
  rw [debitSweep] at h
  cases hd : w.distributions[i]? with
  | none =>
    rw [hd] at h
    exact nomatch h
  | some d' =>
    rw [hd] at h
    dsimp only at h
    obtain ⟨-, h⟩ := of_guard h
    obtain ⟨deadline, hdeadline, h⟩ := of_bind h
    obtain ⟨hset, h⟩ := of_guard h
    obtain ⟨hlate, h⟩ := of_guard h
    obtain ⟨hunswept, h⟩ := of_guard h
    obtain ⟨total, htotal, h⟩ := of_bind h
    obtain ⟨hleft, h⟩ := of_guard h
    obtain ⟨swept, hswept, h⟩ := of_bind h
    obtain ⟨rfl, hpair⟩ := Prod.mk.inj (ok_inj h)
    obtain ⟨rfl, rfl⟩ := Prod.mk.inj hpair
    rw [minus_eq_ok] at htotal hswept
    refine ⟨deadline, rfl, hdeadline, ⟨hset, not_le.mp hlate⟩, not_ne_iff.mp hunswept, by omega, ?_, rfl⟩
    rintro rfl
    exact hleft (by rw [hswept]; exact le_rfl)

theorem sweep_spec : (∃ e, sweep self w i = .reverted e) ∨
    w.entered = false ∧ GuardedTurn (w.lock true) (sweep self w i) := by
  rw [sweep]
  by_cases hentered : w.entered = true
  · rw [if_pos hentered]
    exact .inl ⟨_, rfl⟩
  rw [if_neg hentered]
  refine .inr ⟨by simpa using hentered, ?_⟩
  cases hdebit : debitSweep (w.lock true) i with
  | error e => trivial
  | ok r =>
    obtain ⟨w₁, d, amount⟩ := r
    obtain ⟨deadline, hfound, hdeadline, hlate, hunswept, hrest, hnonzero, rfl⟩ := debitSweep_eq_ok hdebit
    dsimp only
    rcases send_eq self _ d.token d.distributor amount.toNat (.error .failedToTransferTokens) with
      ⟨e, hsend⟩ | ⟨balance, failure, hsend, hpaid, hsame⟩
    · rw [hsend]
      trivial
    · rw [hsend]
      exact ⟨.swept i d amount deadline balance hfound hdeadline hlate hunswept hrest hnonzero hpaid hsame, trivial⟩

/-- What the first turn of a call does: it leaves the lock alone, or takes it. -/
def TurnSpec (w : World) (turn : Turn World Waiting Revert) : Prop :=
  (∃ w', turn = .returned w' ∧ Opened w w') ∨ (∃ e, turn = .reverted e) ∨
    w.entered = false ∧ GuardedTurn (w.lock true) turn

theorem ended_opened {r : Result World} (h : ∀ w', r = .ok w' → Opened w w') :
    (∃ w', (ended r : Turn World Waiting Revert) = .returned w' ∧ Opened w w') ∨
      ∃ e, (ended r : Turn World Waiting Revert) = .reverted e := by
  cases r with
  | error e => exact .inr ⟨e, rfl⟩
  | ok w' => exact .inl ⟨w', rfl, h w' rfl⟩

def Call.guarded : Call → Bool
  | .distribute _ => true
  | .claim .. => true
  | .sweep _ => true
  | _ => false

theorem enter_opened (H : Hashes) (self : Address) {w : World} {i : Env × Call} (hi : i.2.guarded = false) :
    (∃ w', enter H self i w = .returned w' ∧ Opened w w') ∨ ∃ e, enter H self i w = .reverted e := by
  obtain ⟨env, call⟩ := i
  rw [enter]
  by_cases hrefused : env.msgSender = self ∨ call.payable = false ∧ env.msgValue ≠ 0
  · rw [if_pos hrefused]
    exact .inr ⟨_, rfl⟩
  rw [if_neg hrefused]
  cases call with
  | setFeeRecipient newFeeRecipient =>
    refine ended_opened fun w' hok => ?_
    obtain ⟨-, hok⟩ := of_guard (onlyOwner_eq_ok hok)
    exact ok_inj hok ▸ .configured _ _ _ _ _ _
  | setFeePercentage newFeePercentage => exact ended_opened fun _ => setFeePercentage_eq_ok
  | applyFeePercentageIncrease => exact ended_opened fun _ => applyFeePercentageIncrease_eq_ok
  | setMerkleSnapshot newMerkleSnapshot =>
    refine ended_opened fun w' hok => ?_
    obtain ⟨-, hok⟩ := of_guard (onlyOwner_eq_ok hok)
    exact ok_inj hok ▸ .configured _ _ _ _ _ _
  | setAllowlistEnabled allowlistEnabled =>
    exact ended_opened fun w' hok => ok_inj (onlyOwner_eq_ok hok) ▸ .configured _ _ _ _ _ _
  | updateDistributorAllowance distributor canDistribute =>
    exact ended_opened fun w' hok => ok_inj (onlyOwner_eq_ok hok) ▸ .configured _ _ _ _ _ _
  | transferOwnership newOwner =>
    exact ended_opened fun w' hok => ok_inj (onlyOwner_eq_ok hok) ▸ .configured _ _ _ _ _ _
  | acceptOwnership =>
    refine ended_opened fun w' hok => ?_
    obtain ⟨-, hok⟩ := of_guard hok
    exact ok_inj hok ▸ .configured _ _ _ _ _ _
  | renounceOwnership => exact ended_opened fun w' hok => nomatch onlyOwner_eq_ok hok
  | pause => exact ended_opened fun _ => pause_eq_ok
  | unpause => exact ended_opened fun _ => unpause_eq_ok
  | distribute args => exact absurd hi (by simp [Call.guarded])
  | claim i account value proof => exact absurd hi (by simp [Call.guarded])
  | sweep i => exact absurd hi (by simp [Call.guarded])

theorem enter_spec (H : Hashes) (self : Address) (h : Sound w) (i : Env × Call) :
    TurnSpec w (enter H self i w) := by
  by_cases hguarded : i.2.guarded = false
  · rcases enter_opened H self hguarded with ⟨w', hreturn, hopened⟩ | hrevert
    · exact .inl ⟨w', hreturn, hopened⟩
    · exact .inr (.inl hrevert)
  obtain ⟨env, call⟩ := i
  rw [enter]
  by_cases hrefused : env.msgSender = self ∨ call.payable = false ∧ env.msgValue ≠ 0
  · rw [if_pos hrefused]
    exact .inr (.inl ⟨_, rfl⟩)
  rw [if_neg hrefused]
  cases call with
  | distribute args => exact .inr (distribute_spec h args)
  | claim i account value proof => exact .inr claim_spec
  | sweep i => exact .inr sweep_spec
  | _ => exact absurd rfl hguarded

theorem resume_spec (self : Address) {k : Waiting} (hk : Waits k w) (a : Option Unit) :
    GuardedTurn w (resume self k a w) := by
  cases k with
  | pulling msgSender args state balanceBefore =>
    cases a with
    | none => trivial
    | some r => exact pulled_spec hk
  | sending failure =>
    cases a with
    | none => trivial
    | some r => exact ⟨w, .nothing, rfl⟩

theorem enter_claim (H : Hashes) (self : Address) (w : World) (env : Env) (i : ℕ) (account : Address) (value : U256)
    (proof : List B256) : (∃ e, enter H self (env, .claim i account value proof) w = .reverted e) ∨
      ∃ r, creditClaim H (w.lock true) i account value proof = .ok r := by
  rw [enter]
  by_cases hrefused : env.msgSender = self ∨ (Call.claim i account value proof).payable = false ∧ env.msgValue ≠ 0
  · rw [if_pos hrefused]
    exact .inl ⟨_, rfl⟩
  rw [if_neg hrefused]
  show (∃ e, claim H self w i account value proof = .reverted e) ∨ _
  rw [claim]
  by_cases hentered : w.entered = true
  · rw [if_pos hentered]
    exact .inl ⟨_, rfl⟩
  rw [if_neg hentered]
  by_cases hpaused : w.paused = true
  · rw [if_pos hpaused]
    exact .inl ⟨_, rfl⟩
  rw [if_neg hpaused]
  cases hcredit : creditClaim H (w.lock true) i account value proof with
  | error e => exact .inl ⟨e, rfl⟩
  | ok r => exact .inr ⟨r, rfl⟩

theorem enter_sweep (H : Hashes) (self : Address) (w : World) (env : Env) (i : ℕ) :
    (∃ e, enter H self (env, .sweep i) w = .reverted e) ∨ ∃ r, debitSweep (w.lock true) i = .ok r := by
  rw [enter]
  by_cases hrefused : env.msgSender = self ∨ (Call.sweep i).payable = false ∧ env.msgValue ≠ 0
  · rw [if_pos hrefused]
    exact .inl ⟨_, rfl⟩
  rw [if_neg hrefused]
  show (∃ e, sweep self w i = .reverted e) ∨ _
  rw [sweep]
  by_cases hentered : w.entered = true
  · rw [if_pos hentered]
    exact .inl ⟨_, rfl⟩
  rw [if_neg hentered]
  cases hdebit : debitSweep (w.lock true) i with
  | error e => exact .inl ⟨e, rfl⟩
  | ok r => exact .inr ⟨r, rfl⟩

end Trustgraphs.MerkleFundDistributor
