import Trustgraphs.Contracts.Proofs.VaultLegProofs
import Trustgraphs.Contracts.Proofs.VaultRunProofs

/-!
# The prover's minimum

A submission reverts, and everything is again as it was when the call came, or it credits its two
legs: the fee to the recipient and the gas to the submitter.
-/

namespace Trustgraphs.ProvingVault

open Outcome Evm

section

variable {H : Hashes} {imm : Immutables} {env : Env} {w w' : World} {instanceId : B256} {args : SubmitArgs}
  {t : Terms}

/-- A submission that has returned: the prover asked for nothing, or the two legs are credited. -/
def Rewards (H : Hashes) (imm : Immutables) (env : Env) (instanceId : B256) (args : SubmitArgs) (t : Terms)
    (r : Return) (w w' : World) : Prop :=
  args.minPayoutUsd = 0 ∨ ∃ p statement,
    PaysOut H imm { env with view := r.view } w instanceId { t with statement := statement } args.recipient
      r.gasUsed args.minPayoutUsd p ∧
    Paid imm instanceId args.recipient p.fee w p.afterFee ∧
    Paid imm instanceId env.msgSender p.gas p.afterFee p.afterGas ∧
    w'.accounts = p.afterGas.accounts ∧ w'.credit = p.afterGas.credit ∧
    (args.recipient ≠ 0 → env.msgSender ≠ 0 → args.minPayoutUsd.toNat * 10 ^ 18 <
      p.fee.value p.ethUsdPrice + p.gas.value p.ethUsdPrice + 2 * coin p.ethUsdPrice)

theorem submitEnd_rewards {r : Return}
    (h : submitEnd H imm { env with view := r.view } w instanceId args t r.gasUsed = .ok w') :
    Rewards H imm env instanceId args t r w w' := by
  obtain ⟨statement, w₁, feeUsd, gasUsd, -, hsettle, rfl⟩ := submitEnd_settle h
  rcases settle_cases hsettle with ⟨-, hzero⟩ | ⟨p, ethSpent, usdcSpent, hpays, -, -, -, -, hends⟩
  · exact .inl hzero
  · rcases hends with ⟨-, -, -, hzero⟩ | ⟨-, rfl⟩
    · exact .inl hzero
    · obtain ⟨-, -, hfee, hgas⟩ := hpays.legs
      exact .inr ⟨p, statement, hpays, hfee, hgas, rfl, rfl, hpays.minimum_lt⟩

theorem ended_ne_waits {r : Result World} {k : Waiting} : ended r ≠ .waits w k := by
  cases r with
  | ok w => rintro ⟨⟩
  | error e => rintro ⟨⟩

theorem sendETH_eq_waits {payee : Address} {amount : ℕ} {k : Waiting}
    (h : sendETH imm w payee amount = .waits w' k) :
    k = .sendingETH := by
  rcases sendETH_eq imm w payee amount with ⟨e, he⟩ | ⟨ethBalance, he, -⟩
  · rw [he] at h
    exact nomatch h
  · rw [he] at h
    exact (CallStack.Turn.waits.inj h).2.symm

/-- Only a submission waits for its proof to be forwarded. -/
theorem eq_submitAndClaim {i : Env × Call}
    (h : enter H imm i w = .waits w' (.submitting env instanceId args t)) :
    i = (env, .submitAndClaim instanceId args) := by
  obtain ⟨env', call⟩ := i
  rw [enter] at h
  by_cases hself : env'.msgSender = imm.address
  · rw [if_pos hself] at h
    cases h
  rw [if_neg hself] at h
  cases call with
  | depositETH instanceId' msgValue => exact absurd h ended_ne_waits
  | depositUSDC instanceId' amount => exact absurd h ended_ne_waits
  | migrate instanceId' => exact absurd h ended_ne_waits
  | submitAndClaim instanceId' args' =>
    dsimp only at h
    cases hstart : submitStart env' w instanceId' args' with
    | error e =>
      rw [hstart] at h
      cases h
    | ok r =>
      rw [hstart] at h
      have hk := (CallStack.Turn.waits.inj h).2
      obtain ⟨-, hstart⟩ := of_guard hstart
      obtain ⟨-, hstart⟩ := of_guard hstart
      obtain ⟨-, -, hstart⟩ := of_bind hstart
      obtain ⟨t', -, hstart⟩ := of_bind hstart
      rw [← ok_inj hstart] at hk
      obtain ⟨rfl, rfl, rfl, -⟩ := Waiting.submitting.inj hk
      rfl
  | claim instanceId' checkpointId => exact absurd h ended_ne_waits
  | setFeePerRootUsd program band usdPerRoot => exact absurd h ended_ne_waits
  | setGasParams maxUnits nominalUnits => exact absurd h ended_ne_waits
  | setPolicy instanceId' minPaidIntervalBlocks maxPerRootUsd => exact absurd h ended_ne_waits
  | requestWithdrawal instanceId' ethAmount usdcAmount => exact absurd h ended_ne_waits
  | cancelWithdrawal instanceId' => exact absurd h ended_ne_waits
  | executeWithdrawal instanceId' payee =>
    change executeWithdrawal imm env' w instanceId' payee = _ at h
    rw [executeWithdrawal] at h
    by_cases hentered : w.entered
    · rw [if_pos hentered] at h
      cases h
    rw [if_neg hentered] at h
    cases hd : debitWithdrawal imm env' { w with entered := true } instanceId' payee with
    | error e =>
      rw [hd] at h
      cases h
    | ok r =>
      rw [hd] at h
      dsimp only at h
      by_cases hzero : r.2 ≠ 0
      · rw [if_pos hzero] at h
        cases sendETH_eq_waits h
      · rw [if_neg hzero] at h
        cases h
  | withdrawCredit token payee =>
    change withdrawCredit imm env' w token payee = _ at h
    rw [withdrawCredit] at h
    by_cases hentered : w.entered
    · rw [if_pos hentered] at h
      cases h
    rw [if_neg hentered] at h
    dsimp only at h
    by_cases hzero : w.credit env'.msgSender token = 0
    · rw [if_pos hzero] at h
      cases h
    rw [if_neg hzero] at h
    by_cases hpayee : payee = 0
    · rw [if_pos hpayee] at h
      cases h
    rw [if_neg hpayee] at h
    by_cases heth : token = ETH
    · rw [if_pos heth] at h
      cases sendETH_eq_waits h
    rw [if_neg heth] at h
    by_cases husdc : token = imm.usdc
    · rw [if_pos husdc] at h
      cases hs : sendUSDC imm env' ((w.lock true).setCredit env'.msgSender token 0) payee
          (w.credit env'.msgSender token).toNat with
      | ok w₁ =>
        erw [hs] at h
        cases h
      | error e =>
        erw [hs] at h
        cases h
    · rw [if_neg husdc] at h
      cases (CallStack.Turn.waits.inj h).2
  | setRoles isFeeSetter => cases h

theorem enter_submitAndClaim (H : Hashes) (imm : Immutables) (env : Env) (w : World) (instanceId : B256)
    (args : SubmitArgs) :
    (∃ e, enter H imm (env, .submitAndClaim instanceId args) w = .reverted e) ∨
    ∃ called t, enter H imm (env, .submitAndClaim instanceId args) w =
      .waits called (.submitting env instanceId args t) := by
  rw [enter]
  by_cases hself : env.msgSender = imm.address
  · rw [if_pos hself]
    exact .inl ⟨_, rfl⟩
  rw [if_neg hself]
  dsimp only
  cases hstart : submitStart env w instanceId args with
  | error e => exact .inl ⟨e, rfl⟩
  | ok r =>
    obtain ⟨-, h⟩ := of_guard hstart
    obtain ⟨-, h⟩ := of_guard h
    obtain ⟨-, -, h⟩ := of_bind h
    obtain ⟨t, -, h⟩ := of_bind h
    rw [← ok_inj h]
    exact .inr ⟨_, t, rfl⟩

theorem resume_ne_waits (k : Waiting) (a : Option Return) (w w' : World) (k' : Waiting) :
    resume H imm k a w ≠ .waits w' k' := by
  cases k with
  | submitting env instanceId args t =>
    cases a with
    | none => rintro ⟨⟩
    | some r => exact ended_ne_waits
  | sendingETH =>
    cases a with
    | none => rintro ⟨⟩
    | some r => rintro ⟨⟩
  | sendingToken =>
    cases a with
    | none => rintro ⟨⟩
    | some r => rintro ⟨⟩

abbrev EventBeside (S : Type) := CallStack.Event (Env × Call) Return (Gift ⊕ (S → S)) Header

def runBeside (H : Hashes) (imm : Immutables) {S : Type} (w : World × S) (events : List (EventBeside S)) :
    CallStack.Configuration (World × S) Waiting :=
  CallStack.run ((contract H imm).beside S) w events

def stepBeside (H : Hashes) (imm : Immutables) {S : Type} (c : CallStack.Configuration (World × S) Waiting)
    (event : EventBeside S) : CallStack.Configuration (World × S) Waiting :=
  CallStack.step ((contract H imm).beside S) c event

/-- At every point of a run: a submission changes nothing, or waits for its proof. When what a submission waits
for is over, the vault and the other contracts are again as they were when it was called, or it has credited what
the prover asked for. -/
theorem run_submit_minimum (H : Hashes) (imm : Immutables) (S : Type) (w : World × S)
    (events : List (EventBeside S)) :
    (∀ env instanceId args,
      stepBeside H imm (runBeside H imm w events) (.enter (env, .submitAndClaim instanceId args)) =
        runBeside H imm w events ∨
      ∃ called t, stepBeside H imm (runBeside H imm w events) (.enter (env, .submitAndClaim instanceId args)) =
        ⟨(called, (runBeside H imm w events).world.2),
          .waiting (runBeside H imm w events).world (called, (runBeside H imm w events).world.2)
            (.submitting env instanceId args t) :: (runBeside H imm w events).frames⟩) ∧
    ∀ entry called env instanceId args t frames,
      (runBeside H imm w events).frames = .waiting entry called (.submitting env instanceId args t) :: frames →
      (∃ before after, events = before ++ .enter (env, .submitAndClaim instanceId args) :: after ∧
        runBeside H imm w before = ⟨entry, frames⟩) ∧
      ∀ a, stepBeside H imm (runBeside H imm w events) (.answer a) = ⟨entry, frames⟩ ∨ ∃ r w', a = some r ∧
          stepBeside H imm (runBeside H imm w events) (.answer a) =
            ⟨(w', (runBeside H imm w events).world.2), frames⟩ ∧
          Rewards H imm env instanceId args t r (runBeside H imm w events).world.1 w' := by
  refine ⟨fun env instanceId args => ?_, fun entry called env instanceId args t frames hframes => ⟨?_, fun a => ?_⟩⟩
  · generalize runBeside H imm w events = c
    obtain ⟨⟨v, s⟩, frames⟩ := c
    have hstep : stepBeside H imm ⟨(v, s), frames⟩ (.enter (env, .submitAndClaim instanceId args)) =
        CallStack.settle (v, s) frames
          ((enter H imm (env, .submitAndClaim instanceId args) v).map (·, s)) := rfl
    rw [hstep]
    rcases enter_submitAndClaim H imm env v instanceId args with ⟨e, he⟩ | ⟨called, t, he⟩
    · rw [he]
      exact .inl rfl
    · rw [he]
      exact .inr ⟨called, t, rfl⟩
  · have hresume : ∀ k a v v' k', ((contract H imm).beside S).resume k a v ≠ .waits v' k' := by
      intro k a v v' k' h
      change (resume H imm k a v.1).map (·, v.2) = _ at h
      cases hturn : resume H imm k a v.1 with
      | returned v'' =>
        rw [hturn] at h
        exact nomatch h
      | reverted e =>
        rw [hturn] at h
        exact nomatch h
      | waits v'' k'' => exact resume_ne_waits k a v.1 v'' k'' hturn
    obtain ⟨before, i, after, hevents, hrun, hturn⟩ := CallStack.exists_entry hresume w events hframes
    change (enter H imm i entry.1).map (·, entry.2) = _ at hturn
    cases henter : enter H imm i entry.1 with
    | returned v =>
      rw [henter] at hturn
      exact nomatch hturn
    | reverted e =>
      rw [henter] at hturn
      exact nomatch hturn
    | waits v k =>
      rw [henter] at hturn
      obtain rfl := (CallStack.Turn.waits.inj hturn).2
      obtain rfl := eq_submitAndClaim henter
      exact ⟨before, after, hevents, hrun⟩
  · generalize runBeside H imm w events = c at hframes
    obtain ⟨⟨v, s⟩, frames'⟩ := c
    change frames' = _ at hframes
    subst hframes
    cases a with
    | none => exact .inl rfl
    | some r =>
      have hstep : stepBeside H imm
          ⟨(v, s), .waiting entry called (.submitting env instanceId args t) :: frames⟩ (.answer (some r)) =
          CallStack.settle entry frames
            ((ended (submitEnd H imm { env with view := r.view } v instanceId args t r.gasUsed)).map (·, s)) := rfl
      rw [hstep]
      cases hend : submitEnd H imm { env with view := r.view } v instanceId args t r.gasUsed with
      | error e => exact .inl rfl
      | ok w' => exact .inr ⟨r, w', rfl, rfl, submitEnd_rewards hend⟩

end

namespace VaultExample

def payee : Address := addr 0xdd

def submission : SubmitArgs := ⟨0, payee, 1400000000⟩

def callBeside (sender : Address) (c : Call) : EventBeside Unit := .enter (⟨sender, 10000000000, view, true⟩, c)

def submitted : List (EventBeside Unit) :=
  [callBeside governance (.setFeePerRootUsd program 1 1000000000),
    callBeside prover (.depositETH (word 1) 1000000000000000000),
    callBeside governance (.setPolicy (word 1) 10 2000000000),
    callBeside prover (.submitAndClaim (word 1) submission)]

def applied : EventBeside Unit := .answer (some ⟨view, 200000⟩)

def isSubmitting : List (CallStack.Frame (World × Unit) Waiting) → Bool
  | [.waiting _ _ (.submitting env instanceId args _)] =>
    env.msgSender = prover ∧ instanceId = word 1 ∧ args.minPayoutUsd = 1400000000
  | _ => false

theorem submitted_facts : (constructed.toOption.map fun r =>
    (isSubmitting (runBeside hashes imm (start r.2, ()) submitted).frames,
      (runBeside hashes imm (start r.2, ()) submitted).world.1.owed payee ETH,
      (runBeside hashes imm (start r.2, ()) (submitted ++ [applied])).frames.length,
      (runBeside hashes imm (start r.2, ()) (submitted ++ [applied])).world.1.owed payee ETH,
      (runBeside hashes imm (start r.2, ()) (submitted ++ [applied])).world.1.owed payee imm.usdc,
      (runBeside hashes imm (start r.2, ()) (submitted ++ [applied])).world.1.owed prover ETH)) =
    some (true, 0, 0, 3333333333333333, 0, 1600000000000000) := by
  decide +kernel

theorem exists_submitting {frames : List (CallStack.Frame (World × Unit) Waiting)}
    (h : isSubmitting frames = true) :
    ∃ entry called env args t, frames = [.waiting entry called (.submitting env (word 1) args t)] ∧
      env.msgSender = prover ∧ args.minPayoutUsd = 1400000000 := by
  rcases frames with _ | ⟨frame, rest⟩
  · exact absurd h (by simp [isSubmitting])
  · cases frame with
    | foreign entry => exact absurd h (by simp [isSubmitting])
    | waiting entry called k =>
      cases k with
      | sendingETH => exact absurd h (by simp [isSubmitting])
      | sendingToken => exact absurd h (by simp [isSubmitting])
      | submitting env instanceId args t =>
        cases rest with
        | cons frame' rest => exact absurd h (by simp [isSubmitting])
        | nil =>
          rw [isSubmitting, decide_eq_true_eq] at h
          obtain ⟨hsender, rfl, hargs⟩ := h
          exact ⟨entry, called, env, args, t, rfl, hsender, hargs⟩

end VaultExample

open VaultExample in
/-- The submission waits, and its answer takes everything back or rewards the prover. -/
theorem run_submit_minimum_waiting : ∃ s entry called env args t, Start imm (start s) ∧
    (runBeside hashes imm (start s, ()) submitted).frames =
      [.waiting entry called (.submitting env (word 1) args t)] ∧
    args.minPayoutUsd = 1400000000 ∧
    (stepBeside hashes imm (runBeside hashes imm (start s, ()) submitted) applied = ⟨entry, []⟩ ∨
      ∃ w', Rewards hashes imm env (word 1) args t ⟨view, 200000⟩
        (runBeside hashes imm (start s, ()) submitted).world.1 w') := by
  obtain ⟨s, hs, hstart⟩ := exists_start
  have hfacts := submitted_facts
  rw [hs] at hfacts
  obtain ⟨hsubmitting, -⟩ := Prod.mk.inj (Option.some.inj hfacts)
  obtain ⟨entry, called, env, args, t, hframes, -, hargs⟩ := exists_submitting hsubmitting
  refine ⟨s, entry, called, env, args, t, hstart, hframes, hargs, ?_⟩
  have hend := (run_submit_minimum hashes imm Unit (start s, ()) submitted).2 entry called env (word 1) args t []
    hframes
  rcases hend.2 (some ⟨view, 200000⟩) with hreverted | ⟨r, w', hr, -, hrewards⟩
  · exact .inl hreverted
  · obtain rfl := Option.some.inj hr
    exact .inr ⟨w', hrewards⟩

open VaultExample in
/-- A submission that asks for 14 dollars returns, and its recipient is credited less than 10. -/
theorem not_run_submit_minimum : ∃ s, Start imm (start s) ∧
    isSubmitting (runBeside hashes imm (start s, ()) submitted).frames = true ∧
    (runBeside hashes imm (start s, ()) submitted).world.1.owed payee ETH = 0 ∧
    (runBeside hashes imm (start s, ()) (submitted ++ [applied])).frames.length = 0 ∧
    0 < (runBeside hashes imm (start s, ()) (submitted ++ [applied])).world.1.owed payee ETH ∧
    (runBeside hashes imm (start s, ()) (submitted ++ [applied])).world.1.owed payee ETH * 300000000000 +
        (runBeside hashes imm (start s, ()) (submitted ++ [applied])).world.1.owed payee imm.usdc *
          (100 * 10 ^ 18) <
      1400000000 * 10 ^ 18 := by
  obtain ⟨s, hs, hstart⟩ := exists_start
  have hfacts := submitted_facts
  rw [hs] at hfacts
  obtain ⟨hsubmitting, hrest⟩ := Prod.mk.inj (Option.some.inj hfacts)
  obtain ⟨hbefore, hrest⟩ := Prod.mk.inj hrest
  obtain ⟨hframes, hrest⟩ := Prod.mk.inj hrest
  obtain ⟨heth, hrest⟩ := Prod.mk.inj hrest
  obtain ⟨husdc, -⟩ := Prod.mk.inj hrest
  refine ⟨s, hstart, hsubmitting, hbefore, hframes, ?_, ?_⟩
  · rw [heth]
    decide
  · rw [heth, husdc]
    decide

end Trustgraphs.ProvingVault
