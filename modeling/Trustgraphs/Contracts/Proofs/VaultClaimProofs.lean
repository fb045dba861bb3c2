import Trustgraphs.Contracts.Proofs.VaultRunProofs

/-!
# A root is paid at most once

The slots of the vault are consumed by the claims that it has paid, and by nothing else (`Book`).
-/

namespace Trustgraphs.ProvingVault

open Function CallStack List Evm

section

variable {H : Hashes} {imm : Immutables} {env : Env} {w w' : World} {instanceId : B256} {checkpointId : ℕ}

def Noted.payment? (n : Noted) : Option (UInt64 × Settlement) :=
  match n.entry with
  | .settled s => some (n.blockNumber, s)
  | _ => none

/-- The claims that were paid with their blocks, the oldest first. -/
def World.payments (w : World) : List (UInt64 × Settlement) := w.history.filterMap Noted.payment?

theorem payments_note_settled (w : World) (s : Settlement) :
    (w.note (.settled s)).payments = w.payments ++ [(w.blockNumber, s)] :=
  filterMap_append

theorem payments_note (w : World) {entry : Entry} (h : ∀ s, entry ≠ .settled s) :
    (w.note entry).payments = w.payments := by
  show (w.history ++ [_]).filterMap Noted.payment? = w.history.filterMap Noted.payment?
  rw [filterMap_append]
  cases entry with
  | settled s => exact absurd rfl (h s)
  | deposited => exact append_nil _
  | requested => exact append_nil _
  | cancelled => exact append_nil _
  | withdrawn => exact append_nil _

/-- Two paid claims, the second one later: other slots, another statement, and the interval between them. -/
structure Apart (p q : UInt64 × Settlement) : Prop where
  slot : (p.2.terms.snapshot, p.2.checkpointId) ≠ (q.2.terms.snapshot, q.2.checkpointId)
  statement : p.2.terms.statement ≠ q.2.terms.statement
  interval : p.1.toNat + q.2.terms.minPaidIntervalBlocks.toNat ≤ q.1.toNat

/-- The snapshot of a paid claim has answered that it accepted the checkpoint with that statement. -/
def Accepted (H : Hashes) (ok : Event → Prop) (s : Settlement) : Prop :=
  ∃ e env, ok e ∧ Answers env.view e ∧ ∃ state provenance,
    env.view.getAcceptedCheckpoint s.terms.snapshot s.checkpointId = .value (state, provenance) ∧
    acceptedStatement H env s.terms.snapshot s.checkpointId = .ok s.terms.statement

/-- The slots are consumed by what was paid, and by nothing else. -/
structure Book (H : Hashes) (ok : Event → Prop) (w : World) : Prop where
  claimed : ∀ i snapshot c, w.claimed i snapshot c = true ↔
    ∃ p ∈ w.payments, p.2.instanceId = i ∧ p.2.terms.snapshot = snapshot ∧ p.2.checkpointId = c
  paidStatement : ∀ i statement, w.paidStatement i statement = true ↔
    ∃ p ∈ w.payments, p.2.instanceId = i ∧ p.2.terms.statement = statement
  lastPaid : ∀ i, (w.policies i).lastPaidBlock ≠ 0 →
    ∃ p ∈ w.payments, p.2.instanceId = i ∧ p.1 = (w.policies i).lastPaidBlock
  past : ∀ p ∈ w.payments, p.1 ≠ 0 ∧ p.1.toNat ≤ (w.policies p.2.instanceId).lastPaidBlock.toNat ∧
    p.1.toNat ≤ w.blockNumber.toNat
  block : w.blockNumber ≠ 0
  apart : w.payments.Pairwise fun p q => p.2.instanceId = q.2.instanceId → Apart p q
  nonzero : ∀ p ∈ w.payments, p.2.ethSpent ≠ 0 ∨ p.2.usdcSpent ≠ 0
  accepted : ∀ p ∈ w.payments, Accepted H ok p.2

variable {ok : Event → Prop}

theorem Book.congr (h : Book H ok w) (hpayments : w'.payments = w.payments) (hclaimed : w'.claimed = w.claimed)
    (hstatement : w'.paidStatement = w.paidStatement)
    (hlast : ∀ i, (w'.policies i).lastPaidBlock = (w.policies i).lastPaidBlock)
    (hblock : w.blockNumber.toNat ≤ w'.blockNumber.toNat) : Book H ok w' where
  claimed := by
    rw [hpayments, hclaimed]
    exact h.claimed
  paidStatement := by
    rw [hpayments, hstatement]
    exact h.paidStatement
  lastPaid i := by
    rw [hpayments, hlast]
    exact h.lastPaid i
  past p hp := by
    rw [hpayments] at hp
    obtain ⟨hne, hle, hpast⟩ := h.past p hp
    rw [hlast]
    exact ⟨hne, hle, hpast.trans hblock⟩
  block hzero := by
    rw [hzero] at hblock
    exact h.block (UInt64.toNat_inj.mp (Nat.le_zero.mp hblock))
  apart := hpayments ▸ h.apart
  nonzero := hpayments ▸ h.nonzero
  accepted := hpayments ▸ h.accepted

theorem Settled.world {s : Settlement} (h : Settled imm s w w') :
    w'.payments = w.payments ++ [(w.blockNumber, s)] ∧
    w'.claimed = (w.consume s.instanceId s.terms s.checkpointId).claimed ∧
    w'.paidStatement = (w.consume s.instanceId s.terms s.checkpointId).paidStatement ∧
    w'.policies = (w.setLastPaidBlock s.instanceId w.blockNumber).policies ∧ w'.blockNumber = w.blockNumber := by
  obtain ⟨fee, gas, w₁, w₂, hfee, hgas, -, -, rfl⟩ := h.legs
  have hw₂ : w₂ = { w with accounts := w₂.accounts, credit := w₂.credit } := by rw [hgas.frame, hfee.frame]
  rw [payments_note_settled, hw₂]
  exact ⟨rfl, rfl, rfl, rfl, rfl⟩

theorem claimed_consume (w : World) (s : Settlement) (i : B256) (snapshot : Address) (c : ℕ) :
    (w.consume s.instanceId s.terms s.checkpointId).claimed i snapshot c = true ↔
      w.claimed i snapshot c = true ∨ s.instanceId = i ∧ s.terms.snapshot = snapshot ∧ s.checkpointId = c := by
  show (update w.claimed s.instanceId (update (w.claimed s.instanceId) s.terms.snapshot
    (update (w.claimed s.instanceId s.terms.snapshot) s.checkpointId true)) i snapshot c = true) ↔ _
  by_cases hi : i = s.instanceId
  · subst hi
    rw [update_self]
    by_cases hs : snapshot = s.terms.snapshot
    · subst hs
      rw [update_self]
      by_cases hc : c = s.checkpointId
      · subst hc
        simp
      · rw [update_of_ne hc]
        exact ⟨.inl, fun h => h.resolve_right fun hand => hc hand.2.2.symm⟩
    · rw [update_of_ne hs]
      exact ⟨.inl, fun h => h.resolve_right fun hand => hs hand.2.1.symm⟩
  · rw [update_of_ne hi]
    exact ⟨.inl, fun h => h.resolve_right fun hand => hi hand.1.symm⟩

theorem paidStatement_consume (w : World) (s : Settlement) (i statement : B256) :
    (w.consume s.instanceId s.terms s.checkpointId).paidStatement i statement = true ↔
      w.paidStatement i statement = true ∨ s.instanceId = i ∧ s.terms.statement = statement := by
  show (update w.paidStatement s.instanceId (update (w.paidStatement s.instanceId)
    s.terms.statement true) i statement = true) ↔ _
  by_cases hi : i = s.instanceId
  · subst hi
    rw [update_self]
    by_cases hs : statement = s.terms.statement
    · subst hs
      simp
    · rw [update_of_ne hs]
      exact ⟨.inl, fun h => h.resolve_right fun hand => hs hand.2.symm⟩
  · rw [update_of_ne hi]
    exact ⟨.inl, fun h => h.resolve_right fun hand => hi hand.1.symm⟩

theorem lastPaidBlock_set (w : World) (i instanceId : B256) (block : UInt64) :
    ((w.setLastPaidBlock instanceId block).policies i).lastPaidBlock =
      if i = instanceId then block else (w.policies i).lastPaidBlock := by
  show (update w.policies instanceId _ i).lastPaidBlock = _
  by_cases hi : i = instanceId
  · rw [if_pos hi, hi, update_self]
  · rw [if_neg hi, update_of_ne hi]

theorem Book.apart_new (h : Book H ok w) {s : Settlement} (hs : Settled imm s w w')
    (hunclaimed : w.claimed s.instanceId s.terms.snapshot s.checkpointId = false)
    (hlast : s.terms.lastPaidBlock = (w.policies s.instanceId).lastPaidBlock) {p : UInt64 × Settlement}
    (hp : p ∈ w.payments) (hsame : p.2.instanceId = s.instanceId) : Apart p (w.blockNumber, s) where
  slot heq := by
    obtain ⟨hsnapshot, hcheckpoint⟩ := Prod.mk.inj heq
    have hclaimed := (h.claimed s.instanceId s.terms.snapshot s.checkpointId).mpr
      ⟨p, hp, hsame, hsnapshot, hcheckpoint⟩
    rw [hunclaimed] at hclaimed
    exact nomatch hclaimed
  statement heq := by
    have hpaid := (h.paidStatement s.instanceId s.terms.statement).mpr ⟨p, hp, hsame, heq⟩
    rw [hs.unpaid] at hpaid
    exact nomatch hpaid
  interval := by
    obtain ⟨hne, hle, -⟩ := h.past p hp
    rw [hsame, ← hlast] at hle
    have hset : s.terms.lastPaidBlock ≠ 0 := by
      intro hzero
      rw [hzero] at hle
      exact hne (UInt64.toNat_inj.mp (Nat.le_zero.mp hle))
    exact (Nat.add_le_add_right hle _).trans (hs.cadence hset)

theorem Book.settled (h : Book H ok w) {s : Settlement} (hs : Settled imm s w w')
    (hunclaimed : w.claimed s.instanceId s.terms.snapshot s.checkpointId = false)
    (hlast : s.terms.lastPaidBlock = (w.policies s.instanceId).lastPaidBlock)
    (haccepted : Accepted H ok s) : Book H ok w' := by
  obtain ⟨hpayments, hclaimed, hstatement, hpolicies, hblock⟩ := hs.world
  have hmem : ∀ {Q : UInt64 × Settlement → Prop}, (∃ p ∈ w'.payments, Q p) ↔
      (∃ p ∈ w.payments, Q p) ∨ Q (w.blockNumber, s) := by
    intro Q
    rw [hpayments]
    simp only [mem_append, mem_singleton, or_and_right, exists_or, exists_eq_left]
  have hall : ∀ {Q : UInt64 × Settlement → Prop}, (∀ p ∈ w.payments, Q p) → Q (w.blockNumber, s) →
      ∀ p ∈ w'.payments, Q p := by
    intro Q hold hnew p hp
    rw [hpayments, mem_append, mem_singleton] at hp
    rcases hp with hp | rfl
    · exact hold p hp
    · exact hnew
  have hlastPaid : ∀ i, (w'.policies i).lastPaidBlock =
      if i = s.instanceId then w.blockNumber else (w.policies i).lastPaidBlock := by
    intro i
    rw [hpolicies, lastPaidBlock_set]
  refine ⟨?_, ?_, ?_, ?_, hblock ▸ h.block, ?_, hall h.nonzero hs.nonzero, hall h.accepted haccepted⟩
  · intro i snapshot c
    rw [hclaimed, claimed_consume, h.claimed, hmem]
  · intro i statement
    rw [hstatement, paidStatement_consume, h.paidStatement, hmem]
  · intro i
    rw [hlastPaid, hmem]
    by_cases hi : i = s.instanceId
    · rw [if_pos hi]
      exact fun _ => .inr ⟨hi.symm, rfl⟩
    · rw [if_neg hi]
      exact fun hne => .inl (h.lastPaid i hne)
  · refine hall (fun p hp => ?_) ⟨h.block, ?_, hblock ▸ le_rfl⟩
    · obtain ⟨hne, hle, hpast⟩ := h.past p hp
      refine ⟨hne, ?_, hblock ▸ hpast⟩
      rw [hlastPaid]
      by_cases hi : p.2.instanceId = s.instanceId
      · rw [if_pos hi]
        exact hpast
      · rw [if_neg hi]
        exact hle
    · rw [hlastPaid, if_pos rfl]
  · rw [hpayments, pairwise_append]
    refine ⟨h.apart, pairwise_singleton _ _, fun p hp q hq => ?_⟩
    rw [mem_singleton] at hq
    subst hq
    exact fun hsame => h.apart_new hs hunclaimed hlast hp hsame

theorem acceptedStatement_eq_ok {snapshot : Address} {statement : B256}
    (h : acceptedStatement H env snapshot checkpointId = .ok statement) :
    ∃ state provenance, env.view.getAcceptedCheckpoint snapshot checkpointId = .value (state, provenance) := by
  obtain ⟨⟨state, provenance⟩, haccepted, -⟩ := Outcome.of_bind h
  exact ⟨state, provenance, get_eq_ok.mp haccepted⟩

theorem Opened.book {call : Call} (hopened : Opened imm w call w') (h : Book H ok w) : Book H ok w' := by
  cases hopened with
  | fees => exact h.congr rfl rfl rfl (fun _ => rfl) le_rfl
  | depositedETH => exact h.congr (payments_note _ (by simp)) rfl rfl (fun _ => rfl) le_rfl
  | depositedUSDC => exact h.congr (payments_note _ (by simp)) rfl rfl (fun _ => rfl) le_rfl

theorem Guarded.book {e : Event} (hok : ok e) (hanswers : Answers env.view e) (hguarded : Guarded H imm env w w')
    (h : Book H ok w) : Book H ok w' := by
  cases hguarded with
  | nothing => exact h
  | migrated => exact h.congr rfl rfl rfl (fun _ => rfl) le_rfl
  | settled s _ hs hunclaimed hlast _ haccepted =>
    obtain ⟨state, provenance, hcheckpoint⟩ := acceptedStatement_eq_ok haccepted
    exact h.settled hs hunclaimed hlast ⟨e, env, hok, hanswers, state, provenance, hcheckpoint, haccepted⟩
  | policySet instanceId minPaidIntervalBlocks maxPerRootUsd =>
    refine h.congr rfl rfl rfl (fun i => ?_) le_rfl
    show (update w.policies instanceId _ i).lastPaidBlock = (w.policies i).lastPaidBlock
    by_cases hi : i = instanceId
    · rw [hi, update_self]
    · rw [update_of_ne hi]
  | requested => exact h.congr (payments_note _ (by simp)) rfl rfl (fun _ => rfl) le_rfl
  | cancelled => exact h.congr (payments_note _ (by simp)) rfl rfl (fun _ => rfl) le_rfl
  | withdrawn => exact h.congr (payments_note _ (by simp)) rfl rfl (fun _ => rfl) le_rfl
  | creditWithdrawn => exact h.congr rfl rfl rfl (fun _ => rfl) le_rfl

theorem kept_book (ok : Event → Prop) : Kept H imm (fun e _ => ok e) (Book H ok) where
  opened _ _ hopened h := hopened.book h
  guarded hok hanswers hguarded h := hguarded.book hok hanswers h
  lock _ h := h.congr rfl rfl rfl (fun _ => rfl) le_rfl
  outside o h := by
    cases o with
    | eth amount => exact h.congr rfl rfl rfl (fun _ => rfl) le_rfl
    | usdc amount => exact h.congr rfl rfl rfl (fun _ => rfl) le_rfl
  between b hb h := by
    rw [advance, Option.ite_none_left_eq_some, not_or] at hb
    obtain ⟨⟨-, hblock⟩, hb⟩ := hb
    rw [← Option.some.inj hb]
    exact h.congr rfl rfl rfl (fun _ => rfl) (UInt64.le_iff_toNat_le.mp (UInt64.not_lt.mp hblock))

theorem Start.book (h : Start imm w) : Book H ok w := by
  obtain ⟨registry, feed, feeSetter, admin, feedDecimals, stablecoinDecimals, hok⟩ := h.constructed
  obtain ⟨-, hok⟩ := Outcome.of_guard hok
  obtain ⟨-, hok⟩ := Outcome.of_guard hok
  obtain ⟨-, hok⟩ := Outcome.of_guard hok
  have hstorage := (Prod.mk.inj (Except.ok.inj hok)).2
  have hpayments : w.payments = [] := by
    rw [World.payments, h.history]
    rfl
  have hclaimed : w.claimed = fun _ _ _ => false := by rw [← hstorage]
  have hstatement : w.paidStatement = fun _ _ => false := by rw [← hstorage]
  have hpolicies : w.policies = fun _ => ⟨0, 0, 0⟩ := by rw [← hstorage]
  refine ⟨?_, ?_, ?_, ?_, h.block, ?_, ?_, ?_⟩
  · simp [hpayments, hclaimed]
  · simp [hpayments, hstatement]
  · simp [hpolicies]
  · simp [hpayments]
  · simp [hpayments]
  · simp [hpayments]
  · simp [hpayments]

/-- How a claim leaves the vault that the lock was taken of: as it was, or with one payment more, under the
interval of the policy. -/
def PaidOrUnpaid (instanceId : B256) (checkpointId : Nat) (w w' : World) : Prop :=
  w' = w.lock false ∨ ∃ s, w'.payments = w.payments ++ [(w.blockNumber, s)] ∧ s.instanceId = instanceId ∧
    s.checkpointId = checkpointId ∧
    s.terms.minPaidIntervalBlocks = (w.policies instanceId).minPaidIntervalBlocks

theorem Claimed.paid {w₀ : World} (h : w' = w ∨ Claimed H imm env instanceId checkpointId w w')
    (hw : w = w₀.lock true) : PaidOrUnpaid instanceId checkpointId w₀ (w'.lock false) := by
  subst hw
  rcases h with rfl | ⟨s, hs, rfl, rfl, -, -, hinterval, -⟩
  · exact .inl rfl
  · exact .inr ⟨s, hs.world.1, rfl, rfl, hinterval⟩

/-- What the vault has paid at every point of a run, and how a claim or a submission ends there. -/
theorem run_paid_once (H : Hashes) (imm : Immutables) (w : World) (hstart : Start imm w) (events : List Event) :
    Book H (fun e => e ∈ events) (run H imm w events).world ∧
    (∀ env instanceId checkpointId w', claim H imm env (run H imm w events).world instanceId checkpointId = .ok w' →
      PaidOrUnpaid instanceId checkpointId (run H imm w events).world w') ∧
    ∀ entry called env instanceId args t frames,
      (run H imm w events).frames = .waiting entry called (.submitting env instanceId args t) :: frames →
      ∀ r w', resume H imm (.submitting env instanceId args t) (some r) (run H imm w events).world = .returned w' →
        PaidOrUnpaid instanceId args.checkpointId (run H imm w events).world w' := by
  have hallowed : Allowed (contract H imm) (fun e _ => e ∈ events) w events := by
    rintro before e after rfl
    exact mem_append_right _ mem_cons_self
  obtain ⟨hlocked, hbook⟩ := (kept_book fun e => e ∈ events).locked.run hstart.entered hstart.book hallowed
  refine ⟨hbook, ?_, ?_⟩
  · intro env instanceId checkpointId w' hclaim
    obtain ⟨-, w₁, hclaimed, rfl⟩ := claim_eq_ok hclaim
    exact Claimed.paid hclaimed rfl
  · intro entry called env instanceId args t frames hframes r w' hresume
    have hwaiting : waiting (run H imm w events).frames =
        .submitting env instanceId args t :: waiting frames := by
      rw [hframes]
      rfl
    change Locked _ _ (waiting (run H imm w events).frames) _ at hlocked
    rw [hwaiting] at hlocked
    obtain ⟨-, hheld, hunclaimed, hlast, hinterval⟩ := hlocked.held
    cases hend : submitEnd H imm { env with view := r.view } (run H imm w events).world instanceId args t
        r.gasUsed with
    | error e =>
      change ended (submitEnd H imm { env with view := r.view } _ instanceId args t r.gasUsed) = _ at hresume
      rw [hend] at hresume
      exact nomatch hresume
    | ok w'' =>
      change ended (submitEnd H imm { env with view := r.view } _ instanceId args t r.gasUsed) = _ at hresume
      rw [hend] at hresume
      obtain rfl : w'' = w' := Turn.returned.inj hresume
      obtain ⟨w₁, hclaimed, rfl⟩ := submitEnd_eq_ok hend hunclaimed hlast hinterval
      refine Claimed.paid hclaimed ?_
      show _ = World.lock _ true
      rw [World.lock, ← hheld]
      rfl

end

namespace VaultExample

def claims : List Event := setup ++ [call prover (.claim (word 1) 0), call prover (.claim (word 2) 0)]

/-- The environment of a claim of the next checkpoint, before the interval of the policy is over. -/
def early : Env := ⟨prover, 10000000000, { view with lastAppliedCheckpoint := fun _ => .value 1 }, true⟩

theorem claims_payments : (constructed.toOption.map fun r =>
    (run hashes imm (start r.2) claims).world.payments.map fun p =>
      (p.2.instanceId, p.2.terms.statement, p.2.ethSpent, p.2.usdcSpent)) =
    some [(word 1, statement, 3333333333333333, 0), (word 2, statement, 0, 10000000)] ∧
    (constructed.toOption.bind fun r =>
      (claim hashes imm early (run hashes imm (start r.2) claims).world (word 1) 1).toOption.map fun w =>
        w.payments.length) = some 2 := by
  decide +kernel

theorem exists_claims : ∃ s, Start imm (start s) ∧
    ((run hashes imm (start s) claims).world.payments.map fun p =>
      (p.2.instanceId, p.2.terms.statement, p.2.ethSpent, p.2.usdcSpent)) =
      [(word 1, statement, 3333333333333333, 0), (word 2, statement, 0, 10000000)] ∧
    ∃ w', claim hashes imm early (run hashes imm (start s) claims).world (word 1) 1 = .ok w' ∧
      w'.payments.length = 2 := by
  obtain ⟨s, hs, hstart⟩ := exists_start
  have h := claims_payments
  rw [hs] at h
  obtain ⟨w', hw', hlength⟩ := Option.map_eq_some_iff.mp h.2
  exact ⟨s, hstart, Option.some.inj h.1, w', Outcome.toOption_eq_some.mp hw', hlength⟩

end VaultExample

open VaultExample in
/-- The book after two payments, and a second claim of one instance that stays unpaid. -/
theorem run_paid_once_two_claims : ∃ s, Start imm (start s) ∧
    (run hashes imm (start s) claims).world.payments.length = 2 ∧
    Book hashes (fun e => e ∈ claims) (run hashes imm (start s) claims).world ∧
    ∃ w', claim hashes imm early (run hashes imm (start s) claims).world (word 1) 1 = .ok w' ∧
      w'.payments.length = 2 ∧ PaidOrUnpaid (word 1) 1 (run hashes imm (start s) claims).world w' := by
  obtain ⟨s, hstart, hpayments, w', hw', hunpaid⟩ := exists_claims
  obtain ⟨hbook, hclaim, -⟩ := run_paid_once hashes imm (start s) hstart claims
  have hlength := congrArg List.length hpayments
  rw [length_map] at hlength
  exact ⟨s, hstart, hlength, hbook, w', hw', hunpaid, hclaim early (word 1) 1 w' hw'⟩

open VaultExample in
/-- Two communities of one snapshot both pay for one accepted statement. -/
theorem run_paid_once_two_instances : ∃ s, Start imm (start s) ∧
    ∃ p q, (run hashes imm (start s) claims).world.payments = [p, q] ∧
      p.2.terms.statement = q.2.terms.statement ∧ p.2.ethSpent ≠ 0 ∧ q.2.usdcSpent ≠ 0 := by
  obtain ⟨s, hstart, hpayments, -⟩ := exists_claims
  refine ⟨s, hstart, ?_⟩
  obtain ⟨p, ps, hp, hpeq, hps⟩ := map_eq_cons_iff.mp hpayments
  obtain ⟨q, qs, hq, hqeq, hqs⟩ := map_eq_cons_iff.mp hps
  rw [map_eq_nil_iff] at hqs
  subst hqs hq
  simp only [Prod.mk.injEq] at hpeq hqeq
  refine ⟨p, q, hp, hpeq.2.1.trans hqeq.2.1.symm, ?_, ?_⟩
  · rw [hpeq.2.2.1]
    decide
  · rw [hqeq.2.2.2]
    decide

end Trustgraphs.ProvingVault
