import Trustgraphs.Contracts.Proofs.DistributorProofs
import Trustgraphs.Lib.Ledger

/-!
# Runs of the distributor

Every turn keeps the books sound, so they are sound at every point of a run, and with them what else the calls
keep (`Keeps.run_holds`).
-/

namespace Trustgraphs.MerkleFundDistributor

open Evm CallStack Function List

section

variable {H : Hashes} {self : Address} {env : Env} {w w' : World}

theorem outstandingOf_append (ds : List DistributionState) (d : DistributionState) (token : Address) :
    outstandingOf (ds ++ [d]) token = outstandingOf ds token + if d.token = token then d.outstanding else 0 := by
  rw [outstandingOf, map_append, sum_append]
  rfl

variable {ds : List DistributionState} {i : ℕ} {d d' : DistributionState}

theorem outstandingOf_set (h : ds[i]? = some d) (htoken : d'.token = d.token) (token : Address) :
    outstandingOf (ds.set i d') token + (if d.token = token then d.outstanding else 0) =
      outstandingOf ds token + if d.token = token then d'.outstanding else 0 := by
  have hsum := Ledger.sum_set (fun d => if d.token = token then d.outstanding else 0) (b := d') h
  rw [htoken] at hsum
  exact hsum

theorem solvent_set {amount : ℕ}
    {balance balance' : Address → ℕ} (h : ∀ token, outstandingOf ds token ≤ balance token)
    (hd : ds[i]? = some d) (htoken : d'.token = d.token) (hless : d'.outstanding + amount ≤ d.outstanding)
    (hsent : balance d.token ≤ balance' d.token + amount)
    (hothers : ∀ token, token ≠ d.token → balance token ≤ balance' token) (token : Address) :
    outstandingOf (ds.set i d') token ≤ balance' token := by
  have hsum := outstandingOf_set hd htoken token
  have hbefore := h token
  by_cases ht : d.token = token
  · subst ht
    rw [if_pos rfl, if_pos rfl] at hsum
    omega
  · rw [if_neg ht, if_neg ht] at hsum
    have hmore := hothers token (Ne.symm ht)
    omega

theorem Closed.mono (h : Closed w i d) (hdeadline : d'.claimDeadline = d.claimDeadline)
    (hbaseline : w'.distributionPausedDuration i = w.distributionPausedDuration i)
    (hclock : w'.elapsed + w.timestamp.toNat ≤ w.elapsed + w'.timestamp.toNat) : Closed w' i d' := by
  obtain ⟨hset, hlate⟩ := h
  refine ⟨hdeadline ▸ hset, ?_⟩
  rw [hdeadline, hbaseline]
  omega

theorem elapsed_later (h : Sound w) (hpaused : w'.paused = w.paused)
    (hstarted : w'.pauseStartedAt = w.pauseStartedAt) (htotal : w'.totalPausedDuration = w.totalPausedDuration)
    (htime : w.timestamp.toNat ≤ w'.timestamp.toNat) :
    w'.elapsed = w.elapsed + if w.paused then w'.timestamp.toNat - w.timestamp.toNat else 0 := by
  have hbound : w.paused = true → _ := h.started
  rw [World.elapsed, World.elapsed, hpaused, hstarted, htotal]
  by_cases hp : w.paused = true
  · have hs := hbound hp
    rw [if_pos hp, if_pos hp, if_pos hp]
    omega
  · rw [if_neg hp, if_neg hp, if_neg hp]

theorem clock_later (h : Sound w) (hpaused : w'.paused = w.paused)
    (hstarted : w'.pauseStartedAt = w.pauseStartedAt) (htotal : w'.totalPausedDuration = w.totalPausedDuration)
    (htime : w.timestamp.toNat ≤ w'.timestamp.toNat) :
    w'.elapsed + w.timestamp.toNat ≤ w.elapsed + w'.timestamp.toNat := by
  rw [elapsed_later h hpaused hstarted htotal htime]
  by_cases hp : w.paused = true
  · rw [if_pos hp]
    omega
  · rw [if_neg hp]
    omega

theorem Sound.congr (h : Sound w) (hfee : w'.feePercentage.toNat ≤ FEE_RANGE.toNat)
    (hpending : w'.pendingFeePercentage.toNat ≤ FEE_RANGE.toNat) (hrounds : w'.distributions = w.distributions)
    (hbalance : ∀ token, w.balance token ≤ w'.balance token) (hpaused : w'.paused = w.paused)
    (hstarted : w'.pauseStartedAt = w.pauseStartedAt) (htotal : w'.totalPausedDuration = w.totalPausedDuration)
    (hbaseline : w'.distributionPausedDuration = w.distributionPausedDuration)
    (htime : w.timestamp.toNat ≤ w'.timestamp.toNat) : Sound w' := by
  have hclock := clock_later h hpaused hstarted htotal htime
  refine ⟨hfee, hpending, hrounds ▸ h.round, fun token => ?_, fun hp => ?_, ?_, ?_, fun i d hd hswept => ?_⟩
  · rw [World.outstanding, hrounds]
    exact (h.solvent token).trans (hbalance token)
  · rw [hstarted]
    exact (h.started (hpaused ▸ hp)).trans htime
  · have helapsed := h.elapsed
    omega
  · rw [hrounds, hbaseline, htotal]
    exact h.baseline
  · rw [hrounds] at hd
    exact (h.swept i d hd hswept).mono rfl (congrFun hbaseline i) hclock

theorem Opened.clock (hopened : Opened w w') (h : Sound w) :
    w'.timestamp = w.timestamp ∧ w'.elapsed = w.elapsed := by
  cases hopened with
  | configured => exact ⟨rfl, rfl⟩
  | feeLowered => exact ⟨rfl, rfl⟩
  | feeScheduled => exact ⟨rfl, rfl⟩
  | feeApplied => exact ⟨rfl, rfl⟩
  | paused hunpaused =>
    refine ⟨rfl, ?_⟩
    show w.totalPausedDuration.toNat + (w.timestamp.toNat - (uint256 w.timestamp).toNat) = _
    rw [World.elapsed, hunpaused, toNat_uint256, Nat.sub_self]
    rfl
  | unpaused hpaused total htotal =>
    refine ⟨rfl, ?_⟩
    have hstarted := h.started hpaused
    show total.toNat + 0 = _
    rw [World.elapsed, if_pos hpaused]
    omega

theorem Opened.sound (hopened : Opened w w') (h : Sound w) : Sound w' := by
  have hclock := (hopened.clock h).2
  cases hopened with
  | configured => exact h.congr h.fee h.pendingFee rfl (fun _ => le_rfl) rfl rfl rfl rfl le_rfl
  | feeLowered v hlower =>
    exact h.congr (hlower.trans h.fee) (Nat.zero_le _) rfl (fun _ => le_rfl) rfl rfl rfl rfl le_rfl
  | feeScheduled v effectiveAt hrange =>
    exact h.congr h.fee hrange rfl (fun _ => le_rfl) rfl rfl rfl rfl le_rfl
  | feeApplied => exact h.congr h.pendingFee (Nat.zero_le _) rfl (fun _ => le_rfl) rfl rfl rfl rfl le_rfl
  | paused hunpaused =>
    refine ⟨h.fee, h.pendingFee, h.round, h.solvent, fun _ => (toNat_uint256 _).le, hclock ▸ h.elapsed, h.baseline,
      fun i d hd hswept => ?_⟩
    exact (h.swept i d hd hswept).mono rfl rfl (by rw [hclock])
  | unpaused hpaused total htotal =>
    have hstarted := h.started hpaused
    refine ⟨h.fee, h.pendingFee, h.round, h.solvent, fun hp => (nomatch hp), hclock ▸ h.elapsed, fun i hi => ?_,
      fun i d hd hswept => ?_⟩
    · have hbase := h.baseline i hi
      show (w.distributionPausedDuration i).toNat ≤ total.toNat
      omega
    · exact (h.swept i d hd hswept).mono rfl rfl (by rw [hclock])

theorem fee_le {funded feePercentage feeAmount : ℕ} (h : feeAmount = funded * feePercentage / FEE_RANGE.toNat)
    (hrange : feePercentage ≤ FEE_RANGE.toNat) : feeAmount ≤ funded := by
  rw [h]
  refine Nat.div_le_of_le_mul ?_
  rw [Nat.mul_comm FEE_RANGE.toNat]
  exact Nat.mul_le_mul_left _ hrange

theorem getElem?_set_cases {j : ℕ} {e : DistributionState}
    (hd : ds[i]? = some d) (he : (ds.set i d')[j]? = some e) : j = i ∧ e = d' ∨ j ≠ i ∧ ds[j]? = some e := by
  by_cases hj : j = i
  · subst hj
    rw [getElem?_set_self (List.getElem?_eq_some_iff.mp hd).1] at he
    exact .inl ⟨rfl, (Option.some.inj he).symm⟩
  · rw [getElem?_set_ne (Ne.symm hj)] at he
    exact .inr ⟨hj, he⟩

theorem Sound.booked {v : World} {amount : ℕ} (h : Sound w)
    (hd : w.distributions[i]? = some d) (hrounds : v.distributions = w.distributions.set i d')
    (hframe : v = { w with
      distributions := v.distributions, claimed := v.claimed, balance := v.balance, history := v.history })
    (htoken : d'.token = d.token) (hdeadline : d'.claimDeadline = d.claimDeadline)
    (hround : d'.feeAmount.toNat + d'.amountDistributed.toNat + d'.sweptAmount.toNat ≤ d'.amountFunded.toNat)
    (hless : d'.outstanding + amount ≤ d.outstanding) (hswept : d'.sweptAmount ≠ 0 → Closed w i d)
    (hsent : w.balance d.token ≤ v.balance d.token + amount)
    (hothers : ∀ token, token ≠ d.token → w.balance token ≤ v.balance token) : Sound v := by
  have hsolvent := solvent_set h.solvent hd htoken hless hsent hothers
  have hlength : v.distributions.length = w.distributions.length := by rw [hrounds, length_set]
  have hclock : v.elapsed + w.timestamp.toNat ≤ w.elapsed + v.timestamp.toNat := by
    rw [hframe]
    exact le_rfl
  have hbaseline : v.distributionPausedDuration = w.distributionPausedDuration := by rw [hframe]
  refine ⟨?_, ?_, fun e he => ?_, fun token => ?_, ?_, ?_, ?_, fun j e he hset => ?_⟩
  · rw [hframe]
    exact h.fee
  · rw [hframe]
    exact h.pendingFee
  · rw [hrounds] at he
    rcases mem_or_eq_of_mem_set he with he | rfl
    · exact h.round e he
    · exact hround
  · rw [World.outstanding, hrounds]
    exact hsolvent token
  · rw [hframe]
    exact h.started
  · rw [hframe]
    exact h.elapsed
  · rw [hlength, hframe]
    exact h.baseline
  · rw [hrounds] at he
    rcases getElem?_set_cases hd he with ⟨rfl, rfl⟩ | ⟨-, he⟩
    · exact (hswept hset).mono hdeadline (congrFun hbaseline j) hclock
    · exact (h.swept j e he hset).mono rfl (congrFun hbaseline j) hclock

theorem unswept_of_early (h : Sound w) {deadline : U256}
    (hd : w.distributions[i]? = some d) (hdeadline : effectiveClaimDeadline w i = .ok deadline)
    (hearly : deadline = 0 ∨ w.timestamp.toNat ≤ deadline.toNat) : d.sweptAmount = 0 := by
  by_contra hswept
  obtain ⟨hset, hlate⟩ := (closed_iff h hd hdeadline).mp (h.swept i d hd hswept)
  rcases hearly with hzero | hle
  · exact hset hzero
  · exact absurd hlate (not_lt.mpr hle)

theorem Guarded.sound (hguarded : Guarded w w') (h : Sound w) : Sound w' := by
  cases hguarded with
  | nothing => exact h
  | distributed d balance hunclaimed hunswept hfee hdeadline hcovered hothers =>
    have hle := fee_le hfee h.fee
    have hround : d.feeAmount.toNat + d.amountDistributed.toNat + d.sweptAmount.toNat ≤ d.amountFunded.toNat := by
      rw [hunclaimed, hunswept]
      exact hle
    have houtstanding : d.outstanding = d.amountFunded.toNat - d.feeAmount.toNat := by
      rw [DistributionState.outstanding, hunclaimed, hunswept]
      rfl
    refine ⟨h.fee, h.pendingFee, ?_, fun token => ?_, h.started, h.elapsed, fun i hi => ?_,
      fun i e he hswept => ?_⟩
    · intro e he
      rcases mem_append.mp he with he | he
      · exact h.round e he
      · exact List.mem_singleton.mp he ▸ hround
    · show outstandingOf (w.distributions ++ [d]) token ≤ balance token
      rw [outstandingOf_append]
      by_cases ht : d.token = token
      · subst ht
        rw [if_pos rfl, houtstanding]
        change outstandingOf w.distributions d.token + _ ≤ _ at hcovered
        omega
      · rw [if_neg ht]
        exact (h.solvent token).trans (hothers token (Ne.symm ht))
    · change i < (w.distributions ++ [d]).length at hi
      rw [length_append, length_singleton] at hi
      show (update w.distributionPausedDuration w.distributions.length w.totalPausedDuration i).toNat ≤
        w.totalPausedDuration.toNat
      by_cases hlast : i = w.distributions.length
      · rw [hlast, update_self]
      · rw [update_of_ne hlast]
        exact h.baseline i (by omega)
    · change (w.distributions ++ [d])[i]? = some e at he
      by_cases hi : i < w.distributions.length
      · rw [getElem?_append_left hi] at he
        refine (h.swept i e he hswept).mono rfl ?_ le_rfl
        exact update_of_ne hi.ne ..
      · rw [getElem?_append_right (not_lt.mp hi)] at he
        exact absurd (List.mem_singleton.mp (mem_of_getElem? he) ▸ hunswept) hswept
  | claimed i d account amount amountDistributed deadline balance hfound hwindow hearly _ _ hbudget hbooked hsent
      hothers =>
    have hunswept := unswept_of_early h hfound hwindow hearly
    have hswept : d.sweptAmount.toNat = 0 := by
      rw [hunswept]
      rfl
    refine h.booked  hfound rfl rfl
      rfl rfl ?_ ?_ (fun hset => absurd hunswept hset) hsent hothers
    · show d.feeAmount.toNat + amountDistributed.toNat + d.sweptAmount.toNat ≤ d.amountFunded.toNat
      omega
    · show d.amountFunded.toNat - d.feeAmount.toNat - amountDistributed.toNat - d.sweptAmount.toNat + amount.toNat ≤
        d.amountFunded.toNat - d.feeAmount.toNat - d.amountDistributed.toNat - d.sweptAmount.toNat
      omega
  | swept i d amount deadline balance hfound hwindow hlate hunswept hrest _ hsent hothers =>
    have hswept : d.sweptAmount.toNat = 0 := by
      rw [hunswept]
      rfl
    refine h.booked  hfound rfl rfl rfl rfl ?_ ?_
      (fun _ => (closed_iff h hfound hwindow).mpr hlate) hsent hothers
    · show d.feeAmount.toNat + d.amountDistributed.toNat + amount.toNat ≤ d.amountFunded.toNat
      omega
    · show d.amountFunded.toNat - d.feeAmount.toNat - d.amountDistributed.toNat - amount.toNat + amount.toNat ≤
        d.amountFunded.toNat - d.feeAmount.toNat - d.amountDistributed.toNat - d.sweptAmount.toNat
      omega

theorem Sound.lock (h : Sound w) (entered : Bool) : Sound (w.lock entered) :=
  h.congr h.fee h.pendingFee rfl (fun _ => le_rfl) rfl rfl rfl rfl le_rfl

theorem Sound.credit (h : Sound w) (token : Address) (amount : ℕ) : Sound (w.credit token amount) := by
  refine h.congr h.fee h.pendingFee rfl (fun other => ?_) rfl rfl rfl rfl le_rfl
  rw [balance_credit]
  exact Nat.le_add_right _ _

theorem advance_eq_some {b : Header} (h : advance b w = some w') : w.timestamp.toNat ≤ w'.timestamp.toNat ∧
      w' = { w with timestamp := w'.timestamp, blockNumber := w'.blockNumber } := by
  rw [advance, Option.ite_none_left_eq_some, not_or] at h
  obtain ⟨⟨htime, -⟩, h⟩ := h
  obtain rfl := Option.some.inj h
  exact ⟨UInt64.le_iff_toNat_le.mp (UInt64.not_lt.mp htime), rfl⟩

theorem Sound.advance (h : Sound w) {b : Header} (hb : advance b w = some w') : Sound w' := by
  obtain ⟨htime, hw'⟩ := advance_eq_some hb
  rw [hw'] at htime ⊢
  exact h.congr h.fee h.pendingFee rfl (fun _ => le_rfl) rfl rfl rfl rfl htime

theorem Waits.congr {k : Waiting} (h : Waits k w) (hrounds : w'.distributions = w.distributions)
    (hbalance : ∀ token, w.balance token ≤ w'.balance token) (htime : w'.timestamp = w.timestamp) :
    Waits k w' := by
  cases k with
  | pulling msgSender args state balanceBefore =>
    obtain ⟨hdeadline, houtstanding, hbefore⟩ := h
    refine ⟨?_, ?_, hbefore.trans (hbalance _)⟩
    · rw [htime]
      exact hdeadline
    · rw [World.outstanding, hrounds]
      exact houtstanding
  | sending failure => trivial

theorem Opened.waits {k : Waiting} (hopened : Opened w w') (h : Waits k w) : Waits k w' := by
  cases hopened with
  | configured => exact h.congr rfl (fun _ => le_rfl) rfl
  | feeLowered => exact h.congr rfl (fun _ => le_rfl) rfl
  | feeScheduled => exact h.congr rfl (fun _ => le_rfl) rfl
  | feeApplied => exact h.congr rfl (fun _ => le_rfl) rfl
  | paused => exact h.congr rfl (fun _ => le_rfl) rfl
  | unpaused => exact h.congr rfl (fun _ => le_rfl) rfl

theorem Opened.entered (h : Opened w w') : w'.entered = w.entered := by
  cases h with
  | configured => rfl
  | feeLowered => rfl
  | feeScheduled => rfl
  | feeApplied => rfl
  | paused => rfl
  | unpaused => rfl

theorem Guarded.entered (h : Guarded w w') : w'.entered = w.entered := by
  cases h with
  | nothing => rfl
  | distributed => rfl
  | claimed => rfl
  | swept => rfl

/-- `X` is kept by what calls do where the books are sound, and by what happens without the contract, where
`ok` allows it. -/
structure Keeps (ok : Event → World → Prop) (X : World → Prop) : Prop where
  opened : ∀ {w w'}, Sound w → Opened w w' → X w → X w'
  guarded : ∀ {w w'}, Sound w → Guarded w w' → X w → X w'
  lock : ∀ {w} (entered : Bool), X w → X (w.lock entered)
  credit : ∀ {w} (token : Address) (amount : ℕ), X w → X (w.credit token amount)
  between : ∀ {w w'} {b : Header}, ok (.between b) w → Sound w → advance b w = some w' → X w → X w'

variable {ok : Event → World → Prop} {X : World → Prop}

theorem Keeps.kept (hX : Keeps ok X) :
    Kept (fun w => w.entered) Waits (contract H self) ok fun w => Sound w ∧ X w where
  enter i w _ h := by
    obtain ⟨hsound, hw⟩ := h
    show EnterHolds _ _ _ w (enter H self i w)
    rcases enter_spec H self hsound i with ⟨w', hreturn, hopened⟩ | ⟨e, hrevert⟩ | ⟨hentered, hturn⟩
    · rw [hreturn]
      exact ⟨⟨hopened.sound hsound, hX.opened hsound hopened hw⟩, hopened.entered, fun _ k hk => hopened.waits hk⟩
    · rw [hrevert]
      trivial
    · cases hresult : enter H self i w with
      | returned w' =>
        rw [hresult] at hturn
        obtain ⟨w₁, hguarded, rfl⟩ := hturn
        have hlocked := hsound.lock true
        exact ⟨⟨(hguarded.sound hlocked).lock false, hX.lock false (hX.guarded hlocked hguarded (hX.lock true hw))⟩,
          hentered.symm, fun hheld => absurd hheld (by simp [hentered])⟩
      | reverted e => trivial
      | waits w' k =>
        rw [hresult] at hturn
        obtain ⟨hguarded, hwaits⟩ := hturn
        have hlocked := hsound.lock true
        exact ⟨⟨hguarded.sound hlocked, hX.guarded hlocked hguarded (hX.lock true hw)⟩, hentered,
          hguarded.entered, hwaits⟩
  resume k a w _ hheld hk h := by
    obtain ⟨hsound, hw⟩ := h
    have hturn := resume_spec self hk a
    show ResumeHolds _ _ _ (resume self k a w)
    cases hresult : resume self k a w with
    | returned w' =>
      rw [hresult] at hturn
      obtain ⟨w₁, hguarded, rfl⟩ := hturn
      exact ⟨⟨(hguarded.sound hsound).lock false, hX.lock false (hX.guarded hsound hguarded hw)⟩, rfl⟩
    | reverted e => trivial
    | waits w' k' =>
      rw [hresult] at hturn
      obtain ⟨hguarded, hwaits⟩ := hturn
      exact ⟨⟨hguarded.sound hsound, hX.guarded hsound hguarded hw⟩, hguarded.entered.trans hheld, hwaits⟩
  outside g w _ h := by
    refine ⟨⟨h.1.credit g.token g.amount, hX.credit g.token g.amount h.2⟩, rfl, fun k hk => ?_⟩
    refine hk.congr rfl (fun token => ?_) rfl
    show w.balance token ≤ (w.credit g.token g.amount).balance token
    rw [balance_credit]
    exact Nat.le_add_right _ _
  between b w w' hok hfree h hb := by
    refine ⟨⟨h.1.advance hb, hX.between hok h.1 hb h.2⟩, ?_⟩
    obtain ⟨-, hw'⟩ := advance_eq_some hb
    rw [hw']
    exact hfree

theorem Start.sound (h : Start w) : Sound w ∧ w.entered = false := by
  obtain ⟨owner, merkleSnapshot, feeRecipient, feePercentage, allowlistEnabled, hok⟩ := h.constructed
  obtain ⟨-, hok⟩ := Outcome.of_guard hok
  obtain ⟨-, hok⟩ := Outcome.of_guard hok
  obtain ⟨hrange, hok⟩ := Outcome.of_guard hok
  have hstorage := (Except.ok.inj hok).symm
  have hfee : w.feePercentage = feePercentage := by rw [hstorage]
  have hpending : w.pendingFeePercentage = 0 := by rw [hstorage]
  have hrounds : w.distributions = [] := by rw [hstorage]
  have htotal : w.totalPausedDuration = 0 := by rw [hstorage]
  have hpaused : w.paused = false := by rw [hstorage]
  rw [BitVec.lt_def, not_lt] at hrange
  refine ⟨⟨hfee ▸ hrange, ?_, ?_, fun token => ?_, ?_, ?_, ?_, ?_⟩, ?_⟩
  · simp [hpending]
  · simp [hrounds]
  · simp [World.outstanding, outstandingOf, hrounds]
  · simp [hpaused]
  · simp [World.elapsed, htotal, hpaused]
  · simp [hrounds]
  · simp [hrounds]
  · rw [hstorage]

theorem Keeps.run_holds (H : Hashes) (self : Address) (hX : Keeps (fun _ _ => True) X)
    (hstart : Start w) (hw : X w) (events : List Event) :
    Sound (run H self w events).world ∧ X (run H self w events).world :=
  (hX.kept.run hstart.sound.2 ⟨hstart.sound.1, hw⟩ (allowed_true w events)).2

theorem keeps_true : Keeps ok fun _ => True :=
  ⟨fun _ _ _ => trivial, fun _ _ _ => trivial, fun _ _ => trivial, fun _ _ _ => trivial, fun _ _ _ _ => trivial⟩

end

namespace DistributorExample

def addr (n : ℕ) : Address := .ofNat 20 n

def word (n : ℕ) : B256 := .ofNat 32 n

def inner : B256 := word 0xef19e6fb4616767444d3285fabd659719d788b01f37b07c1351ac7ea321ece2a

def leaf : B256 := word 0x464acf66b14dfda83c3e21b5e51efbca5521890383ccf67411dfa9aee2b07202

def account : Address := addr 0xaa

def hashes : Hashes where
  keccak256 s := if s = wordAddr account ++ wordU256 10 then inner else if s = inner.bytes then leaf else 0
  sha256 _ := 0

def self : Address := addr 0x77

def owner : Address := addr 0x0a

def funder : Address := addr 0xbb

def getLatestState (_ : Address) : Option MerkleSnapshot.MerkleState := some ⟨99, 999000, leaf, word 1, [], 10⟩

def call (sender : Address) (value : U256) (c : Call) : Event := .enter (⟨sender, value, getLatestState⟩, c)

def later (timestamp : UInt64) : Event := .between ⟨timestamp, 200⟩

def round (amount : U256) (claimDeadline : UInt64) : Call :=
  .distribute ⟨0, amount, leaf, 10, claimDeadline, 1000, addr 0x0c⟩

def constructed : Result Storage := constructor owner (addr 0x0b) (addr 0x0c) 10000000000000000 false

def start (s : Storage) : World where
  toStorage := s
  balance _ := 0
  timestamp := 1000000
  blockNumber := 100
  history := [⟨1000000, .feeSet s.feePercentage⟩]

theorem exists_start : ∃ s, constructed = .ok s ∧ Start (start s) := by
  have hok : constructed.toOption.isSome = true := by decide +kernel
  obtain ⟨s, hs⟩ := Option.isSome_iff_exists.mp hok
  rw [Outcome.toOption_eq_some] at hs
  exact ⟨s, hs, ⟨owner, addr 0x0b, addr 0x0c, 10000000000000000, false, hs⟩, rfl⟩

end DistributorExample

end Trustgraphs.MerkleFundDistributor
