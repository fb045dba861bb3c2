import Trustgraphs.Contracts.Proofs.DistributorRunProofs

/-!
# The notice of a higher fee

The history tells the fee percentage, and what is scheduled is the last that was.
-/

namespace Trustgraphs.MerkleFundDistributor

open Evm List

section

variable {w w' : World}

def feeAfter (feePercentage : U256) (n : Noted) : U256 :=
  match n.entry with
  | .feeSet v => v
  | _ => feePercentage

def feeOf (history : List Noted) : U256 := history.foldl feeAfter 0

theorem feeOf_append (history : List Noted) (n : Noted) : feeOf (history ++ [n]) = feeAfter (feeOf history) n := by
  rw [feeOf, foldl_append]
  rfl

def Known (history : List Noted) : Prop := ∃ n ∈ history, ∃ v, n.entry = .feeSet v

variable {history : List Noted} {entry : Entry}

theorem exists_feeSet (h : Known history) :
    ∃ earlier n later, history = earlier ++ n :: later ∧ n.entry = .feeSet (feeOf history) ∧
      ∀ m ∈ later, ∀ v, m.entry ≠ .feeSet v := by
  induction history using List.reverseRecOn with
  | nil =>
    obtain ⟨n, hn, -⟩ := h
    exact absurd hn not_mem_nil
  | append_singleton history m ih =>
    by_cases hm : ∃ v, m.entry = .feeSet v
    · obtain ⟨v, hv⟩ := hm
      refine ⟨history, m, [], rfl, ?_, fun k hk => absurd hk not_mem_nil⟩
      rw [feeOf_append, feeAfter, hv]
    · obtain ⟨n, hn, v, hv⟩ := h
      have hn : n ∈ history := by
        rcases mem_append.mp hn with hn | hn
        · exact hn
        · exact absurd ⟨v, mem_singleton.mp hn ▸ hv⟩ hm
      obtain ⟨earlier, k, later, hsplit, hk, hlater⟩ := ih ⟨n, hn, v, hv⟩
      have hsame : feeOf (history ++ [m]) = feeOf history := by
        rw [feeOf_append, feeAfter]
        split
        · exact absurd ⟨_, ‹_›⟩ hm
        · rfl
      refine ⟨earlier, k, later ++ [m], by rw [hsplit]; simp, hsame ▸ hk, fun e he x hx => ?_⟩
      rcases mem_append.mp he with he | he
      · exact hlater e he x hx
      · exact hm ⟨x, mem_singleton.mp he ▸ hx⟩

theorem exists_crossing (earlier later : List Noted) {v : ℕ} (hless : (feeOf earlier).toNat < v)
    (hle : v ≤ (feeOf (earlier ++ later)).toNat) :
    ∃ p n q x, later = p ++ n :: q ∧ n.entry = .feeSet x ∧ (feeOf (earlier ++ p)).toNat < v ∧ v ≤ x.toNat := by
  induction later using List.reverseRecOn with
  | nil =>
    rw [append_nil] at hle
    omega
  | append_singleton later m ih =>
    by_cases hbefore : v ≤ (feeOf (earlier ++ later)).toNat
    · obtain ⟨p, n, q, x, rfl, hrest⟩ := ih hbefore
      exact ⟨p, n, q ++ [m], x, by simp, hrest⟩
    · rw [← append_assoc, feeOf_append, feeAfter] at hle
      split at hle
      · exact ⟨later, m, [], _, rfl, ‹_›, not_le.mp hbefore, hle⟩
      · exact absurd hle hbefore

/-- The entries neither set nor schedule a fee percentage. -/
def Unreplaced (entries : List Noted) : Prop :=
  ∀ n ∈ entries, ∀ v, n.entry ≠ .feeScheduled v ∧ n.entry ≠ .feeSet v

/-- The percentage is what is scheduled at the end of a history, since `n`. -/
def Scheduled (history : List Noted) (n : Noted) (v : U256) : Prop :=
  ∃ earlier later, history = earlier ++ n :: later ∧ n.entry = .feeScheduled v ∧ Unreplaced later

/-- That very percentage was scheduled the delay before, and not cancelled or replaced since. -/
def Announced (history : List Noted) (timestamp : UInt64) (v : U256) : Prop :=
  ∃ n, Scheduled history n v ∧ n.timestamp.toNat + FEE_INCREASE_DELAY.toNat ≤ timestamp.toNat

theorem Scheduled.append {n m : Noted} {v : U256} (h : Scheduled history n v)
    (hm : Unreplaced [m]) : Scheduled (history ++ [m]) n v := by
  obtain ⟨earlier, later, rfl, hentry, hlater⟩ := h
  refine ⟨earlier, later ++ [m], by simp, hentry, fun k hk => ?_⟩
  rcases mem_append.mp hk with hk | hk
  · exact hlater k hk
  · exact hm k hk

/-- The fee of the contract, what is scheduled, and how every percentage came about. -/
structure FeeLaw (w : World) : Prop where
  fee : feeOf w.history = w.feePercentage
  known : Known w.history
  past : ∀ n ∈ w.history, n.timestamp.toNat ≤ w.timestamp.toNat
  pending : w.pendingFeeEffectiveAt ≠ 0 → ∃ n, Scheduled w.history n w.pendingFeePercentage ∧
    n.timestamp.toNat + FEE_INCREASE_DELAY.toNat = w.pendingFeeEffectiveAt.toNat
  raised : ∀ before n after v, w.history = before ++ n :: after → n.entry = .feeSet v → before ≠ [] →
    (feeOf before).toNat < v.toNat → Announced before n.timestamp v
  charged : ∀ before n after i v, w.history = before ++ n :: after → n.entry = .distributed i v →
    feeOf before = v ∧ (∀ m ∈ before, m.timestamp.toNat ≤ n.timestamp.toNat) ∧ Known before
  amount : ∀ n ∈ w.history, ∀ i v, n.entry = .distributed i v → ∃ d, w.distributions[i]? = some d ∧
    d.feeAmount.toNat = d.amountFunded.toNat * v.toNat / FEE_RANGE.toNat

theorem FeeLaw.congr (h : FeeLaw w) (hhistory : w'.history = w.history) (hfee : w'.feePercentage = w.feePercentage)
    (hpending : w'.pendingFeePercentage = w.pendingFeePercentage)
    (hat : w'.pendingFeeEffectiveAt = w.pendingFeeEffectiveAt) (hrounds : w'.distributions = w.distributions)
    (htime : w.timestamp.toNat ≤ w'.timestamp.toNat) : FeeLaw w' where
  fee := by
    rw [hhistory, hfee]
    exact h.fee
  known := hhistory ▸ h.known
  past n hn := (h.past n (hhistory ▸ hn)).trans htime
  pending hset := by
    rw [hat] at hset
    rw [hhistory, hpending, hat]
    exact h.pending hset
  raised := hhistory ▸ h.raised
  charged := hhistory ▸ h.charged
  amount n hn i v he := by
    rw [hrounds]
    exact h.amount n (hhistory ▸ hn) i v he

theorem split_append {before after : List Noted} {n m : Noted} (h : history ++ [m] = before ++ n :: after) :
    before = history ∧ n = m ∧ after = [] ∨ ∃ after', after = after' ++ [m] ∧ history = before ++ n :: after' := by
  rcases eq_nil_or_concat after with rfl | ⟨front, last, rfl⟩
  · obtain ⟨rfl, hlast⟩ := append_inj' h rfl
    exact .inl ⟨rfl, (List.cons.inj hlast).1.symm, rfl⟩
  · rw [concat_eq_append, ← cons_append, ← append_assoc] at h
    obtain ⟨hhistory, hlast⟩ := append_inj' h rfl
    refine .inr ⟨front, ?_, hhistory⟩
    rw [concat_eq_append, (List.cons.inj hlast).1]

theorem FeeLaw.noted {v : World} (h : FeeLaw w)
    (hhistory : v.history = w.history ++ [⟨w.timestamp, entry⟩]) (htime : v.timestamp = w.timestamp)
    (hfee : v.feePercentage = feeAfter w.feePercentage ⟨w.timestamp, entry⟩)
    (hpending : v.pendingFeeEffectiveAt ≠ 0 → ∃ n, Scheduled v.history n v.pendingFeePercentage ∧
      n.timestamp.toNat + FEE_INCREASE_DELAY.toNat = v.pendingFeeEffectiveAt.toNat)
    (hset : ∀ x, entry = .feeSet x → w.feePercentage.toNat < x.toNat → Announced w.history w.timestamp x)
    (hcharged : ∀ i x, entry = .distributed i x → w.feePercentage = x)
    (hamount : ∀ n ∈ v.history, ∀ i x, n.entry = .distributed i x → ∃ d, v.distributions[i]? = some d ∧
      d.feeAmount.toNat = d.amountFunded.toNat * x.toNat / FEE_RANGE.toNat) : FeeLaw v where
  fee := by rw [hhistory, feeOf_append, h.fee, hfee]
  known := by
    obtain ⟨m, hm, x, hx⟩ := h.known
    rw [hhistory]
    exact ⟨m, mem_append_left _ hm, x, hx⟩
  past n hn := by
    rw [hhistory, mem_append, mem_singleton] at hn
    rw [htime]
    rcases hn with hn | rfl
    · exact h.past n hn
    · exact le_rfl
  pending := hpending
  raised before n after x hsplit he hbefore hless := by
    rw [hhistory] at hsplit
    rcases split_append hsplit with ⟨rfl, rfl, -⟩ | ⟨after', -, hsplit⟩
    · rw [h.fee] at hless
      exact hset x he hless
    · exact h.raised before n after' x hsplit he hbefore hless
  charged before n after i x hsplit he := by
    rw [hhistory] at hsplit
    rcases split_append hsplit with ⟨rfl, rfl, -⟩ | ⟨after', -, hsplit⟩
    · exact ⟨h.fee.trans (hcharged i x he), h.past, h.known⟩
    · exact h.charged before n after' i x hsplit he
  amount := hamount

theorem FeeLaw.amount_append (h : FeeLaw w) (hentry : ∀ i v, entry ≠ .distributed i v) :
    ∀ n ∈ w.history ++ [⟨w.timestamp, entry⟩], ∀ i v, n.entry = .distributed i v →
      ∃ d, w.distributions[i]? = some d ∧
        d.feeAmount.toNat = d.amountFunded.toNat * v.toNat / FEE_RANGE.toNat := by
  intro n hn i v he
  rw [mem_append, mem_singleton] at hn
  rcases hn with hn | rfl
  · exact h.amount n hn i v he
  · exact absurd he (hentry i v)

theorem FeeLaw.pending_append (h : FeeLaw w)
    (hentry : ∀ v, entry ≠ .feeScheduled v ∧ entry ≠ .feeSet v) (hset : w.pendingFeeEffectiveAt ≠ 0) :
    ∃ n, Scheduled (w.history ++ [⟨w.timestamp, entry⟩]) n w.pendingFeePercentage ∧
      n.timestamp.toNat + FEE_INCREASE_DELAY.toNat = w.pendingFeeEffectiveAt.toNat := by
  obtain ⟨n, hscheduled, htime⟩ := h.pending hset
  refine ⟨n, hscheduled.append fun m hm v => ?_, htime⟩
  rw [mem_singleton] at hm
  subst hm
  exact hentry v

theorem Opened.feeLaw (hopened : Opened w w') (h : FeeLaw w) : FeeLaw w' := by
  cases hopened with
  | configured => exact h.congr rfl rfl rfl rfl rfl le_rfl
  | feeLowered v hlower =>
    refine h.noted rfl rfl rfl (fun hset => absurd rfl hset) (fun x he hless => ?_) (by simp)
      (h.amount_append (by simp))
    obtain rfl := Entry.feeSet.inj he
    exact absurd hless (not_lt.mpr hlower)
  | feeScheduled v effectiveAt hrange hdelay =>
    refine h.noted rfl rfl rfl (fun _ => ?_) (by simp) (by simp) (h.amount_append (by simp))
    refine ⟨⟨w.timestamp, .feeScheduled v⟩, ⟨w.history, [], rfl, rfl, ?_⟩, hdelay.symm⟩
    exact fun n hn => absurd hn not_mem_nil
  | feeApplied hscheduled hready =>
    refine h.noted rfl rfl rfl (fun hset => absurd rfl hset) (fun x he _ => ?_) (by simp)
      (h.amount_append (by simp))
    obtain rfl := Entry.feeSet.inj he
    obtain ⟨n, hn, htime⟩ := h.pending hscheduled
    exact ⟨n, hn, htime.trans_le hready⟩
  | paused => exact h.congr rfl rfl rfl rfl rfl le_rfl
  | unpaused => exact h.congr rfl rfl rfl rfl rfl le_rfl

theorem amount_set {ds : List DistributionState} {i j : ℕ} {d d' : DistributionState} {v : U256}
    (hd : ds[i]? = some d) (hfee : d'.feeAmount = d.feeAmount) (hfunded : d'.amountFunded = d.amountFunded)
    (h : ∃ e, ds[j]? = some e ∧ e.feeAmount.toNat = e.amountFunded.toNat * v.toNat / FEE_RANGE.toNat) :
    ∃ e, (ds.set i d')[j]? = some e ∧ e.feeAmount.toNat = e.amountFunded.toNat * v.toNat / FEE_RANGE.toNat := by
  obtain ⟨e, he, hamount⟩ := h
  by_cases hj : j = i
  · subst hj
    obtain rfl : d = e := Option.some.inj (hd.symm.trans he)
    refine ⟨d', getElem?_set_self (List.getElem?_eq_some_iff.mp hd).1, ?_⟩
    rw [hfee, hfunded]
    exact hamount
  · exact ⟨e, (getElem?_set_ne (Ne.symm hj)).trans he, hamount⟩

theorem Guarded.feeLaw (hguarded : Guarded w w') (h : FeeLaw w) : FeeLaw w' := by
  cases hguarded with
  | nothing => exact h
  | distributed d balance _ _ hfee =>
    refine h.noted rfl rfl rfl (h.pending_append (by simp)) (by simp) (fun i x he => ?_) fun n hn i x he => ?_
    · exact (Entry.distributed.inj he).2
    · show ∃ e, (w.distributions ++ [d])[i]? = some e ∧ _
      change n ∈ w.history ++ [_] at hn
      rw [mem_append, mem_singleton] at hn
      rcases hn with hn | rfl
      · obtain ⟨e, he', hamount⟩ := h.amount n hn i x he
        exact ⟨e, getElem?_append_left (List.getElem?_eq_some_iff.mp he').1 ▸ he', hamount⟩
      · obtain ⟨rfl, rfl⟩ := Entry.distributed.inj he
        exact ⟨d, getElem?_concat_length, hfee⟩
  | claimed i d account amount amountDistributed _ balance hfound =>
    refine h.noted rfl rfl rfl (h.pending_append (by simp)) (by simp) (by simp) fun n hn j x he => ?_
    exact amount_set hfound rfl rfl (h.amount_append (by simp) n hn j x he)
  | swept i d amount _ balance hfound =>
    refine h.noted rfl rfl rfl (h.pending_append (by simp)) (by simp) (by simp) fun n hn j x he => ?_
    exact amount_set hfound rfl rfl (h.amount_append (by simp) n hn j x he)

theorem keeps_feeLaw : Keeps (fun _ _ => True) FeeLaw where
  opened _ hopened h := hopened.feeLaw h
  guarded _ hguarded h := hguarded.feeLaw h
  lock _ h := h.congr rfl rfl rfl rfl rfl le_rfl
  credit _ _ h := h.congr rfl rfl rfl rfl rfl le_rfl
  between _ _ hb h := by
    obtain ⟨htime, hw'⟩ := advance_eq_some hb
    rw [hw'] at htime ⊢
    exact h.congr rfl rfl rfl rfl rfl htime

theorem Start.feeLaw (h : Start w) : FeeLaw w := by
  obtain ⟨owner, merkleSnapshot, feeRecipient, feePercentage, allowlistEnabled, hok⟩ := h.constructed
  obtain ⟨-, hok⟩ := Outcome.of_guard hok
  obtain ⟨-, hok⟩ := Outcome.of_guard hok
  obtain ⟨-, hok⟩ := Outcome.of_guard hok
  have hstorage := (Except.ok.inj hok).symm
  have hunscheduled : w.pendingFeeEffectiveAt = 0 := by rw [hstorage]
  have honly : ∀ n ∈ w.history, n = ⟨w.timestamp, .feeSet w.feePercentage⟩ := by
    intro n hn
    rw [h.history] at hn
    exact mem_singleton.mp hn
  refine ⟨?_, ?_, fun n hn => ?_, fun hset => absurd hunscheduled hset, ?_, ?_, fun n hn i v he => ?_⟩
  · rw [h.history]
    rfl
  · rw [h.history]
    exact ⟨_, mem_singleton_self _, _, rfl⟩
  · rw [honly n hn]
  · intro before n after v hsplit _ hbefore
    rw [h.history] at hsplit
    rcases singleton_eq_append_iff.mp hsplit with ⟨rfl, -⟩ | ⟨-, hnil⟩
    · exact absurd rfl hbefore
    · exact nomatch hnil
  · intro before n after i v hsplit he
    rw [honly n (by rw [hsplit]; simp)] at he
    exact nomatch he
  · rw [honly n hn] at he
    exact nomatch he

/-- In a run, the fee of a round is the percentage in force. It was set by the constructor, or lowered to, or
announced the delay before; and a round that is charged more than an earlier one comes after an announced raise
to no less. -/
theorem run_fee_announced (H : Hashes) (self : Address) (w : World) (hstart : Start w) (events : List Event)
    {before after : List Noted} {n : Noted} {i : ℕ} {v : U256}
    (hsplit : (run H self w events).world.history = before ++ n :: after) (hentry : n.entry = .distributed i v) :
    (∃ d, (run H self w events).world.distributions[i]? = some d ∧
      d.feeAmount.toNat = d.amountFunded.toNat * v.toNat / FEE_RANGE.toNat) ∧
    (∃ earlier m later, before = earlier ++ m :: later ∧ m.entry = .feeSet v ∧
      (∀ k ∈ later, ∀ x, k.entry ≠ .feeSet x) ∧ m.timestamp.toNat ≤ n.timestamp.toNat ∧
      (earlier ≠ [] → (feeOf earlier).toNat < v.toNat → Announced earlier m.timestamp v)) ∧
    ∀ earlier k later j u, before = earlier ++ k :: later → k.entry = .distributed j u → u.toNat < v.toNat →
      ∃ p m q x, later = p ++ m :: q ∧ m.entry = .feeSet x ∧ v.toNat ≤ x.toNat ∧
        Announced (earlier ++ k :: p) m.timestamp x := by
  have h : FeeLaw (run H self w events).world := (keeps_feeLaw.run_holds H self hstart hstart.feeLaw events).2
  obtain ⟨hfee, hpast, hknown⟩ := h.charged before n after i v hsplit hentry
  refine ⟨h.amount n (by rw [hsplit]; simp) i v hentry, ?_, ?_⟩
  · obtain ⟨earlier, m, later, hbefore, hm, hlater⟩ := exists_feeSet hknown
    rw [hfee] at hm
    refine ⟨earlier, m, later, hbefore, hm, hlater, hpast m (by rw [hbefore]; simp), fun hne hless => ?_⟩
    refine h.raised earlier m (later ++ n :: after) v ?_ hm hne hless
    rw [hsplit, hbefore]
    simp
  · intro earlier k later j u hbefore hk hless
    have hsplit' : (run H self w events).world.history = earlier ++ k :: (later ++ n :: after) := by
      rw [hsplit, hbefore]
      simp
    obtain ⟨hu, -, -⟩ := h.charged earlier k _ j u hsplit' hk
    have hround : feeOf (earlier ++ [k]) = u := by
      rw [feeOf_append, feeAfter, hk]
      exact hu
    have hbefore' : before = (earlier ++ [k]) ++ later := by
      rw [hbefore]
      simp
    obtain ⟨p, m, q, x, hlater, hm, hbelow, hle⟩ := exists_crossing (earlier ++ [k]) later
      (hround ▸ hless) (by rw [← hbefore', hfee])
    refine ⟨p, m, q, x, hlater, hm, hle, ?_⟩
    have hassoc : earlier ++ k :: p = (earlier ++ [k]) ++ p := by simp
    rw [hassoc]
    refine h.raised ((earlier ++ [k]) ++ p) m (q ++ n :: after) x ?_ hm (by simp) (hbelow.trans_le hle)
    rw [hsplit', hlater]
    simp

end

namespace DistributorExample

def raising : List Event :=
  [call funder 1000 (round 1000 0), .answer (some ()), call owner 0 (.setFeePercentage 20000000000000000),
    later 1259200, call funder 0 .applyFeePercentageIncrease, call funder 1000 (round 1000 0), .answer (some ())]

def raised : List Noted :=
  [⟨1000000, .feeSet 10000000000000000⟩, ⟨1000000, .distributed 0 10000000000000000⟩,
    ⟨1000000, .feeScheduled 20000000000000000⟩, ⟨1259200, .feeSet 20000000000000000⟩]

theorem raising_history : (constructed.toOption.map fun s => (run hashes self (start s) raising).world.history) =
    some (raised ++ ⟨1259200, .distributed 1 20000000000000000⟩ :: []) := by
  decide +kernel

end DistributorExample

open DistributorExample in
/-- A round that is charged twice what the round before was, three days after the raise was scheduled. -/
theorem run_fee_announced_raise : ∃ s, Start (start s) ∧ ∃ p m q x,
    [⟨1000000, .feeScheduled 20000000000000000⟩, ⟨1259200, .feeSet 20000000000000000⟩] = p ++ m :: q ∧
      m.entry = .feeSet x ∧ Announced (raised.take 2 ++ p) m.timestamp x := by
  obtain ⟨s, hs, hstart⟩ := exists_start
  have h := raising_history
  rw [hs] at h
  have hsplit := Option.some.inj h
  obtain ⟨-, -, hrounds⟩ := run_fee_announced hashes self (start s) hstart raising hsplit rfl
  obtain ⟨p, m, q, x, hlater, hm, -, hannounced⟩ :=
    hrounds (raised.take 1) _ _ 0 10000000000000000 rfl rfl (by decide)
  exact ⟨s, hstart, p, m, q, x, hlater, hm, hannounced⟩

end Trustgraphs.MerkleFundDistributor
