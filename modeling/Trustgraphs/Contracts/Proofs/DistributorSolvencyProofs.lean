import Trustgraphs.Contracts.Proofs.DistributorRunProofs

/-!
# The distributor is solvent

The history lists the claims that were paid. At every point of a run the counter of a round is the sum of its
claims, an account has claimed at most once in a round, and a round that was swept takes no claim any more
(`run_distributor_solvent`).
-/

namespace Trustgraphs.MerkleFundDistributor

open Evm Function List

section

variable {H : Hashes} {self : Address} {w w' : World}

/-- A paid claim: its round, its account and its amount. -/
def Noted.claim? (n : Noted) : Option (ℕ × Address × U256) :=
  match n.entry with
  | .claimed i account amount => some (i, account, amount)
  | _ => none

def World.claims (w : World) : List (ℕ × Address × U256) := w.history.filterMap Noted.claim?

def World.claimedOf (w : World) (i : ℕ) : ℕ := (w.claims.map fun p => if p.1 = i then p.2.2.toNat else 0).sum

/-- The counters of the rounds are what the history tells. -/
structure Told (w : World) : Prop where
  distributed : ∀ i d, w.distributions[i]? = some d → d.amountDistributed.toNat = w.claimedOf i
  round : ∀ p ∈ w.claims, p.1 < w.distributions.length
  once : w.claims.Pairwise fun p q => (p.1, p.2.1) ≠ (q.1, q.2.1)
  claimed : ∀ p ∈ w.claims, w.claimed p.1 p.2.1 ≠ 0
  swept : ∀ n ∈ w.history, ∀ i amount, n.entry = .swept i amount →
    ∃ d, w.distributions[i]? = some d ∧ d.sweptAmount = amount ∧ amount ≠ 0

theorem Told.congr (h : Told w) (hrounds : w'.distributions = w.distributions) (hclaims : w'.claims = w.claims)
    (hclaimed : w'.claimed = w.claimed)
    (hswept : ∀ n ∈ w'.history, ∀ i amount, n.entry = .swept i amount → n ∈ w.history) : Told w' where
  distributed i d hd := by
    rw [World.claimedOf, hclaims]
    exact h.distributed i d (hrounds ▸ hd)
  round := by
    rw [hrounds, hclaims]
    exact h.round
  once := hclaims ▸ h.once
  claimed := by
    rw [hclaims, hclaimed]
    exact h.claimed
  swept n hn i amount he := by
    rw [hrounds]
    exact h.swept n (hswept n hn i amount he) i amount he

theorem claims_note (w : World) {entry : Entry} (h : ∀ i account amount, entry ≠ .claimed i account amount) :
    (w.note entry).claims = w.claims := by
  show (w.history ++ [_]).filterMap Noted.claim? = w.history.filterMap Noted.claim?
  rw [filterMap_append]
  cases entry with
  | claimed i account amount => exact absurd rfl (h i account amount)
  | distributed => exact append_nil _
  | swept => exact append_nil _
  | feeScheduled => exact append_nil _
  | feeSet => exact append_nil _

theorem Told.note (h : Told w) {v : World} {entry : Entry} (hrounds : v.distributions = w.distributions)
    (hhistory : v.history = w.history) (hclaimed : v.claimed = w.claimed)
    (hclaim : ∀ i account amount, entry ≠ .claimed i account amount)
    (hsweep : ∀ i amount, entry ≠ .swept i amount) : Told (v.note entry) := by
  refine h.congr hrounds ?_ hclaimed fun n hn i amount he => ?_
  · rw [claims_note v hclaim, World.claims, hhistory]
    rfl
  · change n ∈ v.history ++ [_] at hn
    rw [hhistory, mem_append, mem_singleton] at hn
    rcases hn with hn | rfl
    · exact hn
    · exact absurd he (hsweep i amount)

theorem Opened.told (hopened : Opened w w') (h : Told w) : Told w' := by
  cases hopened with
  | configured => exact h.congr rfl rfl rfl fun _ hn _ _ _ => hn
  | feeLowered => exact h.note rfl rfl rfl (by simp) (by simp)
  | feeScheduled => exact h.note rfl rfl rfl (by simp) (by simp)
  | feeApplied => exact h.note rfl rfl rfl (by simp) (by simp)
  | paused => exact h.congr rfl rfl rfl fun _ hn _ _ _ => hn
  | unpaused => exact h.congr rfl rfl rfl fun _ hn _ _ _ => hn

theorem claimedOf_append {claims : List (ℕ × Address × U256)} (h : w'.claims = w.claims ++ claims) (i : ℕ) :
    w'.claimedOf i = w.claimedOf i + (claims.map fun p => if p.1 = i then p.2.2.toNat else 0).sum := by
  rw [World.claimedOf, h, map_append, sum_append]
  rfl

theorem claimed_setClaimed (w : World) (i j : ℕ) (account other : Address) (amount : U256) :
    (w.setClaimed i account amount).claimed j other =
      if j = i ∧ other = account then amount else w.claimed j other := by
  show update w.claimed i (update (w.claimed i) account amount) j other = _
  by_cases hj : j = i
  · subst hj
    rw [update_self]
    by_cases ha : other = account
    · subst ha
      rw [update_self, if_pos ⟨rfl, rfl⟩]
    · rw [update_of_ne ha, if_neg fun hand => ha hand.2]
  · rw [update_of_ne hj, if_neg fun hand => hj hand.1]

variable {i : ℕ} {d : DistributionState} {balance : Address → ℕ}

theorem claimed_told {account : Address} {amount amountDistributed : U256} (h : Told w)
    (hfound : w.distributions[i]? = some d) (hunclaimed : w.claimed i account = 0) (hnonzero : amount ≠ 0)
    (hbooked : amountDistributed.toNat = d.amountDistributed.toNat + amount.toNat) :
    Told { ((w.setClaimed i account amount).setDistribution i
      { d with amountDistributed := amountDistributed }).note (.claimed i account amount) with
      balance := balance } := by
  set v : World := { ((w.setClaimed i account amount).setDistribution i
    { d with amountDistributed := amountDistributed }).note (.claimed i account amount) with balance := balance }
    with hv
  have hclaims : v.claims = w.claims ++ [(i, account, amount)] := filterMap_append
  have hlength : v.distributions.length = w.distributions.length := length_set
  have hclaimedBy : ∀ j other, v.claimed j other = if j = i ∧ other = account then amount else w.claimed j other :=
    fun j other => claimed_setClaimed w i j account other amount
  refine ⟨fun j e he => ?_, fun p hp => ?_, ?_, fun p hp => ?_, fun n hn j swept he => ?_⟩
  · rw [claimedOf_append hclaims]
    rcases getElem?_set_cases hfound he with ⟨rfl, rfl⟩ | ⟨hj, he⟩
    · have hbefore := h.distributed j d hfound
      simp only [map_cons, map_nil, sum_cons, sum_nil, if_true]
      show amountDistributed.toNat = _
      omega
    · rw [h.distributed j e he]
      simp [Ne.symm hj]
  · rw [hclaims, mem_append, mem_singleton] at hp
    rw [hlength]
    rcases hp with hp | rfl
    · exact h.round p hp
    · exact (List.getElem?_eq_some_iff.mp hfound).1
  · rw [hclaims, pairwise_append]
    refine ⟨h.once, pairwise_singleton _ _, fun p hp q hq => ?_⟩
    rw [mem_singleton] at hq
    subst hq
    intro heq
    obtain ⟨hi, ha⟩ := Prod.mk.inj heq
    have hset := h.claimed p hp
    rw [hi, ha] at hset
    exact hset hunclaimed
  · rw [hclaims, mem_append, mem_singleton] at hp
    rw [hclaimedBy]
    by_cases hsame : p.1 = i ∧ p.2.1 = account
    · rw [if_pos hsame]
      exact hnonzero
    · rw [if_neg hsame]
      rcases hp with hp | rfl
      · exact h.claimed p hp
      · exact absurd ⟨rfl, rfl⟩ hsame
  · change n ∈ w.history ++ [_] at hn
    rw [mem_append, mem_singleton] at hn
    rcases hn with hn | rfl
    · obtain ⟨e, he', hswept⟩ := h.swept n hn j swept he
      by_cases hj : j = i
      · subst hj
        obtain rfl : d = e := Option.some.inj (hfound.symm.trans he')
        exact ⟨_, getElem?_set_self (List.getElem?_eq_some_iff.mp hfound).1, hswept⟩
      · exact ⟨e, (getElem?_set_ne (Ne.symm hj)).trans he', hswept⟩
    · exact nomatch he

theorem swept_told {amount : U256} (h : Told w)
    (hfound : w.distributions[i]? = some d) (hunswept : d.sweptAmount = 0) (hnonzero : amount ≠ 0) :
    Told { (w.setDistribution i { d with sweptAmount := amount }).note (.swept i amount) with
      balance := balance } := by
  set v : World := { (w.setDistribution i { d with sweptAmount := amount }).note (.swept i amount) with
    balance := balance } with hv
  have hclaims : v.claims = w.claims := claims_note _ (by simp)
  have hlength : v.distributions.length = w.distributions.length := length_set
  refine ⟨fun j e he => ?_, ?_, hclaims ▸ h.once, hclaims ▸ h.claimed, fun n hn j swept he => ?_⟩
  · rw [World.claimedOf, hclaims]
    rcases getElem?_set_cases hfound he with ⟨rfl, rfl⟩ | ⟨-, he⟩
    · exact h.distributed j d hfound
    · exact h.distributed j e he
  · rw [hclaims, hlength]
    exact h.round
  · change n ∈ w.history ++ [_] at hn
    rw [mem_append, mem_singleton] at hn
    rcases hn with hn | rfl
    · obtain ⟨e, he', hswept, hset⟩ := h.swept n hn j swept he
      by_cases hj : j = i
      · subst hj
        obtain rfl : d = e := Option.some.inj (hfound.symm.trans he')
        exact absurd (hswept.symm.trans hunswept) hset
      · exact ⟨e, (getElem?_set_ne (Ne.symm hj)).trans he', hswept, hset⟩
    · obtain ⟨rfl, rfl⟩ := Entry.swept.inj he
      exact ⟨_, getElem?_set_self (List.getElem?_eq_some_iff.mp hfound).1, rfl, hnonzero⟩

theorem distributed_told (h : Told w) (hunclaimed : d.amountDistributed = 0) : Told { { w with
      distributions := w.distributions ++ [d]
      distributionPausedDuration :=
        update w.distributionPausedDuration w.distributions.length w.totalPausedDuration
      }.note (.distributed w.distributions.length w.feePercentage) with balance := balance } := by
  set v : World := { { w with
    distributions := w.distributions ++ [d]
    distributionPausedDuration :=
      update w.distributionPausedDuration w.distributions.length w.totalPausedDuration
    }.note (.distributed w.distributions.length w.feePercentage) with balance := balance } with hv
  have hclaims : v.claims = w.claims := claims_note _ (by simp)
  refine ⟨fun i e he => ?_, fun p hp => ?_, hclaims ▸ h.once, hclaims ▸ h.claimed, fun n hn i swept he => ?_⟩
  · rw [World.claimedOf, hclaims]
    change (w.distributions ++ [d])[i]? = some e at he
    by_cases hi : i < w.distributions.length
    · rw [getElem?_append_left hi] at he
      exact h.distributed i e he
    · rw [getElem?_append_right (not_lt.mp hi)] at he
      obtain rfl := mem_singleton.mp (mem_of_getElem? he)
      -- no claim can be of a round that did not exist
      rw [hunclaimed]
      refine (sum_eq_zero fun x hx => ?_).symm
      obtain ⟨p, hp, rfl⟩ := mem_map.mp hx
      have hother : p.1 ≠ i := fun heq => hi (heq ▸ h.round p hp)
      rw [if_neg hother]
  · rw [hclaims] at hp
    show p.1 < (w.distributions ++ [d]).length
    rw [length_append]
    exact Nat.lt_add_right _ (h.round p hp)
  · change n ∈ w.history ++ [_] at hn
    rw [mem_append, mem_singleton] at hn
    rcases hn with hn | rfl
    · obtain ⟨e, he', hswept⟩ := h.swept n hn i swept he
      exact ⟨e, getElem?_append_left (List.getElem?_eq_some_iff.mp he').1 ▸ he', hswept⟩
    · exact nomatch he

theorem Guarded.told (hguarded : Guarded w w') (h : Told w) : Told w' := by
  cases hguarded with
  | nothing => exact h
  | distributed d balance hunclaimed => exact distributed_told h hunclaimed
  | claimed i d account amount amountDistributed _ balance hfound _ _ hunclaimed hnonzero _ hbooked =>
    exact claimed_told h hfound hunclaimed hnonzero hbooked
  | swept i d amount _ balance hfound _ _ hunswept _ hnonzero => exact swept_told h hfound hunswept hnonzero

theorem keeps_told : Keeps (fun _ _ => True) Told where
  opened _ hopened h := hopened.told h
  guarded _ hguarded h := hguarded.told h
  lock _ h := h.congr rfl rfl rfl fun _ hn _ _ _ => hn
  credit _ _ h := h.congr rfl rfl rfl fun _ hn _ _ _ => hn
  between _ _ hb h := by
    obtain ⟨-, hw'⟩ := advance_eq_some hb
    rw [hw']
    exact h.congr rfl rfl rfl fun _ hn _ _ _ => hn

theorem Start.told (h : Start w) : Told w := by
  obtain ⟨owner, merkleSnapshot, feeRecipient, feePercentage, allowlistEnabled, hok⟩ := h.constructed
  obtain ⟨-, hok⟩ := Outcome.of_guard hok
  obtain ⟨-, hok⟩ := Outcome.of_guard hok
  obtain ⟨-, hok⟩ := Outcome.of_guard hok
  have hrounds : w.distributions = [] := by rw [(Except.ok.inj hok).symm]
  have hclaims : w.claims = [] := by
    rw [World.claims, h.history]
    rfl
  refine ⟨?_, ?_, ?_, ?_, fun n hn i amount he => ?_⟩
  · simp [hrounds]
  · simp [hclaims]
  · simp [hclaims]
  · simp [hclaims]
  · rw [h.history, mem_singleton] at hn
    subst hn
    exact nomatch he

theorem claim_reverts_of_swept (h : Sound w) (hd : w.distributions[i]? = some d)
    (hswept : d.sweptAmount ≠ 0) (env : Env) (account : Address) (value : U256) (proof : List B256) :
    ∃ e, enter H self (env, .claim i account value proof) w = .reverted e := by
  rcases enter_claim H self w env i account value proof with hrevert | ⟨⟨w₁, token, amount⟩, hcredit⟩
  · exact hrevert
  · obtain ⟨d', deadline, _, hfound, _, _, _, hdeadline, hearly, _⟩ := creditClaim_eq_ok hcredit
    obtain rfl : d = d' := Option.some.inj (hd.symm.trans hfound)
    exact absurd (unswept_of_early (h.lock true) hfound hdeadline hearly) hswept

/-- At every point of a run each token covers what its rounds still have to pay; a round has paid its claims
out of what it received after the fee, to each account once; and a claim of a round that was swept reverts. -/
theorem run_distributor_solvent (H : Hashes) (self : Address) (w : World) (hstart : Start w)
    (events : List Event) :
    (∀ token, (run H self w events).world.outstanding token ≤ (run H self w events).world.balance token) ∧
    (∀ i d, (run H self w events).world.distributions[i]? = some d →
      d.amountDistributed.toNat = (run H self w events).world.claimedOf i ∧
      d.feeAmount.toNat + d.amountDistributed.toNat + d.sweptAmount.toNat ≤ d.amountFunded.toNat) ∧
    ((run H self w events).world.claims.Pairwise fun p q => (p.1, p.2.1) ≠ (q.1, q.2.1)) ∧
    ∀ n ∈ (run H self w events).world.history, ∀ i amount, n.entry = .swept i amount →
      ∀ env account value proof,
        ∃ e, enter H self (env, .claim i account value proof) (run H self w events).world = .reverted e := by
  obtain ⟨hsound, htold⟩ := keeps_told.run_holds H self hstart hstart.told events
  refine ⟨hsound.solvent, fun i d hd => ⟨htold.distributed i d hd, hsound.round d (mem_of_getElem? hd)⟩,
    htold.once, fun n hn i amount he env account value proof => ?_⟩
  obtain ⟨d, hd, hswept, hset⟩ := htold.swept n hn i amount he
  exact claim_reverts_of_swept hsound hd (hswept ▸ hset) env account value proof

end

namespace DistributorExample

def rounds : List Event :=
  [call funder 1000 (round 1000 1000500), .answer (some ()), call funder 500 (round 500 1000500),
    .answer (some ()), call account 0 (.claim 0 account 10 []), .answer (some ()), later 1000501,
    call account 0 (.sweep 1), .answer (some ())]

theorem rounds_entries : (constructed.toOption.map fun s =>
    ((run hashes self (start s) rounds).world.history.map Noted.entry,
      (run hashes self (start s) rounds).world.balance 0)) =
    some ([.feeSet 10000000000000000, .distributed 0 10000000000000000, .distributed 1 10000000000000000,
      .claimed 0 account 990, .swept 1 495], 0) := by
  decide +kernel

end DistributorExample

open DistributorExample in
/-- After a claim and a sweep all is paid out. -/
theorem run_distributor_solvent_rounds : ∃ s, Start (start s) ∧
    (run hashes self (start s) rounds).world.balance 0 = 0 ∧
    (run hashes self (start s) rounds).world.outstanding 0 = 0 := by
  obtain ⟨s, hs, hstart⟩ := exists_start
  have hrounds := rounds_entries
  rw [hs] at hrounds
  have hbalance := (Prod.mk.inj (Option.some.inj hrounds)).2
  have hsolvent := (run_distributor_solvent hashes self (start s) hstart rounds).1 0
  rw [hbalance] at hsolvent
  exact ⟨s, hstart, hbalance, Nat.le_zero.mp hsolvent⟩

end Trustgraphs.MerkleFundDistributor
