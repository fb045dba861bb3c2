import Trustgraphs.Contracts.Proofs.DistributorSolvencyProofs
import Trustgraphs.Contracts.Proofs.DistributorWindowProofs
import Trustgraphs.Lib.Tally

/-!
# Every leaf of a round can be claimed

What the claims of a round have paid are the shares of leaves under its root (`Proven`), each of
another account.
-/

namespace Trustgraphs.MerkleFundDistributor

open Evm CallStack Outcome OzMerkle List
open Merkle (outputPreimages outputHashed outputLeaves proofHashed)

section

variable {H : Hashes} {self : Address} {w w' : World} {S : List Bytes}

def DistributionState.distributable (d : DistributionState) : ℕ := d.amountFunded.toNat - d.feeAmount.toNat

def DistributionState.share (d : DistributionState) (value : U256) : ℕ :=
  d.distributable * value.toNat / d.totalMerkleValue.toNat

structure SameTerms (d d' : DistributionState) : Prop where
  root : d'.root = d.root
  total : d'.totalMerkleValue = d.totalMerkleValue
  funded : d'.amountFunded = d.amountFunded
  fee : d'.feeAmount = d.feeAmount

theorem SameTerms.refl (d : DistributionState) : SameTerms d d := ⟨rfl, rfl, rfl, rfl⟩

theorem SameTerms.share {d d' : DistributionState} (h : SameTerms d d') (value : U256) :
    d'.share value = d.share value := by
  unfold DistributionState.share DistributionState.distributable
  rw [h.total, h.funded, h.fee]

theorem sum_share_le (d : DistributionState) {values : List U256}
    (h : (values.map BitVec.toNat).sum ≤ d.totalMerkleValue.toNat) :
    (values.map d.share).sum ≤ d.distributable := by
  have hsum : (values.map fun value => d.distributable * value.toNat).sum =
      d.distributable * (values.map BitVec.toNat).sum := sum_map_mul_left ..
  calc (values.map d.share).sum
      = ((values.map fun value => d.distributable * value.toNat).map fun x =>
        x / d.totalMerkleValue.toNat).sum := by
        rw [map_map]
        rfl
    _ ≤ d.distributable * (values.map BitVec.toNat).sum / d.totalMerkleValue.toNat := by
        rw [← hsum]
        exact Rounding.sum_floor_le _ _
    _ ≤ d.distributable * d.totalMerkleValue.toNat / d.totalMerkleValue.toNat :=
        Nat.div_le_div_right (Nat.mul_le_mul_left _ h)
    _ ≤ d.distributable := Nat.div_le_of_le_mul (Nat.mul_comm _ _).le

def claimHashed (H : Hashes) (account : Address) (value : U256) (proof : List B256) : List Bytes :=
  outputPreimages H (account, value) ++ proofHashed H (outputLeaf H account value) proof

def hashedBy (H : Hashes) : Event → List Bytes
  | .enter (_, .claim _ account value proof) => claimHashed H account value proof
  | _ => []

/-- Every claim that was paid has shown a leaf of its round, by hashing strings of `S`, and got its share. -/
def Proven (H : Hashes) (S : List Bytes) (w : World) : Prop :=
  ∀ p ∈ w.claims, ∃ d value proof, w.distributions[p.1]? = some d ∧
    verifyProof H d.root p.2.1 value proof = true ∧
    (∀ s ∈ claimHashed H p.2.1 value proof, s ∈ S) ∧ p.2.2.toNat = d.share value

/-- Nothing is claimed, and the rounds keep what claims read. -/
structure Calm (w w' : World) : Prop where
  claims : w'.claims = w.claims
  rounds : ∀ (i : ℕ) (d : DistributionState), w.distributions[i]? = some d → ∃ d',
    w'.distributions[i]? = some d' ∧ SameTerms d d'

theorem Calm.of_eq (hclaims : w'.claims = w.claims) (hrounds : w'.distributions = w.distributions) : Calm w w' :=
  ⟨hclaims, fun _ d hd => ⟨d, hrounds ▸ hd, .refl d⟩⟩

theorem Calm.proven (hcalm : Calm w w') (h : Proven H S w) : Proven H S w' := by
  intro p hp
  rw [hcalm.claims] at hp
  obtain ⟨d, value, proof, hd, hproof, hhashed, hamount⟩ := h p hp
  obtain ⟨d', hd', hterms⟩ := hcalm.rounds p.1 d hd
  exact ⟨d', value, proof, hd', hterms.root ▸ hproof, hhashed, hamount.trans (hterms.share value).symm⟩

theorem Opened.calm (hopened : Opened w w') : Calm w w' := by
  cases hopened with
  | configured => exact .of_eq rfl rfl
  | feeLowered => exact .of_eq (claims_note _ (by simp)) rfl
  | feeScheduled => exact .of_eq (claims_note _ (by simp)) rfl
  | feeApplied => exact .of_eq (claims_note _ (by simp)) rfl
  | paused => exact .of_eq rfl rfl
  | unpaused => exact .of_eq rfl rfl

def CalmTurn (w : World) : Turn World Waiting Revert → Prop
  | .returned w' => Calm w w'
  | .reverted _ => True
  | .waits w' _ => Calm w w'

theorem Calm.send (hcalm : Calm w w') (token payee : Address) (amount : ℕ) (failure : Revert) :
    CalmTurn w (send self w' token payee amount failure) := by
  rcases send_eq self w' token payee amount failure with ⟨e, he⟩ | ⟨balance, failure', hsend, -⟩
  · rw [he]
    trivial
  · rw [hsend]
    exact ⟨hcalm.claims, hcalm.rounds⟩

theorem calm_book {v : World} {msgSender : Address} {args : DistributeArgs} {state : MerkleSnapshot.MerkleState}
    {funded : U256} (hclaims : v.claims = w.claims) (hrounds : v.distributions = w.distributions) :
    CalmTurn w (book self v msgSender args state funded) := by
  unfold book
  cases (Evm.mulDiv funded v.feePercentage FEE_RANGE : Result U256) with
  | error e => trivial
  | ok feeAmount =>
    have hcalm : Calm w ({ v with
        distributions := v.distributions ++ [newDistribution v msgSender args state funded feeAmount]
        distributionPausedDuration :=
          Function.update v.distributionPausedDuration v.distributions.length v.totalPausedDuration
        }.note (.distributed v.distributions.length v.feePercentage)) := by
      refine ⟨(claims_note _ (by simp)).trans hclaims, fun i d hd => ⟨d, ?_, .refl d⟩⟩
      rw [← hrounds] at hd
      exact (getElem?_append_left (List.getElem?_eq_some_iff.mp hd).1).trans hd
    dsimp only
    by_cases hzero : feeAmount = 0
    · rw [if_pos hzero]
      exact ⟨hcalm.claims, hcalm.rounds⟩
    · rw [if_neg hzero]
      exact hcalm.send _ _ _ _

theorem calm_distribute {env : Env} (args : DistributeArgs) : CalmTurn w (distribute self env w args) := by
  unfold distribute
  split
  · trivial
  split
  · trivial
  split
  · trivial
  cases checkDistribute env w args with
  | error e => trivial
  | ok state =>
    dsimp only
    split
    · split
      · trivial
      · exact calm_book rfl rfl
    · split
      · trivial
      · exact .of_eq rfl rfl

theorem calm_sweep (i : ℕ) : CalmTurn w (sweep self w i) := by
  unfold sweep
  split
  · trivial
  cases hdebit : debitSweep (w.lock true) i with
  | error e => trivial
  | ok r =>
    obtain ⟨v, d, amount⟩ := r
    obtain ⟨-, hd, -, -, -, -, -, rfl⟩ := debitSweep_eq_ok hdebit
    have hclaims : (((w.lock true).setDistribution i { d with sweptAmount := amount }).note
        (.swept i amount)).claims = w.claims := claims_note _ (by simp)
    refine Calm.send ⟨hclaims, fun j e he => ?_⟩ _ _ _ _
    by_cases hj : j = i
    · subst hj
      obtain rfl : d = e := Option.some.inj (hd.symm.trans he)
      exact ⟨_, getElem?_set_self (List.getElem?_eq_some_iff.mp hd).1, rfl, rfl, rfl, rfl⟩
    · exact ⟨e, (getElem?_set_ne (Ne.symm hj)).trans he, .refl e⟩

theorem enter_calm {env : Env} {call : Call} (hcall : ∀ i account value proof,
    call ≠ .claim i account value proof) :
    CalmTurn w (enter H self (env, call) w) := by
  by_cases hguarded : call.guarded = false
  · rcases enter_opened H self (i := (env, call)) (w := w) hguarded with ⟨w', hreturn, hopened⟩ | ⟨e, hrevert⟩
    · rw [hreturn]
      exact hopened.calm
    · rw [hrevert]
      trivial
  unfold enter
  split
  · trivial
  cases call with
  | distribute args => exact calm_distribute args
  | claim i account value proof => exact absurd rfl (hcall i account value proof)
  | sweep i => exact calm_sweep i
  | _ => exact absurd rfl hguarded

theorem resume_calm (k : Waiting) (a : Option Unit) : CalmTurn w (resume self k a w) := by
  cases k with
  | pulling msgSender args state balanceBefore =>
    cases a with
    | none => trivial
    | some r =>
      show CalmTurn w (pulled self w msgSender args state balanceBefore)
      unfold pulled
      dsimp only
      split
      · trivial
      · split
        · trivial
        · exact calm_book rfl rfl
  | sending failure =>
    cases a with
    | none => trivial
    | some r => exact .of_eq rfl rfl

theorem Proven.claimed {v : World} {i : ℕ} {account token : Address} {value amount : U256} {proof : List B256}
    {balance : Address → ℕ} (h : Proven H S w) (hhashed : ∀ s ∈ claimHashed H account value proof, s ∈ S)
    (hcredit : creditClaim H (w.lock true) i account value proof = .ok (v, token, amount)) :
    Proven H S { v with balance := balance } := by
  obtain ⟨d, _, amountDistributed, hd, -, hproof, hamount, -, -, -, -, -, -, rfl⟩ := creditClaim_eq_ok hcredit
  intro p hp
  have hclaims : p ∈ w.history.filterMap Noted.claim? ++ [(i, account, amount)] := by
    rw [World.claims] at hp
    change p ∈ (w.history ++ [_]).filterMap Noted.claim? at hp
    rwa [filterMap_append] at hp
  rw [mem_append, mem_singleton] at hclaims
  have hset : (w.distributions.set i { d with amountDistributed := amountDistributed })[i]? =
      some { d with amountDistributed := amountDistributed } :=
    getElem?_set_self (List.getElem?_eq_some_iff.mp hd).1
  rcases hclaims with hp | rfl
  · obtain ⟨e, value', proof', he, hrest⟩ := h p hp
    by_cases hi : p.1 = i
    · rw [hi] at he
      obtain rfl : d = e := Option.some.inj (hd.symm.trans he)
      rw [hi]
      exact ⟨_, value', proof', hset, hrest⟩
    · exact ⟨e, value', proof', (getElem?_set_ne (Ne.symm hi)).trans he, hrest⟩
  · exact ⟨_, value, proof, hset, hproof, hhashed, hamount⟩

theorem CalmTurn.proven {turn : Turn World Waiting Revert} (hturn : CalmTurn w turn) (h : Proven H S w)
    (ks : List Waiting) : TurnHolds (fun _ => Proven H S) ks turn := by
  cases turn with
  | returned w' => exact Calm.proven hturn h
  | reverted e => trivial
  | waits w' k => exact Calm.proven hturn h

theorem claim_proven (h : Proven H S w) {i : ℕ} {account : Address} {value : U256} {proof : List B256}
    (hhashed : ∀ s ∈ claimHashed H account value proof, s ∈ S) (ks : List Waiting) :
    TurnHolds (fun _ => Proven H S) ks (claim H self w i account value proof) := by
  unfold claim
  split
  · trivial
  split
  · trivial
  cases hcredit : creditClaim H (w.lock true) i account value proof with
  | error e => trivial
  | ok r =>
    obtain ⟨v, token, amount⟩ := r
    dsimp only
    rcases send_eq self v token account amount.toNat (.error .failedToTransferTokens) with
      ⟨e, hsend⟩ | ⟨balance, failure, hsend, -⟩
    · rw [hsend]
      trivial
    · rw [hsend]
      exact h.claimed hhashed hcredit

theorem enter_proven (h : Proven H S w) (i : Env × Call) (hok : ∀ s ∈ hashedBy H (.enter i), s ∈ S)
    (ks : List Waiting) : TurnHolds (fun _ => Proven H S) ks (enter H self i w) := by
  obtain ⟨env, call⟩ := i
  by_cases hcall : ∀ i account value proof, call ≠ .claim i account value proof
  · exact (enter_calm hcall).proven h ks
  · push Not at hcall
    obtain ⟨i, account, value, proof, rfl⟩ := hcall
    unfold enter
    split
    · trivial
    · exact claim_proven h hok ks

def Hashing (H : Hashes) (S : List Bytes) (e : Event) (_ : World) : Prop := ∀ s ∈ hashedBy H e, s ∈ S

theorem kept_proven (H : Hashes) (self : Address) (S : List Bytes) :
    Preserved (contract H self) (Hashing H S) fun _ => Proven H S where
  enter i ks _ hok h := enter_proven h i hok ks
  resume k ks a _ _ h := (resume_calm k a).proven h ks
  outside g ks w _ h := Calm.proven (w := w) (.of_eq rfl rfl) h
  between b w w' _ h hb := by
    obtain ⟨-, hw'⟩ := advance_eq_some hb
    rw [hw']
    exact Calm.proven (w := w) (.of_eq rfl rfl) h

theorem run_proven (hstart : Start w) (events : List Event) (hS : ∀ e ∈ events, ∀ s ∈ hashedBy H e, s ∈ S) :
    Proven H S (run H self w events).world := by
  have hnone : w.claims = [] := by
    rw [World.claims, hstart.history]
    rfl
  refine (run_holds (kept_proven H self S) (fun p hp => ?_) fun before e after hsplit => ?_).world
  · rw [hnone] at hp
    exact absurd hp not_mem_nil
  · exact hS e (hsplit ▸ mem_append_right _ mem_cons_self)

/-- The root of a round commits leaves of distinct accounts, within its total. -/
structure Committed (H : Hashes) (scores : List (Address × U256)) (d : DistributionState) : Prop where
  root : merkleRoot H (outputLeaves H scores) = some d.root
  distinct : (scores.map Prod.fst).Nodup
  total : (scores.map fun e => e.2.toNat).sum ≤ d.totalMerkleValue.toNat

variable {scores : List (Address × U256)} {d : DistributionState} {i : ℕ} {account : Address} {value : U256}
  {proof : List B256}

theorem Committed.mem (h : Committed H scores d) (hS : CollisionFree H.keccak256 S)
    (hscores : ∀ s ∈ outputHashed H scores, s ∈ S) (hhashed : ∀ s ∈ claimHashed H account value proof, s ∈ S)
    (hproof : verifyProof H d.root account value proof = true) : (account, value) ∈ scores := by
  have heq : processProof H proof (outputLeaf H account value) = d.root := of_decide_eq_true hproof
  refine Merkle.mem_of_outputProof hS hscores (fun s hs => hhashed s (mem_append_left _ hs)) proof
    (fun s hs => hhashed s (mem_append_right _ hs)) ?_
  rw [h.root, heq]

/-- The paid claims of a round and one more leaf are among its leaves, so the round pays for them all. -/
theorem Committed.claimed_add_share_le (h : Committed H scores d) (hS : CollisionFree H.keccak256 S)
    (hscores : ∀ s ∈ outputHashed H scores, s ∈ S) (hproven : Proven H S w) (htold : Told w)
    (hd : w.distributions[i]? = some d) (hmem : (account, value) ∈ scores)
    (hunclaimed : w.claimed i account = 0) :
    d.amountDistributed.toNat + d.share value ≤ d.distributable := by
  have hpaid : ∀ p ∈ w.claims.filter fun p => p.1 = i, ∃ v, (p.2.1, v) ∈ scores ∧ p.2.2.toNat = d.share v := by
    intro p hp
    obtain ⟨hp, hi⟩ := mem_filter.mp hp
    obtain ⟨e, v, proof', he, hproof, hhashed, hamount⟩ := hproven p hp
    rw [of_decide_eq_true hi] at he
    obtain rfl : d = e := Option.some.inj (hd.symm.trans he)
    exact ⟨v, h.mem hS hscores hhashed hproof, hamount⟩
  choose! v hv using hpaid
  set leaves := (w.claims.filter fun p => p.1 = i).map fun p => (p.2.1, v p) with hleaves
  have hdistributed : d.amountDistributed.toNat = (leaves.map fun e => d.share e.2).sum := by
    have hsum : w.claimedOf i = ((w.claims.filter fun p => p.1 = i).map fun p => p.2.2.toNat).sum := by
      unfold World.claimedOf
      induction w.claims with
      | nil => rfl
      | cons p l ih =>
        by_cases hi : p.1 = i
        · simp [hi, ih]
        · simp [hi, ih]
    rw [htold.distributed i d hd, hsum, hleaves, map_map]
    congr 1
    exact map_congr_left fun p hp => (hv p hp).2
  -- no two of the leaves are of one account
  have hnodup : (leaves ++ [(account, value)]).Nodup := by
    refine List.Nodup.of_map Prod.fst ?_
    rw [map_append, hleaves, map_map, nodup_append]
    refine ⟨?_, nodup_singleton _, fun a ha b hb => ?_⟩
    · rw [List.Nodup, pairwise_map, pairwise_filter]
      refine htold.once.imp fun hne hi hj heq => hne (Prod.ext ?_ heq)
      exact (of_decide_eq_true hi).trans (of_decide_eq_true hj).symm
    · rintro rfl
      obtain ⟨p, hp, hpa⟩ := mem_map.mp ha
      obtain ⟨hp, hi⟩ := mem_filter.mp hp
      have hset := htold.claimed p hp
      rw [of_decide_eq_true hi, show p.2.1 = account from hpa.trans (mem_singleton.mp hb)] at hset
      exact hset hunclaimed
  have hsubset : leaves ++ [(account, value)] ⊆ scores := by
    intro e he
    rcases mem_append.mp he with he | he
    · obtain ⟨p, hp, rfl⟩ := mem_map.mp he
      exact (hv p hp).1
    · rwa [mem_singleton.mp he]
  obtain ⟨l, hperm, hsub⟩ := subperm_of_subset hnodup hsubset
  have hvalues : ((l.map Prod.snd).map BitVec.toNat).sum ≤ d.totalMerkleValue.toNat := by
    rw [map_map]
    exact ((hsub.map _).sum_le_sum fun _ _ => Nat.zero_le _).trans h.total
  calc d.amountDistributed.toNat + d.share value
      = ((leaves ++ [(account, value)]).map fun e => d.share e.2).sum := by
        rw [map_append, sum_append, hdistributed]
        simp
    _ = ((l.map Prod.snd).map d.share).sum := by
        rw [← (hperm.map _).sum_eq, map_map]
        rfl
    _ ≤ d.distributable := sum_share_le d hvalues

theorem surplus_ne_error (a b : U256) (e : Error) : surplus a b ≠ .error (.error e) := by
  unfold surplus
  split
  · exact minus_ne_error a b e
  · exact fun h => absurd h (by simp)

/-- When a claim is out of budget. -/
theorem creditClaim_exceeds {claimAmount remainingBudget : U256} (hsound : Sound w)
    (h : creditClaim H w i account value proof =
      .error (.error (.claimExceedsRoundBudget claimAmount remainingBudget))) :
    ∃ d, w.distributions[i]? = some d ∧ verifyProof H d.root account value proof = true ∧
      w.claimed i account = 0 ∧ d.distributable < d.amountDistributed.toNat + d.share value := by
  unfold creditClaim at h
  cases hd : w.distributions[i]? with
  | none =>
    rw [hd] at h
    exact absurd h (by simp)
  | some d =>
    rw [hd] at h
    dsimp only at h
    rcases ite_error_eq_error.mp h with ⟨-, he⟩ | ⟨-, h⟩
    · exact absurd he (by simp)
    rcases ite_error_eq_error.mp h with ⟨-, he⟩ | ⟨-, h⟩
    · exact absurd he (by simp)
    obtain ⟨deadline, hdeadline, -⟩ := effectiveClaimDeadline_eq hsound hd
    rw [hdeadline, ok_bind] at h
    rcases ite_error_eq_error.mp h with ⟨-, he⟩ | ⟨-, h⟩
    · exact absurd he (by simp)
    rcases ite_error_eq_error.mp h with ⟨-, he⟩ | ⟨hclaimed, h⟩
    · exact absurd he (by simp)
    rcases ite_error_eq_error.mp h with ⟨-, he⟩ | ⟨hproof, h⟩
    · exact absurd he (by simp)
    rcases bind_eq_error.mp h with he | ⟨total, htotal, h⟩
    · exact absurd he (minus_ne_error _ _ _)
    rcases bind_eq_error.mp h with he | ⟨amount, hamount, h⟩
    · exact absurd he (mulDiv_ne_error _ _ _ _)
    rcases ite_error_eq_error.mp h with ⟨-, he⟩ | ⟨-, h⟩
    · exact absurd he (by simp)
    rcases bind_eq_error.mp h with he | ⟨remaining, hremaining, h⟩
    · exact absurd he (surplus_ne_error _ _ _)
    rw [minus_eq_ok] at htotal
    have hdistributable : d.distributable = total.toNat := by
      unfold DistributionState.distributable
      omega
    have hshare : d.share value = amount.toNat := by
      rw [(mulDiv_eq_ok.mp hamount).2, ← hdistributable]
      rfl
    rcases ite_error_eq_error.mp h with ⟨hlt, -⟩ | ⟨-, h⟩
    · refine ⟨d, rfl, by simpa using hproof, not_ne_iff.mp hclaimed, ?_⟩
      rw [BitVec.lt_def] at hlt
      rw [hdistributable, hshare]
      rw [surplus_eq_ok] at hremaining
      omega
    · rcases bind_eq_error.mp h with he | ⟨_, _, he⟩
      · exact absurd he (arith_ne_error _ _)
      · exact absurd he (by simp)

/-- A claim within the budget is booked. -/
theorem creditClaim_isOk (hsound : Sound w) (hd : w.distributions[i]? = some d) (haccount : account ≠ 0)
    (hroot : d.root ≠ 0) (hopen : ¬ WindowClosed w i) (hunclaimed : w.claimed i account = 0)
    (hproof : verifyProof H d.root account value proof = true) (hshare : d.share value ≠ 0)
    (hbudget : d.amountDistributed.toNat + d.share value ≤ d.distributable) :
    ∃ v amount, creditClaim H w i account value proof = .ok (v, d.token, amount) ∧
      amount.toNat = d.share value ∧ v.claimed i account = amount ∧ v.balance = w.balance := by
  have hround := hsound.round d (mem_of_getElem? hd)
  have hfunded := d.amountFunded.isLt
  obtain ⟨deadline, hdeadline, -⟩ := effectiveClaimDeadline_eq hsound hd
  have hnonzero : d.totalMerkleValue ≠ 0 := by
    rintro hzero
    refine hshare ?_
    unfold DistributionState.share
    rw [hzero]
    exact Nat.div_zero _
  unfold DistributionState.distributable at hbudget
  obtain ⟨total, htotal, hvalue⟩ := minus_isOk (E := Error) (a := d.amountFunded) (b := d.feeAmount) (by omega)
  obtain ⟨amount, hdiv, hamount⟩ := Checked.mulDiv_isSome (a := total) (b := value) hnonzero (by
    rw [hvalue]
    show d.share value < 2 ^ 256
    omega)
  have hequal : amount.toNat = d.share value := by
    rw [hamount, hvalue]
    rfl
  obtain ⟨remaining, hremaining⟩ : ∃ remaining, (surplus total d.amountDistributed : Result U256) = .ok remaining :=
    surplus_isOk _ _
  have hleft := surplus_eq_ok.mp hremaining
  obtain ⟨distributed, hadd, -⟩ := Checked.add_isSome (a := d.amountDistributed) (b := amount) (by omega)
  have hmulDiv : (Evm.mulDiv total value d.totalMerkleValue : Result U256) = .ok amount := by
    unfold Evm.mulDiv
    rw [if_neg hnonzero, hdiv]
    rfl
  have hsurplus : ¬ remaining < amount := by
    rw [BitVec.lt_def]
    omega
  have hpositive : amount ≠ 0 := by
    rintro rfl
    exact hshare hequal.symm
  refine ⟨((w.setClaimed i account amount).setDistribution i { d with amountDistributed := distributed }).note
    (.claimed i account amount), amount, ?_, hequal, ?_, rfl⟩
  · unfold creditClaim
    rw [hd]
    dsimp only
    rw [if_neg haccount, if_neg hroot, hdeadline, ok_bind,
      if_neg fun hlate => hopen ⟨deadline, hdeadline, hlate⟩, if_neg (not_ne_iff.mpr hunclaimed),
      if_neg (by rw [hproof]; simp), htotal, ok_bind, hmulDiv, ok_bind, if_neg hpositive,
      hremaining, ok_bind, if_neg hsurplus, hadd]
    rfl
  · exact (claimed_setClaimed w i i account account amount).trans (if_pos ⟨rfl, rfl⟩)

theorem budget_le_balance (hsound : Sound w) (hd : w.distributions[i]? = some d) (hopen : ¬ WindowClosed w i) :
    d.distributable - d.amountDistributed.toNat ≤ w.balance d.token := by
  have hunswept : d.sweptAmount = 0 := by
    by_contra hswept
    exact hopen ((windowClosed_iff hsound i).mpr ⟨d, hd, hsound.swept i d hd hswept⟩)
  have hround : d.outstanding ≤ w.outstanding d.token := by
    unfold World.outstanding outstandingOf
    refine single_le_sum (fun _ _ => Nat.zero_le _) _ (mem_map.mpr ⟨d, mem_of_getElem? hd, ?_⟩)
    exact if_pos rfl
  unfold DistributionState.outstanding at hround
  rw [hunswept] at hround
  exact (le_of_eq rfl).trans (hround.trans (hsound.solvent d.token))

theorem send_waits {token payee : Address} {amount : ℕ} {e : Revert} (hpayee : payee ≠ self)
    (hbalance : amount ≤ w.balance token) : ∃ failure,
      send self w token payee amount e = .waits (w.debit token amount) (.sending failure) := by
  unfold send
  by_cases hnative : token = 0
  · subst hnative
    rw [if_pos rfl, if_neg (not_or.mpr ⟨hpayee, not_lt.mpr hbalance⟩)]
    exact ⟨_, rfl⟩
  · rw [if_neg hnative, if_neg (not_lt.mpr hbalance), if_neg hpayee]
    exact ⟨_, rfl⟩

/-- A claim can be made: nobody holds the lock, the contract is not paused and the window of the round is open. -/
structure Claimable (distributor : Address) (env : Env) (w : World) (i : ℕ) : Prop where
  free : w.entered = false
  unpaused : w.paused = false
  windowOpen : ¬ WindowClosed w i
  sender : env.msgSender ≠ distributor
  value : env.msgValue = 0

theorem claim_pays {env : Env} {frames : List (Frame World Waiting)} (hsound : Sound w)
    (hclaimable : Claimable self env w i) (hd : w.distributions[i]? = some d) (haccount : account ≠ 0)
    (hself : account ≠ self) (hroot : d.root ≠ 0) (hunclaimed : w.claimed i account = 0)
    (hproof : verifyProof H d.root account value proof = true) (hshare : d.share value ≠ 0)
    (hbudget : d.amountDistributed.toNat + d.share value ≤ d.distributable) :
    ∃ v, [.enter (env, .claim i account value proof), .answer (some ())].foldl
        (step (contract H self)) ⟨w, frames⟩ = ⟨v, frames⟩ ∧
      (v.claimed i account).toNat = d.share value ∧
      v.balance d.token + d.share value = w.balance d.token := by
  obtain ⟨v, amount, hcredit, hamount, hclaimed, hbalance⟩ := creditClaim_isOk (w := w.lock true) (hsound.lock true)
    hd haccount hroot hclaimable.windowOpen hunclaimed hproof hshare hbudget
  have hpaid : amount.toNat ≤ v.balance d.token := by
    have hleft := budget_le_balance hsound hd hclaimable.windowOpen
    rw [hbalance, hamount]
    show d.share value ≤ w.balance d.token
    omega
  obtain ⟨failure, hsend⟩ := send_waits (e := .error .failedToTransferTokens) hself hpaid
  have henter : enter H self (env, .claim i account value proof) w =
      .waits (v.debit d.token amount.toNat) (.sending failure) := by
    unfold enter
    rw [if_neg (not_or.mpr ⟨hclaimable.sender, fun hpayable => hpayable.2 hclaimable.value⟩)]
    show claim H self w i account value proof = _
    unfold claim
    rw [if_neg (by rw [hclaimable.free]; simp), if_neg (by rw [hclaimable.unpaused]; simp), hcredit]
    exact hsend
  refine ⟨(v.debit d.token amount.toNat).lock false, ?_, ?_, ?_⟩
  · show step (contract H self) (settle w frames
      (enter H self (env, .claim i account value proof) w)) (.answer (some ())) = _
    rw [henter]
    rfl
  · show (v.claimed i account).toNat = _
    rw [hclaimed, hamount]
  · show Function.update v.balance d.token (v.balance d.token - amount.toNat) d.token + d.share value = _
    rw [Function.update_self, ← hamount, Nat.sub_add_cancel hpaid, hbalance]
    rfl

/-- In every run the claims of a round whose root commits leaves of distinct accounts within its total are those
of its leaves, each paid once and with the share of its value, and no claim is out of budget. While a leaf's
account has not claimed and the window is open its claim pays its share, whatever was claimed before; a second
claim reverts, and so does one whose share is rounded down to nothing. -/
theorem run_claims_complete (H : Hashes) (self : Address) (w : World) (hstart : Start w) (events : List Event)
    (i : ℕ) (d : DistributionState) (scores : List (Address × U256))
    (hd : (run H self w events).world.distributions[i]? = some d) (hcommitted : Committed H scores d)
    (env : Env) (account : Address) (value : U256) (proof : List B256) (hS : CollisionFree H.keccak256
      (outputHashed H scores ++ events.flatMap (hashedBy H) ++ claimHashed H account value proof)) :
    ((run H self w events).world.claims.Pairwise fun p q => (p.1, p.2.1) ≠ (q.1, q.2.1)) ∧
    (∀ p ∈ (run H self w events).world.claims, p.1 = i → ∃ v, (p.2.1, v) ∈ scores ∧ p.2.2.toNat = d.share v) ∧
    (∀ e ∈ scores, ∃ proof, verifyProof H d.root e.1 e.2 proof = true) ∧
    (∀ claimAmount remainingBudget, enter H self (env, .claim i account value proof) (run H self w events).world ≠
      .reverted (.error (.claimExceedsRoundBudget claimAmount remainingBudget))) ∧
    ((run H self w events).world.claimed i account ≠ 0 ∨ d.share value = 0 →
      ∃ e, enter H self (env, .claim i account value proof) (run H self w events).world = .reverted e) ∧
    ((account, value) ∈ scores → verifyProof H d.root account value proof = true → account ≠ 0 →
      account ≠ self → Claimable self env (run H self w events).world i →
      (run H self w events).world.claimed i account = 0 → d.share value ≠ 0 →
      ∃ v, run H self w (events ++ [.enter (env, .claim i account value proof), .answer (some ())]) =
          ⟨v, (run H self w events).frames⟩ ∧
        (v.claimed i account).toNat = d.share value ∧
        v.balance d.token + d.share value = (run H self w events).world.balance d.token) := by
  set S := outputHashed H scores ++ events.flatMap (hashedBy H) ++ claimHashed H account value proof with hSdef
  have hscores : ∀ s ∈ outputHashed H scores, s ∈ S := fun s hs => mem_append_left _ (mem_append_left _ hs)
  have hclaim : ∀ s ∈ claimHashed H account value proof, s ∈ S := fun s hs => mem_append_right _ hs
  have hevents : ∀ e ∈ events, ∀ s ∈ hashedBy H e, s ∈ S := fun e he s hs =>
    mem_append_left _ (mem_append_right _ (mem_flatMap.mpr ⟨e, he, hs⟩))
  obtain ⟨hsound, htold⟩ := keeps_told.run_holds H self hstart hstart.told events
  have hproven : Proven H S (run H self w events).world := run_proven hstart events hevents
  refine ⟨htold.once, fun p hp hi => ?_, fun e he => ?_, fun claimAmount remainingBudget hreverted => ?_,
    fun hrefused => ?_, fun hmem hproof haccount hself hclaimable hunclaimed hshare => ?_⟩
  · obtain ⟨e, v, proof', he, hproof, hhashed, hamount⟩ := hproven p hp
    rw [hi] at he
    obtain rfl : d = e := Option.some.inj (hd.symm.trans he)
    exact ⟨v, hcommitted.mem hS hscores hhashed hproof, hamount⟩
  · obtain ⟨root, tree, hroot, -, -, hproofs, -⟩ := merkle_complete H (outputLeaves H scores)
    obtain rfl : root = d.root := Option.some.inj (hroot.symm.trans hcommitted.root)
    obtain ⟨proof', -, hproof⟩ := hproofs _ (mem_map.mpr ⟨e, he, rfl⟩)
    exact ⟨proof', decide_eq_true hproof⟩
  · -- a claim out of budget would be one of a leaf that was not claimed
    obtain ⟨e, he, hproof, hunclaimed, hover⟩ : ∃ e, (run H self w events).world.distributions[i]? = some e ∧
        verifyProof H e.root account value proof = true ∧
        (run H self w events).world.claimed i account = 0 ∧
        e.distributable < e.amountDistributed.toNat + e.share value := by
      unfold enter at hreverted
      split at hreverted
      · exact absurd hreverted (by simp)
      change claim H self _ i account value proof = _ at hreverted
      unfold claim at hreverted
      split at hreverted
      · exact absurd hreverted (by simp)
      split at hreverted
      · exact absurd hreverted (by simp)
      cases hcredit : creditClaim H ((run H self w events).world.lock true) i account value proof with
      | error e =>
        rw [hcredit] at hreverted
        rw [Turn.reverted.inj hreverted] at hcredit
        exact creditClaim_exceeds (w := (run H self w events).world.lock true) (hsound.lock true) hcredit
      | ok r =>
        rw [hcredit] at hreverted
        dsimp only at hreverted
        unfold send at hreverted
        split at hreverted
        · split at hreverted
          · exact absurd hreverted (by simp)
          · exact absurd hreverted (by simp)
        · split at hreverted
          · exact absurd hreverted (by simp)
          · exact absurd hreverted (by simp)
    obtain rfl : d = e := Option.some.inj (hd.symm.trans he)
    have hmem := hcommitted.mem hS hscores hclaim hproof
    exact absurd (hcommitted.claimed_add_share_le hS hscores hproven htold hd hmem hunclaimed) (not_le.mpr hover)
  · rcases enter_claim H self (run H self w events).world env i account value proof with hreverted | ⟨r, hcredit⟩
    · exact hreverted
    · obtain ⟨v, token, amount⟩ := r
      obtain ⟨e, _, _, he, -, -, hamount, -, -, hunclaimed, hnonzero, -⟩ := creditClaim_eq_ok hcredit
      obtain rfl : d = e := Option.some.inj (hd.symm.trans he)
      rcases hrefused with hclaimed | hzero
      · exact absurd hunclaimed hclaimed
      · have hnothing : amount.toNat = 0 := hamount.trans hzero
        exact absurd (BitVec.toNat_inj.mp hnothing) hnonzero
  · have hbudget := hcommitted.claimed_add_share_le hS hscores hproven htold hd hmem hunclaimed
    have hroot : d.root ≠ 0 := by
      rw [← show processProof H proof (outputLeaf H account value) = d.root from of_decide_eq_true hproof]
      exact Merkle.processProof_ne_zero hS (hclaim _ (mem_append_left _ (by simp [outputPreimages]))) proof
        fun s hs => hclaim s (mem_append_right _ hs)
    have hrun : run H self w (events ++ [.enter (env, .claim i account value proof), .answer (some ())]) =
        [.enter (env, .claim i account value proof), .answer (some ())].foldl (step (contract H self))
          (run H self w events) := run_append w events _
    rw [hrun]
    exact claim_pays hsound hclaimable hd haccount hself hroot hunclaimed hproof hshare hbudget

end

/-! A round of two leaves, of which each may claim first; and the same tree under a total of which the fund is
a small part. -/

namespace DistributorExample

open OzMerkle.Example (leaf1 leaf2 rootWord)

/-- Those of the tree. -/
abbrev treeHashes : Hashes := OzMerkle.Example.hashes

abbrev leaves : List (Address × U256) := OzMerkle.Example.scores

def stateOf (total : U256) (_ : Address) : Option MerkleSnapshot.MerkleState :=
  some ⟨99, 999000, rootWord, word 1, [], total⟩

def funding (amount total : U256) : List Event :=
  [.enter (⟨funder, amount, stateOf total⟩, .distribute ⟨0, amount, rootWord, total, 0, 1000, addr 0x0c⟩),
    .answer (some ())]

def member (b : Bool) : Address := OzMerkle.Example.addr (if b then 2 else 1)

def points (b : Bool) : U256 := if b then 20 else 10

def sibling (b : Bool) : List B256 := if b then [leaf1] else [leaf2]

def viewOf (b : Bool) : Env := ⟨member b, 0, stateOf 30⟩

def claiming (b : Bool) : List Event :=
  [.enter (viewOf b, .claim 0 (member b) (points b) (sibling b)), .answer (some ())]

structure Terms where
  root : B256
  total : U256
  funded : U256
  fee : U256
  claimDeadline : UInt64
deriving DecidableEq

/-- The rounds, the state of the contract and what an account has claimed after a run. -/
def terms (events : List Event) (b : Bool) : Option (List Terms × Bool × Bool × U256) :=
  constructed.toOption.map fun s =>
    let w := (run treeHashes self (start s) events).world
    (w.distributions.map fun d => ⟨d.root, d.totalMerkleValue, d.amountFunded, d.feeAmount, d.claimDeadline⟩,
      w.entered, w.paused, w.claimed 0 (member b))

def refused : Option Bool :=
  constructed.toOption.map fun s =>
    match enter treeHashes self (viewOf false, .claim 0 (member false) 10 (sibling false))
        (run treeHashes self (start s) (funding 50 3000)).world with
    | .reverted e => e = .error .noFundsToClaim
    | _ => false

theorem terms_eq : (∀ b, terms (funding 1000 30 ++ claiming b) b =
      some ([⟨rootWord, 30, 1000, 10, 0⟩], false, false, 33 * points b) ∧
    terms (funding 1000 30 ++ claiming b) (!b) = some ([⟨rootWord, 30, 1000, 10, 0⟩], false, false, 0)) ∧
    terms (funding 50 3000) false = some ([⟨rootWord, 3000, 50, 0, 0⟩], false, false, 0) ∧
    refused = some true := by
  decide +kernel

theorem scores_root : merkleRoot treeHashes (outputLeaves treeHashes leaves) = some rootWord ∧
    ∀ b, (member b, points b) ∈ leaves ∧ verifyProof treeHashes rootWord (member b) (points b)
      (sibling b) = true := by
  decide +kernel

theorem claiming_collisionFree (b : Bool) : CollisionFree treeHashes.keccak256
    (outputHashed treeHashes leaves ++ (funding 1000 30 ++ claiming b).flatMap (hashedBy treeHashes) ++
      claimHashed treeHashes (member !b) (points !b) (sibling !b)) := by
  cases b with
  | false => exact ⟨by decide +kernel, by decide +kernel⟩
  | true => exact ⟨by decide +kernel, by decide +kernel⟩

theorem terms_round {events : List Event} {b : Bool} {s : Storage} {root : B256} {total funded fee : U256}
    (hs : constructed = .ok s) (h : terms events b = some ([⟨root, total, funded, fee, 0⟩], false, false, 0)) :
    ∃ d, (run treeHashes self (start s) events).world.distributions[0]? = some d ∧ d.root = root ∧
      d.totalMerkleValue = total ∧ d.amountFunded = funded ∧ d.feeAmount = fee ∧
      (run treeHashes self (start s) events).world.claimed 0 (member b) = 0 ∧
      Claimable self (viewOf b) (run treeHashes self (start s) events).world 0 := by
  unfold terms at h
  rw [hs] at h
  obtain ⟨hrounds, h⟩ := Prod.mk.inj (Option.some.inj h)
  obtain ⟨hentered, h⟩ := Prod.mk.inj h
  obtain ⟨hpaused, hclaimed⟩ := Prod.mk.inj h
  obtain ⟨d, hd, hterms⟩ := map_eq_singleton_iff.mp hrounds
  obtain ⟨hroot, htotal, hfunded, hfee, hdeadline⟩ := Terms.mk.inj hterms
  have hfound : (run treeHashes self (start s) events).world.distributions[0]? = some d := by
    rw [hd]
    rfl
  have hstart : Start (start s) := ⟨⟨owner, addr 0x0b, addr 0x0c, 10000000000000000, false, hs⟩, rfl⟩
  have hsound := (keeps_true.run_holds treeHashes self hstart trivial events).1
  refine ⟨d, hfound, hroot, htotal, hfunded, hfee, hclaimed, hentered, hpaused, fun hclosed => ?_,
    by cases b <;> decide, rfl⟩
  obtain ⟨e, he, hlate⟩ := (windowClosed_iff hsound 0).mp hclosed
  obtain rfl : d = e := Option.some.inj (hfound.symm.trans he)
  exact hlate.1 hdeadline

end DistributorExample

open DistributorExample in
/-- Whichever of two accounts claims first, the other one then gets its share of the 990 that were funded. -/
theorem run_claims_complete_funded : ∃ s, Start (start s) ∧ ∀ b, ∃ v,
    run treeHashes self (start s) (funding 1000 30 ++ claiming b ++ claiming !b) =
      ⟨v, (run treeHashes self (start s) (funding 1000 30 ++ claiming b)).frames⟩ ∧
    (v.claimed 0 (member !b)).toNat = 33 * (points !b).toNat := by
  obtain ⟨s, hs, hstart⟩ := exists_start
  refine ⟨s, hstart, fun b => ?_⟩
  obtain ⟨hroot, hleaves⟩ := scores_root
  obtain ⟨hmem, hproof⟩ := hleaves !b
  obtain ⟨d, hd, hrootWord, htotal, hfunded, hfee, hunclaimed, hclaimable⟩ := terms_round hs (terms_eq.1 b).2
  have hshare : d.share (points !b) = 33 * (points !b).toNat := by
    unfold DistributionState.share DistributionState.distributable
    rw [htotal, hfunded, hfee]
    cases b <;> rfl
  have hcommitted : Committed treeHashes leaves d := ⟨hrootWord ▸ hroot, by decide, by rw [htotal]; decide⟩
  obtain ⟨-, -, -, -, -, hpays⟩ := run_claims_complete treeHashes self (start s) hstart
    (funding 1000 30 ++ claiming b) 0 d leaves hd hcommitted (viewOf !b) (member !b) (points !b)
    (sibling !b) (claiming_collisionFree b)
  obtain ⟨v, hv, hclaimed, -⟩ := hpays hmem (hrootWord ▸ hproof) (by cases b <;> decide) (by cases b <;> decide)
    hclaimable hunclaimed (by rw [hshare]; cases b <;> decide)
  exact ⟨v, hv, hclaimed.trans hshare⟩

open DistributorExample in
/-- A leaf whose share is rounded down to nothing cannot claim, though the window is open. -/
theorem not_run_claims_complete : ∃ s, Start (start s) ∧ ∃ d,
    (run treeHashes self (start s) (funding 50 3000)).world.distributions[0]? = some d ∧
    Committed treeHashes leaves d ∧
    Claimable self (viewOf false) (run treeHashes self (start s) (funding 50 3000)).world 0 ∧
    (run treeHashes self (start s) (funding 50 3000)).world.claimed 0 (member false) = 0 ∧
    verifyProof treeHashes d.root (member false) 10 (sibling false) = true ∧
    enter treeHashes self (viewOf false, .claim 0 (member false) 10 (sibling false))
      (run treeHashes self (start s) (funding 50 3000)).world = .reverted (.error .noFundsToClaim) := by
  obtain ⟨s, hs, hstart⟩ := exists_start
  obtain ⟨-, hdust, hclaim⟩ := terms_eq
  obtain ⟨hroot, hleaves⟩ := scores_root
  obtain ⟨d, hd, hrootWord, htotal, -, -, hunclaimed, hclaimable⟩ := terms_round hs hdust
  refine ⟨s, hstart, d, hd, ⟨hrootWord ▸ hroot, by decide, by rw [htotal]; decide⟩, hclaimable, hunclaimed,
    hrootWord ▸ (hleaves false).2, ?_⟩
  unfold refused at hclaim
  rw [hs] at hclaim
  have hmatches := Option.some.inj hclaim
  dsimp only at hmatches
  split at hmatches
  · rename_i e he
    rw [he, of_decide_eq_true hmatches]
  · exact absurd hmatches (by simp)

end Trustgraphs.MerkleFundDistributor
