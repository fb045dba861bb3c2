import Trustgraphs.Contracts.ContributionsParamsValidator
import Trustgraphs.ContributionsCore.Proofs.IndependenceProofs
import Trustgraphs.PagerankCore.Proofs.ComputeProofs

/-!
# Proofs: what a round pays out

The scores of a round depend on its reputation and its records alone. Valuations by raters without
reputation do not change them, nor do the valuations that an account makes of its own claims; under
validated parameters they come to the whole pool.
-/

namespace Trustgraphs.Contributions

open LastWrite Outcome Option List

/-- The pool over the combined weights, ascending by address, with the total. -/
def allocate (p : Params) (combined : BTreeMap Address U256) : Option (List (Address × U256) × U256) := do
  let weights := combined.toList.filter fun e => e.2 != 0
  let (assigned, totalValue) ← Distribute.distributePointsGeneric weights p.precisionScale p.totalPool
  some (assigned.insertionSort fun a b => a.1 ≤ b.1, totalValue)

/-- What a log pays out under a reputation, with the total. -/
def payout (rep : BTreeMap Address U256) (records : List RawEdge) (p : Params) :
    Option (List (Address × U256) × U256) := do
  let state := reconcile records p
  let elig ← (eligibility state rep p).toOption
  let st2 ← (stage2 state rep elig p).toOption
  allocate p st2.combinedWeights

theorem paramsHash_isSome (H : Hashes) (p : Params) : ∃ h, paramsHash H p = some h := by
  obtain ⟨r, hr⟩ := Merkle.seedSetRoot_isSome H (p.trustedSeeds.insertionSort (· ≤ ·))
  refine ⟨H.keccak256 (paramsPreimage p r), ?_⟩
  simp only [paramsHash, hr, bind_eq_bind, bind_some]

/-- The result of a run is what the log pays out, and the root is that of the scores. -/
def IsResult (H : Hashes) (input : GuestInput) (r : ComputeResult) : Prop :=
  (∃ rank, reputationDetailed input.trustEdges input.params = some rank ∧
    payout rank.scores input.records input.params = some (r.scores, r.journal.totalValue)) ∧
  merkleRoot H (r.scores.map fun e => outputLeaf H e.1 e.2) = some r.journal.outputRoot

theorem compute_isResult {H : Hashes} {input : GuestInput} {r : ComputeResult}
    (h : compute H input = some r) : IsResult H input r := by
  unfold compute at h
  dsimp only at h
  obtain ⟨_, -, h⟩ := bind_eq_some_iff.mp h
  obtain ⟨rank, hrank, h⟩ := bind_eq_some_iff.mp h
  obtain ⟨elig, helig, h⟩ := bind_eq_some_iff.mp h
  obtain ⟨st2, hst2, h⟩ := bind_eq_some_iff.mp h
  obtain ⟨⟨assigned, totalValue⟩, hassigned, h⟩ := bind_eq_some_iff.mp h
  obtain ⟨root, hroot, h⟩ := bind_eq_some_iff.mp h
  obtain rfl := some_inj.mp h
  refine ⟨⟨rank, hrank, ?_⟩, hroot⟩
  unfold payout
  dsimp only
  rw [helig, bind_eq_bind, bind_some, hst2, bind_eq_bind, bind_some]
  unfold allocate
  dsimp only
  rw [hassigned]
  rfl

theorem exists_compute (H : Hashes) {input : GuestInput} {rank : Pagerank.RankResult Address}
    (hrank : reputationDetailed input.trustEdges input.params = some rank)
    {out : List (Address × U256) × U256} (hout : payout rank.scores input.records input.params = some out) :
    ∃ r, compute H input = some r ∧ r.scores = out.1 ∧ r.journal.totalValue = out.2 := by
  unfold payout at hout
  dsimp only at hout
  obtain ⟨elig, helig, hout⟩ := bind_eq_some_iff.mp hout
  obtain ⟨st2, hst2, hout⟩ := bind_eq_some_iff.mp hout
  obtain ⟨⟨assigned, totalValue⟩, hassigned, hout⟩ := bind_eq_some_iff.mp hout
  obtain rfl := some_inj.mp hout
  obtain ⟨ph, hph⟩ := paramsHash_isSome H input.params
  obtain ⟨root, hroot⟩ := Merkle.merkleRoot_isSome H
    ((assigned.insertionSort fun a b => a.1 ≤ b.1).map fun e => outputLeaf H e.1 e.2)
  unfold compute
  dsimp only
  rw [hph, bind_eq_bind, bind_some, hrank, bind_eq_bind, bind_some, helig,
    bind_eq_bind, bind_some, hst2, bind_eq_bind, bind_some, hassigned,
    bind_eq_bind, bind_some]
  dsimp only
  rw [hroot]
  exact ⟨_, rfl, rfl, rfl⟩

def eligibilityOf (records : List RawEdge) (rep : BTreeMap Address U256) (p : Params) : Eligibility where
  eligible := eligibles (reconcile records p) rep p
  skipped := skips (reconcile records p) rep p
  participants := (eligibles (reconcile records p) rep p).foldl (fun s v => s.insert v.rater) ∅

theorem eligibility_reconcile (records : List RawEdge) (rep : BTreeMap Address U256) (p : Params) :
    eligibility (reconcile records p) rep p = .ok (eligibilityOf records rep p) :=
  eligibility_eq (closed_reconcile records p)

theorem payout_eq (rep : BTreeMap Address U256) (records : List RawEdge) (p : Params) : payout rep records p =
    (((stage2 (reconcile records p) rep (eligibilityOf records rep p) p).map
      Stage2.combinedWeights).toOption).bind (allocate p) := by
  unfold payout
  dsimp only
  rw [eligibility_reconcile]
  show ((stage2 (reconcile records p) rep (eligibilityOf records rep p) p).toOption).bind _ = _
  cases stage2 (reconcile records p) rep (eligibilityOf records rep p) p <;> rfl

section Extra

variable {rep : BTreeMap Address U256} {p : Params} {P : RawEdge → Prop} {records records' : List RawEdge}

theorem alike_of_filter (h : (eligibles (reconcile records p) rep p).filter (hasRep rep) =
    (eligibles (reconcile records' p) rep p).filter (hasRep rep)) :
    Alike rep (eligibilityOf records rep p) (eligibilityOf records' rep p) where
  eligible := h
  participants := by
    intro a ha
    have hmem : ∀ l : List EligibleValuation, a ∈ l.foldl (fun s v => s.insert v.rater) (∅ : BTreeSet Address) ↔
          ∃ v ∈ l.filter (hasRep rep), v.rater = a := by
      intro l
      rw [mem_foldl_raters]
      constructor
      · rintro (hempty | ⟨v, hv, rfl⟩)
        · exact absurd hempty (by simp)
        · exact ⟨v, mem_filter.mpr ⟨hv, by simpa [hasRep] using ha⟩, rfl⟩
      · rintro ⟨v, hv, rfl⟩
        exact Or.inr ⟨v, (mem_filter.mp hv).1, rfl⟩
    refine (hmem _).trans (Iff.trans ?_ (hmem _).symm)
    rw [h]

theorem alike_extends (h : Extends P records records') (hP : ∀ r, P r → r.kind = KIND_VALUATION_ATTEST)
    (hrep : ∀ r, P r → rep.getD r.attester 0 = 0) :
    Alike rep (eligibilityOf records rep p) (eligibilityOf records' rep p) := by
  refine alike_of_filter (eligibles_filter_extends h hP ?_)
  intro r hr k s hwrite v e he
  obtain ⟨claim, -, -, rfl⟩ := eligibleOf_eq_some.mp he
  have hkey : k = actorKey (ofLex k).1 (ofLex k).2 := rfl
  rw [hkey] at hwrite
  obtain ⟨-, hattester, -⟩ := valuationWrite_eq_some.mp hwrite
  have hzero : rep.getD (ofLex k).2 0 = 0 := by
    rw [← hattester]
    exact hrep r hr
  exact decide_eq_false (not_not.mpr hzero)

theorem payout_alike (halike : Alike rep (eligibilityOf records rep p) (eligibilityOf records' rep p))
    (hclaims : (reconcile records p).claims = (reconcile records' p).claims)
    (hresponses : (reconcile records p).responses = (reconcile records' p).responses)
    {cs cs' : List (List (B256 × U256))} (hcs : (eligibilityOf records rep p).eligible.mapM
      (contributionTerm rep (budgets (eligibilityOf records rep p)) p) = .ok cs)
    (hcs' : (eligibilityOf records' rep p).eligible.mapM
      (contributionTerm rep (budgets (eligibilityOf records' rep p)) p) = .ok cs') :
    payout rep records p = payout rep records' p := by
  rw [payout_eq, payout_eq, halike.combined hclaims hresponses hcs hcs']

theorem exists_contributions {out : List (Address × U256) × U256} (h : payout rep records p = some out) :
    ∃ cs, (eligibilityOf records rep p).eligible.mapM
      (contributionTerm rep (budgets (eligibilityOf records rep p)) p) = .ok cs := by
  rw [payout_eq, stage2_eq] at h
  obtain ⟨combined, hcombined, -⟩ := bind_eq_some_iff.mp h
  obtain ⟨st2, hst2, -⟩ := map_eq_ok.mp (toOption_eq_some.mp hcombined)
  obtain ⟨t, ht, -⟩ := map_eq_ok.mp hst2
  obtain ⟨cs, hcs, -⟩ := of_bind ht
  exact ⟨cs, hcs⟩

theorem eligible_lt (hlen : records.length < 2 ^ 57) : (eligibilityOf records rep p).eligible.length < 2 ^ 57 :=
  lt_of_le_of_lt (length_eligibles_le records rep p) hlen

theorem eligible_score {v : EligibleValuation} (hv : v ∈ (eligibilityOf records rep p).eligible) : v.score ≤ 100 :=
  ((closed_reconcile records p).eligible hv).2

theorem payout_isSome_alike (halike : Alike rep (eligibilityOf records rep p) (eligibilityOf records' rep p))
    (hclaims : (reconcile records p).claims = (reconcile records' p).claims)
    (hresponses : (reconcile records p).responses = (reconcile records' p).responses)
    (hs : p.precisionScale ≠ 0) (hlen : records'.length < 2 ^ 57) {out : List (Address × U256) × U256}
    (h : payout rep records p = some out) : payout rep records' p = some out := by
  obtain ⟨cs, hcs⟩ := exists_contributions h
  obtain ⟨cs', hcs'⟩ := halike.returns hs (fun v hv => eligible_score hv) (eligible_lt hlen) hcs
  rw [← payout_alike halike hclaims hresponses hcs hcs', h]

end Extra

theorem IsResult.root_eq {H : Hashes} {input input' : GuestInput} {r r' : ComputeResult}
    (h : IsResult H input r) (h' : IsResult H input' r') (hscores : r.scores = r'.scores) :
    r.journal.outputRoot = r'.journal.outputRoot := by
  have hroot := h.2
  rw [hscores, h'.2] at hroot
  exact (Option.some.inj hroot).symm

/-- The record is a valuation by an account without reputation. -/
def WithoutRep (input : GuestInput) (r : RawEdge) : Prop :=
  r.kind = KIND_VALUATION_ATTEST ∧
    ∀ rank, reputationDetailed input.trustEdges input.params = some rank → rank.scores.getD r.attester 0 = 0

/-- Valuations by raters without reputation, anywhere in the log, leave the scores, their root and the total
as they are. Unless the scale is zero, they do not make a run panic or keep it from doing so. -/
theorem compute_ignores_without_rep (H : Hashes) (input : GuestInput) {records' : List RawEdge}
    (h : Extends (WithoutRep input) input.records records') :
    (∀ r r', compute H input = some r → compute H { input with records := records' } = some r' →
      r'.scores = r.scores ∧ r'.journal.outputRoot = r.journal.outputRoot ∧
        r'.journal.totalValue = r.journal.totalValue) ∧
    (input.params.precisionScale ≠ 0 → records'.length < 2 ^ 57 →
      ((∃ r, compute H input = some r) ↔ ∃ r', compute H { input with records := records' } = some r')) := by
  have hkind : ∀ r, WithoutRep input r → r.kind = KIND_VALUATION_ATTEST := fun r hr => hr.1
  have halike : ∀ rank, reputationDetailed input.trustEdges input.params = some rank →
      Alike rank.scores (eligibilityOf input.records rank.scores input.params)
        (eligibilityOf records' rank.scores input.params) :=
    fun rank hrank => alike_extends h hkind fun r hr => hr.2 rank hrank
  have hclaims := claims_extends h hkind input.params
  have hresponses := responses_extends h hkind input.params
  refine ⟨fun r r' hr hr' => ?_, fun hs hlen => ⟨?_, ?_⟩⟩
  · have hresult := compute_isResult hr
    have hresult' := compute_isResult hr'
    obtain ⟨rank, hrank, hout⟩ := hresult.1
    obtain ⟨rank', hrank', hout'⟩ := hresult'.1
    obtain rfl := Option.some.inj (hrank.symm.trans hrank')
    obtain ⟨cs, hcs⟩ := exists_contributions hout
    obtain ⟨cs', hcs'⟩ := exists_contributions hout'
    have heq := payout_alike (halike rank hrank) hclaims hresponses hcs hcs'
    rw [hout, hout'] at heq
    obtain ⟨hscores, htotal⟩ := Prod.mk.inj (Option.some.inj heq)
    exact ⟨hscores.symm, hresult'.root_eq hresult hscores.symm, htotal.symm⟩
  · rintro ⟨r, hr⟩
    obtain ⟨rank, hrank, hout⟩ := (compute_isResult hr).1
    have hout' := payout_isSome_alike (halike rank hrank) hclaims hresponses hs hlen hout
    obtain ⟨r', hr', -⟩ := @exists_compute H { input with records := records' } _ hrank _ hout'
    exact ⟨r', hr'⟩
  · rintro ⟨r', hr'⟩
    obtain ⟨rank, hrank, hout'⟩ := (compute_isResult hr').1
    have hshort : input.records.length < 2 ^ 57 := lt_of_le_of_lt h.length_le hlen
    have hout := payout_isSome_alike (halike rank hrank).symm hclaims.symm hresponses.symm hs hshort hout'
    obtain ⟨r, hr, -⟩ := @exists_compute H input _ hrank _ hout
    exact ⟨r, hr⟩

namespace PayoutExample

def input : GuestInput := ⟨[], LiveExample.records, LiveExample.params, ⟨0, 0⟩⟩

def records : List RawEdge :=
  LiveExample.records ++
    [⟨4, .replicate 20 0xd1, 0, .replicate 32 9, 12, encodeValuation (.replicate 32 1) 100⟩]

theorem rep_stranger : ((reputationDetailed input.trustEdges input.params).all fun rank =>
    rank.scores.getD (.replicate 20 0xd1) 0 == 0) = true := by
  decide +kernel

end PayoutExample

theorem compute_ignores_without_rep_stranger :
    let input := PayoutExample.input
    let input' := { input with records := PayoutExample.records }
    (∀ r r', compute ⟨fun _ => 0, fun _ => 0⟩ input = some r → compute ⟨fun _ => 0, fun _ => 0⟩ input' = some r' →
      r'.scores = r.scores ∧ r'.journal.outputRoot = r.journal.outputRoot ∧
        r'.journal.totalValue = r.journal.totalValue) ∧
    ((∃ r, compute ⟨fun _ => 0, fun _ => 0⟩ input = some r) ↔
      ∃ r', compute ⟨fun _ => 0, fun _ => 0⟩ input' = some r') := by
  intro input input'
  have hextra : Extends (WithoutRep input) input.records PayoutExample.records := by
    refine Extends.append_right fun r hr => ?_
    rw [mem_singleton.mp hr]
    refine ⟨rfl, fun rank hrank => ?_⟩
    have hall := PayoutExample.rep_stranger
    rw [show reputationDetailed PayoutExample.input.trustEdges PayoutExample.input.params =
      some rank from hrank] at hall
    simpa using hall
  obtain ⟨hsame, hreturns⟩ := compute_ignores_without_rep ⟨fun _ => 0, fun _ => 0⟩ input hextra
  exact ⟨hsame, hreturns (by decide) (by decide)⟩

/-- The loop variable holds the exact sum of the values so far, at most `limit`. -/
def SumWithin (limit : ℕ) (l : List U256) : Prop :=
  ∀ before after, l = before ++ after → (before.foldl (· + ·) 0).toNat = (before.map BitVec.toNat).sum ∧
      (before.map BitVec.toNat).sum ≤ limit

theorem sumWithin_of_le {limit : ℕ} {l : List U256} (h : (l.map BitVec.toNat).sum ≤ limit)
    (hlimit : limit < 2 ^ 256) : SumWithin limit l := by
  rintro before after rfl
  rw [map_append, sum_append] at h
  have hle : (before.map BitVec.toNat).sum ≤ limit := (Nat.le_add_right _ _).trans h
  refine ⟨?_, hle⟩
  rw [← sum_eq_foldl, (Tally.modular_bitVec 256).num_sum_of_lt (lt_of_le_of_lt hle hlimit)]

/-- No sum of the second stage wraps: whatever has been added so far is the exact sum, within the limit. -/
structure Terms.Exact (t : Terms) (rep : BTreeMap Address U256) (elig : Eligibility) (p : Params) : Prop where
  claimScores : Tally.Within BitVec.toNat p.precisionScale.toNat t.contributions
  contributorWeights : Tally.Within BitVec.toNat p.precisionScale.toNat t.shares
  totalWeight : SumWithin p.precisionScale.toNat ((Tally.sums t.shares).toList.map Prod.snd)
  totalRep : SumWithin p.precisionScale.toNat ((participantRep rep elig).toList.map Prod.snd)
  betaFp : t.beta.toNat ≤ p.precisionScale.toNat
  /-- What the contributors get together, and each of them at any time. -/
  contributorSide : mass t.contributors ≤ p.precisionScale.toNat - t.beta.toNat ∧
    Tally.Within BitVec.toNat (p.precisionScale.toNat - t.beta.toNat) t.contributors
  /-- What the evaluators get together, and each of them at any time. -/
  evaluatorSide : mass t.evaluators ≤ t.beta.toNat ∧ Tally.Within BitVec.toNat t.beta.toNat t.evaluators
  combined : Tally.Within BitVec.toNat p.precisionScale.toNat (t.contributors ++ t.evaluators)

variable {p : Params}

theorem Terms.Within.exact {t : Terms} {rep : BTreeMap Address U256} {elig : Eligibility}
    (h : t.Within rep elig p) : t.Exact rep elig p := by
  have hlt := p.precisionScale.isLt
  have hside : mass t.contributors + mass t.evaluators ≤ p.precisionScale.toNat := by
    have hc := h.contributors
    have he := h.evaluators
    have hb := h.beta
    omega
  have hwithin : ∀ {K : Type} [LinearOrder K] {limit : ℕ} {l : List (K × U256)}, mass l ≤ limit →
      limit < 2 ^ 256 → Tally.Within BitVec.toNat limit l := by
    intro K _ limit l hle hlimit
    refine Tally.within_of_sum_le (Tally.modular_bitVec 256) ?_ hlimit
    rwa [mass_numbers]
  have hshares : mass t.shares ≤ p.precisionScale.toNat := h.shares.trans h.contributions
  have hvalues : ((Tally.sums t.shares).toList.map fun e => e.2.toNat).sum = mass t.shares :=
    values_sums (lt_of_le_of_lt hshares hlt)
  exact {
    claimScores := hwithin h.contributions hlt
    contributorWeights := hwithin hshares hlt
    totalWeight := by
      refine sumWithin_of_le ?_ hlt
      rw [List.map_map]
      exact hvalues.trans_le hshares
    totalRep := by
      refine sumWithin_of_le ?_ hlt
      rw [List.map_map]
      exact h.participants
    betaFp := h.beta
    contributorSide := ⟨h.contributors, hwithin h.contributors (lt_of_le_of_lt (Nat.sub_le _ _) hlt)⟩
    evaluatorSide := ⟨h.evaluators, hwithin h.evaluators (lt_of_le_of_lt h.beta hlt)⟩
    combined := hwithin (by rwa [mass_append]) hlt }

theorem Terms.Within.combined_le {t : Terms} {rep : BTreeMap Address U256} {elig : Eligibility}
    (h : t.Within rep elig p) :
    (t.result.combinedWeights.toList.map fun e => e.2.toNat).sum ≤ p.precisionScale.toNat := by
  have hside : mass (t.contributors ++ t.evaluators) ≤ p.precisionScale.toNat := by
    rw [mass_append]
    have hc := h.contributors
    have he := h.evaluators
    have hb := h.beta
    omega
  exact (values_sums (lt_of_le_of_lt hside p.precisionScale.isLt)).trans_le hside

theorem allocate_spec {combined : BTreeMap Address U256}
    (hfits : (combined.toList.map fun e => e.2.toNat).sum < 2 ^ 256) :
    ∃ scores given, allocate p combined = some (scores, given) ∧
      ((∃ (a : Address) (w : U256), combined[a]? = some w ∧ w ≠ 0) →
        given = p.totalPool ∧ (scores.map fun e => e.2.toNat).sum = p.totalPool.toNat) ∧
      ((∀ (a : Address) (w : U256), combined[a]? = some w → w = 0) → scores = []) := by
  set weights := combined.toList.filter fun e => e.2 != 0 with hweights
  have hkeys : (combined.toList.map Prod.fst).Nodup := by
    rw [Std.ExtTreeMap.map_fst_toList_eq_keys]
    exact BTreeMap.keys_nodup combined
  unfold allocate
  dsimp only
  rw [← hweights]
  by_cases hne : ∃ e ∈ weights, e.2 ≠ 0
  · have hsum : (weights.map fun e => e.2.toNat).sum < 2 ^ 256 := by
      have hsub := (filter_sublist (p := fun e : Address × U256 => e.2 != 0)
        (l := combined.toList)).map fun e => e.2.toNat
      exact lt_of_le_of_lt (hsub.sum_le_sum fun _ _ => Nat.zero_le _) hfits
    obtain ⟨assigned, hassigned, -, -, htotal⟩ := Distribute.distributePointsGeneric_spec weights
      p.precisionScale p.totalPool (hkeys.sublist (filter_sublist.map _)) hne hsum
    rw [hassigned]
    refine ⟨_, _, rfl, fun _ => ⟨rfl, ?_⟩, fun hall => ?_⟩
    · exact ((perm_insertionSort _ assigned).map _).sum_eq.trans htotal
    · obtain ⟨⟨a, w⟩, he, h0⟩ := hne
      exact absurd (hall a w (BTreeMap.mem_toList.mp (mem_filter.mp he).1)) h0
  · push Not at hne
    rw [Distribute.distributePointsGeneric_zero _ _ hne]
    refine ⟨[], 0, rfl, ?_, fun _ => rfl⟩
    rintro ⟨a, w, hw, h0⟩
    refine absurd (hne (a, w) (mem_filter.mpr ⟨BTreeMap.mem_toList.mpr hw, ?_⟩)) h0
    simpa using h0

/-- The record is a valuation by `a`, of a claim that `a` contributes to if it is of a live one. -/
def OwnValuation (claims : BTreeMap B256 LiveClaim) (a : Address) (r : RawEdge) : Prop :=
  r.kind = KIND_VALUATION_ATTEST ∧ r.attester = a ∧
    ∀ payload claim, decodeValuation r.data = some payload → claims[payload.claimUid]? =
      some claim → a ∈ claim.shares

theorem eligibilityOf_own {records records' : List RawEdge} {a : Address}
    (h : Extends (OwnValuation (reconcile records p).claims a) records records') (rep : BTreeMap Address U256) :
    eligibles (reconcile records p) rep p = eligibles (reconcile records' p) rep p := by
  have hfilter : (eligibles (reconcile records p) rep p).filter (fun _ => true) = _ :=
      eligibles_filter_extends h (fun r hr => hr.1) (by
    intro r hr k s hwrite v e he
    obtain ⟨claim, hclaim, hverdict, -⟩ := eligibleOf_eq_some.mp he
    have hkey : k = actorKey (ofLex k).1 (ofLex k).2 := rfl
    rw [hkey] at hwrite
    obtain ⟨-, hattester, hdecode, -⟩ := valuationWrite_eq_some.mp hwrite
    obtain ⟨-, hown, hshare⟩ := hr
    have hmem := hshare _ claim hdecode hclaim
    rw [← hown, hattester] at hmem
    -- a contributor's valuation is a self-valuation
    unfold verdict at hverdict
    rw [show claim.shares.contains (ofLex k).2 = true from hmem, Bool.true_or, if_pos rfl] at hverdict
    exact absurd hverdict (by simp))
  rwa [filter_true, filter_true] at hfilter

theorem payout_own {records records' : List RawEdge} {a : Address}
    (h : Extends (OwnValuation (reconcile records p).claims a) records records') (rep : BTreeMap Address U256) :
    payout rep records' p = payout rep records p := by
  have helig := eligibilityOf_own h rep
  have hclaims := claims_extends h (fun r hr => hr.1) p
  have hresponses := responses_extends h (fun r hr => hr.1) p
  have hterms : terms (reconcile records' p) rep (eligibilityOf records' rep p) p =
      terms (reconcile records p) rep (eligibilityOf records rep p) p := by
    unfold terms budgets participantRep
    rw [claimTerm_congr hclaims.symm hresponses.symm]
    unfold eligibilityOf
    dsimp only
    rw [helig]
  rw [payout_eq, payout_eq, stage2_eq, stage2_eq, hterms]

theorem bounded_of_envelope (h : ContributionsParamsValidator.Envelope p) : Bounded p where
  scale_pos := by
    have hscale : p.precisionScale = TrustgraphsParamsValidator.PRECISION_SCALE := h.trust.scale
    rw [hscale]
    decide
  unaccepted := BitVec.le_def.mp h.unaccepted
  collaborator := BitVec.le_def.mp h.collaborator
  carveout := UInt32.le_iff_toNat_le.mp h.carveout

theorem reputation_total (h : ContributionsParamsValidator.Envelope p) {trustEdges : List RawEdge}
    (hlen : trustEdges.length < 2 ^ 64) : ∃ rank, reputationDetailed trustEdges p = some rank ∧
      (rank.scores.toList.map fun e => e.2.toNat).sum = p.precisionScale.toNat := by
  obtain ⟨graph, hgraph, hready⟩ := PagerankCore.ready_of_envelope h.trust hlen
  have hne : Pagerank.rankNodes graph.nodes (PagerankCore.rankConfig (trustParams p)).seeds ≠ [] := by
    obtain ⟨seed, hseed⟩ := exists_mem_of_ne_nil _ h.trust.seeds_pos
    exact ne_nil_of_mem (Pagerank.mem_rankNodes.mpr (.inr (PagerankCore.mem_seeds.mpr hseed)))
  obtain ⟨rank, hrank, hsum⟩ := Pagerank.calculateGenericDetailed_total hready hne
  refine ⟨rank, ?_, hsum⟩
  unfold reputationDetailed
  dsimp only
  rw [hgraph, bind_eq_bind, bind_some, hrank]

/-- Under validated parameters a run returns and no sum of its second stage wraps. The scores come to the
pool unless there is no weight, and what an account says of its own claims has no effect on them. -/
theorem compute_pays (H : Hashes) (input : GuestInput)
    (hp : ContributionsParamsValidator.validateComputationalEnvelope input.params = .ok ())
    (hedges : input.trustEdges.length < 2 ^ 64) (hrecords : input.records.length < 2 ^ 57) :
    ∃ rank elig t r, reputationDetailed input.trustEdges input.params = some rank ∧
      eligibility (reconcile input.records input.params) rank.scores input.params = .ok elig ∧
      terms (reconcile input.records input.params) rank.scores elig input.params = .ok t ∧
      stage2 (reconcile input.records input.params) rank.scores elig input.params = .ok t.result ∧
      t.Exact rank.scores elig input.params ∧
      compute H input = some r ∧
      ((∃ (a : Address) (w : U256), t.result.combinedWeights[a]? = some w ∧ w ≠ 0) →
        (r.scores.map fun e => e.2.toNat).sum = input.params.totalPool.toNat ∧
          r.journal.totalValue = input.params.totalPool) ∧
      ((∀ (a : Address) (w : U256), t.result.combinedWeights[a]? = some w → w = 0) → r.scores = []) ∧
      ∀ a records', Extends (OwnValuation (reconcile input.records input.params).claims a) input.records records' →
        ∃ r', compute H { input with records := records' } = some r' ∧ r'.scores = r.scores := by
  have henv := ContributionsParamsValidator.envelope_of_ok hp
  have hbounded := bounded_of_envelope henv
  obtain ⟨rank, hrank, htotal⟩ := reputation_total henv hedges
  have helig := eligibility_reconcile input.records rank.scores input.params
  obtain ⟨t, ht, hwithin⟩ := stage2_terms hbounded (le_of_eq htotal) hrecords helig
  have hstage : stage2 (reconcile input.records input.params) rank.scores
      (eligibilityOf input.records rank.scores input.params) input.params = .ok t.result := by
    rw [stage2_eq, ht]
    rfl
  obtain ⟨scores, given, halloc, hpaid, hempty⟩ :=
    allocate_spec (p := input.params) (lt_of_le_of_lt hwithin.combined_le input.params.precisionScale.isLt)
  have hout : payout rank.scores input.records input.params = some (scores, given) := by
    rw [payout_eq, hstage]
    exact halloc
  obtain ⟨r, hr, hscores, hgiven⟩ := exists_compute H hrank hout
  refine ⟨rank, _, t, r, hrank, helig, ht, hstage, hwithin.exact, hr, fun hne => ?_, fun hall => ?_, ?_⟩
  · obtain ⟨hpool, hsum⟩ := hpaid hne
    rw [hscores, hgiven]
    exact ⟨hsum, hpool⟩
  · rw [hscores]
    exact hempty hall
  · intro a records' hown
    have hout' : payout rank.scores records' input.params = some (scores, given) := by
      rw [payout_own hown, hout]
    obtain ⟨r', hr', hscores', -⟩ := @exists_compute H { input with records := records' } _ hrank _ hout'
    exact ⟨r', hr', hscores'.trans hscores.symm⟩

theorem compute_pays_round : ∃ t r,
    (∃ rank elig, terms (reconcile LiveExample.records LiveExample.params) rank elig LiveExample.params = .ok t ∧
      t.Exact rank elig LiveExample.params) ∧
    compute ⟨fun _ => 0, fun _ => 0⟩ PayoutExample.input = some r ∧
    ((∃ (a : Address) (w : U256), t.result.combinedWeights[a]? = some w ∧ w ≠ 0) →
      (r.scores.map fun e => e.2.toNat).sum = LiveExample.params.totalPool.toNat) := by
  obtain ⟨rank, elig, t, r, -, -, ht, -, hexact, hr, hpaid, -, -⟩ :=
    compute_pays ⟨fun _ => 0, fun _ => 0⟩ PayoutExample.input (by decide +kernel) (by decide) (by decide)
  exact ⟨t, r, ⟨rank.scores, elig, ht, hexact⟩, hr, fun hne => (hpaid hne).1⟩

end Trustgraphs.Contributions
