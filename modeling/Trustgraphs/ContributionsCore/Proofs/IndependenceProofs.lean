import Trustgraphs.ContributionsCore.Proofs.LiveProofs

/-!
# Proofs: valuations that do not count

More valuations in the log leave the claims and the responses as they are. Valuations by raters without
reputation add nothing to any sum, so the second stage comes to the same weights with and without them.
-/

namespace Trustgraphs.Contributions

open LastWrite Outcome Tally List

section Extra

variable {P : RawEdge → Prop} {records records' : List RawEdge} (h : Extends P records records')
  (hP : ∀ r, P r → r.kind = KIND_VALUATION_ATTEST)
include h hP

omit h in
theorem extra_not_revoke (r : RawEdge) (hr : P r) : isRevoke r.kind = false := by
  rw [hP r hr]
  rfl

theorem claims_extends (p : Params) : (reconcile records p).claims = (reconcile records' p).claims := by
  rw [reconcile_claims, reconcile_claims]
  refine BTreeMap.ext_getElem? fun k => getElem?_writes_congr ?_
  refine filterMap_ordered_extends h (extra_not_revoke hP) fun r hr => ?_
  have hnone : claimWrite p r = none := by
    refine if_pos (Or.inl ?_)
    rw [hP r hr]
    decide
  rw [valueAt, hnone]
  rfl

theorem responses_extends (p : Params) :
    (reconcile records p).responses = (reconcile records' p).responses := by
  rw [reconcile_responses, reconcile_responses, claims_extends h hP p]
  refine BTreeMap.ext_getElem? fun k => getElem?_writes_congr ?_
  refine filterMap_ordered_extends h (extra_not_revoke hP) fun r hr => ?_
  have hnone : responseWrite (reconcile records' p).claims r = none := by
    refine if_pos ?_
    rw [hP r hr]
    decide
  rw [valueAt, hnone]
  rfl

theorem valuations_extends {p : Params} {k : ActorKey}
    (hk : ∀ r, P r → ∀ v, valuationWrite (reconcile records p).claims r ≠ some (k, v)) :
    (reconcile records p).valuations[k]? = (reconcile records' p).valuations[k]? := by
  rw [reconcile_valuations, reconcile_valuations, ← claims_extends h hP p]
  refine getElem?_writes_congr ?_
  refine filterMap_ordered_extends h (extra_not_revoke hP) fun r hr => ?_
  rw [Option.eq_none_iff_forall_ne_some]
  intro v hv
  exact hk r hr v (valueAt_eq_some.mp hv)

theorem eligibles_filter_extends {rep : BTreeMap Address U256} {p : Params} {q : EligibleValuation → Bool}
    (hq : ∀ r, P r → ∀ k s, valuationWrite (reconcile records p).claims r = some (k, s) →
      ∀ v e, eligibleOf (reconcile records p).claims rep p k v = some e → q e = false) :
    (eligibles (reconcile records p) rep p).filter q = (eligibles (reconcile records' p) rep p).filter q := by
  unfold eligibles
  rw [← claims_extends h hP p, filter_filterMap, filter_filterMap]
  refine BTreeMap.filterMap_toList_congr fun k v hkv => ?_
  rw [valuations_extends h hP (p := p) (k := k)]
  intro r hr s hwrite
  refine hkv ?_
  cases he : eligibleOf (reconcile records p).claims rep p k v with
  | none => rfl
  | some e =>
    rw [Option.filter_some, hq r hr k s hwrite v e he]
    rfl

end Extra

section Alike

variable {rep : BTreeMap Address U256} {elig elig' : Eligibility} {p : Params}

def hasRep (rep : BTreeMap Address U256) (v : EligibleValuation) : Bool := rep.getD v.rater 0 ≠ 0

/-- Two partitions that agree on the raters with a reputation. -/
structure Alike (rep : BTreeMap Address U256) (elig elig' : Eligibility) : Prop where
  eligible : elig.eligible.filter (hasRep rep) = elig'.eligible.filter (hasRep rep)
  participants : ∀ a, rep.getD a 0 ≠ 0 → (a ∈ elig.participants ↔ a ∈ elig'.participants)

theorem Alike.symm (h : Alike rep elig elig') : Alike rep elig' elig where
  eligible := h.eligible.symm
  participants a ha := (h.participants a ha).symm

theorem filter_budgetTerms {a : Address} (ha : rep.getD a 0 ≠ 0) (l : List EligibleValuation) :
    (budgetTerms l).filter (fun e => e.1 = a) =
      (budgetTerms (l.filter (hasRep rep))).filter fun e => e.1 = a := by
  unfold budgetTerms
  rw [filter_map, filter_map, filter_filter]
  refine congrArg _ (filter_congr fun v _ => ?_)
  show decide (v.rater = a) = (decide (v.rater = a) && hasRep rep v)
  by_cases hv : v.rater = a
  · have hrep : hasRep rep v = true := by
      rw [hasRep, hv]
      simpa using ha
    rw [hrep, Bool.and_true]
  · simp [hv]

theorem Alike.budget (h : Alike rep elig elig') {a : Address} (ha : rep.getD a 0 ≠ 0) :
    (budgets elig)[a]? = (budgets elig')[a]? := by
  have hterms : (budgetTerms elig.eligible).filter (fun e => e.1 = a) =
      (budgetTerms elig'.eligible).filter fun e => e.1 = a := by
    rw [filter_budgetTerms ha, h.eligible, ← filter_budgetTerms ha]
  have hmem : ∀ l : List (Address × UInt64),
      a ∈ l.map Prod.fst ↔ a ∈ (l.filter fun e => e.1 = a).map Prod.fst := by
    intro l
    rw [mem_map, mem_map]
    refine exists_congr fun e => ⟨fun hl => ⟨mem_filter.mpr ⟨hl.1, ?_⟩, hl.2⟩, fun hl =>
      ⟨(mem_filter.mp hl.1).1, hl.2⟩⟩
    simpa using hl.2
  rw [budgets_eq, budgets_eq, getElem?_sums, getElem?_sums, sumAt, sumAt, hterms]
  refine if_congr ?_ rfl rfl
  rw [hmem, hterms, ← hmem]

variable {v : EligibleValuation} {cs : List (List (B256 × U256))} {state : LiveState}

theorem Alike.contributionTerm_eq (h : Alike rep elig elig') (hv : hasRep rep v = true) :
    contributionTerm rep (budgets elig) p v = contributionTerm rep (budgets elig') p v := by
  have hrep : rep.getD v.rater 0 ≠ 0 := by simpa [hasRep] using hv
  unfold contributionTerm index
  rw [h.budget hrep]

theorem zero_part (x s : U256) : (0 : U256).toNat * x.toNat / s.toNat = 0 := by
  rw [show (0 : U256).toNat = 0 from rfl, Nat.zero_mul, Nat.zero_div]

theorem mulDiv_zero {x s a : U256} (h : mulDiv 0 x s = some a) : a = 0 := by
  have hval := (Checked.mulDiv_eq_some.mp h).2
  rw [zero_part] at hval
  exact BitVec.eq_of_toNat_eq hval

theorem mulDiv_zero_eq {x s : U256} (hs : s ≠ 0) : mulDiv 0 x s = some 0 :=
  Checked.mulDiv_eq_some.mpr ⟨hs, (zero_part x s).symm⟩

theorem contributionTerm_zero {budgets : BTreeMap Address UInt64}
    (hv : hasRep rep v = false) {ts : List (B256 × U256)}
    (h : contributionTerm rep budgets p v = .ok ts) : ∀ t ∈ ts, t.2 = 0 := by
  have hrep : rep.getD v.rater 0 = 0 := by simpa [hasRep] using hv
  unfold contributionTerm at h
  obtain ⟨budget, -, h⟩ := of_bind h
  by_cases h0 : budget = 0
  · rw [if_pos h0] at h
    rw [← ok_inj h]
    simp
  · rw [if_neg h0, hrep] at h
    obtain ⟨sigma, -, h⟩ := of_bind h
    obtain ⟨part, hpart, h⟩ := of_bind h
    obtain ⟨contribution, hcontribution, h⟩ := of_bind h
    obtain rfl := mulDiv_zero (arithmetic_eq_ok.mp hpart)
    obtain rfl := mulDiv_zero (arithmetic_eq_ok.mp hcontribution)
    rw [← ok_inj h]
    simp

theorem contributionTerm_returns (hs : p.precisionScale ≠ 0) {budgets : BTreeMap Address UInt64}
    (hv : hasRep rep v = false) (hmem : v.rater ∈ budgets)
    (hscore : v.score.toNat ≤ (budgets.getD v.rater 0).toNat) :
    ∃ ts, contributionTerm rep budgets p v = .ok ts := by
  have hrep : rep.getD v.rater 0 = 0 := by simpa [hasRep] using hv
  obtain ⟨budget, hget, hindex⟩ := index_of_mem hmem
  have hval : budgets.getD v.rater 0 = budget := by rw [getD_eq, hget]; rfl
  rw [hval] at hscore
  unfold contributionTerm
  rw [hindex, ok_bind, hrep]
  by_cases h0 : budget = 0
  · rw [if_pos h0]
    exact ⟨[], rfl⟩
  · have hpos : 0 < budget.toNat := by
      rw [Nat.pos_iff_ne_zero]
      exact fun h => h0 (UInt64.toNat_inj.mp h)
    obtain ⟨sigma, hsigma, -⟩ := fpDiv_isSome (a := ofU64 v.score.toUInt64) (b := ofU64 budget)
      (s := p.precisionScale) (ofU64_ne_zero hpos) (by simpa using hscore)
    have hsigma : mulDiv (ofU64 v.score.toUInt64) p.precisionScale (ofU64 budget) = some sigma := hsigma
    have hzero : ∀ x, fpMul 0 x p.precisionScale = some 0 := fun x => mulDiv_zero_eq hs
    rw [if_neg h0, hsigma]
    refine ⟨[(v.claimUid, 0)], ?_⟩
    simp only [arithmetic, ok_bind, hzero]

theorem Alike.scores (h : Alike rep elig elig') {cs' : List (List (B256 × U256))}
    (hcs : elig.eligible.mapM (contributionTerm rep (budgets elig) p) = .ok cs)
    (hcs' : elig'.eligible.mapM (contributionTerm rep (budgets elig') p) = .ok cs') (c : B256) :
    (sums cs.flatten).getD c 0 = (sums cs'.flatten).getD c 0 := by
  obtain ⟨ds, hds, hsum⟩ := sumAt_flatten_filter (p := hasRep rep) hcs fun v _ hv _ hts =>
    contributionTerm_zero hv hts
  obtain ⟨ds', hds', hsum'⟩ := sumAt_flatten_filter (p := hasRep rep) hcs' fun v _ hv _ hts =>
    contributionTerm_zero hv hts
  have hsame : (elig.eligible.filter (hasRep rep)).mapM (contributionTerm rep (budgets elig) p) =
      (elig'.eligible.filter (hasRep rep)).mapM (contributionTerm rep (budgets elig') p) := by
    rw [← h.eligible]
    exact mapM_congr fun v hv => h.contributionTerm_eq (mem_filter.mp hv).2
  rw [hds, hds'] at hsame
  rw [getD_sums, getD_sums, hsum, hsum', ok_inj hsame]

theorem Alike.returns (h : Alike rep elig elig') (hs : p.precisionScale ≠ 0)
    (hscore : ∀ v ∈ elig'.eligible, v.score ≤ 100) (hlen : elig'.eligible.length < 2 ^ 57)
    (hcs : elig.eligible.mapM (contributionTerm rep (budgets elig) p) = .ok cs) :
    ∃ cs', elig'.eligible.mapM (contributionTerm rep (budgets elig') p) = .ok cs' := by
  refine mapM_returns fun v hv => ?_
  cases hrep : hasRep rep v with
  | true =>
    have hmem : v ∈ elig.eligible.filter (hasRep rep) := by
      rw [h.eligible]
      exact mem_filter.mpr ⟨hv, hrep⟩
    obtain ⟨ts, -, hts⟩ := exists_of_mapM_eq_ok hcs (mem_filter.mp hmem).1
    exact ⟨ts, (h.contributionTerm_eq hrep).symm.trans hts⟩
  | false =>
    refine contributionTerm_returns hs hrep (rater_mem_budgets hv) ?_
    exact score_le_budget hscore hlen hv

theorem claimTerm_congr {state' : LiveState} (hclaims : state.claims = state'.claims)
    (hresponses : state.responses = state'.responses) : claimTerm state p = claimTerm state' p := by
  funext e
  unfold claimTerm shareTerm consentMultFp
  rw [hclaims, hresponses]

theorem shares_congr {scores scores' : BTreeMap B256 U256} (h : ∀ c, scores.getD c 0 = scores'.getD c 0) :
    (scores.toList.mapM (claimTerm state p)).map List.flatten =
      (scores'.toList.mapM (claimTerm state p)).map List.flatten := by
  have hzero : ∀ e : B256 × U256, decide (e.2 ≠ 0) = false → claimTerm state p e = .ok [] := by
    intro e he
    exact if_pos (by simpa using he)
  rw [flatten_mapM_filter fun e _ he => hzero e he, nonzero_congr h,
    ← flatten_mapM_filter fun e _ he => hzero e he]

theorem total_eq_filter (m : BTreeMap Address U256) :
    total m = ((m.toList.filter fun e => e.2 ≠ 0).map Prod.snd).sum := by
  rw [total, ← sum_eq_foldl]
  induction m.toList with
  | nil => rfl
  | cons e l ih =>
    by_cases h0 : e.2 = 0
    · rw [filter_cons_of_neg (by simpa using h0), map_cons, sum_cons, ih, h0, zero_add]
    · rw [filter_cons_of_pos (by simpa using h0), map_cons, map_cons, sum_cons, sum_cons, ih]

theorem evaluatorSide_congr {m m' : BTreeMap Address U256} (h : ∀ a, m.getD a 0 = m'.getD a 0) (beta : U256) :
    evaluatorSide m beta = evaluatorSide m' beta := by
  have htotal : total m = total m' := by rw [total_eq_filter, total_eq_filter, nonzero_congr h]
  unfold evaluatorSide
  rw [← htotal]
  by_cases h0 : beta = 0 ∨ total m = 0
  · rw [if_pos h0, if_pos h0]
  · have hzero : ∀ e : Address × U256, decide (e.2 ≠ 0) = false → sideTerm beta (total m) e = .ok [] := by
      intro e he
      have he : e.2 = 0 := by simpa using he
      unfold sideTerm
      rw [he, mulDiv_zero_eq (not_or.mp h0).2]
      rfl
    rw [if_neg h0, if_neg h0, flatten_mapM_filter fun e _ he => hzero e he, nonzero_congr h,
      ← flatten_mapM_filter fun e _ he => hzero e he]

theorem Alike.participantRep (h : Alike rep elig elig') (a : Address) :
    (participantRep rep elig).getD a 0 = (participantRep rep elig').getD a 0 := by
  rw [getD_eq, getD_eq, Contributions.participantRep, Contributions.participantRep,
    BTreeMap.getElem?_tabulate, BTreeMap.getElem?_tabulate]
  by_cases ha : rep.getD a 0 = 0
  · rw [ha]
    split <;> split <;> rfl
  · have hmem := h.participants a ha
    simp only [Std.ExtTreeSet.mem_toList]
    rw [if_congr hmem rfl rfl]

theorem Alike.combined {state' : LiveState} (h : Alike rep elig elig')
    (hclaims : state.claims = state'.claims) (hresponses : state.responses = state'.responses)
    {cs' : List (List (B256 × U256))}
    (hcs : elig.eligible.mapM (contributionTerm rep (budgets elig) p) = .ok cs)
    (hcs' : elig'.eligible.mapM (contributionTerm rep (budgets elig') p) = .ok cs') :
    (stage2 state rep elig p).map Stage2.combinedWeights =
      (stage2 state' rep elig' p).map Stage2.combinedWeights := by
  have hshares := @shares_congr p state' _ _ (h.scores hcs hcs')
  rw [stage2_eq, stage2_eq]
  unfold terms
  rw [hcs, hcs', claimTerm_congr hclaims hresponses, ok_bind, ok_bind]
  simp only [evaluatorSide_congr h.participantRep]
  cases hws : (sums cs.flatten).toList.mapM (claimTerm state' p) with
  | error e =>
    rw [hws] at hshares
    rw [map_eq_error.mp hshares.symm]
    rfl
  | ok ws =>
    rw [hws] at hshares
    obtain ⟨ws', hws', hflatten⟩ := map_eq_ok.mp hshares.symm
    rw [hws', ok_bind, ok_bind, hflatten]
    cases betaFp p with
    | error e => rfl
    | ok beta =>
      rw [ok_bind, ok_bind]
      cases contributorSide (sums ws.flatten) (p.precisionScale - beta) with
      | error e => rfl
      | ok ks =>
        rw [ok_bind, ok_bind]
        cases evaluatorSide (Contributions.participantRep rep elig') beta <;> rfl

end Alike

end Trustgraphs.Contributions
