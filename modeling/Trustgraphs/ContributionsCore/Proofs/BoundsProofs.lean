import Trustgraphs.ContributionsCore.Proofs.StageProofs

/-!
# Proofs: nothing wraps

Every term is a part of something that was given out before: a valuation gives out the reputation of
its rater in proportion to the budget, a claim its score in proportion to the shares, a side of the
pool itself in proportion to the weights.
-/

namespace Trustgraphs.Contributions

open Outcome Tally BTreeMap List BitVec

section Mass

variable {K : Type}

def mass (l : List (K × U256)) : ℕ := (l.map fun e => e.2.toNat).sum

theorem mass_append (l l' : List (K × U256)) : mass (l ++ l') = mass l + mass l' := by
  rw [mass, map_append, sum_append]
  rfl

theorem mass_numbers (l : List (K × U256)) : ((numbers BitVec.toNat l).map Prod.snd).sum = mass l := by
  rw [map_snd_numbers, map_map]
  rfl

theorem mass_ite (k : K) (x : U256) : mass (if x ≠ 0 then [(k, x)] else []) = x.toNat := by
  by_cases h : x = 0
  · rw [if_neg (not_not.mpr h), h]
    rfl
  · rw [if_pos h]
    exact Nat.add_zero _

theorem mapM_mass {α : Type} {f : α → Except Panic (List (K × U256))} {l : List α} {b : α → ℕ}
    (h : ∀ a ∈ l, ∃ ts, f a = .ok ts ∧ mass ts ≤ b a) :
    ∃ tss, l.mapM f = .ok tss ∧ mass tss.flatten ≤ (l.map b).sum := by
  induction l with
  | nil => exact ⟨[], rfl, le_rfl⟩
  | cons a l ih =>
    obtain ⟨ts, hts, hle⟩ := h a (mem_cons_self ..)
    obtain ⟨tss, htss, hrest⟩ := ih fun c hc => h c (mem_cons_of_mem _ hc)
    refine ⟨ts :: tss, ?_, ?_⟩
    · rw [mapM_cons, hts, ok_bind, htss]
      rfl
    · rw [flatten_cons, mass_append, map_cons, sum_cons]
      exact Nat.add_le_add hle hrest

variable [LinearOrder K]

theorem values_sums {l : List (K × U256)} (h : mass l < 2 ^ 256) :
    ((sums l).toList.map fun e => e.2.toNat).sum = mass l := by
  have hvalue : ∀ k v, (sums l)[k]? = some v → v.toNat = sumAt (numbers BitVec.toNat l) k := by
    intro k v hv
    rw [(getElem?_sums_eq_some.mp hv).2]
    exact num_sumAt (modular_bitVec 256) (by rwa [mass_numbers]) k
  have hsum := sum_toList (sums l) (fun _ v => v.toNat) _ hvalue
  rw [hsum, sum_sumAt, mass_numbers]
  intro e he
  obtain ⟨t, ht, rfl⟩ := mem_map.mp he
  rw [mem_dom, mem_sums]
  exact mem_map_of_mem ht

end Mass

theorem toNat_total {m : BTreeMap Address U256} (h : (m.toList.map fun e => e.2.toNat).sum < 2 ^ 256) :
    (total m).toNat = (m.toList.map fun e => e.2.toNat).sum := by
  have hsum : total m = (m.toList.map Prod.snd).sum := by rw [total, sum_eq_foldl]
  have hmap : ((m.toList.map Prod.snd).map BitVec.toNat) = m.toList.map fun e => e.2.toNat := map_map
  rw [hsum, (modular_bitVec 256).num_sum_of_lt (by rwa [hmap]), hmap]

structure Bounded (p : Params) : Prop where
  scale_pos : p.precisionScale ≠ 0
  unaccepted : p.unacceptedMultFp.toNat ≤ p.precisionScale.toNat
  collaborator : p.collaboratorMultFp.toNat ≤ p.precisionScale.toNat
  carveout : p.evaluatorCarveoutBps.toNat ≤ 10000

def RepBounded (rep : BTreeMap Address U256) (p : Params) : Prop :=
  (rep.toList.map fun e => e.2.toNat).sum ≤ p.precisionScale.toNat

theorem sum_rep_le (rep : BTreeMap Address U256) (s : Finset Address) :
    ∑ a ∈ s, (rep.getD a 0).toNat ≤ (rep.toList.map fun e => e.2.toNat).sum := by
  have hall := sum_toList rep (fun _ v => v.toNat) (fun a => (rep.getD a 0).toNat) fun k v hv => by
    rw [getD_eq, hv]
    rfl
  rw [hall]
  refine Finset.sum_le_sum_of_ne_zero fun a _ ha => ?_
  rw [mem_dom]
  by_contra hmem
  rw [getD_eq, not_mem_iff_getElem?.mp hmem] at ha
  exact ha rfl

@[simp]
theorem toNat_ofU64 (x : UInt64) : (ofU64 x).toNat = x.toNat := by
  rw [ofU64, toNat_ofNat, Nat.mod_eq_of_lt (x.toNat_lt.trans (by norm_num))]

theorem ofU64_ne_zero {x : UInt64} (h : 0 < x.toNat) : ofU64 x ≠ 0 := by
  rw [← U256.toNat_pos, toNat_ofU64]
  exact h

section Stage

variable {p : Params} (hp : Bounded p)
include hp

theorem discountOf_le (claims : BTreeMap B256 LiveClaim) (claim : LiveClaim) (a : Address) :
    (discountOf claims p claim a).toNat ≤ p.precisionScale.toNat := by
  unfold discountOf
  split
  · exact hp.collaborator
  · exact le_rfl

theorem consentMultFp_le (state : LiveState) (claim : LiveClaim) (a : Address) :
    (consentMultFp state claim a p).toNat ≤ p.precisionScale.toNat := by
  unfold consentMultFp
  split
  · split
    · exact le_rfl
    · exact Nat.zero_le _
  · split
    · exact le_rfl
    · exact hp.unaccepted

/-- What is left of a rater's reputation for one of its valuations, before the discount. -/
def portion (rep : BTreeMap Address U256) (p : Params) (budgets : BTreeMap Address UInt64)
    (v : EligibleValuation) : ℕ :=
  v.score.toNat * p.precisionScale.toNat / (budgets.getD v.rater 0).toNat * (rep.getD v.rater 0).toNat /
    p.precisionScale.toNat

variable {rep : BTreeMap Address U256} {state : LiveState}

theorem contributionTerm_spec {budgets : BTreeMap Address UInt64}
    {v : EligibleValuation} (hmem : v.rater ∈ budgets) (hscore : v.score.toNat ≤ (budgets.getD v.rater 0).toNat)
    (hdiscount : v.discountFp.toNat ≤ p.precisionScale.toNat) :
    ∃ ts, contributionTerm rep budgets p v = .ok ts ∧ mass ts ≤ portion rep p budgets v := by
  obtain ⟨budget, hget, hindex⟩ := index_of_mem hmem
  have hval : budgets.getD v.rater 0 = budget := by rw [getD_eq, hget]; rfl
  unfold contributionTerm portion
  rw [hindex, ok_bind, hval]
  rw [hval] at hscore
  by_cases h0 : budget = 0
  · rw [if_pos h0]
    exact ⟨[], rfl, Nat.zero_le _⟩
  · have hpos : 0 < budget.toNat := by
      rw [Nat.pos_iff_ne_zero]
      exact fun h => h0 (UInt64.toNat_inj.mp h)
    obtain ⟨sigma, hsigma, esigma⟩ := fpDiv_isSome (a := ofU64 v.score.toUInt64) (b := ofU64 budget)
      (s := p.precisionScale) (ofU64_ne_zero hpos) (by simpa using hscore)
    have esigma : sigma.toNat = v.score.toNat * p.precisionScale.toNat / budget.toNat := by simpa using esigma
    have hsigmaLe : sigma.toNat ≤ p.precisionScale.toNat := by
      rw [esigma]
      exact Nat.div_le_of_le_mul (Nat.mul_le_mul_right _ hscore)
    obtain ⟨part, hpart, epart⟩ := fpMul_isSome (a := rep.getD v.rater 0) hp.scale_pos hsigmaLe
    obtain ⟨contribution, hcontribution, econtribution⟩ := fpMul_isSome (a := part) hp.scale_pos hdiscount
    have hsigma : mulDiv (ofU64 v.score.toUInt64) p.precisionScale (ofU64 budget) = some sigma := hsigma
    rw [if_neg h0, hsigma]
    refine ⟨[(v.claimUid, contribution)], ?_, ?_⟩
    · show (arithmetic (some sigma) >>= _) = _
      simp only [arithmetic, ok_bind, hpart, hcontribution]
    · show contribution.toNat + 0 ≤ _
      rw [Nat.add_zero, econtribution, ← esigma, Nat.mul_comm sigma.toNat, ← epart]
      exact Rounding.part_le hdiscount _

omit hp in
theorem toNat_budgets {elig : Eligibility} (hscore : ∀ v ∈ elig.eligible, v.score ≤ 100)
    (hlen : elig.eligible.length < 2 ^ 57) (a : Address) : ((budgets elig).getD a 0).toNat =
      sumAt (elig.eligible.map fun v => (v.rater, v.score.toNat)) a := by
  have hnumbers : numbers UInt64.toNat (budgetTerms elig.eligible) =
      elig.eligible.map fun v => (v.rater, v.score.toNat) := by
    rw [numbers, budgetTerms, map_map]
    refine map_congr_left fun v _ => ?_
    show (v.rater, v.score.toUInt64.toNat) = _
    simp
  rw [budgets_eq, getD_sums, num_sumAt modular_uint64, hnumbers]
  rw [hnumbers, map_map]
  have hle : (elig.eligible.map fun v => v.score.toNat).sum ≤
      (elig.eligible.map fun v => v.score.toNat).length • 100 := by
    refine sum_le_card_nsmul _ _ fun n hn => ?_
    obtain ⟨v, hv, rfl⟩ := mem_map.mp hn
    exact UInt8.le_iff_toNat_le.mp (hscore v hv)
  rw [length_map, smul_eq_mul] at hle
  show (elig.eligible.map fun v => v.score.toNat).sum < 2 ^ 64
  omega

omit hp in
theorem score_le_budget {elig : Eligibility} (hscore : ∀ v ∈ elig.eligible, v.score ≤ 100)
    (hlen : elig.eligible.length < 2 ^ 57) {v : EligibleValuation} (hv : v ∈ elig.eligible) :
    v.score.toNat ≤ ((budgets elig).getD v.rater 0).toNat := by
  rw [toNat_budgets hscore hlen]
  refine le_sum_of_mem (mem_map.mpr ⟨(v.rater, v.score.toNat), ?_, rfl⟩)
  exact mem_filter.mpr ⟨mem_map.mpr ⟨v, hv, rfl⟩, by simp⟩

omit hp in
theorem sum_portion_le {rep : BTreeMap Address U256} {elig : Eligibility}
    (hscore : ∀ v ∈ elig.eligible, v.score ≤ 100) (hlen : elig.eligible.length < 2 ^ 57) (a : Address) :
    sumAt (elig.eligible.map fun v => (v.rater, portion rep p (budgets elig) v)) a ≤ (rep.getD a 0).toNat := by
  have hbudget := toNat_budgets hscore hlen a
  have hfilter : ∀ g : EligibleValuation → ℕ, sumAt (elig.eligible.map fun v => (v.rater, g v)) a =
      ((elig.eligible.filter fun v => v.rater = a).map g).sum := by
    intro g
    rw [sumAt, filter_map, map_map]
    rfl
  rw [hfilter] at hbudget ⊢
  have hsigma : ((elig.eligible.filter fun v => v.rater = a).map fun v =>
      v.score.toNat * p.precisionScale.toNat / ((budgets elig).getD a 0).toNat).sum ≤
        p.precisionScale.toNat := by
    refine Rounding.sum_split_le ?_ _
    rw [hbudget]
  refine le_trans (le_of_eq ?_) (Rounding.sum_split_le hsigma (rep.getD a 0).toNat)
  refine congrArg List.sum (map_congr_left fun v hv => ?_)
  have hrater : v.rater = a := by simpa using (mem_filter.mp hv).2
  rw [portion, hrater]

theorem contributions_spec {elig : Eligibility}
    (hscore : ∀ v ∈ elig.eligible, v.score ≤ 100) (hlen : elig.eligible.length < 2 ^ 57)
    (hdiscount : ∀ v ∈ elig.eligible, v.discountFp.toNat ≤ p.precisionScale.toNat) (hrep : RepBounded rep p) :
    ∃ cs, elig.eligible.mapM (contributionTerm rep (budgets elig) p) = .ok cs ∧
      mass cs.flatten ≤ p.precisionScale.toNat := by
  obtain ⟨cs, hcs, hle⟩ := mapM_mass (l := elig.eligible) (f := contributionTerm rep (budgets elig) p)
    (b := portion rep p (budgets elig)) fun v hv =>
      contributionTerm_spec hp (rater_mem_budgets hv) (score_le_budget hscore hlen hv) (hdiscount v hv)
  refine ⟨cs, hcs, hle.trans ?_⟩
  -- rater by rater
  have hraters := sum_sumAt (s := (elig.eligible.map EligibleValuation.rater).toFinset)
    (l := elig.eligible.map fun v => (v.rater, portion rep p (budgets elig) v)) fun e he => by
      obtain ⟨v, hv, rfl⟩ := mem_map.mp he
      exact mem_toFinset.mpr (mem_map_of_mem hv)
  rw [map_map] at hraters
  have hmap : (elig.eligible.map (portion rep p (budgets elig))).sum = _ := hraters.symm
  rw [hmap]
  calc ∑ a ∈ _, sumAt _ a
      ≤ ∑ a ∈ (elig.eligible.map EligibleValuation.rater).toFinset, (rep.getD a 0).toNat :=
        Finset.sum_le_sum fun a _ => sum_portion_le hscore hlen a
    _ ≤ (rep.toList.map fun e => e.2.toNat).sum := sum_rep_le rep _
    _ ≤ p.precisionScale.toNat := hrep

theorem shareTerm_spec {claim : LiveClaim} (hclaim : claim.Sound) (score : U256)
    {e : Address × UInt64} (he : e ∈ claim.shares.toList) :
    ∃ ts, shareTerm state p claim score e = .ok ts ∧
      mass ts ≤ e.2.toNat * p.precisionScale.toNat / claim.totalShares.toNat * score.toNat /
        p.precisionScale.toNat := by
  have hle : e.2.toNat ≤ claim.totalShares.toNat := by
    rw [hclaim.total_eq]
    exact le_sum_of_mem (mem_map_of_mem (f := fun e : Address × UInt64 => e.2.toNat) he)
  obtain ⟨attrib, hattrib, eattrib⟩ := fpDiv_isSome (a := ofU64 e.2) (b := ofU64 claim.totalShares)
    (s := p.precisionScale) (ofU64_ne_zero hclaim.total_pos) (by simpa using hle)
  have eattrib : attrib.toNat = e.2.toNat * p.precisionScale.toNat / claim.totalShares.toNat := by
    simpa using eattrib
  have hattribLe : attrib.toNat ≤ p.precisionScale.toNat := by
    rw [eattrib]
    exact Nat.div_le_of_le_mul (Nat.mul_le_mul_right _ hle)
  obtain ⟨part, hpart, epart⟩ := fpMul_isSome (a := score) hp.scale_pos hattribLe
  obtain ⟨w, hw, ew⟩ := fpMul_isSome (a := part) hp.scale_pos (consentMultFp_le hp state claim e.1)
  have hattrib : mulDiv (ofU64 e.2) p.precisionScale (ofU64 claim.totalShares) = some attrib := hattrib
  refine ⟨if w ≠ 0 then [(e.1, w)] else [], ?_, ?_⟩
  · unfold shareTerm
    simp only [hattrib, arithmetic, ok_bind, hpart, hw]
  · rw [mass_ite, ew, ← eattrib, Nat.mul_comm attrib.toNat, ← epart]
    exact Rounding.part_le (consentMultFp_le hp state claim e.1) _

theorem claimTerm_spec (hclosed : state.Closed) {e : B256 × U256} (he : e.1 ∈ state.claims) :
    ∃ ts, claimTerm state p e = .ok ts ∧ mass ts ≤ e.2.toNat := by
  unfold claimTerm
  obtain ⟨claim, hget, hindex⟩ := index_of_mem he
  by_cases h0 : e.2 = 0
  · rw [if_pos h0]
    exact ⟨[], rfl, Nat.zero_le _⟩
  · have hsound := (hclosed.sound _ _ hget).1
    obtain ⟨tss, htss, hle⟩ := mapM_mass fun a ha => @shareTerm_spec p hp state claim hsound e.2 a ha
    rw [if_neg h0, hindex, ok_bind, htss, ok_bind]
    refine ⟨tss.flatten, rfl, hle.trans ?_⟩
    refine Rounding.sum_split_le (f := fun a : Address × UInt64 =>
      a.2.toNat * p.precisionScale.toNat / claim.totalShares.toNat) ?_ _
    refine Rounding.sum_split_le (f := fun a : Address × UInt64 => a.2.toNat) ?_ _
    rw [hsound.total_eq]

theorem betaFp_spec : ∃ beta, betaFp p = .ok beta ∧ beta.toNat ≤ p.precisionScale.toNat := by
  have hten : (10000 : U256).toNat = 10000 := rfl
  have hbps : (BitVec.ofNat 256 p.evaluatorCarveoutBps.toNat : U256).toNat = p.evaluatorCarveoutBps.toNat := by
    rw [toNat_ofNat, Nat.mod_eq_of_lt]
    exact lt_of_le_of_lt hp.carveout (by norm_num)
  obtain ⟨raw, hraw, eraw⟩ := Checked.mulDiv_isSome (a := p.precisionScale)
    (b := BitVec.ofNat 256 p.evaluatorCarveoutBps.toNat) (d := (10000 : U256)) (by decide) (by
      rw [hten, hbps]
      refine lt_of_le_of_lt ?_ p.precisionScale.isLt
      exact Rounding.part_le hp.carveout _)
  have hle : raw.toNat ≤ p.precisionScale.toNat := by
    rw [eraw, hten, hbps]
    exact Rounding.part_le hp.carveout _
  refine ⟨raw, ?_, hle⟩
  have hraw : mulDiv p.precisionScale (BitVec.ofNat 256 p.evaluatorCarveoutBps.toNat) 10000 = some raw := hraw
  unfold betaFp
  rw [hraw]
  show Except.ok (if p.precisionScale < raw then p.precisionScale else raw) = .ok raw
  rw [if_neg]
  rw [BitVec.not_lt, le_def]
  exact hle

omit hp in
theorem sideTerm_spec {side tot : U256} {e : Address × U256} (htot : tot ≠ 0) (hle : e.2.toNat ≤ tot.toNat) :
    ∃ ts, sideTerm side tot e = .ok ts ∧ mass ts ≤ e.2.toNat * side.toNat / tot.toNat := by
  obtain ⟨share, hshare, eshare⟩ := fpDiv_isSome (a := e.2) (b := tot) (s := side) htot hle
  have hshare : mulDiv e.2 side tot = some share := hshare
  refine ⟨if share ≠ 0 then [(e.1, share)] else [], ?_, ?_⟩
  · unfold sideTerm
    rw [hshare]
    rfl
  · rw [mass_ite, eshare]

omit hp in
theorem mapM_sideTerm {m : BTreeMap Address U256} (side : U256) (htot : total m ≠ 0)
    (hfits : (m.toList.map fun e => e.2.toNat).sum < 2 ^ 256) :
    ∃ tss, m.toList.mapM (sideTerm side (total m)) = .ok tss ∧ mass tss.flatten ≤ side.toNat := by
  have htotal := toNat_total hfits
  obtain ⟨tss, htss, hle⟩ := mapM_mass (l := m.toList) (f := sideTerm side (total m)) fun e he => by
    refine @sideTerm_spec side _ e htot ?_
    rw [htotal]
    exact le_sum_of_mem (mem_map_of_mem (f := fun e : Address × U256 => e.2.toNat) he)
  refine ⟨tss, htss, hle.trans ?_⟩
  refine Rounding.sum_split_le (f := fun e : Address × U256 => e.2.toNat) ?_ _
  rw [htotal]

omit hp in
theorem contributorSide_spec {m : BTreeMap Address U256} (side : U256)
    (hfits : (m.toList.map fun e => e.2.toNat).sum < 2 ^ 256) :
    ∃ ts, contributorSide m side = .ok ts ∧ mass ts ≤ side.toNat := by
  unfold contributorSide
  by_cases h0 : total m = 0
  · rw [if_pos h0]
    exact ⟨[], rfl, Nat.zero_le _⟩
  · obtain ⟨tss, htss, hle⟩ := mapM_sideTerm side h0 hfits
    rw [if_neg h0, htss]
    exact ⟨tss.flatten, rfl, hle⟩

omit hp in
theorem evaluatorSide_spec {m : BTreeMap Address U256} (beta : U256)
    (hfits : (m.toList.map fun e => e.2.toNat).sum < 2 ^ 256) :
    ∃ ts, evaluatorSide m beta = .ok ts ∧ mass ts ≤ beta.toNat := by
  unfold evaluatorSide
  by_cases h0 : beta = 0 ∨ total m = 0
  · rw [if_pos h0]
    exact ⟨[], rfl, Nat.zero_le _⟩
  · obtain ⟨tss, htss, hle⟩ := mapM_sideTerm beta (not_or.mp h0).2 hfits
    rw [if_neg h0, htss]
    exact ⟨tss.flatten, rfl, hle⟩

omit hp in
theorem sum_participantRep_le (rep : BTreeMap Address U256) (elig : Eligibility) :
    ((participantRep rep elig).toList.map fun e => e.2.toNat).sum ≤ (rep.toList.map fun e => e.2.toNat).sum := by
  have hvalue : ∀ a v, (participantRep rep elig)[a]? = some v → v.toNat = (rep.getD a 0).toNat := by
    intro a v hv
    rw [participantRep, BTreeMap.getElem?_tabulate] at hv
    split at hv
    · rw [← Option.some_inj.mp hv]
    · exact absurd hv (by simp)
  have hsum := sum_toList (participantRep rep elig) (fun _ v => v.toNat) _ hvalue
  rw [hsum]
  exact sum_rep_le rep _

/-- What a run of the second stage adds, and within which limits. -/
structure Terms.Within (t : Terms) (rep : BTreeMap Address U256) (elig : Eligibility) (p : Params) : Prop where
  contributions : mass t.contributions ≤ p.precisionScale.toNat
  shares : mass t.shares ≤ mass t.contributions
  beta : t.beta.toNat ≤ p.precisionScale.toNat
  contributors : mass t.contributors ≤ p.precisionScale.toNat - t.beta.toNat
  evaluators : mass t.evaluators ≤ t.beta.toNat
  participants : ((participantRep rep elig).toList.map fun e => e.2.toNat).sum ≤ p.precisionScale.toNat

/-- The second stage does not panic and stays within the scale. -/
theorem terms_within {elig : Eligibility}
    (hclosed : state.Closed) (helig : elig.eligible = eligibles state rep p)
    (hlen : elig.eligible.length < 2 ^ 57) (hrep : RepBounded rep p) :
      ∃ t, terms state rep elig p = .ok t ∧ t.Within rep elig p := by
  have heligible : ∀ v ∈ elig.eligible, v.claimUid ∈ state.claims ∧ v.score ≤ 100 := by
    intro v hv
    rw [helig] at hv
    exact hclosed.eligible hv
  have hdiscount : ∀ v ∈ elig.eligible, v.discountFp.toNat ≤ p.precisionScale.toNat := by
    intro v hv
    rw [helig] at hv
    obtain ⟨-, claim, -, -, heq⟩ := mem_eligibles.mp hv
    rw [heq]
    exact discountOf_le hp _ claim v.rater
  obtain ⟨cs, hcs, hmass⟩ := contributions_spec hp (fun v hv => (heligible v hv).2) hlen hdiscount hrep
  have hlt := p.precisionScale.isLt
  have hscores := values_sums (l := cs.flatten) (lt_of_le_of_lt hmass hlt)
  obtain ⟨ws, hws, hshares⟩ := mapM_mass (l := (sums cs.flatten).toList) (f := claimTerm state p)
    fun e he => by
      refine claimTerm_spec hp hclosed ?_
      have hmem : e.1 ∈ sums cs.flatten := mem_iff_getElem?.mpr ⟨e.2, mem_toList.mp he⟩
      obtain ⟨v, hv, hclaim⟩ := scored_claim hcs hmem
      rw [← hclaim]
      exact (heligible v hv).1
  rw [hscores] at hshares
  have hweights := values_sums (l := ws.flatten) (lt_of_le_of_lt (hshares.trans hmass) hlt)
  obtain ⟨beta, hbeta, hbetaLe⟩ := betaFp_spec hp
  have hminus : (p.precisionScale - beta).toNat = p.precisionScale.toNat - beta.toNat :=
    toNat_sub_of_le (le_def.mpr hbetaLe)
  obtain ⟨ks, hks, hksLe⟩ := contributorSide_spec (m := sums ws.flatten) (p.precisionScale - beta)
    (by rw [hweights]; exact lt_of_le_of_lt (hshares.trans hmass) hlt)
  have hparticipants := (sum_participantRep_le rep elig).trans hrep
  obtain ⟨rs, hrs, hrsLe⟩ := evaluatorSide_spec (m := participantRep rep elig) beta
    (lt_of_le_of_lt hparticipants hlt)
  refine ⟨⟨cs.flatten, ws.flatten, beta, ks, rs⟩, ?_, hmass, hshares, hbetaLe, ?_, hrsLe, hparticipants⟩
  · unfold terms
    rw [hcs, ok_bind, hws, ok_bind, hbeta, ok_bind, hks, ok_bind, hrs]
    rfl
  · rwa [hminus] at hksLe

end Stage

end Trustgraphs.Contributions
