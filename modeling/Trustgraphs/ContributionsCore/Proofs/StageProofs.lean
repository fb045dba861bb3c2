import Trustgraphs.ContributionsCore.Proofs.ReconcileProofs
import Trustgraphs.Lib.Related

/-!
# Proofs: the stages as terms and sums

What a stage adds to its maps does not depend on what it has added before. Each loop is therefore a list
of terms, and its map the sums of these; the lemmas say what the terms are and when they exist.
-/

namespace Trustgraphs.Contributions

open LastWrite Outcome Option BTreeMap List

theorem arithmetic_eq_ok {α : Type} {x : Option α} {a : α} : arithmetic x = .ok a ↔ x = some a := by
  cases x <;> simp [arithmetic]

theorem arithmetic_ne_noEntry {α : Type} (x : Option α) : arithmetic x ≠ .error .noEntry := by
  cases x <;> simp [arithmetic]

theorem index_eq_ok {K V : Type} [LinearOrder K] {m : BTreeMap K V} {k : K} {v : V} :
    index m k = .ok v ↔ m[k]? = some v := by
  unfold index
  cases m[k]? <;> simp

theorem index_of_mem {K V : Type} [LinearOrder K] {m : BTreeMap K V} {k : K} (h : k ∈ m) :
    ∃ v, m[k]? = some v ∧ index m k = .ok v := by
  obtain ⟨v, hv⟩ := mem_iff_getElem?.mp h
  exact ⟨v, hv, index_eq_ok.mpr hv⟩

/-- Every valuation is of a live claim, and the shares of a claim add up. -/
structure LiveState.Closed (state : LiveState) : Prop where
  sound : ∀ (c : B256) (claim : LiveClaim), state.claims[c]? = some claim → claim.Sound ∧ claim.uid = c
  valuation : ∀ c a v, state.valuations[actorKey c a]? = some v → c ∈ state.claims
  score_le : ∀ (k : ActorKey) (v : UInt8), state.valuations[k]? = some v → v ≤ 100

def verdict (rep : BTreeMap Address U256) (p : Params) (claim : LiveClaim) (rater : Address) :
    Option SkipReason :=
  if claim.shares.contains rater || rater == claim.attester then some .selfValuation
  else if rep.getD rater 0 < p.minRaterRepFp then some .belowMinRep
  else none

def discountOf (claims : BTreeMap B256 LiveClaim) (p : Params) (claim : LiveClaim) (rater : Address) : U256 :=
  if conflicted (coClaim claims) rater claim then p.collaboratorMultFp else p.precisionScale

def eligibleOf (claims : BTreeMap B256 LiveClaim) (rep : BTreeMap Address U256) (p : Params) (k : ActorKey)
    (score : UInt8) : Option EligibleValuation :=
  (claims[(ofLex k).1]?).bind fun claim =>
    match verdict rep p claim (ofLex k).2 with
    | none => some ⟨(ofLex k).1, (ofLex k).2, score, discountOf claims p claim (ofLex k).2⟩
    | some _ => none

def skippedOf (claims : BTreeMap B256 LiveClaim) (rep : BTreeMap Address U256) (p : Params) (k : ActorKey) :
    Option (B256 × Address × SkipReason) :=
  (claims[(ofLex k).1]?).bind fun claim =>
    (verdict rep p claim (ofLex k).2).map fun reason => ((ofLex k).1, (ofLex k).2, reason)

section Eligible

variable {state : LiveState} {rep : BTreeMap Address U256} {p : Params}

def eligibles (state : LiveState) (rep : BTreeMap Address U256) (p : Params) : List EligibleValuation :=
  state.valuations.toList.filterMap fun e => eligibleOf state.claims rep p e.1 e.2

def skips (state : LiveState) (rep : BTreeMap Address U256) (p : Params) : List (B256 × Address × SkipReason) :=
  state.valuations.toList.filterMap fun e => skippedOf state.claims rep p e.1

theorem eligibilityStep_eq {e : ActorKey × UInt8} (he : (ofLex e.1).1 ∈ state.claims) (out : Eligibility) :
    eligibilityStep state rep p (coClaim state.claims) out e = .ok {
      eligible := out.eligible ++ (eligibleOf state.claims rep p e.1 e.2).toList
      skipped := out.skipped ++ (skippedOf state.claims rep p e.1).toList
      participants := (eligibleOf state.claims rep p e.1 e.2).toList.foldl
        (fun s v => s.insert v.rater) out.participants } := by
  obtain ⟨claim, hclaim, hindex⟩ := index_of_mem he
  unfold eligibilityStep eligibleOf skippedOf verdict discountOf
  dsimp only
  rw [hindex, ok_bind, hclaim, bind_some, bind_some]
  by_cases hself : (claim.shares.contains (ofLex e.1).2 || (ofLex e.1).2 == claim.attester) = true
  · rw [if_pos hself, if_pos hself]
    simp
  · rw [if_neg hself, if_neg hself]
    by_cases hrep : rep.getD (ofLex e.1).2 0 < p.minRaterRepFp
    · rw [if_pos hrep, if_pos hrep]
      simp
    · rw [if_neg hrep, if_neg hrep]
      simp

theorem foldlM_eligibilityStep {l : List (ActorKey × UInt8)} (hl : ∀ e ∈ l, (ofLex e.1).1 ∈ state.claims)
    (out : Eligibility) : l.foldlM (eligibilityStep state rep p (coClaim state.claims)) out = .ok {
      eligible := out.eligible ++ l.filterMap fun e => eligibleOf state.claims rep p e.1 e.2
      skipped := out.skipped ++ l.filterMap fun e => skippedOf state.claims rep p e.1
      participants := (l.filterMap fun e => eligibleOf state.claims rep p e.1 e.2).foldl
        (fun s v => s.insert v.rater) out.participants } := by
  induction l generalizing out with
  | nil => simp [pure, Except.pure]
  | cons e l ih =>
    rw [foldlM_cons, eligibilityStep_eq (hl e (mem_cons_self ..)), ok_bind,
      ih fun a ha => hl a (mem_cons_of_mem _ ha)]
    cases he : eligibleOf state.claims rep p e.1 e.2 <;> cases hs : skippedOf state.claims rep p e.1 <;>
      simp [he, hs]

theorem eligibility_eq (h : state.Closed) : eligibility state rep p = .ok {
    eligible := eligibles state rep p
    skipped := skips state rep p
    participants := (eligibles state rep p).foldl (fun s v => s.insert v.rater) ∅ } := by
  unfold eligibility
  dsimp only
  rw [foldlM_eligibilityStep]
  · rfl
  · rintro ⟨k, v⟩ he
    exact h.valuation _ (ofLex k).2 v (mem_toList.mp he)

theorem mem_foldl_raters {l : List EligibleValuation} {s : BTreeSet Address} {a : Address} :
    a ∈ l.foldl (fun s v => s.insert v.rater) s ↔ a ∈ s ∨ ∃ v ∈ l, v.rater = a := by
  induction l generalizing s with
  | nil => simp
  | cons v l ih =>
    rw [foldl_cons, ih, Std.ExtTreeSet.mem_insert, compare_eq_iff_eq]
    simp only [mem_cons, exists_eq_or_imp]
    tauto

theorem eligibleOf_eq_some {claims : BTreeMap B256 LiveClaim} {k : ActorKey} {score : UInt8}
    {v : EligibleValuation} : eligibleOf claims rep p k score = some v ↔
      ∃ claim, claims[(ofLex k).1]? = some claim ∧ verdict rep p claim (ofLex k).2 = none ∧
        v = ⟨(ofLex k).1, (ofLex k).2, score, discountOf claims p claim (ofLex k).2⟩ := by
  unfold eligibleOf
  rw [bind_eq_some_iff]
  refine exists_congr fun claim => and_congr_right fun _ => ?_
  cases verdict rep p claim (ofLex k).2 with
  | some _ => simp
  | none => simp [eq_comm]

theorem mem_eligibles {v : EligibleValuation} : v ∈ eligibles state rep p ↔
    state.valuations[actorKey v.claimUid v.rater]? = some v.score ∧
      ∃ claim, state.claims[v.claimUid]? = some claim ∧ verdict rep p claim v.rater = none ∧
        v.discountFp = discountOf state.claims p claim v.rater := by
  rw [eligibles, mem_filterMap]
  constructor
  · rintro ⟨⟨k, score⟩, he, hv⟩
    obtain ⟨claim, hclaim, hverdict, rfl⟩ := eligibleOf_eq_some.mp hv
    exact ⟨mem_toList.mp he, claim, hclaim, hverdict, rfl⟩
  · rintro ⟨hval, claim, hclaim, hverdict, hdisc⟩
    refine ⟨(actorKey v.claimUid v.rater, v.score), mem_toList.mpr hval, ?_⟩
    refine eligibleOf_eq_some.mpr ⟨claim, hclaim, hverdict, ?_⟩
    obtain ⟨c, a, s, d⟩ := v
    show (⟨c, a, s, d⟩ : EligibleValuation) = ⟨c, a, s, _⟩
    rw [show d = _ from hdisc]
    rfl

end Eligible

theorem claims_sound (records : List RawEdge) (p : Params) {uid : B256} {claim : LiveClaim}
    (h : (reconcile records p).claims[uid]? = some claim) : claim.Sound ∧ claim.uid = uid := by
  rw [reconcile_claims, getElem?_writes] at h
  obtain ⟨r, -, hr⟩ := mem_filterMap.mp (mem_of_getLast? h)
  have hwrite := valueAt_eq_some.mp hr
  unfold claimWrite at hwrite
  split at hwrite
  · exact absurd hwrite (by simp)
  · obtain ⟨payload, hpayload, hwrite⟩ := map_eq_some_iff.mp hwrite
    obtain ⟨huid, rfl⟩ := Prod.mk.inj hwrite
    exact ⟨liveClaim_sound (decodeClaim_sound hpayload), huid⟩

theorem closed_reconcile (records : List RawEdge) (p : Params) : (reconcile records p).Closed where
  sound := fun _ _ => claims_sound records p
  valuation := by
    intro c a v hv
    rw [reconcile_valuations, getElem?_writes] at hv
    obtain ⟨r, -, hr⟩ := mem_filterMap.mp (mem_of_getLast? hv)
    have hwrite := valueAt_eq_some.mp hr
    unfold valuationWrite at hwrite
    split at hwrite
    · exact absurd hwrite (by simp)
    · obtain ⟨payload, -, hwrite⟩ := bind_eq_some_iff.mp hwrite
      split at hwrite
      · rename_i hmem
        have hkey := (Prod.mk.inj (Option.some.inj hwrite)).1
        rw [show c = payload.claimUid from (congrArg (fun k => (ofLex k).1) hkey).symm]
        exact hmem
      · exact absurd hwrite (by simp)
  score_le := by
    intro k v hv
    rw [reconcile_valuations, getElem?_writes] at hv
    obtain ⟨r, -, hr⟩ := mem_filterMap.mp (mem_of_getLast? hv)
    have hwrite := valueAt_eq_some.mp hr
    unfold valuationWrite at hwrite
    split at hwrite
    · exact absurd hwrite (by simp)
    · obtain ⟨payload, hpayload, hwrite⟩ := bind_eq_some_iff.mp hwrite
      split at hwrite
      · rw [← (Prod.mk.inj (Option.some.inj hwrite)).2]
        unfold decodeValuation at hpayload
        obtain ⟨_, -, hpayload⟩ := bind_eq_some_iff.mp hpayload
        obtain ⟨_, -, hpayload⟩ := bind_eq_some_iff.mp hpayload
        obtain ⟨score, -, hpayload⟩ := bind_eq_some_iff.mp hpayload
        split at hpayload
        · exact absurd hpayload (by simp)
        · rename_i hle
          rw [← Option.some.inj hpayload]
          exact UInt8.not_lt.mp hle
      · exact absurd hwrite (by simp)

theorem LiveState.Closed.eligible {state : LiveState} (h : state.Closed) {rep : BTreeMap Address U256}
    {p : Params} {v : EligibleValuation} (hv : v ∈ eligibles state rep p) :
    v.claimUid ∈ state.claims ∧ v.score ≤ 100 := by
  obtain ⟨hval, -⟩ := mem_eligibles.mp hv
  exact ⟨h.valuation _ _ _ hval, h.score_le _ _ hval⟩

end Trustgraphs.Contributions

/-!
# Proofs: the second stage as terms and sums

The claim scores, the contributor weights and the combined weights are sums of terms, and a term is a
product of fractions of the scale. A map is only indexed with keys that it has.
-/

namespace Trustgraphs.Contributions

open Outcome Tally List

def budgetTerms (l : List EligibleValuation) : List (Address × UInt64) :=
  l.map fun v => (v.rater, v.score.toUInt64)

theorem budgets_eq (elig : Eligibility) : budgets elig = sums (budgetTerms elig.eligible) := by
  rw [budgets, sums, addAll, budgetTerms, foldl_map]

def contributionTerm (rep : BTreeMap Address U256) (budgets : BTreeMap Address UInt64) (p : Params)
    (v : EligibleValuation) : Except Panic (List (B256 × U256)) := do
  let budget ← index budgets v.rater
  if budget = 0 then .ok []
  else
    let sigma ← arithmetic (mulDiv (ofU64 v.score.toUInt64) p.precisionScale (ofU64 budget))
    let part ← arithmetic (fpMul (rep.getD v.rater 0) sigma p.precisionScale)
    let contribution ← arithmetic (fpMul part v.discountFp p.precisionScale)
    .ok [(v.claimUid, contribution)]

/-- What a claim's score adds to one of its contributors. -/
def shareTerm (state : LiveState) (p : Params) (claim : LiveClaim) (score : U256) (e : Address × UInt64) :
    Except Panic (List (Address × U256)) := do
  let attrib ← arithmetic (mulDiv (ofU64 e.2) p.precisionScale (ofU64 claim.totalShares))
  let part ← arithmetic (fpMul score attrib p.precisionScale)
  let w ← arithmetic (fpMul part (consentMultFp state claim e.1 p) p.precisionScale)
  .ok (if w ≠ 0 then [(e.1, w)] else [])

def claimTerm (state : LiveState) (p : Params) (e : B256 × U256) : Except Panic (List (Address × U256)) :=
  if e.2 = 0 then .ok []
  else do
    let claim ← index state.claims e.1
    let terms ← claim.shares.toList.mapM (shareTerm state p claim e.2)
    .ok terms.flatten

def sideTerm (side total : U256) (e : Address × U256) : Except Panic (List (Address × U256)) := do
  let share ← arithmetic (mulDiv e.2 side total)
  .ok (if share ≠ 0 then [(e.1, share)] else [])

theorem addContribution_eq (rep : BTreeMap Address U256) (budgets : BTreeMap Address UInt64) (p : Params)
    (v : EligibleValuation) (m : BTreeMap B256 U256) :
    addContribution rep budgets p m v = (contributionTerm rep budgets p v).map (addAll m) := by
  unfold addContribution contributionTerm
  cases index budgets v.rater with
  | error e => rfl
  | ok budget =>
    dsimp only
    rw [ok_bind, ok_bind]
    by_cases h0 : budget = 0
    · rw [if_pos h0, if_pos h0]
      rfl
    · rw [if_neg h0, if_neg h0]
      cases arithmetic (mulDiv (ofU64 v.score.toUInt64) p.precisionScale (ofU64 budget)) with
      | error e => rfl
      | ok sigma =>
        rw [ok_bind, ok_bind]
        cases arithmetic (fpMul (rep.getD v.rater 0) sigma p.precisionScale) with
        | error e => rfl
        | ok part =>
          rw [ok_bind, ok_bind]
          cases arithmetic (fpMul part v.discountFp p.precisionScale) <;> rfl

theorem addShare_eq (state : LiveState) (p : Params) (claim : LiveClaim) (score : U256)
    (e : Address × UInt64) (m : BTreeMap Address U256) :
    addShare state p claim score m e = (shareTerm state p claim score e).map (addAll m) := by
  unfold addShare shareTerm
  dsimp only
  cases arithmetic (mulDiv (ofU64 e.2) p.precisionScale (ofU64 claim.totalShares)) with
  | error e => rfl
  | ok attrib =>
    rw [ok_bind, ok_bind]
    cases arithmetic (fpMul score attrib p.precisionScale) with
    | error e => rfl
    | ok part =>
      rw [ok_bind, ok_bind]
      cases arithmetic (fpMul part (consentMultFp state claim e.1 p) p.precisionScale) with
      | error e => rfl
      | ok w =>
        rw [ok_bind, ok_bind]
        by_cases h0 : w ≠ 0
        · rw [if_pos h0, if_pos h0]
          rfl
        · rw [if_neg h0, if_neg h0]
          rfl

theorem addClaim_eq (state : LiveState) (p : Params) (e : B256 × U256) (m : BTreeMap Address U256) :
    addClaim state p m e = (claimTerm state p e).map (addAll m) := by
  unfold addClaim claimTerm
  by_cases h0 : e.2 = 0
  · rw [if_pos h0, if_pos h0]
    rfl
  · rw [if_neg h0, if_neg h0]
    cases index state.claims e.1 with
    | error e => rfl
    | ok claim =>
      rw [ok_bind, ok_bind, foldlM_eq_mapM fun a _ m => addShare_eq state p claim e.2 a m]
      cases claim.shares.toList.mapM (shareTerm state p claim e.2) <;> rfl

theorem addSide_eq (side total : U256) (e : Address × U256) (m : BTreeMap Address U256) :
    addSide side total m e = (sideTerm side total e).map (addAll m) := by
  unfold addSide sideTerm
  cases arithmetic (mulDiv e.2 side total) with
  | error e => rfl
  | ok share =>
    rw [ok_bind, ok_bind]
    by_cases h0 : share ≠ 0
    · rw [if_pos h0, if_pos h0]
      rfl
    · rw [if_neg h0, if_neg h0]
      rfl

def contributorSide (weights : BTreeMap Address U256) (oneMinusBetaFp : U256) :
    Except Panic (List (Address × U256)) :=
  if total weights = 0 then .ok []
  else (weights.toList.mapM (sideTerm oneMinusBetaFp (total weights))).map List.flatten

def evaluatorSide (participantRep : BTreeMap Address U256) (betaFp : U256) :
    Except Panic (List (Address × U256)) :=
  if betaFp = 0 ∨ total participantRep = 0 then .ok []
  else (participantRep.toList.mapM (sideTerm betaFp (total participantRep))).map List.flatten

structure Terms where
  contributions : List (B256 × U256)
  shares : List (Address × U256)
  beta : U256
  contributors : List (Address × U256)
  evaluators : List (Address × U256)

def Terms.result (t : Terms) : Stage2 where
  claimScores := sums t.contributions
  contributorWeights := sums t.shares
  combinedWeights := sums (t.contributors ++ t.evaluators)

def terms (state : LiveState) (rep : BTreeMap Address U256) (elig : Eligibility) (p : Params) :
    Except Panic Terms := do
  let contributions ← elig.eligible.mapM (contributionTerm rep (budgets elig) p)
  let shares ← (sums contributions.flatten).toList.mapM (claimTerm state p)
  let beta ← betaFp p
  let contributors ← contributorSide (sums shares.flatten) (p.precisionScale - beta)
  let evaluators ← evaluatorSide (participantRep rep elig) beta
  .ok ⟨contributions.flatten, shares.flatten, beta, contributors, evaluators⟩

theorem stage2_eq (state : LiveState) (rep : BTreeMap Address U256) (elig : Eligibility) (p : Params) :
    stage2 state rep elig p = (terms state rep elig p).map Terms.result := by
  unfold stage2 terms
  dsimp only
  rw [foldlM_eq_mapM fun a _ m => addContribution_eq rep (budgets elig) p a m]
  cases elig.eligible.mapM (contributionTerm rep (budgets elig) p) with
  | error e => rfl
  | ok cs =>
    show ((sums cs.flatten).toList.foldlM (addClaim state p) ∅ >>= _) = _
    rw [foldlM_eq_mapM fun a _ m => addClaim_eq state p a m, ok_bind]
    cases (sums cs.flatten).toList.mapM (claimTerm state p) with
    | error e => rfl
    | ok ws =>
      rw [ok_bind]
      show (betaFp p >>= _) = _
      cases betaFp p with
      | error e => rfl
      | ok beta =>
        simp only [ok_bind]
        unfold contributorSide evaluatorSide
        have hloop : ∀ (side tot : U256) (l : List (Address × U256)) (m : BTreeMap Address U256),
            l.foldlM (addSide side tot) m = (l.mapM (sideTerm side tot)).map fun ts =>
              addAll m ts.flatten :=
          fun side tot l m => foldlM_eq_mapM (fun a _ m => addSide_eq side tot a m) m
        simp only [hloop]
        have hsums : addAll (∅ : BTreeMap Address U256) ws.flatten = sums ws.flatten := rfl
        rw [hsums]
        by_cases hp : total (sums ws.flatten) = 0
        · by_cases hr : beta = 0 ∨ total (participantRep rep elig) = 0
          · simp only [if_pos hp, if_pos hr, ok_bind]
            rfl
          · simp only [if_pos hp, if_neg hr, ok_bind]
            cases (participantRep rep elig).toList.mapM (sideTerm beta (total (participantRep rep elig))) <;> rfl
        · simp only [if_neg hp]
          cases (sums ws.flatten).toList.mapM
              (sideTerm (p.precisionScale - beta) (total (sums ws.flatten))) with
          | error e => rfl
          | ok ks =>
            simp only [Except.map, ok_bind]
            by_cases hr : beta = 0 ∨ total (participantRep rep elig) = 0
            · simp only [if_pos hr, ok_bind, Terms.result, append_nil]
              rfl
            · simp only [if_neg hr]
              cases (participantRep rep elig).toList.mapM (sideTerm beta (total (participantRep rep elig))) with
              | error e => rfl
              | ok rs => simp only [ok_bind, Terms.result, sums, addAll_append]

variable {α β : Type} {elig : Eligibility} {v : EligibleValuation} {rep : BTreeMap Address U256}
  {p : Params}

theorem bind_ne_noEntry {x : Except Panic α} {f : α → Except Panic β}
    (hx : x ≠ .error .noEntry) (hf : ∀ a, x = .ok a → f a ≠ .error .noEntry) :
    (x >>= f) ≠ .error .noEntry := by
  intro h
  rcases bind_eq_error.mp h with h | ⟨a, ha, h⟩
  · exact hx h
  · exact hf a ha h

theorem mapM_ne_noEntry {f : α → Except Panic β} {l : List α}
    (h : ∀ a ∈ l, f a ≠ .error .noEntry) : l.mapM f ≠ .error .noEntry := by
  intro herr
  obtain ⟨a, ha, hfails⟩ := exists_of_mapM_eq_error herr
  exact h a ha hfails

theorem map_ne_noEntry {x : Except Panic α} {f : α → β} (h : x ≠ .error .noEntry) :
    x.map f ≠ .error .noEntry := fun herr => h (map_eq_error.mp herr)

theorem rater_mem_budgets (hv : v ∈ elig.eligible) : v.rater ∈ budgets elig := by
  rw [budgets_eq, mem_sums, budgetTerms, map_map]
  exact mem_map_of_mem (f := EligibleValuation.rater) hv

theorem contributionTerm_ne_noEntry (hv : v ∈ elig.eligible) :
    contributionTerm rep (budgets elig) p v ≠ .error .noEntry := by
  obtain ⟨budget, -, hbudget⟩ := index_of_mem (rater_mem_budgets hv)
  refine bind_ne_noEntry (by rw [hbudget]; simp) fun b _ => ?_
  by_cases h0 : b = 0
  · rw [if_pos h0]
    simp
  · rw [if_neg h0]
    refine bind_ne_noEntry (arithmetic_ne_noEntry _) fun _ _ => ?_
    refine bind_ne_noEntry (arithmetic_ne_noEntry _) fun _ _ => ?_
    exact bind_ne_noEntry (arithmetic_ne_noEntry _) fun _ _ => by simp

theorem shareTerm_ne_noEntry (state : LiveState) (p : Params) (claim : LiveClaim) (score : U256)
    (e : Address × UInt64) : shareTerm state p claim score e ≠ .error .noEntry := by
  refine bind_ne_noEntry (arithmetic_ne_noEntry _) fun _ _ => ?_
  refine bind_ne_noEntry (arithmetic_ne_noEntry _) fun _ _ => ?_
  exact bind_ne_noEntry (arithmetic_ne_noEntry _) fun _ _ => by simp

theorem sideTerm_ne_noEntry (side tot : U256) (e : Address × U256) : sideTerm side tot e ≠ .error .noEntry :=
  bind_ne_noEntry (arithmetic_ne_noEntry _) fun _ _ => by simp

theorem claimTerm_ne_noEntry {state : LiveState} {e : B256 × U256} (h : e.1 ∈ state.claims) :
    claimTerm state p e ≠ .error .noEntry := by
  unfold claimTerm
  obtain ⟨claim, -, hclaim⟩ := index_of_mem h
  by_cases h0 : e.2 = 0
  · rw [if_pos h0]
    simp
  · rw [if_neg h0, hclaim, ok_bind]
    refine bind_ne_noEntry (mapM_ne_noEntry fun a _ => shareTerm_ne_noEntry _ _ _ _ _) fun _ _ => by simp

theorem mem_of_contributionTerm {budgets : BTreeMap Address UInt64} {ts : List (B256 × U256)}
    (h : contributionTerm rep budgets p v = .ok ts) :
    ∀ t ∈ ts, t.1 = v.claimUid := by
  unfold contributionTerm at h
  obtain ⟨budget, -, h⟩ := of_bind h
  by_cases h0 : budget = 0
  · rw [if_pos h0] at h
    rw [← ok_inj h]
    simp
  · rw [if_neg h0] at h
    obtain ⟨sigma, -, h⟩ := of_bind h
    obtain ⟨part, -, h⟩ := of_bind h
    obtain ⟨contribution, -, h⟩ := of_bind h
    rw [← ok_inj h]
    simp

theorem scored_claim {budgets : BTreeMap Address UInt64}
    {l : List EligibleValuation} {cs : List (List (B256 × U256))}
    (h : l.mapM (contributionTerm rep budgets p) = .ok cs) {uid : B256}
    (hmem : uid ∈ sums cs.flatten) : ∃ v ∈ l, v.claimUid = uid := by
  rw [mem_sums] at hmem
  obtain ⟨t, ht, rfl⟩ := mem_map.mp hmem
  obtain ⟨ts, hts, ht⟩ := mem_flatten.mp ht
  rw [mapM_eq_ok] at h
  obtain ⟨v, hv, hterm⟩ := Related.exists_of_forall₂ h hts
  exact ⟨v, hv, (mem_of_contributionTerm hterm t ht).symm⟩

theorem stage2_ne_noEntry {state : LiveState}
    (h : ∀ v ∈ elig.eligible, v.claimUid ∈ state.claims) (p : Params) :
    stage2 state rep elig p ≠ .error .noEntry := by
  rw [stage2_eq]
  refine map_ne_noEntry ?_
  refine bind_ne_noEntry (mapM_ne_noEntry fun v hv => contributionTerm_ne_noEntry hv) fun cs hcs => ?_
  refine bind_ne_noEntry (mapM_ne_noEntry fun e he => claimTerm_ne_noEntry ?_) fun ws _ => ?_
  · obtain ⟨uid, score⟩ := e
    have hmem : uid ∈ sums cs.flatten := BTreeMap.mem_iff_getElem?.mpr ⟨score, BTreeMap.mem_toList.mp he⟩
    obtain ⟨v, hv, rfl⟩ := scored_claim hcs hmem
    exact h v hv
  refine bind_ne_noEntry (bind_ne_noEntry (arithmetic_ne_noEntry _) fun _ _ => by simp) fun beta _ => ?_
  refine bind_ne_noEntry ?_ fun ks _ => ?_
  · unfold contributorSide
    split
    · simp
    · exact map_ne_noEntry (mapM_ne_noEntry fun e _ => sideTerm_ne_noEntry _ _ _)
  refine bind_ne_noEntry ?_ fun rs _ => by simp
  unfold evaluatorSide
  split
  · simp
  · exact map_ne_noEntry (mapM_ne_noEntry fun e _ => sideTerm_ne_noEntry _ _ _)

end Trustgraphs.Contributions
