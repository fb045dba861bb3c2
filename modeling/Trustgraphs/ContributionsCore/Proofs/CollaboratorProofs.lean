import Trustgraphs.ContributionsCore.Proofs.PayoutProofs

/-!
# Proofs: collaborators

Two accounts are collaborators when some live claim of the round names them both, whoever attested
it.
-/

namespace Trustgraphs.Contributions

open LastWrite Outcome LiveExample BTreeMap Option

variable {m : BTreeMap Address (BTreeSet Address)} {a x y : Address}

theorem mem_insert_peer {b : Address} :
    y ∈ (m.insert a ((m.getD a ∅).insert b)).getD x ∅ ↔ (a = x ∧ b = y) ∨ y ∈ m.getD x ∅ := by
  rw [Std.ExtTreeMap.getD_eq_getD_getElem?, BTreeMap.getElem?_insert]
  by_cases ha : a = x
  · subst ha
    rw [if_pos rfl, getD_some, Std.ExtTreeSet.mem_insert, compare_eq_iff_eq]
    simp
  · rw [if_neg ha, ← Std.ExtTreeMap.getD_eq_getD_getElem?]
    simp [ha]

theorem mem_foldl_peers {l : List Address} : y ∈ (l.foldl (fun coClaim b =>
      if a ≠ b then coClaim.insert a ((coClaim.getD a ∅).insert b) else coClaim) m).getD x ∅ ↔
      y ∈ m.getD x ∅ ∨ (x = a ∧ y ∈ l ∧ x ≠ y) := by
  induction l generalizing m with
  | nil => simp
  | cons b l ih =>
    rw [List.foldl_cons, ih, List.mem_cons]
    by_cases hab : a = b
    · rw [if_neg (not_not.mpr hab)]
      constructor
      · rintro (hm | ⟨rfl, hl, hne⟩)
        · exact Or.inl hm
        · exact Or.inr ⟨rfl, Or.inr hl, hne⟩
      · rintro (hm | ⟨rfl, rfl | hl, hne⟩)
        · exact Or.inl hm
        · exact absurd hab hne
        · exact Or.inr ⟨rfl, hl, hne⟩
    · rw [if_pos hab, mem_insert_peer]
      constructor
      · rintro ((⟨rfl, rfl⟩ | hm) | ⟨rfl, hl, hne⟩)
        · exact Or.inr ⟨rfl, Or.inl rfl, hab⟩
        · exact Or.inl hm
        · exact Or.inr ⟨rfl, Or.inr hl, hne⟩
      · rintro (hm | ⟨rfl, rfl | hl, hne⟩)
        · exact Or.inl (Or.inr hm)
        · exact Or.inl (Or.inl ⟨rfl, rfl⟩)
        · exact Or.inr ⟨rfl, hl, hne⟩

theorem mem_foldl_pairs {l l' : List Address} : y ∈ (l.foldl (fun coClaim a => l'.foldl (fun coClaim b =>
      if a ≠ b then coClaim.insert a ((coClaim.getD a ∅).insert b) else coClaim) coClaim) m).getD x ∅ ↔
      y ∈ m.getD x ∅ ∨ (x ∈ l ∧ y ∈ l' ∧ x ≠ y) := by
  induction l generalizing m with
  | nil => simp
  | cons a l ih =>
    rw [List.foldl_cons, ih, mem_foldl_peers, List.mem_cons]
    tauto

theorem mem_addPeers {claim : LiveClaim} :
    y ∈ (addPeers m claim).getD x ∅ ↔ y ∈ m.getD x ∅ ∨ (x ∈ claim.shares ∧ y ∈ claim.shares ∧ x ≠ y) := by
  rw [addPeers, mem_foldl_pairs, Std.ExtTreeMap.mem_keys, Std.ExtTreeMap.mem_keys]

theorem mem_foldl_addPeers {l : List (B256 × LiveClaim)} :
    y ∈ (l.foldl (fun coClaim e => addPeers coClaim e.2) m).getD x ∅ ↔
      y ∈ m.getD x ∅ ∨ ∃ e ∈ l, x ∈ e.2.shares ∧ y ∈ e.2.shares ∧ x ≠ y := by
  induction l generalizing m with
  | nil => simp
  | cons e l ih =>
    rw [List.foldl_cons, ih, mem_addPeers]
    simp only [List.mem_cons, exists_eq_or_imp]
    tauto

theorem mem_coClaim {claims : BTreeMap B256 LiveClaim} : y ∈ (coClaim claims).getD x ∅ ↔
    x ≠ y ∧ ∃ (c : B256) (claim : LiveClaim), claims[c]? = some claim ∧ x ∈ claim.shares ∧ y ∈ claim.shares := by
  rw [coClaim, mem_foldl_addPeers]
  constructor
  · rintro (hempty | ⟨⟨c, claim⟩, he, hx, hy, hne⟩)
    · exact absurd hempty (by simp)
    · exact ⟨hne, c, claim, mem_toList.mp he, hx, hy⟩
  · rintro ⟨hne, c, claim, hc, hx, hy⟩
    exact Or.inr ⟨(c, claim), mem_toList.mpr hc, hx, hy, hne⟩

/-- Some live claim names the rater together with a contributor of the claim. -/
def Collaborates (claims : BTreeMap B256 LiveClaim) (rater : Address) (claim : LiveClaim) : Prop :=
  ∃ a ∈ claim.shares, rater ≠ a ∧
    ∃ (c : B256) (other : LiveClaim), claims[c]? = some other ∧ rater ∈ other.shares ∧ a ∈ other.shares

theorem conflicted_iff {claims : BTreeMap B256 LiveClaim} {rater : Address} {claim : LiveClaim} :
    conflicted (coClaim claims) rater claim = true ↔ Collaborates claims rater claim := by
  have hpeers : conflicted (coClaim claims) rater claim = true ↔
      ∃ a ∈ claim.shares, a ∈ (coClaim claims).getD rater ∅ := by
    rw [conflicted, Option.any_eq_true, Std.ExtTreeMap.getD_eq_getD_getElem?]
    constructor
    · rintro ⟨peers, hpeers, hany⟩
      obtain ⟨a, ha, hmem⟩ := List.any_eq_true.mp hany
      rw [hpeers]
      exact ⟨a, Std.ExtTreeMap.mem_keys.mp ha, hmem⟩
    · rintro ⟨a, ha, hmem⟩
      cases hpeers : (coClaim claims)[rater]? with
      | none =>
        rw [hpeers] at hmem
        exact absurd hmem (by simp)
      | some peers =>
        rw [hpeers] at hmem
        exact ⟨peers, rfl, List.any_eq_true.mpr ⟨a, Std.ExtTreeMap.mem_keys.mpr ha, hmem⟩⟩
  rw [hpeers]
  refine exists_congr fun a => and_congr_right fun _ => ?_
  rw [mem_coClaim]

/-- The record is a claim of a fresh uid, attested by an account without reputation. -/
def StrangersClaim (rep : BTreeMap Address U256) (claims : BTreeMap B256 LiveClaim) (r : RawEdge) : Prop :=
  r.kind = KIND_CLAIM_ATTEST ∧ rep.getD r.attester 0 = 0 ∧ r.uid ∉ claims

theorem bind_congr_ok {E α β : Type} {x : Except E α} {f g : α → Except E β} (h : ∀ a, x = .ok a → f a = g a) :
    (x >>= f) = (x >>= g) := by
  cases x with
  | error e => rfl
  | ok a => exact h a rfl

section Strangers

variable {rep : BTreeMap Address U256} {p : Params} {records records' : List RawEdge}
  (h : Extends (StrangersClaim rep (reconcile records p).claims) records records')
include h

theorem filterMap_strangers {β : Type} {f : RawEdge → Option β}
    (hf : ∀ r, r.kind = KIND_CLAIM_ATTEST → r.uid ∉ (reconcile records p).claims → f r = none) :
    (ordered records).filterMap f = (ordered records').filterMap f := by
  refine filterMap_ordered_extends h (fun r hr => ?_) fun r hr => hf r hr.1 hr.2.2
  rw [hr.1]
  rfl

theorem claims_strangers {c : B256} (hc : c ∈ (reconcile records p).claims) :
    (reconcile records' p).claims[c]? = (reconcile records p).claims[c]? := by
  have hsame : (ordered records).filterMap (valueAt (claimWrite p) c) =
      (ordered records').filterMap (valueAt (claimWrite p) c) := by
    refine filterMap_strangers h fun r _ hfresh => ?_
    rw [eq_none_iff_forall_ne_some]
    intro claim hclaim
    obtain ⟨-, -, -, -, -, huid, -⟩ := claimWrite_eq_some.mp (valueAt_eq_some.mp hclaim)
    exact hfresh (huid ▸ hc)
  rw [reconcile_claims, reconcile_claims]
  exact (getElem?_writes_congr hsame).symm

theorem response_strangers {c : B256} (hc : c ∈ (reconcile records p).claims) (a : Address) :
    (reconcile records' p).responses[actorKey c a]? = (reconcile records p).responses[actorKey c a]? := by
  have hvalue : valueAt (responseWrite (reconcile records' p).claims) (actorKey c a) =
      valueAt (responseWrite (reconcile records p).claims) (actorKey c a) := by
    funext r
    refine Option.ext fun v => ?_
    rw [valueAt_eq_some, valueAt_eq_some, responseWrite_eq_some, responseWrite_eq_some, claims_strangers h hc]
  have hsame : (ordered records).filterMap (valueAt (responseWrite (reconcile records p).claims) (actorKey c a)) =
      (ordered records').filterMap (valueAt (responseWrite (reconcile records' p).claims) (actorKey c a)) := by
    rw [hvalue]
    refine filterMap_strangers h fun r hkind _ => ?_
    rw [valueAt, responseWrite, if_pos (by rw [hkind]; decide)]
    rfl
  rw [reconcile_responses, reconcile_responses]
  exact (getElem?_writes_congr hsame).symm

theorem valuation_strangers {c : B256} (hc : c ∈ (reconcile records p).claims) (a : Address) :
    (reconcile records' p).valuations[actorKey c a]? = (reconcile records p).valuations[actorKey c a]? := by
  have hmem : c ∈ (reconcile records' p).claims ↔ c ∈ (reconcile records p).claims := by
    rw [mem_iff_getElem?, mem_iff_getElem?, claims_strangers h hc]
  have hvalue : valueAt (valuationWrite (reconcile records' p).claims) (actorKey c a) =
      valueAt (valuationWrite (reconcile records p).claims) (actorKey c a) := by
    funext r
    refine Option.ext fun v => ?_
    rw [valueAt_eq_some, valueAt_eq_some, valuationWrite_eq_some, valuationWrite_eq_some, hmem]
  have hsame : (ordered records).filterMap (valueAt (valuationWrite (reconcile records p).claims) (actorKey c a)) =
      (ordered records').filterMap (valueAt (valuationWrite (reconcile records' p).claims) (actorKey c a)) := by
    rw [hvalue]
    refine filterMap_strangers h fun r hkind _ => ?_
    rw [valueAt, valuationWrite, if_pos (by rw [hkind]; decide)]
    rfl
  rw [reconcile_valuations, reconcile_valuations]
  exact (getElem?_writes_congr hsame).symm

theorem collaborates_strangers {rater : Address} {claim : LiveClaim}
    (hc : Collaborates (reconcile records p).claims rater claim) :
    Collaborates (reconcile records' p).claims rater claim := by
  obtain ⟨a, ha, hne, c, other, hother, hr, hao⟩ := hc
  refine ⟨a, ha, hne, c, other, ?_, hr, hao⟩
  rw [claims_strangers h (mem_iff_getElem?.mpr ⟨other, hother⟩), hother]

variable (hunrated : ∀ v ∈ eligibles (reconcile records' p) rep p, v.claimUid ∈ (reconcile records p).claims)
  (hapart : ∀ v ∈ eligibles (reconcile records p) rep p, ∀ claim,
    (reconcile records p).claims[v.claimUid]? = some claim →
      Collaborates (reconcile records' p).claims v.rater claim →
        Collaborates (reconcile records p).claims v.rater claim)
include hunrated hapart

theorem eligibleOf_strangers {k : ActorKey} {v : UInt8} (hv : (reconcile records' p).valuations[k]? = some v) :
    eligibleOf (reconcile records' p).claims rep p k v = eligibleOf (reconcile records p).claims rep p k v := by
  have hkey : k = actorKey (ofLex k).1 (ofLex k).2 := rfl
  by_cases hlive : (ofLex k).1 ∈ (reconcile records p).claims
  · obtain ⟨claim, hclaim⟩ := mem_iff_getElem?.mp hlive
    unfold eligibleOf
    rw [claims_strangers h hlive, hclaim, bind_some, bind_some]
    cases hverdict : verdict rep p claim (ofLex k).2 with
    | some _ => rfl
    | none =>
      have hold : (reconcile records p).valuations[k]? = some v := by
        rw [hkey, ← valuation_strangers h hlive, ← hkey, hv]
      have heligible : (⟨(ofLex k).1, (ofLex k).2, v, discountOf (reconcile records p).claims p claim (ofLex k).2⟩ :
          EligibleValuation) ∈ eligibles (reconcile records p) rep p :=
        mem_eligibles.mpr ⟨hold, claim, hclaim, hverdict, rfl⟩
      have hconflict : conflicted (coClaim (reconcile records' p).claims) (ofLex k).2 claim =
          conflicted (coClaim (reconcile records p).claims) (ofLex k).2 claim := by
        rw [Bool.eq_iff_iff, conflicted_iff, conflicted_iff]
        exact ⟨hapart _ heligible claim hclaim, collaborates_strangers h⟩
      rw [discountOf, discountOf, hconflict]
  · have hnone : eligibleOf (reconcile records p).claims rep p k v = none := by
      rw [eligibleOf, not_mem_iff_getElem?.mp hlive, bind_none]
    rw [hnone, eq_none_iff_forall_ne_some]
    intro e he
    obtain ⟨claim, hclaim, hverdict, rfl⟩ := eligibleOf_eq_some.mp he
    have heligible : (⟨(ofLex k).1, (ofLex k).2, v, discountOf (reconcile records' p).claims p claim (ofLex k).2⟩ :
        EligibleValuation) ∈ eligibles (reconcile records' p) rep p :=
      mem_eligibles.mpr ⟨hv, claim, hclaim, hverdict, rfl⟩
    exact hlive (hunrated _ heligible)

theorem eligibles_strangers : eligibles (reconcile records' p) rep p = eligibles (reconcile records p) rep p := by
  have hsame : eligibles (reconcile records' p) rep p = (reconcile records' p).valuations.toList.filterMap
        fun e => eligibleOf (reconcile records p).claims rep p e.1 e.2 :=
    List.filterMap_congr fun e he => eligibleOf_strangers h hunrated hapart (mem_toList.mp he)
  rw [hsame, eligibles]
  refine filterMap_toList_congr fun k v hne => ?_
  obtain ⟨e, he⟩ := ne_none_iff_exists'.mp hne
  obtain ⟨claim, hclaim, -⟩ := eligibleOf_eq_some.mp he
  have hkey : k = actorKey (ofLex k).1 (ofLex k).2 := rfl
  rw [hkey, valuation_strangers h (mem_iff_getElem?.mpr ⟨claim, hclaim⟩)]

omit hunrated hapart in
theorem claimTerm_strangers {e : B256 × U256} (he : e.1 ∈ (reconcile records p).claims) :
    claimTerm (reconcile records' p) p e = claimTerm (reconcile records p) p e := by
  obtain ⟨claim, hclaim⟩ := mem_iff_getElem?.mp he
  have huid : claim.uid = e.1 := (claims_sound records p hclaim).2
  unfold claimTerm index
  rw [claims_strangers h he, hclaim]
  by_cases h0 : e.2 = 0
  · rw [if_pos h0, if_pos h0]
  · rw [if_neg h0, if_neg h0]
    dsimp only
    rw [ok_bind, ok_bind]
    have hshare : shareTerm (reconcile records' p) p claim e.2 = shareTerm (reconcile records p) p claim e.2 := by
      funext a
      unfold shareTerm consentMultFp
      rw [huid, response_strangers h he]
    rw [hshare]

theorem terms_strangers : terms (reconcile records' p) rep (eligibilityOf records' rep p) p =
    terms (reconcile records p) rep (eligibilityOf records rep p) p := by
  have helig : (eligibilityOf records' rep p).eligible = (eligibilityOf records rep p).eligible :=
    eligibles_strangers h hunrated hapart
  have hbudgets : budgets (eligibilityOf records' rep p) = budgets (eligibilityOf records rep p) := by
    rw [budgets_eq, budgets_eq, helig]
  have hparticipants : (eligibilityOf records' rep p).participants =
      (eligibilityOf records rep p).participants := by
    unfold eligibilityOf
    dsimp only
    rw [eligibles_strangers h hunrated hapart]
  have hrep : participantRep rep (eligibilityOf records' rep p) = participantRep rep
      (eligibilityOf records rep p) := by
    rw [participantRep, participantRep, hparticipants]
  unfold terms
  rw [helig, hbudgets, hrep]
  refine bind_congr_ok fun cs hcs => ?_
  have hloop : (Tally.sums cs.flatten).toList.mapM (claimTerm (reconcile records' p) p) =
      (Tally.sums cs.flatten).toList.mapM (claimTerm (reconcile records p) p) := by
    refine Tally.mapM_congr fun e he => claimTerm_strangers h ?_
    have hmem : e.1 ∈ Tally.sums cs.flatten := mem_iff_getElem?.mpr ⟨e.2, mem_toList.mp he⟩
    obtain ⟨v, hv, hclaim⟩ := scored_claim hcs hmem
    rw [← hclaim]
    refine hunrated v ?_
    rwa [eligibles_strangers h hunrated hapart]
  rw [hloop]

end Strangers

/-- More claims by strangers, which no eligible rater rates, leave all the weights and all the scores as they
are, as long as they make no eligible rater a collaborator on a claim that it has rated. -/
theorem stage2_strangers (rep : BTreeMap Address U256) (p : Params) {records records' : List RawEdge}
    (h : Extends (StrangersClaim rep (reconcile records p).claims) records records')
    (hunrated : ∀ v ∈ eligibles (reconcile records' p) rep p, v.claimUid ∈ (reconcile records p).claims)
    (hapart : ∀ v ∈ eligibles (reconcile records p) rep p, ∀ claim,
      (reconcile records p).claims[v.claimUid]? = some claim →
        Collaborates (reconcile records' p).claims v.rater claim →
          Collaborates (reconcile records p).claims v.rater claim) :
    ∃ elig elig', eligibility (reconcile records p) rep p = .ok elig ∧
      eligibility (reconcile records' p) rep p = .ok elig' ∧
      stage2 (reconcile records' p) rep elig' p = stage2 (reconcile records p) rep elig p ∧
      payout rep records' p = payout rep records p := by
  have hterms := terms_strangers h hunrated hapart
  refine ⟨_, _, eligibility_reconcile records rep p, eligibility_reconcile records' rep p, ?_, ?_⟩
  · rw [stage2_eq, stage2_eq, hterms]
  · rw [payout_eq, payout_eq, stage2_eq, stage2_eq, hterms]

/-- The combined weight of an account under a reputation. -/
def weight (rep : BTreeMap Address U256) (records : List RawEdge) (p : Params) (a : Address) : Option U256 :=
  ((stage2 (reconcile records p) rep (eligibilityOf records rep p) p).toOption).map
    fun result => result.combinedWeights.getD a 0

/-- A stranger's claim that no eligible rater rates and that lowers the weight of `a`. -/
def depresses (input : GuestInput) (r : RawEdge) (a : Address) : Bool :=
  (reputationDetailed input.trustEdges input.params).any fun rank =>
    rank.scores.getD r.attester 0 == 0 && !(reconcile input.records input.params).claims.contains r.uid &&
    (eligibles (reconcile (input.records ++ [r]) input.params) rank.scores input.params).all (fun v =>
      (reconcile input.records input.params).claims.contains v.claimUid) &&
    (weight rank.scores input.records input.params a).any fun w =>
      (weight rank.scores (input.records ++ [r]) input.params a).any fun w' => w' < w

theorem exists_of_depresses {input : GuestInput} {r : RawEdge} (hkind : r.kind = KIND_CLAIM_ATTEST)
    (h : depresses input r a = true) :
    ∃ (rank : Pagerank.RankResult Address) (elig elig' : Eligibility) (result result' : Stage2),
      reputationDetailed input.trustEdges input.params = some rank ∧
      StrangersClaim rank.scores (reconcile input.records input.params).claims r ∧
      eligibility (reconcile input.records input.params) rank.scores input.params = .ok elig ∧
      eligibility (reconcile (input.records ++ [r]) input.params) rank.scores input.params = .ok elig' ∧
      (∀ v ∈ elig'.eligible, v.claimUid ∈ (reconcile input.records input.params).claims) ∧
      stage2 (reconcile input.records input.params) rank.scores elig input.params = .ok result ∧
      stage2 (reconcile (input.records ++ [r]) input.params) rank.scores elig' input.params = .ok result' ∧
      result'.combinedWeights.getD a 0 < result.combinedWeights.getD a 0 := by
  obtain ⟨rank, hrank, hfacts⟩ := (Option.any_eq_true _ _).mp h
  simp only [Bool.and_eq_true, beq_iff_eq, Bool.not_eq_true', List.all_eq_true] at hfacts
  obtain ⟨⟨⟨hrep, hfresh⟩, hunrated⟩, hweights⟩ := hfacts
  obtain ⟨w, hw, hweights⟩ := (Option.any_eq_true _ _).mp hweights
  obtain ⟨w', hw', hlt⟩ := (Option.any_eq_true _ _).mp hweights
  obtain ⟨result, hresult, rfl⟩ := map_eq_some_iff.mp hw
  obtain ⟨result', hresult', rfl⟩ := map_eq_some_iff.mp hw'
  refine ⟨rank, _, _, result, result', hrank, ⟨hkind, hrep, fun hmem => ?_⟩, eligibility_reconcile _ _ _,
    eligibility_reconcile _ _ _, hunrated, toOption_eq_some.mp hresult, toOption_eq_some.mp hresult', ?_⟩
  · rw [show (reconcile input.records input.params).claims.contains r.uid = true from hmem] at hfresh
    exact absurd hfresh (by simp)
  · simpa using hlt

namespace StrangerExample

def records : List RawEdge :=
  let a : Address := .replicate 20 0xa1
  let b : Address := .replicate 20 0xb1
  let r : Address := .replicate 20 0xc1
  [⟨0, a, 0, .replicate 32 1, 10, encodeClaim [] 0 [] [a] [1]⟩,
   ⟨0, b, 0, .replicate 32 2, 10, encodeClaim [] 0 [] [b] [1]⟩,
   ⟨4, r, 0, .replicate 32 0x11, 11, encodeValuation (.replicate 32 1) 50⟩,
   ⟨4, r, 0, .replicate 32 0x12, 11, encodeValuation (.replicate 32 2) 50⟩]

def claim (other : UInt8) : RawEdge :=
  ⟨0, .replicate 20 0xd1, 0, .replicate 32 3, 12,
    encodeClaim [] 0 [] [.replicate 20 other, .replicate 20 0xa1] [1, 1]⟩

def input : GuestInput := ⟨[], records, params, ⟨0, 0⟩⟩

end StrangerExample

/-- The stranger names the seed: what the seed says of `0xa1…` is discounted. -/
theorem strangers_depress : ∃ (rank : Pagerank.RankResult Address) (r : RawEdge) (elig elig' : Eligibility)
    (result result' : Stage2),
    let input := StrangerExample.input
    let state := reconcile input.records input.params
    let state' := reconcile (input.records ++ [r]) input.params
    reputationDetailed input.trustEdges input.params = some rank ∧ StrangersClaim rank.scores state.claims r ∧
    eligibility state rank.scores input.params = .ok elig ∧
    eligibility state' rank.scores input.params = .ok elig' ∧
    (∀ v ∈ elig'.eligible, v.claimUid ∈ state.claims) ∧
    stage2 state rank.scores elig input.params = .ok result ∧
    stage2 state' rank.scores elig' input.params = .ok result' ∧
    result'.combinedWeights.getD (.replicate 20 0xa1) 0 < result.combinedWeights.getD (.replicate 20 0xa1) 0 := by
  obtain ⟨rank, elig, elig', result, result', h⟩ := @exists_of_depresses (.replicate 20 0xa1)
    StrangerExample.input (StrangerExample.claim 0xc1) rfl (by decide +kernel)
  exact ⟨rank, StrangerExample.claim 0xc1, elig, elig', result, result', h⟩

/-- A claim that does not name the seed changes nothing. -/
theorem stage2_strangers_example :
    let rep : BTreeMap Address U256 := (∅ : BTreeMap Address U256).insert (.replicate 20 0xc1) 1000000000000000000
    let records' := StrangerExample.records ++ [StrangerExample.claim 0xe1]
    payout rep records' params = payout rep StrangerExample.records params := by
  intro rep records'
  have hextends : Extends (StrangersClaim rep (reconcile StrangerExample.records params).claims)
      StrangerExample.records records' := by
    refine Extends.append_right fun r hr => ?_
    rw [List.mem_singleton.mp hr]
    exact ⟨rfl, by decide +kernel, by decide +kernel⟩
  have hunrated : ((eligibles (reconcile records' params) rep params).all fun v =>
      (reconcile StrangerExample.records params).claims.contains v.claimUid) = true := by
    decide +kernel
  have hapart : ((eligibles (reconcile StrangerExample.records params) rep params).all fun v =>
      ((reconcile StrangerExample.records params).claims[v.claimUid]?).all fun claim =>
        !conflicted (coClaim (reconcile records' params).claims) v.rater claim) = true := by
    decide +kernel
  obtain ⟨_, _, -, -, -, hpayout⟩ := stage2_strangers rep params hextends
    (List.all_eq_true.mp hunrated) (by
      intro v hv claim hclaim hnew
      have hnot := List.all_eq_true.mp hapart v hv
      rw [hclaim] at hnot
      rw [← conflicted_iff] at hnew
      rw [Option.all_some, hnew] at hnot
      exact absurd hnot (by simp))
  exact hpayout

end Trustgraphs.Contributions
