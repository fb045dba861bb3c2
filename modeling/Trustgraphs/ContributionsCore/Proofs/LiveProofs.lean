import Trustgraphs.ContributionsCore.Proofs.BoundsProofs

/-!
# Proofs: which records are live

A live entry is the record with the greatest timestamp among those that could have written it, at
the last place of the log on a tie.
-/

namespace Trustgraphs.Contributions

open LastWrite Outcome Option List

/-- The record is the one with `P` of the greatest timestamp, then of the greatest place in the log. -/
def Greatest (records : List RawEdge) (P : RawEdge → Prop) (r : RawEdge) : Prop :=
  ∃ i : ℕ, records[i]? = some r ∧ P r ∧ ∀ (j : ℕ) (q : RawEdge), records[j]? = some q → P q →
    q.blockTimestamp < r.blockTimestamp ∨ q.blockTimestamp = r.blockTimestamp ∧ j ≤ i

theorem Greatest.congr {records : List RawEdge} {P Q : RawEdge → Prop} (h : ∀ r, P r ↔ Q r) (r : RawEdge) :
    Greatest records P r ↔ Greatest records Q r := by
  have hPQ : P = Q := funext fun q => propext (h q)
  rw [hPQ]

theorem getElem?_writes_ordered {K V : Type} [LinearOrder K] {f : RawEdge → Option (K × V)}
    {records : List RawEdge} {k : K} {v : V} : (writes f (ordered records))[k]? = some v ↔
      ∃ r, Greatest records (fun q => Unrevoked records q ∧ ∃ w, f q = some (k, w)) r ∧ f r = some (k, v) := by
  rw [ordered_eq_placed, writes_map, getElem?_writes_eq_some (placed_sorted records) Later.asymm]
  constructor
  · rintro ⟨⟨r, i⟩, hmem, hwrite, hmax⟩
    obtain ⟨hget, hkept⟩ := mem_placed.mp hmem
    refine ⟨r, ⟨i, hget, ⟨hkept, v, hwrite⟩, ?_⟩, hwrite⟩
    rintro j q hq ⟨hqkept, w, hw⟩
    rcases hmax (q, j) (mem_placed.mpr ⟨hq, hqkept⟩) w hw with heq | hlt | ⟨hts, hpos⟩
    · obtain ⟨rfl, rfl⟩ := Prod.mk.inj heq
      exact Or.inr ⟨rfl, le_rfl⟩
    · exact Or.inl hlt
    · exact Or.inr ⟨hts, Nat.le_of_lt hpos⟩
  · rintro ⟨r, ⟨i, hget, ⟨hkept, -⟩, hmax⟩, hwrite⟩
    refine ⟨(r, i), mem_placed.mpr ⟨hget, hkept⟩, hwrite, ?_⟩
    rintro ⟨q, j⟩ hq w hw
    obtain ⟨hqget, hqkept⟩ := mem_placed.mp hq
    rcases hmax j q hqget ⟨hqkept, w, hw⟩ with hlt | ⟨hts, hpos⟩
    · exact Or.inr (Or.inl hlt)
    · rcases Nat.lt_or_eq_of_le hpos with hlt | rfl
      · exact Or.inr (Or.inr ⟨hts, hlt⟩)
      · rw [hqget] at hget
        exact Or.inl (Prod.ext (Option.some.inj hget) rfl)

theorem getElem?_writes_ordered_of_iff {K V : Type} [LinearOrder K] {f : RawEdge → Option (K × V)}
    {records : List RawEdge} {k : K} {v : V} {C : Prop} {Is : V → RawEdge → Prop}
    (h : ∀ w q, Unrevoked records q ∧ f q = some (k, w) ↔ C ∧ Is w q) :
    (writes f (ordered records))[k]? = some v ↔
      C ∧ ∃ r, Greatest records (fun q => ∃ w, Is w q) r ∧ Is v r := by
  rw [getElem?_writes_ordered]
  by_cases hC : C
  · have hsome : ∀ q, (Unrevoked records q ∧ ∃ w, f q = some (k, w)) ↔ ∃ w, Is w q := by
      intro q
      rw [← exists_and_left]
      refine exists_congr fun w => ?_
      rw [h, and_iff_right hC]
    rw [and_iff_right hC]
    refine exists_congr fun r => ?_
    rw [Greatest.congr hsome]
    refine and_congr_right fun hgreatest => ?_
    obtain ⟨-, -, ⟨w, hr⟩, -⟩ := hgreatest
    have hkept : Unrevoked records r := ((h w r).mpr ⟨hC, hr⟩).1
    have hv := h v r
    rwa [and_iff_right hkept, and_iff_right hC] at hv
  · refine iff_of_false ?_ fun hno => hC hno.1
    rintro ⟨r, ⟨-, -, ⟨hkept, -⟩, -⟩, hr⟩
    exact hC ((h v r).mp ⟨hkept, hr⟩).1

/-- The record is a claim of the round with this payload. -/
structure IsClaim (records : List RawEdge) (p : Params) (r : RawEdge) (payload : ClaimPayload) : Prop where
  mem : r ∈ records
  kind : r.kind = KIND_CLAIM_ATTEST
  opens : p.roundStart ≤ r.blockTimestamp
  closes : r.blockTimestamp ≤ p.roundEnd
  decodes : decodeClaim r.data = some payload
  unrevoked : Unrevoked records r

structure IsResponse (records : List RawEdge) (c : B256) (a : Address) (v : UInt8) (r : RawEdge) : Prop where
  kind : r.kind = KIND_RESPONSE_ATTEST
  attester : r.attester = a
  decodes : decodeResponse r.data = some ⟨c, v⟩
  unrevoked : Unrevoked records r

structure IsValuation (records : List RawEdge) (c : B256) (a : Address) (v : UInt8) (r : RawEdge) : Prop where
  kind : r.kind = KIND_VALUATION_ATTEST
  attester : r.attester = a
  decodes : decodeValuation r.data = some ⟨c, v⟩
  unrevoked : Unrevoked records r

def AttestedOnce (records : List RawEdge) : Prop :=
  ((records.filter fun r => !isRevoke r.kind).map RawEdge.uid).Nodup

structure Reconciles (records : List RawEdge) (p : Params) (state : LiveState) : Prop where
  /-- The claims of the round. -/
  claims : ∀ uid claim, state.claims[uid]? = some claim ↔
    ∃ r payload, IsClaim records p r payload ∧ r.uid = uid ∧ claim = liveClaim r payload
  /-- The greatest response, of a contributor of a live claim. -/
  responses : ∀ c a v, state.responses[actorKey c a]? = some v ↔
    (∃ claim, state.claims[c]? = some claim ∧ a ∈ claim.shares) ∧
      ∃ r, Greatest records (fun q => ∃ w, IsResponse records c a w q) r ∧ IsResponse records c a v r
  /-- The greatest valuation, of a live claim. -/
  valuations : ∀ c a v, state.valuations[actorKey c a]? = some v ↔ c ∈ state.claims ∧
      ∃ r, Greatest records (fun q => ∃ w, IsValuation records c a w q) r ∧ IsValuation records c a v r
  /-- The shares are those attested, with a positive total, and nothing wraps. -/
  shares : ∀ r payload, IsClaim records p r payload →
    (∀ a, a ∈ (liveClaim r payload).shares ↔ a ∈ payload.contributors) ∧
    (∀ a, ((liveClaim r payload).shares.getD a 0).toNat =
      Tally.sumAt ((payload.contributors.zip payload.shares).map fun e => (e.1, e.2.toNat)) a) ∧
    (liveClaim r payload).totalShares.toNat = (payload.shares.map UInt32.toNat).sum ∧
    0 < (liveClaim r payload).totalShares.toNat

section Writes

variable {records : List RawEdge} {p : Params} {r : RawEdge}

theorem claimWrite_eq_some {uid : B256} {claim : LiveClaim} : claimWrite p r = some (uid, claim) ↔
    r.kind = KIND_CLAIM_ATTEST ∧ p.roundStart ≤ r.blockTimestamp ∧ r.blockTimestamp ≤ p.roundEnd ∧
      ∃ payload, decodeClaim r.data = some payload ∧ r.uid = uid ∧ claim = liveClaim r payload := by
  unfold claimWrite
  by_cases h : r.kind ≠ KIND_CLAIM_ATTEST ∨ r.blockTimestamp < p.roundStart ∨ p.roundEnd < r.blockTimestamp
  · rw [if_pos h]
    refine iff_of_false (by simp) ?_
    rintro ⟨hkind, hopens, hcloses, -⟩
    rcases h with h | h | h
    · exact h hkind
    · exact UInt64.not_le.mpr h hopens
    · exact UInt64.not_le.mpr h hcloses
  · obtain ⟨hkind, hwindow⟩ := not_or.mp h
    obtain ⟨hopens, hcloses⟩ := not_or.mp hwindow
    rw [if_neg h, map_eq_some_iff]
    constructor
    · rintro ⟨payload, hpayload, heq⟩
      obtain ⟨huid, hclaim⟩ := Prod.mk.inj heq
      exact ⟨not_not.mp hkind, UInt64.not_lt.mp hopens, UInt64.not_lt.mp hcloses, payload, hpayload,
        huid, hclaim.symm⟩
    · rintro ⟨-, -, -, payload, hpayload, rfl, rfl⟩
      exact ⟨payload, hpayload, rfl⟩

theorem actorKey_inj {c c' : B256} {a a' : Address} : actorKey c a = actorKey c' a' ↔ c = c' ∧ a = a' := by
  constructor
  · intro h
    exact Prod.mk.inj (toLex.injective h)
  · rintro ⟨rfl, rfl⟩
    rfl

theorem responseWrite_eq_some {claims : BTreeMap B256 LiveClaim} {c : B256} {a : Address} {v : UInt8} :
    responseWrite claims r = some (actorKey c a, v) ↔ r.kind = KIND_RESPONSE_ATTEST ∧ r.attester = a ∧
      decodeResponse r.data = some ⟨c, v⟩ ∧ ∃ claim, claims[c]? = some claim ∧ a ∈ claim.shares := by
  unfold responseWrite
  by_cases hkind : r.kind = KIND_RESPONSE_ATTEST
  · rw [if_neg (not_not.mpr hkind), bind_eq_some_iff]
    constructor
    · rintro ⟨payload, hpayload, hwrite⟩
      split at hwrite
      · rename_i hany
        obtain ⟨hkey, rfl⟩ := Prod.mk.inj (Option.some.inj hwrite)
        obtain ⟨rfl, rfl⟩ := actorKey_inj.mp hkey
        obtain ⟨claim, hclaim, hmem⟩ := (Option.any_eq_true _ _).mp hany
        exact ⟨hkind, rfl, hpayload, claim, hclaim, hmem⟩
      · exact absurd hwrite (by simp)
    · rintro ⟨-, rfl, hdecode, claim, hclaim, hmem⟩
      refine ⟨⟨c, v⟩, hdecode, ?_⟩
      rw [if_pos ((Option.any_eq_true _ _).mpr ⟨claim, hclaim, hmem⟩)]
  · rw [if_pos hkind]
    exact iff_of_false (by simp) fun h => hkind h.1

theorem valuationWrite_eq_some {claims : BTreeMap B256 LiveClaim} {c : B256} {a : Address} {v : UInt8} :
    valuationWrite claims r = some (actorKey c a, v) ↔ r.kind = KIND_VALUATION_ATTEST ∧ r.attester = a ∧
      decodeValuation r.data = some ⟨c, v⟩ ∧ c ∈ claims := by
  unfold valuationWrite
  by_cases hkind : r.kind = KIND_VALUATION_ATTEST
  · rw [if_neg (not_not.mpr hkind), bind_eq_some_iff]
    constructor
    · rintro ⟨payload, hpayload, hwrite⟩
      split at hwrite
      · rename_i hmem
        obtain ⟨hkey, rfl⟩ := Prod.mk.inj (Option.some.inj hwrite)
        obtain ⟨rfl, rfl⟩ := actorKey_inj.mp hkey
        exact ⟨hkind, rfl, hpayload, hmem⟩
      · exact absurd hwrite (by simp)
    · rintro ⟨-, rfl, hdecode, hmem⟩
      refine ⟨⟨c, v⟩, hdecode, ?_⟩
      rw [if_pos (show claims.contains c = true from hmem)]
  · rw [if_pos hkind]
    exact iff_of_false (by simp) fun h => hkind h.1

end Writes

section Live

variable {records : List RawEdge} {p : Params}

theorem AttestedOnce.unique (h : AttestedOnce records) {i j : ℕ} {q r : RawEdge} (hq : records[i]? = some q)
    (hr : records[j]? = some r) (hqk : isRevoke q.kind = false) (hrk : isRevoke r.kind = false)
    (huid : q.uid = r.uid) : i = j := by
  induction records generalizing i j with
  | nil => simp at hq
  | cons e l ih =>
    have hrest : AttestedOnce l := by
      have hsub : (l.filter fun r => !isRevoke r.kind).Sublist ((e :: l).filter fun r => !isRevoke r.kind) :=
        (sublist_cons_self e l).filter _
      exact h.sublist (hsub.map RawEdge.uid)
    -- the head is no later entry again
    have hfresh : isRevoke e.kind = false → ∀ (k : ℕ) (s : RawEdge), l[k]? = some s →
        isRevoke s.kind = false → s.uid ≠ e.uid := by
      intro he k s hs hsk heq
      rw [AttestedOnce, filter_cons_of_pos (by simp [he]), map_cons, nodup_cons] at h
      refine h.1 (List.mem_map.mpr ⟨s, ?_, heq⟩)
      exact mem_filter.mpr ⟨mem_of_getElem? hs, by simp [hsk]⟩
    cases i with
    | zero =>
      cases j with
      | zero => rfl
      | succ j =>
        rw [getElem?_cons_zero, some_inj] at hq
        rw [getElem?_cons_succ] at hr
        subst hq
        exact absurd huid.symm (hfresh hqk j r hr hrk)
    | succ i =>
      cases j with
      | zero =>
        rw [getElem?_cons_zero, some_inj] at hr
        rw [getElem?_cons_succ] at hq
        subst hr
        exact absurd huid (hfresh hrk i q hq hqk)
      | succ j =>
        rw [getElem?_cons_succ] at hq hr
        rw [ih hrest hq hr]

theorem live_claims (h : AttestedOnce records) (uid : B256) (claim : LiveClaim) :
    (reconcile records p).claims[uid]? = some claim ↔
      ∃ r payload, IsClaim records p r payload ∧ r.uid = uid ∧ claim = liveClaim r payload := by
  rw [reconcile_claims, getElem?_writes_ordered]
  constructor
  · rintro ⟨r, ⟨i, hget, ⟨hkept, -⟩, -⟩, hwrite⟩
    obtain ⟨hkind, hopens, hcloses, payload, hpayload, huid, hclaim⟩ := claimWrite_eq_some.mp hwrite
    exact ⟨r, payload, ⟨mem_of_getElem? hget, hkind, hopens, hcloses, hpayload, hkept⟩, huid, hclaim⟩
  · rintro ⟨r, payload, hr, huid, hclaim⟩
    obtain ⟨i, hi⟩ := List.mem_iff_getElem?.mp hr.mem
    have hwrite : claimWrite p r = some (uid, claim) :=
      claimWrite_eq_some.mpr ⟨hr.kind, hr.opens, hr.closes, payload, hr.decodes, huid, hclaim⟩
    refine ⟨r, ⟨i, hi, ⟨hr.unrevoked, claim, hwrite⟩, ?_⟩, hwrite⟩
    rintro j q hq ⟨hqkept, w, hqwrite⟩
    obtain ⟨-, -, -, -, -, hquid, -⟩ := claimWrite_eq_some.mp hqwrite
    have hij := h.unique hq hi hqkept.1 hr.unrevoked.1 (hquid.trans huid.symm)
    subst hij
    rw [hq] at hi
    obtain rfl := Option.some.inj hi
    exact Or.inr ⟨rfl, le_rfl⟩

theorem live_responses (c : B256) (a : Address) (v : UInt8) :
    (reconcile records p).responses[actorKey c a]? = some v ↔
      (∃ claim, (reconcile records p).claims[c]? = some claim ∧ a ∈ claim.shares) ∧
        ∃ r, Greatest records (fun q => ∃ w, IsResponse records c a w q) r ∧ IsResponse records c a v r := by
  rw [reconcile_responses]
  refine getElem?_writes_ordered_of_iff fun w q => ?_
  rw [responseWrite_eq_some]
  constructor
  · rintro ⟨hkept, hkind, hattester, hdecode, hlive⟩
    exact ⟨hlive, hkind, hattester, hdecode, hkept⟩
  · rintro ⟨hlive, hkind, hattester, hdecode, hkept⟩
    exact ⟨hkept, hkind, hattester, hdecode, hlive⟩

theorem live_valuations (c : B256) (a : Address) (v : UInt8) :
    (reconcile records p).valuations[actorKey c a]? = some v ↔ c ∈ (reconcile records p).claims ∧
      ∃ r, Greatest records (fun q => ∃ w, IsValuation records c a w q) r ∧ IsValuation records c a v r := by
  rw [reconcile_valuations]
  refine getElem?_writes_ordered_of_iff fun w q => ?_
  rw [valuationWrite_eq_some]
  constructor
  · rintro ⟨hkept, hkind, hattester, hdecode, hlive⟩
    exact ⟨hlive, hkind, hattester, hdecode, hkept⟩
  · rintro ⟨hlive, hkind, hattester, hdecode, hkept⟩
    exact ⟨hkept, hkind, hattester, hdecode, hlive⟩

theorem reconciles (h : AttestedOnce records) (p : Params) : Reconciles records p (reconcile records p) where
  claims := live_claims h
  responses := live_responses
  valuations := live_valuations
  shares := by
    intro r payload hr
    have hsound := decodeClaim_sound hr.decodes
    exact ⟨fun a => mem_shares hsound, toNat_share hsound, toNat_totalShares hsound,
      (liveClaim_sound hsound).total_pos⟩

end Live

theorem reconcile_perm {records records' : List RawEdge} (hperm : records.Perm records')
    (hkept : (records.filter fun r => !isRevoke r.kind) = records'.filter fun r => !isRevoke r.kind)
    (p : Params) : reconcile records p = reconcile records' p := by
  refine reconcile_congr (ordered_congr hkept fun uid => ?_) p
  rw [mem_revoked, mem_revoked]
  exact exists_congr fun q => and_congr_left fun _ => hperm.mem_iff

theorem reconcile_revoke {q : RawEdge} (hq : isRevoke q.kind = true) (records : List RawEdge) (p : Params) :
    reconcile (q :: records) p =
      reconcile (records.filter fun r => isRevoke r.kind || decide (r.uid ≠ q.uid)) p := by
  refine reconcile_congr ?_ p
  have hkeeps : ∀ r, keeps (q :: records) r = (keeps records r && decide (r.uid ≠ q.uid)) := by
    intro r
    rw [Bool.eq_iff_iff, Bool.and_eq_true, keeps_iff, keeps_iff, decide_eq_true_iff]
    constructor
    · rintro ⟨hkind, hnone⟩
      refine ⟨⟨hkind, fun s hs => hnone s (mem_cons_of_mem _ hs)⟩, ?_⟩
      exact fun heq => hnone q (mem_cons_self ..) hq heq.symm
    · rintro ⟨⟨hkind, hnone⟩, hne⟩
      refine ⟨hkind, fun s hs hrev heq => ?_⟩
      rcases mem_cons.mp hs with rfl | hs
      · exact hne heq.symm
      · exact hnone s hs hrev heq
  have hrevoked : ∀ r, keeps (records.filter fun r => isRevoke r.kind || decide (r.uid ≠ q.uid)) r =
      keeps records r := by
    intro r
    rw [Bool.eq_iff_iff, keeps_iff, keeps_iff]
    refine and_congr_right fun _ => forall_congr' fun s => ?_
    rw [mem_filter]
    constructor
    · intro h hs hrev
      exact h ⟨hs, by rw [hrev]; rfl⟩ hrev
    · rintro h ⟨hs, -⟩ hrev
      exact h hs hrev
  rw [ordered_eq, ordered_eq, filter_cons_of_neg (by rw [keeps, hq]; simp), List.filter_filter]
  refine congrArg _ (filter_congr fun r _ => ?_)
  rw [hkeeps, hrevoked]
  unfold keeps
  cases isRevoke r.kind <;> simp

theorem length_eligibles_le (records : List RawEdge) (rep : BTreeMap Address U256) (p : Params) :
    (eligibles (reconcile records p) rep p).length ≤ records.length := by
  calc (eligibles (reconcile records p) rep p).length
      ≤ (reconcile records p).valuations.toList.length := length_filterMap_le _ _
    _ = (reconcile records p).valuations.size := Std.ExtTreeMap.length_toList
    _ ≤ (ordered records).length := by
        rw [reconcile_valuations]
        exact size_writes_le _
    _ ≤ records.length := by
        rw [ordered_eq, length_insertionSort]
        exact length_filter_le _ _

theorem stage2_terms {p : Params} (hp : Bounded p) {rep : BTreeMap Address U256} (hrep : RepBounded rep p)
    {records : List RawEdge} (hlen : records.length < 2 ^ 57) {elig : Eligibility}
    (helig : eligibility (reconcile records p) rep p = .ok elig) :
    ∃ t, terms (reconcile records p) rep elig p = .ok t ∧ t.Within rep elig p := by
  have hclosed := closed_reconcile records p
  rw [eligibility_eq hclosed] at helig
  obtain rfl := ok_inj helig
  exact terms_within hp hclosed rfl (lt_of_le_of_lt (length_eligibles_le records rep p) hlen) hrep

theorem stages_return (records : List RawEdge) (rep : BTreeMap Address U256) (p : Params) :
    ∃ elig, eligibility (reconcile records p) rep p = .ok elig ∧
      stage2 (reconcile records p) rep elig p ≠ .error .noEntry ∧
      (Bounded p → RepBounded rep p → records.length < 2 ^ 57 →
        ∃ result, stage2 (reconcile records p) rep elig p = .ok result) := by
  have hclosed := closed_reconcile records p
  refine ⟨_, eligibility_eq hclosed, ?_, fun hp hrep hlen => ?_⟩
  · exact stage2_ne_noEntry (fun v hv => (hclosed.eligible hv).1) p
  · obtain ⟨t, ht, -⟩ := stage2_terms hp hrep hlen (eligibility_eq hclosed)
    refine ⟨t.result, ?_⟩
    rw [stage2_eq, ht]
    rfl

/-- What a log of records in which no uid is attested twice reconciles to: its claims of the round, the
greatest responses and valuations of these, whatever place the revocations have, with nothing missing
that the stages look up. (A `Vec` has room for fewer than `2 ^ 57` records.) -/
theorem reconcile_live {records : List RawEdge} (h : AttestedOnce records) (p : Params) :
    Reconciles records p (reconcile records p) ∧
    (∀ records' : List RawEdge, records.Perm records' →
      ((records.filter fun r => !isRevoke r.kind) = records'.filter fun r => !isRevoke r.kind) →
        reconcile records' p = reconcile records p) ∧
    (∀ q, isRevoke q.kind = true → reconcile (q :: records) p =
      reconcile (records.filter fun r => isRevoke r.kind || decide (r.uid ≠ q.uid)) p) ∧
    (∀ rep, ∃ elig, eligibility (reconcile records p) rep p = .ok elig ∧
      stage2 (reconcile records p) rep elig p ≠ .error .noEntry ∧
      (Bounded p → RepBounded rep p → records.length < 2 ^ 57 →
        ∃ result, stage2 (reconcile records p) rep elig p = .ok result)) := by
  refine ⟨reconciles h p, ?_, ?_, fun rep => stages_return records rep p⟩
  · intro records' hperm hkept
    exact (reconcile_perm hperm hkept p).symm
  · intro q hq
    exact reconcile_revoke hq records p

namespace LiveExample

def records : List RawEdge :=
  let a : Address := .replicate 20 0xa1
  let b : Address := .replicate 20 0xb1
  let c : Address := .replicate 20 0xc1
  [⟨5, c, 0, .replicate 32 3, 13, []⟩, ⟨4, c, 0, .replicate 32 2, 11, encodeValuation (.replicate 32 1) 80⟩,
   ⟨4, c, 0, .replicate 32 3, 12, encodeValuation (.replicate 32 1) 20⟩,
   ⟨0, a, 0, .replicate 32 1, 10, encodeClaim [] 0 [] [a, b] [1, 3]⟩]

def params : Params where
  dampingFp := 850000000000000000
  toleranceFp := 1000000000000
  maxIterations := 100
  minWeightFp := 0
  maxWeightFp := 100000000000000000000
  trustShareFp := 0
  trustDecayFp := 0
  trustedSeeds := [.replicate 20 0xc1]
  precisionScale := 1000000000000000000
  weightFieldIndex := 1
  roundStart := 10
  roundEnd := 20
  unacceptedMultFp := 500000000000000000
  collaboratorMultFp := 250000000000000000
  minRaterRepFp := 0
  evaluatorCarveoutBps := 1000
  totalPool := 1000000000000000000
  claimSchemaUid := .replicate 32 0x5c
  responseSchemaUid := .replicate 32 0x5d
  valuationSchemaUid := .replicate 32 0x5e

end LiveExample

theorem reconcile_live_example : Reconciles LiveExample.records LiveExample.params
    (reconcile LiveExample.records LiveExample.params) :=
  (@reconcile_live LiveExample.records (by unfold AttestedOnce; decide) LiveExample.params).1

end Trustgraphs.Contributions
