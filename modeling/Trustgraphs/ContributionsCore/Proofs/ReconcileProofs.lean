import Trustgraphs.ContributionsCore.Compute
import Trustgraphs.Lib.LastWrite

/-!
# Proofs: what a record log reconciles to

The loops over the log are replays of writes to maps, so a live entry is the last of the records that
could have written it, and revocations count wherever they stand.
-/

namespace Trustgraphs.Contributions

open LastWrite List UInt64

/-- The record is no revocation and no revocation names it. -/
def Unrevoked (records : List RawEdge) (r : RawEdge) : Prop :=
  isRevoke r.kind = false ∧ ∀ q ∈ records, isRevoke q.kind = true → q.uid ≠ r.uid

def keeps (records : List RawEdge) (r : RawEdge) : Bool :=
  !isRevoke r.kind && !(revoked records).contains r.uid

variable {records : List RawEdge}

theorem mem_revoked {uid : B256} :
    uid ∈ revoked records ↔ ∃ q ∈ records, isRevoke q.kind = true ∧ q.uid = uid := by
  rw [revoked, BTreeSet.mem_ofList, mem_map]
  constructor
  · rintro ⟨q, hq, rfl⟩
    obtain ⟨hmem, hrev⟩ := mem_filter.mp hq
    exact ⟨q, hmem, hrev, rfl⟩
  · rintro ⟨q, hq, hrev, rfl⟩
    exact ⟨q, mem_filter.mpr ⟨hq, hrev⟩, rfl⟩

theorem keeps_iff {r : RawEdge} : keeps records r = true ↔ Unrevoked records r := by
  have hmem : (revoked records).contains r.uid = true ↔ r.uid ∈ revoked records := Iff.rfl
  rw [keeps, Bool.and_eq_true, Bool.not_eq_true', Bool.not_eq_true', ← Bool.not_eq_true, ← Bool.not_eq_true,
    hmem, mem_revoked]
  unfold Unrevoked
  rw [Bool.not_eq_true]
  refine and_congr_right fun _ => ?_
  push Not
  rfl

/-- The kept records with their positions, in canonical order. -/
def placed (records : List RawEdge) : List (RawEdge × ℕ) :=
  (records.zipIdx.filter fun e => keeps records e.1).insertionSort fun a b => Reconcile.before a b

theorem ordered_eq_placed (records : List RawEdge) : ordered records = (placed records).map Prod.fst := rfl

theorem mem_placed {e : RawEdge × ℕ} :
    e ∈ placed records ↔ records[e.2]? = some e.1 ∧ Unrevoked records e.1 := by
  rw [placed, mem_insertionSort, mem_filter, mem_zipIdx_iff_getElem?, keeps_iff]

def Later (a b : RawEdge × ℕ) : Prop :=
  a.1.blockTimestamp < b.1.blockTimestamp ∨ a.1.blockTimestamp = b.1.blockTimestamp ∧ a.2 < b.2

theorem Later.asymm (a b : RawEdge × ℕ) (h : Later a b) : ¬ Later b a := by
  unfold Later at *
  rw [lt_iff_toNat_lt, ← UInt64.toNat_inj] at *
  omega

theorem before_iff {a b : RawEdge × ℕ} : Reconcile.before a b = true ↔
    a.1.blockTimestamp < b.1.blockTimestamp ∨ a.1.blockTimestamp = b.1.blockTimestamp ∧ a.2 ≤ b.2 := by
  simp [Reconcile.before]

theorem placed_sorted (records : List RawEdge) : (placed records).Pairwise Later := by
  have htotal : Std.Total fun a b : RawEdge × ℕ => Reconcile.before a b = true := ⟨fun a b => by
    rw [before_iff, before_iff, lt_iff_toNat_lt, lt_iff_toNat_lt, ← UInt64.toNat_inj, ← UInt64.toNat_inj]
    omega⟩
  have htrans : IsTrans (RawEdge × ℕ) fun a b => Reconcile.before a b = true := ⟨fun a b c hab hbc => by
    rw [before_iff, lt_iff_toNat_lt, ← UInt64.toNat_inj] at *
    omega⟩
  have hle := pairwise_insertionSort (fun a b : RawEdge × ℕ => Reconcile.before a b = true)
    (records.zipIdx.filter fun e => keeps records e.1)
  have hnodup : (placed records).Pairwise fun a b => a.2 ≠ b.2 := by
    have hidx : (records.zipIdx.map Prod.snd).Nodup := by
      rw [zipIdx_map_snd]
      exact nodup_range'
    have hperm := perm_insertionSort (fun a b : RawEdge × ℕ => Reconcile.before a b = true)
      (records.zipIdx.filter fun e => keeps records e.1)
    have hkept := hidx.sublist ((filter_sublist (p := fun e => keeps records e.1)).map Prod.snd)
    exact pairwise_map.mp ((hperm.map Prod.snd).nodup_iff.mpr hkept)
  refine (hle.and hnodup).imp fun {a b} h => ?_
  obtain ⟨hab, hne⟩ := h
  rcases before_iff.mp hab with hlt | ⟨heq, hpos⟩
  · exact Or.inl hlt
  · exact Or.inr ⟨heq, lt_of_le_of_ne hpos hne⟩

instance : Std.Total fun a b : RawEdge => a.blockTimestamp ≤ b.blockTimestamp :=
  ⟨fun a b => UInt64.le_total a.blockTimestamp b.blockTimestamp⟩

instance : IsTrans RawEdge fun a b => a.blockTimestamp ≤ b.blockTimestamp := ⟨fun _ _ _ => UInt64.le_trans⟩

theorem ordered_eq (records : List RawEdge) : ordered records =
    (records.filter (keeps records)).insertionSort fun a b => a.blockTimestamp ≤ b.blockTimestamp := by
  have hpos : records.zipIdx.Pairwise fun a b => a.2 < b.2 := by
    have hidx : (records.zipIdx.map Prod.snd).Pairwise (· < ·) := by
      rw [zipIdx_map_snd]
      exact pairwise_lt_range'
    exact pairwise_map.mp hidx
  have hsort := map_insertionSort_of_pairs (r := fun a b : RawEdge × ℕ => Reconcile.before a b = true)
    (s := fun a b : RawEdge => a.blockTimestamp ≤ b.blockTimestamp) (g := Prod.fst)
    ((hpos.filter fun e => keeps records e.1).imp fun {a b} (h : a.2 < b.2) => by
      rw [before_iff, le_iff_toNat_le, lt_iff_toNat_lt, ← UInt64.toNat_inj]
      omega)
  rw [ordered_eq_placed, placed, hsort]
  refine congrArg _ ?_
  have hmap : records = records.zipIdx.map Prod.fst := (zipIdx_map_fst 0 records).symm
  conv_rhs => rw [hmap, filter_map]
  rw [← hmap]
  rfl

theorem filter_ordered (records : List RawEdge) (p : RawEdge → Bool) :
    (ordered records).filter p = ((records.filter (keeps records)).filter p).insertionSort
      fun a b => a.blockTimestamp ≤ b.blockTimestamp := by
  rw [ordered_eq, filter_insertionSort]

section Extends

variable {P : RawEdge → Prop} {records records' : List RawEdge} (h : Extends P records records')
  (hP : ∀ r, P r → isRevoke r.kind = false)
include h hP

theorem revoked_extends : revoked records = revoked records' := by rw [revoked, revoked, h.filter_eq hP]

theorem filterMap_ordered_extends {β : Type} {f : RawEdge → Option β} (hf : ∀ r, P r → f r = none) :
    (ordered records).filterMap f = (ordered records').filterMap f := by
  have hdrop : ∀ l : List RawEdge, l.filterMap f = (l.filter fun r => (f r).isSome).filterMap f := by
    intro l
    induction l with
    | nil => rfl
    | cons r l ih =>
      cases hr : f r with
      | none => rw [filterMap_cons_none hr, filter_cons_of_neg (by simp [hr]), ih]
      | some b => rw [filterMap_cons_some hr, filter_cons_of_pos (by simp [hr]), filterMap_cons_some hr, ih]
  have hkeeps : keeps records = keeps records' := by
    funext r
    rw [keeps, keeps, revoked_extends h hP]
  rw [hdrop, hdrop (ordered records'), filter_ordered, filter_ordered, hkeeps, filter_filter, filter_filter]
  refine congrArg (List.filterMap f) (congrArg _ (h.filter_eq fun r hr => ?_))
  rw [hf r hr]
  rfl

end Extends

theorem ordered_congr {records' : List RawEdge}
    (hkept : (records.filter fun r => !isRevoke r.kind) = records'.filter fun r => !isRevoke r.kind)
    (hrev : ∀ uid, uid ∈ revoked records ↔ uid ∈ revoked records') : ordered records = ordered records' := by
  have hkeeps : keeps records = keeps records' := by
    funext r
    rw [Bool.eq_iff_iff, keeps, keeps, Bool.and_eq_true, Bool.and_eq_true, Bool.not_eq_true', Bool.not_eq_true',
      Bool.not_eq_true', ← Bool.not_eq_true, ← Bool.not_eq_true, ← Bool.not_eq_true]
    exact and_congr_right fun _ => not_congr (hrev r.uid)
  have hsplit : ∀ l l' : List RawEdge, l.filter (keeps l') =
      (l.filter fun r => !isRevoke r.kind).filter (keeps l') := by
    intro l l'
    rw [filter_filter]
    refine filter_congr fun r _ => ?_
    rw [keeps]
    cases isRevoke r.kind <;> simp
  rw [ordered_eq, ordered_eq, hkeeps, hsplit records, hsplit records' records', hkept]

def claimWrite (p : Params) (r : RawEdge) : Option (B256 × LiveClaim) :=
  if r.kind ≠ KIND_CLAIM_ATTEST ∨ r.blockTimestamp < p.roundStart ∨ p.roundEnd < r.blockTimestamp then none
  else (decodeClaim r.data).map fun payload => (r.uid, liveClaim r payload)

def responseWrite (claims : BTreeMap B256 LiveClaim) (r : RawEdge) : Option (ActorKey × UInt8) :=
  if r.kind ≠ KIND_RESPONSE_ATTEST then none
  else (decodeResponse r.data).bind fun payload =>
    if (claims[payload.claimUid]?).any fun claim => claim.shares.contains r.attester then
      some (actorKey payload.claimUid r.attester, payload.response)
    else none

def valuationWrite (claims : BTreeMap B256 LiveClaim) (r : RawEdge) : Option (ActorKey × UInt8) :=
  if r.kind ≠ KIND_VALUATION_ATTEST then none
  else (decodeValuation r.data).bind fun payload =>
    if claims.contains payload.claimUid then some (actorKey payload.claimUid r.attester, payload.score)
    else none

theorem claimStep_eq (p : Params) (claims : BTreeMap B256 LiveClaim) (r : RawEdge) :
    claimStep p claims r = write (claimWrite p) claims r := by
  unfold claimStep write claimWrite
  by_cases hkind : r.kind ≠ KIND_CLAIM_ATTEST
  · rw [if_pos hkind, if_pos (Or.inl hkind)]
  · by_cases hwindow : r.blockTimestamp < p.roundStart ∨ p.roundEnd < r.blockTimestamp
    · rw [if_neg hkind, if_pos hwindow, if_pos (Or.inr hwindow)]
    · rw [if_neg hkind, if_neg hwindow, if_neg (not_or.mpr ⟨hkind, hwindow⟩)]
      cases decodeClaim r.data <;> rfl

theorem actorStep_fst (claims : BTreeMap B256 LiveClaim)
    (st : BTreeMap ActorKey UInt8 × BTreeMap ActorKey UInt8) (r : RawEdge) :
    (actorStep claims st r).1 = write (responseWrite claims) st.1 r := by
  unfold actorStep write responseWrite
  by_cases hkind : r.kind = KIND_RESPONSE_ATTEST
  · rw [if_pos hkind, if_neg (not_not.mpr hkind)]
    cases decodeResponse r.data with
    | none => rfl
    | some payload =>
      simp only [Option.bind_some]
      cases claims[payload.claimUid]? with
      | none => rfl
      | some claim =>
        simp only [Option.any_some]
        by_cases hmem : claim.shares.contains r.attester = true
        · rw [if_pos hmem, hmem]
          rfl
        · rw [if_neg hmem, Bool.not_eq_true _ |>.mp hmem]
          rfl
  · rw [if_neg hkind, if_pos hkind]
    by_cases hval : r.kind = KIND_VALUATION_ATTEST
    · rw [if_pos hval]
      cases decodeValuation r.data with
      | none => rfl
      | some payload =>
        simp only
        split <;> rfl
    · rw [if_neg hval]

theorem actorStep_snd (claims : BTreeMap B256 LiveClaim)
    (st : BTreeMap ActorKey UInt8 × BTreeMap ActorKey UInt8) (r : RawEdge) :
    (actorStep claims st r).2 = write (valuationWrite claims) st.2 r := by
  unfold actorStep write valuationWrite
  by_cases hkind : r.kind = KIND_RESPONSE_ATTEST
  · have hval : r.kind ≠ KIND_VALUATION_ATTEST := by
      rw [hkind]
      decide
    rw [if_pos hkind, if_pos hval]
    cases decodeResponse r.data with
    | none => rfl
    | some payload =>
      simp only
      cases claims[payload.claimUid]? with
      | none => rfl
      | some claim =>
        simp only
        split <;> rfl
  · rw [if_neg hkind]
    by_cases hval : r.kind = KIND_VALUATION_ATTEST
    · rw [if_pos hval, if_neg (not_not.mpr hval)]
      cases decodeValuation r.data with
      | none => rfl
      | some payload =>
        simp only [Option.bind_some]
        cases claims.contains payload.claimUid <;> rfl
    · rw [if_neg hval, if_pos hval]

theorem foldl_actorStep (claims : BTreeMap B256 LiveClaim) (l : List RawEdge)
    (st : BTreeMap ActorKey UInt8 × BTreeMap ActorKey UInt8) :
    l.foldl (actorStep claims) st =
      (l.foldl (write (responseWrite claims)) st.1, l.foldl (write (valuationWrite claims)) st.2) := by
  induction l generalizing st with
  | nil => rfl
  | cons r l ih =>
    rw [foldl_cons, ih, actorStep_fst, actorStep_snd]
    rfl

section Reconciled

variable (records : List RawEdge) (p : Params)

theorem reconcile_claims : (reconcile records p).claims = writes (claimWrite p) (ordered records) := by
  have hstep : claimStep p = write (claimWrite p) := by
    funext claims r
    exact claimStep_eq p claims r
  show (ordered records).foldl (claimStep p) ∅ = _
  rw [hstep]
  rfl

theorem reconcile_responses : (reconcile records p).responses =
    writes (responseWrite (reconcile records p).claims) (ordered records) := by
  show ((ordered records).foldl (actorStep (reconcile records p).claims) (∅, ∅)).1 = _
  rw [foldl_actorStep]
  rfl

theorem reconcile_valuations : (reconcile records p).valuations =
    writes (valuationWrite (reconcile records p).claims) (ordered records) := by
  show ((ordered records).foldl (actorStep (reconcile records p).claims) (∅, ∅)).2 = _
  rw [foldl_actorStep]
  rfl

end Reconciled

theorem reconcile_congr {records' : List RawEdge} (h : ordered records = ordered records')
    (p : Params) : reconcile records p = reconcile records' p := by
  unfold reconcile
  rw [h]

end Trustgraphs.Contributions

/-!
# Proofs: the shares of a claim

A payload has at most `u32::MAX` shares of at most `u32::MAX` each, so no sum of shares wraps, and one of
them is positive.
-/

namespace Trustgraphs.Contributions

open Tally Option List

theorem length_of_mapM {α β : Type} {f : α → Option β} {l : List α} {m : List β} (h : l.mapM f = some m) :
    m.length = l.length := by
  induction l generalizing m with
  | nil =>
    rw [mapM_nil] at h
    rw [← Option.some.inj (show some [] = some m from h)]
    rfl
  | cons a l ih =>
    rw [mapM_cons] at h
    obtain ⟨b, -, h⟩ := bind_eq_some_iff.mp h
    obtain ⟨bs, hbs, h⟩ := bind_eq_some_iff.mp h
    rw [← some_inj.mp h, length_cons, length_cons, ih hbs]

theorem length_elements {α : Type} {decode : B256 → Option α} {data : Bytes} {offset n : Nat}
    {l : List α} (h : elements decode data offset n = some l) : l.length = n := by
  rw [length_of_mapM h, length_range]

theorem wordAsUsize_lt {w : B256} {n : Nat} (h : wordAsUsize w = some n) : n < 2 ^ 32 := by
  have hle : n ≤ 2 ^ 32 - 1 := by
    unfold wordAsUsize at h
    dsimp only at h
    split at h
    · exact absurd h (by simp)
    · rename_i hle
      rw [← some_inj.mp h]
      exact Nat.not_lt.mp hle
  omega

structure ClaimPayload.Sound (payload : ClaimPayload) : Prop where
  length_eq : payload.contributors.length = payload.shares.length
  length_lt : payload.shares.length < 2 ^ 32
  exists_pos : ∃ s ∈ payload.shares, s ≠ 0

variable {payload : ClaimPayload}

theorem decodeClaim_sound {data : Bytes} (h : decodeClaim data = some payload) : payload.Sound := by
  unfold decodeClaim at h
  -- the head, the two strings and the two length words
  iterate 11
    obtain ⟨_, -, h⟩ := bind_eq_some_iff.mp h
  split at h
  · exact absurd h (by simp)
  obtain ⟨_, -, h⟩ := bind_eq_some_iff.mp h
  obtain ⟨n, hn, h⟩ := bind_eq_some_iff.mp h
  obtain ⟨_, -, h⟩ := bind_eq_some_iff.mp h
  obtain ⟨m, -, h⟩ := bind_eq_some_iff.mp h
  split at h
  · exact absurd h (by simp)
  obtain ⟨contributors, hcontributors, h⟩ := bind_eq_some_iff.mp h
  obtain ⟨shares, hshares, h⟩ := bind_eq_some_iff.mp h
  split at h
  · exact absurd h (by simp)
  rename_i hpos
  obtain rfl := some_inj.mp h
  refine ⟨?_, ?_, ?_⟩
  · exact (length_elements hcontributors).trans (length_elements hshares).symm
  · exact (length_elements hshares).trans_lt (wordAsUsize_lt hn)
  · by_contra hnone
    push Not at hnone
    exact hpos (by simpa using hnone)

def shareTerms (payload : ClaimPayload) : List (Address × UInt64) :=
  (payload.contributors.zip payload.shares).map fun e => (e.1, e.2.toUInt64)

theorem sharesOf_eq (payload : ClaimPayload) : sharesOf payload = sums (shareTerms payload) := by
  rw [sharesOf, sums, addAll, shareTerms, foldl_map]

theorem ClaimPayload.Sound.numbers (h : payload.Sound) :
    (numbers UInt64.toNat (shareTerms payload)).map Prod.snd = payload.shares.map UInt32.toNat := by
  rw [map_snd_numbers, shareTerms, List.map_map, List.map_map]
  have hzip : (payload.contributors.zip payload.shares).map Prod.snd = payload.shares :=
    map_snd_zip h.length_eq.ge
  conv_rhs => rw [← hzip, List.map_map]
  refine map_congr_left fun e _ => ?_
  show e.2.toUInt64.toNat = e.2.toNat
  simp

theorem ClaimPayload.Sound.sum_lt (h : payload.Sound) : (payload.shares.map UInt32.toNat).sum < 2 ^ 64 := by
  have hle : (payload.shares.map UInt32.toNat).sum ≤ (payload.shares.map UInt32.toNat).length • (2 ^ 32 - 1) := by
    refine List.sum_le_card_nsmul _ _ fun n hn => ?_
    obtain ⟨s, -, rfl⟩ := List.mem_map.mp hn
    exact Nat.le_pred_of_lt s.toNat_lt
  rw [length_map, smul_eq_mul] at hle
  have hmul : payload.shares.length * (2 ^ 32 - 1) ≤ (2 ^ 32 - 1) * (2 ^ 32 - 1) :=
    Nat.mul_le_mul_right _ (Nat.le_pred_of_lt h.length_lt)
  omega

theorem ClaimPayload.Sound.sum_pos (h : payload.Sound) : 0 < (payload.shares.map UInt32.toNat).sum := by
  obtain ⟨s, hs, hne⟩ := h.exists_pos
  have hpos : 0 < s.toNat := by
    rw [Nat.pos_iff_ne_zero]
    exact fun h0 => hne (UInt32.toNat_inj.mp h0)
  exact lt_of_lt_of_le hpos (le_sum_of_mem (List.mem_map_of_mem hs))

/-- What a live claim has: its shares add up to the total, which is positive, and nothing wraps. -/
structure LiveClaim.Sound (claim : LiveClaim) : Prop where
  total_eq : claim.totalShares.toNat = (claim.shares.toList.map fun e => e.2.toNat).sum
  total_pos : 0 < claim.totalShares.toNat

section Live

variable {r : RawEdge} {payload : ClaimPayload} (h : payload.Sound)
include h

theorem numbers_lt : ((numbers UInt64.toNat (shareTerms payload)).map Prod.snd).sum < 2 ^ 64 := by
  rw [h.numbers]
  exact h.sum_lt

theorem toNat_totalShares : (liveClaim r payload).totalShares.toNat = (payload.shares.map UInt32.toNat).sum := by
  have hsum : (liveClaim r payload).totalShares = ((shareTerms payload).map Prod.snd).sum := by
    show ((sharesOf payload).toList.map Prod.snd).sum = _
    rw [sharesOf_eq, sum_toList_sums]
  have hfits := numbers_lt h
  rw [map_snd_numbers] at hfits
  rw [hsum, modular_uint64.num_sum_of_lt hfits, ← map_snd_numbers, h.numbers]

theorem toNat_share (a : Address) : ((liveClaim r payload).shares.getD a 0).toNat =
    sumAt ((payload.contributors.zip payload.shares).map fun e => (e.1, e.2.toNat)) a := by
  show ((sharesOf payload).getD a 0).toNat = _
  rw [sharesOf_eq, getD_sums, num_sumAt modular_uint64 (numbers_lt h), numbers, shareTerms, List.map_map]
  refine congrArg (fun l => sumAt l a) (map_congr_left fun e _ => ?_)
  show (e.1, e.2.toUInt64.toNat) = (e.1, e.2.toNat)
  simp

theorem mem_shares {a : Address} : a ∈ (liveClaim r payload).shares ↔ a ∈ payload.contributors := by
  show a ∈ sharesOf payload ↔ _
  rw [sharesOf_eq, mem_sums, shareTerms, List.map_map]
  have hzip : (payload.contributors.zip payload.shares).map Prod.fst = payload.contributors :=
    map_fst_zip h.length_eq.le
  conv_rhs => rw [← hzip]
  rfl

theorem liveClaim_sound : (liveClaim r payload).Sound where
  total_eq := by
    rw [toNat_totalShares h]
    -- the aggregated shares come to the sum of the attested ones
    have hshares : ∀ a v, (sharesOf payload)[a]? = some v →
        v.toNat = sumAt (numbers UInt64.toNat (shareTerms payload)) a := by
      intro a v hv
      rw [sharesOf_eq] at hv
      rw [(getElem?_sums_eq_some.mp hv).2, num_sumAt modular_uint64 (numbers_lt h)]
    have hlist := BTreeMap.sum_toList (sharesOf payload) (fun _ v => v.toNat) _ hshares
    show _ = ((sharesOf payload).toList.map fun e => e.2.toNat).sum
    rw [hlist, sum_sumAt, h.numbers]
    intro e he
    obtain ⟨t, ht, rfl⟩ := List.mem_map.mp he
    rw [BTreeMap.mem_dom, sharesOf_eq, mem_sums]
    exact List.mem_map_of_mem ht
  total_pos := by
    rw [toNat_totalShares h]
    exact h.sum_pos

end Live

end Trustgraphs.Contributions
