import Trustgraphs.CompositionCore.Proofs.BlobProofs
import Trustgraphs.CompositionCore.Proofs.PolicyProofs
import Trustgraphs.ZkCore.Proofs.MerkleProofs

/-!
# A composition conserves the pool

Once everything is validated the quotas are shares of the pool, and an allocation fails only where a
quota is zero (`compute_spec`).
-/

namespace Trustgraphs.Composition

open Outcome Related List

def paidTo (entries : List AllocationEntry) (account : Address) : ℕ :=
  ((entries.filter fun e => e.account = account).map fun e => e.value.toNat).sum

def SourceAllocation.allocatedTo (account : Address) (a : SourceAllocation) : ℕ :=
  paidTo a.allocations account

/-- What a map has for an account, zero when it has nothing. -/
def valueAt (m : BTreeMap Address U128) (account : Address) : ℕ := (m.getD account 0).toNat

theorem valueAt_empty (account : Address) : valueAt ∅ account = 0 := by
  rw [valueAt, Std.ExtTreeMap.getD_empty]
  rfl

theorem valueAt_insert (m : BTreeMap Address U128) (k account : Address) (v : U128) :
    valueAt (m.insert k v) account = if k = account then v.toNat else valueAt m account := by
  rw [valueAt, Std.ExtTreeMap.getD_insert]
  simp only [compare_eq_iff_eq]
  by_cases h : k = account
  · rw [if_pos h, if_pos h]
  · rw [if_neg h, if_neg h]
    rfl

theorem paidTo_cons (e : AllocationEntry) (entries : List AllocationEntry) (account : Address) :
    paidTo (e :: entries) account =
      (if e.account = account then e.value.toNat else 0) + paidTo entries account := by
  unfold paidTo
  by_cases h : e.account = account
  · rw [filter_cons_of_pos (by simpa using h), map_cons, sum_cons, if_pos h]
  · rw [filter_cons_of_neg (by simpa using h), if_neg h, Nat.zero_add]

theorem paidTo_le (entries : List AllocationEntry) (account : Address) :
    paidTo entries account ≤ (entries.map fun e => e.value.toNat).sum :=
  (filter_sublist.map _).sum_le_sum fun _ _ => Nat.zero_le _

theorem sum_paidTo {entries : List AllocationEntry} {s : Finset Address} (h : ∀ e ∈ entries, e.account ∈ s) :
    ∑ account ∈ s, paidTo entries account = (entries.map fun e => e.value.toNat).sum := by
  induction entries with
  | nil => simp [paidTo]
  | cons e entries ih =>
    obtain ⟨he, h⟩ := forall_mem_cons.mp h
    simp only [paidTo_cons]
    rw [Finset.sum_add_distrib, ih h, map_cons, sum_cons, Finset.sum_ite_eq, if_pos he]

theorem addEntry_spec {m : BTreeMap Address U128} {e : AllocationEntry}
    (h : valueAt m e.account + e.value.toNat < 2 ^ 128) : ∃ m', addEntry m e = .ok m' ∧
      (∀ k, valueAt m' k = valueAt m k + if e.account = k then e.value.toNat else 0) ∧
      ∀ k, k ∈ m' ↔ k = e.account ∨ k ∈ m := by
  obtain ⟨value, hadd, hvalue⟩ := Checked.add_isSome (a := m.getD e.account 0) (b := e.value) h
  refine ⟨m.insert e.account value, bind_eq_ok.mpr ⟨value, orOverflow_eq_ok.mpr hadd, rfl⟩,
    fun k => ?_, fun k => ?_⟩
  · rw [valueAt_insert]
    by_cases hk : e.account = k
    · subst hk
      rw [if_pos rfl, if_pos rfl, hvalue]
      rfl
    · rw [if_neg hk, if_neg hk, Nat.add_zero]
  · rw [Std.ExtTreeMap.mem_insert, compare_eq_iff_eq, eq_comm]

theorem foldlM_addEntry {entries : List AllocationEntry} {m : BTreeMap Address U128}
    (h : ∀ k, valueAt m k + paidTo entries k < 2 ^ 128) : ∃ m', entries.foldlM addEntry m = .ok m' ∧
      (∀ k, valueAt m' k = valueAt m k + paidTo entries k) ∧
      ∀ k, k ∈ m' ↔ k ∈ entries.map AllocationEntry.account ∨ k ∈ m := by
  induction entries generalizing m with
  | nil => exact ⟨m, rfl, fun k => rfl, fun k => by simp⟩
  | cons e entries ih =>
    simp only [paidTo_cons] at h ⊢
    have he := h e.account
    rw [if_pos rfl] at he
    obtain ⟨m₁, hadd, hvalue, hmem⟩ := addEntry_spec (m := m) (e := e) (by omega)
    obtain ⟨m', hfold, hvalue', hmem'⟩ := ih (m := m₁) fun k => by
      rw [hvalue, Nat.add_assoc]
      exact h k
    refine ⟨m', ?_, fun k => ?_, fun k => ?_⟩
    · rw [foldlM_cons, hadd]
      exact hfold
    · rw [hvalue', hvalue, Nat.add_assoc]
    · rw [hmem', hmem, map_cons, mem_cons]
      tauto

structure Backed (fromSlice : Bytes → Option (BTreeMap Bytes Bytes))
    (pair : CapturedSource × SourcePreimage) (v : ValidatedSource) : Prop where
  sourceId : v.sourceId = pair.1.sourceId
  weight : v.weight = pair.1.weight
  decoded : decodeCanonicalScoreBlob fromSlice pair.2.blob = .ok v.entries
  total : v.totalValue.toNat = sumOf v.entries

variable {H : Hashes} {fromSlice : Bytes → Option (BTreeMap Bytes Bytes)}

theorem validateSourceBlob_eq_ok {maxEntries : ℕ} {source : CapturedSource} {preimage : SourcePreimage}
    {v : ValidatedSource} (h : validateSourceBlob H fromSlice maxEntries source preimage = .ok v) :
    Backed fromSlice (source, preimage) v := by
  unfold validateSourceBlob reject at h
  simp only [ite_error_eq_ok, bind_eq_ok, not_not] at h
  obtain ⟨-, -, -, entries, hdecoded, -, total, hsum, htotal, root, -, -, h⟩ := h
  obtain rfl := ok_inj h
  refine ⟨rfl, rfl, hdecoded, ?_⟩
  rw [orOverflow_eq_ok, Checked.sum_eq_some, map_map] at hsum
  show source.totalValue.toNat = sumOf entries
  rw [← htotal, hsum]
  rfl

structure InputChecked (H : Hashes)
    (fromSlice : Bytes → Option (BTreeMap Bytes Bytes)) (input : GuestInput)
    (m : CapturedManifest) (validated : List ValidatedSource) : Prop where
  static : StaticallyChecked H input m
  backed : List.Forall₂ (Backed fromSlice) (m.sources.zip input.sourcePreimages) validated

variable {validated : List ValidatedSource} {st : Blend}

theorem inputChecked_of_validateInput {input : GuestInput} {m : CapturedManifest}
    (h : validateInput H fromSlice input = .ok (m, validated)) :
    InputChecked H fromSlice input m validated := by
  unfold validateInput reject at h
  simp only [ite_error_eq_ok, bind_eq_ok] at h
  obtain ⟨m', hstatic, -, validated', hblobs, -, -, h⟩ := h
  obtain ⟨rfl, rfl⟩ := Prod.mk.inj (ok_inj h)
  refine ⟨staticChecks_eq_ok.mp hstatic, ?_⟩
  exact (mapM_eq_ok.mp hblobs).imp fun pair v hv => validateSourceBlob_eq_ok hv

theorem weightsOf_of_backed {pairs : List (CapturedSource × SourcePreimage)}
    (h : List.Forall₂ (Backed fromSlice) pairs validated) :
    weightsOf validated = pairs.map fun pair => (pair.1.sourceId, BitVec.ofNat 128 pair.1.weight.toNat) := by
  induction h with
  | nil => rfl
  | cons hpair _ ih =>
    rw [map_cons, ← ih, weightsOf, map_cons, hpair.sourceId, hpair.weight]
    rfl

section Checked

variable {input : GuestInput} {m : CapturedManifest} {validated : List ValidatedSource}
  (h : InputChecked H fromSlice input m validated)
include h

theorem InputChecked.weightsOf_eq : weightsOf validated =
    m.sources.map fun s => (s.sourceId, BitVec.ofNat 128 s.weight.toNat) := by
  have hzip : m.sources = (m.sources.zip input.sourcePreimages).map Prod.fst :=
    (map_fst_zip h.static.preimages.ge).symm
  rw [hzip, map_map]
  exact weightsOf_of_backed h.backed

theorem InputChecked.ids_eq :
    validated.map ValidatedSource.sourceId = m.sources.map CapturedSource.sourceId := by
  have hfst := congrArg (List.map Prod.fst) h.weightsOf_eq
  rw [weightsOf, map_map, map_map] at hfst
  exact hfst

theorem InputChecked.keys_sorted : ((weightsOf validated).map Prod.fst).Pairwise (· < ·) := by
  rw [h.weightsOf_eq, map_map]
  exact pairwise_map.mpr h.static.policy.ascending

theorem InputChecked.positive : Positive (weightsOf validated) := by
  rw [h.weightsOf_eq]
  constructor
  · intro hnil
    have hweights := h.static.policy.weights
    rw [map_eq_nil_iff.mp hnil] at hweights
    exact absurd hweights (by decide)
  · intro item hitem
    obtain ⟨s, hs, rfl⟩ := mem_map.mp hitem
    intro hzero
    have hnat := congrArg BitVec.toNat hzero
    rw [toNat_weight] at hnat
    exact (h.static.policy.checked s hs).weight (UInt64.toNat_inj.mp hnat)

theorem InputChecked.sum_weights :
    (BitVec.ofNat 128 input.params.weightScale.toNat).toNat = sumOf (weightsOf validated) := by
  rw [toNat_weight, (validate_scale_pool h.static.params).1, ← h.static.policy.weights, h.weightsOf_eq,
    sumOf, map_map]
  refine congrArg List.sum (map_congr_left fun s _ => ?_)
  exact (toNat_weight s.weight).symm

theorem InputChecked.exists_quotas : ∃ quotas, sourceQuotas input.params validated = .ok quotas ∧
    quotas.map Apportioned.key = validated.map ValidatedSource.sourceId ∧
    (∀ q ∈ quotas, q.allocation.toNat = shareOf (weightsOf validated) input.params.outputPool.toNat q.key) ∧
    (quotas.map fun q => q.allocation.toNat).sum = input.params.outputPool.toNat := by
  obtain ⟨quotas, hok, hkeys, hshares⟩ := @apportion_eq _ _ _ input.params.outputPool _ h.positive
    h.sum_weights h.keys_sorted
  refine ⟨quotas, hok, ?_, fun q hq => (share_of_mem hkeys hshares hq).2, ?_⟩
  · rw [hkeys, weightsOf, map_map]
    rfl
  · rw [hshares]
    exact sum_shareOf (h.keys_sorted.imp fun h => h.ne) h.positive _

theorem InputChecked.backed_of_mem {v : ValidatedSource} (hv : v ∈ validated) :
    ∃ pair, Backed fromSlice pair v := by
  obtain ⟨pair, -, hpair⟩ := exists_of_forall₂ h.backed hv
  exact ⟨pair, hpair⟩

end Checked

structure Allocated (v : ValidatedSource) (a : SourceAllocation) : Prop where
  sourceId : a.sourceId = v.sourceId
  share : ∀ e ∈ a.allocations, e.account ∈ v.entries.map Prod.fst ∧
    e.value.toNat = shareOf v.entries a.quota.toNat e.account
  pos : ∀ e ∈ a.allocations, e.value ≠ 0
  sum : (a.allocations.map fun e => e.value.toNat).sum = a.quota.toNat

theorem sum_filter_pos (rows : List (Apportioned Address)) :
    (((rows.filter fun row => row.allocation ≠ 0).map fun row =>
      (⟨row.key, row.allocation⟩ : AllocationEntry)).map fun e => e.value.toNat).sum =
        (rows.map fun row => row.allocation.toNat).sum := by
  induction rows with
  | nil => rfl
  | cons row rows ih =>
    by_cases hrow : row.allocation = 0
    · rw [filter_cons_of_neg (by simpa using hrow), ih, map_cons, sum_cons, hrow]
      exact (Nat.zero_add _).symm
    · rw [filter_cons_of_pos (by simpa using hrow), map_cons, map_cons, sum_cons, ih, map_cons, sum_cons]

/-- A positive quota is spent on the accounts of the blob. -/
theorem allocateQuota_spec
    (hnodup : (validated.map ValidatedSource.sourceId).Nodup) {v : ValidatedSource} (hv : v ∈ validated)
    {pair : CapturedSource × SourcePreimage} (hpair : Backed fromSlice pair v) {q : Apportioned B256}
    (hkey : q.key = v.sourceId) (hq : q.allocation ≠ 0)
    (hfits : ∀ k, valueAt st.combined k + q.allocation.toNat < 2 ^ 128) :
    ∃ a st', allocateQuota validated st q = .ok st' ∧ Allocated v a ∧ a.quota = q.allocation ∧
      st'.sourceAllocations = st.sourceAllocations ++ [a] ∧
      (∀ k, valueAt st'.combined k = valueAt st.combined k + a.allocatedTo k) ∧
      ∀ k, k ∈ st'.combined ↔ k ∈ a.allocations.map AllocationEntry.account ∨ k ∈ st.combined := by
  have hdecoded := decoded_of_decode hpair.decoded
  have hpos : Positive v.entries := ⟨hdecoded.ne_nil, hdecoded.pos⟩
  obtain ⟨rows, hrows, hkeys, hshares⟩ := @apportion_eq _ _ _ q.allocation _ hpos
    hpair.total hdecoded.sorted
  obtain ⟨a, ha⟩ : ∃ a : SourceAllocation, a = ⟨q.key, q.allocation,
    (rows.filter fun row => row.allocation ≠ 0).map fun row => ⟨row.key, row.allocation⟩⟩ := ⟨_, rfl⟩
  have hallocated : Allocated v a := by
    subst ha
    refine ⟨hkey, fun e he => ?_, fun e he => ?_, ?_⟩
    · obtain ⟨row, hrow, rfl⟩ := mem_map.mp he
      have hmem := mem_of_mem_filter hrow
      exact share_of_mem hkeys hshares hmem
    · obtain ⟨row, hrow, rfl⟩ := mem_map.mp he
      simpa using (mem_filter.mp hrow).2
    · rw [sum_filter_pos, hshares]
      exact sum_shareOf (hdecoded.sorted.imp fun h => h.ne) hpos _
  have hfind : validated.find? (fun source => source.sourceId = q.key) = some v := by
    cases hf : validated.find? fun source => source.sourceId = q.key with
    | none => exact absurd (find?_eq_none.mp hf v hv) (by simp [hkey])
    | some w =>
      have hw := mem_of_find?_eq_some hf
      have hid : w.sourceId = q.key := by simpa using find?_some hf
      rw [inj_on_of_nodup_map hnodup hw hv (hid.trans hkey)]
  have hentries : ∀ k, valueAt st.combined k + paidTo a.allocations k < 2 ^ 128 := by
    intro k
    have hle := paidTo_le a.allocations k
    have hsum := hallocated.sum
    have hquota : a.quota = q.allocation := by rw [ha]
    rw [hquota] at hsum
    have := hfits k
    omega
  obtain ⟨m', hfold, hvalue, hmem⟩ := foldlM_addEntry hentries
  refine ⟨a, ⟨st.sourceAllocations ++ [a], m'⟩, ?_, hallocated, by rw [ha], rfl, hvalue, hmem⟩
  unfold allocateQuota
  refine ite_error_eq_ok.mpr ⟨hq, bind_eq_ok.mpr ⟨v, ofPanic_eq_ok.mpr hfind, bind_eq_ok.mpr
    ⟨rows, hrows, bind_eq_ok.mpr ⟨m', ?_, ?_⟩⟩⟩⟩
  · rw [ha] at hfold
    exact hfold
  · rw [ha]

/-- The loop over the quotas. -/
theorem foldlM_allocateQuota (hnodup : (validated.map ValidatedSource.sourceId).Nodup)
    (hbacked : ∀ v ∈ validated, ∃ pair, Backed fromSlice pair v) {vs : List ValidatedSource}
    {quotas : List (Apportioned B256)}
    (hkeys : List.Forall₂ (fun v q => q.key = v.sourceId) vs quotas) (hsub : ∀ v ∈ vs, v ∈ validated)
    (hpos : ∀ q ∈ quotas, q.allocation ≠ 0)
    (hfits : ∀ k, valueAt st.combined k + (quotas.map fun q => q.allocation.toNat).sum < 2 ^ 128) :
    ∃ allocations st', quotas.foldlM (allocateQuota validated) st = .ok st' ∧
      st'.sourceAllocations = st.sourceAllocations ++ allocations ∧
      List.Forall₂ (fun v a => Allocated v a ∧
        ∃ q ∈ quotas, q.key = a.sourceId ∧ q.allocation = a.quota) vs allocations ∧
      allocations.map SourceAllocation.quota = quotas.map Apportioned.allocation ∧
      (∀ k, valueAt st'.combined k =
        valueAt st.combined k + (allocations.map (SourceAllocation.allocatedTo k)).sum) ∧
      ∀ k, k ∈ st'.combined ↔
        (∃ a ∈ allocations, k ∈ a.allocations.map AllocationEntry.account) ∨ k ∈ st.combined := by
  induction hkeys generalizing st with
  | nil => exact ⟨[], st, rfl, by simp, .nil, rfl, fun k => rfl, fun k => by simp⟩
  | @cons v q vs quotas hkey hrest ih =>
    obtain ⟨hv, hsub⟩ := forall_mem_cons.mp hsub
    obtain ⟨hq, hpos⟩ := forall_mem_cons.mp hpos
    rw [map_cons, sum_cons] at hfits
    obtain ⟨pair, hpair⟩ := hbacked v hv
    have hquotaFits : ∀ k, valueAt st.combined k + q.allocation.toNat < 2 ^ 128 := by
      intro k
      have := hfits k
      omega
    obtain ⟨a, st₁, hstep, hallocated, hquota, hlist, hvalue, hmem⟩ := allocateQuota_spec hnodup hv hpair hkey hq
      hquotaFits
    have hle : ∀ k, a.allocatedTo k ≤ q.allocation.toNat := by
      intro k
      have h := paidTo_le a.allocations k
      rw [hallocated.sum, hquota] at h
      exact h
    have hrest : ∀ k, valueAt st₁.combined k + (quotas.map fun q => q.allocation.toNat).sum < 2 ^ 128 := by
      intro k
      have h₁ := hfits k
      have h₂ := hle k
      rw [hvalue]
      omega
    obtain ⟨allocations, st', hfold, hlist', hforall, hquotas, hvalue', hmem'⟩ := ih hsub hpos hrest
    refine ⟨a :: allocations, st', ?_, ?_, .cons ⟨hallocated, q, mem_cons_self,
      hkey.trans hallocated.sourceId.symm, hquota.symm⟩ (hforall.imp fun w b hb => ⟨hb.1,
        hb.2.imp fun q' hq' => ⟨mem_cons_of_mem q hq'.1, hq'.2⟩⟩), ?_, fun k => ?_, fun k => ?_⟩
    · rw [foldlM_cons, hstep]
      exact hfold
    · rw [hlist', hlist, append_assoc]
      rfl
    · rw [map_cons, map_cons, hquota, hquotas]
    · rw [hvalue', hvalue, map_cons, sum_cons, Nat.add_assoc]
    · rw [hmem', hmem]
      simp only [mem_cons, exists_eq_or_imp]
      rw [or_left_comm, or_assoc]

theorem pos_of_foldlM_allocateQuota {quotas : List (Apportioned B256)} {st' : Blend}
    (h : quotas.foldlM (allocateQuota validated) st = .ok st') : ∀ q ∈ quotas, q.allocation ≠ 0 := by
  induction quotas generalizing st with
  | nil => simp
  | cons q quotas ih =>
    rw [foldlM_cons] at h
    obtain ⟨st₁, hstep, h⟩ := of_bind h
    exact forall_mem_cons.mpr ⟨(of_guard hstep).1, ih h⟩

end Trustgraphs.Composition
