import Trustgraphs.CompositionCore.Proofs.ComputeProofs

/-!
# The pool is conserved source by source

What a composition returns (`Conserves`), that it returns it whenever the inputs are valid and no quota
is zero (`compute_spec`), and that a zero quota is the only way left to fail (`compute_zero`).
-/

namespace Trustgraphs.Composition

open Outcome Related BTreeMap List

def sourceWeights (m : CapturedManifest) : List (B256 × U128) :=
  m.sources.map fun s => (s.sourceId, BitVec.ofNat 128 s.weight.toNat)

/-- A source of the manifest with its blob, and what it allocates: its share of the pool, all of it to
accounts of the blob. -/
structure SourceConserved (fromSlice : Bytes → Option (BTreeMap Bytes Bytes))
    (weights : List (B256 × U128)) (pool : ℕ) (pair : CapturedSource × SourcePreimage)
    (a : SourceAllocation) : Prop where
  sourceId : a.sourceId = pair.1.sourceId
  quota : a.quota.toNat = shareOf weights pool a.sourceId
  blob : ∃ entries, decodeCanonicalScoreBlob fromSlice pair.2.blob = .ok entries ∧
    ∀ e ∈ a.allocations, e.account ∈ entries.map Prod.fst ∧
      e.value.toNat = shareOf entries a.quota.toNat e.account
  sum : (a.allocations.map fun e => e.value.toNat).sum = a.quota.toNat

/-- The pool is split among the sources, and the scores are what the accounts get from all of them. -/
structure Conserves (fromSlice : Bytes → Option (BTreeMap Bytes Bytes))
    (input : GuestInput) (r : ComputeResult) : Prop where
  manifest : parseCaptureManifest input.manifest input.params.chainId = .ok r.manifest
  preimages : input.sourcePreimages.length = r.manifest.sources.length
  sources : List.Forall₂
    (SourceConserved fromSlice (sourceWeights r.manifest) input.params.outputPool.toNat)
    (r.manifest.sources.zip input.sourcePreimages) r.sourceAllocations
  quotas : (r.sourceAllocations.map fun a => a.quota.toNat).sum = input.params.outputPool.toNat
  score : ∀ e ∈ r.scores, e.2.toNat = (r.sourceAllocations.map (SourceAllocation.allocatedTo e.1)).sum
  scored : ∀ a ∈ r.sourceAllocations, ∀ e ∈ a.allocations, e.account ∈ r.scores.map Prod.fst
  ascending : (r.scores.map Prod.fst).Pairwise (· < ·)
  pos : ∀ e ∈ r.scores, e.2 ≠ 0
  total : (r.scores.map fun e => e.2.toNat).sum = input.params.outputPool.toNat

theorem le_paidTo {entries : List AllocationEntry} {e : AllocationEntry} (h : e ∈ entries) :
    e.value.toNat ≤ paidTo entries e.account :=
  single_le_sum (fun _ _ => Nat.zero_le _) _
    (mem_map_of_mem (f := fun e : AllocationEntry => e.value.toNat)
      (mem_filter.mpr ⟨h, by simp⟩))

variable {m : BTreeMap Address U128}

theorem toNat_of_getElem? {k : Address} {v : U128} (h : m[k]? = some v) : v.toNat = valueAt m k := by
  rw [valueAt, Std.ExtTreeMap.getD_eq_getD_getElem?, h]
  rfl

theorem sum_map_sum {ι α : Type} (s : Finset ι) (l : List α) (f : ι → α → ℕ) :
    ∑ i ∈ s, (l.map (f i)).sum = (l.map fun a => ∑ i ∈ s, f i a).sum := by
  induction l with
  | nil => simp
  | cons a l ih => simp only [map_cons, sum_cons, Finset.sum_add_distrib, ih]

theorem sum_combined {allocations : List SourceAllocation}
    (hsum : ∀ a ∈ allocations, (a.allocations.map fun e => e.value.toNat).sum = a.quota.toNat)
    (hvalue : ∀ k, valueAt m k = (allocations.map (SourceAllocation.allocatedTo k)).sum)
    (hmem : ∀ k, k ∈ m ↔ ∃ a ∈ allocations, k ∈ a.allocations.map AllocationEntry.account) :
    ((m.toList.map Prod.snd).map BitVec.toNat).sum = (allocations.map fun a => a.quota.toNat).sum := by
  calc ((m.toList.map Prod.snd).map BitVec.toNat).sum
      = (m.toList.map fun e => e.2.toNat).sum := by rw [map_map]; rfl
    _ = ∑ k ∈ m.dom, valueAt m k := sum_toList m (fun _ v => v.toNat) _ fun k v h => toNat_of_getElem? h
    _ = ∑ k ∈ m.dom, (allocations.map (SourceAllocation.allocatedTo k)).sum :=
        Finset.sum_congr rfl fun k _ => hvalue k
    _ = (allocations.map fun a => ∑ k ∈ m.dom, a.allocatedTo k).sum := sum_map_sum ..
    _ = (allocations.map fun a => a.quota.toNat).sum := by
        refine congrArg List.sum (map_congr_left fun a ha => ?_)
        rw [← hsum a ha]
        refine sum_paidTo fun e he => ?_
        rw [mem_dom, hmem]
        exact ⟨a, ha, mem_map_of_mem he⟩

theorem map_pos {allocations : List SourceAllocation}
    (hpos : ∀ a ∈ allocations, ∀ e ∈ a.allocations, e.value ≠ 0)
    (hvalue : ∀ k, valueAt m k = (allocations.map (SourceAllocation.allocatedTo k)).sum)
    (hmem : ∀ k, k ∈ m ↔ ∃ a ∈ allocations, k ∈ a.allocations.map AllocationEntry.account) :
    ∀ e ∈ m.toList, e.2 ≠ 0 := by
  rintro ⟨k, v⟩ he hzero
  have hget := mem_toList.mp he
  obtain ⟨a, ha, hk⟩ := (hmem k).mp (mem_iff_getElem?.mpr ⟨v, hget⟩)
  obtain ⟨e, hentry, rfl⟩ := mem_map.mp hk
  have hle := le_paidTo hentry
  have hmemSum : a.allocatedTo e.account ∈ allocations.map (SourceAllocation.allocatedTo e.account) :=
    mem_map_of_mem ha
  have hleSum := single_le_sum (fun _ _ => Nat.zero_le _) _ hmemSum
  have hv : v.toNat = 0 := by rw [show v = 0 from hzero]; rfl
  rw [← hvalue, ← toNat_of_getElem? hget, hv] at hleSum
  have hzero : e.value.toNat = 0 := by
    have : a.allocatedTo e.account = paidTo a.allocations e.account := rfl
    omega
  exact hpos a ha e hentry (BitVec.eq_of_toNat_eq hzero)

theorem toNat_setWidth_score (v : U128) : (v.setWidth 256).toNat = v.toNat := by
  have hv := v.isLt
  rw [BitVec.toNat_setWidth]
  exact Nat.mod_eq_of_lt (by omega)

section Spec

variable {H : Hashes} {fromSlice : Bytes → Option (BTreeMap Bytes Bytes)}
  {input : GuestInput} {m : CapturedManifest} {validated : List ValidatedSource}

variable {quotas : List (Apportioned B256)}

/-- What the loop over the quotas leaves is conserved. -/
theorem conserves {allocations : List SourceAllocation} {r : ComputeResult} {combined : BTreeMap Address U128}
    (h : InputChecked H fromSlice input m validated) (hshare : ∀ q ∈ quotas, q.allocation.toNat =
      shareOf (weightsOf validated) input.params.outputPool.toNat q.key)
    (hquotas : (allocations.map fun a => a.quota.toNat).sum = input.params.outputPool.toNat)
    (hforall : List.Forall₂ (fun v a => Allocated v a ∧
      ∃ q ∈ quotas, q.key = a.sourceId ∧ q.allocation = a.quota) validated allocations)
    (hvalue : ∀ k, valueAt combined k = (allocations.map (SourceAllocation.allocatedTo k)).sum)
    (hmem : ∀ k, k ∈ combined ↔ ∃ a ∈ allocations, k ∈ a.allocations.map AllocationEntry.account)
    (hm : r.manifest = m) (hsources : r.sourceAllocations = allocations)
    (hscores : r.scores = scoresOfMap combined) : Conserves fromSlice input r := by
  have hspent : ∀ a ∈ allocations, (a.allocations.map fun e => e.value.toNat).sum = a.quota.toNat := by
    intro a ha
    obtain ⟨v, -, hv, -⟩ := exists_of_forall₂ hforall ha
    exact hv.sum
  have hpositive : ∀ a ∈ allocations, ∀ e ∈ a.allocations, e.value ≠ 0 := by
    intro a ha
    obtain ⟨v, -, hv, -⟩ := exists_of_forall₂ hforall ha
    exact hv.pos
  have hnonzero := map_pos hpositive hvalue hmem
  have hmap : scoresOfMap combined = combined.toList.map fun entry => (entry.1, entry.2.setWidth 256) := by
    rw [scoresOfMap, filter_eq_self.mpr]
    intro e he
    simpa using hnonzero e he
  rw [hmap] at hscores
  constructor
  · rw [hm]
    exact h.static.parsed
  · rw [hm]
    exact h.static.preimages
  · rw [hm, hsources]
    have hboth := forall₂_trans h.backed hforall
    refine hboth.imp fun pair a hpair => ?_
    obtain ⟨v, hv, ha, q, hq, hkey, hallocation⟩ := hpair
    refine ⟨ha.sourceId.trans hv.sourceId, ?_, ⟨v.entries, hv.decoded, ha.share⟩, ha.sum⟩
    rw [← hallocation, hshare q hq, hkey, sourceWeights, h.weightsOf_eq]
  · rw [hsources]
    exact hquotas
  · intro e he
    rw [hscores] at he
    obtain ⟨entry, hentry, rfl⟩ := mem_map.mp he
    rw [hsources, ← hvalue]
    show (entry.2.setWidth 256).toNat = _
    rw [toNat_setWidth_score]
    exact toNat_of_getElem? (mem_toList.mp hentry)
  · intro a ha e he
    rw [hsources] at ha
    have hin := (hmem e.account).mpr ⟨a, ha, mem_map_of_mem he⟩
    obtain ⟨v, hv⟩ := mem_iff_getElem?.mp hin
    rw [hscores, map_map]
    exact mem_map.mpr ⟨(e.account, v), mem_toList.mpr hv, rfl⟩
  · rw [hscores, map_map]
    exact pairwise_map.mpr combined.toList_sorted
  · intro e he hzero
    rw [hscores] at he
    obtain ⟨entry, hentry, rfl⟩ := mem_map.mp he
    refine hnonzero entry hentry (BitVec.eq_of_toNat_eq ?_)
    rw [← toNat_setWidth_score, show entry.2.setWidth 256 = 0 from hzero]
    rfl
  · have htotal := sum_combined hspent hvalue hmem
    rw [hquotas, map_map] at htotal
    rw [hscores, map_map, ← htotal]
    refine congrArg List.sum (map_congr_left fun entry _ => ?_)
    exact toNat_setWidth_score entry.2

theorem compute_spec (hinput : validateInput H fromSlice input = .ok (m, validated)) :
    ∃ quotas, sourceQuotas input.params validated = .ok quotas ∧ ((∀ q ∈ quotas, q.allocation ≠ 0) →
        ∃ r, compute H fromSlice input = .ok r ∧ Conserves fromSlice input r) := by
  have h := inputChecked_of_validateInput hinput
  obtain ⟨quotas, hquotas, hkeys, hshares, hsum⟩ := h.exists_quotas
  refine ⟨quotas, hquotas, fun hpos => ?_⟩
  have hnodup : (validated.map ValidatedSource.sourceId).Nodup := by
    rw [h.ids_eq]
    exact pairwise_map.mpr (h.static.policy.ascending.imp fun hlt => hlt.ne)
  have hpool := input.params.outputPool.isLt
  have hkeyed : List.Forall₂ (fun v q => q.key = v.sourceId) validated quotas :=
    (forall₂_of_map_eq hkeys.symm).imp fun v q heq => heq.symm
  have hfits : ∀ k, valueAt (⟨[], ∅⟩ : Blend).combined k +
      (quotas.map fun q => q.allocation.toNat).sum < 2 ^ 128 := by
    intro k
    rw [valueAt_empty, hsum]
    omega
  obtain ⟨allocations, blend, hfold, hlist, hforall, hquotaOf, hvalue, hmem⟩ := foldlM_allocateQuota
    hnodup (fun v hv => h.backed_of_mem hv) hkeyed (fun v hv => hv) hpos hfits
  rw [nil_append] at hlist
  simp only [valueAt_empty, Nat.zero_add] at hvalue
  simp only [Std.ExtTreeMap.not_mem_empty, or_false] at hmem
  have hquotaSum : (allocations.map fun a => a.quota.toNat).sum = input.params.outputPool.toNat := by
    have hnat := congrArg (List.map BitVec.toNat) hquotaOf
    rw [map_map, map_map] at hnat
    rw [← hsum]
    exact congrArg List.sum hnat
  have htotal := sum_combined (fun a ha => by
    obtain ⟨v, -, hv, -⟩ := exists_of_forall₂ hforall ha
    exact hv.sum) hvalue hmem
  rw [hquotaSum] at htotal
  obtain ⟨root, hroot⟩ := Merkle.merkleRoot_isSome H
    ((scoresOfMap blend.combined).map fun e => outputLeaf H e.1 e.2)
  exact ⟨_, bind_eq_ok.mpr ⟨(m, validated), hinput, bind_eq_ok.mpr ⟨quotas, hquotas, bind_eq_ok.mpr
    ⟨blend, hfold, bind_eq_ok.mpr ⟨input.params.outputPool, orOverflow_eq_ok.mpr
      (Checked.sum_eq_some.mpr htotal.symm), ite_error_eq_ok.mpr ⟨not_not.mpr rfl, bind_eq_ok.mpr
        ⟨root, ofPanic_eq_ok.mpr hroot, rfl⟩⟩⟩⟩⟩⟩,
    conserves h hshares hquotaSum hforall hvalue hmem rfl hlist rfl⟩

/-- The loop over quotas stops at the first one that is zero. -/
theorem foldlM_allocateQuota_zero (hnodup : (validated.map ValidatedSource.sourceId).Nodup)
    (hbacked : ∀ v ∈ validated, ∃ pair, Backed fromSlice pair v) {vs : List ValidatedSource}
    (hkeys : List.Forall₂ (fun v q => q.key = v.sourceId) vs quotas) (hsub : ∀ v ∈ vs, v ∈ validated)
    (hzero : ∃ q ∈ quotas, q.allocation = 0) {st : Blend}
    (hfits : ∀ k, valueAt st.combined k + (quotas.map fun q => q.allocation.toNat).sum < 2 ^ 128) :
    ∃ q ∈ quotas, q.allocation = 0 ∧ quotas.foldlM (allocateQuota validated) st =
      reject (.requiredSourceReceivedZero q.key) := by
  induction hkeys generalizing st with
  | nil =>
    obtain ⟨q, hq, -⟩ := hzero
    exact absurd hq not_mem_nil
  | @cons v q vs quotas hkey hrest ih =>
    obtain ⟨hv, hsub⟩ := forall_mem_cons.mp hsub
    rw [map_cons, sum_cons] at hfits
    by_cases hq : q.allocation = 0
    · refine ⟨q, mem_cons_self, hq, ?_⟩
      rw [foldlM_cons, allocateQuota, if_pos hq]
      rfl
    · obtain ⟨pair, hpair⟩ := hbacked v hv
      have hquotaFits : ∀ k, valueAt st.combined k + q.allocation.toNat < 2 ^ 128 := by
        intro k
        have := hfits k
        omega
      obtain ⟨a, st₁, hstep, hallocated, hquota, -, hvalue, -⟩ :=
        allocateQuota_spec hnodup hv hpair hkey hq hquotaFits
      have hrest : ∀ k, valueAt st₁.combined k + (quotas.map fun q => q.allocation.toNat).sum < 2 ^ 128 := by
        intro k
        have h₁ := hfits k
        have h₂ : a.allocatedTo k ≤ _ := paidTo_le a.allocations k
        rw [hallocated.sum, hquota] at h₂
        rw [hvalue]
        omega
      have hlater : ∃ q ∈ quotas, q.allocation = 0 := by
        obtain ⟨q', hq', hzero'⟩ := hzero
        rcases mem_cons.mp hq' with rfl | hq'
        · exact absurd hzero' hq
        · exact ⟨q', hq', hzero'⟩
      obtain ⟨q', hq', hzero', hfold⟩ := ih hsub hlater hrest
      refine ⟨q', mem_cons_of_mem q hq', hzero', ?_⟩
      rw [foldlM_cons, hstep]
      exact hfold

theorem compute_zero (hinput : validateInput H fromSlice input = .ok (m, validated))
    (hquotas : sourceQuotas input.params validated = .ok quotas)
    (hzero : ∃ q ∈ quotas, q.allocation = 0) : ∃ q ∈ quotas, q.allocation = 0 ∧
      compute H fromSlice input = reject (.requiredSourceReceivedZero q.key) := by
  have h := inputChecked_of_validateInput hinput
  obtain ⟨quotas', hquotas', hkeys, -, hsum⟩ := h.exists_quotas
  obtain rfl := ok_inj (hquotas'.symm.trans hquotas)
  have hnodup : (validated.map ValidatedSource.sourceId).Nodup := by
    rw [h.ids_eq]
    exact pairwise_map.mpr (h.static.policy.ascending.imp fun hlt => hlt.ne)
  have hpool := input.params.outputPool.isLt
  have hfits : ∀ k, valueAt (⟨[], ∅⟩ : Blend).combined k +
      (quotas'.map fun q => q.allocation.toNat).sum < 2 ^ 128 := by
    intro k
    rw [valueAt_empty, hsum]
    omega
  obtain ⟨q, hq, hzero, hfold⟩ := foldlM_allocateQuota_zero hnodup (fun v hv => h.backed_of_mem hv)
    ((forall₂_of_map_eq hkeys.symm).imp fun v q heq => heq.symm) (fun v hv => hv) hzero hfits
  refine ⟨q, hq, hzero, ?_⟩
  unfold compute
  rw [hinput]
  show (sourceQuotas input.params validated >>= fun quotas => _) = _
  rw [hquotas]
  show (quotas'.foldlM (allocateQuota validated) ⟨[], ∅⟩ >>= fun blend => _) = _
  rw [hfold]
  rfl

end Spec

/-- A composition that returns conserves the pool source by source. Once everything in front of the
apportionment is validated the quotas exist, and if all of them are positive the result does. -/
theorem composition_conserves (H : Hashes)
    (fromSlice : Bytes → Option (BTreeMap Bytes Bytes)) (input : GuestInput) :
    (∀ r, compute H fromSlice input = .ok r → Conserves fromSlice input r) ∧
    ∀ m validated, validateInput H fromSlice input = .ok (m, validated) →
      ∃ quotas, sourceQuotas input.params validated = .ok quotas ∧
        ((∀ q ∈ quotas, q.allocation ≠ 0) → ∃ r, compute H fromSlice input = .ok r) := by
  constructor
  · intro r hr
    obtain ⟨⟨m, validated⟩, hinput, hrest⟩ := of_bind hr
    obtain ⟨quotas, hquotas, hrest⟩ := of_bind hrest
    obtain ⟨blend, hfold, -⟩ := of_bind hrest
    obtain ⟨quotas', hquotas', hspec⟩ := compute_spec hinput
    obtain rfl : quotas' = quotas := ok_inj (hquotas'.symm.trans hquotas)
    obtain ⟨r', hr', hconserves⟩ := hspec (pos_of_foldlM_allocateQuota hfold)
    rwa [ok_inj (hr.symm.trans hr')]
  · intro m validated hinput
    obtain ⟨quotas, hquotas, hspec⟩ := compute_spec hinput
    exact ⟨quotas, hquotas, fun hpos => (hspec hpos).imp fun r hr => hr.1⟩

namespace CompositionExample

def word (n : Nat) : B256 := .ofNat 32 n

def addr (n : Nat) : Address := .ofNat 20 n

def names : List (Bytes × B256) :=
  [(utf8 "trust-compose",
      .ofNat 32 0xf21b8f73c590106e82fb255eb77cb874c0610b9db9e2ea9c2be36eda57b44102),
    (utf8 "eip155-address",
      .ofNat 32 0xbe297acfcdfeb941c947581e60a05f869a3ff1133b88bef7735bdab1c28e3bef),
    (utf8 "allocation",
      .ofNat 32 0xf96f9891e6ddd310141c323b55c40e1ccf0fcb5560f755b3387240dee7f177a1),
    (utf8 "trustgraphs.output.trust-compose-account.v1",
      .ofNat 32 0xa5df42a9d061bedde1153250a461a5fa10945a6458a7e9a2e9217eb2a1cf0cc4),
    (utf8 "trust-graph",
      .ofNat 32 0xdb036dae12e8641d1e58d416eec22090955469d8da1c292e2b6b02ecb9e8d380),
    (utf8 "trust-graph-weighted",
      .ofNat 32 0xbab333b5932d7fa8073fe8ed541c0d2aef9667198b0417f43ee5c920071af2b2),
    (utf8 "trustgraphs.output.trust-graph-account.v1",
      .ofNat 32 0xa8ba97693d080750d9a6972406e8f5488842c338c94b402e5f02dad3d9e9eea5),
    (utf8 "trustgraphs.output.weighted-trust-graph-account.v1",
      .ofNat 32 0x0509c32608494c9065912b6e03f10cfe54d31c433ffe3547fc729474342c293f),
    (utf8 "trust-compose.source-compatibility.v1",
      .ofNat 32 0xd487b1a7c4903dc0eebc3dd61da478a34d06b4d32f3ca6bc8d2f9d12e247ad26)]

def name (s : String) : B256 := ((names.find? fun e => e.1 == utf8 s).map Prod.snd).getD 0

def entries1 : List (Address × U128) := [(addr 1, 3), (addr 2, 7)]

def entries2 : List (Address × U128) := [(addr 2, 1), (addr 3, 1)]

def scores : List (Address × U256) := [(addr 1, 120), (addr 2, 580), (addr 3, 300)]

def source1 : CapturedSource where
  sourceId := word 1
  snapshot := addr 0x21
  familyId := word 0x31
  programId := name "trust-graph"
  sourceOutputDomain := name "trustgraphs.output.trust-graph-account.v1"
  stateIndex := 0
  freezeBlock := 90
  outputRoot := .ofNat 32 0x055554f4c108e2d747e13af076ad65ba7dd0e88eac6564652d7bb9626a4e1620
  blobSha256 := .ofNat 32 0xaec47cc2a5bf7e8cfd0abbc47a962224ec8cf13602e7f9953928b11b5d0dfad0
  cidDigest := .ofNat 32 0xcaf1ca6372d0a8df68b2f29b43fb17f752b6c6cfb7c63ebe624484559076c8d9
  totalValue := 10
  weight := 400000000000000000
  maxAgeBlocks := 50
  required := true

def source2 : CapturedSource where
  sourceId := word 2
  snapshot := addr 0x22
  familyId := word 0x32
  programId := name "trust-graph-weighted"
  sourceOutputDomain := name "trustgraphs.output.weighted-trust-graph-account.v1"
  stateIndex := 0
  freezeBlock := 90
  outputRoot := .ofNat 32 0xbeb50d4667a2e9637f9a02b9c9d1e6c60c419b8e6434e5b1c738352102677db8
  blobSha256 := .ofNat 32 0xb404df840c844b336d28071ddcc72618c152297d93ce412c9f49d66cacec0cc7
  cidDigest := .ofNat 32 0x9aedd38eaefbee51b8d62de5356d3ef90804855ec406b0bae8158159fcc2eca9
  totalValue := 2
  weight := 600000000000000000
  maxAgeBlocks := 50
  required := true

def manifest : CapturedManifest := ⟨10, 100, [source1, source2]⟩

def params : Params where
  version := 1
  programId := name "trust-compose"
  scopeHash := word 1
  identityDomain := name "eip155-address"
  outputKind := name "allocation"
  outputDomain := name "trustgraphs.output.trust-compose-account.v1"
  sourceCompatibilityClass := .ofNat 32 0x5426d501d31705b306bf65d6260a564441ff6b3b98a4375766c76348b7cca9e2
  weightScale := 1000000000000000000
  outputPool := 1000
  sourcePolicyRoot := .ofNat 32 0xe5ff65a8b82489555bd92c95f807b693eac3d25faeb3eac02bb0e3c41f243015
  sourceCount := 2
  policyManifestSha256 := .ofNat 32 0xe72fa3822e1606b3f002e08ee4dc61d03516c4c06db088999cfd8419ab17d92e
  maxSources := 2
  maxEntriesPerSource := 10
  maxAggregateEntries := 20
  maxUnionAccounts := 20
  maxAggregateBlobBytes := 1000
  maxSourceAgeBlocks := 100
  accumulator := addr 0x0b
  chainId := 10

def commitment : B256 := .ofNat 32 0x5d71adaba3928c83ba7e08133235f68e0b30eb9c7efce46322bf2205abe9376a

def leaves : List ((Address × U256) × B256 × B256) :=
  [((addr 1, 3), .ofNat 32 0xa15bc60c955c405d20d9149c709e2460f1c2d9a497496a7f46004d1772c3054c,
      .ofNat 32 0x2c644dcf44e265ba93879b2da89e1b16ab48fc5eb8e31bc16b0612d6da8463f1),
    ((addr 2, 7), .ofNat 32 0xb7c774451310d1be4108bc180d1b52823cb0ee0274a6c0081bcaf94f115fb96d,
      .ofNat 32 0xd6de725bb48e0bc629c0e827168a68e25f0ced693aa574d8ae15b651380a01c9),
    ((addr 2, 1), .ofNat 32 0xd9d16d34ffb15ba3a3d852f0d403e2ce1d691fb54de27ac87cd2f993f3ec330f,
      .ofNat 32 0x9feccf6caa602894c8105bdda7f81b2a7bb7de7dba1f18af92d8d057b708cb41),
    ((addr 3, 1), .ofNat 32 0x7dfe757ecd65cbd7922a9c0161e935dd7fdbcc0e999689c7d31633896b1fc60b,
      .ofNat 32 0x73661f06600408586227726a59a462d4c7b87e9a7813effa8f25d467d8ff051c),
    ((addr 1, 120), .ofNat 32 0x4b338c636339504f3a745b8a64d865fad9a70b657e309e0ad9517e62114084b9,
      .ofNat 32 0x3a9970c04af8e2be545a355756a1dfd5751d7ffabbe6b7ce8fd83fec117c9e94),
    ((addr 2, 580), .ofNat 32 0xe16d1001df82cea1271ef33f5af24f7b87b49e9556d14ac499afd586dfe0ea2a,
      .ofNat 32 0xbd885d8b63212739dff0a026318e5d6b6c4e1940b2d4b397d2a9c1c7ad5d85f9),
    ((addr 3, 300), .ofNat 32 0x4524f0e45243421c144d4511f181f06209e696ee8a3d8f12ad37d61eb89a019b,
      .ofNat 32 0x8824bbaa5c210f67b251adfccef241bc52a335a51c1216f8c4452130c4c2f334)]

def leaf (account : Nat) (value : U256) : B256 :=
  ((leaves.find? fun e => e.1 == (addr account, value)).map fun e => e.2.2).getD 0

def policyLeaves : List B256 :=
  [.ofNat 32 0x0f7b3197e9a139a2acd56a3cd9a70ae396c51d1c2bac27bfde1a3d49744290e7,
    .ofNat 32 0x0cd563a4b37ffe4392dca5520ff55f22ac4408753c27c9bd9c18f88c06ce1a00]

def lowerPair : B256 := .ofNat 32 0xa6f2c90f64313957003ce4f22759d318319363451654d920cb32c5d2a54e0bea

def strings : List (Bytes × B256) :=
  leaves.flatMap (fun e => [(wordAddr e.1.1 ++ wordU256 e.1.2, e.2.1), (e.2.1.bytes, e.2.2)]) ++
    [(names.getLastD ([], 0) |>.2.bytes ++ (name "eip155-address").bytes ++ (name "allocation").bytes ++
        source1.programId.bytes ++ source1.sourceOutputDomain.bytes ++ source2.programId.bytes ++
        source2.sourceOutputDomain.bytes, params.sourceCompatibilityClass),
      (pairPreimage (leaf 1 3) (leaf 2 7), source1.outputRoot),
      (pairPreimage (leaf 2 1) (leaf 3 1), source2.outputRoot),
      (pairPreimage (leaf 1 120) (leaf 3 300), lowerPair),
      (pairPreimage lowerPair (leaf 2 580), .ofNat 32 0xfcfead398678c914ee67d40bff904c2ca4a6b87ab44544fa4cea00128d4b98e2),
      (cidV1Raw source1.blobSha256, source1.cidDigest),
      (cidV1Raw source2.blobSha256, source2.cidDigest),
      (cidV1Raw (.ofNat 32 0x52d45dacb4b2b7ad7c2c68adc5d9b98590ce25427d32d9c9cb9bdbb910fad151), .ofNat 32 0x2d46e4e996a5848fed6f0019fb16cfeed8b22bfc2dcbb86abf714fb49b65961a),
      (pairPreimage (policyLeaves.getD 0 0) (policyLeaves.getD 1 0), params.sourcePolicyRoot),
      (paramsEncoded params, .ofNat 32 0x286555719f033567a8af6be2a9e52a7be6e2728ab1a113702857a7597675865f)] ++
    ([source1, source2].map fun s => s.sourceId.bytes ++ wordAddr s.snapshot ++ s.familyId.bytes ++
      s.programId.bytes ++ s.sourceOutputDomain.bytes ++ wordU64 s.weight ++ wordU64 s.maxAgeBlocks ++
      wordU8 1).zip policyLeaves

def hashes : Hashes where
  keccak256 s := (((names ++ strings).find? fun e => e.1 == s).map Prod.snd).getD 0
  sha256 s :=
    if s = captureBytes manifest then commitment
    else if s = policyManifestEncoded 10 manifest.sources then params.policyManifestSha256
    else if s = canonicalBlob (scoresOf entries1) then source1.blobSha256
    else if s = canonicalBlob (scoresOf entries2) then source2.blobSha256
    else if s = canonicalBlob scores then .ofNat 32 0x52d45dacb4b2b7ad7c2c68adc5d9b98590ce25427d32d9c9cb9bdbb910fad151
    else 0

def texts (entries : List (Address × U128)) : BTreeMap Bytes Bytes :=
  BTreeMap.ofEntries (entries.map fun e => (utf8 "0x" ++ hexEncode e.1.bytes, decimal e.2.toNat))

def fromSlice (blob : Bytes) : Option (BTreeMap Bytes Bytes) :=
  if blob = canonicalBlob (scoresOf entries1) then some (texts entries1)
  else if blob = canonicalBlob (scoresOf entries2) then some (texts entries2)
  else none

def input : GuestInput where
  params := params
  manifest := captureBytes manifest
  sourcePreimages := [⟨cidV1Raw source1.blobSha256, canonicalBlob (scoresOf entries1)⟩,
    ⟨cidV1Raw source2.blobSha256, canonicalBlob (scoresOf entries2)⟩]
  captureCommitment := commitment
  captureCount := 2
  binding := ⟨addr 0x61, word 0x62⟩

end CompositionExample

open CompositionExample in
/-- Two sources that share an account and a pool of 1000. -/
theorem composition_conserves_two_sources : ∃ r, compute hashes fromSlice input = .ok r ∧
    r.scores = scores ∧ Conserves fromSlice input r := by
  have hok : (compute hashes fromSlice input).toOption.map ComputeResult.scores = some scores := by
    decide +kernel
  obtain ⟨r, hr, hscores⟩ := Option.map_eq_some_iff.mp hok
  have hr := toOption_eq_some.mp hr
  exact ⟨r, hr, hscores, (composition_conserves hashes fromSlice input).1 r hr⟩

end Trustgraphs.Composition
