import Trustgraphs.CompositionCore.Proofs.ConservationProofs
import Trustgraphs.Contracts.Proofs.PolicyBytesProofs

/-!
# Which sources of an accepted policy get nothing

The validator demands a unit of the pool for every source that the instance may ever have.
-/

namespace Trustgraphs.TrustComposeValidator

open Outcome TrustComposeParamsCodec Hamilton CompositionSourceAccumulator List
open Trustgraphs.Composition (U128 Apportioned keysOf valueOf shareOf sumOf)
open CompositionSourceAccumulator (policyRecords accepted_of_validateFinal Accepted)
open WeightedPriorValidator (loadWord CalldataBytes)

def recordWeights (rs : List Record) : List (B256 × U128) :=
  rs.map fun r => (r.sourceId, BitVec.ofNat 128 r.weight.toNat)

section Quotas

variable (pool : ℕ) (rs : List Record)

/-- The whole units that the weight of a source makes up. -/
def quotaFloor (r : Record) : ℕ := r.weight.toNat * pool / WEIGHT_SCALE.toNat

def quotaRest (r : Record) : ℕ := r.weight.toNat * pool % WEIGHT_SCALE.toNat

def servedBefore (r s : Record) : Bool :=
  quotaRest pool r < quotaRest pool s || (quotaRest pool s == quotaRest pool r && s.sourceId < r.sourceId)

def unitsLeft : ℕ := pool - (rs.map (quotaFloor pool)).sum

/-- The weight of a source makes up no unit, and the units that are left go to others. -/
structure Starved (r : Record) : Prop where
  floor : quotaFloor pool r = 0
  unserved : unitsLeft pool rs ≤ rs.countP (servedBefore pool r)

end Quotas

section Shares

variable {rs : List Record} (hascending : rs.Pairwise fun a b => a.sourceId < b.sourceId)
  (hweights : (rs.map fun r => r.weight.toNat).sum = WEIGHT_SCALE.toNat)

include hascending in
theorem keys_recordWeights : ((recordWeights rs).map Prod.fst).Pairwise (· < ·) := by
  rw [recordWeights, map_map]
  exact pairwise_map.mpr hascending

include hascending in
theorem valueOf_recordWeights {r : Record} (hr : r ∈ rs) :
    valueOf (recordWeights rs) r.sourceId = r.weight.toNat := by
  have hmem : (r.sourceId, BitVec.ofNat 128 r.weight.toNat) ∈ recordWeights rs := mem_map_of_mem hr
  rw [Composition.valueOf_eq ((keys_recordWeights hascending).imp fun h => h.ne) hmem, Composition.toNat_weight]

include hweights in
theorem sumOf_recordWeights : sumOf (recordWeights rs) = WEIGHT_SCALE.toNat := by
  rw [sumOf, recordWeights, map_map, ← hweights]
  exact congrArg List.sum (map_congr_left fun r _ => Composition.toNat_weight r.weight)

include hascending hweights

theorem total_recordWeights :
    total (keysOf (recordWeights rs)) (valueOf (recordWeights rs)) = WEIGHT_SCALE.toNat := by
  rw [Composition.total_valueOf ((keys_recordWeights hascending).imp fun h => h.ne), sumOf_recordWeights hweights]

theorem floor_recordWeights (pool : ℕ) {r : Record} (hr : r ∈ rs) :
    floor (keysOf (recordWeights rs)) (valueOf (recordWeights rs)) pool r.sourceId = quotaFloor pool r := by
  rw [floor, total_recordWeights hascending hweights, valueOf_recordWeights hascending hr]
  rfl

theorem remainder_recordWeights (pool : ℕ) {r : Record} (hr : r ∈ rs) :
    remainder (keysOf (recordWeights rs)) (valueOf (recordWeights rs)) pool r.sourceId = quotaRest pool r := by
  rw [remainder, total_recordWeights hascending hweights, valueOf_recordWeights hascending hr]
  rfl

theorem missing_recordWeights (pool : ℕ) :
    missing (keysOf (recordWeights rs)) (valueOf (recordWeights rs)) pool = unitsLeft pool rs := by
  rw [missing, Composition.sum_keysOf ((keys_recordWeights hascending).imp fun h => h.ne), unitsLeft,
    recordWeights, map_map]
  refine congrArg (pool - ·) (congrArg List.sum (map_congr_left fun r hr => ?_))
  exact floor_recordWeights hascending hweights pool hr

theorem rank_recordWeights (pool : ℕ) {r : Record} (hr : r ∈ rs) :
    rank (keysOf (recordWeights rs)) (valueOf (recordWeights rs)) pool r.sourceId =
      rs.countP (servedBefore pool r) := by
  have hnodup : (rs.map Record.sourceId).Nodup := pairwise_map.mpr (hascending.imp fun h => h.ne)
  have hkeys : keysOf (recordWeights rs) = (rs.map Record.sourceId).toFinset := by
    rw [keysOf, recordWeights, map_map]
    rfl
  rw [rank]
  have hfilter : ((keysOf (recordWeights rs)).filter fun j => Before
      (keysOf (recordWeights rs)) (valueOf (recordWeights rs)) pool j r.sourceId) =
      ((rs.filter (servedBefore pool r)).map Record.sourceId).toFinset := by
    ext id
    rw [Finset.mem_filter, mem_toFinset, mem_map]
    constructor
    · rintro ⟨hid, hbefore⟩
      rw [hkeys, mem_toFinset, mem_map] at hid
      obtain ⟨s, hs, rfl⟩ := hid
      refine ⟨s, mem_filter.mpr ⟨hs, ?_⟩, rfl⟩
      rw [Before, remainder_recordWeights hascending hweights pool hr,
        remainder_recordWeights hascending hweights pool hs] at hbefore
      simpa [servedBefore] using hbefore
    · rintro ⟨s, hs, rfl⟩
      obtain ⟨hs, hbefore⟩ := mem_filter.mp hs
      refine ⟨?_, ?_⟩
      · rw [hkeys, mem_toFinset]
        exact mem_map_of_mem hs
      · rw [Before, remainder_recordWeights hascending hweights pool hr,
          remainder_recordWeights hascending hweights pool hs]
        simpa [servedBefore] using hbefore
  rw [hfilter, toFinset_card_of_nodup, length_map, countP_eq_length_filter]
  exact (filter_sublist.map _).nodup hnodup

theorem share_eq_zero_iff (pool : ℕ) {r : Record} (hr : r ∈ rs) :
    shareOf (recordWeights rs) pool r.sourceId = 0 ↔ Starved pool rs r := by
  rw [shareOf, share, floor_recordWeights hascending hweights pool hr,
    rank_recordWeights hascending hweights pool hr, missing_recordWeights hascending hweights pool]
  by_cases hserved : rs.countP (servedBefore pool r) < unitsLeft pool rs
  · rw [if_pos hserved]
    exact iff_of_false (by omega) fun h => absurd h.unserved (not_le.mpr hserved)
  · rw [if_neg hserved, Nat.add_zero]
    exact ⟨fun h => ⟨h, not_lt.mp hserved⟩, fun h => h.floor⟩

end Shares

theorem envelope_pool {H : Hashes} {p : Composition.Params} (h : validateComputationalEnvelope H p = .ok ()) :
    p.weightScale = WEIGHT_SCALE ∧ p.maxSources.toNat ≤ p.outputPool.toNat ∧
      p.sourceCount.toNat ≤ p.maxSources.toNat := by
  unfold validateComputationalEnvelope at h
  obtain ⟨⟨⟩, hstatic, -⟩ := of_bind h
  simp only [validateStatic, revert, ite_error_eq_ok, not_or, not_not, true_and, not_lt] at hstatic
  obtain ⟨-, -, -, -, -, -, -, hscale, hpool, ⟨-, -, hcount⟩, -⟩ := hstatic
  exact ⟨hscale, hpool, UInt8.le_iff_toNat_le.mp hcount⟩

theorem record_sources {H : Hashes} {p : Composition.Params} {manifest : CalldataBytes} {c : Commitment}
    (h : Accepted H p manifest c) {input : Composition.GuestInput} {m : Composition.CapturedManifest}
    (hm : Composition.StaticallyChecked H input m) (hp : input.params = p) (hfree : CollisionFree H.sha256
      [Composition.policyManifestEncoded p.chainId m.sources, manifest.bytes]) :
    m.sources.map Composition.CapturedSource.record = policyRecords manifest c.sourceCount.toNat := by
  have hsha := hm.policy.manifest
  rw [hp, ← h.manifestSha256] at hsha
  have hbytes := hfree.inj _ (by simp) _ (by simp) hsha
  have hcount := hm.sourceCount
  rw [hp, ← h.count] at hcount
  rw [policyManifestEncoded_eq hm.policy.ascending, h.bytes] at hbytes
  refine records_of_flatMap_eq ?_ (append_inj' hbytes ?_).2
  · rw [length_map, ← hcount, policyRecords, length_records]
  · have hlength : ∀ rs : List Record, (rs.flatMap recordBytes).length = rs.length * RECORD_LENGTH := by
      intro rs
      rw [length_flatMap, map_congr_left fun r _ => length_recordBytes r, map_const',
        sum_replicate, smul_eq_mul]
    rw [hlength, hlength, length_map, ← hcount, policyRecords, length_records]

/-- The pool of an accepted policy has a unit for every source. Hamilton's method leaves a source without
one exactly when it is starved, and a guest whose inputs are valid fails with
`RequiredSourceReceivedZero` exactly when the policy starves a source. -/
theorem policy_starves_iff (H : Hashes) (p : Composition.Params) (manifest : CalldataBytes) (c : Commitment)
    (h : validateFinal H p manifest = .ok c) :
    (policyRecords manifest c.sourceCount.toNat).length ≤ p.outputPool.toNat ∧
    ∃ quotas, Composition.apportion p.outputPool (BitVec.ofNat 128 WEIGHT_SCALE.toNat)
        (recordWeights (policyRecords manifest c.sourceCount.toNat)) = .ok quotas ∧
      quotas.map Apportioned.key = (policyRecords manifest c.sourceCount.toNat).map Record.sourceId ∧
      (∀ q ∈ quotas, ∀ r ∈ policyRecords manifest c.sourceCount.toNat, q.key = r.sourceId →
        (q.allocation = 0 ↔ Starved p.outputPool.toNat (policyRecords manifest c.sourceCount.toNat) r)) ∧
      ∀ fromSlice (input : Composition.GuestInput) m validated, input.params = p → CollisionFree H.sha256
          [Composition.policyManifestEncoded p.chainId m.sources, manifest.bytes] →
        Composition.validateInput H fromSlice input = .ok (m, validated) →
        ((∃ id, Composition.compute H fromSlice input = .error (.error (.requiredSourceReceivedZero id))) ↔
          ∃ r ∈ policyRecords manifest c.sourceCount.toNat,
            Starved p.outputPool.toNat (policyRecords manifest c.sourceCount.toNat) r) := by
  have haccepted := accepted_of_validateFinal h
  have hvalidated := haccepted.validated
  obtain ⟨hscale, hpool, hmax⟩ := envelope_pool haccepted.envelope
  obtain ⟨rs, hrs⟩ : ∃ rs, rs = policyRecords manifest c.sourceCount.toNat := ⟨_, rfl⟩
  have hascending : rs.Pairwise fun a b => a.sourceId < b.sourceId := by
    rw [hrs]
    exact hvalidated.ascending
  have hweights : (rs.map fun r => r.weight.toNat).sum = WEIGHT_SCALE.toNat := by
    rw [hrs]
    exact hvalidated.weightSum
  have hlen : rs.length = c.sourceCount.toNat := by rw [hrs, policyRecords, length_records]
  have hpos : Composition.Positive (recordWeights rs) := by
    refine ⟨fun hnil => ?_, fun item hitem hzero => ?_⟩
    · have htwo := hvalidated.two_le
      rw [recordWeights, map_eq_nil_iff] at hnil
      rw [← hlen, hnil] at htwo
      exact absurd htwo (by decide)
    · obtain ⟨r, hr, rfl⟩ := mem_map.mp hitem
      rw [hrs] at hr
      have hnat := congrArg BitVec.toNat hzero
      rw [Composition.toNat_weight] at hnat
      exact (hvalidated.valid r hr).weight (UInt64.toNat_inj.mp hnat)
  have hsum : (BitVec.ofNat 128 WEIGHT_SCALE.toNat).toNat = sumOf (recordWeights rs) := by
    rw [Composition.toNat_weight, sumOf_recordWeights hweights]
  obtain ⟨quotas, hquotas, hkeys, hshares⟩ :=
    @Composition.apportion_eq _ _ _ p.outputPool _ hpos hsum
      (keys_recordWeights hascending)
  have hzero : ∀ q ∈ quotas, ∀ r ∈ rs, q.key = r.sourceId →
      (q.allocation = 0 ↔ Starved p.outputPool.toNat rs r) := by
    intro q hq r hr hkey
    have hshare := (Composition.share_of_mem hkeys hshares hq).2
    rw [hkey] at hshare
    rw [← share_eq_zero_iff hascending hweights _ hr, ← hshare]
    exact ⟨fun h0 => by rw [h0]; rfl, fun h0 => BitVec.eq_of_toNat_eq h0⟩
  have hids : quotas.map Apportioned.key = rs.map Record.sourceId := by
    rw [hkeys, recordWeights, map_map]
    rfl
  rw [← hrs]
  refine ⟨?_, quotas, hquotas, hids, hzero, ?_⟩
  · rw [hlen, haccepted.count]
    omega
  · intro fromSlice input m validated hp hfree hinput
    have hchecked := Composition.inputChecked_of_validateInput hinput
    have hrecords := record_sources haccepted hchecked.static hp hfree
    rw [← hrs] at hrecords
    have hitems : Composition.weightsOf validated = recordWeights rs := by
      rw [hchecked.weightsOf_eq, ← hrecords, recordWeights, map_map]
      rfl
    have hguest : Composition.sourceQuotas input.params validated = .ok quotas := by
      rw [Composition.sourceQuotas, hitems, hp, hscale]
      exact hquotas
    have hsome : (∃ q ∈ quotas, q.allocation = 0) ↔ ∃ r ∈ rs, Starved p.outputPool.toNat rs r := by
      constructor
      · rintro ⟨q, hq, h0⟩
        have hmem : q.key ∈ rs.map Record.sourceId := hids ▸ mem_map_of_mem hq
        obtain ⟨r, hr, hkey⟩ := mem_map.mp hmem
        exact ⟨r, hr, (hzero q hq r hr hkey.symm).mp h0⟩
      · rintro ⟨r, hr, hstarved⟩
        have hmem : r.sourceId ∈ quotas.map Apportioned.key := hids ▸ mem_map_of_mem hr
        obtain ⟨q, hq, hkey⟩ := mem_map.mp hmem
        exact ⟨q, hq, (hzero q hq r hr hkey).mpr hstarved⟩
    rw [← hsome]
    constructor
    · rintro ⟨id, herror⟩
      by_contra hnone
      obtain ⟨quotas', hquotas', hspec⟩ := Composition.compute_spec hinput
      obtain rfl := ok_inj (hquotas'.symm.trans hguest)
      obtain ⟨r, hr, -⟩ := hspec fun q hq h0 => hnone ⟨q, hq, h0⟩
      rw [hr] at herror
      exact absurd herror (by simp)
    · intro hzero
      obtain ⟨q, -, -, herror⟩ := Composition.compute_zero hinput hguest hzero
      exact ⟨q.key, herror⟩

namespace StarvationExample

open Composition.CompositionExample (word addr source1 source2)

def first : Composition.CapturedSource := { source1 with weight := 1 }

def second : Composition.CapturedSource := { source2 with weight := 999999999999999999 }

def captured : Composition.CapturedManifest := ⟨10, 100, [first, second]⟩

def params : Composition.Params := { Composition.CompositionExample.params with
  outputPool := 2
  sourcePolicyRoot := .ofNat 32 0x3f43618f400067e7c753ed2cef8783738ad2a5c7564f7a13dcf14d51e1625a8b
  policyManifestSha256 := .ofNat 32 0x92384b8f7f4d315c7265fb827bcf48ee3c15c192d0526528e6595602cbd5b831 }

def leaf1 : B256 := .ofNat 32 0x1f241f7276141ab7281658e83ac54459ed8d587c4dc6b1dab8cde447b01f8745

def leaf2 : B256 := .ofNat 32 0x6b617a4dfbdea2ec2fc2cd944ec7b8c5682a26b76b4e0f6d99424268cf66fcfb

def commitment : B256 := .ofNat 32 0x7337468e779c40cd211aeaa1083e7f028f2b48e7080b9fef7aa9f5e08d5d1a54

def hashes : Hashes where
  keccak256 s :=
    if s = leafPreimage first.record then leaf1
    else if s = leafPreimage second.record then leaf2
    else if s = leaf1.bytes ++ leaf2.bytes then params.sourcePolicyRoot
    else Composition.CompositionExample.hashes.keccak256 s
  sha256 s :=
    if s = Composition.policyManifestEncoded 10 captured.sources then params.policyManifestSha256
    else if s = Composition.captureBytes captured then commitment
    else Composition.CompositionExample.hashes.sha256 s

def manifest : CalldataBytes :=
  ⟨Composition.policyManifestEncoded 10 captured.sources, 0, 345, by decide +kernel⟩

def input : Composition.GuestInput := { Composition.CompositionExample.input with
  params := params
  manifest := Composition.captureBytes captured
  captureCommitment := commitment }

theorem starves : validateFinal hashes params manifest =
      .ok ⟨params.sourcePolicyRoot, 2, params.policyManifestSha256, 10⟩ ∧
    (Composition.apportion params.outputPool (BitVec.ofNat 128 WEIGHT_SCALE.toNat)
      (recordWeights (policyRecords manifest 2))).toOption.map (List.map fun q => (q.key, q.allocation.toNat)) =
      some [(first.sourceId, 0), (second.sourceId, 2)] ∧
    policyRecords manifest 2 = [first.record, second.record] ∧
    Composition.compute hashes Composition.CompositionExample.fromSlice input =
      .error (.error (.requiredSourceReceivedZero first.sourceId)) := by
  decide +kernel

end StarvationExample

open StarvationExample in
/-- A pool of two units for two sources of which one weighs nearly everything. -/
theorem policy_starves_iff_light_source : ∃ quotas,
    Composition.apportion params.outputPool (BitVec.ofNat 128 WEIGHT_SCALE.toNat)
      (recordWeights (policyRecords manifest 2)) = .ok quotas ∧
    ∀ q ∈ quotas, q.key = first.sourceId → q.allocation = 0 := by
  obtain ⟨-, quotas, hquotas, -, hzero, -⟩ := policy_starves_iff hashes params manifest _ starves.1
  refine ⟨quotas, hquotas, fun q hq hkey => ?_⟩
  change ∀ q ∈ quotas, ∀ r ∈ policyRecords manifest 2, q.key = r.sourceId →
    (q.allocation = 0 ↔ Starved 2 (policyRecords manifest 2) r) at hzero
  rw [starves.2.2.1] at hzero
  refine (hzero q hq first.record (mem_cons_self ..) hkey).mpr ⟨?_, ?_⟩
  · decide
  · decide

open StarvationExample in
/-- The contract accepts a policy that gives a source nothing, and the guest fails on it. -/
theorem accepted_policy_starves : validateFinal hashes params manifest =
      .ok ⟨params.sourcePolicyRoot, 2, params.policyManifestSha256, 10⟩ ∧
    (Composition.apportion params.outputPool (BitVec.ofNat 128 WEIGHT_SCALE.toNat)
      (recordWeights (policyRecords manifest 2))).toOption.map (List.map fun q => (q.key, q.allocation.toNat)) =
      some [(first.sourceId, 0), (second.sourceId, 2)] ∧
    Composition.compute hashes Composition.CompositionExample.fromSlice input =
      .error (.error (.requiredSourceReceivedZero first.sourceId)) := by
  exact ⟨starves.1, starves.2.1, starves.2.2.2⟩

end Trustgraphs.TrustComposeValidator
