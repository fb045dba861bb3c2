import Trustgraphs.Contracts.Proofs.CompositionSourceAccumulatorProofs

/-!
# The bytes of a validated policy

The validator reads a record word by word. Its fields are the pieces of the bytes, so the bytes of a
manifest that is accepted are a header and its records (`validateAt_bytes`), and equal bytes have equal
records (`records_of_flatMap_eq`).
-/

namespace Trustgraphs.TrustComposeValidator

open Outcome List
open WeightedPrior (slice length_slice eq_beBytes)
open WeightedPriorValidator (Views toNat_shiftRight)

def recordBytes (r : Record) : Bytes :=
  r.sourceId.bytes ++ r.snapshot.bytes ++ r.familyId.bytes ++ r.programId.bytes ++
    r.sourceOutputDomain.bytes ++ beBytes 8 r.weight.toNat ++ beBytes 8 r.maxAgeBlocks.toNat ++
    [r.required]

@[simp]
theorem length_recordBytes (r : Record) : (recordBytes r).length = RECORD_LENGTH := by
  simp only [recordBytes, length_append, FixedBytes.length_bytes, length_beBytes,
    length_singleton, RECORD_LENGTH]

theorem recordBytes_injective {r s : Record} (h : recordBytes r = recordBytes s) : r = s := by
  unfold recordBytes at h
  have hsplit : ∀ {a b c d : Bytes}, a ++ b = c ++ d → b.length = d.length → a = c ∧ b = d :=
    fun h hlen => append_inj' h hlen
  obtain ⟨h, hrequired⟩ := hsplit h (by simp)
  obtain ⟨h, hage⟩ := hsplit h (by simp)
  obtain ⟨h, hweight⟩ := hsplit h (by simp)
  obtain ⟨h, hdomain⟩ := hsplit h (by simp)
  obtain ⟨h, hprogram⟩ := hsplit h (by simp)
  obtain ⟨h, hfamily⟩ := hsplit h (by simp)
  obtain ⟨hid, hsnapshot⟩ := hsplit h (by simp)
  rw [FixedBytes.bytes_inj] at hid hsnapshot hfamily hprogram hdomain
  have hweight := UInt64.toNat_inj.mp (beBytes_injective (UInt64.toNat_lt _) (UInt64.toNat_lt _) hweight)
  have hage := UInt64.toNat_inj.mp (beBytes_injective (UInt64.toNat_lt _) (UInt64.toNat_lt _) hage)
  exact Record.ext hid hsnapshot hfamily hprogram hdomain hweight hage (singleton_inj.mp hrequired)

theorem records_of_flatMap_eq {rs ss : List Record} (hlen : rs.length = ss.length)
    (h : rs.flatMap recordBytes = ss.flatMap recordBytes) : rs = ss := by
  induction rs generalizing ss with
  | nil => exact (length_eq_zero_iff.mp hlen.symm).symm
  | cons r rs ih =>
    cases ss with
    | nil => exact absurd hlen (by simp)
    | cons s ss =>
      rw [flatMap_cons, flatMap_cons] at h
      obtain ⟨hr, hrest⟩ := append_inj h (by simp)
      rw [recordBytes_injective hr, ih (Nat.succ.inj hlen) hrest]

theorem slice_append {bytes : Bytes} {i j k : ℕ} (hij : i ≤ j) (hjk : j ≤ k) :
    slice bytes i j ++ slice bytes j k = slice bytes i k := by
  unfold slice
  obtain ⟨m, rfl⟩ := Nat.exists_eq_add_of_le hij
  obtain ⟨n, rfl⟩ := Nat.exists_eq_add_of_le hjk
  rw [show i + m + n - i = m + n by omega, take_add, Nat.add_sub_cancel_left,
    Nat.add_sub_cancel_left, drop_drop]

section

variable {load : ℕ → U256} {base : ℕ} {bytes : Bytes} (hv : Views load base bytes)
include hv

theorem Views.piece {i k : ℕ} (hk : k ≤ 32) (hlen : i + k ≤ bytes.length) :
    beBytes k ((load (base + i)).toNat / 256 ^ (32 - k)) = slice bytes i (i + k) := by
  rw [hv i k hk hlen]
  refine (eq_beBytes ?_).symm
  rw [length_slice (by omega) hlen]
  omega

/-- The bytes of the record at an offset. -/
theorem recordBytes_readRecord {start : ℕ} (hlen : start + RECORD_LENGTH ≤ bytes.length) :
    recordBytes (readRecord load (base + start)) = slice bytes start (start + RECORD_LENGTH) := by
  have hpiece : ∀ i k, k ≤ 32 → i + k ≤ RECORD_LENGTH →
      beBytes k ((load (base + start + i)).toNat / 256 ^ (32 - k)) =
        slice bytes (start + i) (start + i + k) := by
    intro i k hk hi
    rw [Nat.add_assoc]
    exact Views.piece hv hk (by omega)
  have hword : ∀ i, i + 32 ≤ RECORD_LENGTH →
      (bytes32 (load (base + start + i))).bytes = slice bytes (start + i) (start + i + 32) := by
    intro i hi
    have h := hpiece i 32 le_rfl hi
    rwa [Nat.sub_self, pow_zero, Nat.div_one] at h
  have hnumber : ∀ i, i + 8 ≤ RECORD_LENGTH →
      beBytes 8 (UInt64.ofNat (load (base + start + i) >>> 192).toNat).toNat =
        slice bytes (start + i) (start + i + 8) := by
    intro i hi
    have hlt : (load (base + start + i) >>> 192).toNat < 2 ^ 64 := by
      rw [toNat_shiftRight]
      have := (load (base + start + i)).isLt
      exact Nat.div_lt_of_lt_mul (by omega)
    rw [UInt64.toNat_ofNat_of_lt' hlt, toNat_shiftRight]
    exact hpiece i 8 (by omega) hi
  have hrequired : [UInt8.ofNat (load (base + start + 164) >>> 248).toNat] =
      slice bytes (start + 164) (start + 164 + 1) := by
    have hlt : (load (base + start + 164) >>> 248).toNat < 256 := by
      rw [toNat_shiftRight]
      have := (load (base + start + 164)).isLt
      exact Nat.div_lt_of_lt_mul (by omega)
    rw [← hpiece 164 1 (by omega) (by decide), toNat_shiftRight]
    rfl
  have hsnapshot : (address (load (base + start + 32) >>> 96)).bytes =
      slice bytes (start + 32) (start + 32 + 20) := by
    have h := hpiece 32 20 (by omega) (by decide)
    show beBytes 20 _ = _
    rw [toNat_shiftRight]
    exact h
  unfold recordBytes readRecord
  dsimp only
  have hid := hword 0 (by decide)
  rw [Nat.add_zero, Nat.add_zero] at hid
  rw [hid, hsnapshot, hword 52 (by decide), hword 84 (by decide), hword 116 (by decide),
    hnumber 148 (by decide), hnumber 156 (by decide), hrequired]
  simp only [Nat.add_assoc, Nat.reduceAdd]
  rw [slice_append (by omega) (by omega), slice_append (by omega) (by omega),
    slice_append (by omega) (by omega), slice_append (by omega) (by omega),
    slice_append (by omega) (by omega), slice_append (by omega) (by omega),
    slice_append (by omega) (by omega)]
  rfl

theorem flatMap_records {n : ℕ} (hlen : HEADER_LENGTH + n * RECORD_LENGTH ≤ bytes.length) :
    (records load base n).flatMap recordBytes =
      slice bytes HEADER_LENGTH (HEADER_LENGTH + n * RECORD_LENGTH) := by
  induction n with
  | zero =>
    rw [Nat.zero_mul, Nat.add_zero]
    unfold slice
    rw [Nat.sub_self, take_zero]
    rfl
  | succ n ih =>
    have hsplit : HEADER_LENGTH + (n + 1) * RECORD_LENGTH =
        HEADER_LENGTH + n * RECORD_LENGTH + RECORD_LENGTH := by
      rw [Nat.succ_mul, Nat.add_assoc]
    rw [hsplit] at hlen ⊢
    rw [records_succ, flatMap_append, ih (by omega), flatMap_singleton,
      recordBytes_readRecord hv hlen, slice_append (by omega) (by omega)]

/-- The bytes of a manifest that is accepted. -/
theorem validateAt_bytes {H : Hashes} {digest : B256} {expectedChain maximumAge : UInt64} {c : Commitment}
    (h : validateAt H load base bytes.length digest expectedChain maximumAge = .ok c) :
    bytes = Composition.POLICY_MAGIC ++ beBytes 2 Composition.MANIFEST_VERSION.toNat ++
      beBytes 8 expectedChain.toNat ++ [c.sourceCount] ++
      (records load base c.sourceCount.toNat).flatMap recordBytes := by
  unfold validateAt revert at h
  obtain ⟨hshort, h⟩ := of_guard h
  obtain ⟨hmagic, h⟩ := of_guard h
  obtain ⟨hversion, h⟩ := of_guard h
  obtain ⟨hchain, h⟩ := of_guard h
  obtain ⟨-, h⟩ := of_guard h
  obtain ⟨hlen, h⟩ := of_guard h
  obtain ⟨scan, -, h⟩ := of_bind h
  obtain ⟨-, h⟩ := of_guard h
  obtain ⟨root, -, h⟩ := of_bind h
  obtain rfl := ok_inj h
  rw [not_not] at hmagic hversion hchain hlen
  have hlen15 : 15 ≤ bytes.length := not_lt.mp hshort
  dsimp only
  have hbody := flatMap_records hv (n := (headerCount load base).toNat) hlen.ge
  have hmagicBytes : slice bytes 0 4 = Composition.POLICY_MAGIC := by
    have hpiece := Views.piece hv (i := 0) (k := 4) (by omega) (by omega)
    have hnat := congrArg BitVec.toNat hmagic
    rw [toNat_shiftRight] at hnat
    have hpow : 256 ^ (32 - 4) = 2 ^ 224 := by norm_num
    rw [Nat.zero_add, Nat.add_zero, hpow, hnat] at hpiece
    rw [← hpiece]
    decide
  have hversionBytes : slice bytes 4 6 = beBytes 2 Composition.MANIFEST_VERSION.toNat := by
    have hfield := Views.field hv (i := 4) (j := 6) (by omega) (by omega) (by omega)
    have hword : ((load base >>> 208) &&& 0xffff).toNat = ofBeBytes (slice bytes 4 6) := by
      rw [BitVec.toNat_and, toNat_shiftRight]
      exact (Nat.and_two_pow_sub_one_eq_mod _ 16).trans hfield
    have hlt := ofBeBytes_lt (slice bytes 4 6)
    rw [length_slice (by omega) (by omega)] at hlt
    have hnat := congrArg UInt16.toNat hversion
    rw [hword, UInt16.toNat_ofNat_of_lt' hlt] at hnat
    rw [eq_beBytes (length_slice (by omega) (by omega) : (slice bytes 4 6).length = 6 - 4), hnat]
    rfl
  have hchainBytes : slice bytes 6 14 = beBytes 8 expectedChain.toNat := by
    have hfield := Views.field hv (i := 6) (j := 14) (by omega) (by omega) (by omega)
    have hword : ((load base >>> 144) &&& 0xffffffffffffffff).toNat = ofBeBytes (slice bytes 6 14) := by
      rw [BitVec.toNat_and, toNat_shiftRight]
      exact (Nat.and_two_pow_sub_one_eq_mod _ 64).trans hfield
    have hlt := ofBeBytes_lt (slice bytes 6 14)
    rw [length_slice (by omega) (by omega)] at hlt
    have hnat := congrArg UInt64.toNat hchain
    rw [hword, UInt64.toNat_ofNat_of_lt' hlt] at hnat
    rw [eq_beBytes (length_slice (by omega) (by omega) : (slice bytes 6 14).length = 14 - 6), hnat]
  have hcountBytes : slice bytes 14 15 = [headerCount load base] := by
    have hfield := Views.field hv (i := 14) (j := 15) (by omega) (by omega) (by omega)
    have hword : ((load base >>> 136) &&& 0xff).toNat = ofBeBytes (slice bytes 14 15) := by
      rw [BitVec.toNat_and, toNat_shiftRight]
      exact (Nat.and_two_pow_sub_one_eq_mod _ 8).trans hfield
    rw [eq_beBytes (length_slice (by omega) (by omega) : (slice bytes 14 15).length = 15 - 14), ← hword]
    rfl
  have htotal : bytes.length = HEADER_LENGTH + (headerCount load base).toNat * RECORD_LENGTH := hlen
  have hall : slice bytes 0 bytes.length = bytes := by
    unfold slice
    rw [Nat.sub_zero, drop_zero, take_length]
  rw [← htotal] at hbody
  calc bytes = slice bytes 0 bytes.length := hall.symm
    _ = slice bytes 0 4 ++ slice bytes 4 6 ++ slice bytes 6 14 ++ slice bytes 14 15 ++
        slice bytes 15 bytes.length := by
        rw [slice_append (by omega) (by omega), slice_append (by omega) (by omega),
          slice_append (by omega) (by omega), slice_append (by omega) hlen15]
    _ = _ := by
        rw [hmagicBytes, hversionBytes, hchainBytes, hcountBytes]
        exact congrArg _ hbody.symm

end

end Trustgraphs.TrustComposeValidator

namespace Trustgraphs.CompositionSourceAccumulator

open Outcome TrustComposeValidator
open WeightedPriorValidator (loadWord CalldataBytes loadWord_views)

theorem policyManifestEncoded_eq {chain : UInt64} {sources : List Composition.CapturedSource}
    (h : sources.Pairwise fun a b => a.sourceId < b.sourceId) :
    Composition.policyManifestEncoded chain sources =
      Composition.POLICY_MAGIC ++ beBytes 2 Composition.MANIFEST_VERSION.toNat ++
        beBytes 8 chain.toNat ++ [UInt8.ofNat sources.length] ++
        (sources.map Composition.CapturedSource.record).flatMap recordBytes := by
  have hsort : Composition.sortSources sources = sources :=
    List.Pairwise.insertionSort_eq (h.imp fun hlt => hlt.le)
  rw [Composition.policyManifestEncoded, hsort, List.flatMap_map]
  rfl

theorem validatePolicyManifest_bytes {H : Hashes} {manifest : CalldataBytes}
    {expectedChain maximumAge : UInt64} {commitment : Commitment}
    (h : validatePolicyManifest H manifest expectedChain maximumAge = .ok commitment) :
    manifest.bytes = Composition.POLICY_MAGIC ++ beBytes 2 Composition.MANIFEST_VERSION.toNat ++
      beBytes 8 expectedChain.toNat ++ [commitment.sourceCount] ++
      (policyRecords manifest commitment.sourceCount.toNat).flatMap recordBytes := by
  have hlen : manifest.bytes.length = manifest.length := by
    have := manifest.inside
    rw [CalldataBytes.bytes, List.length_take, List.length_drop]
    omega
  have hvalid : validateAt H (loadWord manifest.calldata) manifest.offset manifest.bytes.length
      (H.sha256 manifest.bytes) expectedChain maximumAge = .ok commitment := by
    rw [hlen]
    exact h
  exact validateAt_bytes (loadWord_views manifest.inside) hvalid

/-- What an accepted policy grants besides its records. -/
structure Accepted (H : Hashes) (p : Composition.Params) (manifest : CalldataBytes)
    (c : Commitment) : Prop where
  validated : Validated H (loadWord manifest.calldata) manifest.offset (H.sha256 manifest.bytes)
    p.chainId p.maxSourceAgeBlocks c
  bytes : manifest.bytes = Composition.POLICY_MAGIC ++ beBytes 2 Composition.MANIFEST_VERSION.toNat ++
    beBytes 8 p.chainId.toNat ++ [c.sourceCount] ++
    (policyRecords manifest c.sourceCount.toNat).flatMap recordBytes
  envelope : validateComputationalEnvelope H p = .ok ()
  root : c.sourcePolicyRoot = p.sourcePolicyRoot
  count : c.sourceCount = p.sourceCount
  manifestSha256 : H.sha256 manifest.bytes = p.policyManifestSha256

theorem accepted_of_validateFinal {H : Hashes} {p : Composition.Params} {manifest : CalldataBytes} {c : Commitment}
    (h : validateFinal H p manifest = .ok c) : Accepted H p manifest c := by
  unfold validateFinal TrustComposeValidator.revert at h
  obtain ⟨⟨⟩, henvelope, h⟩ := of_bind h
  obtain ⟨c', hpolicy, h⟩ := of_bind h
  obtain ⟨hcommitment, h⟩ := of_guard h
  obtain rfl : c' = c := ok_inj h
  simp only [not_or, not_not] at hcommitment
  have hvalidated := validateAt_validated hpolicy
  exact ⟨hvalidated, validatePolicyManifest_bytes hpolicy, henvelope,
    hcommitment.1, hcommitment.2.1, by rw [← hcommitment.2.2, hvalidated.manifestSha256]⟩

end Trustgraphs.CompositionSourceAccumulator
