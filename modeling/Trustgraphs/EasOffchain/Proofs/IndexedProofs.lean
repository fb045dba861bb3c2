import Trustgraphs.EasOffchain.Indexed

/-!
# The payload functions never panic

Every index and slice of the source is in range, so the functions with indices lift those without
(`verify_lifts`).
-/

namespace Trustgraphs.EasOffchain.Indexed

open Indexing Outcome List Option

variable {H : Hashes} {K : K256}

theorem recoverAddress_eq (hK : ∀ prehash rs parity point, K.recover prehash rs parity = some point →
      point.length = 65) (prehash : B256) (signature : Bytes) :
    recoverAddress H K prehash signature =
      match EasOffchain.recoverAddress H K prehash signature with
      | some a => .ok a
      | none => .error (.error ()) := by
  unfold recoverAddress EasOffchain.recoverAddress
  by_cases hlen : signature.length ≠ 65
  · rw [if_pos hlen, if_pos hlen]
    rfl
  · rw [if_neg hlen, if_neg hlen]
    rw [not_not] at hlen
    obtain ⟨v, hv⟩ : ∃ v, signature[64]? = some v := ⟨_, List.getElem?_eq_getElem (by omega)⟩
    rw [index_of_getElem? hv, ok_bind, hv, bind_some]
    cases hparity : parityOf v with
    | none => rfl
    | some parity =>
      dsimp only
      rw [slice_of_le (by omega) (by omega), drop_zero, ok_bind]
      dsimp only [bind_eq_bind, bind_some]
      by_cases hform : K.wellFormed (signature.take 64) = true
      · rw [if_neg (not_not.mpr hform), if_neg (not_not.mpr hform)]
        by_cases hhigh : K.highS (signature.take 64) = true
        · rw [if_pos hhigh, if_pos hhigh]
          rfl
        · rw [if_neg hhigh, if_neg hhigh]
          cases hrecover : K.recover prehash (signature.take 64) parity with
          | none => rfl
          | some point =>
            have hpoint := hK _ _ _ _ hrecover
            have hsize : ((H.keccak256 (point.drop 1)).bytes.drop 12).length = 20 := by simp
            dsimp only [bind_some]
            rw [sliceFrom_of_le (by omega), ok_bind, sliceFrom_of_le (by simp), ok_bind,
              fromSlice_of_length hsize, FixedBytes.ofSlice, dif_pos hsize]
      · rw [if_pos hform, if_pos hform]
        rfl

theorem canonicalSignature_lifts (signature : Bytes) :
    Lifts Eq (canonicalSignature K signature) (EasOffchain.canonicalSignature K signature) := by
  unfold canonicalSignature EasOffchain.canonicalSignature
  by_cases hlen : signature.length ≠ 65
  · rw [if_pos hlen, if_pos (.inl hlen)]
    exact Agrees.error rfl
  · rw [if_neg hlen]
    rw [not_not] at hlen
    obtain ⟨v, hv⟩ : ∃ v, signature[64]? = some v := ⟨_, List.getElem?_eq_getElem (by omega)⟩
    rw [index_of_getElem? hv, ok_bind, hv, slice_of_le (by omega) (by omega), drop_zero, ok_bind]
    have hcond : (signature.length ≠ 65 ∨ ¬ (some v = some 27 ∨ some v = some 28)) ↔ ¬ (v = 27 ∨ v = 28) := by
      simp [hlen]
    rw [if_congr hcond rfl rfl]
    refine Lifts.ite_error fun _ => Lifts.ite_error fun _ => Lifts.ite_error fun _ => Agrees.ok rfl

theorem canonicalData_lifts (data : Bytes) :
    Lifts Eq (canonicalData data) (EasOffchain.canonicalData data) := by
  unfold canonicalData EasOffchain.canonicalData
  refine Lifts.ite_error fun hsize => Lifts.ite_error fun _ => ?_
  rw [not_not] at hsize
  have hmin : 96 ≤ data.length := hsize.1
  rw [slice_of_le (by omega) (by omega), drop_zero, ok_bind, slice_of_le (by omega) (by omega), ok_bind]
  refine Lifts.ite_error fun _ => ?_
  dsimp only
  refine Lifts.ite_error fun hmax => ?_
  have hlength : ofBeBytes ((data.drop 64).take 32) ≤ 4096 := not_lt.mp hmax
  rw [toUsize, if_pos (show ofBeBytes ((data.drop 64).take 32) < 2 ^ 64 by omega), ok_bind]
  refine Lifts.ite_error fun hpadded => ?_
  have hdata : data.length = 96 + (ofBeBytes ((data.drop 64).take 32) + 31) / 32 * 32 := not_not.mp hpadded
  have hrest : MIN_DATA_BYTES + ofBeBytes ((data.drop 64).take (96 - 64)) ≤ data.length := by
    show 96 + ofBeBytes ((data.drop 64).take 32) ≤ data.length
    omega
  rw [sliceFrom_of_le hrest, ok_bind]
  exact Lifts.ite_error fun _ => Agrees.ok rfl

structure Consumed (bytes : Bytes) (d : Decoder) (buf : Bytes) : Prop where
  input : d.bytes = bytes
  offset : d.offset ≤ bytes.length
  rest : buf = bytes.drop d.offset

/-- Two reads return the same value and have consumed the same bytes. -/
def Same {α : Type} (bytes : Bytes) (a : α × Decoder) (b : α × Bytes) : Prop :=
  a.1 = b.1 ∧ Consumed bytes a.2 b.2

section Decoder

variable {bytes : Bytes} (hbytes : bytes.length < 2 ^ 64) {d : Decoder} {buf : Bytes}

include hbytes

theorem take_lifts (h : Consumed bytes d buf) (n : ℕ) :
    Lifts (Same bytes) (d.take n) (Reader.take PayloadError.truncated n buf) := by
  obtain ⟨hd, hoffset, rfl⟩ := h
  unfold Decoder.take Reader.take
  rw [hd, length_drop]
  by_cases hn : d.offset + n ≤ bytes.length
  · rw [if_neg (by omega), if_neg (by omega), if_pos (by omega)]
    exact Agrees.ok ⟨rfl, rfl, hn, drop_drop⟩
  · rw [if_neg (show ¬ n ≤ bytes.length - d.offset by omega)]
    by_cases hbig : 2 ^ 64 ≤ d.offset + n
    · rw [if_pos hbig]
      exact Agrees.error rfl
    · rw [if_neg hbig, if_pos (not_le.mp hn)]
      exact Agrees.error rfl

theorem u8_lifts (h : Consumed bytes d buf) :
    Lifts (Same bytes) d.u8 (Reader.u8 PayloadError.truncated buf) := by
  have htake := take_lifts hbytes h 1
  unfold Decoder.u8 Reader.u8
  unfold Reader.take at htake
  cases hbuf : buf with
  | nil =>
    rw [hbuf, if_neg (by simp)] at htake
    obtain ⟨e, he, rfl⟩ := htake.of_error
    rw [he]
    exact Agrees.error rfl
  | cons b rest =>
    rw [hbuf, if_pos (by simp)] at htake
    obtain ⟨⟨l, d'⟩, hl, hsame, hd'⟩ := htake.of_ok
    obtain rfl : l = [b] := hsame
    rw [hl, ok_bind]
    exact Agrees.ok ⟨rfl, hd'⟩

theorem array_lifts (h : Consumed bytes d buf) (n : ℕ) :
    Lifts (Same bytes) (d.array n) (Reader.array PayloadError.truncated n buf) := by
  have htake := take_lifts hbytes h n
  unfold Decoder.array Reader.array
  unfold Reader.take at htake
  by_cases hn : n ≤ buf.length
  · have hlen : (buf.take n).length = n := length_take_of_le hn
    rw [if_pos hn] at htake
    obtain ⟨⟨l, d'⟩, hl, hsame, hd'⟩ := htake.of_ok
    obtain rfl : l = buf.take n := hsame
    rw [hl, ok_bind, dif_pos hlen]
    dsimp only
    rw [fromSlice_of_length hlen, ok_bind]
    exact Agrees.ok ⟨rfl, hd'⟩
  · have hlen : ¬ (buf.take n).length = n := by
      rw [length_take]
      omega
    rw [if_neg hn] at htake
    obtain ⟨e, he, rfl⟩ := htake.of_error
    rw [he, dif_neg hlen]
    exact Agrees.error rfl

theorem number_lifts {N : Type} (ofNat : ℕ → N) (k : ℕ) (h : Consumed bytes d buf) : Lifts (Same bytes) (do
        let (a, d) ← d.array k
        .ok (ofNat (ofBeBytes a.bytes), d)) (do
        let (l, buf) ← Reader.take PayloadError.truncated k buf
        .ok (ofNat (ofBeBytes l), buf)) := by
  have harray := array_lifts hbytes h k
  unfold Reader.array at harray
  unfold Reader.take
  by_cases hn : k ≤ buf.length
  · have hlen : (buf.take k).length = k := length_take_of_le hn
    rw [dif_pos hlen] at harray
    obtain ⟨⟨a, d'⟩, ha, hsame, hd'⟩ := harray.of_ok
    rw [ha, if_pos hn, ok_bind, ok_bind]
    refine Agrees.ok ⟨?_, hd'⟩
    show ofNat (ofBeBytes a.bytes) = ofNat (ofBeBytes (buf.take k))
    rw [show a = ⟨buf.take k, hlen⟩ from hsame]
  · have hlen : ¬ (buf.take k).length = k := by
      rw [length_take]
      omega
    rw [dif_neg hlen] at harray
    obtain ⟨e, he, rfl⟩ := harray.of_error
    rw [he, if_neg hn]
    exact Agrees.error rfl

theorem u16_lifts (h : Consumed bytes d buf) :
    Lifts (Same bytes) d.u16 (Reader.u16 PayloadError.truncated buf) :=
  number_lifts hbytes UInt16.ofNat 2 h

theorem u32_lifts (h : Consumed bytes d buf) :
    Lifts (Same bytes) d.u32 (Reader.u32 PayloadError.truncated buf) :=
  number_lifts hbytes UInt32.ofNat 4 h

theorem u64_lifts (h : Consumed bytes d buf) :
    Lifts (Same bytes) d.u64 (Reader.u64 PayloadError.truncated buf) :=
  number_lifts hbytes UInt64.ofNat 8 h

omit hbytes in
theorem repeated_lifts {α : Type} {item : Decoder → Step (α × Decoder)}
    {item' : Bytes → Except PayloadError (α × Bytes)}
    (hitem : ∀ d buf, Consumed bytes d buf → Lifts (Same bytes) (item d) (item' buf)) (n : ℕ)
    (h : Consumed bytes d buf) :
    Lifts (Same bytes) (Decoder.repeated item n d) (Reader.repeated item' n buf) := by
  induction n generalizing d buf with
  | zero => exact Agrees.ok ⟨rfl, h⟩
  | succ n ih =>
    unfold Decoder.repeated Reader.repeated
    refine (hitem d buf h).bind ?_
    rintro ⟨a, d'⟩ ⟨b, buf'⟩ hab -
    refine (ih hab.2).bind ?_
    rintro ⟨as, d''⟩ ⟨bs, buf''⟩ habs -
    obtain ⟨rfl, -⟩ := hab
    obtain ⟨rfl, hrest⟩ := habs
    exact Agrees.ok ⟨rfl, hrest⟩

theorem decodeEntry_lifts (h : Consumed bytes d buf) :
    Lifts (Same bytes) (decodeEntry d) (EasOffchain.decodeEntry buf) := by
  unfold decodeEntry EasOffchain.decodeEntry
  refine (u8_lifts hbytes h).bind fun ⟨kind, d⟩ ⟨kind', buf⟩ hkind _ => ?_
  refine (array_lifts hbytes hkind.2 32).bind fun ⟨uid, d⟩ ⟨uid', buf⟩ huid _ => ?_
  obtain ⟨rfl, -⟩ := hkind
  obtain ⟨rfl, hrest⟩ := huid
  exact Agrees.ok ⟨rfl, hrest⟩

theorem decodeAttestationHead_lifts (expectedSchema : B256) (h : Consumed bytes d buf) :
    Lifts (Same bytes) (decodeAttestationHead expectedSchema d)
      (EasOffchain.decodeAttestationHead expectedSchema buf) := by
  unfold decodeAttestationHead EasOffchain.decodeAttestationHead
  refine (u16_lifts hbytes h).bind fun ⟨version, d⟩ ⟨version', buf⟩ hversion _ => ?_
  obtain ⟨rfl, hd⟩ := hversion
  refine Lifts.ite_error fun _ => ?_
  refine (array_lifts hbytes hd 32).bind fun ⟨schema, d⟩ ⟨schema', buf⟩ hschema _ => ?_
  obtain ⟨rfl, hd⟩ := hschema
  refine Lifts.ite_error fun _ => ?_
  refine (array_lifts hbytes hd 20).bind fun ⟨recipient, d⟩ ⟨recipient', buf⟩ hrecipient _ => ?_
  obtain ⟨rfl, hd⟩ := hrecipient
  refine Lifts.ite_error fun _ => ?_
  refine (u64_lifts hbytes hd).bind fun ⟨time, d⟩ ⟨time', buf⟩ htime _ => ?_
  obtain ⟨rfl, hd⟩ := htime
  refine (u64_lifts hbytes hd).bind fun ⟨expiration, d⟩ ⟨expiration', buf⟩ hexpiration _ => ?_
  obtain ⟨rfl, hd⟩ := hexpiration
  refine Lifts.ite_error fun _ => ?_
  refine (u8_lifts hbytes hd).bind fun ⟨revocable, d⟩ ⟨revocable', buf⟩ hrevocable _ => ?_
  obtain ⟨rfl, hd⟩ := hrevocable
  refine Lifts.ite_error fun _ => ?_
  refine (array_lifts hbytes hd 32).bind fun ⟨refUid, d⟩ ⟨refUid', buf⟩ hrefUid _ => ?_
  obtain ⟨rfl, hd⟩ := hrefUid
  exact Lifts.ite_error fun _ => Agrees.ok ⟨rfl, hd⟩

theorem decodeAttestation_lifts (expectedSchema : B256) (h : Consumed bytes d buf) :
    Lifts (Same bytes) (decodeAttestation K expectedSchema d)
      (EasOffchain.decodeAttestation K expectedSchema buf) := by
  unfold decodeAttestation EasOffchain.decodeAttestation
  refine (decodeAttestationHead_lifts hbytes expectedSchema h).bind fun ⟨head, d⟩ ⟨head', buf⟩ hhead _ => ?_
  obtain ⟨rfl, hd⟩ := hhead
  refine (u32_lifts hbytes hd).bind fun ⟨dataLen, d⟩ ⟨dataLen', buf⟩ hlen _ => ?_
  obtain ⟨rfl, hd⟩ := hlen
  refine Lifts.ite_error fun _ => ?_
  refine (take_lifts hbytes hd dataLen.toNat).bind fun ⟨data, d⟩ ⟨data', buf⟩ hdata _ => ?_
  obtain ⟨rfl, hd⟩ := hdata
  refine (canonicalData_lifts data).bind fun _ _ _ _ => ?_
  refine (array_lifts hbytes hd 32).bind fun ⟨salt, d⟩ ⟨salt', buf⟩ hsalt _ => ?_
  obtain ⟨rfl, hd⟩ := hsalt
  refine Lifts.ite_error fun _ => ?_
  refine (take_lifts hbytes hd 65).bind fun ⟨signature, d⟩ ⟨signature', buf⟩ hsignature _ => ?_
  obtain ⟨rfl, hd⟩ := hsignature
  exact (canonicalSignature_lifts signature).bind fun _ _ _ _ => Agrees.ok ⟨rfl, hd⟩

end Decoder

theorem decode_lifts (bytes : Bytes) (expectedSchema : B256) :
    Lifts Eq (decode H K bytes expectedSchema) (EasOffchain.decode H K bytes expectedSchema) := by
  unfold decode EasOffchain.decode
  refine Lifts.ite_error fun hlimit => ?_
  have hbytes : bytes.length < 2 ^ 64 := lt_of_le_of_lt (not_lt.mp hlimit) (by decide)
  have hstart : Consumed bytes ⟨bytes, 0⟩ bytes := ⟨rfl, Nat.zero_le _, rfl⟩
  refine (take_lifts hbytes hstart MAGIC.length).bind fun ⟨magic, d⟩ ⟨magic', buf⟩ hmagic _ => ?_
  obtain ⟨rfl, hd⟩ := hmagic
  refine Lifts.ite_error fun _ => ?_
  refine (u16_lifts hbytes hd).bind fun ⟨version, d⟩ ⟨version', buf⟩ hversion _ => ?_
  obtain ⟨rfl, hd⟩ := hversion
  refine Lifts.ite_error fun _ => ?_
  refine (array_lifts hbytes hd 20).bind fun ⟨owner, d⟩ ⟨owner', buf⟩ howner _ => ?_
  obtain ⟨rfl, hd⟩ := howner
  refine (u32_lifts hbytes hd).bind fun ⟨entryCount, d⟩ ⟨entryCount', buf⟩ hentryCount _ => ?_
  obtain ⟨rfl, hd⟩ := hentryCount
  refine (u32_lifts hbytes hd).bind fun ⟨attestationCount, d⟩ ⟨attestationCount', buf⟩ hcount _ => ?_
  obtain ⟨rfl, hd⟩ := hcount
  refine Lifts.ite_error fun _ => Lifts.ite_error fun _ => ?_
  have hrest : buf = bytes.drop d.offset := hd.rest
  have hremaining : bytes.length - d.offset = buf.length := by rw [hrest, length_drop]
  dsimp only
  rw [hremaining]
  refine Lifts.ite_error fun _ => ?_
  refine (repeated_lifts (fun d buf h => decodeEntry_lifts hbytes h) entryCount.toNat hd).bind
    fun ⟨entries, d⟩ ⟨entries', buf⟩ hentries _ => ?_
  obtain ⟨rfl, hd⟩ := hentries
  refine (repeated_lifts (fun d buf h => decodeAttestation_lifts hbytes expectedSchema h)
    attestationCount.toNat hd).bind fun ⟨attestations, d⟩ ⟨attestations', buf⟩ hattestations _ => ?_
  obtain ⟨rfl, hd⟩ := hattestations
  have hall : (d.offset ≠ bytes.length) ↔ buf ≠ [] := by
    have hrest : buf = bytes.drop d.offset := hd.rest
    have hoffset : d.offset ≤ bytes.length := hd.offset
    rw [hrest, ne_eq, ne_eq, drop_eq_nil_iff]
    omega
  dsimp only
  rw [if_congr hall rfl rfl]
  refine Lifts.ite_error fun _ => ?_
  refine (Lifts.refl _).bind fun st st' hst _ => ?_
  obtain rfl := hst
  exact Lifts.ite_error fun _ => Agrees.ok rfl

section Verification

variable (hK : ∀ prehash rs parity point, K.recover prehash rs parity = some point → point.length = 65)

include hK

theorem verifyAnchorAuthorization_lifts (headDomainSeparator : B256) (message : AnchorMessage)
    (signature : Bytes) :
    Lifts Eq (verifyAnchorAuthorization H K headDomainSeparator message signature)
      (EasOffchain.verifyAnchorAuthorization H K headDomainSeparator message signature) := by
  unfold verifyAnchorAuthorization EasOffchain.verifyAnchorAuthorization
  refine (canonicalSignature_lifts signature).bind fun _ _ _ _ => ?_
  rw [recoverAddress_eq hK]
  cases EasOffchain.recoverAddress H K
      (eip712Digest H headDomainSeparator (anchorStructHash H message)) signature with
  | none => exact Agrees.error rfl
  | some signer => exact Agrees.ok rfl

theorem verifyAttestation_lifts (context : VerificationContext) (owner : Address) (a : OffchainAttestation) :
    Lifts Eq (verifyAttestation H K context owner a) (EasOffchain.verifyAttestation H K context owner a) := by
  unfold verifyAttestation EasOffchain.verifyAttestation
  refine Lifts.ite_error fun _ => ?_
  rw [recoverAddress_eq hK]
  cases EasOffchain.recoverAddress H K
      (eip712Digest H context.easDomainSeparator (attestStructHash H a)) a.signature with
  | none => exact Agrees.error rfl
  | some signer => exact Lifts.ite_error fun _ => Agrees.ok rfl

theorem verify_lifts (bytes : Bytes) (context : VerificationContext) :
    Lifts Eq (verify H K bytes context) (EasOffchain.verify H K bytes context) := by
  unfold verify EasOffchain.verify dataCommitment
  rw [fromSlice_of_length (H.sha256 bytes).size, ok_bind]
  refine Lifts.ite_error fun _ => ?_
  refine (decode_lifts bytes context.expectedSchema).bind fun payload payload' hpayload _ => ?_
  obtain rfl := hpayload
  refine Lifts.ite_error fun _ => Lifts.ite_error fun _ => Lifts.ite_error fun _ =>
    Lifts.ite_error fun _ => Lifts.ite_error fun _ => ?_
  refine (verifyAnchorAuthorization_lifts hK _ _ _).bind fun signer signer' hsigner _ => ?_
  obtain rfl := hsigner
  refine Lifts.ite_error fun _ => ?_
  refine (Agrees.forM fun a _ => verifyAttestation_lifts hK context payload.owner a).bind fun _ _ _ _ => ?_
  exact Agrees.ok rfl

end Verification

end Trustgraphs.EasOffchain.Indexed
