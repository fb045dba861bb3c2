import Trustgraphs.EasOffchain.Payload

/-!
# The payload codec is a bijection onto its image

The decoder is a run of exact readers (`Reader.Reads`). So what it accepts are the encodings of the
canonical payloads (`decode_eq_ok`), and the encoder returns just these.
-/

namespace Trustgraphs.EasOffchain

open Outcome Reader List

variable {H : Hashes} {K : K256}

/-- The ABI encoding of `(string, uint256)`. A string is its bytes. -/
def abiEncode (comment : Bytes) (confidence : U256) : Bytes :=
  wordU256 64 ++ wordU256 confidence ++ wordU256 (BitVec.ofNat 256 comment.length) ++ comment ++
    List.replicate ((comment.length + 31) / 32 * 32 - comment.length) 0

theorem ofBeBytes_wordU256 (x : U256) : ofBeBytes (wordU256 x) = x.toNat := by
  show ofBeBytes (beBytes 32 x.toNat) = _
  rw [ofBeBytes_beBytes]
  exact Nat.mod_eq_of_lt x.isLt

theorem wordU256_ofBeBytes {l : Bytes} (h : l.length = 32) : wordU256 (BitVec.ofNat 256 (ofBeBytes l)) = l := by
  have hlt := ofBeBytes_lt l
  have hbytes := beBytes_ofBeBytes l
  rw [h] at hlt hbytes
  show beBytes 32 (ofBeBytes l % 2 ^ 256) = l
  rw [Nat.mod_eq_of_lt (hlt.trans_eq (by norm_num)), hbytes]

theorem wordU256_sixtyFour : wordU256 64 = List.replicate 31 0 ++ [64] := by decide

theorem toNat_length {comment : Bytes} (h : comment.length ≤ MAX_COMMENT_BYTES) :
    (BitVec.ofNat 256 comment.length).toNat = comment.length := by
  have h' : comment.length ≤ 4096 := h
  rw [BitVec.toNat_ofNat]
  exact Nat.mod_eq_of_lt (by omega)

theorem length_abiEncode (comment : Bytes) (confidence : U256) :
    (abiEncode comment confidence).length = MIN_DATA_BYTES + (comment.length + 31) / 32 * 32 := by
  show _ = 96 + _
  simp only [abiEncode, length_append, length_wordU256, length_replicate]
  omega

theorem abiEncode_parts (comment : Bytes) (confidence : U256) :
    (abiEncode comment confidence).take 32 = wordU256 64 ∧
      ((abiEncode comment confidence).drop 32).take 32 = wordU256 confidence ∧
      ((abiEncode comment confidence).drop 64).take 32 = wordU256 (BitVec.ofNat 256 comment.length) ∧
      (abiEncode comment confidence).drop 96 =
        comment ++ List.replicate ((comment.length + 31) / 32 * 32 - comment.length) 0 := by
  have h₁ := length_wordU256 64
  have h₂ := length_wordU256 confidence
  have h₃ := length_wordU256 (BitVec.ofNat 256 comment.length)
  simp only [abiEncode, append_assoc]
  refine ⟨take_left' h₁, ?_, ?_, ?_⟩
  · rw [drop_left' h₁, take_left' h₂]
  · rw [show 64 = 32 + 32 from rfl, ← drop_drop, drop_left' h₁, drop_left' h₂, take_left' h₃]
  · rw [show 96 = 32 + (32 + 32) from rfl, ← drop_drop, drop_left' h₁, ← drop_drop,
      drop_left' h₂, drop_left' h₃]

variable {data : Bytes} {n : ℕ} {schema : B256} {payload : PayloadV1}

theorem eq_abiEncode (hmin : 96 ≤ data.length)
    (hoffset : data.take 32 = wordU256 64) (hn : ofBeBytes ((data.drop 64).take 32) = n)
    (hlen : data.length = 96 + (n + 31) / 32 * 32) (hzero : ∀ b ∈ data.drop (96 + n), b = 0) :
    data = abiEncode ((data.drop 96).take n) (BitVec.ofNat 256 (ofBeBytes ((data.drop 32).take 32))) := by
  have hcomment : ((data.drop 96).take n).length = n := by
    rw [length_take, length_drop]
    omega
  have hword : ∀ k, k + 32 ≤ 96 → ((data.drop k).take 32).length = 32 := by
    intro k hk
    rw [length_take, length_drop]
    omega
  have hpad : data.drop (96 + n) = List.replicate ((n + 31) / 32 * 32 - n) 0 := by
    rw [eq_replicate_iff, length_drop]
    exact ⟨by omega, hzero⟩
  unfold abiEncode
  rw [hcomment, ← hn, wordU256_ofBeBytes (hword 32 (by omega)), wordU256_ofBeBytes (hword 64 (by omega)),
    hn, ← hpad, ← hoffset]
  -- the pieces are consecutive
  have hsplit : ∀ k m, data.drop k = (data.drop k).take m ++ data.drop (k + m) := by
    intro k m
    rw [← drop_drop, take_append_drop]
  calc data = data.take 32 ++ data.drop 32 := (take_append_drop ..).symm
    _ = data.take 32 ++ ((data.drop 32).take 32 ++ data.drop 64) := by rw [← hsplit 32 32]
    _ = data.take 32 ++ ((data.drop 32).take 32 ++ ((data.drop 64).take 32 ++ data.drop 96)) := by
        rw [← hsplit 64 32]
    _ = _ := by rw [hsplit 96 n]; simp only [append_assoc, ← hsplit 96 n]

/-- Attestation data is accepted when it is the ABI encoding of a comment and a confidence. -/
theorem canonicalData_eq_ok : canonicalData data = .ok () ↔
    ∃ comment confidence, comment.length ≤ MAX_COMMENT_BYTES ∧ data = abiEncode comment confidence := by
  unfold canonicalData
  constructor
  · intro h
    obtain ⟨hsize, h⟩ := of_guard h
    obtain ⟨-, h⟩ := of_guard h
    obtain ⟨hoffset, h⟩ := of_guard h
    obtain ⟨hmax, h⟩ := of_guard h
    obtain ⟨hlen, h⟩ := of_guard h
    obtain ⟨hzero, -⟩ := of_guard h
    have hmin : 96 ≤ data.length := (not_not.mp hsize).1
    refine ⟨_, _, ?_, eq_abiEncode hmin ((not_not.mp hoffset).trans wordU256_sixtyFour.symm) rfl
      (not_not.mp hlen) ?_⟩
    · rw [length_take]
      exact (min_le_left _ _).trans (Nat.le_of_not_gt hmax)
    · intro b hb
      by_contra hne
      exact hzero (any_eq_true.mpr ⟨b, hb, by simpa using hne⟩)
  · rintro ⟨comment, confidence, hmax, rfl⟩
    obtain ⟨hoffset, -, hn, hrest⟩ := abiEncode_parts comment confidence
    have hmax' : comment.length ≤ 4096 := hmax
    have hlen := length_abiEncode comment confidence
    have hlen' : (abiEncode comment confidence).length = 96 + (comment.length + 31) / 32 * 32 := hlen
    rw [if_neg, if_neg, if_neg, hn, ofBeBytes_wordU256, toNat_length hmax]
    · dsimp only
      rw [if_neg (by omega), if_neg (by simpa using hlen), if_neg]
      rw [Bool.not_eq_true, any_eq_false]
      intro b hb
      have hdrop : (abiEncode comment confidence).drop (MIN_DATA_BYTES + comment.length) =
          List.replicate ((comment.length + 31) / 32 * 32 - comment.length) 0 := by
        show (abiEncode comment confidence).drop (96 + comment.length) = _
        rw [← drop_drop, hrest, drop_left]
      rw [hdrop] at hb
      simp [eq_of_mem_replicate hb]
    · rw [hoffset, wordU256_sixtyFour]
      simp
    · omega
    · rw [not_not]
      show 96 ≤ _ ∧ _ ≤ 4192
      omega

theorem abiEncode_injective {comment comment' : Bytes} {confidence confidence' : U256}
    (h : comment.length ≤ MAX_COMMENT_BYTES) (h' : comment'.length ≤ MAX_COMMENT_BYTES)
    (e : abiEncode comment confidence = abiEncode comment' confidence') :
    comment = comment' ∧ confidence = confidence' := by
  obtain ⟨-, hc, hn, hrest⟩ := abiEncode_parts comment confidence
  obtain ⟨-, hc', hn', hrest'⟩ := abiEncode_parts comment' confidence'
  rw [← e] at hc' hn' hrest'
  have hlen : comment.length = comment'.length := by
    have hword := congrArg BitVec.toNat (wordU256_inj.mp (hn.symm.trans hn'))
    rwa [toNat_length h, toNat_length h'] at hword
  exact ⟨(append_inj (hrest.symm.trans hrest') hlen).1, wordU256_inj.mp (hc.symm.trans hc')⟩

/-- What the decoder demands of an attestation, its schema apart. -/
structure Canonical (K : K256) (a : OffchainAttestation) : Prop where
  version : a.version = 2
  recipient : a.recipient ≠ 0
  expirationTime : a.expirationTime = 0
  revocable : a.revocable = true
  refUid : a.refUid = 0
  data : canonicalData a.data = .ok ()
  salt : a.salt ≠ 0
  signature : canonicalSignature K a.signature = .ok ()

theorem length_of_canonicalData (h : canonicalData data = .ok ()) :
    MIN_DATA_BYTES ≤ data.length ∧ data.length ≤ MAX_DATA_BYTES :=
  not_not.mp (of_guard h).1

theorem length_of_canonicalSignature {signature : Bytes}
    (h : canonicalSignature K signature = .ok ()) : signature.length = 65 :=
  not_not.mp (not_or.mp (of_guard h).1).1

theorem pushUint_four (h : n < 2 ^ 32) : pushUint (UInt64.ofNat n) 4 = beBytes 4 n := by
  have htoNat : (UInt64.ofNat n).toNat = n := UInt64.toNat_ofNat_of_lt' (h.trans (by norm_num))
  have hsplit : ∀ m, beBytes 8 m = beBytes 4 (m / 256 / 256 / 256 / 256) ++ beBytes 4 m := by
    intro m
    simp [beBytes]
  unfold pushUint
  rw [htoNat, hsplit]
  exact drop_left' (length_beBytes ..)

theorem entry_reads : Reads decodeEntry encodeEntry (fun _ => True) := by
  intro buf entry rest
  simp only [decodeEntry, bind_eq_ok, Prod.exists, u8_eq_ok, array_eq_ok, Except.ok.injEq,
    Prod.mk.injEq, true_and]
  constructor
  · rintro ⟨kind, _, rfl, uid, _, rfl, rfl, rfl⟩
    rfl
  · rintro rfl
    exact ⟨entry.kind, _, rfl, entry.uid, _, rfl, rfl, rfl⟩

def headBytes (schema : B256) (recipient : Address) (time : UInt64) : Bytes :=
  beBytes 2 2 ++ schema.bytes ++ recipient.bytes ++ beBytes 8 time.toNat ++ beBytes 8 0 ++ [1] ++
    (0 : B256).bytes

theorem head_reads (schema : B256) : Reads (decodeAttestationHead schema)
    (fun head => headBytes head.1 head.2.1 head.2.2) (fun head => head.1 = schema ∧ head.2.1 ≠ 0) := by
  rintro buf ⟨found, recipient, time⟩ rest
  simp only [decodeAttestationHead, bind_eq_ok, Prod.exists, u8_eq_ok, u16_eq_ok, u64_eq_ok,
    array_eq_ok, ite_error_eq_ok, Except.ok.injEq, Prod.mk.injEq, not_not, ne_eq, headBytes]
  constructor
  · rintro ⟨version, _, rfl, rfl, found, _, rfl, hschema, recipient, _, rfl, hrecipient, time, _, rfl,
      expirationTime, _, rfl, rfl, revocable, _, rfl, rfl, refUid, _, rfl, rfl, ⟨rfl, rfl, rfl⟩, rfl⟩
    refine ⟨⟨hschema, hrecipient⟩, ?_⟩
    simp
  · rintro ⟨⟨hschema, hrecipient⟩, rfl⟩
    exact ⟨2, _, by simp, rfl, found, _, rfl, hschema, recipient, _, rfl, hrecipient, time, _, rfl,
      0, _, rfl, rfl, 1, _, rfl, rfl, 0, _, rfl, rfl, ⟨rfl, rfl, rfl⟩, rfl⟩

theorem attestation_reads (schema : B256) : Reads (decodeAttestation K schema) encodeAttestation
    (fun a => Canonical K a ∧ a.schema = schema) := by
  have hhead : ∀ buf head rest, decodeAttestationHead schema buf = .ok (head, rest) ↔
      (head.1 = schema ∧ head.2.1 ≠ 0) ∧ buf = headBytes head.1 head.2.1 head.2.2 ++ rest :=
    head_reads schema
  intro buf a rest
  simp only [decodeAttestation, bind_eq_ok, Prod.exists, hhead, u32_eq_ok, take_eq_ok, array_eq_ok,
    ite_error_eq_ok, Except.ok.injEq, Prod.mk.injEq, not_not]
  constructor
  · rintro ⟨found, recipient, time, _, ⟨⟨hschema, hrecipient⟩, rfl⟩, dataLen, _, rfl, -, data, _,
      ⟨rfl, hlen⟩, ⟨⟩, hdata, salt, _, rfl, hsalt, signature, _, ⟨rfl, -⟩, ⟨⟩, hsignature, rfl, rfl⟩
    refine ⟨⟨⟨rfl, hrecipient, rfl, rfl, rfl, hdata, hsalt, hsignature⟩, hschema⟩, ?_⟩
    have hpush : pushUint (UInt64.ofNat data.length) 4 = beBytes 4 dataLen.toNat := by
      rw [hlen]
      exact pushUint_four dataLen.toNat_lt
    simp [encodeAttestation, headBytes, boolByte, hpush]
  · rintro ⟨⟨⟨hversion, hrecipient, hexpiration, hrevocable, hrefUid, hdata, hsalt, hsignature⟩, hschema⟩, rfl⟩
    obtain ⟨version, found, recipient, time, expirationTime, revocable, refUid, data, salt, signature⟩ := a
    dsimp only at hversion hrecipient hexpiration hrevocable hrefUid hdata hsalt hsignature hschema
    subst hversion hexpiration hrevocable hrefUid
    obtain ⟨hmin, hmax⟩ := length_of_canonicalData hdata
    have hlt : data.length < 2 ^ 32 := hmax.trans_lt (by decide)
    have hto : (UInt32.ofNat data.length).toNat = data.length := UInt32.toNat_ofNat_of_lt' hlt
    refine ⟨found, recipient, time, _, ⟨⟨hschema, hrecipient⟩, ?_⟩, UInt32.ofNat data.length,
      data ++ (salt.bytes ++ (signature ++ rest)), rfl, ?_, data, _, ⟨rfl, hto.symm⟩, (), hdata, salt,
      _, rfl, hsalt, signature, _, ⟨rfl, length_of_canonicalSignature hsignature⟩, (), hsignature, rfl,
      rfl⟩
    · simp [encodeAttestation, headBytes, boolByte, hto, pushUint_four hlt]
    · rw [hto]
      exact ⟨hmin, hmax⟩

theorem length_encodeEntry (entry : LogEntry) : (encodeEntry entry).length = 33 := by simp [encodeEntry]

theorem Canonical.length {a : OffchainAttestation} (h : Canonical K a) :
    ATTESTATION_FIXED_BYTES ≤ (encodeAttestation a).length := by
  have hsignature := length_of_canonicalSignature h.signature
  have hmin : 96 ≤ a.data.length := (length_of_canonicalData h.data).1
  have hpush : (pushUint (UInt64.ofNat a.data.length) 4).length = 4 := by simp [pushUint]
  show 204 ≤ _
  simp only [encodeAttestation, length_append, length_beBytes, FixedBytes.length_bytes, hpush,
    hsignature, length_singleton]
  omega

theorem length_flatMap_ge {α : Type} {enc : α → Bytes} {as : List α}
    (h : ∀ a ∈ as, n ≤ (enc a).length) : as.length * n ≤ (as.flatMap enc).length := by
  induction as with
  | nil => simp
  | cons a as ih =>
    have hhead := h a mem_cons_self
    have htail := ih fun b hb => h b (mem_cons_of_mem a hb)
    rw [flatMap_cons, length_append, length_cons, Nat.succ_mul]
    omega

structure Admissible (H : Hashes) (K : K256) (schema : B256) (payload : PayloadV1) : Prop where
  size : (encodeFields payload).length ≤ MAX_PAYLOAD_BYTES
  entries : payload.entries ≠ []
  entryLimit : payload.entries.length ≤ MAX_ENTRIES_PER_NODE
  attestationLimit : payload.attestations.length ≤ payload.entries.length
  attestations : ∀ a ∈ payload.attestations, Canonical K a ∧ a.schema = schema
  log : ∃ st, payload.entries.foldlM (scanEntry H) ⟨payload.attestations, ∅, ∅⟩ = .ok st ∧ st.rest = []

theorem records_length {entries : List LogEntry} {attestations : List OffchainAttestation}
    (h : ∀ a ∈ attestations, Canonical K a) :
    entries.length * 33 + attestations.length * ATTESTATION_FIXED_BYTES ≤
      (entries.flatMap encodeEntry ++ attestations.flatMap encodeAttestation).length := by
  rw [length_append]
  refine Nat.add_le_add (length_flatMap_ge fun e _ => ?_) (length_flatMap_ge fun a ha => ?_)
  · exact (length_encodeEntry e).ge
  · exact (h a ha).length

/-- The decoder accepts the encodings of the admissible payloads. -/
theorem decode_eq_ok {bytes : Bytes} : decode H K bytes schema = .ok payload ↔
      Admissible H K schema payload ∧ bytes = encodeFields payload := by
  have hentries : ∀ n buf es rest, repeated decodeEntry n buf = .ok (es, rest) ↔
      (es.length = n ∧ ∀ e ∈ es, True) ∧ buf = es.flatMap encodeEntry ++ rest :=
    fun n => entry_reads.repeated n
  have hattestations : ∀ n buf as rest, repeated (decodeAttestation K schema) n buf = .ok (as, rest) ↔
        (as.length = n ∧ ∀ a ∈ as, Canonical K a ∧ a.schema = schema) ∧
          buf = as.flatMap encodeAttestation ++ rest :=
    fun n => (attestation_reads schema).repeated n
  simp only [decode, bind_eq_ok, Prod.exists, u16_eq_ok, u32_eq_ok, take_eq_ok, array_eq_ok,
    ite_error_eq_ok, Except.ok.injEq, not_not, ne_eq, hentries, hattestations]
  constructor
  · rintro ⟨hsize, magic, _, ⟨rfl, -⟩, rfl, version, _, rfl, rfl, owner, _, rfl, entryCount, _, rfl,
      attestationCount, _, rfl, hcount, hattest, -, entries, _, ⟨⟨hentryCount, -⟩, rfl⟩, attestations,
      _, ⟨⟨hattestCount, hcanonical⟩, rfl⟩, rfl, st, hst, hrest, rfl⟩
    have hbytes : MAGIC ++ (beBytes 2 PAYLOAD_VERSION.toNat ++ (owner.bytes ++
        (beBytes 4 entryCount.toNat ++ (beBytes 4 attestationCount.toNat ++
        (entries.flatMap encodeEntry ++ (attestations.flatMap encodeAttestation ++ [])))))) =
        encodeFields ⟨owner, entries, attestations⟩ := by
      simp only [encodeFields, hentryCount, hattestCount, pushUint_four entryCount.toNat_lt,
        pushUint_four attestationCount.toNat_lt, append_assoc, append_nil]
    rw [not_or, ← hentryCount] at hcount
    refine ⟨⟨?_, ?_, Nat.le_of_not_gt hcount.2, ?_, hcanonical, st, hst, hrest⟩, hbytes⟩
    · rw [← hbytes]
      exact Nat.le_of_not_gt hsize
    · exact fun h => hcount.1 (length_eq_zero_iff.mpr h)
    · show attestations.length ≤ entries.length
      omega
  · rintro ⟨⟨hsize, hne, hlimit, hattest, hcanonical, st, hst, hrest⟩, rfl⟩
    obtain ⟨owner, entries, attestations⟩ := payload
    dsimp only at hne hlimit hattest hcanonical hst
    have hlimit' : entries.length ≤ 2048 := hlimit
    have he : (UInt32.ofNat entries.length).toNat = entries.length :=
      UInt32.toNat_ofNat_of_lt' (hlimit'.trans_lt (by decide))
    have ha : (UInt32.ofNat attestations.length).toNat = attestations.length :=
      UInt32.toNat_ofNat_of_lt' ((hattest.trans hlimit').trans_lt (by decide))
    refine ⟨Nat.not_lt.mpr hsize, MAGIC, _, ⟨?_, rfl⟩, rfl, PAYLOAD_VERSION, _, rfl, rfl, owner, _, rfl,
      UInt32.ofNat entries.length, _, rfl, UInt32.ofNat attestations.length,
      entries.flatMap encodeEntry ++ (attestations.flatMap encodeAttestation ++ []), rfl, ?_, ?_, ?_,
      entries, _, ⟨⟨he.symm, fun _ _ => trivial⟩, rfl⟩, attestations, _, ⟨⟨ha.symm, hcanonical⟩, rfl⟩,
      rfl, st, hst, hrest, rfl⟩
    · simp only [encodeFields, he, ha, append_assoc, append_nil, pushUint_four (hlimit'.trans_lt (by decide)),
        pushUint_four ((hattest.trans hlimit').trans_lt (by decide))]
    · rw [he, length_eq_zero_iff]
      exact not_or.mpr ⟨hne, Nat.not_lt.mpr hlimit⟩
    · rw [he, ha]
      exact Nat.not_lt.mpr hattest
    · rw [he, ha, append_nil]
      exact Nat.not_lt.mpr (records_length fun a h => (hcanonical a h).1)

theorem Admissible.exists_attestation
    (h : Admissible H K schema payload) : ∃ a as, payload.attestations = a :: as := by
  obtain ⟨st, hst, -⟩ := h.log
  cases hattest : payload.attestations with
  | cons a as => exact ⟨a, as, rfl⟩
  | nil =>
    exfalso
    obtain ⟨entry, entries, hentries⟩ := exists_cons_of_ne_nil h.entries
    rw [hattest, hentries, foldlM_cons] at hst
    obtain ⟨st', hst', -⟩ := of_bind hst
    unfold scanEntry at hst'
    by_cases hkind : entry.kind = ENTRY_ATTEST
    · rw [if_pos hkind] at hst'
      exact absurd hst' (by simp)
    · rw [if_neg hkind] at hst'
      by_cases hrevoke : entry.kind = ENTRY_REVOKE
      · rw [if_pos hrevoke] at hst'
        -- nothing is seen yet
        exact (of_guard hst').1 (by simp)
      · rw [if_neg hrevoke] at hst'
        exact absurd hst' (by simp)

theorem Admissible.firstSchema_eq (h : Admissible H K schema payload) : firstSchema payload = schema := by
  obtain ⟨a, as, hattest⟩ := h.exists_attestation
  have hschema := (h.attestations a (by rw [hattest]; exact mem_cons_self)).2
  unfold firstSchema
  rw [hattest]
  exact hschema

theorem Admissible.schema_unique {schema' : B256} {payload' : PayloadV1}
    (h : Admissible H K schema payload) (h' : Admissible H K schema' payload')
    (e : encodeFields payload = encodeFields payload') : schema = schema' := by
  obtain ⟨a, as, hattest⟩ := h.exists_attestation
  obtain ⟨a', as', hattest'⟩ := h'.exists_attestation
  have hschema := (h.attestations a (by rw [hattest]; exact mem_cons_self)).2
  have hschema' := (h'.attestations a' (by rw [hattest']; exact mem_cons_self)).2
  have hlimit : payload.entries.length ≤ 2048 := h.entryLimit
  have hlimit' : payload'.entries.length ≤ 2048 := h'.entryLimit
  have hpush : ∀ n, (pushUint n 4).length = 4 := by simp [pushUint]
  simp only [encodeFields, append_assoc] at e
  obtain ⟨-, e⟩ := append_inj e rfl
  obtain ⟨-, e⟩ := append_inj e rfl
  obtain ⟨-, e⟩ := append_inj e (by simp)
  obtain ⟨hcount, e⟩ := append_inj e (by rw [hpush, hpush])
  obtain ⟨-, e⟩ := append_inj e (by rw [hpush, hpush])
  rw [pushUint_four (hlimit.trans_lt (by decide)), pushUint_four (hlimit'.trans_lt (by decide))]
    at hcount
  have hlen : payload.entries.length = payload'.entries.length :=
    beBytes_injective (hlimit.trans_lt (by decide)) (hlimit'.trans_lt (by decide)) hcount
  have hsum : ∀ es : List LogEntry, (es.flatMap encodeEntry).length = es.length * 33 := by
    intro es
    induction es with
    | nil => rfl
    | cons entry es ih =>
      rw [flatMap_cons, length_append, length_encodeEntry, ih, length_cons]
      omega
  obtain ⟨-, e⟩ := append_inj e (by rw [hsum, hsum, hlen])
  -- the first attestation starts with its version and its schema
  rw [hattest, hattest', flatMap_cons, flatMap_cons] at e
  simp only [encodeAttestation, append_assoc] at e
  obtain ⟨-, e⟩ := append_inj e (by simp)
  obtain ⟨e, -⟩ := append_inj e (by simp)
  rw [← hschema, ← hschema', FixedBytes.bytes_inj.mp e]

theorem encode_eq_ok {bytes : Bytes} : encode H K payload = .ok bytes ↔
      Admissible H K (firstSchema payload) payload ∧ bytes = encodeFields payload := by
  unfold encode
  constructor
  · intro h
    obtain ⟨-, h⟩ := of_guard h
    obtain ⟨-, h⟩ := of_guard h
    obtain ⟨decoded, hdecode, h⟩ := of_bind h
    obtain ⟨heq, h⟩ := of_guard h
    obtain rfl := not_not.mp heq
    exact ⟨(decode_eq_ok.mp hdecode).1, (ok_inj h).symm⟩
  · rintro ⟨h, rfl⟩
    rw [if_neg (not_or.mpr ⟨h.entries, Nat.not_lt.mpr h.entryLimit⟩)]
    dsimp only
    rw [if_neg (Nat.not_lt.mpr h.size), decode_eq_ok.mpr ⟨h, rfl⟩]
    simp

/-- The codec is a bijection onto its canonical image: what is decoded is encoded by the input, what
is encoded is decoded from the output under the schema of its attestations and under no other, and no
bytes have two readings. In particular the data of an attestation is the ABI encoding of one string of
bounded length and one number. -/
theorem codec_bijective (H : Hashes) (K : K256) :
    (∀ bytes schema payload, decode H K bytes schema = .ok payload → encode H K payload = .ok bytes) ∧
    (∀ payload bytes, encode H K payload = .ok bytes →
      (∃ a ∈ payload.attestations, a.schema = firstSchema payload) ∧
      (∀ a ∈ payload.attestations, a.schema = firstSchema payload) ∧
      ∀ schema, decode H K bytes schema = .ok payload ↔ schema = firstSchema payload) ∧
    (∀ bytes schema schema' payload payload', decode H K bytes schema = .ok payload →
      decode H K bytes schema' = .ok payload' → schema = schema' ∧ payload = payload') ∧
    (∀ data, canonicalData data = .ok () ↔ ∃ comment confidence,
      comment.length ≤ MAX_COMMENT_BYTES ∧ data = abiEncode comment confidence) ∧
    ∀ comment comment' confidence confidence', comment.length ≤ MAX_COMMENT_BYTES →
      comment'.length ≤ MAX_COMMENT_BYTES →
      abiEncode comment confidence = abiEncode comment' confidence' →
      comment = comment' ∧ confidence = confidence' := by
  refine ⟨?_, ?_, ?_, fun _ => canonicalData_eq_ok, fun _ _ _ _ => abiEncode_injective⟩
  · intro bytes schema payload h
    obtain ⟨hadm, rfl⟩ := decode_eq_ok.mp h
    exact encode_eq_ok.mpr ⟨by rw [hadm.firstSchema_eq]; exact hadm, rfl⟩
  · intro payload bytes h
    obtain ⟨hadm, rfl⟩ := encode_eq_ok.mp h
    obtain ⟨a, as, hattest⟩ := hadm.exists_attestation
    have ha : a ∈ payload.attestations := by rw [hattest]; exact mem_cons_self
    refine ⟨⟨a, ha, (hadm.attestations a ha).2⟩, fun b hb => (hadm.attestations b hb).2,
      fun schema => ⟨fun hd => ?_, ?_⟩⟩
    · exact ((decode_eq_ok.mp hd).1.firstSchema_eq).symm
    · rintro rfl
      exact decode_eq_ok.mpr ⟨hadm, rfl⟩
  · intro bytes schema schema' payload payload' h h'
    obtain ⟨hadm, rfl⟩ := decode_eq_ok.mp h
    obtain ⟨hadm', e⟩ := decode_eq_ok.mp h'
    obtain rfl := hadm.schema_unique hadm' e
    rw [h] at h'
    exact ⟨rfl, ok_inj h'⟩

end Trustgraphs.EasOffchain
