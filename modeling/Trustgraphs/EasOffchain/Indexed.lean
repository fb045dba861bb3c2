import Trustgraphs.EasOffchain.Payload
import Trustgraphs.Lib.Indexing

/-!
# The payload functions with their indices (`eas-offchain/src/payload.rs`, `eas-offchain/src/ecdsa.rs`)

The functions that decode and verify a payload, with every index, slice and unwrapped conversion of the
source, each of which panics when it is out of range. Functions without one are those of the model.
-/

namespace Trustgraphs.EasOffchain.Indexed

open Indexing Outcome

/-- A computation on a payload that may panic. -/
abbrev Step (α : Type) := Except (Abort PayloadError) α

def fail {E α : Type} (e : E) : Except (Abort E) α := .error (.error e)

/-! ## Signatures -/

/-- The address that signed the prehash. -/
def recoverAddress (H : Hashes) (K : K256) (prehash : B256) (signature : Bytes) : Except (Abort Unit) Address :=
  if signature.length ≠ 65 then fail ()
  else do
    let v ← index signature 64
    match parityOf v with
    | none => fail ()
    | some parity =>
      let rs ← slice signature 0 64
      if ¬ K.wellFormed rs then fail ()
      else if K.highS rs then fail ()
      else
        match K.recover prehash rs parity with
        | none => fail ()
        | some uncompressed =>
          let point ← sliceFrom uncompressed 1
          let address ← sliceFrom (H.keccak256 point).bytes 12
          fromSlice 20 address

/-- A signature in the one accepted form. -/
def canonicalSignature (K : K256) (signature : Bytes) : Step Unit :=
  if signature.length ≠ 65 then fail .signatureForm
  else do
    let v ← index signature 64
    if ¬ (v = 27 ∨ v = 28) then fail .signatureForm
    else
      let rs ← slice signature 0 64
      if ¬ K.wellFormed rs then fail .signatureForm
      else if K.highS rs then fail .signatureForm
      else .ok ()

/-! ## The decoder -/

/-- A conversion to `usize` that the source unwraps. -/
def toUsize (n : ℕ) : Step ℕ := if n < 2 ^ 64 then .ok n else .error .panic

/-- Attestation data in the one accepted form. -/
def canonicalData (data : Bytes) : Step Unit :=
  if ¬ (MIN_DATA_BYTES ≤ data.length ∧ data.length ≤ MAX_DATA_BYTES) then fail .dataLimit
  else if data.length % 32 ≠ 0 then fail .dataAbi
  else do
    let offsetWord ← slice data 0 32
    if offsetWord ≠ List.replicate 31 0 ++ [64] then fail .dataAbi
    else
      let lengthWord ← slice data 64 96
      if ofBeBytes lengthWord > MAX_COMMENT_BYTES then fail .dataLimit
      else
        let length ← toUsize (ofBeBytes lengthWord)
        let padded := (length + 31) / 32 * 32
        if data.length ≠ MIN_DATA_BYTES + padded then fail .dataAbi
        else
          let padding ← sliceFrom data (MIN_DATA_BYTES + length)
          if padding.any fun b => b != 0 then fail .dataAbi else .ok ()

/-- The bytes and how many of them are consumed. -/
structure Decoder where
  bytes : Bytes
  offset : ℕ

namespace Decoder

def take (len : ℕ) (d : Decoder) : Step (Bytes × Decoder) :=
  if 2 ^ 64 ≤ d.offset + len then fail .truncated
  else if d.bytes.length < d.offset + len then fail .truncated
  else .ok ((d.bytes.drop d.offset).take len, { d with offset := d.offset + len })

def u8 (d : Decoder) : Step (UInt8 × Decoder) := do
  let (l, d) ← d.take 1
  let b ← index l 0
  .ok (b, d)

/-- `take(n)` with its conversion to an array unwrapped. -/
def array (n : ℕ) (d : Decoder) : Step (FixedBytes n × Decoder) := do
  let (l, d) ← d.take n
  let a ← fromSlice n l
  .ok (a, d)

def u16 (d : Decoder) : Step (UInt16 × Decoder) := do
  let (a, d) ← d.array 2
  .ok (UInt16.ofNat (ofBeBytes a.bytes), d)

def u32 (d : Decoder) : Step (UInt32 × Decoder) := do
  let (a, d) ← d.array 4
  .ok (UInt32.ofNat (ofBeBytes a.bytes), d)

def u64 (d : Decoder) : Step (UInt64 × Decoder) := do
  let (a, d) ← d.array 8
  .ok (UInt64.ofNat (ofBeBytes a.bytes), d)

def b256 (d : Decoder) : Step (B256 × Decoder) := d.array 32

def address (d : Decoder) : Step (Address × Decoder) := d.array 20

def repeated {α : Type} (item : Decoder → Step (α × Decoder)) : ℕ → Decoder → Step (List α × Decoder)
  | 0, d => .ok ([], d)
  | n + 1, d => do
    let (a, d) ← item d
    let (as, d) ← repeated item n d
    .ok (a :: as, d)

end Decoder

def decodeEntry (d : Decoder) : Step (LogEntry × Decoder) := do
  let (kind, d) ← d.u8
  let (uid, d) ← d.b256
  .ok (⟨kind, uid⟩, d)

/-- The attestation fields up to the data length. -/
def decodeAttestationHead (expectedSchema : B256) (d : Decoder) :
    Step ((B256 × Address × UInt64) × Decoder) := do
  let (version, d) ← d.u16
  if version ≠ 2 then fail .profileVersion
  else
    let (schema, d) ← d.b256
    if schema ≠ expectedSchema then fail .schema
    else
      let (recipient, d) ← d.address
      if recipient = 0 then fail .recipient
      else
        let (time, d) ← d.u64
        let (expirationTime, d) ← d.u64
        if expirationTime ≠ 0 then fail .expiration
        else
          let (revocableByte, d) ← d.u8
          if revocableByte ≠ 1 then fail .revocable
          else
            let (refUid, d) ← d.b256
            if refUid ≠ 0 then fail .refUid else .ok ((schema, recipient, time), d)

def decodeAttestation (K : K256) (expectedSchema : B256) (d : Decoder) :
    Step (OffchainAttestation × Decoder) := do
  let ((schema, recipient, time), d) ← decodeAttestationHead expectedSchema d
  let (dataLen, d) ← d.u32
  if ¬ (MIN_DATA_BYTES ≤ dataLen.toNat ∧ dataLen.toNat ≤ MAX_DATA_BYTES) then fail .dataLimit
  else
    let (data, d) ← d.take dataLen.toNat
    canonicalData data
    let (salt, d) ← d.b256
    if salt = 0 then fail .zeroSalt
    else
      let (signature, d) ← d.take 65
      canonicalSignature K signature
      .ok (⟨2, schema, recipient, time, 0, true, 0, data, salt, signature⟩, d)

/-- A payload, read to its last byte. -/
def decode (H : Hashes) (K : K256) (bytes : Bytes) (expectedSchema : B256) : Step PayloadV1 :=
  if bytes.length > MAX_PAYLOAD_BYTES then fail .payloadLimit
  else do
    let (magic, d) ← Decoder.take MAGIC.length ⟨bytes, 0⟩
    if magic ≠ MAGIC then fail .magic
    else
      let (version, d) ← d.u16
      if version ≠ PAYLOAD_VERSION then fail .payloadVersion
      else
        let (owner, d) ← d.address
        let (entryCount, d) ← d.u32
        let (attestationCount, d) ← d.u32
        if entryCount.toNat = 0 ∨ entryCount.toNat > MAX_ENTRIES_PER_NODE then fail .entryLimit
        else if attestationCount.toNat > entryCount.toNat then fail .countMismatch
        else if entryCount.toNat * 33 + attestationCount.toNat * ATTESTATION_FIXED_BYTES >
            bytes.length - d.offset then fail .truncated
        else
          let (entries, d) ← Decoder.repeated decodeEntry entryCount.toNat d
          let (attestations, d) ←
            Decoder.repeated (decodeAttestation K expectedSchema) attestationCount.toNat d
          if d.offset ≠ bytes.length then fail .trailingBytes
          else
            let st ← ofResult id (entries.foldlM (scanEntry H) ⟨attestations, ∅, ∅⟩)
            if st.rest ≠ [] then fail .countMismatch else .ok ⟨owner, entries, attestations⟩

/-! ## Verification -/

def verifyAnchorAuthorization (H : Hashes) (K : K256) (headDomainSeparator : B256)
    (message : AnchorMessage) (signature : Bytes) : Step Address := do
  canonicalSignature K signature
  renameError (fun _ => .headSignature) (recoverAddress H K
    (eip712Digest H headDomainSeparator (anchorStructHash H message)) signature)

def verifyAttestation (H : Hashes) (K : K256) (context : VerificationContext) (owner : Address)
    (a : OffchainAttestation) : Step Unit :=
  if a.time > context.anchorTimestamp then fail .futureTime
  else do
    let signer ← renameError (fun _ => .easSignature) (recoverAddress H K
      (eip712Digest H context.easDomainSeparator (attestStructHash H a)) a.signature)
    if signer ≠ owner then fail .easSignature else .ok ()

/-- A payload and the signatures in it. -/
def verify (H : Hashes) (K : K256) (bytes : Bytes) (context : VerificationContext) : Step PayloadV1 := do
  let commitment ← fromSlice 32 (H.sha256 bytes).bytes
  if commitment ≠ context.anchor.dataCommitment then fail .commitment
  else
    let payload ← decode H K bytes context.expectedSchema
    if addressNodeId H payload.owner ≠ context.anchor.nodeId then fail .nodeId
    else if context.anchor.envelopeKind ≠ 0 then fail .head
    else if context.anchor.schemaUid ≠ context.expectedSchema then fail .schema
    else if UInt64.ofNat payload.entries.length ≠ context.anchor.count then fail .countMismatch
    else if logHead H payload.entries ≠ context.anchor.head then fail .head
    else
      let signer ← verifyAnchorAuthorization H K context.headDomainSeparator context.anchor
        context.headSignature
      if signer ≠ payload.owner then fail .headSignature
      else
        payload.attestations.forM (verifyAttestation H K context payload.owner)
        .ok payload

end Trustgraphs.EasOffchain.Indexed
