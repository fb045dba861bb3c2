import Trustgraphs.EasOffchain.Indexed
import Trustgraphs.PagerankCore.Params

/-!
# Strict envelope-0 processing (`trustgraph-core/src/lane2.rs`)

The witness carries the whole anchor history and the newest payload of every node. Verification is
all or nothing.
-/

namespace Trustgraphs

/-- The signature that authorizes one anchor. -/
structure Envelope0AnchorAuthorization where
  foldIndex : UInt64
  headSignature : Bytes
deriving DecidableEq

/-- A payload as it is handed over. -/
structure Envelope0PayloadWitness where
  nodeId : B256
  payload : Bytes
deriving DecidableEq

structure Lane2Witness where
  anchors : List AnchorRecord
  payloads : List Envelope0PayloadWitness
  authorizations : List Envelope0AnchorAuthorization

namespace Lane2

open EasOffchain

def ENVELOPE_EAS_OFFCHAIN : UInt8 := 0

inductive Lane2Error where
  | disabled
  | invalidConfig
  | unsupportedKind
  | missingPayload
  | duplicatePayload
  | extraneousPayload
  | missingAuthorization
  | duplicateAuthorization
  | extraneousAuthorization
  | staleCount
  | sameCountConflict
  | prefixFork
  | payload (e : PayloadError)
deriving DecidableEq

/-- What the second lane adds. -/
structure Lane2Result where
  anchorAcc : B256
  anchorCount : UInt64
  edges : List RawEdge
  skips : List SkipEntry
  signatureChecks : UInt64

def Lane2Result.default : Lane2Result := ⟨0, 0, [], [], 0⟩

/-- A lane-2 computation: it may fail, or panic. -/
abbrev Lane (α : Type) := Except (Abort Lane2Error) α

def fail {α : Type} (e : Lane2Error) : Lane α := .error (.error e)

/-- Pass on the error of a payload function. -/
def ofPayload {α : Type} : Except PayloadError α → Lane α
  | .ok a => .ok a
  | .error e => fail (.payload e)

def saturatingAdd (a : UInt64) (n : Nat) : UInt64 :=
  if a.toNat + n < 2 ^ 64 then a + UInt64.ofNat n else UInt64.ofNat (2 ^ 64 - 1)

/-- The anchors of every node, with their fold index, in fold order. -/
abbrev PerNode := BTreeMap B256 (List (Nat × AnchorRecord))

/-- The leaf of an anchor. -/
def leafOf (H : Hashes) (a : AnchorRecord) : B256 :=
  anchorLeaf H a.nodeId a.envelopeKind a.head a.count a.dataCommitment a.blockTimestamp

/-- Reproduce the anchor fold and group the anchors by node. -/
def foldAnchor (H : Hashes) (st : B256 × PerNode) (anchor : AnchorRecord × Nat) : Lane (B256 × PerNode) :=
  if anchor.1.envelopeKind ≠ ENVELOPE_EAS_OFFCHAIN then fail .unsupportedKind
  else .ok (fold H st.1 (leafOf H anchor.1),
    st.2.insert anchor.1.nodeId (st.2.getD anchor.1.nodeId [] ++ [(anchor.2, anchor.1)]))

def addPayload (payloads : BTreeMap B256 Envelope0PayloadWitness) (payload : Envelope0PayloadWitness) :
    Lane (BTreeMap B256 Envelope0PayloadWitness) :=
  if payloads.contains payload.nodeId then fail .duplicatePayload
  else .ok (payloads.insert payload.nodeId payload)

/-- Index the authorizations by fold index. -/
def addAuthorization (authorizations : BTreeMap Nat Envelope0AnchorAuthorization)
    (authorization : Envelope0AnchorAuthorization) : Lane (BTreeMap Nat Envelope0AnchorAuthorization) :=
  if authorizations.contains authorization.foldIndex.toNat then fail .duplicateAuthorization
  else .ok (authorizations.insert authorization.foldIndex.toNat authorization)

/-- The message that authorizes an anchor. -/
def anchorMessage (p : Params) (anchor : AnchorRecord) (previousHead : B256) : AnchorMessage where
  nodeId := anchor.nodeId
  envelopeKind := anchor.envelopeKind
  schemaUid := p.schemaUid
  previousHead := previousHead
  head := anchor.head
  count := anchor.count
  dataCommitment := anchor.dataCommitment

/-- The state of the walk over the anchors of a node. -/
structure AnchorScan where
  previousCount : UInt64
  previousHead : B256
  authorizations : BTreeMap Nat Envelope0AnchorAuthorization
  signatureChecks : UInt64

/-- Counts ascend, and every anchor is authorized by the owner of the node. -/
def checkAnchor (H : Hashes) (K : K256) (p : Params) (headDomain nodeId : B256) (st : AnchorScan)
    (anchor : Nat × AnchorRecord) : Lane AnchorScan :=
  if anchor.2.count < st.previousCount then fail .staleCount
  else if anchor.2.count = st.previousCount then fail .sameCountConflict
  else if anchor.2.count.toNat > MAX_ENTRIES_PER_NODE then fail (.payload .entryLimit)
  else
    match st.authorizations[anchor.1]? with
    | none => fail .missingAuthorization
    | some authorization => do
      let signer ← ofPayload (verifyAnchorAuthorization H K headDomain
        (anchorMessage p anchor.2 st.previousHead) authorization.headSignature)
      if addressNodeId H signer ≠ nodeId then fail (.payload .nodeId)
      else .ok ⟨anchor.2.count, anchor.2.head, st.authorizations.erase anchor.1,
        saturatingAdd st.signatureChecks 1⟩

/-- The newest payload reproduces the head of an anchor. -/
def checkPrefix (prefixes : List B256) (anchor : Nat × AnchorRecord) : Lane Unit :=
  -- the count is positive here, since counts ascend from zero
  match prefixes[anchor.2.count.toNat - 1]? with
  | none => fail (.payload .countMismatch)
  | some head => if head ≠ anchor.2.head then fail .prefixFork else .ok ()

/-- A mutation: the fold index of its anchor, its position in the log, and the edge. -/
abbrev Mutation := Nat × Nat × RawEdge

/-- The state of the walk over the entries of a payload. -/
structure Emission where
  /-- The anchors from the cursor on. -/
  anchors : List (Nat × AnchorRecord)
  /-- The attestations from the cursor on. -/
  attestations : List OffchainAttestation
  attestationsByUid : BTreeMap B256 OffchainAttestation
  mutations : List Mutation

/-- Move the cursor to the first anchor that commits to an entry. -/
def advance (entryCount : UInt64) : List (Nat × AnchorRecord) → Option (List (Nat × AnchorRecord))
  | [] => none
  | a :: rest => if a.2.count < entryCount then advance entryCount rest else some (a :: rest)

/-- The mutation of one log entry, at the first anchor that covers it. -/
def emitEntry (owner : Address) (st : Emission) (entry : LogEntry × Nat) : Lane Emission :=
  match advance (UInt64.ofNat (entry.2 + 1)) st.anchors with
  | none | some [] => .error .panic
  | some (first :: rest) =>
    if entry.1.kind = ENTRY_ATTEST then
      match st.attestations with
      | [] => fail (.payload .countMismatch)
      | attestation :: attestations =>
        if attestation.time > first.2.blockTimestamp then fail (.payload .futureTime)
        else .ok ⟨first :: rest, attestations, st.attestationsByUid.insert entry.1.uid attestation,
          st.mutations ++ [(first.1, entry.2, ⟨ENTRY_ATTEST, owner, attestation.recipient, entry.1.uid,
            attestation.time, attestation.data⟩)]⟩
    else if entry.1.kind = ENTRY_REVOKE then
      match st.attestationsByUid[entry.1.uid]? with
      | none => fail (.payload .revokeBeforeAttest)
      | some attestation =>
        .ok ⟨first :: rest, st.attestations, st.attestationsByUid,
          st.mutations ++ [(first.1, entry.2, ⟨ENTRY_REVOKE, owner, attestation.recipient, entry.1.uid,
            first.2.blockTimestamp, attestation.data⟩)]⟩
    else fail (.payload .logKind)

/-- The mutations of an owner's payload. -/
def emit (H : Hashes) (anchors : List (Nat × AnchorRecord)) (payload : PayloadV1) : Lane (List Mutation) := do
  anchors.forM (checkPrefix (prefixHeads H payload.entries))
  let st ← payload.entries.zipIdx.foldlM (emitEntry payload.owner) ⟨anchors, payload.attestations, ∅, []⟩
  if st.attestations ≠ [] then fail (.payload .countMismatch) else .ok st.mutations

/-- The context of the newest anchor of a node. -/
def latestContext (p : Params) (easDomain headDomain : B256) (anchors : List (Nat × AnchorRecord))
    (latest : Nat × AnchorRecord) (headSignature : Bytes) : VerificationContext where
  expectedSchema := p.schemaUid
  easDomainSeparator := easDomain
  headDomainSeparator := headDomain
  anchor := anchorMessage p latest.2 ((anchors.dropLast.getLast?.map fun a => a.2.head).getD 0)
  anchorTimestamp := latest.2.blockTimestamp
  headSignature := headSignature

/-- The state of the walk over the nodes. -/
structure NodeScan where
  payloads : BTreeMap B256 Envelope0PayloadWitness
  authorizations : BTreeMap Nat Envelope0AnchorAuthorization
  mutations : List Mutation
  signatureChecks : UInt64

/-- Verify one node and emit its mutations. -/
def processNode (H : Hashes) (K : K256) (p : Params) (easDomain headDomain : B256)
    (authorizations : List Envelope0AnchorAuthorization) (st : NodeScan)
    (node : B256 × List (Nat × AnchorRecord)) : Lane NodeScan :=
  match st.payloads[node.1]? with
  | none => fail .missingPayload
  | some payloadWitness => do
    let scan ← node.2.foldlM (checkAnchor H K p headDomain node.1)
      ⟨0, 0, st.authorizations, st.signatureChecks⟩
    match node.2.getLast? with
    | none => .error .panic
    | some latest =>
      match authorizations.find? fun a => a.foldIndex = UInt64.ofNat latest.1 with
      | none => fail .missingAuthorization
      | some latestAuthorization =>
        let payload ← ofPayload (verify H K payloadWitness.payload
          (latestContext p easDomain headDomain node.2 latest latestAuthorization.headSignature))
        if payloadWitness.nodeId ≠ addressNodeId H payload.owner then fail (.payload .nodeId)
        else
          let mutations ← emit H node.2 payload
          .ok ⟨st.payloads.erase node.1, scan.authorizations, st.mutations ++ mutations,
            saturatingAdd (saturatingAdd scan.signatureChecks 1) payload.attestations.length⟩

/-- The order of mutations: by anchor, then by position in the log. -/
def mutationBefore (a b : Mutation) : Bool := a.1 < b.1 || (a.1 == b.1 && a.2.1 ≤ b.2.1)

/-- Process the witness of an enabled lane. -/
def process (H : Hashes) (K : K256) (p : Params) (witness : Lane2Witness) : Lane Lane2Result :=
  match p.envelope0DomainSeparators with
  | [] => fail .disabled
  | [easDomain, headDomain] =>
    if p.lane2MaxHeadAge ≠ 0 then fail .invalidConfig
    else do
      let (anchorAcc, perNode) ← witness.anchors.zipIdx.foldlM (foldAnchor H) (0, ∅)
      let payloads ← witness.payloads.foldlM addPayload ∅
      let authorizations ← witness.authorizations.foldlM addAuthorization ∅
      if witness.anchors.isEmpty then
        if ¬ payloads.isEmpty then fail .extraneousPayload
        else if ¬ authorizations.isEmpty then fail .extraneousAuthorization
        else .ok .default
      else
        let st ← perNode.toList.foldlM
          (processNode H K p easDomain headDomain witness.authorizations)
          ⟨payloads, authorizations, [], 0⟩
        if ¬ st.payloads.isEmpty then fail .extraneousPayload
        else if ¬ st.authorizations.isEmpty then fail .extraneousAuthorization
        else
          let ordered := st.mutations.insertionSort fun a b => mutationBefore a b
          .ok ⟨anchorAcc, UInt64.ofNat witness.anchors.length, ordered.map fun m => m.2.2, [],
            st.signatureChecks⟩
  | _ => fail .invalidConfig

end Lane2

end Trustgraphs

/-!
## Envelope-0 processing with its indices (`trustgraph-core/src/lane2.rs`)

The walk over the nodes with every index and `expect` of the source. The cursors into the anchors and
the attestations are numbers, and an anchor that does not exist is a panic.
-/

namespace Trustgraphs.Lane2.Indexed

open EasOffchain Indexing Outcome

variable (H : Hashes) (K : K256) (p : Params)

/-- Counts ascend, and every anchor is authorized by the owner of the node. -/
def checkAnchor (headDomain nodeId : B256) (st : AnchorScan) (anchor : ℕ × AnchorRecord) : Lane AnchorScan :=
  if anchor.2.count < st.previousCount then fail .staleCount
  else if anchor.2.count = st.previousCount then fail .sameCountConflict
  else if anchor.2.count.toNat > MAX_ENTRIES_PER_NODE then fail (.payload .entryLimit)
  else
    match st.authorizations[anchor.1]? with
    | none => fail .missingAuthorization
    | some authorization => do
      let signer ← renameError .payload (EasOffchain.Indexed.verifyAnchorAuthorization H K headDomain
        (anchorMessage p anchor.2 st.previousHead) authorization.headSignature)
      if addressNodeId H signer ≠ nodeId then fail (.payload .nodeId)
      else .ok ⟨anchor.2.count, anchor.2.head, st.authorizations.erase anchor.1,
        saturatingAdd st.signatureChecks 1⟩

/-- The newest payload reproduces the head of an anchor. `anchor.count - 1` panics on a count of zero. -/
def checkPrefix (prefixes : List B256) (anchor : ℕ × AnchorRecord) : Lane Unit :=
  if anchor.2.count.toNat = 0 then .error .panic
  else
    match prefixes[anchor.2.count.toNat - 1]? with
    | none => fail (.payload .countMismatch)
    | some head => if head ≠ anchor.2.head then fail .prefixFork else .ok ()

/-- `while anchors[anchor_cursor].1.count < entry_count { anchor_cursor += 1 }`. -/
def advance (anchors : List (ℕ × AnchorRecord)) (entryCount : UInt64) (cursor : ℕ) : Lane ℕ :=
  match h : anchors[cursor]? with
  | none => .error .panic
  | some a => if a.2.count < entryCount then advance anchors entryCount (cursor + 1) else .ok cursor
termination_by anchors.length - cursor
decreasing_by
  have := (List.getElem?_eq_some_iff.mp h).1
  omega

/-- The state of the walk over the entries of a payload. -/
structure Emission where
  anchorCursor : ℕ
  attestationCursor : ℕ
  attestationsByUid : BTreeMap B256 OffchainAttestation
  mutations : List Mutation

def emitEntry (anchors : List (ℕ × AnchorRecord)) (payload : PayloadV1) (st : Emission)
    (entry : LogEntry × ℕ) : Lane Emission := do
  let cursor ← advance anchors (UInt64.ofNat (entry.2 + 1)) st.anchorCursor
  let first ← index anchors cursor
  if entry.1.kind = ENTRY_ATTEST then
    match payload.attestations[st.attestationCursor]? with
    | none => fail (.payload .countMismatch)
    | some attestation =>
      if attestation.time > first.2.blockTimestamp then fail (.payload .futureTime)
      else .ok ⟨cursor, st.attestationCursor + 1, st.attestationsByUid.insert entry.1.uid attestation,
        st.mutations ++ [(first.1, entry.2, ⟨ENTRY_ATTEST, payload.owner, attestation.recipient,
          entry.1.uid, attestation.time, attestation.data⟩)]⟩
  else if entry.1.kind = ENTRY_REVOKE then
    match st.attestationsByUid[entry.1.uid]? with
    | none => fail (.payload .revokeBeforeAttest)
    | some attestation =>
      .ok ⟨cursor, st.attestationCursor, st.attestationsByUid,
        st.mutations ++ [(first.1, entry.2, ⟨ENTRY_REVOKE, payload.owner, attestation.recipient,
          entry.1.uid, first.2.blockTimestamp, attestation.data⟩)]⟩
  else fail (.payload .logKind)

def emit (anchors : List (ℕ × AnchorRecord)) (payload : PayloadV1) : Lane (List Mutation) := do
  anchors.forM (checkPrefix (prefixHeads H payload.entries))
  let st ← payload.entries.zipIdx.foldlM (emitEntry anchors payload) ⟨0, 0, ∅, []⟩
  if st.attestationCursor ≠ payload.attestations.length then fail (.payload .countMismatch)
  else .ok st.mutations

/-- The head before the latest one of a node. -/
def latestPreviousHead (anchors : List (ℕ × AnchorRecord)) : Lane B256 :=
  if anchors.length = 1 then .ok 0
  else do
    let previous ← index anchors (anchors.length - 2)
    .ok previous.2.head

/-- Verify one node and emit its mutations. -/
def processNode (easDomain headDomain : B256) (authorizations : List Envelope0AnchorAuthorization)
    (st : NodeScan) (node : B256 × List (ℕ × AnchorRecord)) : Lane NodeScan :=
  match st.payloads[node.1]? with
  | none => fail .missingPayload
  | some payloadWitness => do
    let scan ← node.2.foldlM (checkAnchor H K p headDomain node.1)
      ⟨0, 0, st.authorizations, st.signatureChecks⟩
    let latest ← ofPanic node.2.getLast?
    let previousHead ← latestPreviousHead node.2
    match authorizations.find? fun a => a.foldIndex = UInt64.ofNat latest.1 with
    | none => fail .missingAuthorization
    | some latestAuthorization => do
      let payload ← renameError .payload (EasOffchain.Indexed.verify H K payloadWitness.payload
        { expectedSchema := p.schemaUid
          easDomainSeparator := easDomain
          headDomainSeparator := headDomain
          anchor := anchorMessage p latest.2 previousHead
          anchorTimestamp := latest.2.blockTimestamp
          headSignature := latestAuthorization.headSignature })
      if payloadWitness.nodeId ≠ addressNodeId H payload.owner then fail (.payload .nodeId)
      else
        let mutations ← emit H node.2 payload
        .ok ⟨st.payloads.erase node.1, scan.authorizations, st.mutations ++ mutations,
          saturatingAdd (saturatingAdd scan.signatureChecks 1) payload.attestations.length⟩

/-- Process the witness of an enabled lane. -/
def process (witness : Lane2Witness) : Lane Lane2Result :=
  if p.envelope0DomainSeparators.isEmpty then fail .disabled
  else if p.envelope0DomainSeparators.length ≠ 2 ∨ p.lane2MaxHeadAge ≠ 0 then fail .invalidConfig
  else do
    let easDomain ← index p.envelope0DomainSeparators 0
    let headDomain ← index p.envelope0DomainSeparators 1
    let (anchorAcc, perNode) ← witness.anchors.zipIdx.foldlM (foldAnchor H) (0, ∅)
    let payloads ← witness.payloads.foldlM addPayload ∅
    let authorizations ← witness.authorizations.foldlM addAuthorization ∅
    if witness.anchors.isEmpty then
      if ¬ payloads.isEmpty then fail .extraneousPayload
      else if ¬ authorizations.isEmpty then fail .extraneousAuthorization
      else .ok .default
    else
      let st ← perNode.toList.foldlM (processNode H K p easDomain headDomain witness.authorizations)
        ⟨payloads, authorizations, [], 0⟩
      if ¬ st.payloads.isEmpty then fail .extraneousPayload
      else if ¬ st.authorizations.isEmpty then fail .extraneousAuthorization
      else
        let ordered := st.mutations.insertionSort fun a b => mutationBefore a b
        .ok ⟨anchorAcc, UInt64.ofNat witness.anchors.length, ordered.map fun m => m.2.2, [], st.signatureChecks⟩

end Trustgraphs.Lane2.Indexed
