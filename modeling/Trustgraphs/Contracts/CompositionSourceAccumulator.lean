import Trustgraphs.Contracts.ParamsControl
import Trustgraphs.Contracts.TrustComposeValidator

/-!
# The accumulator of a composition (`contracts/src/composition/CompositionSourceAccumulator.sol`)

A checkpoint freezes the states of the sources as the bytes of a `TGCM` manifest. The sources are read
through adapters. An adapter never changes: its identity is a function of its address. Which addresses
the factory of the adapters vouches for, and the state an adapter reads, are inputs of a call.
-/

namespace Trustgraphs.CompositionSourceAccumulator

open Outcome TrustComposeValidator Function
open WeightedPriorValidator (loadWord CalldataBytes)

/-- What an adapter fixes of its source. -/
structure Adapter where
  sourceId : B256
  snapshot : Address
  familyId : B256
  programId : B256
  outputKind : B256
  chainId : UInt64
  deploymentProvenance : B256

/-- The part of `ICompositionSourceAdapter.CapturedState` that a capture uses. -/
structure CapturedState where
  stateIndex : UInt64
  freezeBlock : UInt64
  outputRoot : B256
  blobSha256 : B256
  cidDigest : B256
  totalValue : Composition.U128
  checkpointId : U256
  acceptedAtBlock : UInt64
deriving DecidableEq

structure Sources where
  isAdapter : Address → Bool
  /-- The latest state that an adapter reads, `none` where it reverts. -/
  readLatest : Address → Option CapturedState

/-- A source of the installed policy. -/
structure PolicySource where
  adapter : Address
  weight : UInt64
  maxAgeBlocks : UInt64
deriving DecidableEq

structure State where
  snapshot : Address
  controller : Address
  policyVersion : UInt64
  policyRoot : B256
  policyManifestSha256 : B256
  adapterSetHash : B256
  policy : List PolicySource
  checkpoints : List AttestationAccumulator.Checkpoint
  captureManifests : Nat → Bytes
  checkpointPolicyVersion : Nat → UInt64
  checkpointAdapterSetHash : Nat → B256
  captureSourceCheckpointIds : Nat → List U256

inductive Error where
  | zeroAddress
  | notBinder
  | alreadyBound
  | snapshotReadsAnotherAccumulator (reads : Address)
  | notSnapshot
  | notController
  | invalidPolicyVersion (current proposed : UInt64)
  | adapterCountMismatch (expected actual : Nat)
  | unauthenticatedAdapter (index : Nat) (adapter : Address)
  | duplicateAdapter (index : Nat) (adapter : Address)
  | adapterPolicyMismatch (index : Nat)
  | unadmittedAdapterProgram (index : Nat) (programId : B256)
  | wrongOutputKind (index : Nat) (outputKind : B256)
  | wrongAdapterChain (index : Nat) (chainId : UInt64)
  | captureBlockTooLarge (blockNumber : U256)
  | sourceStateFromFuture (index : Nat) (sourceBlock : UInt64) (captureBlock : U256)
  | sourceAcceptanceFromFuture (index : Nat) (acceptedBlock : UInt64) (captureBlock : U256)
  | staleSource (index : Nat) (sourceBlock maxAgeBlocks : UInt64)
  | policy (e : TrustComposeValidator.Error)
  /-- The adapter reverts. -/
  | source (adapter : Address)
deriving DecidableEq

abbrev Result (α : Type) := Except (Abort Error) α

def revert {α : Type} (e : Error) : Result α := .error (.error e)

/-- The immutables: the adapters, and who may bind the contract. -/
structure Config where
  adapters : Address → Adapter
  binder : Address

def constructor : State where
  snapshot := 0
  controller := 0
  policyVersion := 0
  policyRoot := 0
  policyManifestSha256 := 0
  adapterSetHash := 0
  policy := []
  checkpoints := []
  captureManifests := fun _ => []
  checkpointPolicyVersion := fun _ => 0
  checkpointAdapterSetHash := fun _ => 0
  captureSourceCheckpointIds := fun _ => []

/-- Bind the snapshot and the controller, once. `reads` is what the accumulator getter of the snapshot
answers, `self` the address of the contract. -/
def bind (c : Config) (self : Address) (msg : Msg) (s : State) (snapshot controller reads : Address) :
    Result State :=
  if msg.sender ≠ c.binder then revert .notBinder
  else if s.snapshot ≠ 0 ∨ s.controller ≠ 0 then revert .alreadyBound
  else if snapshot = 0 ∨ controller = 0 then revert .zeroAddress
  else if reads ≠ self then revert (.snapshotReadsAnotherAccumulator reads)
  else .ok { s with snapshot := snapshot, controller := controller }

def chain64 (msg : Msg) : UInt64 := UInt64.ofNat msg.chainId.toNat

/-- The record of a policy in the bytes of its manifest. -/
def policyRecord (manifest : CalldataBytes) (index : Nat) : Record :=
  readRecord (loadWord manifest.calldata) (manifest.offset + (HEADER_LENGTH + index * RECORD_LENGTH))

def hashAdapters (H : Hashes) (adapters : List Address) : B256 :=
  H.keccak256 (wordU256 32 ++ wordU256 (BitVec.ofNat 256 adapters.length) ++ adapters.flatMap wordAddr)

/-- An adapter is the one that the manifest names. -/
def validateAdapter (H : Hashes) (c : Config) (msg : Msg) (sources : Sources) (manifest : CalldataBytes)
    (adapters : List Address) (i : Nat) : Result Unit := do
  let adapterAddress ← ofPanic adapters[i]?
  if sources.isAdapter adapterAddress = false then revert (.unauthenticatedAdapter i adapterAddress)
  else if adapterAddress ∈ adapters.take i then revert (.duplicateAdapter i adapterAddress)
  else
    let adapter := c.adapters adapterAddress
    let r := policyRecord manifest i
    if adapter.sourceId ≠ r.sourceId ∨ adapter.snapshot ≠ r.snapshot ∨
        adapter.familyId ≠ r.familyId ∨ adapter.programId ≠ r.programId ∨
        adapter.deploymentProvenance = 0 ∨ r.maxAgeBlocks = 0 then revert (.adapterPolicyMismatch i)
    else
      let derivedDomain := admittedSourceOutputDomain H adapter.programId
      if derivedDomain = 0 then revert (.unadmittedAdapterProgram i adapter.programId)
      else if derivedDomain ≠ r.sourceOutputDomain then revert (.adapterPolicyMismatch i)
      else if adapter.outputKind ≠ OUTPUT_KIND H then revert (.wrongOutputKind i adapter.outputKind)
      else if adapter.chainId ≠ chain64 msg then revert (.wrongAdapterChain i adapter.chainId)
      else .ok ()

/-- The manifest is canonical and the adapters are those of its records. -/
def validatePolicy (H : Hashes) (c : Config) (msg : Msg) (sources : Sources)
    (manifest : CalldataBytes) (adapters : List Address) : Result Commitment := do
  -- no age is above the maximum of a `uint64`
  let commitment ← renameError .policy
    (validatePolicyManifest H manifest (chain64 msg) (UInt64.ofNat (2 ^ 64 - 1)))
  let count := commitment.sourceCount.toNat
  if adapters.length ≠ count then revert (.adapterCountMismatch count adapters.length)
  else do
    (List.range count).forM (validateAdapter H c msg sources manifest adapters)
    .ok commitment

/-- Installs a policy whose manifest and adapters agree. -/
def installPolicy (H : Hashes) (c : Config) (msg : Msg) (sources : Sources) (s : State)
    (version : UInt64) (manifest : CalldataBytes) (adapters : List Address) : Result State := do
  if msg.sender ≠ s.controller ∨ s.controller = 0 then revert .notController
  else if version ≤ s.policyVersion then revert (.invalidPolicyVersion s.policyVersion version)
  else do
    let commitment ← validatePolicy H c msg sources manifest adapters
    let policy ← (List.range commitment.sourceCount.toNat).mapM fun i => do
      let r := policyRecord manifest i
      .ok ⟨← ofPanic adapters[i]?, r.weight, r.maxAgeBlocks⟩
    .ok { s with
      policy := policy
      policyVersion := version
      policyRoot := commitment.sourcePolicyRoot
      policyManifestSha256 := commitment.manifestSha256
      adapterSetHash := hashAdapters H adapters }

/-- One source of a capture: its record is appended to the manifest. -/
def captureSource (H : Hashes) (c : Config) (env : BlockEnv) (sources : Sources)
    (st : Bytes × List U256) (p : PolicySource × Nat) : Result (Bytes × List U256) :=
  let (policy, i) := p
  match sources.readLatest policy.adapter with
  | none => revert (.source policy.adapter)
  | some state =>
    if env.blockNumber.toNat < state.freezeBlock.toNat then
      revert (.sourceStateFromFuture i state.freezeBlock env.blockNumber)
    else if env.blockNumber.toNat < state.acceptedAtBlock.toNat then
      revert (.sourceAcceptanceFromFuture i state.acceptedAtBlock env.blockNumber)
    else if policy.maxAgeBlocks.toNat < env.blockNumber.toNat - state.freezeBlock.toNat then
      revert (.staleSource i state.freezeBlock policy.maxAgeBlocks)
    else
      let adapter := c.adapters policy.adapter
      let sourceOutputDomain := admittedSourceOutputDomain H adapter.programId
      if sourceOutputDomain = 0 then revert (.unadmittedAdapterProgram i adapter.programId)
      else .ok (st.1 ++ (adapter.sourceId.bytes ++ adapter.snapshot.bytes ++ adapter.familyId.bytes ++
        adapter.programId.bytes ++ sourceOutputDomain.bytes ++ beBytes 8 state.stateIndex.toNat ++
        beBytes 8 state.freezeBlock.toNat ++ state.outputRoot.bytes ++ state.blobSha256.bytes ++
        state.cidDigest.bytes ++ beBytes 16 state.totalValue.toNat ++ beBytes 8 policy.weight.toNat ++
        beBytes 8 policy.maxAgeBlocks.toNat ++ [1]), st.2 ++ [state.checkpointId])

/-- The manifest of the current states and the checkpoints they come from. -/
def capture (H : Hashes) (c : Config) (env : BlockEnv) (sources : Sources) (s : State) :
    Result (Bytes × List U256) :=
  if 2 ^ 64 ≤ env.blockNumber.toNat then revert (.captureBlockTooLarge env.blockNumber)
  else
    let header := utf8 "TGCM" ++ beBytes 2 1 ++ beBytes 8 (chain64 env.toMsg).toNat ++
      beBytes 8 env.blockNumber.toNat ++ [UInt8.ofNat s.policy.length]
    s.policy.zipIdx.foldlM (captureSource H c env sources) (header, [])

/-- Freezes the newest state of every source. -/
def checkpoint (H : Hashes) (c : Config) (env : BlockEnv) (sources : Sources) (s : State) :
    Result (State × Nat) := do
  if env.sender ≠ s.snapshot ∨ s.snapshot = 0 then revert .notSnapshot
  else do
    let (manifest, sourceCheckpointIds) ← capture H c env sources s
    let id := s.checkpoints.length
    .ok ({ s with
      checkpoints := s.checkpoints ++ [⟨H.sha256 manifest, UInt64.ofNat s.policy.length,
        UInt64.ofNat env.blockNumber.toNat⟩]
      captureManifests := update s.captureManifests id manifest
      checkpointPolicyVersion := update s.checkpointPolicyVersion id s.policyVersion
      checkpointAdapterSetHash := update s.checkpointAdapterSetHash id s.adapterSetHash
      captureSourceCheckpointIds := update s.captureSourceCheckpointIds id sourceCheckpointIds }, id)

/-- The contract under the interface of an accumulator, while the adapters read `sources`. -/
def accumulator (H : Hashes) (c : Config) (sources : Sources) : Accumulator State where
  acc env s := (capture H c env sources s).toOption.map fun m => H.sha256 m.1
  leafCount s := UInt64.ofNat s.policy.length
  checkpoints := State.checkpoints
  checkpoint env s := (checkpoint H c env sources s).toOption

end Trustgraphs.CompositionSourceAccumulator

/-!
## The adapters of a composition (`contracts/src/composition/CompositionSourceAdapter.sol`)

An adapter pins one row of the registry of instances. It reads a state of the snapshot of the row only
while the row, the code of the two contracts and the verifier of the state are those that it has pinned.
-/

namespace Trustgraphs.CompositionSourceAdapter

open MerkleSnapshot

open CompositionSourceAccumulator (CapturedState Sources)
open MerkleSnapshot (MerkleState StateProvenance)

/-- The immutables of an adapter, those included that an accumulator does not read. -/
structure Immutables extends CompositionSourceAccumulator.Adapter where
  instanceId : B256
  registryOrAccumulator : Address
  paramsAuthority : Address
  verifier : Address
  snapshotCodehash : B256
  verifierCodehash : B256
  programVKey : B256

/-- What an adapter sees of the other contracts. -/
structure World where
  codehash : Address → B256
  registry : InstanceRegistry.State
  snapshots : Address → Storage

inductive Error where
  | registryRecordChanged
  | sourceCodeChanged (expected actual : B256)
  | sourceUnavailable
  | invalidStateIndex (stateIndex : Nat)
  | invalidFreezeBlock (blockNumber : U256)
  | invalidTotalValue (totalValue : U256)
  | emptySourceOutput
  | wrongVerifier (expected actual : Address)
  | wrongVerifierCodehash (expected actual : B256)
  | wrongProgramVKey (expected actual : B256)
  /-- The registry reverts. -/
  | registry (e : InstanceRegistry.Error)
  /-- The snapshot reverts. -/
  | snapshot (e : Abort HistoryError)
deriving DecidableEq

/-- The registry still records what the adapter was built for. -/
def assertIdentity (a : Immutables) (msg : Msg) (w : World) : Except Error Unit := do
  if msg.chainId ≠ BitVec.ofNat 256 a.chainId.toNat then .error .registryRecordChanged
  else if w.codehash a.snapshot ≠ a.snapshotCodehash then
    .error (.sourceCodeChanged a.snapshotCodehash (w.codehash a.snapshot))
  else if w.codehash a.verifier ≠ a.verifierCodehash then
    .error (.sourceCodeChanged a.verifierCodehash (w.codehash a.verifier))
  else do
    let record ← Outcome.withError .registry (InstanceRegistry.getInstance w.registry a.instanceId)
    if record.program ≠ a.programId ∨ record.snapshot ≠ a.snapshot ∨ record.verifier ≠ a.verifier ∨
        record.registryOrAccumulator ≠ a.registryOrAccumulator ∨
        w.registry.paramsAuthority a.instanceId ≠ a.paramsAuthority then
      .error .registryRecordChanged
    else .ok ()

/-- A state and its provenance as the adapter captures them. -/
def readState (H : Hashes) (a : Immutables) (state : MerkleState) (provenance : StateProvenance)
    (index : Nat) : Except Error CapturedState :=
  if 2 ^ 64 ≤ index then .error (.invalidStateIndex index)
  else if state.blockNumber = 0 ∨ 2 ^ 64 ≤ state.blockNumber.toNat then
    .error (.invalidFreezeBlock state.blockNumber)
  else if state.totalValue = 0 ∨ 2 ^ 128 ≤ state.totalValue.toNat then
    .error (.invalidTotalValue state.totalValue)
  else if state.root = 0 ∨ state.ipfsHash = 0 ∨ state.ipfsHashCid.length = 0 ∨
      provenance.paramsHash = 0 ∨ provenance.acceptedAtBlock = 0 then .error .emptySourceOutput
  else if provenance.verifier ≠ a.verifier then .error (.wrongVerifier a.verifier provenance.verifier)
  else if provenance.verifierCodehash ≠ a.verifierCodehash then
    .error (.wrongVerifierCodehash a.verifierCodehash provenance.verifierCodehash)
  else if provenance.programVKey ≠ a.programVKey then
    .error (.wrongProgramVKey a.programVKey provenance.programVKey)
  else .ok {
    stateIndex := UInt64.ofNat index
    freezeBlock := UInt64.ofNat state.blockNumber.toNat
    outputRoot := state.root
    blobSha256 := state.ipfsHash
    cidDigest := H.keccak256 state.ipfsHashCid
    totalValue := BitVec.ofNat 128 state.totalValue.toNat
    checkpointId := BitVec.ofNat 256 provenance.checkpointId
    acceptedAtBlock := provenance.acceptedAtBlock }

def readAt (H : Hashes) (a : Immutables) (source : Storage) (index : Nat) : Except Error CapturedState :=
  if 2 ^ 64 ≤ index then .error (.invalidStateIndex index)
  else do
    let state ← Outcome.withError .snapshot (getStateAtIndex source index)
    let provenance ← Outcome.withError .snapshot (getStateProvenance source index)
    readState H a state provenance index

def readLatest (H : Hashes) (a : Immutables) (msg : Msg) (w : World) : Except Error CapturedState := do
  assertIdentity a msg w
  let source := w.snapshots a.snapshot
  let count := getStateCount source
  if count = 0 then .error .sourceUnavailable else readAt H a source (count - 1)

/-- What a call of an accumulator sees of its adapters, `isAdapter` those that the factory has made. -/
def sources (H : Hashes) (adapters : Address → Immutables) (isAdapter : Address → Bool) (msg : Msg)
    (w : World) : Sources where
  isAdapter := isAdapter
  readLatest address := (readLatest H (adapters address) msg w).toOption

/-- The immutables of an accumulator over these adapters. -/
def config (adapters : Address → Immutables) (binder : Address) : CompositionSourceAccumulator.Config where
  adapters address := (adapters address).toAdapter
  binder := binder

end Trustgraphs.CompositionSourceAdapter
