import Trustgraphs.Contracts.CompositionSourceAccumulator

/-!
# The controller of a composition (`contracts/src/factory/TrustComposeParamsController.sol`)

As for a weighted instance, the owner proposes a source policy and may cancel it, and anyone activates it
after the delay, with the calldata of the proposal. An activation also installs the policy in the
accumulator. A policy with the same bytes but other adapters leaves the commitment as it is.
-/

namespace Trustgraphs.TrustComposeParamsController

open ParamsControl TrustComposeParamsCodec Outcome Function
open CompositionSourceAccumulator (Sources hashAdapters)
open WeightedPriorValidator (CalldataBytes MemoryBytes)

inductive ProposalStatus where
  | none
  | pending
  | activated
  | cancelled
deriving DecidableEq

/-- A policy announced and not yet executed. -/
structure PendingPolicy where
  version : UInt64
  readyAt : U48
  proposalId : B256
  sourcePolicyRoot : B256
  sourceCount : UInt8
  manifestSha256 : B256
  adapterSetHash : B256
  metadataDigest : B256
  paramsHash : B256
deriving DecidableEq

instance : Zero PendingPolicy := ⟨⟨0, 0, 0, 0, 0, 0, 0, 0, 0⟩⟩

/-- What stays known of a version. -/
structure VersionCommitment where
  paramsHash : B256
  sourcePolicyRoot : B256
  sourceCount : UInt8
  manifestSha256 : B256
  adapterSetHash : B256
  metadataDigest : B256
  proposedAt : U48
  activatedAt : U48
  cancelledAt : U48
  status : ProposalStatus
deriving DecidableEq

instance : Zero VersionCommitment := ⟨⟨0, 0, 0, 0, 0, 0, 0, 0, 0, .none⟩⟩

variable (O : Ownership)

structure State where
  ownership : O.State
  version : UInt64
  latestVersion : UInt64
  currentParamsHash : B256
  currentAdapterSetHash : B256
  versionOnePublished : Bool
  initialParams : Composition.Params
  currentParams : Composition.Params
  pending : PendingPolicy
  versionCommitments : UInt64 → VersionCommitment

/-- The immutables of the controller and of the accumulator, with the address of the accumulator. -/
structure Config extends ParamsControl.Config where
  accumulator : Address
  sources : CompositionSourceAccumulator.Config

inductive Error where
  | ownableUnauthorizedAccount (account : Address)
  | zeroAddress
  | zeroActivationDelay
  | initialHashMismatch (encoded live : B256)
  | initialPolicyMismatch
  | initialVersionAlreadyPublished
  | initialVersionNotPublished
  | notInitialPublisher (caller : Address)
  | pendingPolicyExists (version : UInt64) (proposalId : B256)
  | noPendingPolicy
  | pendingVersionMismatch (expected actual : UInt64)
  | activationDelayNotElapsed (readyAt : U48)
  | noopPolicy (manifestSha256 adapterSetHash : B256)
  | activationPreimageMismatch
  | accumulatorControllerMismatch (expected actual : Address)
  | validator (e : Abort TrustComposeValidator.Error)
  | accumulator (e : Abort CompositionSourceAccumulator.Error)
  | liveState (e : LiveStateError)
  | move (e : MoveError)
  /-- A checked addition overflows. -/
  | overflow
deriving DecidableEq

def ofOverflow {α : Type} : Option α → Except Error α
  | some a => .ok a
  | none => .error .overflow

def now48 (msg : Msg) : U48 := msg.blockTimestamp.setWidth 48

/-- Only the policy moves; the other parameters stay. -/
def withPolicy (p : Composition.Params) (sourcePolicyRoot : B256) (sourceCount : UInt8)
    (policyManifestSha256 : B256) : Composition.Params :=
  { p with
    sourcePolicyRoot := sourcePolicyRoot
    sourceCount := sourceCount
    policyManifestSha256 := policyManifestSha256 }

/-- The controller among the contracts it works on. -/
abbrev World := ParamsControl.World (State O) CompositionSourceAccumulator.State

variable {O}

/-- A policy against the current parameters and the accumulator: its commitment and the hash of its
adapters. `proposePolicy`, `activatePolicy` and the publication begin with these three steps. -/
def checkPolicy (H : Hashes) (c : Config) (msg : Msg) (sources : Sources) (s : State O)
    (manifest : CalldataBytes) (adapters : List Address) :
    Except Error (TrustComposeValidator.Commitment × B256) := do
  let policy ← withError .validator (TrustComposeValidator.validatePolicyManifest H manifest
    s.currentParams.chainId s.currentParams.maxSourceAgeBlocks)
  let _ ← withError .accumulator
    (CompositionSourceAccumulator.validatePolicy H c.sources msg sources manifest adapters)
  .ok (policy, hashAdapters H adapters)

/-- Bytes of the memory as the argument of a call. -/
def sentBytes (m : MemoryBytes) : CalldataBytes := ⟨m.bytes, 0, m.bytes.length, by simp⟩

/-- The contract as it is deployed, on a snapshot with the commitment `live`. -/
def constructor (H : Hashes) (c : Config) (msg : Msg) (sources : Sources) (live : B256)
    (initialParams : Composition.Params) (initialManifest : MemoryBytes) (initialAdapters : List Address)
    (initialMetadataDigest : B256) (ownership : O.State) : Except Error (State O) := do
  if c.snapshot = 0 ∨ c.accumulator = 0 ∨ c.registry = 0 ∨ c.initialPublisher = 0 then .error .zeroAddress
  else if c.activationDelay = 0 then .error .zeroActivationDelay
  else do
    withError .validator (TrustComposeValidator.validateComputationalEnvelope H initialParams)
    let policy ← withError .validator (TrustComposeValidator.validatePolicyManifestMemory H
      initialManifest initialParams.chainId initialParams.maxSourceAgeBlocks)
    if initialParams.sourcePolicyRoot ≠ policy.sourcePolicyRoot ∨
        initialParams.sourceCount ≠ policy.sourceCount ∨
        initialParams.policyManifestSha256 ≠ policy.manifestSha256 ∨
        initialParams.accumulator ≠ c.accumulator then .error .initialPolicyMismatch
    else do
      let _ ← withError .accumulator (CompositionSourceAccumulator.validatePolicy H c.sources
        msg sources (sentBytes initialManifest) initialAdapters)
      let encoded := hash H initialParams
      if encoded ≠ live then .error (.initialHashMismatch encoded live)
      else
        let adapterSetHash := hashAdapters H initialAdapters
        .ok {
          ownership := ownership
          version := 1
          latestVersion := 1
          currentParamsHash := encoded
          currentAdapterSetHash := adapterSetHash
          versionOnePublished := false
          initialParams := initialParams
          currentParams := initialParams
          pending := 0
          versionCommitments := update 0 1 {
            paramsHash := encoded
            sourcePolicyRoot := policy.sourcePolicyRoot
            sourceCount := policy.sourceCount
            manifestSha256 := policy.manifestSha256
            adapterSetHash := adapterSetHash
            metadataDigest := initialMetadataDigest
            proposedAt := now48 msg
            activatedAt := now48 msg
            cancelledAt := 0
            status := .activated } }

/-- The controller as the sender of a call. -/
def asController (c : Config) (msg : Msg) : Msg := { msg with sender := c.self }

/-- Install and publish the first version. -/
def publishInitialPolicy (H : Hashes) (c : Config) (msg : Msg) (sources : Sources) (w : World O)
    (manifest : CalldataBytes) (adapters : List Address) : Except Error (World O) := do
  let s := w.controller
  if msg.sender ≠ c.initialPublisher then .error (.notInitialPublisher msg.sender)
  else if s.versionOnePublished = true then .error .initialVersionAlreadyPublished
  else do
    let v1 := s.versionCommitments 1
    let (policy, adapterSetHash) ← checkPolicy H c msg sources s manifest adapters
    if policy.sourcePolicyRoot ≠ v1.sourcePolicyRoot ∨ policy.sourceCount ≠ v1.sourceCount ∨
        policy.manifestSha256 ≠ v1.manifestSha256 ∨ adapterSetHash ≠ v1.adapterSetHash then
      .error .initialPolicyMismatch
    else do
      withError .liveState
        (assertLiveState c.toConfig w.snapshot w.registry s.currentParamsHash)
      if w.lane.controller ≠ c.self then .error (.accumulatorControllerMismatch c.self w.lane.controller)
      else do
        let lane ← withError .accumulator (CompositionSourceAccumulator.installPolicy H
          c.sources (asController c msg) sources w.lane 1 manifest adapters)
        .ok { w with lane := lane, controller := { s with versionOnePublished := true } }

def onlyOwner (msg : Msg) (s : State O) : Except Error Unit :=
  if msg.sender ≠ O.owner s.ownership then .error (.ownableUnauthorizedAccount msg.sender) else .ok ()

/-- Validate a complete policy and schedule its commitment. -/
def proposePolicy (H : Hashes) (c : Config) (msg : Msg) (sources : Sources) (s : State O)
    (manifest : CalldataBytes) (adapters : List Address) (metadataDigest : B256) :
    Except Error (State O) := do
  onlyOwner msg s
  if s.versionOnePublished = false then .error .initialVersionNotPublished
  else if s.pending.version ≠ 0 then .error (.pendingPolicyExists s.pending.version s.pending.proposalId)
  else do
    let (policy, adapterSetHash) ← checkPolicy H c msg sources s manifest adapters
    if policy.manifestSha256 = s.currentParams.policyManifestSha256 ∧
        adapterSetHash = s.currentAdapterSetHash then
      .error (.noopPolicy policy.manifestSha256 adapterSetHash)
    else do
      let next := withPolicy s.currentParams policy.sourcePolicyRoot policy.sourceCount
        policy.manifestSha256
      withError .validator (TrustComposeValidator.validateRotation H next s.initialParams)
      let nextHash := hash H next
      let pendingVersion ← ofOverflow (Checked.add64 s.latestVersion 1)
      let readyAt ← ofOverflow (Checked.add (now48 msg) c.activationDelay)
      let proposalId := H.keccak256 (c.instanceId.bytes ++ wordU64 pendingVersion ++
        policy.sourcePolicyRoot.bytes ++ wordU8 policy.sourceCount ++ policy.manifestSha256.bytes ++
        adapterSetHash.bytes ++ metadataDigest.bytes ++ nextHash.bytes)
      .ok { s with
        latestVersion := pendingVersion
        pending := {
          version := pendingVersion
          readyAt := readyAt
          proposalId := proposalId
          sourcePolicyRoot := policy.sourcePolicyRoot
          sourceCount := policy.sourceCount
          manifestSha256 := policy.manifestSha256
          adapterSetHash := adapterSetHash
          metadataDigest := metadataDigest
          paramsHash := nextHash }
        versionCommitments := update s.versionCommitments pendingVersion {
          paramsHash := nextHash
          sourcePolicyRoot := policy.sourcePolicyRoot
          sourceCount := policy.sourceCount
          manifestSha256 := policy.manifestSha256
          adapterSetHash := adapterSetHash
          metadataDigest := metadataDigest
          proposedAt := now48 msg
          activatedAt := 0
          cancelledAt := 0
          status := .pending } }

/-- Takes back the pending policy. -/
def cancelPolicy (msg : Msg) (s : State O) : Except Error (State O) := do
  onlyOwner msg s
  if s.pending.version = 0 then .error .noPendingPolicy
  else
    let cancelled := { s.versionCommitments s.pending.version with
      cancelledAt := now48 msg
      status := .cancelled }
    .ok { s with
      pending := 0
      versionCommitments := update s.versionCommitments s.pending.version cancelled }

/-- The writes of an activation into the snapshot and the registry. A policy with the same bytes but
other adapters leaves both as they are. -/
def moveIfChanged (c : Config) (w : World O) (newHash previousHash : B256) :
    Except Error (MerkleSnapshot.State × InstanceRegistry.State) :=
  if newHash ≠ previousHash then withError .move (moveHash c.toConfig w.snapshot w.registry newHash)
  else .ok (w.snapshot, w.registry)

/-- Activate the pending policy after its delay, with the calldata of its proposal. -/
def activatePolicy (H : Hashes) (c : Config) (msg : Msg) (sources : Sources) (w : World O)
    (expectedVersion : UInt64) (manifest : CalldataBytes) (adapters : List Address) :
    Except Error (World O) := do
  let s := w.controller
  let pending := s.pending
  if pending.version = 0 then .error .noPendingPolicy
  else if expectedVersion ≠ pending.version then
    .error (.pendingVersionMismatch expectedVersion pending.version)
  else if msg.blockTimestamp.toNat < pending.readyAt.toNat then
    .error (.activationDelayNotElapsed pending.readyAt)
  else do
    let (policy, adapterSetHash) ← checkPolicy H c msg sources s manifest adapters
    if policy.sourcePolicyRoot ≠ pending.sourcePolicyRoot ∨ policy.sourceCount ≠ pending.sourceCount ∨
        policy.manifestSha256 ≠ pending.manifestSha256 ∨
        adapterSetHash ≠ pending.adapterSetHash then .error .activationPreimageMismatch
    else do
      let previousHash := s.currentParamsHash
      withError .liveState (assertLiveState c.toConfig w.snapshot w.registry previousHash)
      let next := withPolicy s.currentParams policy.sourcePolicyRoot policy.sourceCount
        policy.manifestSha256
      withError .validator (TrustComposeValidator.validateRotation H next s.initialParams)
      let newHash := hash H next
      if newHash ≠ pending.paramsHash then .error .activationPreimageMismatch
      else do
        let lane ← withError .accumulator (CompositionSourceAccumulator.installPolicy H
          c.sources (asController c msg) sources w.lane pending.version manifest adapters)
        let (snapshot, registry) ← moveIfChanged c w newHash previousHash
        let activated := { s.versionCommitments pending.version with
          activatedAt := now48 msg
          status := .activated }
        .ok {
          snapshot := snapshot
          registry := registry
          lane := lane
          controller := { s with
            version := pending.version
            currentParamsHash := newHash
            currentAdapterSetHash := adapterSetHash
            currentParams := next
            versionCommitments := update s.versionCommitments pending.version activated
            pending := 0 } }

/-! ## Runs -/

/-- What may happen: the functions of the controller, `trigger`, and direct calls of the setters of the
other contracts. -/
inductive Call (O : Ownership) where
  | publishInitialPolicy (manifest : CalldataBytes) (adapters : List Address)
  | proposePolicy (manifest : CalldataBytes) (adapters : List Address) (metadataDigest : B256)
  | cancelPolicy
  | activatePolicy (expectedVersion : UInt64) (manifest : CalldataBytes) (adapters : List Address)
  | ownership (call : O.Call)
  | trigger (anchors : MerkleSnapshot.AnchorView)
  | setParamsHash (paramsHash : B256)
  | updateParamsHash (instanceId paramsHash : B256)
  | installPolicy (version : UInt64) (manifest : CalldataBytes) (adapters : List Address)
  | checkpoint

/-- A call with what it sees: the chain and the adapters. -/
abbrev Input (O : Ownership) := (BlockEnv × Sources) × Call O

/-- The contracts make no calls of their own besides those of an activation and of `trigger`. -/
def fromOutside {α : Type} (c : Config) (msg : Msg) (x : Option α) : Option α :=
  if msg.sender = c.self ∨ msg.sender = c.snapshot then none else x

/-- The effect of a call, `none` when it reverts. -/
def call (H : Hashes) (c : Config) (i : Input O) (w : World O) : Option (World O) :=
  let ((env, sources), f) := i
  let withController (s : State O) : World O := { w with controller := s }
  match f with
  | .publishInitialPolicy manifest adapters =>
    (publishInitialPolicy H c env.toMsg sources w manifest adapters).toOption
  | .proposePolicy manifest adapters metadataDigest =>
    (proposePolicy H c env.toMsg sources w.controller manifest adapters
      metadataDigest).toOption.map withController
  | .cancelPolicy => (cancelPolicy env.toMsg w.controller).toOption.map withController
  | .activatePolicy expectedVersion manifest adapters =>
    (activatePolicy H c env.toMsg sources w expectedVersion manifest adapters).toOption
  | .ownership f => (O.call env.sender f w.controller.ownership).map fun o =>
    withController { w.controller with ownership := o }
  | .trigger anchors =>
    (MerkleSnapshot.trigger (CompositionSourceAccumulator.accumulator H c.sources sources) c.snapshot
      env anchors w.snapshot w.lane).toOption.map
        fun (snapshot, lane, _) => { w with snapshot := snapshot, lane := lane }
  | .setParamsHash paramsHash => fromOutside c env.toMsg <|
    (MerkleSnapshot.setParamsHash env.sender w.snapshot paramsHash).toOption.map
      fun snapshot => { w with snapshot := snapshot }
  | .updateParamsHash instanceId paramsHash => fromOutside c env.toMsg <|
    (InstanceRegistry.updateParamsHash env.sender w.registry instanceId paramsHash).toOption.map
      fun registry => { w with registry := registry }
  | .installPolicy version manifest adapters => fromOutside c env.toMsg <|
    (CompositionSourceAccumulator.installPolicy H c.sources env.toMsg sources w.lane version manifest
      adapters).toOption.map fun lane => { w with lane := lane }
  | .checkpoint => fromOutside c env.toMsg <|
    (CompositionSourceAccumulator.checkpoint H c.sources env sources w.lane).toOption.map
      fun (lane, _) => { w with lane := lane }

/-- The contracts after a sequence of calls. -/
def run (H : Hashes) (c : Config) (w : World O) (calls : List (Input O)) : World O :=
  Run.run (call H c) w calls

end Trustgraphs.TrustComposeParamsController
