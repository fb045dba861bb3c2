import Trustgraphs.Contracts.ParamsControl
import Trustgraphs.Contracts.WeightedPriorValidator

/-!
# The controller of a weighted instance (`contracts/src/factory/WeightedPriorParamsController.sol`)

The owner proposes a prior, and may cancel it; anyone activates it after the delay. An activation writes
the snapshot, the registry and the controller. A call that reverts leaves all of them as they were.
-/

/-!
## Parameters of a weighted instance (`contracts/src/params/WeightedPriorParamsCodec.sol`)

The commitment to the parameters, and the part of `WeightedPriorValidator.sol` that checks them.
-/

namespace Trustgraphs

namespace WeightedPriorParamsCodec

/-- The record of the contracts has the fields of the guest's. -/
abbrev Params := WeightedPrior.Params

/-- `keccak256(abi.encode(..))` over the 13 static fields. -/
def hash (H : Hashes) (p : Params) : B256 :=
  H.keccak256 (wordU32 p.version ++ wordU64 p.dampingFp ++ wordU64 p.toleranceFp ++
    wordU32 p.maxIterations ++ wordU64 p.minWeight ++ wordU64 p.maxWeight ++ p.priorRoot.bytes ++
    wordU32 p.priorCount ++ p.manifestSha256.bytes ++ p.schemaUid.bytes ++
    wordU32 p.weightFieldIndex ++ wordAddr p.accumulator ++ wordU64 p.chainId)

end WeightedPriorParamsCodec

namespace WeightedPriorValidator

def PARAMS_VERSION : UInt32 := 1

def MAX_ITERATIONS : UInt32 := 40

def WEIGHT_FIELD_INDEX : UInt32 := 1

inductive ParamsError where
  | invalidParamsVersion (version : UInt32)
  | invalidDamping (dampingFp : UInt64)
  | invalidTolerance (toleranceFp : UInt64)
  | invalidIterations (maxIterations : UInt32)
  | invalidWeightBounds (minWeight maxWeight : UInt64)
  | invalidWeightFieldIndex (weightFieldIndex : UInt32)
  | invalidPriorCount (count : UInt32)
  | invalidParamsChain (chainId : UInt64)
  | priorCommitmentMismatch
  | identityFieldChanged
deriving DecidableEq

/-- The ranges of the tuning. -/
def validateTuning (p : WeightedPriorParamsCodec.Params) : Except ParamsError Unit :=
  if p.version ≠ PARAMS_VERSION then .error (.invalidParamsVersion p.version)
  else if p.dampingFp = 0 ∨ PRECISION_SCALE.toNat ≤ p.dampingFp.toNat then
    .error (.invalidDamping p.dampingFp)
  else if PRECISION_SCALE.toNat < p.toleranceFp.toNat then .error (.invalidTolerance p.toleranceFp)
  else if p.maxIterations = 0 ∨ MAX_ITERATIONS < p.maxIterations then
    .error (.invalidIterations p.maxIterations)
  else if p.maxWeight = 0 ∨ p.maxWeight < p.minWeight then
    .error (.invalidWeightBounds p.minWeight p.maxWeight)
  else if p.weightFieldIndex ≠ WEIGHT_FIELD_INDEX then .error (.invalidWeightFieldIndex p.weightFieldIndex)
  else .ok ()

def validateComputationalEnvelope (p : WeightedPriorParamsCodec.Params) : Except ParamsError Unit := do
  validateTuning p
  if p.priorCount = 0 ∨ MAX_PRIOR_ENTRIES < p.priorCount then .error (.invalidPriorCount p.priorCount)
  else if p.chainId = 0 then .error (.invalidParamsChain p.chainId)
  else .ok ()

/-- The fields outside of the prior are those of the initial parameters. -/
def validateRotation (next initial : WeightedPriorParamsCodec.Params) : Except ParamsError Unit := do
  validateComputationalEnvelope next
  if next.version ≠ initial.version ∨ next.dampingFp ≠ initial.dampingFp ∨
      next.toleranceFp ≠ initial.toleranceFp ∨ next.maxIterations ≠ initial.maxIterations ∨
      next.minWeight ≠ initial.minWeight ∨ next.maxWeight ≠ initial.maxWeight ∨
      next.schemaUid ≠ initial.schemaUid ∨ next.weightFieldIndex ≠ initial.weightFieldIndex ∨
      next.accumulator ≠ initial.accumulator ∨ next.chainId ≠ initial.chainId then
    .error .identityFieldChanged
  else .ok ()

end WeightedPriorValidator

end Trustgraphs

/-! ## The controller -/

namespace Trustgraphs.WeightedPriorParamsController

open ParamsControl WeightedPriorParamsCodec Outcome MerkleSnapshot Function

/-- A prior announced and not yet executed. -/
structure PendingPrior where
  version : UInt64
  readyAt : U48
  proposalId : B256
  priorRoot : B256
  priorCount : UInt32
  manifestSha256 : B256
  metadataDigest : B256
  paramsHash : B256
deriving DecidableEq

instance : Zero PendingPrior := ⟨⟨0, 0, 0, 0, 0, 0, 0, 0⟩⟩

/-- What stays known of a version. -/
structure VersionCommitment where
  paramsHash : B256
  priorRoot : B256
  priorCount : UInt32
  manifestSha256 : B256
  metadataDigest : B256
  proposedAt : U48
  activatedAt : U48
deriving DecidableEq

instance : Zero VersionCommitment := ⟨⟨0, 0, 0, 0, 0, 0, 0⟩⟩

variable (O : Ownership)

structure State where
  ownership : O.State
  version : UInt64
  latestVersion : UInt64
  currentParamsHash : B256
  versionOnePublished : Bool
  initialParams : WeightedPrior.Params
  currentParams : WeightedPrior.Params
  pending : PendingPrior
  versionCommitments : UInt64 → VersionCommitment

inductive Error where
  | ownableUnauthorizedAccount (account : Address)
  | zeroAddress
  | zeroActivationDelay
  | initialHashMismatch (encoded live : B256)
  | initialVersionAlreadyPublished
  | initialVersionNotPublished
  | notInitialPublisher (caller : Address)
  | pendingPriorExists (version : UInt64) (proposalId : B256)
  | noPendingPrior
  | pendingVersionMismatch (expected actual : UInt64)
  | activationDelayNotElapsed (readyAt : U48)
  | noopPrior (priorRoot manifestSha256 : B256)
  | manifest (e : Abort WeightedPriorValidator.Error)
  | params (e : WeightedPriorValidator.ParamsError)
  | liveState (e : LiveStateError)
  | move (e : MoveError)
  /-- A checked addition overflows. -/
  | overflow
  /-- An `assert` fails. -/
  | assertion
deriving DecidableEq

def ofOverflow {α : Type} : Option α → Except Error α
  | some a => .ok a
  | none => .error .overflow

def now48 (msg : Msg) : U48 := msg.blockTimestamp.setWidth 48

/-- Only the prior moves; the other parameters stay. -/
def withPrior (p : WeightedPrior.Params) (priorRoot : B256) (priorCount : UInt32)
    (manifestSha256 : B256) : WeightedPrior.Params :=
  { p with priorRoot := priorRoot, priorCount := priorCount, manifestSha256 := manifestSha256 }

variable {O}

/-- The contract as it is deployed, on a snapshot with the commitment `live`. -/
def constructor (H : Hashes) (c : Config) (msg : Msg) (live : B256) (initialParams : WeightedPrior.Params)
    (initialManifest : WeightedPriorValidator.MemoryBytes) (initialMetadataDigest : B256)
    (ownership : O.State) : Except Error (State O) := do
  if c.snapshot = 0 ∨ c.registry = 0 ∨ c.initialPublisher = 0 then .error .zeroAddress
  else if c.activationDelay = 0 then .error .zeroActivationDelay
  else do
    withError .params (WeightedPriorValidator.validateComputationalEnvelope initialParams)
    let prior ← withError .manifest
      (WeightedPriorValidator.validateManifestMemory H initialManifest initialParams.chainId)
    if initialParams.priorRoot ≠ prior.priorRoot ∨ initialParams.priorCount ≠ prior.priorCount ∨
        initialParams.manifestSha256 ≠ prior.manifestSha256 then
      .error (.params .priorCommitmentMismatch)
    else
      let encoded := hash H initialParams
      if encoded ≠ live then .error (.initialHashMismatch encoded live)
      else .ok {
        ownership := ownership
        version := 1
        latestVersion := 1
        currentParamsHash := encoded
        versionOnePublished := false
        initialParams := initialParams
        currentParams := initialParams
        pending := 0
        versionCommitments := update 0 1 {
          paramsHash := encoded
          priorRoot := prior.priorRoot
          priorCount := prior.priorCount
          manifestSha256 := prior.manifestSha256
          metadataDigest := initialMetadataDigest
          proposedAt := now48 msg
          activatedAt := now48 msg } }

/-- The first version reaches the snapshot once. -/
def publishInitialVersion (c : Config) (msg : Msg) (s : State O) : Except Error (State O) :=
  if msg.sender ≠ c.initialPublisher then .error (.notInitialPublisher msg.sender)
  else if s.versionOnePublished = true then .error .initialVersionAlreadyPublished
  else .ok { s with versionOnePublished := true }

def onlyOwner (msg : Msg) (s : State O) : Except Error Unit :=
  if msg.sender ≠ O.owner s.ownership then .error (.ownableUnauthorizedAccount msg.sender) else .ok ()

/-- Validate a complete manifest and schedule its commitment. -/
def proposePrior (H : Hashes) (c : Config) (msg : Msg) (s : State O)
    (manifest : WeightedPriorValidator.CalldataBytes) (metadataDigest : B256) :
    Except Error (State O) := do
  onlyOwner msg s
  if s.versionOnePublished = false then .error .initialVersionNotPublished
  else if s.pending.version ≠ 0 then .error (.pendingPriorExists s.pending.version s.pending.proposalId)
  else do
    let prior ← withError .manifest
      (WeightedPriorValidator.validateManifest H manifest s.currentParams.chainId)
    if prior.priorRoot = s.currentParams.priorRoot ∧ prior.manifestSha256 = s.currentParams.manifestSha256 then
      .error (.noopPrior prior.priorRoot prior.manifestSha256)
    else do
      let next := withPrior s.currentParams prior.priorRoot prior.priorCount prior.manifestSha256
      withError .params (WeightedPriorValidator.validateRotation next s.initialParams)
      let pendingVersion ← ofOverflow (Checked.add64 s.latestVersion 1)
      let readyAt ← ofOverflow (Checked.add (now48 msg) c.activationDelay)
      let nextHash := hash H next
      let proposalId := H.keccak256 (c.instanceId.bytes ++ wordU64 pendingVersion ++
        prior.priorRoot.bytes ++ wordU32 prior.priorCount ++ prior.manifestSha256.bytes ++
        metadataDigest.bytes)
      .ok { s with
        latestVersion := pendingVersion
        pending := {
          version := pendingVersion
          readyAt := readyAt
          proposalId := proposalId
          priorRoot := prior.priorRoot
          priorCount := prior.priorCount
          manifestSha256 := prior.manifestSha256
          metadataDigest := metadataDigest
          paramsHash := nextHash }
        versionCommitments := update s.versionCommitments pendingVersion {
          paramsHash := nextHash
          priorRoot := prior.priorRoot
          priorCount := prior.priorCount
          manifestSha256 := prior.manifestSha256
          metadataDigest := metadataDigest
          proposedAt := now48 msg
          activatedAt := 0 } }

/-- Takes back the pending prior. -/
def cancelPrior (msg : Msg) (s : State O) : Except Error (State O) := do
  onlyOwner msg s
  if s.pending.version = 0 then .error .noPendingPrior
  else .ok { s with
    pending := 0
    versionCommitments := update s.versionCommitments s.pending.version 0 }

/-- Activate the pending prior after its delay. -/
def activatePrior {σ : Type} (H : Hashes) (c : Config) (msg : Msg) (w : World (State O) σ)
    (expectedVersion : UInt64) : Except Error (World (State O) σ) := do
  let s := w.controller
  let pending := s.pending
  if pending.version = 0 then .error .noPendingPrior
  else if expectedVersion ≠ pending.version then
    .error (.pendingVersionMismatch expectedVersion pending.version)
  else if msg.blockTimestamp.toNat < pending.readyAt.toNat then
    .error (.activationDelayNotElapsed pending.readyAt)
  else do
    withError .liveState (assertLiveState c w.snapshot w.registry s.currentParamsHash)
    let next := withPrior s.currentParams pending.priorRoot pending.priorCount pending.manifestSha256
    withError .params (WeightedPriorValidator.validateRotation next s.initialParams)
    let newHash := hash H next
    if newHash ≠ pending.paramsHash then .error .assertion
    else do
      let (snapshot, registry) ←
        withError .move (moveHash c w.snapshot w.registry newHash)
      let activated := { s.versionCommitments pending.version with activatedAt := now48 msg }
      .ok { w with
        snapshot := snapshot
        registry := registry
        controller := { s with
          version := pending.version
          currentParamsHash := newHash
          currentParams := next
          versionCommitments := update s.versionCommitments pending.version activated
          pending := 0 } }

/-! ## Runs -/

/-- What may happen: the functions of the controller, `trigger`, and direct calls of the two setters.
The inputs of the first lane come from elsewhere, `lane` gives its state some new value. -/
inductive Call (O : Ownership) (σ : Type) where
  | publishInitialVersion
  | proposePrior (manifest : WeightedPriorValidator.CalldataBytes) (metadataDigest : B256)
  | cancelPrior
  | activatePrior (expectedVersion : UInt64)
  | ownership (call : O.Call)
  | trigger (anchors : AnchorView)
  | setParamsHash (paramsHash : B256)
  | updateParamsHash (instanceId paramsHash : B256)
  | lane (lane : σ)

/-- The controller makes no calls of its own besides those of an activation. -/
def fromOutside {α : Type} (c : Config) (msg : Msg) (x : Option α) : Option α :=
  if msg.sender = c.self then none else x

/-- The effect of a call, `none` when it reverts. -/
def call {σ : Type} (H : Hashes) (c : Config) (L : Accumulator σ) (i : BlockEnv × Call O σ)
    (w : World (State O) σ) : Option (World (State O) σ) :=
  let (env, f) := i
  let withController (s : State O) : World (State O) σ := { w with controller := s }
  match f with
  | .publishInitialVersion => (publishInitialVersion c env.toMsg w.controller).toOption.map withController
  | .proposePrior manifest metadataDigest =>
    (proposePrior H c env.toMsg w.controller manifest metadataDigest).toOption.map withController
  | .cancelPrior => (cancelPrior env.toMsg w.controller).toOption.map withController
  | .activatePrior expectedVersion => (activatePrior H c env.toMsg w expectedVersion).toOption
  | .ownership f => (O.call env.sender f w.controller.ownership).map fun o =>
    withController { w.controller with ownership := o }
  | .trigger anchors =>
    (trigger L c.snapshot env anchors w.snapshot w.lane).toOption.map
      fun (snapshot, lane, _) => { w with snapshot := snapshot, lane := lane }
  | .setParamsHash paramsHash => fromOutside c env.toMsg <|
    (setParamsHash env.sender w.snapshot paramsHash).toOption.map
      fun snapshot => { w with snapshot := snapshot }
  | .updateParamsHash instanceId paramsHash => fromOutside c env.toMsg <|
    (InstanceRegistry.updateParamsHash env.sender w.registry instanceId paramsHash).toOption.map
      fun registry => { w with registry := registry }
  | .lane lane => some { w with lane := lane }

/-- The contracts after a sequence of calls. -/
def run {σ : Type} (H : Hashes) (c : Config) (L : Accumulator σ) (w : World (State O) σ)
    (calls : List (BlockEnv × Call O σ)) : World (State O) σ :=
  Run.run (call H c L) w calls

end Trustgraphs.WeightedPriorParamsController
