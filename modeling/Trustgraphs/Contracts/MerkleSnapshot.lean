import Trustgraphs.Contracts.AttestationAccumulator
import Trustgraphs.Contracts.SafeAction
import Trustgraphs.Lib.Outcome

/-!
# The snapshot contract (`contracts/src/merkle/MerkleSnapshot.sol`)

The parameter commitment of an instance, and `trigger`, which freezes the lanes and pins the commitment
and the verifier of the checkpoint. The first lane is any contract with the interface of an accumulator;
what the anchor registry answers is an input.
-/

namespace Trustgraphs

structure BlockEnv extends Msg where
  blockNumber : U256

/-- `IAttestationAccumulator`: the views and `checkpoint` of an accumulator with storage `σ`, `none`
where they revert. -/
structure Accumulator (σ : Type) where
  acc : BlockEnv → σ → Option B256
  leafCount : σ → UInt64
  checkpoints : σ → List AttestationAccumulator.Checkpoint
  checkpoint : BlockEnv → σ → Option (σ × Nat)

namespace MerkleSnapshot

open Outcome

/-- The fold of the anchors at a checkpoint. -/
structure AnchorCheckpoint where
  anchorAcc : B256
  anchorCount : UInt64
deriving DecidableEq

structure AnchorView where
  anchorAcc : B256
  anchorCount : UInt64
  /-- The bytes that a static call of `workCount()` returns, when it succeeds. -/
  workCount : Option Bytes

/-- The storage of the contract that the functions here use. -/
structure State where
  zkVerifier : Address
  anchorRegistry : Address
  paramsHash : B256
  checkpointParamsHash : Nat → B256
  checkpointVerifier : Nat → Address
  nextCheckpointId : Nat
  anchorCheckpoints : Nat → AnchorCheckpoint
  checkpointWorkCount : Nat → UInt64
  epochLength : UInt64
  epochOriginBlock : UInt64
  lastTriggerBlock : UInt64
  /-- Who holds `OPERATIONAL_ROLE`. -/
  hasOperationalRole : Address → Bool

inductive Error where
  | accessControlUnauthorizedAccount (account : Address)
  | zeroParamsHash
  | epochNotElapsed (lastTriggerBlock epochLength : UInt64)
  | noNewInputs
  | unexpectedCheckpointId (expected actual : Nat)
  /-- The accumulator reverts. -/
  | accumulator
deriving DecidableEq

abbrev Result (α : Type) := Except (Abort Error) α

def revert {α : Type} (e : Error) : Result α := .error (.error e)

/-- The value of a call of the accumulator. -/
def ofAccumulator {α : Type} : Option α → Result α
  | some a => .ok a
  | none => revert .accumulator

/-- The pinned parameters of later triggers. -/
def setParamsHash (msgSender : Address) (s : State) (paramsHash : B256) : Result State :=
  if s.hasOperationalRole msgSender = false then revert (.accessControlUnauthorizedAccount msgSender)
  else if paramsHash = 0 then revert .zeroParamsHash
  else .ok { s with paramsHash := paramsHash }

def hasCheckpoints (s : State) : Bool := 0 < s.nextCheckpointId

/-- The state of the second lane, the zero pair without a registry. -/
def liveAnchors (s : State) (v : AnchorView) : B256 × UInt64 :=
  if s.anchorRegistry = 0 then (0, 0) else (v.anchorAcc, v.anchorCount)

/-- The size of the second lane in work, which falls back to the number of its anchors. -/
def liveAnchorWork (s : State) (v : AnchorView) (anchorCount : UInt64) : UInt64 :=
  if s.anchorRegistry = 0 then 0
  else match v.workCount with
    | some returned =>
      let candidate := ofBeBytes returned
      if returned.length = 32 ∧ anchorCount.toNat ≤ candidate ∧ candidate < 2 ^ 64 then
        UInt64.ofNat candidate
      else anchorCount
    | none => anchorCount

def uint256 (x : UInt64) : U256 := BitVec.ofNat 256 x.toNat

/-- The boundary of the epoch of the current block. -/
def consumedBoundary (env : BlockEnv) (s : State) : Result UInt64 :=
  if 0 < s.epochLength then do
    let elapsed ← ofPanic (Checked.sub env.blockNumber (uint256 s.epochOriginBlock))
    let offset ← ofPanic (Checked.mul (elapsed / uint256 s.epochLength) (uint256 s.epochLength))
    let boundary ← ofPanic (Checked.add (uint256 s.epochOriginBlock) offset)
    .ok (UInt64.ofNat boundary.toNat)
  else .ok 0

variable {σ : Type} (L : Accumulator σ)

/-- Refuse a checkpoint of unchanged inputs under an unchanged configuration. -/
def requireNewInputs (env : BlockEnv) (anchors : AnchorView) (s : State) (lane : σ) : Result Unit :=
  if hasCheckpoints s then do
    let checkpoints := L.checkpoints lane
    let prev ← ofPanic checkpoints.getLast?
    let prevAnchor := s.anchorCheckpoints (checkpoints.length - 1)
    let acc ← ofAccumulator (L.acc env lane)
    if acc = prev.acc ∧ L.leafCount lane = prev.leafCount ∧ (liveAnchors s anchors).1 = prevAnchor.anchorAcc ∧
        (liveAnchors s anchors).2 = prevAnchor.anchorCount ∧
        s.paramsHash = s.checkpointParamsHash (s.nextCheckpointId - 1) ∧
        s.zkVerifier = s.checkpointVerifier (s.nextCheckpointId - 1) then
      revert .noNewInputs
    else .ok ()
  else .ok ()

/-- What `trigger` records of a checkpoint. -/
def pin (anchors : AnchorView) (s : State) (checkpointId : Nat) : State :=
  let (a, n) := liveAnchors s anchors
  { s with
    nextCheckpointId := checkpointId + 1
    checkpointParamsHash := Function.update s.checkpointParamsHash checkpointId s.paramsHash
    checkpointVerifier := Function.update s.checkpointVerifier checkpointId s.zkVerifier
    anchorCheckpoints :=
      if a ≠ 0 ∨ n ≠ 0 then Function.update s.anchorCheckpoints checkpointId ⟨a, n⟩
      else s.anchorCheckpoints
    checkpointWorkCount := Function.update s.checkpointWorkCount checkpointId (liveAnchorWork s anchors n) }

/-- Freeze the lanes as a checkpoint. `self` is the address of the contract, the sender of its calls. -/
def trigger (self : Address) (env : BlockEnv) (anchors : AnchorView) (s : State) (lane : σ) :
    Result (State × σ × Nat) :=
  if 0 < s.epochLength ∧ env.blockNumber.toNat < s.lastTriggerBlock.toNat + s.epochLength.toNat then
    revert (.epochNotElapsed s.lastTriggerBlock s.epochLength)
  else do
    let boundary ← consumedBoundary env s
    requireNewInputs L { env with sender := self } anchors s lane
    let lastTriggerBlock := if s.epochLength = 0 then UInt64.ofNat env.blockNumber.toNat else boundary
    let (lane, checkpointId) ← ofAccumulator (L.checkpoint { env with sender := self } lane)
    if checkpointId ≠ s.nextCheckpointId then
      revert (.unexpectedCheckpointId s.nextCheckpointId checkpointId)
    else .ok (pin anchors { s with lastTriggerBlock := lastTriggerBlock } checkpointId, lane, checkpointId)

end MerkleSnapshot

end Trustgraphs

/-!
## The history of a snapshot (`contracts/src/merkle/MerkleSnapshot.sol`)

What the contract records of the proofs that it accepts, the reads of it, and the governance of the
contract. The storage of `trigger` is part of the storage here. The accumulator and the verifier are
other contracts: what they answer is an input.
-/

namespace Trustgraphs.MerkleSnapshot

open Outcome Function

/-- An accepted state. -/
structure MerkleState where
  blockNumber : U256
  timestamp : U256
  root : B256
  ipfsHash : B256
  ipfsHashCid : Bytes
  totalValue : U256
deriving DecidableEq

/-- `IMerkleSnapshotProvenance.StateProvenance`. -/
structure StateProvenance where
  stateIndex : Nat
  checkpointId : Nat
  acceptedAtBlock : UInt64
  paramsHash : B256
  verifier : Address
  verifierCodehash : B256
  programVKey : B256
deriving DecidableEq

/-- The storage of the contract with its history. -/
structure Storage extends State where
  accumulator : Address
  /-- Who holds `CONSTITUTIONAL_ROLE`. -/
  hasConstitutionalRole : Address → Bool
  checkpointRecipient : Nat → Address
  lastAppliedCheckpoint : Nat
  hasAppliedCheckpoint : Bool
  states : Nat → MerkleState
  stateProvenance : Nat → StateProvenance
  acceptedCheckpointStates : Nat → MerkleState
  acceptedCheckpointProvenance : Nat → StateProvenance
  acceptedCheckpoints : Nat → Bool
  provenanceEnabled : Bool
  stateBlocks : List U256
  blockToStateIndex : U256 → Nat

inductive HistoryError where
  /-- An error of `trigger` and of the functions beside it. -/
  | state (e : Error)
  | zeroAddress
  | accumulatorRotationLocked (currentCheckpointCount candidateCheckpointCount : Nat)
  | provenanceEnableAfterState (stateCount : Nat)
  | anchorRegistryRotationLocked (nextCheckpointId : Nat)
  | staleCheckpoint (checkpointId lastAppliedCheckpoint : Nat)
  | unpinnedCheckpoint (checkpointId : Nat)
  /-- The verifier reverts. -/
  | invalidProof
  | nonMonotonicStateBlock (blockNumber last : U256)
  | noMerkleStates
  | noMerkleStateAtBlock (blockNumber first : U256)
  | noMerkleStateAtIndex (index length : Nat)
deriving DecidableEq

abbrev HistoryResult (α : Type) := Except (Abort HistoryError) α

def fail {α : Type} (e : HistoryError) : HistoryResult α := .error (.error e)

def zeroMerkleState : MerkleState := ⟨0, 0, 0, 0, [], 0⟩

def zeroProvenance : StateProvenance := ⟨0, 0, 0, 0, 0, 0, 0⟩

def constructor (zkVerifier : Address) (paramsHash : B256) (accumulator : Address)
    (constitutionalAdmin operationalAdmin : Address) : HistoryResult Storage :=
  if zkVerifier = 0 ∨ accumulator = 0 ∨ constitutionalAdmin = 0 ∨ operationalAdmin = 0 then
    fail .zeroAddress
  else if paramsHash = 0 then fail (.state .zeroParamsHash)
  else .ok {
    zkVerifier := zkVerifier
    anchorRegistry := 0
    paramsHash := paramsHash
    checkpointParamsHash := fun _ => 0
    checkpointVerifier := fun _ => 0
    nextCheckpointId := 0
    anchorCheckpoints := fun _ => ⟨0, 0⟩
    checkpointWorkCount := fun _ => 0
    epochLength := 0
    epochOriginBlock := 0
    lastTriggerBlock := 0
    hasOperationalRole := fun a => a = operationalAdmin
    accumulator := accumulator
    hasConstitutionalRole := fun a => a = constitutionalAdmin
    checkpointRecipient := fun _ => 0
    lastAppliedCheckpoint := 0
    hasAppliedCheckpoint := false
    states := fun _ => zeroMerkleState
    stateProvenance := fun _ => zeroProvenance
    acceptedCheckpointStates := fun _ => zeroMerkleState
    acceptedCheckpointProvenance := fun _ => zeroProvenance
    acceptedCheckpoints := fun _ => false
    provenanceEnabled := false
    stateBlocks := []
    blockToStateIndex := fun _ => 0 }

/-! ## Governance -/

section Governance

variable (msgSender : Address) (s : Storage)

/-- Refuse who is not a constitutional authority. -/
def onlyConstitutional (next : HistoryResult Storage) : HistoryResult Storage :=
  if s.hasConstitutionalRole msgSender = false then
    fail (.state (.accessControlUnauthorizedAccount msgSender))
  else next

def setZkVerifier (zkVerifier : Address) : HistoryResult Storage :=
  onlyConstitutional msgSender s
    (if zkVerifier = 0 then fail .zeroAddress else .ok { s with zkVerifier := zkVerifier })

/-- Update the accumulator before a checkpoint was frozen. `checkpointCount` is what the accumulators
answer. -/
def setAccumulator (checkpointCount : Address → Nat) (accumulator : Address) : HistoryResult Storage :=
  onlyConstitutional msgSender s
    (if accumulator = 0 then fail .zeroAddress
    else if accumulator = s.accumulator then .ok s
    else
      let currentCheckpointCount := checkpointCount s.accumulator
      let candidateCheckpointCount := checkpointCount accumulator
      if currentCheckpointCount ≠ 0 ∨ candidateCheckpointCount ≠ 0 then
        fail (.accumulatorRotationLocked currentCheckpointCount candidateCheckpointCount)
      else .ok { s with accumulator := accumulator })

/-- Enable the history of the accepted states, for good. -/
def enableStateProvenance : HistoryResult Storage :=
  onlyConstitutional msgSender s
    (if s.provenanceEnabled = true then .ok s
    else if s.stateBlocks.length ≠ 0 then fail (.provenanceEnableAfterState s.stateBlocks.length)
    else .ok { s with provenanceEnabled := true })

/-- Set or clear the registry of the second lane. -/
def setAnchorRegistry (anchorRegistry : Address) : HistoryResult Storage :=
  onlyConstitutional msgSender s
    (if anchorRegistry = s.anchorRegistry then .ok s
    else if hasCheckpoints s.toState = true then fail (.anchorRegistryRotationLocked s.nextCheckpointId)
    else .ok { s with anchorRegistry := anchorRegistry })

end Governance

/-- Set the schedule. A changed length that is not zero anchors a new phase at the current block. -/
def anchorEpoch (blockNumber : U256) (s : State) (epochLength : UInt64) : State :=
  if epochLength ≠ s.epochLength then
    if epochLength = 0 then { s with epochLength := epochLength, epochOriginBlock := 0 }
    else
      let origin := UInt64.ofNat blockNumber.toNat
      { s with epochLength := epochLength, epochOriginBlock := origin, lastTriggerBlock := origin }
  else s

/-- A changed length starts a new schedule at this block. -/
def setEpochLength (env : BlockEnv) (s : Storage) (epochLength : UInt64) : HistoryResult Storage :=
  onlyConstitutional env.sender s
    (.ok { s with toState := anchorEpoch env.blockNumber s.toState epochLength })

/-! ## Proofs -/

/-- What a prover submits. -/
structure Submission where
  checkpointId : Nat
  outputRoot : B256
  ipfsHash : B256
  ipfsHashCid : Bytes
  totalValue : U256
  skippedDigest : B256
  recipient : Address
  proof : Bytes

/-- What a submission sees of the verifier. -/
structure VerifierView where
  /-- The proof is accepted for a digest. -/
  verify : Bytes → B256 → Bool
  codehash : B256
  /-- The bytes that a static call of `programVKey()` returns, when it succeeds. -/
  programVKey : Option Bytes

/-- Binds a journal to this snapshot on this chain. -/
def instanceDomain (H : Hashes) (self : Address) (chainId : U256) : B256 :=
  H.keccak256 (wordAddr self ++ wordU256 chainId)

/-- The key of the program, zero where the verifier exposes none. -/
def programVKey (v : VerifierView) : B256 :=
  match v.programVKey with
  | some returned => if returned.length = 32 then FixedBytes.ofNat 32 (ofBeBytes returned) else 0
  | none => 0

/-- File a state at the block where its inputs were frozen, over a state at the same block. -/
def updateStateAtBlock (blockTimestamp : U256) (s : Storage) (blockNumber : U256) (root ipfsHash : B256)
    (ipfsHashCid : Bytes) (totalValue : U256) : HistoryResult (Storage × Nat) :=
  let length := s.stateBlocks.length
  let last := s.stateBlocks.getLast?
  let state : MerkleState := ⟨blockNumber, blockTimestamp, root, ipfsHash, ipfsHashCid, totalValue⟩
  if last.any (blockNumber < ·) = true then fail (.nonMonotonicStateBlock blockNumber (last.getD 0))
  else if last ≠ some blockNumber then
    .ok ({ s with
      blockToStateIndex := update s.blockToStateIndex blockNumber length
      stateBlocks := s.stateBlocks ++ [blockNumber]
      states := update s.states length state }, length)
  else
    let stateIndex := s.blockToStateIndex blockNumber
    .ok ({ s with states := update s.states stateIndex state }, stateIndex)

/-- Record the provenance of an accepted state, when the instance keeps it. -/
def recordProvenance (env : BlockEnv) (v : VerifierView) (s : Storage) (checkpointId stateIndex : Nat)
    (pinnedParamsHash : B256) : Storage :=
  if s.provenanceEnabled = true then
    let provenance : StateProvenance :=
      { stateIndex := stateIndex
        checkpointId := checkpointId
        acceptedAtBlock := UInt64.ofNat env.blockNumber.toNat
        paramsHash := pinnedParamsHash
        verifier := s.zkVerifier
        verifierCodehash := v.codehash
        programVKey := programVKey v }
    { s with
      stateProvenance := update s.stateProvenance stateIndex provenance
      acceptedCheckpointStates := update s.acceptedCheckpointStates checkpointId (s.states stateIndex)
      acceptedCheckpointProvenance := update s.acceptedCheckpointProvenance checkpointId provenance
      acceptedCheckpoints := update s.acceptedCheckpoints checkpointId true }
  else s

/-- The journal that a proof has to commit to. -/
def submissionJournal (H : Hashes) (self : Address) (env : BlockEnv) (s : Storage)
    (c : AttestationAccumulator.Checkpoint) (p : Submission) : Journal where
  acc := c.acc
  leafCount := c.leafCount
  anchorAcc := (s.anchorCheckpoints p.checkpointId).anchorAcc
  anchorCount := (s.anchorCheckpoints p.checkpointId).anchorCount
  paramsHash := s.checkpointParamsHash p.checkpointId
  outputRoot := p.outputRoot
  ipfsHash := p.ipfsHash
  cidDigest := H.keccak256 p.ipfsHashCid
  totalValue := p.totalValue
  skippedDigest := p.skippedDigest
  recipient := p.recipient
  instanceDomain := instanceDomain H self env.chainId

/-- Accept a proof for a checkpoint and write its state. `checkpoints` are those of the accumulator. -/
def submitProof (H : Hashes) (self : Address) (env : BlockEnv)
    (checkpoints : List AttestationAccumulator.Checkpoint) (v : VerifierView) (s : Storage)
    (p : Submission) : HistoryResult (Storage × Nat) :=
  if s.hasAppliedCheckpoint = true ∧ p.checkpointId ≤ s.lastAppliedCheckpoint then
    fail (.staleCheckpoint p.checkpointId s.lastAppliedCheckpoint)
  else do
    let c ← ofPanic checkpoints[p.checkpointId]?
    let pinnedParamsHash := s.checkpointParamsHash p.checkpointId
    if pinnedParamsHash = 0 then fail (.unpinnedCheckpoint p.checkpointId)
    else if v.verify p.proof (journalDigest H (submissionJournal H self env s c p)) = false then
      fail .invalidProof
    else do
      let applied := { s with
        lastAppliedCheckpoint := p.checkpointId
        hasAppliedCheckpoint := true
        checkpointRecipient := update s.checkpointRecipient p.checkpointId p.recipient }
      let (updated, stateIndex) ← updateStateAtBlock env.blockTimestamp applied (uint256 c.blockNumber)
        p.outputRoot p.ipfsHash p.ipfsHashCid p.totalValue
      .ok (recordProvenance env v updated p.checkpointId stateIndex pinnedParamsHash, stateIndex)

/-! ## Reads -/

section Reads

variable (s : Storage)

/-- The loop of the binary search: whether a state was found, and its index. -/
def searchStateIndex (blockNumber : U256) (left right result : Nat) (foundResult : Bool) :
    HistoryResult (Bool × Nat) :=
  if left < right then
    let mid := (left + right) / 2
    match s.stateBlocks[mid]? with
    | none => .error .panic
    | some midBlock =>
      if midBlock = blockNumber then .ok (true, s.blockToStateIndex midBlock)
      else if midBlock < blockNumber then
        searchStateIndex blockNumber (mid + 1) right (s.blockToStateIndex midBlock) true
      else searchStateIndex blockNumber left mid result foundResult
  else .ok (foundResult, result)
termination_by right - left

/-- Binary search over the blocks of the accepted states. -/
def findStateIndexAtOrBeforeBlock (blockNumber : U256) : HistoryResult (Bool × Nat) :=
  searchStateIndex s blockNumber 0 s.stateBlocks.length 0 false

/-- The newest state that is not after the block. -/
def getStateAtBlock (blockNumber : U256) : HistoryResult MerkleState :=
  match s.stateBlocks with
  | [] => fail .noMerkleStates
  | first :: _ => do
    -- an index of zero is that of the first state or of none
    let directIndex := s.blockToStateIndex blockNumber
    let directBlock ← ofPanic s.stateBlocks[directIndex]?
    if directBlock = blockNumber then .ok (s.states directIndex)
    else do
      let (found, stateIndex) ← findStateIndexAtOrBeforeBlock s blockNumber
      if found = false then fail (.noMerkleStateAtBlock blockNumber first)
      else .ok (s.states stateIndex)

def getStateCount : Nat := s.stateBlocks.length

def getStateAtIndex (index : Nat) : HistoryResult MerkleState :=
  if s.stateBlocks.length ≤ index then fail (.noMerkleStateAtIndex index s.stateBlocks.length)
  else .ok (s.states index)

def getStateProvenance (index : Nat) : HistoryResult StateProvenance :=
  if s.stateBlocks.length ≤ index then fail (.noMerkleStateAtIndex index s.stateBlocks.length)
  else .ok (s.stateProvenance index)

/-- The state that was accepted for a checkpoint. -/
def getAcceptedCheckpoint (checkpointId : Nat) : HistoryResult (MerkleState × StateProvenance) :=
  if s.acceptedCheckpoints checkpointId = false then fail (.unpinnedCheckpoint checkpointId)
  else .ok (s.acceptedCheckpointStates checkpointId, s.acceptedCheckpointProvenance checkpointId)

end Reads

end Trustgraphs.MerkleSnapshot
