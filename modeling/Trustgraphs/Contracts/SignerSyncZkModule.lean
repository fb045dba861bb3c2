import Trustgraphs.Contracts.MerkleGovModule

/-!
# The signer module (`contracts/src/zodiac/SignerSyncZkModule.sol`, `SignerSelectionPolicy.sol`)

A proof of a selection gives a Safe new owners and a threshold. What the other contracts answer comes with a
call. The calls that the module makes through the Safe are those of its owner manager.
-/

/-!
## The owners of a Safe

The owner manager of Safe as it is documented: the owners are a linked list in a mapping that begins and ends
at a sentinel, and every change checks its arguments. A call that fails is `none`.
-/

namespace Trustgraphs

open Function

def SENTINEL : Address := .ofNat 20 1

/-- What Safe's `OwnerManager` stores, a linked list of owners with its functions as documented. -/
structure OwnerManager where
  /-- The Safe itself. -/
  self : Address
  /-- The next owner, zero where there is none. -/
  owners : Address → Address
  ownerCount : Nat
  threshold : U256

namespace OwnerManager

variable (safe : OwnerManager)

def valid (owner : Address) : Prop := owner ≠ 0 ∧ owner ≠ SENTINEL

instance (owner : Address) : Decidable (valid owner) := inferInstanceAs (Decidable (_ ∧ _))

/-- A new owner: no address of the list, nor the Safe. -/
def free (owner : Address) : Prop := valid owner ∧ owner ≠ safe.self ∧ safe.owners owner = 0

instance (owner : Address) : Decidable (safe.free owner) := inferInstanceAs (Decidable (_ ∧ _ ∧ _))

/-- The Safe's own check: from one up to the number of owners. -/
def changeThreshold (threshold : U256) : Option OwnerManager :=
  if safe.ownerCount < threshold.toNat then none
  else if threshold.toNat < 1 then none
  else some { safe with threshold := threshold }

/-- The threshold after a change of the owners. -/
def withThreshold (threshold : U256) : Option OwnerManager :=
  if safe.threshold ≠ threshold then safe.changeThreshold threshold else some safe

/-- The Safe puts a new owner at the head of its list. -/
def addOwnerWithThreshold (owner : Address) (threshold : U256) : Option OwnerManager :=
  if ¬ safe.free owner then none
  else
    let owners := update safe.owners owner (safe.owners SENTINEL)
    let owners := update owners SENTINEL owner
    { safe with owners := owners, ownerCount := safe.ownerCount + 1 }.withThreshold threshold

/-- The Safe takes an owner out after its predecessor. -/
def removeOwner (prevOwner owner : Address) (threshold : U256) : Option OwnerManager :=
  if safe.ownerCount < threshold.toNat + 1 then none
  else if ¬ valid owner then none
  else if safe.owners prevOwner ≠ owner then none
  else
    let owners := update safe.owners prevOwner (safe.owners owner)
    let owners := update owners owner 0
    { safe with owners := owners, ownerCount := safe.ownerCount - 1 }.withThreshold threshold

/-- The Safe puts a new owner in the place of an old one. -/
def swapOwner (prevOwner oldOwner newOwner : Address) : Option OwnerManager :=
  if ¬ safe.free newOwner then none
  else if ¬ valid oldOwner then none
  else if safe.owners prevOwner ≠ oldOwner then none
  else
    let owners := update safe.owners newOwner (safe.owners oldOwner)
    let owners := update owners prevOwner newOwner
    some { safe with owners := update owners oldOwner 0 }

/-- The list from an address on, which has at most so many entries before the sentinel. -/
def walk (owners : Address → Address) : Nat → Address → Option (List Address)
  | 0, current => if current = SENTINEL then some [] else none
  | n + 1, current => if current = SENTINEL then some [] else (walk owners n (owners current)).map (current :: ·)

/-- `getOwners`: an array of as many entries as there are owners, filled along the list. -/
def getOwners : Option (List Address) :=
  (walk safe.owners safe.ownerCount (safe.owners SENTINEL)).map fun owners =>
    owners ++ List.replicate (safe.ownerCount - owners.length) 0

end OwnerManager

end Trustgraphs

/-! ## The module -/

namespace Trustgraphs

def SignerSelectionPolicy.MAX_SIGNERS : UInt32 := 64

/-- The ranges of a policy. -/
def SignerSelectionPolicy.isValid (topN minThreshold targetThresholdBps : UInt32) (maxInactiveBlocks : UInt64)
    (minActivityWitnesses : UInt32) : Bool :=
  2 ≤ topN && topN ≤ MAX_SIGNERS && 2 ≤ minThreshold && minThreshold ≤ topN && 0 < targetThresholdBps &&
    targetThresholdBps ≤ 10000 && 0 < maxInactiveBlocks && 2 ≤ minActivityWitnesses && minActivityWitnesses ≤ topN

namespace SignerSyncZkModule

open Evm

inductive OwnerCall where
  | swapOwner (prevOwner oldOwner newOwner : Address)
  | addOwnerWithThreshold (owner : Address) (threshold : U256)
  | removeOwner (prevOwner owner : Address) (threshold : U256)
  | changeThreshold (threshold : U256)
deriving DecidableEq

inductive Error where
  | proxyDeploymentUnsupported
  | zeroAddress
  | staleCheckpoint (submitted lastApplied : U256)
  | emptySignerSet
  | invalidSignerCount (count : Nat)
  | invalidSigner (signer : Address)
  | signersNotStrictlyAscending
  | invalidThreshold (threshold : U256) (ownerCount : Nat)
  | safeCallFailed (call : OwnerCall)
  | ownerNotFound (owner : Address)
  | unpinnedCheckpoint (checkpointId : U256)
  | signerSyncPaused
  | invalidSelectionParams
  | activityCheckpointRegression (submitted lastApplied : U256)
  | activityCheckpointStale (checkpointBlock : UInt64) (currentBlock : U256)
  | activityCheckpointInFuture (checkpointBlock : UInt64) (currentBlock : U256)
  | accumulatorRotationLocked (currentCheckpointCount candidateCheckpointCount : U256)
  | notOwner
deriving DecidableEq

abbrev Result (α : Type) := Evm.Result Error α

structure Storage where
  owner : Address
  avatar : Address
  target : Address
  zkVerifier : Address
  accumulator : Address
  scoreSnapshot : Address
  activitySource : Address
  selectionParamsHash : B256
  maxInactiveBlocks : UInt64
  lastAppliedCheckpoint : U256
  lastAppliedActivityCheckpoint : U256
  hasAppliedCheckpoint : Bool
  paused : Bool

structure Env where
  self : Address
  chainId : U256
  blockNumber : UInt64
  msgSender : Address
  /-- `getCheckpoint` of an accumulator, none where the id is out of range. -/
  getCheckpoint : Address → U256 → Option AttestationAccumulator.Checkpoint
  checkpointCount : Address → Option U256
  checkpointParamsHash : Address → U256 → Option B256
  getActivityCheckpoint : Address → U256 → Option MerkleGovModule.ActivityCheckpoint
  /-- Whether a verifier accepts a proof of a digest. -/
  verify : Address → Bytes → B256 → Bool

def MAX_ACTIVITY_CHECKPOINT_AGE : UInt64 := 7200

section Calls

variable (H : Hashes) (env : Env) (s : Storage)

/-! ## The owner of the module -/

/-- Refuses every caller but the owner. -/
def onlyOwner (f : Result Storage) : Result Storage :=
  if env.msgSender ≠ s.owner then .error (.error .notOwner) else f

/-- Writes a policy and its hash. -/
def writeSelectionParams (topN minThreshold targetThresholdBps : UInt32) (maxInactiveBlocks : UInt64)
    (minActivityWitnesses : UInt32) : Result Storage :=
  if !SignerSelectionPolicy.isValid topN minThreshold targetThresholdBps maxInactiveBlocks minActivityWitnesses then
    .error (.error .invalidSelectionParams)
  else .ok { s with
    selectionParamsHash := H.keccak256 (wordU32 topN ++ wordU32 minThreshold ++ wordU32 targetThresholdBps ++
      wordU64 maxInactiveBlocks ++ wordU32 minActivityWitnesses)
    maxInactiveBlocks := maxInactiveBlocks }

def constructor (owner avatar target zkVerifier accumulator scoreSnapshot activitySource : Address)
    (topN minThreshold targetThresholdBps : UInt32) (maxInactiveBlocks : UInt64) (minActivityWitnesses : UInt32) :
    Result Storage :=
  if avatar = 0 ∨ target = 0 ∨ zkVerifier = 0 ∨ accumulator = 0 ∨ scoreSnapshot = 0 ∨ activitySource = 0 then
    .error (.error .zeroAddress)
  else
    writeSelectionParams H ⟨owner, avatar, target, zkVerifier, accumulator, scoreSnapshot,
      activitySource, 0, 0, 0, 0,
      false, false⟩ topN minThreshold targetThresholdBps maxInactiveBlocks minActivityWitnesses

def setZkVerifier (zkVerifier : Address) : Result Storage :=
  onlyOwner env s (if zkVerifier = 0 then .error (.error .zeroAddress) else .ok { s with zkVerifier := zkVerifier })

/-- The accumulator moves only while neither has a checkpoint. -/
def setAccumulator (accumulator : Address) : Result Storage :=
  onlyOwner env s <|
    if accumulator = 0 then .error (.error .zeroAddress)
    else if accumulator = s.accumulator then .ok s
    else do
      let currentCheckpointCount ← answer (env.checkpointCount s.accumulator)
      let candidateCheckpointCount ← answer (env.checkpointCount accumulator)
      if currentCheckpointCount ≠ 0 ∨ candidateCheckpointCount ≠ 0 then
        .error (.error (.accumulatorRotationLocked currentCheckpointCount candidateCheckpointCount))
      else .ok { s with
        accumulator := accumulator
        lastAppliedCheckpoint := 0
        lastAppliedActivityCheckpoint := 0
        hasAppliedCheckpoint := false }

def setSelectionParams (topN minThreshold targetThresholdBps : UInt32) (maxInactiveBlocks : UInt64)
    (minActivityWitnesses : UInt32) : Result Storage :=
  onlyOwner env s
    (writeSelectionParams H s topN minThreshold targetThresholdBps maxInactiveBlocks minActivityWitnesses)

def setActivitySource (activitySource : Address) : Result Storage :=
  onlyOwner env s <|
    if activitySource = 0 then .error (.error .zeroAddress)
    else .ok { s with
      lastAppliedActivityCheckpoint :=
        if activitySource ≠ s.activitySource then 0 else s.lastAppliedActivityCheckpoint
      activitySource := activitySource }

def setPaused (paused : Bool) : Result Storage := onlyOwner env s (.ok { s with paused := paused })

/-! ## Lists of owners -/

/-- The linked-list predecessor of an owner. -/
def prevOwner (list : List Address) (owner : Address) : Result Address :=
  match list.findIdx? (· == owner) with
  | none => .error (.error (.ownerNotFound owner))
  | some 0 => .ok SENTINEL
  | some (i + 1) => answer list[i]?

/-- The owner list with one owner replaced. -/
def replaceInPlace (list : List Address) (oldA newA : Address) : Result (List Address) :=
  match list.findIdx? (· == oldA) with
  | none => .error (.error (.ownerNotFound oldA))
  | some i => .ok (list.set i newA)

/-- `_remove`. An array that is one shorter takes the others; it is out of bounds where there are more. -/
def remove (list : List Address) (owner : Address) : Result (List Address) :=
  let rest := list.filter (· != owner)
  if list.length = 0 then .error .underflow
  else if list.length - 1 < rest.length then .error .outOfBounds
  else .ok (rest ++ List.replicate (list.length - 1 - rest.length) 0)

/-- The loop of `_validateAndRoot`, from an index on. -/
def checkSigners : Address → Nat → List Address → Result Unit
  | _, _, [] => .ok ()
  | prev, i, signer :: rest =>
    if signer = 0 ∨ signer = SENTINEL then .error (.error (.invalidSigner signer))
    else if 0 < i ∧ signer ≤ prev then .error (.error .signersNotStrictlyAscending)
    else checkSigners signer (i + 1) rest

/-- The root of a set of owners. -/
def ownerSetRoot (owners : List Address) : Result B256 :=
  match OzMerkle.root H (owners.map fun owner => H.keccak256 (wordAddr owner)) with
  | none => .error .outOfBounds
  | some root => .ok root

/-- `_validateAndRoot`: the signers in their canonical form, and their root. -/
def validateAndRoot (signers : List Address) : Result B256 :=
  let n := signers.length
  if n = 0 then .error (.error .emptySignerSet)
  else if n < 2 ∨ SignerSelectionPolicy.MAX_SIGNERS.toNat < n then .error (.error (.invalidSignerCount n))
  else do
    checkSigners 0 0 signers
    ownerSetRoot H signers

/-! ## The rotation -/

/-- The Safe, and what the calls of the module have made of it so far. -/
structure Rotation where
  safe : OwnerManager
  seen : List OwnerManager

/-- `_execSafe`: a call that the Safe makes to itself. -/
def execSafe (r : Rotation) (call : OwnerCall) : Result Rotation :=
  let after := match call with
    | .swapOwner prevOwner oldOwner newOwner => r.safe.swapOwner prevOwner oldOwner newOwner
    | .addOwnerWithThreshold owner threshold => r.safe.addOwnerWithThreshold owner threshold
    | .removeOwner prevOwner owner threshold => r.safe.removeOwner prevOwner owner threshold
    | .changeThreshold threshold => r.safe.changeThreshold threshold
  match after with
  | none => .error (.error (.safeCallFailed call))
  | some safe => .ok ⟨safe, r.seen ++ [safe]⟩

def currentOwners (safe : OwnerManager) : Result (List Address) := answer safe.getOwners

/-- The first loop: a removed owner is replaced by an added one. -/
def swapOwners : List (Address × Address) → Rotation × List Address → Result (Rotation × List Address)
  | [], st => .ok st
  | (old, new) :: rest, (r, list) => do
    let prev ← prevOwner list old
    let r ← execSafe r (.swapOwner prev old new)
    let list ← replaceInPlace list old new
    swapOwners rest (r, list)

/-- The second loop: the owners that are left to add. -/
def addOwners (curThreshold : U256) : List Address → Rotation × List Address → Result (Rotation × List Address)
  | [], st => .ok st
  | owner :: rest, (r, list) => do
    let r ← execSafe r (.addOwnerWithThreshold owner curThreshold)
    addOwners curThreshold rest (r, owner :: list)

/-- The third loop: the owners that are left to remove, with the threshold no more than what is left. -/
def removeOwners : List Address → Rotation × List Address × U256 → Result (Rotation × List Address × U256)
  | [], st => .ok st
  | owner :: rest, (r, list, curThreshold) => do
    let prev ← prevOwner list owner
    let newCount ← minus (BitVec.ofNat 256 list.length) 1
    let th := if newCount.toNat < curThreshold.toNat then newCount else curThreshold
    let th := if th.toNat < 1 then 1 else th
    let r ← execSafe r (.removeOwner prev owner th)
    let list ← remove list owner
    removeOwners rest (r, list, th)

/-- `_syncOwners`: swap, add and remove owners, and then set the threshold. -/
def syncOwners (safe : OwnerManager) (desired : List Address) (targetThreshold : U256) : Result Rotation := do
  let list ← currentOwners safe
  let curThreshold := safe.threshold
  let toRemove := list.filter fun owner => !desired.contains owner
  let toAdd := desired.filter fun owner => !list.contains owner
  let s := min toRemove.length toAdd.length
  let (r, list) ← swapOwners ((toRemove.take s).zip (toAdd.take s)) (⟨safe, []⟩, list)
  let (r, list) ← addOwners curThreshold (toAdd.drop s) (r, list)
  let (r, _, _) ← removeOwners (toRemove.drop s) (r, list, curThreshold)
  if r.safe.threshold ≠ targetThreshold then execSafe r (.changeThreshold targetThreshold) else .ok r

/-! ## Proofs -/

def wordBool (b : Bool) : Bytes := wordU256 (if b then 1 else 0)

/-- The checks of `submitSignerProof`, up to the digest that the proof is of. -/
def signerProofDigest (safe : OwnerManager) (checkpointId activityCheckpointId : U256) (signers : List Address)
    (targetThreshold : U256) : Result B256 :=
  if s.paused then .error (.error .signerSyncPaused)
  else if s.hasAppliedCheckpoint ∧ checkpointId.toNat ≤ s.lastAppliedCheckpoint.toNat then
    .error (.error (.staleCheckpoint checkpointId s.lastAppliedCheckpoint))
  else do
    let c ← answer (env.getCheckpoint s.accumulator checkpointId)
    let pinnedParamsHash ← answer (env.checkpointParamsHash s.scoreSnapshot checkpointId)
    if pinnedParamsHash = 0 then .error (.error (.unpinnedCheckpoint checkpointId))
    else do
      let activity ← answer (env.getActivityCheckpoint s.activitySource activityCheckpointId)
      if activityCheckpointId < s.lastAppliedActivityCheckpoint then
        .error (.error (.activityCheckpointRegression activityCheckpointId s.lastAppliedActivityCheckpoint))
      else if env.blockNumber < activity.blockNumber then
        .error (.error (.activityCheckpointInFuture activity.blockNumber (uint256 env.blockNumber)))
      else
        let maximumAge :=
          if s.maxInactiveBlocks < MAX_ACTIVITY_CHECKPOINT_AGE then s.maxInactiveBlocks
          else MAX_ACTIVITY_CHECKPOINT_AGE
        if activity.blockNumber.toNat + maximumAge.toNat < env.blockNumber.toNat then
          .error (.error (.activityCheckpointStale activity.blockNumber (uint256 env.blockNumber)))
        else do
          let currentOwners ← currentOwners safe
          let currentSignerSetRoot ← ownerSetRoot H currentOwners
          let signerSetRoot ← validateAndRoot H signers
          if targetThreshold.toNat < 2 ∨ signers.length < targetThreshold.toNat then
            .error (.error (.invalidThreshold targetThreshold signers.length))
          else .ok (H.keccak256 (c.acc.bytes ++ wordU64 c.leafCount ++ pinnedParamsHash.bytes ++
            s.selectionParamsHash.bytes ++ activity.acc.bytes ++ wordU64 activity.count ++
            wordU64 activity.blockNumber ++ wordBool s.hasAppliedCheckpoint ++ currentSignerSetRoot.bytes ++
            wordU256 safe.threshold ++ signerSetRoot.bytes ++ wordU256 targetThreshold ++
            (H.keccak256 (wordAddr env.self ++ wordU256 env.chainId)).bytes))

/-- Accepts the proof of a signer set and brings the Safe's owners to it. -/
def submitSignerProof (safe : OwnerManager) (checkpointId activityCheckpointId : U256) (signers : List Address)
    (targetThreshold : U256) (proof : Bytes) : Result (Storage × Rotation) := do
  let journalDigest ← signerProofDigest H env s safe checkpointId activityCheckpointId signers targetThreshold
  if env.verify s.zkVerifier proof journalDigest = false then .error .external
  else do
    let s := { s with
      lastAppliedCheckpoint := checkpointId
      lastAppliedActivityCheckpoint := activityCheckpointId
      hasAppliedCheckpoint := true }
    let r ← syncOwners safe signers targetThreshold
    .ok (s, r)

end Calls

/-- The calls that leave the policy as it is. -/
inductive Call where
  | setZkVerifier (zkVerifier : Address)
  | setAccumulator (accumulator : Address)
  | setActivitySource (activitySource : Address)
  | setPaused (paused : Bool)
  | submitSignerProof (safe : OwnerManager) (checkpointId activityCheckpointId : U256) (signers : List Address)
      (targetThreshold : U256) (proof : Bytes)

def Call.run (H : Hashes) (env : Env) (s : Storage) : Call → Result Storage
  | .setZkVerifier zkVerifier => SignerSyncZkModule.setZkVerifier env s zkVerifier
  | .setAccumulator accumulator => SignerSyncZkModule.setAccumulator env s accumulator
  | .setActivitySource activitySource => SignerSyncZkModule.setActivitySource env s activitySource
  | .setPaused paused => SignerSyncZkModule.setPaused env s paused
  | .submitSignerProof safe checkpointId activityCheckpointId signers targetThreshold proof => do
    let (s, _) ← SignerSyncZkModule.submitSignerProof H env s safe checkpointId activityCheckpointId signers
      targetThreshold proof
    .ok s

end SignerSyncZkModule

end Trustgraphs
