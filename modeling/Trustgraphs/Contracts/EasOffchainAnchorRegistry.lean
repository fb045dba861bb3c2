import Trustgraphs.Contracts.AccessControl
import Trustgraphs.Contracts.SafeAction
import Trustgraphs.EasOffchain.Payload
import Trustgraphs.Lib.Run

/-!
# The registry of off-chain heads (`contracts/src/registry/EasOffchainAnchorRegistry.sol`)

An admitted relayer appends heads that their owners have signed. Every head extends the last one of its
owner by a greater count, and the work of all the heads is bounded. The recovery of a signer is a
parameter, as are the role storage that the contract inherits and the number of leaves of the other lane.
-/

namespace Trustgraphs.EasOffchainAnchorRegistry

open Outcome Function AccessControl

def ENVELOPE_KIND : UInt8 := 0

def MAX_ENTRIES_PER_NODE : UInt64 := 2048

def E0_ENTRY_WORK_UNITS : UInt64 := 4

def ABSOLUTE_MAX_TOTAL_INPUTS : UInt64 := 200000

structure Immutables where
  schemaUid : B256
  maxTotalInputs : UInt64
  binder : Address
  easDomainSeparator : B256
  headDomainSeparator : B256
deriving DecidableEq

/-- What the registry stores. -/
structure State (O : AccessControl) where
  snapshot : Address
  anchorAcc : B256
  anchorCount : UInt64
  aggregateLatestEnvelope0EntryCount : UInt64
  registered : B256 → Bool
  ownerOf : B256 → Address
  lastCount : B256 → UInt64
  lastHead : B256 → B256
  lastDataCommitment : B256 → B256
  roles : O.Storage

structure HeadAnchored where
  foldIndex : UInt64
  nodeId : B256
  owner : Address
  envelopeKind : UInt8
  schemaUid : B256
  previousHead : B256
  head : B256
  count : UInt64
  dataCommitment : B256
  blockTimestamp : U256
  headSignature : Bytes
deriving DecidableEq

inductive Error where
  | accessControlUnauthorizedAccount (account : Address) (neededRole : B256)
  | accessControlBadConfirmation
  | zeroAddress
  | zeroBytes32
  | invalidInputCapacity (proposed absoluteMaximum : UInt64)
  | invalidEnvelopeKind (supplied : UInt8)
  | invalidEntryCount (supplied maximum : UInt64)
  | previousHeadMismatch (nodeId supplied expected : B256)
  | staleHeadCount (nodeId : B256) (supplied current : UInt64)
  | sameCountConflict (nodeId : B256) (count : UInt64)
  | wrongNodeId (supplied expected : B256)
  | wrongOwner (nodeId : B256) (recovered expected : Address)
  | notBinder (caller : Address)
  | snapshotAlreadyBound (snapshot : Address)
  | snapshotRegistryMismatch (snapshot expected actual : Address)
  | snapshotNotBound
  | inputCapacityExceeded (lane1LeafCount projectedLane2Work maxTotalInputs : UInt64)
  /-- `ECDSA.recover` reverts. -/
  | signature
deriving DecidableEq

abbrev Result (α : Type) := Except Error α

variable {O : AccessControl}

/-- The role of the admitted relayers. -/
def ANCHORER_ROLE (H : Hashes) : B256 := H.keccak256 (utf8 "ANCHORER_ROLE")

/-! ## Digests -/

section Digests

variable (H : Hashes)

def EIP712_DOMAIN_TYPEHASH : B256 :=
  H.keccak256 (utf8 "EIP712Domain(string name,string version,uint256 chainId,address verifyingContract)")

def ANCHOR_TYPEHASH : B256 :=
  H.keccak256 (utf8 "Anchor(bytes32 nodeId,uint8 envelopeKind,bytes32 schemaUid,bytes32 previousHead,bytes32 head,uint64 count,bytes32 dataCommitment)")

/-- The EIP-712 domain of an EAS contract. -/
def domainSeparator (chainId : U256) (nameHash versionHash : B256) (verifyingContract : Address) : B256 :=
  H.keccak256 ((EIP712_DOMAIN_TYPEHASH H).bytes ++ nameHash.bytes ++ versionHash.bytes ++
    wordU256 chainId ++ wordAddr verifyingContract)

/-- The digest that an owner signs for an append. -/
def anchorDigest (c : Immutables) (nodeId : B256) (envelopeKind : UInt8) (previousHead head : B256)
    (count : UInt64) (dataCommitment : B256) : B256 :=
  let structHash := H.keccak256 ((ANCHOR_TYPEHASH H).bytes ++ nodeId.bytes ++ wordU8 envelopeKind ++
    c.schemaUid.bytes ++ previousHead.bytes ++ head.bytes ++ wordU64 count ++ dataCommitment.bytes)
  -- `MessageHashUtils.toTypedDataHash`
  H.keccak256 ([0x19, 0x01] ++ c.headDomainSeparator.bytes ++ structHash.bytes)

end Digests

/-! ## Functions -/

/-- The immutables and the storage after construction. `version` is what the attestation service at `eas`
answers. -/
def constructor (H : Hashes) (chainId : U256) (self eas : Address) (version : Bytes) (schemaUid : B256)
    (maxTotalInputs : UInt64) (admin binder : Address) (initialRelayers : List Address) :
    Result (Immutables × State O) :=
  if eas = 0 ∨ admin = 0 ∨ binder = 0 then .error .zeroAddress
  else if schemaUid = 0 then .error .zeroBytes32
  else if maxTotalInputs = 0 ∨ ABSOLUTE_MAX_TOTAL_INPUTS < maxTotalInputs then
    .error (.invalidInputCapacity maxTotalInputs ABSOLUTE_MAX_TOTAL_INPUTS)
  else if 0 ∈ initialRelayers then .error .zeroAddress
  else .ok
    ({ schemaUid := schemaUid
       maxTotalInputs := maxTotalInputs
       binder := binder
       easDomainSeparator := domainSeparator H chainId (H.keccak256 (utf8 "EAS Attestation"))
         (H.keccak256 version) eas
       headDomainSeparator := domainSeparator H chainId (H.keccak256 (utf8 "Trustgraphs Offchain Head"))
         (H.keccak256 (utf8 "2")) self },
     { snapshot := 0
       anchorAcc := 0
       anchorCount := 0
       aggregateLatestEnvelope0EntryCount := 0
       registered := fun _ => false
       ownerOf := fun _ => 0
       lastCount := fun _ => 0
       lastHead := fun _ => 0
       lastDataCommitment := fun _ => 0
       roles := initialRelayers.foldl (fun roles relayer => (O.grantRole roles (ANCHORER_ROLE H) relayer).1)
         (O.grantRole O.empty DEFAULT_ADMIN_ROLE admin).1 })

/-- Bind the snapshot, once. `anchorRegistry` and `accumulator` are what the snapshot answers. -/
def bindSnapshot (c : Immutables) (self msgSender : Address) (s : State O)
    (snapshot anchorRegistry accumulator : Address) : Result (State O) :=
  if msgSender ≠ c.binder then .error (.notBinder msgSender)
  else if s.snapshot ≠ 0 then .error (.snapshotAlreadyBound s.snapshot)
  else if snapshot = 0 then .error .zeroAddress
  else if anchorRegistry ≠ self then .error (.snapshotRegistryMismatch snapshot self anchorRegistry)
  else if accumulator = 0 then .error .zeroAddress
  else .ok { s with snapshot := snapshot }

/-- The arguments of `anchor`. -/
structure Anchor where
  nodeId : B256
  envelopeKind : UInt8
  previousHead : B256
  head : B256
  count : UInt64
  dataCommitment : B256
  headSignature : Bytes

/-- The leaf that an anchor folds. -/
def anchorLeaf (H : Hashes) (a : Anchor) (timestamp : U256) : B256 :=
  H.keccak256 (a.nodeId.bytes ++ wordU8 a.envelopeKind ++ a.head.bytes ++ wordU64 a.count ++
    a.dataCommitment.bytes ++ wordU256 timestamp)

section Anchor

variable (H : Hashes) (recover : B256 → Bytes → Option Address) (c : Immutables)

/-- The writes of an anchor whose owner is known, and its event. -/
def append (blockTimestamp : U256) (s : State O) (a : Anchor) (owner : Address)
    (projectedEntries : Nat) : State O × HeadAnchored :=
  ({ s with
     registered := update s.registered a.nodeId true
     ownerOf := if s.registered a.nodeId then s.ownerOf else update s.ownerOf a.nodeId owner
     lastCount := update s.lastCount a.nodeId a.count
     lastHead := update s.lastHead a.nodeId a.head
     lastDataCommitment := update s.lastDataCommitment a.nodeId a.dataCommitment
     aggregateLatestEnvelope0EntryCount := UInt64.ofNat projectedEntries
     anchorAcc := H.keccak256 (s.anchorAcc.bytes ++ (anchorLeaf H a blockTimestamp).bytes)
     anchorCount := s.anchorCount + 1 },
   ⟨s.anchorCount, a.nodeId, owner, a.envelopeKind, c.schemaUid, a.previousHead, a.head, a.count,
     a.dataCommitment, blockTimestamp, a.headSignature⟩)

/-- Register a node on its first use and append its head. `lane1Count` is the number of leaves that the
accumulator of the snapshot answers. -/
def anchor (msgSender : Address) (blockTimestamp : U256) (lane1Count : UInt64) (s : State O)
    (a : Anchor) : Result (State O × HeadAnchored) :=
  if O.hasRole s.roles (ANCHORER_ROLE H) msgSender = false then
    .error (.accessControlUnauthorizedAccount msgSender (ANCHORER_ROLE H))
  else if s.snapshot = 0 then .error .snapshotNotBound
  else if a.envelopeKind ≠ ENVELOPE_KIND then .error (.invalidEnvelopeKind a.envelopeKind)
  else if a.head = 0 ∨ a.dataCommitment = 0 then .error .zeroBytes32
  else if a.count = 0 ∨ MAX_ENTRIES_PER_NODE < a.count then
    .error (.invalidEntryCount a.count MAX_ENTRIES_PER_NODE)
  else
    let currentCount := s.lastCount a.nodeId
    let currentHead := s.lastHead a.nodeId
    if a.count < currentCount then .error (.staleHeadCount a.nodeId a.count currentCount)
    else if a.count = currentCount then .error (.sameCountConflict a.nodeId a.count)
    else if a.previousHead ≠ currentHead then
      .error (.previousHeadMismatch a.nodeId a.previousHead currentHead)
    else
      let projectedEntries := s.aggregateLatestEnvelope0EntryCount.toNat + (a.count - currentCount).toNat
      let projectedWork := s.anchorCount.toNat + 1 + projectedEntries * E0_ENTRY_WORK_UNITS.toNat
      if c.maxTotalInputs.toNat < lane1Count.toNat + projectedWork then
        .error (.inputCapacityExceeded lane1Count (UInt64.ofNat projectedWork) c.maxTotalInputs)
      else
        match recover (anchorDigest H c a.nodeId a.envelopeKind a.previousHead a.head a.count
            a.dataCommitment) a.headSignature with
        | none => .error .signature
        | some owner =>
          let expectedNodeId := H.keccak256 (wordAddr owner)
          if a.nodeId ≠ expectedNodeId then .error (.wrongNodeId a.nodeId expectedNodeId)
          else if s.registered a.nodeId = true ∧ owner ≠ s.ownerOf a.nodeId then
            .error (.wrongOwner a.nodeId owner (s.ownerOf a.nodeId))
          else .ok (append H c blockTimestamp s a owner projectedEntries)

end Anchor

/-! ## Roles -/

section Roles

variable (msgSender : Address) (s : State O) (role : B256) (account : Address)

/-- Inherited, for the holders of the role that administers `role`. -/
def grantRole : Result (State O) :=
  let adminRole := O.getRoleAdmin s.roles role
  if O.hasRole s.roles adminRole msgSender = false then
    .error (.accessControlUnauthorizedAccount msgSender adminRole)
  else .ok { s with roles := (O.grantRole s.roles role account).1 }

/-- Inherited, for the holders of the role that administers `role`. -/
def revokeRole : Result (State O) :=
  let adminRole := O.getRoleAdmin s.roles role
  if O.hasRole s.roles adminRole msgSender = false then
    .error (.accessControlUnauthorizedAccount msgSender adminRole)
  else .ok { s with roles := (O.revokeRole s.roles role account).1 }

/-- Inherited, for the holder of the role. -/
def renounceRole (callerConfirmation : Address) : Result (State O) :=
  if callerConfirmation ≠ msgSender then .error .accessControlBadConfirmation
  else .ok { s with roles := (O.revokeRole s.roles role callerConfirmation).1 }

end Roles

/-! ## Runs -/

structure Env where
  msgSender : Address
  blockTimestamp : U256
  /-- The number of leaves of the other lane. -/
  lane1Count : UInt64

inductive Call where
  | anchor (a : Anchor)
  | bindSnapshot (snapshot anchorRegistry accumulator : Address)
  | grantRole (role : B256) (account : Address)
  | revokeRole (role : B256) (account : Address)
  | renounceRole (role : B256) (callerConfirmation : Address)

/-- The storage with the events since construction. -/
structure Log (O : AccessControl) where
  state : State O
  events : List HeadAnchored

section Run

variable (H : Hashes) (recover : B256 → Bytes → Option Address) (c : Immutables) (self : Address)

/-- The effect of a call, `none` when it reverts. -/
def call (i : Env × Call) (l : Log O) : Option (Log O) :=
  let withState (s : State O) : Log O := { l with state := s }
  match i.2 with
  | .anchor a =>
    (anchor H recover c i.1.msgSender i.1.blockTimestamp i.1.lane1Count l.state a).toOption.map
      fun (s, event) => ⟨s, l.events ++ [event]⟩
  | .bindSnapshot snapshot anchorRegistry accumulator =>
    (bindSnapshot c self i.1.msgSender l.state snapshot anchorRegistry accumulator).toOption.map withState
  | .grantRole role account => (grantRole i.1.msgSender l.state role account).toOption.map withState
  | .revokeRole role account => (revokeRole i.1.msgSender l.state role account).toOption.map withState
  | .renounceRole role callerConfirmation =>
    (renounceRole i.1.msgSender l.state role callerConfirmation).toOption.map withState

/-- The storage and the events after a run. -/
def run (l : Log O) (calls : List (Env × Call)) : Log O := Run.run (call H recover c self) l calls

end Run

end Trustgraphs.EasOffchainAnchorRegistry
