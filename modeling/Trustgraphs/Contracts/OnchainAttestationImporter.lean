import Trustgraphs.Contracts.AttestationAccumulator
import Trustgraphs.Lib.Outcome

/-!
# The importer of EAS attestations (`contracts/src/eas/OnchainAttestationImporter.sol`)

The EAS contract is outside the repository: a call sees its storage. The three import functions are one
loop (`importAll`) with the check, the mark and the timestamp of each. A call that reverts leaves the
state as it was and folds nothing.
-/

namespace Trustgraphs.OnchainAttestationImporter

/-- What the importer reads of a stored attestation. -/
structure Attestation where
  uid : B256
  schema : B256
  time : UInt64
  expirationTime : UInt64
  revocationTime : UInt64
  recipient : Address
  attester : Address
  data : Bytes
deriving DecidableEq

inductive Error where
  | attestationNotFound
  | foreignSchema
  | attestationNotProcessed
  | attestationNotRevoked
  | attestationDoesNotExpire
  | expirationNotReached
deriving DecidableEq

structure State where
  accumulator : AttestationAccumulator.State
  attestationsProcessed : B256 → Bool
  revocationsProcessed : B256 → Bool
  expirationsProcessed : B256 → Bool
  zeroRecipientSkipped : B256 → Bool

structure Env where
  /-- The storage of the EAS contract: `getAttestation`. -/
  getAttestation : B256 → Attestation
  blockTimestamp : U256

def constructor (msgSender : Address) : State where
  accumulator := AttestationAccumulator.constructor msgSender
  attestationsProcessed _ := false
  revocationsProcessed _ := false
  expirationsProcessed _ := false
  zeroRecipientSkipped _ := false

/-- Read and authenticate one source record. -/
def load (schemaUid : B256) (env : Env) (uid : B256) : Except (Abort Error) Attestation :=
  let attestation := env.getAttestation uid
  if uid = 0 ∨ attestation.uid ≠ uid then .error (.error .attestationNotFound)
  else if attestation.schema ≠ schemaUid then .error (.error .foreignSchema)
  else .ok attestation

/-- What an import function does for a uid. -/
structure Operation where
  /-- The kind of its leaves. -/
  kind : UInt8
  processed : State → B256 → Bool
  /-- The checks on a loaded record. -/
  check : Env → State → Attestation → Except (Abort Error) Unit
  mark : State → B256 → State
  /-- What is noted about a record without recipient. -/
  markZeroRecipient : State → B256 → State
  timestamp : Attestation → UInt64

/-- The state of the loop over the uids: the storage, the counts and the folded edges. -/
structure Progress where
  state : State
  folded : ℕ
  skipped : ℕ
  edges : List RawEdge

/-- The edge that an operation folds. -/
def Operation.edge (op : Operation) (attestation : Attestation) (uid : B256) : RawEdge :=
  ⟨op.kind, attestation.attester, attestation.recipient, uid, op.timestamp attestation, attestation.data⟩

/-- One attestation of a batch: marked, and folded or skipped. -/
def importOne (H : Hashes) (schemaUid : B256) (env : Env) (op : Operation) (p : Progress) (uid : B256) :
    Except (Abort Error) Progress :=
  if op.processed p.state uid then .ok { p with skipped := p.skipped + 1 }
  else do
    let attestation ← load schemaUid env uid
    op.check env p.state attestation
    let state := op.mark p.state uid
    if attestation.recipient = 0 then
      .ok { p with state := op.markZeroRecipient state uid, skipped := p.skipped + 1 }
    else do
      let accumulator ← Outcome.ofPanic (AttestationAccumulator.foldAt H state.accumulator op.kind
        attestation.attester attestation.recipient uid
        (BitVec.ofNat 256 (op.timestamp attestation).toNat) (H.keccak256 attestation.data))
      .ok ⟨{ state with accumulator := accumulator }, p.folded + 1, p.skipped,
        p.edges ++ [op.edge attestation uid]⟩

def importAll (H : Hashes) (schemaUid : B256) (env : Env) (op : Operation) (s : State)
    (uids : List B256) : Except (Abort Error) Progress :=
  uids.foldlM (importOne H schemaUid env op) ⟨s, 0, 0, []⟩

def requireProcessed (s : State) (attestation : Attestation) : Except (Abort Error) Unit :=
  if s.attestationsProcessed attestation.uid = false then .error (.error .attestationNotProcessed)
  else .ok ()

/-- Folds each attestation once. -/
def importAttestations : Operation where
  kind := 0
  processed := State.attestationsProcessed
  check _ _ _ := .ok ()
  mark s uid := { s with attestationsProcessed := Function.update s.attestationsProcessed uid true }
  markZeroRecipient s uid :=
    { s with zeroRecipientSkipped := Function.update s.zeroRecipientSkipped uid true }
  timestamp := Attestation.time

/-- Folds each revocation once, after its attestation. -/
def importRevocations : Operation where
  kind := 1
  processed := State.revocationsProcessed
  check _ s attestation := do
    requireProcessed s attestation
    if attestation.revocationTime = 0 then .error (.error .attestationNotRevoked) else .ok ()
  mark s uid := { s with revocationsProcessed := Function.update s.revocationsProcessed uid true }
  markZeroRecipient s _ := s
  timestamp := Attestation.revocationTime

/-- Folds each expiration once, after its attestation. -/
def importExpirations : Operation where
  kind := 1
  processed := State.expirationsProcessed
  check env s attestation := do
    requireProcessed s attestation
    if attestation.expirationTime = 0 then .error (.error .attestationDoesNotExpire)
    else if env.blockTimestamp.toNat < attestation.expirationTime.toNat then
      .error (.error .expirationNotReached)
    else .ok ()
  mark s uid := { s with expirationsProcessed := Function.update s.expirationsProcessed uid true }
  markZeroRecipient s _ := s
  timestamp := Attestation.expirationTime

inductive Call where
  | importAttestations (uids : List B256)
  | importRevocations (uids : List B256)
  | importExpirations (uids : List B256)

def call (H : Hashes) (schemaUid : B256) (env : Env) (s : State) : Call → Except (Abort Error) Progress
  | .importAttestations uids => importAll H schemaUid env importAttestations s uids
  | .importRevocations uids => importAll H schemaUid env importRevocations s uids
  | .importExpirations uids => importAll H schemaUid env importExpirations s uids

/-- A call on the storage and the edges folded so far. -/
def apply (H : Hashes) (schemaUid : B256) (s : State × List RawEdge) (c : Env × Call) : State × List RawEdge :=
  match call H schemaUid c.1 s.1 c.2 with
  | .ok p => (p.state, s.2 ++ p.edges)
  | .error _ => s

/-- The storage and the folded edges after a run from deployment. -/
def run (H : Hashes) (schemaUid : B256) (deployer : Address) (calls : List (Env × Call)) :
    State × List RawEdge :=
  calls.foldl (apply H schemaUid) (constructor deployer, [])

/-! ## What the EAS contract promises -/

/-- The stored records make sense: what ends an attestation comes no earlier than the attestation. -/
structure Sound (getAttestation : B256 → Attestation) : Prop where
  revocation : ∀ uid, (getAttestation uid).uid = uid → (getAttestation uid).revocationTime ≠ 0 →
    (getAttestation uid).time ≤ (getAttestation uid).revocationTime
  expiration : ∀ uid, (getAttestation uid).uid = uid → (getAttestation uid).expirationTime ≠ 0 →
    (getAttestation uid).time < (getAttestation uid).expirationTime

/-- A stored attestation stays and keeps all but its revocation time. -/
def Persists (before after : B256 → Attestation) : Prop :=
  ∀ uid, uid ≠ 0 → (before uid).uid = uid → ∃ revocationTime,
    after uid = { before uid with revocationTime := revocationTime }

/-- The storage of the EAS contract over a run. -/
structure EasHistory (calls : List (Env × Call)) : Prop where
  sound : ∀ c ∈ calls, Sound c.1.getAttestation
  persists : calls.Pairwise fun c d => Persists c.1.getAttestation d.1.getAttestation

/-! ## Complete imports -/

/-- A finite set of records, each named by the uid of its attestation. -/
structure Records where
  attestations : Finset B256
  revocations : Finset B256
  expirations : Finset B256

/-- These records have been handled, and no others. -/
structure Handled (R : Records) (s : State) : Prop where
  attestations : ∀ uid, s.attestationsProcessed uid = true ↔ uid ∈ R.attestations
  revocations : ∀ uid, s.revocationsProcessed uid = true ↔ uid ∈ R.revocations
  expirations : ∀ uid, s.expirationsProcessed uid = true ↔ uid ∈ R.expirations

/-- A complete import of records that `eas` stores in the end. -/
structure CompleteImport (H : Hashes) (schemaUid : B256) (deployer : Address) (eas : B256 → Attestation)
    (R : Records) (calls : List (Env × Call)) : Prop where
  history : EasHistory calls
  persists : ∀ c ∈ calls, Persists c.1.getAttestation eas
  handled : Handled R (run H schemaUid deployer calls).1

end Trustgraphs.OnchainAttestationImporter
