import Trustgraphs.Contracts.AccessControl
import Trustgraphs.Contracts.Evm
import Trustgraphs.Lib.Run

/-!
# The roles of the snapshot contract (`contracts/src/merkle/MerkleSnapshot.sol`)

The contract counts the holders of its constitutional role beside the role storage that it inherits, and
hands the role over in two steps. The inherited storage is a parameter, and what is documented of it a
hypothesis.
-/

namespace Trustgraphs.SnapshotRoles

open Evm

def CONSTITUTIONAL_ROLE (H : Hashes) : B256 := H.keccak256 (utf8 "CONSTITUTIONAL_ROLE")

def OPERATIONAL_ROLE (H : Hashes) : B256 := H.keccak256 (utf8 "OPERATIONAL_ROLE")

inductive Error where
  | zeroAddress
  | invalidConstitutionalSuccessor (successor : Address)
  | noPendingConstitutionalTransfer
  | notPendingConstitutionalSuccessor (account pending : Address)
  | constitutionalTransferorLostRole (transferor : Address)
  | lastConstitutionalHolder (account : Address)
  | accessControlUnauthorizedAccount (account : Address) (neededRole : B256)
  | accessControlBadConfirmation
deriving DecidableEq

/-- The storage of the contract that its role operations use. -/
structure State (O : AccessControl) where
  roles : O.Storage
  constitutionalHolderCount : U256
  pendingConstitutionalTransferor : Address
  pendingConstitutionalSuccessor : Address

variable {O : AccessControl} (H : Hashes)

def hasRole (s : State O) (role : B256) (account : Address) : Bool := O.hasRole s.roles role account

/-- The check of the modifier `onlyRole`. -/
def onlyRole (s : State O) (role : B256) (sender : Address) : Result Error Unit :=
  if hasRole s role sender = false then .error (.error (.accessControlUnauthorizedAccount sender role))
  else .ok ()

/-- Drop the pending handoff, if there is one. -/
def _cancelPendingConstitutionalTransfer (s : State O) : State O :=
  if s.pendingConstitutionalTransferor = 0 then s
  else { s with pendingConstitutionalTransferor := 0, pendingConstitutionalSuccessor := 0 }

/-- The override that counts the constitutional holders. -/
def _grantRole (s : State O) (role : B256) (account : Address) : Result Error (State O) :=
  if role = CONSTITUTIONAL_ROLE H ∧ account = 0 then .error (.error .zeroAddress)
  else do
    let (roles, granted) := O.grantRole s.roles role account
    let s := { s with roles := roles }
    if granted = true ∧ role = CONSTITUTIONAL_ROLE H then
      let count ← arith (Checked.add s.constitutionalHolderCount 1)
      .ok { s with constitutionalHolderCount := count }
    else .ok s

/-- The override that never takes the role from its last constitutional holder. -/
def _revokeRole (s : State O) (role : B256) (account : Address) : Result Error (State O) :=
  if role = CONSTITUTIONAL_ROLE H ∧ hasRole s role account = true ∧ s.constitutionalHolderCount = 1 then
    .error (.error (.lastConstitutionalHolder account))
  else do
    let (roles, revoked) := O.revokeRole s.roles role account
    let s := { s with roles := roles }
    if revoked = true ∧ role = CONSTITUTIONAL_ROLE H then
      let count ← minus s.constitutionalHolderCount 1
      let s := { s with constitutionalHolderCount := count }
      if account = s.pendingConstitutionalTransferor then .ok (_cancelPendingConstitutionalTransfer s)
      else .ok s
    else .ok s

/-- The constructor, as far as it sets the roles: the constitutional role administers both. -/
def constructor (constitutionalAdmin operationalAdmin : Address) : Result Error (State O) :=
  if constitutionalAdmin = 0 ∨ operationalAdmin = 0 then .error (.error .zeroAddress)
  else do
    let roles := O.setRoleAdmin O.empty (CONSTITUTIONAL_ROLE H) (CONSTITUTIONAL_ROLE H)
    let roles := O.setRoleAdmin roles (OPERATIONAL_ROLE H) (CONSTITUTIONAL_ROLE H)
    let s : State O := ⟨roles, 0, 0, 0⟩
    let s ← _grantRole H s (CONSTITUTIONAL_ROLE H) constitutionalAdmin
    _grantRole H s (OPERATIONAL_ROLE H) operationalAdmin

/-! ## The external functions -/

/-- Begin a handoff of the caller's constitutional authority. -/
def proposeConstitutionalTransfer (sender : Address) (s : State O) (successor : Address) :
    Result Error (State O) := do
  onlyRole s (CONSTITUTIONAL_ROLE H) sender
  if successor = 0 ∨ successor = sender then .error (.error (.invalidConstitutionalSuccessor successor))
  else
    let s := _cancelPendingConstitutionalTransfer s
    .ok { s with pendingConstitutionalTransferor := sender, pendingConstitutionalSuccessor := successor }

def cancelConstitutionalTransfer (sender : Address) (s : State O) : Result Error (State O) := do
  onlyRole s (CONSTITUTIONAL_ROLE H) sender
  if s.pendingConstitutionalTransferor = 0 then .error (.error .noPendingConstitutionalTransfer)
  else .ok (_cancelPendingConstitutionalTransfer s)

/-- Accept the pending handoff: grant the successor, then remove the proposing holder. -/
def acceptConstitutionalTransfer (sender : Address) (s : State O) : Result Error (State O) :=
  let successor := s.pendingConstitutionalSuccessor
  if sender ≠ successor then .error (.error (.notPendingConstitutionalSuccessor sender successor))
  else
    let transferor := s.pendingConstitutionalTransferor
    if hasRole s (CONSTITUTIONAL_ROLE H) transferor = false then
      .error (.error (.constitutionalTransferorLostRole transferor))
    else do
      let s := { s with pendingConstitutionalTransferor := 0, pendingConstitutionalSuccessor := 0 }
      let s ← _grantRole H s (CONSTITUTIONAL_ROLE H) successor
      _revokeRole H s (CONSTITUTIONAL_ROLE H) transferor

/-- Inherited, for the holders of the role that administers `role`. -/
def grantRole (sender : Address) (s : State O) (role : B256) (account : Address) : Result Error (State O) := do
  onlyRole s (O.getRoleAdmin s.roles role) sender
  _grantRole H s role account

/-- Inherited, for the holders of the role that administers `role`. -/
def revokeRole (sender : Address) (s : State O) (role : B256) (account : Address) : Result Error (State O) := do
  onlyRole s (O.getRoleAdmin s.roles role) sender
  _revokeRole H s role account

/-- Inherited, for the holder of the role. -/
def renounceRole (sender : Address) (s : State O) (role : B256) (callerConfirmation : Address) :
    Result Error (State O) :=
  if callerConfirmation ≠ sender then .error (.error .accessControlBadConfirmation)
  else _revokeRole H s role callerConfirmation

/-! ## Runs -/

inductive Call where
  | proposeConstitutionalTransfer (successor : Address)
  | cancelConstitutionalTransfer
  | acceptConstitutionalTransfer
  | grantRole (role : B256) (account : Address)
  | revokeRole (role : B256) (account : Address)
  | renounceRole (role : B256) (callerConfirmation : Address)

def call (sender : Address) (s : State O) : Call → Result Error (State O)
  | .proposeConstitutionalTransfer successor => proposeConstitutionalTransfer H sender s successor
  | .cancelConstitutionalTransfer => cancelConstitutionalTransfer H sender s
  | .acceptConstitutionalTransfer => acceptConstitutionalTransfer H sender s
  | .grantRole role account => grantRole H sender s role account
  | .revokeRole role account => revokeRole H sender s role account
  | .renounceRole role callerConfirmation => renounceRole H sender s role callerConfirmation

/-- The state after calls by their senders. One that reverts leaves it as it is. -/
def run (s : State O) (calls : List (Address × Call)) : State O :=
  Run.run (fun c s => (call H c.1 s c.2).toOption) s calls

end Trustgraphs.SnapshotRoles
