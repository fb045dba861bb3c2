import Trustgraphs.ZkCore.Words

/-!
# The subnetwork registry (`contracts/src/registry/SubnetworkRegistry.sol`)

A function of the contract takes the state to the next one, or to the error it reverts with. Heights
are at most `MAXIMUM_DEPTH` and are natural numbers here; the child counts are checked words. The loop
over the ancestors runs on gas, one unit a round.
-/

/-!
## The authority of an instance

How the contracts that link instances resolve who may speak for one (`_authorityOf`): through the
instance registry to the params controller, and through `owner()` of that controller where it has one.
-/

namespace Trustgraphs

/-- What a call reads of the instance registry and of the controllers. -/
structure Instances where
  isRegistered : B256 → Bool
  paramsAuthority : B256 → Address
  /-- The bytes that a static call of `owner()` returns, when it succeeds. -/
  owner : Address → Option Bytes

/-- `abi.decode` of one address from a word. -/
def decodeAddress (word : Bytes) : Option Address :=
  if word.take 12 = List.replicate 12 0 then FixedBytes.ofSlice 20 (word.drop 12) else none

/-- The authority of an instance, with the caller's errors for an unknown instance, a missing
controller and an answer that is no address. -/
def resolveAuthority {E : Type} (unknownInstance missingAuthority : B256 → E) (malformed : E)
    (w : Instances) (instanceId : B256) : Except E Address :=
  if w.isRegistered instanceId = false then .error (unknownInstance instanceId)
  else
    let controller := w.paramsAuthority instanceId
    if controller = 0 then .error (missingAuthority instanceId)
    else match w.owner controller with
      | none => .ok controller
      | some returned =>
        if returned.length = 32 then
          match decodeAddress returned with
          | none => .error malformed
          | some owner => .ok (if owner ≠ 0 then owner else controller)
        else .ok controller

end Trustgraphs

/-! ## The registry -/

namespace Trustgraphs.SubnetworkRegistry

open Function

/-- A child may have at most sixteen accepted ancestors. -/
def MAXIMUM_DEPTH : Nat := 16

/-- The storage of the contract, apart from the roles. The zero id stands for no parent. -/
structure State where
  parentOf : B256 → B256
  pendingParentOf : B256 → B256
  /-- Longest accepted descendant path, measured in edges. -/
  subtreeHeight : B256 → Nat
  /-- The number of direct children of each height. -/
  childHeightCounts : B256 → Nat → U256

/-- What a call sees: its sender, the instances, who has the registrar role, and the gas. -/
structure Env where
  msgSender : Address
  instances : Instances
  hasRegistrarRole : Address → Bool
  gas : Nat

/-- The errors of the contract, those of its checked arithmetic and of its gas. -/
inductive Error where
  | zeroAddress
  | unknownInstance (instanceId : B256)
  | missingAuthority (instanceId : B256)
  | malformedOwner
  | unauthorized (instanceId : B256) (caller expectedAuthority : Address)
  | notClaimParticipant (childInstanceId : B256) (caller childAuthority parentAuthority : Address)
  | selfParent (instanceId : B256)
  | parentAlreadySet (childInstanceId parentInstanceId : B256)
  | pendingClaimExists (childInstanceId parentInstanceId : B256)
  | noPendingClaim (childInstanceId : B256)
  | noParent (childInstanceId : B256)
  | cycleDetected (childInstanceId parentInstanceId : B256)
  | maximumDepthExceeded (childInstanceId parentInstanceId : B256) (maximumDepth : Nat)
  | missingRole (account : Address)
  | underflow
  | overflow
  | outOfGas
deriving DecidableEq

def constructor (instanceRegistry_ admin : Address) : Except Error State :=
  if instanceRegistry_ = 0 ∨ admin = 0 then .error .zeroAddress
  else .ok ⟨fun _ => 0, fun _ => 0, fun _ => 0, fun _ _ => 0⟩

/-- The authority of an instance, resolved on every write. -/
def authorityOf (env : Env) (instanceId : B256) : Except Error Address :=
  resolveAuthority .unknownInstance .missingAuthority .malformedOwner env.instances instanceId

/-- The child has no parent and no pending claim. -/
def requireAvailableChild (s : State) (childInstanceId : B256) : Except Error Unit :=
  if s.parentOf childInstanceId ≠ 0 then
    .error (.parentAlreadySet childInstanceId (s.parentOf childInstanceId))
  else if s.pendingParentOf childInstanceId ≠ 0 then
    .error (.pendingClaimExists childInstanceId (s.pendingParentOf childInstanceId))
  else .ok ()

/-- The loop of `validateHierarchy`, with `rounds` rounds to go. -/
def checkAncestors (s : State) (childInstanceId parentInstanceId : B256) :
    (rounds depth : Nat) → (ancestor : B256) → Except Error Unit
  | 0, _, _ => .error (.maximumDepthExceeded childInstanceId parentInstanceId MAXIMUM_DEPTH)
  | rounds + 1, depth, ancestor =>
    if ancestor = childInstanceId then .error (.cycleDetected childInstanceId parentInstanceId)
    else if s.subtreeHeight childInstanceId + depth + 1 > MAXIMUM_DEPTH then
      .error (.maximumDepthExceeded childInstanceId parentInstanceId MAXIMUM_DEPTH)
    else if s.parentOf ancestor = 0 then .ok ()
    else checkAncestors s childInstanceId parentInstanceId rounds (depth + 1) (s.parentOf ancestor)

/-- Bound the deepest existing descendant after the proposed link. -/
def validateHierarchy (s : State) (childInstanceId parentInstanceId : B256) : Except Error Unit :=
  checkAncestors s childInstanceId parentInstanceId MAXIMUM_DEPTH 0 parentInstanceId

/-- The largest height below the given one that has a child, plus one. -/
def tallest (counts : Nat → U256) : Nat → Nat
  | 0 => 0
  | height + 1 => if counts height ≠ 0 then height + 1 else tallest counts height

/-- One child less of a height, which panics at zero. -/
def decrement (s : State) (ancestor : B256) (height : Nat) : Except Error State :=
  match Checked.sub (s.childHeightCounts ancestor height) 1 with
  | none => .error .underflow
  | some count =>
    let counts := update (s.childHeightCounts ancestor) height count
    .ok { s with childHeightCounts := update s.childHeightCounts ancestor counts }

/-- One child more of a height. -/
def increment (s : State) (ancestor : B256) (height : Nat) : Except Error State :=
  match Checked.add (s.childHeightCounts ancestor height) 1 with
  | none => .error .overflow
  | some count =>
    let counts := update (s.childHeightCounts ancestor) height count
    .ok { s with childHeightCounts := update s.childHeightCounts ancestor counts }

/-- Propagate the insertion or removal of a child through the ancestors whose height changes. -/
def updateAncestorHeights (s : State) :
    (gas : Nat) → (ancestor : B256) → (oldChildHeight newChildHeight : Nat) → (remove add : Bool) →
    Except Error State
  | 0, ancestor, _, _, _, _ => if ancestor = 0 then .ok s else .error .outOfGas
  | gas + 1, ancestor, oldChildHeight, newChildHeight, remove, add =>
    if ancestor = 0 then .ok s
    else do
      let s ← (if remove then decrement s ancestor oldChildHeight else .ok s)
      let s ← (if add then increment s ancestor newChildHeight else .ok s)
      let oldHeight := s.subtreeHeight ancestor
      let newHeight := tallest (s.childHeightCounts ancestor) MAXIMUM_DEPTH
      if newHeight = oldHeight then .ok s
      else
        let s := { s with subtreeHeight := update s.subtreeHeight ancestor newHeight }
        updateAncestorHeights s gas (s.parentOf ancestor) oldHeight newHeight true true

/-- The child's authority names a parent. -/
def claimParent (env : Env) (s : State) (childInstanceId parentInstanceId : B256) : Except Error State := do
  requireAvailableChild s childInstanceId
  if childInstanceId = parentInstanceId then .error (.selfParent childInstanceId)
  else
    let childAuthority ← authorityOf env childInstanceId
    let _ ← authorityOf env parentInstanceId
    if env.msgSender ≠ childAuthority then
      .error (.unauthorized childInstanceId env.msgSender childAuthority)
    else
      validateHierarchy s childInstanceId parentInstanceId
      .ok { s with
        pendingParentOf := update s.pendingParentOf childInstanceId parentInstanceId }

/-- The parent's authority accepts, and the heights above rise. -/
def acceptChild (env : Env) (s : State) (childInstanceId : B256) : Except Error State := do
  let parentInstanceId := s.pendingParentOf childInstanceId
  if parentInstanceId = 0 then .error (.noPendingClaim childInstanceId)
  else
    let parentAuthority ← authorityOf env parentInstanceId
    if env.msgSender ≠ parentAuthority then
      .error (.unauthorized parentInstanceId env.msgSender parentAuthority)
    else if s.parentOf childInstanceId ≠ 0 then
      .error (.parentAlreadySet childInstanceId (s.parentOf childInstanceId))
    else
      let _ ← authorityOf env childInstanceId
      validateHierarchy s childInstanceId parentInstanceId
      let s := { s with
        pendingParentOf := update s.pendingParentOf childInstanceId 0
        parentOf := update s.parentOf childInstanceId parentInstanceId }
      let height := s.subtreeHeight childInstanceId
      updateAncestorHeights s env.gas parentInstanceId height height false true

def cancelParentClaim (env : Env) (s : State) (childInstanceId : B256) : Except Error State := do
  let parentInstanceId := s.pendingParentOf childInstanceId
  if parentInstanceId = 0 then .error (.noPendingClaim childInstanceId)
  else
    let childAuthority ← authorityOf env childInstanceId
    let parentAuthority ← authorityOf env parentInstanceId
    if env.msgSender ≠ childAuthority ∧ env.msgSender ≠ parentAuthority then
      .error (.notClaimParticipant childInstanceId env.msgSender childAuthority parentAuthority)
    else .ok { s with pendingParentOf := update s.pendingParentOf childInstanceId 0 }

/-- Claim and accept at once, for the creation factories. -/
def registerSubnetwork (env : Env) (s : State) (childInstanceId parentInstanceId : B256) :
    Except Error State := do
  if env.hasRegistrarRole env.msgSender = false then .error (.missingRole env.msgSender)
  else
    requireAvailableChild s childInstanceId
    if childInstanceId = parentInstanceId then .error (.selfParent childInstanceId)
    else
      let _ ← authorityOf env childInstanceId
      let _ ← authorityOf env parentInstanceId
      validateHierarchy s childInstanceId parentInstanceId
      let s := { s with parentOf := update s.parentOf childInstanceId parentInstanceId }
      let height := s.subtreeHeight childInstanceId
      updateAncestorHeights s env.gas parentInstanceId height height false true

/-- The parent's authority lets the child go, and the heights above fall. -/
def release (env : Env) (s : State) (childInstanceId : B256) : Except Error State := do
  let parentInstanceId := s.parentOf childInstanceId
  if parentInstanceId = 0 then .error (.noParent childInstanceId)
  else
    let parentAuthority ← authorityOf env parentInstanceId
    if env.msgSender ≠ parentAuthority then
      .error (.unauthorized parentInstanceId env.msgSender parentAuthority)
    else
      let s := { s with parentOf := update s.parentOf childInstanceId 0 }
      let height := s.subtreeHeight childInstanceId
      updateAncestorHeights s env.gas parentInstanceId height height true false

/-! ## Runs -/

/-- The external functions that change the state. -/
inductive Call where
  | claimParent (childInstanceId parentInstanceId : B256)
  | acceptChild (childInstanceId : B256)
  | cancelParentClaim (childInstanceId : B256)
  | registerSubnetwork (childInstanceId parentInstanceId : B256)
  | release (childInstanceId : B256)

def call (env : Env) (s : State) : Call → Except Error State
  | .claimParent child parent => claimParent env s child parent
  | .acceptChild child => acceptChild env s child
  | .cancelParentClaim child => cancelParentClaim env s child
  | .registerSubnetwork child parent => registerSubnetwork env s child parent
  | .release child => release env s child

/-- The state after a call, the old one when it reverts. -/
def apply (s : State) (c : Env × Call) : State :=
  match call c.1 s c.2 with
  | .ok s' => s'
  | .error _ => s

/-- The registry over any calls. -/
def run (s : State) (calls : List (Env × Call)) : State := calls.foldl apply s

end Trustgraphs.SubnetworkRegistry
