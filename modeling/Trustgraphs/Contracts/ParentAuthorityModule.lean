import Trustgraphs.Contracts.SafeAction
import Trustgraphs.Contracts.SubnetworkRegistry
import Trustgraphs.Lib.CallStack
import Trustgraphs.Lib.Timelock

/-!
# The parent authority module (`contracts/src/zodiac/ParentAuthorityModule.sol`)

As in the recovery module, the two executing functions are the part up to the call of the Safe. The
instance registry and the controllers are only read, at construction, and are a parameter there.
-/

namespace Trustgraphs.ParentAuthorityModule

def EXECUTION_WINDOW : U256 := 1209600

/-- The immutables, with the address of the contract itself. -/
structure Config where
  self : Address
  safe : Address
  childInstanceId : B256
  parentInstanceId : B256
  executionDelay : U48

structure State where
  nextNonce : U256
  parentAuthority : Address
  authorityGeneration : U256
  renounced : Bool
  readyAt : B256 → U256

/-- The errors of the contract. An `owner()` that is no address and a checked addition that overflows
revert too. -/
inductive Error where
  | zeroAddress
  | zeroInstanceId
  | sameInstance (instanceId : B256)
  | unknownInstance (instanceId : B256)
  | missingAuthority (instanceId : B256)
  | childAuthorityMismatch (childInstanceId : B256) (resolvedAuthority safe : Address)
  | onlyParentAuthority (caller expectedAuthority : Address)
  | notAuthorizedToCancel (caller parentAuthority childSafe : Address)
  | parentAuthorityRenounced
  | instantExecutionDisabled (executionDelay : U48)
  | schedulingDisabled
  | unknownAction (actionId : B256)
  | executionDelayNotElapsed (actionId : B256) (executableAt : U256)
  | onlyChildSafe (caller : Address)
  | actionExpired (actionId : B256) (expiresAt : U256)
  | malformedOwner
  | panic
deriving DecidableEq

/-- What construction reads of other contracts. -/
structure World where
  /-- The address of the instance registry. -/
  instanceRegistry : Address
  instances : Instances

def add (a b : U256) : Except Error U256 := (Checked.add a b).elim (.error .panic) .ok

/-- The authority of an instance: the owner of its controller, where it has one. -/
def authorityOf (w : World) (instanceId : B256) : Except Error Address :=
  resolveAuthority .unknownInstance .missingAuthority .malformedOwner w.instances instanceId

def constructor (w : World) (self safe_ : Address) (childInstanceId_ parentInstanceId_ : B256)
    (executionDelay_ : U48) : Except Error (Config × State) := do
  if safe_ = 0 ∨ w.instanceRegistry = 0 then .error .zeroAddress
  else if childInstanceId_ = 0 ∨ parentInstanceId_ = 0 then .error .zeroInstanceId
  else if childInstanceId_ = parentInstanceId_ then .error (.sameInstance childInstanceId_)
  else
    let childAuthority ← authorityOf w childInstanceId_
    if childAuthority ≠ safe_ then .error (.childAuthorityMismatch childInstanceId_ childAuthority safe_)
    else
      let parentAuthority ← authorityOf w parentInstanceId_
      .ok (⟨self, safe_, childInstanceId_, parentInstanceId_, executionDelay_⟩,
        ⟨0, parentAuthority, 0, false, fun _ => 0⟩)

/-- The identifier of an action in this generation of the authority. -/
def hashAction (H : Hashes) (c : Config) (msg : Msg) (s : State) (nonce : U256) (a : SafeAction) : B256 :=
  H.keccak256 (actionPreimage H msg.chainId c.self s.authorityGeneration nonce a)

/-- Execute at once, where the delay is zero, up to the call of the Safe. -/
def execute (c : Config) (msg : Msg) (s : State) (a : SafeAction) : Except Error State := do
  if s.renounced then .error .parentAuthorityRenounced
  else if c.executionDelay ≠ 0 then .error (.instantExecutionDisabled c.executionDelay)
  else if msg.sender ≠ s.parentAuthority then .error (.onlyParentAuthority msg.sender s.parentAuthority)
  else if a.target = 0 then .error .zeroAddress
  else
    let nextNonce ← add s.nextNonce 1
    .ok { s with nextNonce := nextNonce }

/-- Queue an exact action of the child Safe, where the delay is not zero. -/
def schedule (H : Hashes) (c : Config) (msg : Msg) (s : State) (a : SafeAction) :
    Except Error (State × B256) := do
  if s.renounced then .error .parentAuthorityRenounced
  else if c.executionDelay = 0 then .error .schedulingDisabled
  else if msg.sender ≠ s.parentAuthority then .error (.onlyParentAuthority msg.sender s.parentAuthority)
  else if a.target = 0 then .error .zeroAddress
  else
    let nonce := s.nextNonce
    let nextNonce ← add s.nextNonce 1
    let s := { s with nextNonce := nextNonce }
    let actionId := hashAction H c msg s nonce a
    let executableAt ← add msg.blockTimestamp (c.executionDelay.setWidth 256)
    .ok ({ s with readyAt := Function.update s.readyAt actionId executableAt }, actionId)

/-- Execute a queued action once its delay has elapsed, up to the call of the Safe. -/
def executeScheduled (H : Hashes) (c : Config) (msg : Msg) (s : State) (nonce : U256)
    (a : SafeAction) : Except Error State := do
  if s.renounced then .error .parentAuthorityRenounced
  else
    let actionId := hashAction H c msg s nonce a
    let executableAt := s.readyAt actionId
    if executableAt = 0 then .error (.unknownAction actionId)
    else if msg.blockTimestamp < executableAt then .error (.executionDelayNotElapsed actionId executableAt)
    else
      let expiresAt ← add executableAt EXECUTION_WINDOW
      if expiresAt < msg.blockTimestamp then .error (.actionExpired actionId expiresAt)
      else .ok { s with readyAt := Function.update s.readyAt actionId 0 }

/-- The authority or the Safe cancels what is queued. -/
def cancel (c : Config) (msg : Msg) (s : State) (actionId : B256) : Except Error State :=
  let authority := s.parentAuthority
  if msg.sender ≠ authority ∧ msg.sender ≠ c.safe then
    .error (.notAuthorizedToCancel msg.sender authority c.safe)
  else if s.readyAt actionId = 0 then .error (.unknownAction actionId)
  else .ok { s with readyAt := Function.update s.readyAt actionId 0 }

/-- Surrender the power of this module for good. -/
def renounce (msg : Msg) (s : State) : Except Error State :=
  if s.renounced then .error .parentAuthorityRenounced
  else if msg.sender ≠ s.parentAuthority then .error (.onlyParentAuthority msg.sender s.parentAuthority)
  else .ok { s with renounced := true }

/-- Replace the authority and outdate all queued actions. -/
def setParentAuthority (c : Config) (msg : Msg) (s : State) (newAuthority : Address) : Except Error State := do
  if msg.sender ≠ c.safe then .error (.onlyChildSafe msg.sender)
  else if s.renounced then .error .parentAuthorityRenounced
  else if newAuthority = 0 then .error .zeroAddress
  else
    let generation ← add s.authorityGeneration 1
    .ok { s with parentAuthority := newAuthority, authorityGeneration := generation }

/-! ## Runs -/

/-- The external functions that change the state. -/
inductive Call where
  | execute (a : SafeAction)
  | schedule (a : SafeAction)
  | executeScheduled (nonce : U256) (a : SafeAction)
  | cancel (actionId : B256)
  | renounce
  | setParentAuthority (newAuthority : Address)

/-- What an entry of the log is about: a Safe action on a chain. -/
abbrev Log := Timelock.Log Address (U256 × SafeAction) B256

/-- The action as the timelock's books name it. -/
def ticket (msg : Msg) (s : State) (nonce : U256) (a : SafeAction) : Timelock.Ticket (U256 × SafeAction) :=
  ⟨s.authorityGeneration.toNat, nonce.toNat, (msg.chainId, a)⟩

/-- A call on the state and the log of what has happened, `none` when it reverts. The flag says that
the call goes on to call the Safe. -/
def call (H : Hashes) (c : Config) (i : Msg × Call) (s : State × Log) : Option ((State × Log) × Bool) :=
  let (msg, f) := i
  let (s, log) := s
  match f with
  | .execute a => match execute c msg s a with
    | .ok s' => some ((s', log ++ [.executed (ticket msg s s.nextNonce a)
        msg.blockTimestamp.toNat]), true)
    | .error _ => none
  | .schedule a => match schedule H c msg s a with
    | .ok (s', _) => some ((s', log ++ [.scheduled msg.sender (ticket msg s s.nextNonce a)
        msg.blockTimestamp.toNat]), false)
    | .error _ => none
  | .executeScheduled nonce a => match executeScheduled H c msg s nonce a with
    | .ok s' => some ((s', log ++ [.executed (ticket msg s nonce a) msg.blockTimestamp.toNat]), true)
    | .error _ => none
  | .cancel actionId => match cancel c msg s actionId with
    | .ok s' => some ((s', log ++ [.cancelled actionId]), false)
    | .error _ => none
  | .renounce => match renounce msg s with
    | .ok s' => some ((s', log ++ [.renounced]), false)
    | .error _ => none
  | .setParentAuthority newAuthority => match setParentAuthority c msg s newAuthority with
    | .ok s' => some ((s', log ++ [.rotated newAuthority]), false)
    | .error _ => none

abbrev Event := CallStack.Event (Msg × Call) Unit Empty Empty

/-- The module after a sequence of calls, re-entrant ones included. -/
def run (H : Hashes) (c : Config) (s : State) (events : List Event) : CallStack.Configuration (State × Log) Unit :=
  CallStack.run (CallStack.relaying (call H c)) (s, []) events

end Trustgraphs.ParentAuthorityModule
