import Trustgraphs.Contracts.Evm
import Trustgraphs.Lib.Run
import Trustgraphs.ZkCore.Words

/-!
# The hooks of the snapshot contract (`contracts/src/merkle/MerkleSnapshot.sol`)

The hooks that are told of a new root. Who holds the constitutional role comes with a call.
-/

namespace Trustgraphs.SnapshotHooks

open Evm Function

inductive Error where
  | accessControlUnauthorizedAccount (account : Address)
  | zeroAddress
  | hookAlreadyAdded
  | hookNotAdded
deriving DecidableEq

/-- The hooks in slots, as the contract stores them. -/
structure State where
  hooks : ℕ → Address
  hookIndex : Address → ℕ
  /-- One past the last hook. Index 0 stands for no hook. -/
  nextHookIndex : UInt64

def constructor : State := ⟨fun _ => 0, fun _ => 0, 1⟩

structure Caller where
  sender : Address
  isConstitutional : Address → Bool

/-- The check of the modifier `onlyRole`. -/
def onlyRole (m : Caller) : Result Error Unit :=
  if m.isConstitutional m.sender = false then .error (.error (.accessControlUnauthorizedAccount m.sender))
  else .ok ()

/-- Adds a hook, at most once. -/
def addHook (m : Caller) (s : State) (hook : Address) : Result Error State := do
  onlyRole m
  if hook = 0 then .error (.error .zeroAddress)
  else if s.hookIndex hook ≠ 0 then .error (.error .hookAlreadyAdded)
  else
    let next ← arith (Checked.add64 s.nextHookIndex 1)
    .ok {
      hooks := update s.hooks s.nextHookIndex.toNat hook
      hookIndex := update s.hookIndex hook s.nextHookIndex.toNat
      nextHookIndex := next }

/-- The last hook moves to the index of the one removed. -/
def removeHook (m : Caller) (s : State) (hook : Address) : Result Error State := do
  onlyRole m
  let removedIndex := s.hookIndex hook
  if removedIndex = 0 then .error (.error .hookNotAdded)
  else
    let last ← arith (Checked.sub64 s.nextHookIndex 1)
    let lastIndex := last.toNat
    let movedHook := s.hooks lastIndex
    let hooks := if removedIndex = lastIndex then s.hooks
      else update s.hooks removedIndex movedHook
    let hookIndex := if removedIndex = lastIndex then s.hookIndex
      else update s.hookIndex movedHook removedIndex
    .ok {
      hooks := update hooks lastIndex 0
      hookIndex := update hookIndex hook 0
      nextHookIndex := last }

/-- The hooks, slot after slot. -/
def getHooks (s : State) : Result Error (List Address) := do
  let hookCount ← arith (Checked.sub64 s.nextHookIndex 1)
  .ok ((List.range hookCount.toNat).map fun i => s.hooks (i + 1))

inductive Call where
  | addHook (hook : Address)
  | removeHook (hook : Address)

/-- The effect of a call, `none` when it reverts. -/
def call (i : Caller × Call) (s : State) : Option State :=
  match i.2 with
  | .addHook hook => (addHook i.1 s hook).toOption
  | .removeHook hook => (removeHook i.1 s hook).toOption

/-- What a call that is accepted does to a set of hooks. -/
def Call.apply (S : Finset Address) : Call → Finset Address
  | .addHook hook => insert hook S
  | .removeHook hook => S.erase hook

/-- The contract after a sequence of calls, and the hooks added and not removed since. -/
def run (calls : List (Caller × Call)) : State × Finset Address :=
  Run.run (fun i s => (call i s.1).map fun s' => (s', i.2.apply s.2)) (constructor, ∅) calls

end Trustgraphs.SnapshotHooks
