import Trustgraphs.Contracts.MerkleSnapshot
import Trustgraphs.Lib.Run

/-!
# What the parameter controllers share

`WeightedPriorParamsController.sol` and `TrustComposeParamsController.sol` in `contracts/src/factory`
hold the parameters of one instance. They write the commitment into the snapshot and into the instance
registry, and check both before they do (`assertLiveState`). The ownership of a controller comes from a
library outside the repository; it is any state with an owner and calls that change it.
-/

/-!
## The instance registry (`contracts/src/registry/InstanceRegistry.sol`)

The deployment record of every instance, and the authority that alone may change the parameter
commitment of a record.
-/

namespace Trustgraphs.InstanceRegistry

structure Instance where
  program : B256
  snapshot : Address
  verifier : Address
  registryOrAccumulator : Address
  paramsHash : B256
deriving DecidableEq

/-- The storage of the contract that the functions here use. -/
structure State where
  instances : B256 → Instance
  isRegistered : B256 → Bool
  paramsAuthority : B256 → Address

inductive Error where
  | instanceNotFound (instanceId : B256)
  | notParamsAuthority (instanceId : B256) (caller expected : Address)
  | invalidParamsHash (paramsHash : B256)
deriving DecidableEq

def getInstance (s : State) (instanceId : B256) : Except Error Instance :=
  if s.isRegistered instanceId = false then .error (.instanceNotFound instanceId)
  else .ok (s.instances instanceId)

/-- Replace the parameter commitment of one record. -/
def updateParamsHash (msgSender : Address) (s : State) (instanceId paramsHash : B256) : Except Error State :=
  if s.isRegistered instanceId = false then .error (.instanceNotFound instanceId)
  else if msgSender ≠ s.paramsAuthority instanceId then
    .error (.notParamsAuthority instanceId msgSender (s.paramsAuthority instanceId))
  else if paramsHash = 0 ∨ paramsHash = (s.instances instanceId).paramsHash then
    .error (.invalidParamsHash paramsHash)
  else .ok { s with
    instances := Function.update s.instances instanceId
      { s.instances instanceId with paramsHash := paramsHash } }

end Trustgraphs.InstanceRegistry

/-! ## The writes of a controller -/

namespace Trustgraphs

open MerkleSnapshot

structure Ownership where
  State : Type
  Call : Type
  owner : State → Address
  /-- A call by a sender, `none` when it reverts. -/
  call : Address → Call → State → Option State

namespace ParamsControl

/-- The immutables of a controller, with the address of the contract itself. -/
structure Config where
  self : Address
  instanceId : B256
  snapshot : Address
  registry : Address
  initialPublisher : Address
  activationDelay : U48

/-- A controller among the contracts it works on. -/
structure World (χ σ : Type) where
  controller : χ
  snapshot : State
  registry : InstanceRegistry.State
  /-- The accumulator of the first lane. -/
  lane : σ

inductive LiveStateError where
  | snapshotHashMismatch (expected actual : B256)
  | registryHashMismatch (expected actual : B256)
  | registrySnapshotMismatch (expected actual : Address)
  | controllerNotRegistered (registeredAuthority : Address)
  | registry (e : InstanceRegistry.Error)
deriving DecidableEq

/-- The snapshot and the registry hold the expected commitment, and the registry knows the controller. -/
def assertLiveState (c : Config) (snapshot : State) (registry : InstanceRegistry.State)
    (expectedHash : B256) : Except LiveStateError Unit := do
  let snapshotHash := snapshot.paramsHash
  if snapshotHash ≠ expectedHash then .error (.snapshotHashMismatch expectedHash snapshotHash)
  else do
    let record ← Outcome.withError .registry (InstanceRegistry.getInstance registry c.instanceId)
    if record.snapshot ≠ c.snapshot then .error (.registrySnapshotMismatch c.snapshot record.snapshot)
    else if record.paramsHash ≠ expectedHash then
      .error (.registryHashMismatch expectedHash record.paramsHash)
    else
      let authority := registry.paramsAuthority c.instanceId
      if authority ≠ c.self then .error (.controllerNotRegistered authority)
      else .ok ()

inductive MoveError where
  | snapshot (e : Abort Error)
  | registry (e : InstanceRegistry.Error)
deriving DecidableEq

def moveHash (c : Config) (snapshot : State) (registry : InstanceRegistry.State)
    (newHash : B256) : Except MoveError (State × InstanceRegistry.State) := do
  let snapshot ← Outcome.withError .snapshot (setParamsHash c.self snapshot newHash)
  let registry ← Outcome.withError .registry
    (InstanceRegistry.updateParamsHash c.self registry c.instanceId newHash)
  .ok (snapshot, registry)

def registryHash (c : Config) (registry : InstanceRegistry.State) : B256 :=
  (registry.instances c.instanceId).paramsHash

/-- The instance is registered with the snapshot, its commitment and the controller, and nobody but the
controller may change a commitment. -/
structure Registered {χ σ : Type} (c : Config) (w : World χ σ) : Prop where
  isRegistered : w.registry.isRegistered c.instanceId = true
  snapshot : (w.registry.instances c.instanceId).snapshot = c.snapshot
  paramsHash : registryHash c w.registry = w.snapshot.paramsHash
  authority : w.registry.paramsAuthority c.instanceId = c.self
  onlyController : ∀ a, w.snapshot.hasOperationalRole a = true → a = c.self

end ParamsControl

end Trustgraphs

/-!
# What the parameter controllers may rely on

Nobody but the controller moves the commitment of its instance, and the controller moves both copies at
once.
-/

namespace Trustgraphs.ParamsControl

open MerkleSnapshot Outcome Function

variable {χ σ : Type} {c : Config}

theorem moveHash_eq_ok {snapshot snapshot' : State} {registry registry' : InstanceRegistry.State} {h : B256}
    (hmove : moveHash c snapshot registry h = .ok (snapshot', registry')) :
    snapshot' = { snapshot with paramsHash := h } ∧ registry' = { registry with
        instances := update registry.instances c.instanceId
          { registry.instances c.instanceId with paramsHash := h } } ∧
      h ≠ registryHash c registry := by
  unfold moveHash at hmove
  obtain ⟨s, hs, hmove⟩ := of_bind hmove
  obtain ⟨r, hr, hmove⟩ := of_bind hmove
  obtain ⟨rfl, rfl⟩ := Prod.mk.inj (ok_inj hmove)
  rw [withError_eq_ok] at hs hr
  simp only [setParamsHash, revert, ite_error_eq_ok, Except.ok.injEq] at hs
  simp only [InstanceRegistry.updateParamsHash, ite_error_eq_ok, Except.ok.injEq, not_or] at hr
  obtain ⟨-, -, rfl⟩ := hs
  obtain ⟨-, -, ⟨-, hne⟩, rfl⟩ := hr
  exact ⟨rfl, rfl, hne⟩

theorem Registered.move {w w' : World χ σ} (hreg : Registered c w) {h : B256}
    (hmove : moveHash c w.snapshot w.registry h = .ok (w'.snapshot, w'.registry)) :
    Registered c w' ∧ w'.snapshot.paramsHash = h ∧ registryHash c w'.registry = h ∧
      h ≠ w.snapshot.paramsHash := by
  obtain ⟨hs, hr, hne⟩ := moveHash_eq_ok hmove
  have hrow : w'.registry.instances c.instanceId =
      { w.registry.instances c.instanceId with paramsHash := h } := by
    rw [hr]
    exact update_self ..
  have hhash : registryHash c w'.registry = h := by rw [registryHash, hrow]
  have hsnapshot : w'.snapshot.paramsHash = h := by rw [hs]
  refine ⟨⟨?_, ?_, hhash.trans hsnapshot.symm, ?_, ?_⟩, hsnapshot, hhash, hreg.paramsHash ▸ hne⟩
  · rw [hr]
    exact hreg.isRegistered
  · rw [hrow]
    exact hreg.snapshot
  · rw [hr]
    exact hreg.authority
  · rw [hs]
    exact hreg.onlyController

/-- The registration and the commitments of two worlds are the same. -/
structure SameHashes (c : Config) (w w' : World χ σ) : Prop where
  snapshot : w'.snapshot.paramsHash = w.snapshot.paramsHash
  registry : registryHash c w'.registry = registryHash c w.registry
  registered : Registered c w → Registered c w'

/-- What an accepted trigger does: it pins the commitment and does not change it. -/
structure Triggered (L : Accumulator σ) (address : Address) (env : BlockEnv) (s s' : State)
    (lane lane' : σ) : Prop where
  paramsHash : s'.paramsHash = s.paramsHash
  hasOperationalRole : s'.hasOperationalRole = s.hasOperationalRole
  checkpoint : L.checkpoint { env with sender := address } lane = some (lane', s.nextCheckpointId)
  nextCheckpointId : s'.nextCheckpointId = s.nextCheckpointId + 1
  checkpointParamsHash : s'.checkpointParamsHash = update s.checkpointParamsHash s.nextCheckpointId s.paramsHash

theorem trigger_triggered {L : Accumulator σ} {self : Address} {env : BlockEnv}
    {anchors : AnchorView} {s s' : State} {lane lane' : σ} {id : Nat}
    (h : trigger L self env anchors s lane = .ok (s', lane', id)) :
    Triggered L self env s s' lane lane' := by
  unfold trigger revert at h
  obtain ⟨-, h⟩ := of_guard h
  obtain ⟨boundary, -, h⟩ := of_bind h
  obtain ⟨-, -, h⟩ := of_bind h
  obtain ⟨⟨lane₁, id₁⟩, hcheckpoint, h⟩ := of_bind h
  obtain ⟨hid, h⟩ := of_guard h
  obtain ⟨rfl, hrest⟩ := Prod.mk.inj (ok_inj h)
  obtain ⟨rfl, rfl⟩ := Prod.mk.inj hrest
  obtain rfl : id₁ = s.nextCheckpointId := not_not.mp hid
  refine ⟨rfl, rfl, ?_, rfl, rfl⟩
  cases hc : L.checkpoint { env with sender := self } lane with
  | none =>
    rw [hc] at hcheckpoint
    exact absurd hcheckpoint (by simp [ofAccumulator, revert])
  | some r =>
    rw [hc] at hcheckpoint
    rw [ok_inj hcheckpoint]

theorem setParamsHash_refused {w : World χ σ} (hreg : Registered c w) {a : Address} (ha : a ≠ c.self)
    (h : B256) (s' : State) :
    setParamsHash a w.snapshot h ≠ .ok s' := by
  intro hset
  unfold setParamsHash revert at hset
  obtain ⟨hrole, -⟩ := of_guard hset
  exact ha (hreg.onlyController a (by simpa using hrole))

theorem updateParamsHash_same {w : World χ σ} (hreg : Registered c w) {a : Address}
    (ha : a ≠ c.self) {id h : B256} {registry : InstanceRegistry.State}
    (hset : InstanceRegistry.updateParamsHash a w.registry id h = .ok registry) :
    SameHashes c w { w with registry := registry } := by
  simp only [InstanceRegistry.updateParamsHash, ite_error_eq_ok, Except.ok.injEq, not_not] at hset
  obtain ⟨-, hauthority, -, rfl⟩ := hset
  have hne : c.instanceId ≠ id := by
    rintro rfl
    exact ha (hauthority.trans hreg.authority)
  have hrow : update w.registry.instances id { w.registry.instances id with paramsHash := h }
      c.instanceId = w.registry.instances c.instanceId := update_of_ne hne ..
  have hsnapshot := congrArg InstanceRegistry.Instance.snapshot hrow
  have hhash := congrArg InstanceRegistry.Instance.paramsHash hrow
  exact ⟨rfl, hhash, fun _ => ⟨hreg.isRegistered, hsnapshot.trans hreg.snapshot,
    hhash.trans hreg.paramsHash, hreg.authority, hreg.onlyController⟩⟩

end Trustgraphs.ParamsControl
