import Trustgraphs.CompositionCore.Proofs.ConservationProofs
import Trustgraphs.Contracts.Proofs.TrustComposeParamsControllerProofs
import Trustgraphs.Contracts.Proofs.WeightedPriorParamsControllerProofs

/-!
# Delayed rotations

The two controllers over every run after the publication of the first version.
-/

namespace Trustgraphs

open ParamsControl Outcome TrustComposeValidator WeightedPriorValidator

/-- Over every run of calls after the publication of the first version, the copies of the commitment move
together, by a proposal that waited for its delay, and the captures of a composition name the policy
behind the commitment that is pinned for them. -/
theorem rotation_moves_every_copy (H : Hashes) (O : Ownership) :
    (∀ (σ : Type) (L : Accumulator σ) (c : ParamsControl.Config)
      (w : World (WeightedPriorParamsController.State O) σ) (msg : Msg)
      (s : WeightedPriorParamsController.State O)
      (calls : List (BlockEnv × WeightedPriorParamsController.Call O σ)),
      WeightedPriorParamsController.Deployed H c w →
      WeightedPriorParamsController.publishInitialVersion c msg w.controller = .ok s →
      (∀ i ∈ calls, i.1.blockTimestamp.toNat < 2 ^ 48) →
      WeightedPriorParamsController.Rotation H c L { w with controller := s } calls) ∧
    (∀ (c : TrustComposeParamsController.Config) (w w' : TrustComposeParamsController.World O)
      (msg : Msg) (sources : CompositionSourceAccumulator.Sources)
      (manifest : CalldataBytes) (adapters : List Address)
      (calls : List (TrustComposeParamsController.Input O)),
      TrustComposeParamsController.Deployed H c w →
      TrustComposeParamsController.publishInitialPolicy H c msg sources w manifest adapters = .ok w' →
      (∀ i ∈ calls, i.1.1.blockTimestamp.toNat < 2 ^ 48) →
      TrustComposeParamsController.Rotation H c w' calls) := by
  refine ⟨?_, ?_⟩
  · intro σ L c w msg s calls hdeployed hpublish htime
    obtain ⟨hinv, hidle⟩ := WeightedPriorParamsController.inv_published hdeployed hpublish
    exact WeightedPriorParamsController.rotation_of_inv hinv hidle htime
  · intro c w w' msg sources manifest adapters calls hdeployed hpublish htime
    obtain ⟨hinv, hidle⟩ := TrustComposeParamsController.inv_published hdeployed hpublish
    exact TrustComposeParamsController.rotation_of_inv hinv hidle htime

namespace RotationExample

def addr (n : Nat) : Address := .ofNat 20 n

def word (n : Nat) : B256 := .ofNat 32 n

def ownership : Ownership where
  State := Address
  Call := Address
  owner := id
  call sender next owner := if sender = owner then some next else none

def msg (sender : Address) (time : Nat) : Msg := ⟨sender, BitVec.ofNat 256 time, 10⟩

def env (sender : Address) (time : Nat) : BlockEnv := { msg sender time with blockNumber := 20 }

def snapshot (paramsHash : B256) : MerkleSnapshot.State where
  zkVerifier := addr 0x50
  anchorRegistry := 0
  paramsHash := paramsHash
  checkpointParamsHash := fun _ => 0
  checkpointVerifier := fun _ => 0
  nextCheckpointId := 0
  anchorCheckpoints := fun _ => ⟨0, 0⟩
  checkpointWorkCount := fun _ => 0
  epochLength := 0
  epochOriginBlock := 0
  lastTriggerBlock := 0
  hasOperationalRole a := a == addr 0x61

def registry (paramsHash : B256) : InstanceRegistry.State where
  instances _ := ⟨word 0x70, addr 0x62, addr 0x50, addr 0x0b, paramsHash⟩
  isRegistered _ := true
  paramsAuthority _ := addr 0x61

def config : ParamsControl.Config where
  self := addr 0x61
  instanceId := word 0x77
  snapshot := addr 0x62
  registry := addr 0x63
  initialPublisher := addr 0x64
  activationDelay := 100

theorem registered {χ σ : Type} (controller : χ) (lane : σ) (h : B256) :
    Registered config ⟨controller, snapshot h, registry h, lane⟩ :=
  ⟨rfl, rfl, rfl, rfl, fun _ ha => beq_iff_eq.mp ha⟩

namespace Weighted

open WeightedPriorParamsController

def manifest1 : Bytes :=
  utf8 "TGWP" ++ beBytes 2 1 ++ beBytes 8 10 ++ beBytes 4 1 ++ (addr 1).bytes ++
    beBytes 8 1000000000000000000

def manifest2 : Bytes :=
  utf8 "TGWP" ++ beBytes 2 1 ++ beBytes 8 10 ++ beBytes 4 2 ++ (addr 1).bytes ++
    beBytes 8 400000000000000000 ++ (addr 2).bytes ++ beBytes 8 600000000000000000

def params1 : WeightedPrior.Params where
  version := 1
  dampingFp := 850000000000000000
  toleranceFp := 1000000000000
  maxIterations := 1
  minWeight := 0
  maxWeight := 100
  priorRoot := .ofNat 32 0x1cb7e8516177868953824610e348cb1d026e4745bcbf0d0a5770cac067b02243
  priorCount := 1
  manifestSha256 := .ofNat 32 0x08893e5abf5c29511dc274ee0bd37990a921d183104bd012f4db83f293843090
  schemaUid := 0
  weightFieldIndex := 1
  accumulator := addr 0x0a
  chainId := 10

def params2 : WeightedPrior.Params := { params1 with
  priorRoot := .ofNat 32 0xbab15cecaaec18dc81e353ca4b82769d4c22fd6a89491711b9fabf3f8ac61d91
  priorCount := 2
  manifestSha256 := .ofNat 32 0xdf31cce73c7a894d335d2bc075b8460671b8b10027c1a9bcb0ba784343935c7a }

def leaf1 : B256 := .ofNat 32 0xe291aeca2e5daa157f01b18a4b6d92a00ab2b9a4652e47b19dca554596bc2786

def leaf2 : B256 := .ofNat 32 0x1dc44573afc0d96a542de03a9d399fdc92ea8ab506ffd33d077a0fb29e0f4a15

def hashes : Hashes where
  keccak256 s := (([(wordU256 1 ++ wordU256 1000000000000000000, params1.priorRoot),
    (wordU256 1 ++ wordU256 400000000000000000, leaf1),
    (wordU256 2 ++ wordU256 600000000000000000, leaf2),
    (leaf2.bytes ++ leaf1.bytes, params2.priorRoot),
    (WeightedPrior.paramsEncoded params1, .ofNat 32 0xc375791a95ee7da6474fdd83fcb5d028d35922fc2609984444f93225102caf3b),
    (WeightedPrior.paramsEncoded params2, .ofNat 32 0xb4192ef6ef424f04b287ebbff1e3448d360195e3465a70626506dca73fd9cc90),
    ((word 0x77).bytes ++ wordU64 2 ++ params2.priorRoot.bytes ++ wordU32 2 ++
      params2.manifestSha256.bytes ++ (word 0x5d).bytes, .ofNat 32 0xd74b902b72807a59c1f7cba3db860b4960b55b54c5570bebfda2f8feced9cf3c)].find?
        fun e => e.1 == s).map Prod.snd).getD 0
  sha256 s :=
    if s = manifest1 then params1.manifestSha256
    else if s = manifest2 then params2.manifestSha256
    else 0

def live : B256 := .ofNat 32 0xc375791a95ee7da6474fdd83fcb5d028d35922fc2609984444f93225102caf3b

def memory : MemoryBytes := ⟨wordU256 46 ++ manifest1, 0, by decide +kernel⟩

def controller : State ownership where
  ownership := addr 5
  version := 1
  latestVersion := 1
  currentParamsHash := live
  versionOnePublished := false
  initialParams := params1
  currentParams := params1
  pending := 0
  versionCommitments := Function.update 0 1
    ⟨live, params1.priorRoot, 1, params1.manifestSha256, word 0x5c, 7, 7⟩

def world (s : State ownership) : World (State ownership) Unit := ⟨s, snapshot live, registry live, ()⟩

def lane : Accumulator Unit := ⟨fun _ _ => none, fun _ => 0, fun _ => [], fun _ _ => none⟩

theorem manifest_accepted : (validateManifestMemory hashes memory params1.chainId =
        .ok ⟨params1.priorRoot, 1, params1.manifestSha256, 10⟩ ∧
      validateComputationalEnvelope params1 = .ok ()) ∧
      WeightedPriorParamsCodec.hash hashes params1 = live := by
  decide +kernel

theorem deployed : Deployed hashes config (world controller) := by
  obtain ⟨⟨hprior, henvelope⟩, hhash⟩ := manifest_accepted
  refine ⟨⟨msg (addr 9) 7, params1, memory, word 0x5c, addr 5, ?_⟩, registered _ _ _⟩
  unfold constructor
  refine ite_error_eq_ok.mpr ⟨by decide, ?_⟩
  refine ite_error_eq_ok.mpr ⟨by decide, ?_⟩
  refine bind_eq_ok.mpr ⟨(), withError_eq_ok.mpr henvelope, ?_⟩
  refine bind_eq_ok.mpr ⟨_, withError_eq_ok.mpr hprior, ?_⟩
  refine ite_error_eq_ok.mpr ⟨by decide, ?_⟩
  dsimp only
  rw [hhash]
  exact ite_error_eq_ok.mpr ⟨not_not.mpr rfl, rfl⟩

def published : State ownership := { controller with versionOnePublished := true }

theorem publishes : publishInitialVersion config (msg (addr 0x64) 8) controller = .ok published :=
  ite_error_eq_ok.mpr ⟨by decide, ite_error_eq_ok.mpr ⟨by decide, rfl⟩⟩

def calls : List (BlockEnv × Call ownership Unit) :=
  [(env (addr 5) 1000, .proposePrior ⟨manifest2, 0, 74, by decide⟩ (word 0x5d)),
    (env (addr 9) 1100, .activatePrior 2)]

theorem rotates : (∀ i ∈ calls, i.1.blockTimestamp.toNat < 2 ^ 48) ∧
    (run hashes config lane (world published) calls).controller.version = 2 := by
  decide +kernel

end Weighted

namespace Composition

open TrustComposeParamsController
open Composition.CompositionExample (names name params policyLeaves)

def record1 (weight : UInt64) : Record :=
  ⟨word 1, addr 0x21, word 0x31, name "trust-graph", name "trustgraphs.output.trust-graph-account.v1",
    weight, 50, 1⟩

def record2 (weight : UInt64) : Record :=
  ⟨word 2, addr 0x22, word 0x32, name "trust-graph-weighted",
    name "trustgraphs.output.weighted-trust-graph-account.v1", weight, 50, 1⟩

def manifest (r s : Record) : Bytes :=
  utf8 "TGCP" ++ beBytes 2 1 ++ beBytes 8 10 ++ [2] ++ [r, s].flatMap fun r =>
    r.sourceId.bytes ++ r.snapshot.bytes ++ r.familyId.bytes ++ r.programId.bytes ++
      r.sourceOutputDomain.bytes ++ beBytes 8 r.weight.toNat ++ beBytes 8 r.maxAgeBlocks.toNat ++
      [r.required]

def manifest1 : Bytes := manifest (record1 400000000000000000) (record2 600000000000000000)

def manifest2 : Bytes := manifest (record1 500000000000000000) (record2 500000000000000000)

def params2 : TrustComposeParamsCodec.Params := { params with
  sourcePolicyRoot := .ofNat 32 0x3a4b17ae072e0f728a8be3278c2409d37aea472b0833e789089ca33c895d4231
  policyManifestSha256 := .ofNat 32 0x15ade0c8241187e3ac5629eebba8c0d0aeea8ba94cf8d021ca33295448ca5d37 }

def live : B256 := .ofNat 32 0x286555719f033567a8af6be2a9e52a7be6e2728ab1a113702857a7597675865f

def next : B256 := .ofNat 32 0x6dd3f765f645570cf95abee5d79d5ec4ea47944aa8099b71c0f7367dd47a4de7

def adapters : List Address := [addr 0x41, addr 0x42]

def adapterSetHash : B256 := .ofNat 32 0xaca661e521c4628a44fd9df5152c230d4cad66ac9225e9651e027eead4e12e23

def leaves : List B256 := policyLeaves ++
  [.ofNat 32 0x9204df166f9060699b8ef605000d420f6fe7f275e54c3569de425b670032311d,
    .ofNat 32 0x5f9c19a8f2d91f23119eb794116e4848786115916e629ba2962f8f28aaf06ee1]

def strings : List (Bytes × B256) :=
  [record1 400000000000000000, record2 600000000000000000, record1 500000000000000000,
      record2 500000000000000000].map leafPreimage |>.zip leaves |>.append
    [((leaves.getD 1 0).bytes ++ (leaves.getD 0 0).bytes, params.sourcePolicyRoot),
      ((leaves.getD 3 0).bytes ++ (leaves.getD 2 0).bytes, params2.sourcePolicyRoot),
      (Composition.paramsEncoded params, live), (Composition.paramsEncoded params2, next),
      (wordU256 32 ++ wordU256 2 ++ wordAddr (addr 0x41) ++ wordAddr (addr 0x42), adapterSetHash),
      ((word 0x77).bytes ++ wordU64 2 ++ params2.sourcePolicyRoot.bytes ++ wordU8 2 ++
        params2.policyManifestSha256.bytes ++ adapterSetHash.bytes ++ (word 0x5d).bytes ++ next.bytes,
        .ofNat 32 0xc4d4c2f469a4cee64a11f8fb707a65dda3eab70cd9a3d8803e4b84ea05ffad4d)]

def hashes : Hashes where
  keccak256 s := (((names ++ strings).find? fun e => e.1 == s).map Prod.snd).getD 0
  sha256 s :=
    if s = manifest1 then params.policyManifestSha256
    else if s = manifest2 then params2.policyManifestSha256
    else 0

def adapter (r : Record) : CompositionSourceAccumulator.Adapter :=
  ⟨r.sourceId, r.snapshot, r.familyId, r.programId, name "allocation", 10, word 0x99⟩

def config : TrustComposeParamsController.Config := { RotationExample.config with
  accumulator := addr 0x0b
  sources := ⟨fun a => if a = addr 0x41 then adapter (record1 0) else adapter (record2 0), addr 8⟩ }

def sources : CompositionSourceAccumulator.Sources where
  isAdapter a := a ∈ adapters
  readLatest _ := some ⟨0, 10, word 0x81, word 0x82, word 0x83, 1000, 0, 11⟩

def memory : MemoryBytes := ⟨wordU256 345 ++ manifest1, 0, by decide +kernel⟩

def controller : State ownership where
  ownership := addr 5
  version := 1
  latestVersion := 1
  currentParamsHash := live
  currentAdapterSetHash := adapterSetHash
  versionOnePublished := false
  initialParams := params
  currentParams := params
  pending := 0
  versionCommitments := Function.update 0 1
    ⟨live, params.sourcePolicyRoot, 2, params.policyManifestSha256, adapterSetHash, word 0x5c, 7, 7, 0,
      .activated⟩

def lane : CompositionSourceAccumulator.State :=
  { CompositionSourceAccumulator.constructor with snapshot := addr 0x62, controller := addr 0x61 }

def world : World ownership := ⟨controller, snapshot live, registry live, lane⟩

def published : World ownership :=
  (publishInitialPolicy hashes config (msg (addr 0x64) 8) sources world
    ⟨manifest1, 0, 345, by decide +kernel⟩ adapters).toOption.getD world

def calls : List (Input ownership) :=
  [((env (addr 9) 900, sources), .trigger ⟨0, 0, none⟩), ((env (addr 5) 1000, sources),
      .proposePolicy ⟨manifest2, 0, 345, by decide +kernel⟩ adapters (word 0x5d)),
    ((env (addr 9) 1100, sources), .activatePolicy 2 ⟨manifest2, 0, 345, by decide +kernel⟩ adapters),
    ((env (addr 9) 1200, sources), .trigger ⟨0, 0, none⟩)]

theorem manifest_accepted : (validatePolicyManifestMemory hashes memory params.chainId
        params.maxSourceAgeBlocks =
        .ok ⟨params.sourcePolicyRoot, 2, params.policyManifestSha256, 10⟩ ∧
      CompositionSourceAccumulator.validatePolicy hashes config.sources (msg (addr 9) 7) sources
        (sentBytes memory) adapters =
        .ok ⟨params.sourcePolicyRoot, 2, params.policyManifestSha256, 10⟩) ∧
    (validateComputationalEnvelope hashes params = .ok () ∧
      CompositionSourceAccumulator.hashAdapters hashes adapters = adapterSetHash ∧
      TrustComposeParamsCodec.hash hashes params = live) ∧
    (publishInitialPolicy hashes config (msg (addr 0x64) 8) sources world
      ⟨manifest1, 0, 345, by decide +kernel⟩ adapters).toOption.isSome = true ∧
    (∀ i ∈ calls, i.1.1.blockTimestamp.toNat < 2 ^ 48) ∧
    (run hashes config published calls).controller.version = 2 ∧
    (run hashes config published calls).snapshot.nextCheckpointId = 2 := by
  decide +kernel

theorem deployed : Deployed hashes config world := by
  obtain ⟨⟨hpolicy, hadapters⟩, ⟨henvelope, hset, hhash⟩, -⟩ := manifest_accepted
  refine ⟨⟨msg (addr 9) 7, sources, params, memory, adapters, word 0x5c, addr 5, ?_⟩, registered _ _ _, rfl⟩
  unfold constructor
  refine ite_error_eq_ok.mpr ⟨by decide, ?_⟩
  refine ite_error_eq_ok.mpr ⟨by decide, ?_⟩
  refine bind_eq_ok.mpr ⟨(), withError_eq_ok.mpr henvelope, ?_⟩
  refine bind_eq_ok.mpr ⟨_, withError_eq_ok.mpr hpolicy, ?_⟩
  refine ite_error_eq_ok.mpr ⟨by decide +kernel, ?_⟩
  refine bind_eq_ok.mpr ⟨_, withError_eq_ok.mpr hadapters, ?_⟩
  dsimp only
  rw [hhash, hset]
  exact ite_error_eq_ok.mpr ⟨not_not.mpr rfl, rfl⟩

theorem publishes : publishInitialPolicy hashes config (msg (addr 0x64) 8) sources world
    ⟨manifest1, 0, 345, by decide +kernel⟩ adapters = .ok published := by
  obtain ⟨w, hw⟩ := Option.isSome_iff_exists.mp manifest_accepted.2.2.1
  rw [published, hw]
  exact toOption_eq_some.mp hw

end Composition

end RotationExample

open RotationExample in
/-- A weighted instance and a composition that each rotate once. -/
theorem rotation_moves_every_copy_once :
    (WeightedPriorParamsController.Rotation Weighted.hashes config Weighted.lane
        (Weighted.world Weighted.published) Weighted.calls ∧
      (WeightedPriorParamsController.run Weighted.hashes config Weighted.lane
        (Weighted.world Weighted.published) Weighted.calls).controller.version = 2) ∧
    TrustComposeParamsController.Rotation Composition.hashes Composition.config Composition.published
        Composition.calls ∧
      (TrustComposeParamsController.run Composition.hashes Composition.config Composition.published
        Composition.calls).controller.version = 2 ∧
      (TrustComposeParamsController.run Composition.hashes Composition.config Composition.published
        Composition.calls).snapshot.nextCheckpointId = 2 := by
  obtain ⟨-, -, -, htime, hversion, hnext⟩ := Composition.manifest_accepted
  refine ⟨⟨?_, Weighted.rotates.2⟩, ?_, hversion, hnext⟩
  · exact (rotation_moves_every_copy Weighted.hashes ownership).1 Unit Weighted.lane config
      (Weighted.world Weighted.controller) (msg (addr 0x64) 8) Weighted.published Weighted.calls
      Weighted.deployed Weighted.publishes Weighted.rotates.1
  · exact (rotation_moves_every_copy Composition.hashes ownership).2 Composition.config Composition.world
      Composition.published (msg (addr 0x64) 8) Composition.sources
      ⟨Composition.manifest1, 0, 345, by decide +kernel⟩ Composition.adapters Composition.calls
      Composition.deployed Composition.publishes htime

end Trustgraphs
