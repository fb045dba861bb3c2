import Trustgraphs.Contracts.Proofs.CompositionSourceAccumulatorProofs
import Trustgraphs.Contracts.TrustComposeParamsController

/-!
# Rotations of a composition

As for a weighted instance, what an accepted call does (`call_effect`), what it keeps (`Inv`), and
what a run of calls does.
-/

namespace Trustgraphs.TrustComposeParamsController

open ParamsControl TrustComposeParamsCodec Outcome TrustComposeValidator Option List
open CompositionSourceAccumulator (Sources hashAdapters policyRecords)
open WeightedPriorValidator (CalldataBytes MemoryBytes loadWord)

variable {O : Ownership} {H : Hashes} {c : Config} {w w' : World O} {i : Input O}

/-- The parameters `p`, whose hash is `h`, commit to the policy in the bytes `manifest`. -/
structure Commits (H : Hashes) (h : B256) (p : Composition.Params) (manifest : CalldataBytes) : Prop where
  hash_eq : hash H p = h
  policy : ∃ commitment, validatePolicyManifest H manifest p.chainId
    p.maxSourceAgeBlocks = .ok commitment ∧ commitment.sourcePolicyRoot = p.sourcePolicyRoot ∧
    commitment.sourceCount = p.sourceCount ∧ commitment.manifestSha256 = p.policyManifestSha256

/-- The records of the policy that the parameters commit to. -/
def committedRecords (p : Composition.Params) (manifest : CalldataBytes) : List Record :=
  policyRecords manifest p.sourceCount.toNat

def committedStrings (H : Hashes) (p : Composition.Params) (manifest : CalldataBytes) : List Bytes :=
  Composition.paramsEncoded p :: policyHashed H (committedRecords p manifest)

/-- The bytes of a capture, as the guest reads them, name exactly these sources, with their weights and
ages. -/
def Names (bytes : Bytes) (rs : List Record) : Prop :=
  ∃ chain captured, Composition.parseCaptureManifest bytes chain = .ok captured ∧
    captured.sources.map Composition.CapturedSource.record = rs

theorem Commits.unique {h : B256} {p q : Composition.Params} {m n : CalldataBytes} (hp : Commits H h p m)
    (hq : Commits H h q n)
    (hfree : CollisionFree H.keccak256 (committedStrings H p m ++ committedStrings H q n)) :
    committedRecords p m = committedRecords q n := by
  obtain ⟨hhash, cp, hvp, hrp, hcp, -⟩ := hp
  obtain ⟨hhash', cq, hvq, hrq, hcq, -⟩ := hq
  obtain rfl : p = q := hash_injective (hfree.mono (by simp [committedStrings])) (hhash.trans hhash'.symm)
  have hvp' := validateAt_validated hvp
  have hvq' := validateAt_validated hvq
  have hap := hvp'.ascending
  have haq := hvq'.ascending
  have hrootp := hvp'.root
  have hrootq := hvq'.root
  rw [hcp] at hap hrootp
  rw [hcq] at haq hrootq
  rw [hrp] at hrootp
  rw [hrq] at hrootq
  refine records_unique (hfree.mono fun s hs => ?_) hap haq hrootp hrootq
  rcases mem_append.mp hs with hs | hs
  · exact mem_append_left _ (List.mem_cons_of_mem _ hs)
  · exact mem_append_right _ (List.mem_cons_of_mem _ hs)

/-- The call is an accepted proposal of the commitment `policy` with its adapters. -/
def Proposes (H : Hashes) (c : Config) (i : Input O) (w w' : World O)
    (policy : Commitment) (adapterSetHash : B256) : Prop :=
  call H c i w = some w' ∧ ∃ manifest adapters metadataDigest,
    i.2 = .proposePolicy manifest adapters metadataDigest ∧
    checkPolicy H c i.1.1.toMsg i.1.2 w.controller manifest adapters = .ok (policy, adapterSetHash)

structure Proposed (H : Hashes) (c : Config) (msg : Msg) (s s' : State O)
    (policy : Commitment) (adapterSetHash : B256) : Prop where
  published : s'.versionOnePublished = s.versionOnePublished
  version : s'.version = s.version
  latestVersion : s'.latestVersion.toNat = s.latestVersion.toNat + 1
  currentParamsHash : s'.currentParamsHash = s.currentParamsHash
  currentAdapterSetHash : s'.currentAdapterSetHash = s.currentAdapterSetHash
  currentParams : s'.currentParams = s.currentParams
  pendingVersion : s'.pending.version = s'.latestVersion
  readyAt : s'.pending.readyAt.toNat = (now48 msg).toNat + c.activationDelay.toNat
  sourcePolicyRoot : s'.pending.sourcePolicyRoot = policy.sourcePolicyRoot
  sourceCount : s'.pending.sourceCount = policy.sourceCount
  manifestSha256 : s'.pending.manifestSha256 = policy.manifestSha256
  adapterSetHash : s'.pending.adapterSetHash = adapterSetHash

theorem ofOverflow_eq_ok {α : Type} {x : Option α} {a : α} : ofOverflow x = .ok a ↔ x = some a := by
  cases x with
  | none => simp [ofOverflow]
  | some b => simp [ofOverflow]

variable {msg : Msg} {sources : Sources} {s : State O} {manifest : CalldataBytes}
  {adapters : List Address} {newHash : B256}

theorem checkPolicy_eq_ok {policy : Commitment} {adapterSetHash : B256}
    (h : checkPolicy H c msg sources s manifest adapters = .ok (policy, adapterSetHash)) :
    validatePolicyManifest H manifest s.currentParams.chainId
      s.currentParams.maxSourceAgeBlocks = .ok policy ∧ adapterSetHash = hashAdapters H adapters := by
  unfold checkPolicy at h
  obtain ⟨policy', hpolicy, h⟩ := of_bind h
  obtain ⟨-, -, h⟩ := of_bind h
  obtain ⟨rfl, rfl⟩ := Prod.mk.inj (ok_inj h)
  exact ⟨withError_eq_ok.mp hpolicy, rfl⟩

theorem proposePolicy_proposed {s' : State O} {metadataDigest : B256}
    (h : proposePolicy H c msg sources s manifest adapters metadataDigest = .ok s') :
    ∃ policy adapterSetHash, checkPolicy H c msg sources s manifest adapters = .ok (policy, adapterSetHash) ∧
        Proposed H c msg s s' policy adapterSetHash := by
  unfold proposePolicy at h
  obtain ⟨-, -, h⟩ := of_bind h
  obtain ⟨-, h⟩ := of_guard h
  obtain ⟨-, h⟩ := of_guard h
  obtain ⟨⟨policy, adapterSetHash⟩, hcheck, h⟩ := of_bind h
  obtain ⟨-, h⟩ := of_guard h
  obtain ⟨-, -, h⟩ := of_bind h
  obtain ⟨pendingVersion, hversion, h⟩ := of_bind h
  obtain ⟨readyAt, hready, h⟩ := of_bind h
  obtain rfl := ok_inj h
  rw [ofOverflow_eq_ok, Checked.add64_eq_some] at hversion
  rw [ofOverflow_eq_ok, Checked.add_eq_some] at hready
  exact ⟨policy, adapterSetHash, hcheck, rfl, rfl, hversion, rfl, rfl, rfl, rfl, hready, rfl, rfl, rfl, rfl⟩

/-- The two commitments after an activation: both moved, or both as they were. -/
def Moved (c : Config) (w w' : World O) (newHash : B256) : Prop :=
  newHash ≠ w.controller.currentParamsHash ∧
      moveHash c.toConfig w.snapshot w.registry newHash = .ok (w'.snapshot, w'.registry) ∨
    newHash = w.controller.currentParamsHash ∧ w'.snapshot = w.snapshot ∧ w'.registry = w.registry

theorem moveIfChanged_moved
    (h : moveIfChanged c w newHash w.controller.currentParamsHash = .ok (w'.snapshot, w'.registry)) :
    Moved c w w' newHash := by
  unfold moveIfChanged at h
  by_cases hnew : newHash = w.controller.currentParamsHash
  · rw [if_neg (not_not.mpr hnew)] at h
    obtain ⟨hs, hr⟩ := Prod.mk.inj (ok_inj h)
    exact .inr ⟨hnew, hs.symm, hr.symm⟩
  · rw [if_pos hnew] at h
    exact .inl ⟨hnew, withError_eq_ok.mp h⟩

/-- What an accepted activation does: it installs what is pending, in all places. -/
structure Activated (H : Hashes) (c : Config) (msg : Msg) (w w' : World O) : Prop where
  pending : w.controller.pending.version ≠ 0
  ready : w.controller.pending.readyAt.toNat ≤ msg.blockTimestamp.toNat
  published : w'.controller.versionOnePublished = w.controller.versionOnePublished
  version : w'.controller.version = w.controller.pending.version
  latestVersion : w'.controller.latestVersion = w.controller.latestVersion
  currentParams : w'.controller.currentParams = withPolicy w.controller.currentParams
    w.controller.pending.sourcePolicyRoot w.controller.pending.sourceCount
    w.controller.pending.manifestSha256
  currentParamsHash : w'.controller.currentParamsHash = hash H w'.controller.currentParams
  currentAdapterSetHash : w'.controller.currentAdapterSetHash = w.controller.pending.adapterSetHash
  idle : w'.controller.pending = 0
  moved : Moved c w w' w'.controller.currentParamsHash
  installed : ∃ manifest adapters commitment,
    Commits H w'.controller.currentParamsHash w'.controller.currentParams manifest ∧
    hashAdapters H adapters = w.controller.pending.adapterSetHash ∧
    CompositionSourceAccumulator.Installed H c.sources (asController c msg) manifest adapters
      w.controller.pending.version w.lane w'.lane commitment

theorem activatePolicy_activated {expectedVersion : UInt64}
    (h : activatePolicy H c msg sources w expectedVersion manifest adapters = .ok w') :
    Activated H c msg w w' := by
  unfold activatePolicy at h
  obtain ⟨hpending, h⟩ := of_guard h
  obtain ⟨-, h⟩ := of_guard h
  obtain ⟨hready, h⟩ := of_guard h
  obtain ⟨⟨policy, adapterSetHash⟩, hcheck, h⟩ := of_bind h
  obtain ⟨hpreimage, h⟩ := of_guard h
  obtain ⟨-, -, h⟩ := of_bind h
  obtain ⟨-, -, h⟩ := of_bind h
  obtain ⟨-, h⟩ := of_guard h
  obtain ⟨lane, hinstall, h⟩ := of_bind h
  obtain ⟨⟨snapshot, registry⟩, hmove, h⟩ := of_bind h
  obtain rfl := ok_inj h
  obtain ⟨hpolicy, hadapters⟩ := checkPolicy_eq_ok hcheck
  simp only [not_or, not_not] at hpreimage
  obtain ⟨hroot, hcount, hsha, hset⟩ := hpreimage
  obtain ⟨commitment, hinstalled⟩ :=
    CompositionSourceAccumulator.installPolicy_installed (withError_eq_ok.mp hinstall)
  refine ⟨hpending, not_lt.mp hready, rfl, rfl, rfl, ?_, rfl, hset, rfl, ?_, manifest, adapters,
    commitment, ⟨rfl, policy, hpolicy, rfl, rfl, rfl⟩, hadapters.symm.trans hset, hinstalled⟩
  · rw [← hroot, ← hcount, ← hsha]
  · exact moveIfChanged_moved hmove

/-- The contracts besides the controller are as they were. -/
structure SameContracts (w w' : World O) : Prop where
  snapshot : w'.snapshot = w.snapshot
  registry : w'.registry = w.registry
  lane : w'.lane = w.lane

theorem SameContracts.hashes (h : SameContracts w w') : SameHashes c.toConfig w w' := by
  refine ⟨by rw [h.snapshot], by rw [h.registry], fun hr => ⟨?_, ?_, ?_, ?_, ?_⟩⟩
  · rw [h.registry]
    exact hr.isRegistered
  · rw [h.registry]
    exact hr.snapshot
  · rw [h.registry, h.snapshot]
    exact hr.paramsHash
  · rw [h.registry]
    exact hr.authority
  · rw [h.snapshot]
    exact hr.onlyController

/-- The part of the contracts that rotations are about, what is pending apart. -/
structure Kept (c : Config) (w w' : World O) : Prop where
  published : w'.controller.versionOnePublished = w.controller.versionOnePublished
  version : w'.controller.version = w.controller.version
  latestVersion : w'.controller.latestVersion = w.controller.latestVersion
  currentParamsHash : w'.controller.currentParamsHash = w.controller.currentParamsHash
  currentAdapterSetHash : w'.controller.currentAdapterSetHash = w.controller.currentAdapterSetHash
  currentParams : w'.controller.currentParams = w.controller.currentParams
  snapshot : w'.snapshot = w.snapshot
  lane : w'.lane = w.lane
  hashes : SameHashes c.toConfig w w'

theorem cancelPolicy_kept (h : cancelPolicy msg w.controller = .ok s) :
    Kept c w { w with controller := s } ∧ s.pending = 0 := by
  unfold cancelPolicy at h
  obtain ⟨-, -, h⟩ := of_bind h
  obtain ⟨-, h⟩ := of_guard h
  obtain rfl := ok_inj h
  exact ⟨⟨rfl, rfl, rfl, rfl, rfl, rfl, rfl, rfl, SameContracts.hashes ⟨rfl, rfl, rfl⟩⟩, rfl⟩

theorem fromOutside_eq_some {α : Type} {x : Option α} {a : α} :
    fromOutside c msg x = some a ↔ msg.sender ≠ c.self ∧ msg.sender ≠ c.snapshot ∧ x = some a := by
  unfold fromOutside
  by_cases h : msg.sender = c.self ∨ msg.sender = c.snapshot
  · rw [if_pos h]
    exact ⟨nofun, fun ⟨h₁, h₂, _⟩ => (h.elim h₁ h₂).elim⟩
  · rw [if_neg h]
    exact ⟨fun hx => ⟨fun h₁ => h (.inl h₁), fun h₂ => h (.inr h₂), hx⟩, fun ⟨_, _, hx⟩ => hx⟩

/-- The calls that a rotation is made of, and `trigger`. -/
def isQuiet : Call O → Bool
  | .proposePolicy .. | .cancelPolicy | .activatePolicy .. | .trigger _ => false
  | _ => true

/-- What an accepted call does: it proposes, cancels, activates, triggers, or touches nothing that a
rotation is about. -/
inductive Effect (H : Hashes) (c : Config) (i : Input O) (w w' : World O) : Prop where
  | proposed (policy : Commitment) (adapterSetHash : B256)
      (proposes : Proposes H c i w w' policy adapterSetHash)
      (effect : Proposed H c i.1.1.toMsg w.controller w'.controller policy adapterSetHash)
      (others : SameContracts w w')
  | cancelled (call : i.2 = .cancelPolicy) (effect : Kept c w w')
      (idle : w'.controller.pending = 0)
  | activated (v : UInt64) (manifest : CalldataBytes) (adapters : List Address)
      (call : i.2 = .activatePolicy v manifest adapters) (effect : Activated H c i.1.1.toMsg w w')
  | triggered (anchors : MerkleSnapshot.AnchorView) (call : i.2 = .trigger anchors)
      (controller : w'.controller = w.controller) (registry : w'.registry = w.registry)
      (effect : Triggered (CompositionSourceAccumulator.accumulator H c.sources i.1.2) c.snapshot i.1.1
        w.snapshot w'.snapshot w.lane w'.lane)
  | quiet (call : isQuiet i.2 = true) (effect : Kept c w w')
      (pending : w'.controller.pending = w.controller.pending)

/-- The instance is registered and published, and the accumulator is bound to it. -/
structure Bound (c : Config) (w : World O) : Prop where
  registered : Registered c.toConfig w
  published : w.controller.versionOnePublished = true
  laneController : w.lane.controller = c.self
  laneSnapshot : w.lane.snapshot = c.snapshot

theorem call_effect (hbound : Bound c w) (h : call H c i w = some w') : Effect H c i w w' := by
  have hcall := h
  obtain ⟨⟨env, sources⟩, f⟩ := i
  cases f with
  | publishInitialPolicy manifest adapters =>
    have hpublish := toOption_eq_some.mp h
    unfold publishInitialPolicy at hpublish
    obtain ⟨-, hpublish⟩ := of_guard hpublish
    obtain ⟨hfirst, -⟩ := of_guard hpublish
    exact absurd hbound.published hfirst
  | proposePolicy manifest adapters metadataDigest =>
    obtain ⟨s, hs, rfl⟩ := map_eq_some_iff.mp h
    obtain ⟨policy, adapterSetHash, hcheck, hproposed⟩ := proposePolicy_proposed (toOption_eq_some.mp hs)
    exact .proposed policy adapterSetHash
      ⟨hcall, manifest, adapters, metadataDigest, rfl, hcheck⟩ hproposed ⟨rfl, rfl, rfl⟩
  | cancelPolicy =>
    obtain ⟨s, hs, rfl⟩ := map_eq_some_iff.mp h
    obtain ⟨hkept, hidle⟩ := cancelPolicy_kept (c := c) (toOption_eq_some.mp hs)
    exact .cancelled rfl hkept hidle
  | activatePolicy v manifest adapters =>
    exact .activated v manifest adapters rfl (activatePolicy_activated (toOption_eq_some.mp h))
  | ownership f =>
    obtain ⟨o, -, rfl⟩ := map_eq_some_iff.mp h
    exact .quiet rfl ⟨rfl, rfl, rfl, rfl, rfl, rfl, rfl, rfl, SameContracts.hashes ⟨rfl, rfl, rfl⟩⟩ rfl
  | trigger anchors =>
    obtain ⟨⟨snapshot, lane, id⟩, ht, rfl⟩ := map_eq_some_iff.mp h
    exact .triggered anchors rfl rfl rfl (trigger_triggered (toOption_eq_some.mp ht))
  | setParamsHash paramsHash =>
    obtain ⟨hsender, -, hs⟩ := fromOutside_eq_some.mp h
    obtain ⟨snapshot, hset, -⟩ := map_eq_some_iff.mp hs
    exact absurd (toOption_eq_some.mp hset)
      (setParamsHash_refused hbound.registered hsender _ _)
  | updateParamsHash instanceId paramsHash =>
    obtain ⟨hsender, -, hr⟩ := fromOutside_eq_some.mp h
    obtain ⟨registry, hset, rfl⟩ := map_eq_some_iff.mp hr
    exact .quiet rfl ⟨rfl, rfl, rfl, rfl, rfl, rfl, rfl, rfl,
      updateParamsHash_same hbound.registered hsender (toOption_eq_some.mp hset)⟩ rfl
  | installPolicy version manifest adapters =>
    obtain ⟨hsender, -, hl⟩ := fromOutside_eq_some.mp h
    obtain ⟨lane, hinstall, -⟩ := map_eq_some_iff.mp hl
    obtain ⟨commitment, hinstalled⟩ := CompositionSourceAccumulator.installPolicy_installed
      (toOption_eq_some.mp hinstall)
    exact absurd (hinstalled.sender.trans hbound.laneController) hsender
  | checkpoint =>
    obtain ⟨-, hsender, hl⟩ := fromOutside_eq_some.mp h
    obtain ⟨⟨lane, id⟩, hcheckpoint, -⟩ := map_eq_some_iff.mp hl
    have hcheckpointed := CompositionSourceAccumulator.checkpoint_checkpointed
      (toOption_eq_some.mp hcheckpoint)
    exact absurd (hcheckpointed.sender.trans hbound.laneSnapshot) hsender

/-- The sources of the accumulator are those of the policy that `p`, whose hash is `h`, commits to. -/
def PolicyOf (H : Hashes) (c : Config) (policy : List CompositionSourceAccumulator.PolicySource) (h : B256)
    (p : Composition.Params) : Prop :=
  ∃ manifest, Commits H h p manifest ∧
    policy.map (CompositionSourceAccumulator.PolicySource.record H c.sources) = committedRecords p manifest

/-- The capture of a checkpoint names the sources of a policy behind the commitment pinned for it. -/
def Frozen (H : Hashes) (w : World O) (id : Nat) : Prop :=
  ∃ p manifest, Commits H (w.snapshot.checkpointParamsHash id) p manifest ∧
    ∃ captured : Composition.CapturedManifest, w.lane.captureManifests id = Composition.captureBytes captured ∧
        captured.sources.map Composition.CapturedSource.record = committedRecords p manifest

/-- The copies agree, the accumulator holds the policy behind them, and the checkpoints since `start`
are frozen under it. -/
structure Inv (H : Hashes) (c : Config) (start : Nat) (w : World O) : Prop where
  bound : Bound c w
  currentParamsHash : w.controller.currentParamsHash = w.snapshot.paramsHash
  currentParams : hash H w.controller.currentParams = w.snapshot.paramsHash
  version : w.controller.version.toNat ≤ w.controller.latestVersion.toNat
  pendingVersion : w.controller.pending.version ≠ 0 →
    w.controller.pending.version = w.controller.latestVersion ∧
      w.controller.version.toNat < w.controller.latestVersion.toNat
  laneVersion : w.lane.policyVersion = w.controller.version
  laneAdapters : w.lane.adapterSetHash = w.controller.currentAdapterSetHash
  laneRoot : w.lane.policyRoot = w.controller.currentParams.sourcePolicyRoot
  laneManifest : w.lane.policyManifestSha256 = w.controller.currentParams.policyManifestSha256
  policy : PolicyOf H c w.lane.policy w.snapshot.paramsHash w.controller.currentParams
  checkpoints : ∀ id, start ≤ id → id < w.snapshot.nextCheckpointId → Frozen H w id

theorem installed_policyOf {version : UInt64} {lane lane' : CompositionSourceAccumulator.State}
    {commitment : Commitment} {h : B256} {p : Composition.Params} (hcommits : Commits H h p manifest)
    (hinstalled : CompositionSourceAccumulator.Installed H c.sources msg manifest adapters version lane
      lane' commitment) :
    PolicyOf H c lane'.policy h p ∧ lane'.policyRoot = p.sourcePolicyRoot ∧
      lane'.policyManifestSha256 = p.policyManifestSha256 := by
  obtain ⟨-, commitment', hvalid, hroot, hcount, hsha⟩ := id hcommits
  obtain ⟨hroot', hcount', hsha'⟩ := (validateAt_validated hvalid).commitment_eq hinstalled.validated
  refine ⟨⟨manifest, hcommits, ?_⟩, ?_, ?_⟩
  · rw [hinstalled.records, committedRecords, ← hcount, hcount']
  · rw [hinstalled.root, ← hroot', hroot]
  · rw [hinstalled.manifestSha256, ← hsha', hsha]

theorem Moved.registered (hmoved : Moved c w w' newHash)
    (hreg : Registered c.toConfig w) (hcurrent : w.controller.currentParamsHash = w.snapshot.paramsHash) :
    Registered c.toConfig w' ∧ w'.snapshot.paramsHash = newHash := by
  rcases hmoved with ⟨-, hmove⟩ | ⟨hnew, hs, hr⟩
  · obtain ⟨hreg', hsnapshot, -, -⟩ := hreg.move hmove
    exact ⟨hreg', hsnapshot⟩
  · refine ⟨⟨?_, ?_, ?_, ?_, ?_⟩, ?_⟩
    · rw [hr]
      exact hreg.isRegistered
    · rw [hr]
      exact hreg.snapshot
    · rw [hr, hs]
      exact hreg.paramsHash
    · rw [hr]
      exact hreg.authority
    · rw [hs]
      exact hreg.onlyController
    · rw [hs, hnew, hcurrent]

theorem Moved.checkpoints (hmoved : Moved c w w' newHash) :
    w'.snapshot.nextCheckpointId = w.snapshot.nextCheckpointId ∧
      w'.snapshot.checkpointParamsHash = w.snapshot.checkpointParamsHash := by
  rcases hmoved with ⟨-, hmove⟩ | ⟨-, hs, -⟩
  · obtain ⟨hs, -, -⟩ := moveHash_eq_ok hmove
    rw [hs]
    exact ⟨rfl, rfl⟩
  · rw [hs]
    exact ⟨rfl, rfl⟩

theorem Frozen.congr {id : Nat} (h : Frozen H w id)
    (hpin : w'.snapshot.checkpointParamsHash id = w.snapshot.checkpointParamsHash id)
    (hcapture : w'.lane.captureManifests id = w.lane.captureManifests id) : Frozen H w' id := by
  rw [Frozen, hpin, hcapture]
  exact h

variable {start : Nat}

theorem Inv.proposed (h : Inv H c start w) {policy : Commitment} {adapterSetHash : B256}
    (effect : Proposed H c i.1.1.toMsg w.controller w'.controller policy adapterSetHash)
    (others : SameContracts w w') : Inv H c start w' := by
  have hversion := h.version
  have hlatest := effect.latestVersion
  obtain ⟨hsnapshot, hregistry, hlane⟩ := id others
  refine ⟨⟨others.hashes.registered h.bound.registered, ?_, ?_, ?_⟩, ?_, ?_, ?_,
    fun _ => ⟨effect.pendingVersion, ?_⟩, ?_, ?_, ?_, ?_, ?_, fun id hstart hid => ?_⟩
  · rw [effect.published]
    exact h.bound.published
  · rw [hlane]
    exact h.bound.laneController
  · rw [hlane]
    exact h.bound.laneSnapshot
  · rw [effect.currentParamsHash, hsnapshot]
    exact h.currentParamsHash
  · rw [effect.currentParams, hsnapshot]
    exact h.currentParams
  · rw [effect.version]
    omega
  · rw [effect.version]
    omega
  · rw [hlane, effect.version]
    exact h.laneVersion
  · rw [hlane, effect.currentAdapterSetHash]
    exact h.laneAdapters
  · rw [hlane, effect.currentParams]
    exact h.laneRoot
  · rw [hlane, effect.currentParams]
    exact h.laneManifest
  · rw [hlane, hsnapshot, effect.currentParams]
    exact h.policy
  · rw [hsnapshot] at hid
    exact (h.checkpoints id hstart hid).congr (by rw [hsnapshot]) (by rw [hlane])

theorem Inv.kept (h : Inv H c start w) (effect : Kept c w w')
    (hpending : w'.controller.pending = w.controller.pending ∨ w'.controller.pending = 0) :
    Inv H c start w' := by
  obtain ⟨hpublished, hversion, hlatest, hhash, hadapters, hparams, hsnapshot, hlane, hashes⟩ := effect
  refine ⟨⟨hashes.registered h.bound.registered, ?_, ?_, ?_⟩, ?_, ?_, ?_, fun hne => ?_, ?_, ?_, ?_, ?_,
    ?_, fun id hstart hid => ?_⟩
  · rw [hpublished]
    exact h.bound.published
  · rw [hlane]
    exact h.bound.laneController
  · rw [hlane]
    exact h.bound.laneSnapshot
  · rw [hhash, hsnapshot]
    exact h.currentParamsHash
  · rw [hparams, hsnapshot]
    exact h.currentParams
  · rw [hversion, hlatest]
    exact h.version
  · rcases hpending with hsame | hidle
    · rw [hsame] at hne ⊢
      rw [hversion, hlatest]
      exact h.pendingVersion hne
    · exact absurd (congrArg PendingPolicy.version hidle) hne
  · rw [hlane, hversion]
    exact h.laneVersion
  · rw [hlane, hadapters]
    exact h.laneAdapters
  · rw [hlane, hparams]
    exact h.laneRoot
  · rw [hlane, hparams]
    exact h.laneManifest
  · rw [hlane, hsnapshot, hparams]
    exact h.policy
  · rw [hsnapshot] at hid
    exact (h.checkpoints id hstart hid).congr (by rw [hsnapshot]) (by rw [hlane])

theorem Inv.activated (h : Inv H c start w) (effect : Activated H c msg w w') : Inv H c start w' := by
  obtain ⟨hpending, -⟩ := h.pendingVersion effect.pending
  obtain ⟨hreg, hsnapshot⟩ := effect.moved.registered h.bound.registered h.currentParamsHash
  obtain ⟨hnext, hpins⟩ := effect.moved.checkpoints
  obtain ⟨manifest, adapters, commitment, hcommits, hadapters, hinstalled⟩ := effect.installed
  obtain ⟨hpolicy, hroot, hsha⟩ := installed_policyOf hcommits hinstalled
  refine ⟨⟨hreg, ?_, ?_, ?_⟩, hsnapshot.symm, ?_, ?_, fun hne => ?_, ?_, ?_, hroot, hsha, ?_,
    fun id hstart hid => ?_⟩
  · rw [effect.published]
    exact h.bound.published
  · rw [hinstalled.controller]
    exact h.bound.laneController
  · rw [hinstalled.snapshot]
    exact h.bound.laneSnapshot
  · rw [hsnapshot, effect.currentParamsHash]
  · rw [effect.version, effect.latestVersion, hpending]
  · exact absurd (congrArg PendingPolicy.version effect.idle) hne
  · rw [hinstalled.version, effect.version]
  · rw [hinstalled.adapterSetHash, effect.currentAdapterSetHash, hadapters]
  · rw [hsnapshot]
    exact hpolicy
  · rw [hnext] at hid
    exact (h.checkpoints id hstart hid).congr (by rw [hpins]) (by rw [hinstalled.captureManifests])

/-- A checkpoint freezes the sources of the accumulator under the commitment of the snapshot. -/
theorem Inv.triggered (h : Inv H c start w) {env : BlockEnv}
    (hcontroller : w'.controller = w.controller) (hregistry : w'.registry = w.registry)
    (effect : Triggered (CompositionSourceAccumulator.accumulator H c.sources sources) c.snapshot env
      w.snapshot w'.snapshot w.lane w'.lane) : Inv H c start w' := by
  have hcheckpoint := CompositionSourceAccumulator.checkpoint_checkpointed
    (toOption_eq_some.mp effect.checkpoint)
  obtain ⟨hreg, -, -, -⟩ := id h.bound
  refine ⟨⟨⟨?_, ?_, ?_, ?_, ?_⟩, ?_, ?_, ?_⟩, ?_, ?_, ?_, ?_, ?_, ?_, ?_, ?_, ?_, fun id hstart hid => ?_⟩
  · rw [hregistry]
    exact hreg.isRegistered
  · rw [hregistry]
    exact hreg.snapshot
  · rw [hregistry, effect.paramsHash]
    exact hreg.paramsHash
  · rw [hregistry]
    exact hreg.authority
  · rw [effect.hasOperationalRole]
    exact hreg.onlyController
  · rw [hcontroller]
    exact h.bound.published
  · rw [hcheckpoint.controller]
    exact h.bound.laneController
  · rw [hcheckpoint.snapshot]
    exact h.bound.laneSnapshot
  · rw [hcontroller, effect.paramsHash]
    exact h.currentParamsHash
  · rw [hcontroller, effect.paramsHash]
    exact h.currentParams
  · rw [hcontroller]
    exact h.version
  · rw [hcontroller]
    exact h.pendingVersion
  · rw [hcheckpoint.policyVersion, hcontroller]
    exact h.laneVersion
  · rw [hcheckpoint.adapterSetHash, hcontroller]
    exact h.laneAdapters
  · rw [hcheckpoint.policyRoot, hcontroller]
    exact h.laneRoot
  · rw [hcheckpoint.policyManifestSha256, hcontroller]
    exact h.laneManifest
  · rw [hcheckpoint.policy, effect.paramsHash, hcontroller]
    exact h.policy
  · rw [effect.nextCheckpointId] at hid
    by_cases hnew : id = w.snapshot.nextCheckpointId
    · -- the new checkpoint
      subst hnew
      obtain ⟨manifest, hcommits, hpolicy⟩ := h.policy
      obtain ⟨captured, hbytes, hrecords⟩ := hcheckpoint.captured
      refine ⟨w.controller.currentParams, manifest, ?_, captured, hbytes, hrecords.trans hpolicy⟩
      rw [effect.checkpointParamsHash, Function.update_self]
      exact hcommits
    · refine (h.checkpoints id hstart (by omega)).congr ?_ (hcheckpoint.others id hnew)
      rw [effect.checkpointParamsHash, Function.update_of_ne hnew]

theorem Inv.step (h : Inv H c start w) (hcall : call H c i w = some w') : Inv H c start w' := by
  cases call_effect h.bound hcall with
  | proposed policy adapterSetHash _ effect others => exact h.proposed effect others
  | cancelled _ effect idle => exact h.kept effect (.inr idle)
  | activated _ _ _ _ effect => exact h.activated effect
  | triggered _ _ controller registry effect => exact h.triggered controller registry effect
  | quiet _ effect pending => exact h.kept effect (.inl pending)

theorem Inv.run (h : Inv H c start w) (calls : List (Input O)) : Inv H c start (run H c w calls) :=
  Run.run_holds (fun _ _ _ hinv hcall => hinv.step hcall) h calls

/-- The copies of the commitment in the snapshot, the controller and the registry, and the hash of the
parameters that the controller keeps. -/
def copies (H : Hashes) (c : Config) (w : World O) : List B256 :=
  [w.snapshot.paramsHash, w.controller.currentParamsHash, registryHash c.toConfig w.registry,
    hash H w.controller.currentParams]

theorem Inv.agree (h : Inv H c start w) : ∀ x ∈ copies H c w, x = w.snapshot.paramsHash := by
  intro x hx
  simp only [copies, List.mem_cons, not_mem_nil, or_false] at hx
  rcases hx with rfl | rfl | rfl | rfl
  · rfl
  · exact h.currentParamsHash
  · exact h.bound.registered.paramsHash
  · exact h.currentParams

/-- The accumulator holds what the controller holds: the version, the adapters and the policy that the
current parameters commit to. -/
structure Mirrors (H : Hashes) (c : Config) (w : World O) : Prop where
  version : w.lane.policyVersion = w.controller.version
  adapters : w.lane.adapterSetHash = w.controller.currentAdapterSetHash
  root : w.lane.policyRoot = w.controller.currentParams.sourcePolicyRoot
  manifest : w.lane.policyManifestSha256 = w.controller.currentParams.policyManifestSha256
  policy : PolicyOf H c w.lane.policy w.snapshot.paramsHash w.controller.currentParams

theorem Inv.mirrors (h : Inv H c start w) : Mirrors H c w :=
  ⟨h.laneVersion, h.laneAdapters, h.laneRoot, h.laneManifest, h.policy⟩

/-- The capture of the checkpoint names the sources of the policy behind the commitment pinned for it,
and this is one policy only where the hash has no collision. -/
def NamesPolicy (H : Hashes) (w : World O) (id : Nat) : Prop :=
  ∃ p manifest, Commits H (w.snapshot.checkpointParamsHash id) p manifest ∧
    Names (w.lane.captureManifests id) (committedRecords p manifest) ∧
    ∀ q n, Commits H (w.snapshot.checkpointParamsHash id) q n →
      CollisionFree H.keccak256 (committedStrings H p manifest ++ committedStrings H q n) →
      committedRecords q n = committedRecords p manifest

theorem Frozen.names {id : Nat} (h : Frozen H w id) : NamesPolicy H w id := by
  obtain ⟨p, manifest, hcommits, captured, hbytes, hrecords⟩ := h
  refine ⟨p, manifest, hcommits, ⟨captured.chainId, captured, ?_, hrecords⟩,
    fun q n hq hfree => (hcommits.unique hq hfree).symm⟩
  obtain ⟨-, commitment, hvalid, -, hcount, -⟩ := hcommits
  have height := (validateAt_validated hvalid).le_eight
  rw [hcount] at height
  have hlength := congrArg List.length hrecords
  rw [length_map, committedRecords, policyRecords, length_records] at hlength
  rw [hbytes]
  exact Composition.parseCaptureManifest_captureBytes (by omega)

/-- The proposal `j`, accepted after `earlier`, was open to cancellation for the whole delay and is what
the call `i` installs, `since` later. -/
structure InstalledBy (H : Hashes) (c : Config) (w₀ : World O) (i : Input O) (earlier : List (Input O))
    (j : Input O) (since : List (Input O)) (w₁ : World O) (policy : Commitment)
    (adapterSetHash : B256) : Prop where
  proposes : Proposes H c j (run H c w₀ earlier) w₁ policy adapterSetHash
  delay : j.1.1.blockTimestamp.toNat + c.activationDelay.toNat ≤ i.1.1.blockTimestamp.toNat
  /-- It stayed pending, and no cancellation was accepted. -/
  undisturbed : Run.Undisturbed (call H c) (fun w => w.controller.pending)
    (fun k => k.2 = .cancelPolicy) w₁ since
  version : (run H c w₁ (since ++ [i])).controller.version = w₁.controller.latestVersion
  currentParams : (run H c w₁ (since ++ [i])).controller.currentParams =
    withPolicy (run H c w₁ since).controller.currentParams policy.sourcePolicyRoot policy.sourceCount
      policy.manifestSha256
  currentAdapterSetHash : (run H c w₁ (since ++ [i])).controller.currentAdapterSetHash = adapterSetHash

def isProposal : Input O → Bool
  | (_, .proposePolicy ..) => true
  | _ => false

def isActivation : Input O → Bool
  | (_, .activatePolicy ..) => true
  | _ => false

/-- What a run of calls does to the copies of the commitment and to the captures. -/
structure Rotation (H : Hashes) (c : Config) (w₀ : World O) (calls : List (Input O)) : Prop where
  /-- In every state all copies are the live commitment. -/
  agree : ∀ before after, calls = before ++ after → ∀ x ∈ copies H c (run H c w₀ before),
    x = (run H c w₀ before).snapshot.paramsHash
  /-- In every state the accumulator holds the current policy. -/
  mirrors : ∀ before after, calls = before ++ after → Mirrors H c (run H c w₀ before)
  /-- A call changes all copies or none. -/
  atomic : ∀ before i after, calls = before ++ i :: after →
    copies H c (run H c w₀ (before ++ [i])) = copies H c (run H c w₀ before) ∨
      List.Forall₂ (· ≠ ·) (copies H c (run H c w₀ (before ++ [i])))
        (copies H c (run H c w₀ before))
  /-- Every change of the copies, and of the version, installs a proposal. -/
  installs : ∀ before i after, calls = before ++ i :: after →
    copies H c (run H c w₀ (before ++ [i])) ≠ copies H c (run H c w₀ before) ∨
      (run H c w₀ (before ++ [i])).controller.version ≠ (run H c w₀ before).controller.version →
      ∃ earlier j since w₁ policy adapterSetHash, before = earlier ++ j :: since ∧
        InstalledBy H c w₀ i earlier j since w₁ policy adapterSetHash
  /-- The versions proposed rise from the first one. -/
  proposed : (w₀.controller.version.toNat :: Run.marks (call H c) isProposal
    (fun w => w.controller.latestVersion.toNat) w₀ calls).Pairwise (· < ·)
  /-- The versions activated rise from the first one. -/
  activated : (w₀.controller.version.toNat :: Run.marks (call H c) isActivation
    (fun w => w.controller.version.toNat) w₀ calls).Pairwise (· < ·)
  /-- In every state each checkpoint of the run names the policy behind its commitment. -/
  checkpoints : ∀ before after, calls = before ++ after → ∀ id,
    w₀.snapshot.nextCheckpointId ≤ id → id < (run H c w₀ before).snapshot.nextCheckpointId →
      NamesPolicy H (run H c w₀ before) id

theorem Effect.live_eq (heffect : Effect H c i w w') :
    copies H c w' = copies H c w ∧ w'.controller.version = w.controller.version ∨
      Activated H c i.1.1.toMsg w w' := by
  cases heffect with
  | proposed _ _ _ effect others =>
    refine .inl ⟨?_, effect.version⟩
    rw [copies, copies, others.snapshot, others.registry, effect.currentParamsHash, effect.currentParams]
  | cancelled _ effect _ =>
    refine .inl ⟨?_, effect.version⟩
    rw [copies, copies, effect.hashes.snapshot, effect.hashes.registry, effect.currentParamsHash,
      effect.currentParams]
  | activated _ _ _ _ effect => exact .inr effect
  | triggered _ _ controller registry effect =>
    refine .inl ⟨?_, by rw [controller]⟩
    rw [copies, copies, controller, registry, effect.paramsHash]
  | quiet _ effect _ =>
    refine .inl ⟨?_, effect.version⟩
    rw [copies, copies, effect.hashes.snapshot, effect.hashes.registry, effect.currentParamsHash,
      effect.currentParams]

theorem Inv.copies_cases (h : Inv H c start w) (h' : Inv H c start w') :
    copies H c w' = copies H c w ∨ List.Forall₂ (· ≠ ·) (copies H c w') (copies H c w) := by
  have hcopies : ∀ {v : World O}, Inv H c start v → copies H c v = List.replicate 4 v.snapshot.paramsHash := by
    intro v hv
    exact eq_replicate_iff.mpr ⟨rfl, hv.agree⟩
  rw [hcopies h, hcopies h']
  by_cases hsame : w'.snapshot.paramsHash = w.snapshot.paramsHash
  · exact .inl (by rw [hsame])
  · exact .inr (.cons hsame (.cons hsame (.cons hsame (.cons hsame .nil))))

section

variable {w₀ : World O} {before : List (Input O)}

theorem run_append (xs ys : List (Input O)) :
    run H c w₀ (xs ++ ys) = run H c (run H c w₀ xs) ys := Run.run_append ..

theorem run_concat_accepted {w' : World O} (h : call H c i (run H c w₀ before) = some w') :
    run H c w₀ (before ++ [i]) = w' := by
  rw [run_append]
  exact Run.apply_accepted h

theorem run_concat_refused (h : call H c i (run H c w₀ before) = none) :
    run H c w₀ (before ++ [i]) = run H c w₀ before := by
  rw [run_append]
  exact Run.apply_refused h

theorem pending_cases (h : Inv H c start w) (hcall : call H c i w = some w') :
    w'.controller.pending = w.controller.pending ∧ ¬ i.2 = .cancelPolicy ∨ w'.controller.pending.version = 0 ∨
      (∃ policy adapterSetHash, Proposes H c i w w' policy adapterSetHash ∧
        Proposed H c i.1.1.toMsg w.controller w'.controller policy adapterSetHash) ∧
        ¬ i.2 = .cancelPolicy := by
  cases call_effect h.bound hcall with
  | proposed policy adapterSetHash proposes effect _ =>
    obtain ⟨-, _, _, _, hproposal, -⟩ := id proposes
    exact .inr (.inr ⟨⟨policy, adapterSetHash, proposes, effect⟩,
      fun hc => absurd (hproposal.symm.trans hc) nofun⟩)
  | cancelled _ _ idle => exact .inr (.inl (congrArg PendingPolicy.version idle))
  | activated _ _ _ _ effect => exact .inr (.inl (congrArg PendingPolicy.version effect.idle))
  | triggered _ hcall controller _ _ =>
    exact .inl ⟨by rw [controller], fun hc => absurd (hcall.symm.trans hc) nofun⟩
  | quiet hquiet _ pending => exact .inl ⟨pending, fun hc => absurd (hc ▸ hquiet) nofun⟩

theorem installedBy (hinv : Inv H c start w₀) (hidle : w₀.controller.pending.version = 0)
    (htime : ∀ j ∈ before, j.1.1.blockTimestamp.toNat < 2 ^ 48)
    (hcall : call H c i (run H c w₀ before) = some w')
    (hact : Activated H c i.1.1.toMsg (run H c w₀ before) w') :
    ∃ earlier j since w₁ policy adapterSetHash, before = earlier ++ j :: since ∧
      InstalledBy H c w₀ i earlier j since w₁ policy adapterSetHash := by
  obtain ⟨earlier, j, since, w₁, rfl, hj, ⟨policy, adapterSetHash, proposes, effect⟩, hpending, hsince⟩ :=
    Run.exists_undisturbed (call H c) (fun w => w.controller.pending) (fun p => p.version = 0)
      (fun j w w' => ∃ policy adapterSetHash, Proposes H c j w w' policy adapterSetHash ∧
        Proposed H c j.1.1.toMsg w.controller w'.controller policy adapterSetHash)
      (fun k => k.2 = .cancelPolicy) (fun _ _ _ hP hc => Inv.step hP hc)
      (fun _ _ _ hP hc => pending_cases hP hc) hinv hidle hact.pending
  have hrun : run H c w₀ (earlier ++ j :: since) = run H c w₁ since := by
    rw [run_append]
    exact congrArg (run H c · since) (Run.apply_accepted hj)
  rw [hrun] at hcall hact
  have hwaiting : (run H c w₁ since).controller.pending = w₁.controller.pending := by
    rw [← hrun]
    exact hpending.symm
  have hready := hact.ready
  rw [hwaiting, effect.readyAt] at hready
  have hnow : (now48 j.1.1.toMsg).toNat = j.1.1.blockTimestamp.toNat := by
    have hj48 := htime j (by simp)
    rw [now48, BitVec.toNat_setWidth, Nat.mod_eq_of_lt hj48]
  refine ⟨earlier, j, since, w₁, policy, adapterSetHash, rfl, proposes, hnow ▸ hready, hsince, ?_, ?_, ?_⟩
  · rw [run_concat_accepted hcall, hact.version, hwaiting, effect.pendingVersion]
  · rw [run_concat_accepted hcall, hact.currentParams, hwaiting, effect.sourcePolicyRoot,
      effect.sourceCount, effect.manifestSha256]
  · rw [run_concat_accepted hcall, hact.currentAdapterSetHash, hwaiting, effect.adapterSetHash]

end

theorem Inv.versions (h : Inv H c start w) (hcall : call H c i w = some w') :
    (w.controller.latestVersion.toNat ≤ w'.controller.latestVersion.toNat ∧ (isProposal i = true →
        w.controller.latestVersion.toNat < w'.controller.latestVersion.toNat)) ∧
    (w.controller.version.toNat ≤ w'.controller.version.toNat ∧
      (isActivation i = true → w.controller.version.toNat < w'.controller.version.toNat)) := by
  obtain ⟨env, f⟩ := i
  cases call_effect h.bound hcall with
  | proposed policy adapterSetHash proposes effect _ =>
    obtain ⟨-, manifest, adapters, digest, rfl, -⟩ := proposes
    have hlatest := effect.latestVersion
    rw [effect.version]
    exact ⟨⟨by omega, fun _ => by omega⟩, le_refl _, nofun⟩
  | cancelled hf effect _ =>
    obtain rfl := hf
    rw [effect.version, effect.latestVersion]
    exact ⟨⟨le_refl _, nofun⟩, le_refl _, nofun⟩
  | activated v manifest adapters hf effect =>
    obtain rfl := hf
    obtain ⟨hpending, hlt⟩ := h.pendingVersion effect.pending
    rw [effect.version, effect.latestVersion, hpending]
    exact ⟨⟨le_refl _, nofun⟩, hlt.le, fun _ => hlt⟩
  | triggered anchors hf controller _ _ =>
    obtain rfl := hf
    rw [controller]
    exact ⟨⟨le_refl _, nofun⟩, le_refl _, nofun⟩
  | quiet hquiet effect _ =>
    rw [effect.version, effect.latestVersion]
    refine ⟨⟨le_refl _, fun hp => ?_⟩, le_refl _, fun ha => ?_⟩
    · cases f with
      | proposePolicy manifest adapters digest => exact absurd hquiet nofun
      | _ => exact absurd hp nofun
    · cases f with
      | activatePolicy v manifest adapters => exact absurd hquiet nofun
      | _ => exact absurd ha nofun

/-- The rotations of a composition whose copies agree and that has nothing pending. -/
theorem rotation_of_inv {w₀ : World O} {calls : List (Input O)}
    (h : Inv H c w₀.snapshot.nextCheckpointId w₀) (hidle : w₀.controller.pending.version = 0)
    (htime : ∀ j ∈ calls, j.1.1.blockTimestamp.toNat < 2 ^ 48) : Rotation H c w₀ calls := by
  have hstep : ∀ before i, copies H c (run H c w₀ (before ++ [i])) = copies H c (run H c w₀ before) ∧
      (run H c w₀ (before ++ [i])).controller.version = (run H c w₀ before).controller.version ∨
      ∃ w', call H c i (run H c w₀ before) = some w' ∧ Activated H c i.1.1.toMsg (run H c w₀ before) w' := by
    intro before i
    cases hcall : call H c i (run H c w₀ before) with
    | none => exact .inl (by rw [run_concat_refused hcall]; exact ⟨rfl, rfl⟩)
    | some w' =>
      rw [run_concat_accepted hcall]
      rcases (call_effect (h.run before).bound hcall).live_eq with hsame | hact
      · exact .inl hsame
      · exact .inr ⟨w', rfl, hact⟩
  have hproposals : ∀ (i : Input O) (w w' : World O), Inv H c w₀.snapshot.nextCheckpointId w →
      call H c i w = some w' → Inv H c w₀.snapshot.nextCheckpointId w' ∧
      w.controller.latestVersion.toNat ≤ w'.controller.latestVersion.toNat ∧
      (isProposal i = true → w.controller.latestVersion.toNat < w'.controller.latestVersion.toNat) :=
    fun _ _ _ hinv hcall => ⟨hinv.step hcall, (hinv.versions hcall).1⟩
  have hactivations : ∀ (i : Input O) (w w' : World O), Inv H c w₀.snapshot.nextCheckpointId w →
      call H c i w = some w' → Inv H c w₀.snapshot.nextCheckpointId w' ∧
      w.controller.version.toNat ≤ w'.controller.version.toNat ∧
      (isActivation i = true → w.controller.version.toNat < w'.controller.version.toNat) :=
    fun _ _ _ hinv hcall => ⟨hinv.step hcall, (hinv.versions hcall).2⟩
  refine ⟨?_, ?_, ?_, ?_, ?_, ?_, ?_⟩
  · intro before _ _
    exact (h.run before).agree
  · intro before _ _
    exact (h.run before).mirrors
  · intro before i _ _
    exact (h.run before).copies_cases (h.run (before ++ [i]))
  · rintro before i after rfl hne
    rcases hstep before i with ⟨hcopies, hversion⟩ | ⟨w', hcall, hact⟩
    · exact (hne.elim (fun h => h hcopies) (fun h => h hversion)).elim
    · exact installedBy h hidle (fun j hj => htime j (by simp [hj])) hcall hact
  · exact List.Pairwise.cons
      (fun n hn => lt_of_le_of_lt h.version (Run.lt_of_mem_marks hproposals h hn))
      (Run.marks_pairwise hproposals h calls)
  · exact List.Pairwise.cons (fun n hn => Run.lt_of_mem_marks hactivations h hn)
      (Run.marks_pairwise hactivations h calls)
  · intro before _ _ id hstart hid
    exact ((h.run before).checkpoints id hstart hid).names

/-- The instance before its first version is published: the controller is as it was deployed on the
commitment of the snapshot, its ownership apart, and the accumulator is bound to the snapshot. -/
structure Deployed (H : Hashes) (c : Config) (w : World O) : Prop where
  constructed : ∃ (msg : Msg) (sources : Sources) (initialParams : Composition.Params) (manifest : MemoryBytes)
    (adapters : List Address) (metadataDigest : B256) (ownership : O.State),
    constructor H c msg sources w.snapshot.paramsHash initialParams manifest adapters metadataDigest
      ownership = .ok { w.controller with ownership := ownership }
  registered : Registered c.toConfig w
  laneSnapshot : w.lane.snapshot = c.snapshot

/-- What holds once the first policy is published. -/
theorem inv_published (hdeployed : Deployed H c w)
    (hpublish : publishInitialPolicy H c msg sources w manifest adapters = .ok w') :
    Inv H c w'.snapshot.nextCheckpointId w' ∧ w'.controller.pending.version = 0 := by
  obtain ⟨⟨_, _, initialParams, memory, _, _, _, hconstruct⟩, hregistered, hlane⟩ := hdeployed
  unfold constructor at hconstruct
  obtain ⟨-, hconstruct⟩ := of_guard hconstruct
  obtain ⟨-, hconstruct⟩ := of_guard hconstruct
  obtain ⟨-, -, hconstruct⟩ := of_bind hconstruct
  obtain ⟨initial, -, hconstruct⟩ := of_bind hconstruct
  obtain ⟨hinitial, hconstruct⟩ := of_guard hconstruct
  obtain ⟨-, -, hconstruct⟩ := of_bind hconstruct
  obtain ⟨hlive, hconstruct⟩ := of_guard hconstruct
  have hstate := ok_inj hconstruct
  have hhash : hash H initialParams = w.snapshot.paramsHash := not_not.mp hlive
  simp only [not_or, not_not] at hinitial
  obtain ⟨hroot, hcount, hsha, -⟩ := hinitial
  have hversion := congrArg State.version hstate
  have hlatest := congrArg State.latestVersion hstate
  have hcurrent := congrArg State.currentParamsHash hstate
  have hadapterSet := congrArg State.currentAdapterSetHash hstate
  have hparams := congrArg State.currentParams hstate
  have hpending := congrArg State.pending hstate
  have hcommitments := congrArg State.versionCommitments hstate
  dsimp only at hversion hlatest hcurrent hadapterSet hparams hpending hcommitments
  unfold publishInitialPolicy at hpublish
  obtain ⟨-, hpublish⟩ := of_guard hpublish
  obtain ⟨-, hpublish⟩ := of_guard hpublish
  obtain ⟨⟨policy, adapterSetHash⟩, hcheck, hpublish⟩ := of_bind hpublish
  obtain ⟨hpreimage, hpublish⟩ := of_guard hpublish
  obtain ⟨-, -, hpublish⟩ := of_bind hpublish
  obtain ⟨hcontroller, hpublish⟩ := of_guard hpublish
  obtain ⟨lane, hinstall, hpublish⟩ := of_bind hpublish
  obtain rfl := ok_inj hpublish
  obtain ⟨hpolicy, hadapters⟩ := checkPolicy_eq_ok hcheck
  obtain ⟨commitment, hinstalled⟩ :=
    CompositionSourceAccumulator.installPolicy_installed (withError_eq_ok.mp hinstall)
  simp only [not_or, not_not] at hpreimage
  rw [← hcommitments, Function.update_self] at hpreimage
  obtain ⟨hroot', hcount', hsha', hset'⟩ := hpreimage
  have hcommits : Commits H w.snapshot.paramsHash w.controller.currentParams manifest := by
    refine ⟨by rw [← hparams, hhash], policy, hpolicy, ?_, ?_, ?_⟩
    · rw [← hparams, hroot', hroot]
    · rw [← hparams, hcount', hcount]
    · rw [← hparams, hsha', hsha]
  obtain ⟨hpolicyOf, hlaneRoot, hlaneSha⟩ := installed_policyOf hcommits hinstalled
  refine ⟨⟨⟨⟨hregistered.1, hregistered.2, hregistered.3, hregistered.4, hregistered.5⟩, rfl,
    hinstalled.controller.trans (not_not.mp hcontroller), hinstalled.snapshot.trans hlane⟩, ?_,
    hcommits.hash_eq, ?_, fun hne => ?_, ?_, ?_, hlaneRoot, hlaneSha, hpolicyOf,
    fun id hstart hid => absurd hid (not_lt.mpr hstart)⟩, ?_⟩
  · rw [← hcurrent, hhash]
  · rw [← hversion, ← hlatest]
  · exact absurd (congrArg PendingPolicy.version hpending).symm hne
  · rw [hinstalled.version, hversion]
  · rw [hinstalled.adapterSetHash, ← hadapters, hset', hadapterSet]
  · exact (congrArg PendingPolicy.version hpending).symm

end Trustgraphs.TrustComposeParamsController
