import Trustgraphs.CompositionCore.Proofs.PolicyProofs
import Trustgraphs.Contracts.CompositionSourceAccumulator
import Trustgraphs.Contracts.Proofs.TrustComposeValidatorProofs
import Trustgraphs.Lib.Related

/-!
# Policies and captures

An installed policy is the list of the records of its manifest, read back through the adapters
(`installPolicy_installed`), and a capture writes the records of the policy (`capture_sources`).
-/

namespace Trustgraphs

open Composition List

def Composition.CapturedSource.record (s : CapturedSource) : TrustComposeValidator.Record where
  sourceId := s.sourceId
  snapshot := s.snapshot
  familyId := s.familyId
  programId := s.programId
  sourceOutputDomain := s.sourceOutputDomain
  weight := s.weight
  maxAgeBlocks := s.maxAgeBlocks
  required := flagByte s.required

namespace CompositionSourceAccumulator

open Outcome Related TrustComposeValidator
open WeightedPriorValidator (loadWord CalldataBytes)

variable {H : Hashes} {c : Config} {msg : Msg} {sources : Sources} {s s' : State}
  {manifest : CalldataBytes} {adapters : List Address}

/-- The record of a source of the policy, as its adapter has it. -/
def PolicySource.record (H : Hashes) (c : Config) (p : PolicySource) : Record :=
  let adapter := c.adapters p.adapter
  { sourceId := adapter.sourceId
    snapshot := adapter.snapshot
    familyId := adapter.familyId
    programId := adapter.programId
    sourceOutputDomain := admittedSourceOutputDomain H adapter.programId
    weight := p.weight
    maxAgeBlocks := p.maxAgeBlocks
    required := 1 }

/-- The records of the manifest, as the validator reads them. -/
def policyRecords (manifest : CalldataBytes) (n : Nat) : List Record :=
  records (loadWord manifest.calldata) manifest.offset n

theorem policyRecords_eq (manifest : CalldataBytes) (n : Nat) :
    policyRecords manifest n = (List.range n).map (policyRecord manifest) := rfl

variable {i : Nat} {env : BlockEnv}

theorem validateAdapter_record {a : Address} (ha : adapters[i]? = some a)
    (h : validateAdapter H c msg sources manifest adapters i = .ok ()) {weight age : UInt64}
    (hweight : weight = (policyRecord manifest i).weight) (hage : age = (policyRecord manifest i).maxAgeBlocks)
    (hrequired : (policyRecord manifest i).required = 1) :
    PolicySource.record H c ⟨a, weight, age⟩ = policyRecord manifest i := by
  unfold validateAdapter revert at h
  rw [ha] at h
  obtain ⟨a', ha', h⟩ := of_bind h
  obtain rfl : a = a' := ok_inj ha'
  simp only [ite_error_eq_ok, not_or, not_not] at h
  obtain ⟨-, -, ⟨hid, hsnapshot, hfamily, hprogram, -⟩, -, hdomain, -⟩ := h
  exact Record.ext hid hsnapshot hfamily hprogram hdomain hweight hage hrequired.symm

theorem validatePolicy_validated {commitment : Commitment}
    (h : validatePolicy H c msg sources manifest adapters = .ok commitment) :
    Validated H (loadWord manifest.calldata) manifest.offset (H.sha256 manifest.bytes) (chain64 msg)
      (UInt64.ofNat (2 ^ 64 - 1)) commitment ∧ adapters.length = commitment.sourceCount.toNat ∧
      ∀ i < commitment.sourceCount.toNat, validateAdapter H c msg sources manifest adapters i = .ok () := by
  unfold validatePolicy revert at h
  obtain ⟨commitment', hpolicy, h⟩ := of_bind h
  obtain ⟨hlength, h⟩ := of_guard h
  obtain ⟨⟨⟩, hadapters, h⟩ := of_bind h
  obtain rfl := ok_inj h
  exact ⟨validateAt_validated (renameError_eq_ok.mp hpolicy), not_not.mp hlength,
    fun i hi => forM_eq_ok.mp hadapters i (mem_range.mpr hi)⟩

structure Installed (H : Hashes) (c : Config) (msg : Msg) (manifest : CalldataBytes)
    (adapters : List Address) (version : UInt64) (s s' : State) (commitment : Commitment) : Prop where
  sender : msg.sender = s.controller
  validated : Validated H (loadWord manifest.calldata) manifest.offset (H.sha256 manifest.bytes)
    (chain64 msg) (UInt64.ofNat (2 ^ 64 - 1)) commitment
  records : s'.policy.map (PolicySource.record H c) = policyRecords manifest commitment.sourceCount.toNat
  version : s'.policyVersion = version
  root : s'.policyRoot = commitment.sourcePolicyRoot
  manifestSha256 : s'.policyManifestSha256 = commitment.manifestSha256
  adapterSetHash : s'.adapterSetHash = hashAdapters H adapters
  snapshot : s'.snapshot = s.snapshot
  controller : s'.controller = s.controller
  checkpoints : s'.checkpoints = s.checkpoints
  captureManifests : s'.captureManifests = s.captureManifests

theorem installPolicy_validated {version : UInt64}
    (h : installPolicy H c msg sources s version manifest adapters = .ok s') :
    ∃ commitment, validatePolicy H c msg sources manifest adapters = .ok commitment ∧
      Installed H c msg manifest adapters version s s' commitment ∧
      ∀ p ∈ s'.policy, ∃ i < commitment.sourceCount.toNat, adapters[i]? = some p.adapter := by
  unfold installPolicy revert at h
  obtain ⟨hsender, h⟩ := of_guard h
  obtain ⟨-, h⟩ := of_guard h
  obtain ⟨commitment, hvalid, h⟩ := of_bind h
  obtain ⟨policy, hpolicy, h⟩ := of_bind h
  obtain rfl := ok_inj h
  obtain ⟨hvalidated, hlength, hadapters⟩ := validatePolicy_validated hvalid
  have hread := mapM_eq_ok.mp hpolicy
  refine ⟨commitment, hvalid, ⟨not_not.mp (not_or.mp hsender).1, hvalidated, ?_, rfl, rfl, rfl, rfl, rfl,
    rfl, rfl, rfl⟩, fun p hp => ?_⟩
  · rw [policyRecords_eq]
    refine map_eq_map_of_forall₂ hread fun i hi p hp => ?_
    obtain ⟨a, ha, hp⟩ := of_bind hp
    obtain rfl := ok_inj hp
    have hmem : policyRecord manifest i ∈ policyRecords manifest commitment.sourceCount.toNat :=
      mem_map.mpr ⟨i, hi, rfl⟩
    exact validateAdapter_record (ofPanic_eq_ok.mp ha) (hadapters i (mem_range.mp hi)) rfl rfl
      (hvalidated.valid _ hmem).required
  · obtain ⟨i, hi, hp⟩ := exists_of_forall₂ hread hp
    obtain ⟨a, ha, hp⟩ := of_bind hp
    obtain rfl := ok_inj hp
    exact ⟨i, mem_range.mp hi, ofPanic_eq_ok.mp ha⟩

theorem installPolicy_installed {version : UInt64}
    (h : installPolicy H c msg sources s version manifest adapters = .ok s') :
    ∃ commitment, Installed H c msg manifest adapters version s s' commitment := by
  obtain ⟨commitment, -, hinstalled, -⟩ := installPolicy_validated h
  exact ⟨commitment, hinstalled⟩

theorem validatePolicy_chainId {commitment : Commitment}
    (h : validatePolicy H c msg sources manifest adapters = .ok commitment)
    (hi : i < commitment.sourceCount.toNat) {a : Address} (ha : adapters[i]? = some a) :
    (c.adapters a).chainId = chain64 msg := by
  obtain ⟨-, -, hadapters⟩ := validatePolicy_validated h
  have hvalid := hadapters i hi
  unfold validateAdapter revert at hvalid
  rw [ha] at hvalid
  obtain ⟨a', ha', hvalid⟩ := of_bind hvalid
  obtain rfl : a = a' := ok_inj ha'
  simp only [ite_error_eq_ok, not_or, not_not] at hvalid
  exact hvalid.2.2.2.2.2.2.1

def capturedSource (H : Hashes) (c : Config) (p : PolicySource) (state : CapturedState) : CapturedSource where
  sourceId := (c.adapters p.adapter).sourceId
  snapshot := (c.adapters p.adapter).snapshot
  familyId := (c.adapters p.adapter).familyId
  programId := (c.adapters p.adapter).programId
  sourceOutputDomain := admittedSourceOutputDomain H (c.adapters p.adapter).programId
  stateIndex := state.stateIndex
  freezeBlock := state.freezeBlock
  outputRoot := state.outputRoot
  blobSha256 := state.blobSha256
  cidDigest := state.cidDigest
  totalValue := state.totalValue
  weight := p.weight
  maxAgeBlocks := p.maxAgeBlocks
  required := true

/-- The state that an adapter reads is one that a capture accepts. -/
structure CapturedOf (H : Hashes) (c : Config) (blockNumber : U256) (sources : Sources)
    (p : PolicySource) (state : CapturedState) : Prop where
  read : sources.readLatest p.adapter = some state
  frozen : state.freezeBlock.toNat ≤ blockNumber.toNat
  fresh : blockNumber.toNat - state.freezeBlock.toNat ≤ p.maxAgeBlocks.toNat

theorem captureSource_captured {p : PolicySource}
    {st st' : Bytes × List U256} (h : captureSource H c env sources st (p, i) = .ok st') :
    ∃ state, CapturedOf H c env.blockNumber sources p state ∧
      st'.1 = st.1 ++ (capturedSource H c p state).encoded := by
  unfold captureSource revert at h
  dsimp only at h
  cases hread : sources.readLatest p.adapter with
  | none =>
    rw [hread] at h
    exact absurd h (by simp)
  | some state =>
    rw [hread] at h
    simp only [ite_error_eq_ok, not_lt] at h
    obtain ⟨hfrozen, -, hfresh, -, h⟩ := h
    obtain rfl := ok_inj h
    refine ⟨state, ⟨hread, hfrozen, hfresh⟩, ?_⟩
    simp only [CapturedSource.encoded, capturedSource, flagByte, append_assoc, if_true]

theorem foldlM_captureSource {ps : List PolicySource} {k : Nat} {st st' : Bytes × List U256}
    (h : (ps.zipIdx k).foldlM (captureSource H c env sources) st = .ok st') :
    ∃ states : List CapturedState, List.Forall₂ (CapturedOf H c env.blockNumber sources) ps states ∧
      st'.1 = st.1 ++ (List.zipWith (capturedSource H c) ps states).flatMap
        CapturedSource.encoded := by
  induction ps generalizing k st with
  | nil =>
    obtain rfl := ok_inj h
    exact ⟨[], .nil, by simp⟩
  | cons p ps ih =>
    rw [zipIdx_cons, foldlM_cons] at h
    obtain ⟨st₁, h₁, h⟩ := of_bind h
    obtain ⟨state, hstate, hbytes₁⟩ := captureSource_captured h₁
    obtain ⟨states, hstates, hbytes⟩ := ih h
    refine ⟨state :: states, .cons hstate hstates, ?_⟩
    rw [hbytes, hbytes₁, zipWith_cons_cons, flatMap_cons, append_assoc]

theorem map_record_zipWith {ps : List PolicySource} {states : List CapturedState}
    (hlength : ps.length = states.length) :
    (List.zipWith (capturedSource H c) ps states).map CapturedSource.record =
      ps.map (PolicySource.record H c) := by
  induction ps generalizing states with
  | nil => rfl
  | cons p ps ih =>
    cases states with
    | nil => exact absurd hlength (by simp)
    | cons state states =>
      rw [zipWith_cons_cons, map_cons, map_cons, ih (Nat.succ.inj hlength)]
      rfl

def capturedManifest (H : Hashes) (c : Config) (env : BlockEnv) (policy : List PolicySource)
    (states : List CapturedState) : CapturedManifest where
  chainId := chain64 env.toMsg
  captureBlock := UInt64.ofNat env.blockNumber.toNat
  sources := List.zipWith (capturedSource H c) policy states

theorem capture_captured {bytes : Bytes} {ids : List U256} (h : capture H c env sources s = .ok (bytes, ids)) :
    env.blockNumber.toNat < 2 ^ 64 ∧ ∃ states : List CapturedState,
      List.Forall₂ (CapturedOf H c env.blockNumber sources) s.policy states ∧
        bytes = captureBytes (capturedManifest H c env s.policy states) := by
  unfold capture revert at h
  obtain ⟨hblock, h⟩ := of_guard h
  obtain ⟨states, hstates, hbytes⟩ := foldlM_captureSource h
  have hlength : (List.zipWith (capturedSource H c) s.policy states).length = s.policy.length := by
    rw [length_zipWith, hstates.length_eq, Nat.min_self]
  have hnumber : (UInt64.ofNat env.blockNumber.toNat).toNat = env.blockNumber.toNat :=
    UInt64.toNat_ofNat_of_lt (not_le.mp hblock)
  refine ⟨not_le.mp hblock, states, hstates, ?_⟩
  dsimp only at hbytes
  rw [hbytes, captureBytes, capturedManifest, hlength, hnumber]
  rfl

theorem capture_sources {bytes : Bytes} {ids : List U256} (h : capture H c env sources s = .ok (bytes, ids)) :
    ∃ captured : CapturedManifest, bytes = captureBytes captured ∧
      captured.sources.map CapturedSource.record = s.policy.map (PolicySource.record H c) := by
  obtain ⟨-, states, hstates, hbytes⟩ := capture_captured h
  exact ⟨_, hbytes, map_record_zipWith hstates.length_eq⟩

structure Checkpointed (H : Hashes) (c : Config) (sender : Address) (s s' : State) (id : Nat) : Prop where
  sender : sender = s.snapshot
  id_eq : id = s.checkpoints.length
  checkpoints : s'.checkpoints.length = id + 1
  captured : ∃ captured : CapturedManifest, s'.captureManifests id = captureBytes captured ∧
      captured.sources.map CapturedSource.record = s.policy.map (PolicySource.record H c)
  others : ∀ j, j ≠ id → s'.captureManifests j = s.captureManifests j
  policy : s'.policy = s.policy
  policyVersion : s'.policyVersion = s.policyVersion
  policyRoot : s'.policyRoot = s.policyRoot
  policyManifestSha256 : s'.policyManifestSha256 = s.policyManifestSha256
  adapterSetHash : s'.adapterSetHash = s.adapterSetHash
  snapshot : s'.snapshot = s.snapshot
  controller : s'.controller = s.controller

theorem checkpoint_checkpointed {id : Nat}
    (h : checkpoint H c env sources s = .ok (s', id)) : Checkpointed H c env.sender s s' id := by
  unfold checkpoint revert at h
  obtain ⟨hsender, h⟩ := of_guard h
  obtain ⟨⟨manifest, ids⟩, hcapture, h⟩ := of_bind h
  obtain ⟨rfl, rfl⟩ := Prod.mk.inj (ok_inj h)
  obtain ⟨captured, hbytes, hrecords⟩ := capture_sources hcapture
  refine ⟨not_not.mp (not_or.mp hsender).1, rfl, by simp, ⟨captured, ?_, hrecords⟩, fun j hj =>
    Function.update_of_ne hj .., rfl, rfl,
    rfl, rfl, rfl, rfl, rfl⟩
  exact (Function.update_self ..).trans hbytes

end CompositionSourceAccumulator

end Trustgraphs
