import Trustgraphs.CompositionCore.Proofs.ConservationProofs
import Trustgraphs.Contracts.Proofs.PolicyBytesProofs

/-!
# Frozen captures pass the static checks

Three encoders meet here. The validator reads a policy, the accumulator writes the records of the
policy into a capture, and the guest parses the capture and encodes the policy again.
-/

namespace Trustgraphs.CompositionSourceAccumulator

open Outcome Related TrustComposeValidator CompositionSourceAdapter MerkleSnapshot List
open Trustgraphs.Composition (CapturedManifest CapturedSource PolicyChecked SourceChecked)
open WeightedPriorValidator (loadWord CalldataBytes)

variable {H : Hashes}

theorem validate_of_envelope {p : Composition.Params}
    (hclass : SOURCE_COMPATIBILITY_CLASS = Composition.sourceCompatibilityClassV1 H)
    (h : validateComputationalEnvelope H p = .ok ()) : p.validate H = .ok () := by
  unfold validateComputationalEnvelope at h
  obtain ⟨⟨⟩, hstatic, hchain⟩ := of_bind h
  obtain ⟨hchain, -⟩ := of_guard hchain
  simp only [validateStatic, TrustComposeValidator.revert, ite_error_eq_ok, not_or, not_not, true_and,
    not_lt] at hstatic
  obtain ⟨hversion, hprogram, hscope, hidentity, hkind, hdomain, hclass', hscale, hpool,
    ⟨hmin, hmax, hcount⟩, ⟨hroot, hsha⟩, hbounds, ⟨hage, hmaxAge⟩, haccumulator, -⟩ := hstatic
  have hmin' : 2 ≤ p.sourceCount.toNat := UInt8.le_iff_toNat_le.mp hmin
  have hmax' : p.sourceCount.toNat ≤ 8 := UInt8.le_iff_toNat_le.mp hmax
  have hcount' : p.sourceCount.toNat ≤ p.maxSources.toNat := UInt8.le_iff_toNat_le.mp hcount
  have hbounds' : p.boundsInvalid = false := by
    rw [Bool.not_eq_true] at hbounds
    rw [← hbounds]
    simp only [Composition.Params.boundsInvalid, TrustComposeValidator.boundsInvalid, gt_iff_lt,
      UInt8.lt_iff_toNat_lt, UInt32.lt_iff_toNat_lt]
    rw [Bool.or_comm (decide (Composition.MAX_SOURCES < p.maxSources.toNat))]
    rfl
  simp only [Composition.Params.validate, Composition.reject, ite_error_eq_ok, not_or, not_not, not_lt,
    Bool.not_eq_true]
  refine ⟨hversion, hprogram, hscope, hidentity, hkind, hdomain, hclass'.trans hclass, hscale, ?_,
    ⟨hmin', hmax', hcount'⟩, ⟨hroot, hsha⟩, hbounds', ⟨hage, hmaxAge⟩, haccumulator, hchain, trivial⟩
  rintro hzero
  rw [hzero] at hpool
  have hnone : p.maxSources.toNat ≤ 0 := hpool
  omega

theorem admitted_eq_some {programId : B256}
    (h : TrustComposeValidator.admittedSourceOutputDomain H programId ≠ 0) :
    Composition.admittedSourceOutputDomain H programId =
      some (TrustComposeValidator.admittedSourceOutputDomain H programId) := by
  have hsame : TrustComposeValidator.admittedSourceOutputDomain H programId =
      (Composition.admittedSourceOutputDomain H programId).getD 0 := by
    unfold Composition.admittedSourceOutputDomain
    show (if programId = Composition.trustGraphProgramId H then Composition.trustGraphOutputDomain H
      else if programId = Composition.weightedTrustGraphProgramId H then
        Composition.weightedTrustGraphOutputDomain H else 0) = _
    split_ifs
    · rfl
    · rfl
    · rfl
  rw [hsame] at h ⊢
  cases hadmitted : Composition.admittedSourceOutputDomain H programId with
  | none =>
    rw [hadmitted] at h
    exact absurd rfl h
  | some domain => rfl

section Adapters

variable {adapters : Address → Immutables} {binder : Address}
  {isAdapter : Address → Bool} {msg : Msg} {w : World} {a : Address}
  {state : CapturedState}

theorem readLatest_granted (h : (sources H adapters isAdapter msg w).readLatest a = some state) :
    msg.chainId = BitVec.ofNat 256 (adapters a).chainId.toNat ∧ state.totalValue ≠ 0 := by
  have hread := toOption_eq_some.mp h
  unfold readLatest at hread
  obtain ⟨⟨⟩, hidentity, hread⟩ := of_bind hread
  obtain ⟨-, hread⟩ := of_guard hread
  unfold readAt at hread
  obtain ⟨-, hread⟩ := of_guard hread
  obtain ⟨source, -, hread⟩ := of_bind hread
  obtain ⟨provenance, -, hread⟩ := of_bind hread
  simp only [readState, ite_error_eq_ok, not_or, not_le] at hread
  obtain ⟨-, -, ⟨htotal, hlt⟩, -, -, -, -, hread⟩ := hread
  obtain rfl := ok_inj hread
  refine ⟨?_, fun hzero => htotal ?_⟩
  · unfold assertIdentity at hidentity
    exact not_not.mp (of_guard hidentity).1
  · have hnat := congrArg BitVec.toNat hzero
    rw [BitVec.toNat_ofNat, Nat.mod_eq_of_lt hlt] at hnat
    exact BitVec.eq_of_toNat_eq hnat

end Adapters

theorem checkpoint_stored {c : Config} {env : BlockEnv} {sources : Sources} {s s' : State} {id : Nat}
    (h : checkpoint H c env sources s = .ok (s', id)) :
    env.blockNumber.toNat < 2 ^ 64 ∧ ∃ states : List CapturedState,
      List.Forall₂ (CapturedOf H c env.blockNumber sources) s.policy states ∧
      s'.captureManifests id = Composition.captureBytes (capturedManifest H c env s.policy states) ∧
      s'.checkpoints[id]? = some ⟨H.sha256 (s'.captureManifests id), UInt64.ofNat s.policy.length,
        UInt64.ofNat env.blockNumber.toNat⟩ := by
  unfold checkpoint revert at h
  obtain ⟨-, h⟩ := of_guard h
  obtain ⟨⟨manifest, ids⟩, hcapture, h⟩ := of_bind h
  obtain ⟨rfl, rfl⟩ := Prod.mk.inj (ok_inj h)
  obtain ⟨hblock, states, hstates, hbytes⟩ := capture_captured hcapture
  refine ⟨hblock, states, hstates, ?_, ?_⟩
  · exact (Function.update_self ..).trans hbytes
  · dsimp only
    rw [Function.update_self, getElem?_concat_length]

def Captures (H : Hashes) (adapters : Address → Immutables) (binder : Address) (s s' : State) : Prop :=
  ∃ env isAdapter w id, checkpoint H (config adapters binder) env
    (sources H adapters isAdapter env.toMsg w) s = .ok (s', id)

structure SamePolicy (s s' : State) : Prop where
  policy : s'.policy = s.policy
  root : s'.policyRoot = s.policyRoot
  manifestSha256 : s'.policyManifestSha256 = s.policyManifestSha256

theorem samePolicy_of_captures {adapters : Address → Immutables} {binder : Address} {s s' : State}
    (h : Relation.ReflTransGen (Captures H adapters binder) s s') : SamePolicy s s' := by
  induction h with
  | refl => exact ⟨rfl, rfl, rfl⟩
  | tail _ hlast ih =>
    obtain ⟨env, isAdapter, w, id, hcheckpoint⟩ := hlast
    have hdone := checkpoint_checkpointed hcheckpoint
    exact ⟨hdone.policy.trans ih.policy, hdone.policyRoot.trans ih.root,
      hdone.policyManifestSha256.trans ih.manifestSha256⟩

section Installed

variable {p : Composition.Params} {validated manifest : CalldataBytes} {commitment : Commitment}
  {c : Config} {msg : Msg} {sources : Sources} {s s' : State} {version : UInt64} {list : List Address}

/-- The policy that is installed from the bytes that the parameters commit to. -/
structure PolicyOf (H : Hashes) (c : Config) (p : Composition.Params) (commitment : Commitment)
    (manifest : CalldataBytes) (s : State) : Prop where
  records : s.policy.map (PolicySource.record H c) = policyRecords manifest commitment.sourceCount.toNat
  root : s.policyRoot = commitment.sourcePolicyRoot
  manifestSha256 : s.policyManifestSha256 = H.sha256 manifest.bytes
  chainId : ∀ source ∈ s.policy, (c.adapters source.adapter).chainId = p.chainId

/-- The records of the same bytes are the same, wherever they stand in the call data. -/
theorem policyOf_installed (haccepted : Accepted H p validated commitment)
    (hbytes : manifest.bytes = validated.bytes)
    (h : installPolicy H c msg sources s version manifest list = .ok s') :
    PolicyOf H c p commitment validated s' := by
  obtain ⟨installed, hvalid, hinstalled, hadapters⟩ := installPolicy_validated h
  have hpolicy : validatePolicyManifest H manifest (chain64 msg) (UInt64.ofNat (2 ^ 64 - 1)) =
      .ok installed := by
    unfold validatePolicy at hvalid
    obtain ⟨installed', hpolicy, hvalid⟩ := of_bind hvalid
    obtain ⟨-, hvalid⟩ := of_guard hvalid
    obtain ⟨⟨⟩, -, hvalid⟩ := of_bind hvalid
    obtain rfl := ok_inj hvalid
    exact renameError_eq_ok.mp hpolicy
  have hsame := validatePolicyManifest_bytes hpolicy
  rw [hbytes, haccepted.bytes] at hsame
  have hlength : ∀ (m : CalldataBytes) n,
      ((policyRecords m n).flatMap recordBytes).length = n * RECORD_LENGTH := by
    intro m n
    rw [length_flatMap, map_congr_left fun r _ => length_recordBytes r, map_const',
      sum_replicate, smul_eq_mul, policyRecords, length_records]
  have htotal := congrArg List.length hsame
  simp only [length_append, length_beBytes, length_singleton, hlength, RECORD_LENGTH] at htotal
  have hn : commitment.sourceCount.toNat = installed.sourceCount.toNat := by omega
  obtain ⟨hheader, hrecords⟩ := append_inj' hsame (by rw [hlength, hlength, hn])
  have hrecords' := records_of_flatMap_eq (by
    rw [policyRecords, policyRecords, length_records, length_records, hn]) hrecords
  obtain ⟨hheader, -⟩ := append_inj' hheader rfl
  have hchain := beBytes_injective (UInt64.toNat_lt _) (UInt64.toNat_lt _)
    (append_inj' hheader (by rw [length_beBytes, length_beBytes])).2
  have hroot := haccepted.validated.root
  have hroot' := hinstalled.validated.root
  have hroots : commitment.sourcePolicyRoot = installed.sourcePolicyRoot := by
    have hlists : records (loadWord validated.calldata) validated.offset
        commitment.sourceCount.toNat =
        records (loadWord manifest.calldata) manifest.offset installed.sourceCount.toNat := hrecords'
    rw [hlists, hroot'] at hroot
    exact (Option.some.inj hroot).symm
  refine ⟨hinstalled.records.trans hrecords'.symm, hinstalled.root.trans hroots.symm, ?_,
    fun source hsource => ?_⟩
  · rw [hinstalled.manifestSha256, hinstalled.validated.manifestSha256, hbytes]
  · obtain ⟨i, hi, ha⟩ := hadapters source hsource
    rw [validatePolicy_chainId hvalid hi ha]
    exact (UInt64.toNat_inj.mp hchain).symm

theorem sourceChecked_of_captured {policy : PolicySource} {state : CapturedState} {blockNumber : U256}
    (hblock : blockNumber.toNat < 2 ^ 64) (hrecord : RecordValid H p.maxSourceAgeBlocks (policy.record H c))
    (hstate : CapturedOf H c blockNumber sources policy state) (htotal : state.totalValue ≠ 0) :
    SourceChecked H p (UInt64.ofNat blockNumber.toNat) (capturedSource H c policy state) where
  sourceId := hrecord.sourceId
  snapshot := hrecord.snapshot
  familyId := hrecord.familyId
  composite := hrecord.composite
  admitted := admitted_eq_some hrecord.admitted
  required := rfl
  weight := hrecord.weight
  maxAgeBlocks := hrecord.maxAgeBlocks
  maximumAge := UInt64.not_lt.mp hrecord.maximumAge
  frozen := by
    rw [UInt64.le_iff_toNat_le, UInt64.toNat_ofNat_of_lt' hblock]
    exact hstate.frozen
  fresh := by
    have hle : state.freezeBlock ≤ UInt64.ofNat blockNumber.toNat := by
      rw [UInt64.le_iff_toNat_le, UInt64.toNat_ofNat_of_lt' hblock]
      exact hstate.frozen
    show UInt64.ofNat blockNumber.toNat - state.freezeBlock ≤ policy.maxAgeBlocks
    rw [UInt64.le_iff_toNat_le, UInt64.toNat_sub_of_le _ _ hle, UInt64.toNat_ofNat_of_lt' hblock]
    exact hstate.fresh
  totalValue := htotal

theorem policyChecked_of_records (haccepted : Accepted H p validated commitment) {m : CapturedManifest}
    (hrecords : m.sources.map CapturedSource.record = policyRecords validated commitment.sourceCount.toNat)
    (hchecked : ∀ s ∈ m.sources, SourceChecked H p m.captureBlock s) : PolicyChecked H p m := by
  have hvalid := haccepted.validated
  have hlists : records (loadWord validated.calldata) validated.offset commitment.sourceCount.toNat =
      m.sources.map CapturedSource.record := hrecords.symm
  have hascending := hvalid.ascending
  rw [hlists, pairwise_map] at hascending
  have hlength : m.sources.length = commitment.sourceCount.toNat := by
    rw [← length_map CapturedSource.record, hrecords, policyRecords, length_records]
  refine ⟨hchecked, hascending, ?_, ?_, ?_, ?_⟩
  · have hdistinct := hvalid.distinct
    rw [hlists, map_map] at hdistinct
    exact hdistinct
  · have hweights := hvalid.weightSum
    rw [hlists, map_map] at hweights
    exact hweights
  · rw [policyManifestEncoded_eq hascending, hrecords, hlength, UInt8.ofNat_toNat, ← haccepted.bytes,
      haccepted.manifestSha256]
  · have hroot := hvalid.root
    rw [hlists, map_map, haccepted.root] at hroot
    have hne : m.sources ≠ [] := by
      intro hnil
      have htwo := hvalid.two_le
      rw [← hlength, hnil] at htwo
      exact absurd htwo (by decide)
    have hsort : Composition.sortSources m.sources = m.sources :=
      List.Pairwise.insertionSort_eq (hascending.imp fun hlt => hlt.le)
    rw [Composition.sourcePolicyRoot, if_neg hne, hsort, ofPanic_eq_ok]
    exact hroot

end Installed

/-- A capture of an installed policy is a manifest that passes the checks of the policy. -/
theorem policyChecked_of_capture {adapters : Address → Immutables}
    {binder : Address} {p : Composition.Params} {validated : CalldataBytes} {commitment : Commitment}
    {s : State} {env : BlockEnv} {isAdapter : Address → Bool} {w : World}
    {states : List CapturedState} (haccepted : Accepted H p validated commitment)
    (hpolicy : PolicyOf H (config adapters binder) p commitment validated s)
    (hblock : env.blockNumber.toNat < 2 ^ 64) (hstates : List.Forall₂ (CapturedOf H (config adapters binder)
      env.blockNumber (sources H adapters isAdapter env.toMsg w))
      s.policy states) :
    (capturedManifest H (config adapters binder) env s.policy states).chainId = p.chainId ∧
    PolicyChecked H p (capturedManifest H (config adapters binder) env s.policy states) := by
  have hrecords := map_record_zipWith (H := H) (c := config adapters binder)
    hstates.length_eq
  have hmem : ∀ source ∈ s.policy, source.record H (config adapters binder) ∈
        policyRecords validated commitment.sourceCount.toNat := by
    intro source hsource
    rw [← hpolicy.records]
    exact mem_map_of_mem hsource
  constructor
  · -- the adapters are on the chain of the policy, and they read on no other one
    have hlength : s.policy.length = commitment.sourceCount.toNat := by
      have h := congrArg List.length hpolicy.records
      rwa [length_map, policyRecords, length_records] at h
    have htwo := haccepted.validated.two_le
    cases hs : s.policy with
    | nil =>
      rw [hs, length_nil] at hlength
      omega
    | cons source rest =>
      rw [hs] at hstates
      obtain ⟨state, -, hstate, -, -⟩ := forall₂_cons_left_iff.mp hstates
      have hchain := (readLatest_granted hstate.read).1
      have hpinned := hpolicy.chainId source (by rw [hs]; exact mem_cons_self)
      show UInt64.ofNat env.chainId.toNat = p.chainId
      have hlt := p.chainId.toNat_lt
      rw [hchain, show (adapters source.adapter).chainId = p.chainId from hpinned, BitVec.toNat_ofNat,
        Nat.mod_eq_of_lt (by omega), UInt64.ofNat_toNat]
  · refine policyChecked_of_records haccepted (hrecords.trans hpolicy.records) fun captured hcaptured => ?_
    obtain ⟨source, hsource, state, hstate, rfl⟩ := exists_of_mem_zipWith hstates hcaptured
    exact sourceChecked_of_captured hblock (haccepted.validated.valid _ (hmem source hsource)) hstate
      (readLatest_granted hstate.read).2

/-- A policy was accepted by the validator and installed, and `s` is the accumulator after any captures
since. Whatever the snapshots of the sources hold, when a checkpoint succeeds, the manifest that it stores
is one that the guest parses for the chain of the parameters; its sources pass all the checks of the
policy, and encoded again they are the policy that was installed. So whatever blobs a guest is given with
it, no check that comes before them fails. -/
theorem checkpoint_staticChecks (H : Hashes)
    (hclass : SOURCE_COMPATIBILITY_CLASS = Composition.sourceCompatibilityClassV1 H)
    (adapters : Address → Immutables) (binder : Address)
    (p : Composition.Params) (validated : CalldataBytes) (commitment : Commitment)
    (hvalidated : validateFinal H p validated = .ok commitment)
    (msg : Msg) (isAdapter : Address → Bool) (w : World) (version : UInt64)
    (manifest : CalldataBytes) (list : List Address) (s₀ s₁ s s' : State)
    (hbytes : manifest.bytes = validated.bytes) (hinstall : installPolicy H (config adapters binder) msg
      (sources H adapters isAdapter msg w) s₀ version manifest list = .ok s₁)
    (hsince : Relation.ReflTransGen (Captures H adapters binder) s₁ s)
    (env : BlockEnv) (isAdapter' : Address → Bool) (w' : World) (id : Nat)
    (hcheckpoint : checkpoint H (config adapters binder) env
      (sources H adapters isAdapter' env.toMsg w') s = .ok (s', id)) :
    ∃ m checkpoint, s'.checkpoints[id]? = some checkpoint ∧
      Composition.parseCaptureManifest (s'.captureManifests id) p.chainId = .ok m ∧
      PolicyChecked H p m ∧
      H.sha256 (Composition.policyManifestEncoded p.chainId m.sources) = s.policyManifestSha256 ∧
      Composition.sourcePolicyRoot H m.sources = .ok s.policyRoot ∧
      ∀ input : Composition.GuestInput, input.params = p → input.manifest = s'.captureManifests id →
        input.captureCommitment = checkpoint.acc → input.captureCount = checkpoint.leafCount →
        input.sourcePreimages.length = m.sources.length →
        Composition.staticChecks H input = .ok m := by
  have haccepted := accepted_of_validateFinal hvalidated
  have hinstalled := policyOf_installed haccepted hbytes hinstall
  have hsame := samePolicy_of_captures hsince
  have hpolicy : PolicyOf H (config adapters binder) p commitment validated s :=
    ⟨by rw [hsame.policy]; exact hinstalled.records, hsame.root.trans hinstalled.root,
      hsame.manifestSha256.trans hinstalled.manifestSha256, by rw [hsame.policy]; exact hinstalled.chainId⟩
  obtain ⟨hblock, states, hstates, hstored, hfrozen⟩ := checkpoint_stored hcheckpoint
  obtain ⟨hchain, hchecked⟩ := policyChecked_of_capture haccepted hpolicy hblock hstates
  obtain ⟨m, hm⟩ : ∃ m, m = capturedManifest H (config adapters binder) env
      s.policy states := ⟨_, rfl⟩
  rw [← hm] at hstored hchain hchecked
  have hlength : m.sources.length = s.policy.length := by
    rw [hm, capturedManifest, length_zipWith, hstates.length_eq, Nat.min_self]
  have hcount : s.policy.length = commitment.sourceCount.toNat := by
    have h := congrArg List.length hpolicy.records
    rwa [length_map, policyRecords, length_records] at h
  have hlt : m.sources.length < 256 := by
    rw [hlength, hcount]
    exact UInt8.toNat_lt _
  have hparsed : Composition.parseCaptureManifest (s'.captureManifests id) p.chainId = .ok m := by
    rw [hstored, ← hchain]
    exact Composition.parseCaptureManifest_captureBytes hlt
  refine ⟨m, _, hfrozen, hparsed, hchecked, ?_, ?_, fun input hp hman hacc hleaf hpre => ?_⟩
  · rw [hchecked.manifest, hpolicy.manifestSha256, haccepted.manifestSha256]
  · rw [hchecked.root, hpolicy.root, haccepted.root]
  · refine Composition.staticChecks_eq_ok.mpr ⟨?_, ?_, ?_, ?_, ?_, hpre, ?_⟩
    · rw [hp]
      exact validate_of_envelope hclass haccepted.envelope
    · rw [hman, hacc]
    · rw [hman, hp]
      exact hparsed
    · rw [hleaf, UInt64.toNat_ofNat_of_lt' (by rw [← hlength]; exact hlt.trans (by decide)), hlength]
    · rw [hp, ← haccepted.count, hlength, hcount]
    · rw [hp]
      exact hchecked

namespace CaptureExample

open Composition.CompositionExample (word addr name source1 source2 params)

def adapterOf (source : CapturedSource) (instanceId : B256) : Immutables where
  sourceId := source.sourceId
  snapshot := source.snapshot
  familyId := source.familyId
  programId := source.programId
  outputKind := name "allocation"
  chainId := 10
  deploymentProvenance := word 0x41
  instanceId := instanceId
  registryOrAccumulator := addr 0x42
  paramsAuthority := addr 0x43
  verifier := addr 0x44
  snapshotCodehash := word 0x45
  verifierCodehash := word 0x45
  programVKey := word 0x46

def adapters (a : Address) : Immutables :=
  if a = addr 0x51 then adapterOf source1 (word 0x61) else adapterOf source2 (word 0x62)

def snapshotOf (source : CapturedSource) : Storage where
  zkVerifier := addr 0x44
  anchorRegistry := 0
  paramsHash := word 0x47
  checkpointParamsHash := fun _ => word 0x47
  checkpointVerifier := fun _ => addr 0x44
  nextCheckpointId := 1
  anchorCheckpoints := fun _ => ⟨0, 0⟩
  checkpointWorkCount := fun _ => 0
  epochLength := 0
  epochOriginBlock := 0
  lastTriggerBlock := 90
  hasOperationalRole := fun _ => false
  accumulator := addr 0x42
  hasConstitutionalRole := fun _ => false
  checkpointRecipient := fun _ => 0
  lastAppliedCheckpoint := 0
  hasAppliedCheckpoint := true
  states := fun _ => ⟨90, 0, source.outputRoot, source.blobSha256, cidV1Raw source.blobSha256,
    source.totalValue.setWidth 256⟩
  stateProvenance := fun _ => ⟨0, 0, 95, word 0x47, addr 0x44, word 0x45, word 0x46⟩
  acceptedCheckpointStates := fun _ => zeroMerkleState
  acceptedCheckpointProvenance := fun _ => zeroProvenance
  acceptedCheckpoints := fun _ => false
  provenanceEnabled := true
  stateBlocks := [90]
  blockToStateIndex := fun _ => 0

def row (source : CapturedSource) : InstanceRegistry.Instance :=
  ⟨source.programId, source.snapshot, addr 0x44, addr 0x42, word 0x47⟩

def world : World where
  codehash := fun _ => word 0x45
  registry := {
    instances := fun id => if id = word 0x61 then row source1 else row source2
    isRegistered := fun _ => true
    paramsAuthority := fun _ => addr 0x43 }
  snapshots := fun a => if a = source1.snapshot then snapshotOf source1 else snapshotOf source2

def isAdapter (a : Address) : Bool := a = addr 0x51 ∨ a = addr 0x52

def list : List Address := [addr 0x51, addr 0x52]

def hashes : Hashes where
  keccak256 s :=
    if s = wordU256 32 ++ wordU256 2 ++ list.flatMap wordAddr then
      .ofNat 32 0x3f670b18ed114a928a07ca44e6a93944d767117a65c5ee76865cc81069f3baa4
    else Composition.CompositionExample.hashes.keccak256 s
  sha256 := Composition.CompositionExample.hashes.sha256

def manifest : CalldataBytes :=
  ⟨Composition.policyManifestEncoded 10 [source1, source2], 0, 345, by decide +kernel⟩

def start : State := { constructor with snapshot := addr 0x53, controller := addr 0x54 }

def governance : Msg := ⟨addr 0x54, 0, 10⟩

def env : BlockEnv := ⟨⟨addr 0x53, 0, 10⟩, 100⟩

theorem captured : validateFinal hashes params manifest =
      .ok ⟨params.sourcePolicyRoot, 2, params.policyManifestSha256, 10⟩ ∧
    (installPolicy hashes (config adapters (addr 0x55)) governance
    (sources hashes adapters isAdapter governance world) start 1 manifest list >>=
    checkpoint hashes (config adapters (addr 0x55)) env
      (sources hashes adapters isAdapter env.toMsg world)).isOk = true := by
  decide +kernel

end CaptureExample

open CaptureExample in
/-- The capture of two sources that published ten blocks ago. -/
theorem checkpoint_staticChecks_two_sources : ∃ s s' id m,
    checkpoint hashes (config adapters (.ofNat 20 0x55)) env
      (sources hashes adapters isAdapter env.toMsg world) s = .ok (s', id) ∧
    Composition.parseCaptureManifest (s'.captureManifests id) 10 = .ok m ∧
    PolicyChecked hashes Composition.CompositionExample.params m := by
  obtain ⟨⟨s', id⟩, hcaptured⟩ := isOk_iff.mp captured.2
  obtain ⟨s, hinstall, hcheckpoint⟩ := of_bind hcaptured
  obtain ⟨m, -, -, hparsed, hchecked, -⟩ := checkpoint_staticChecks hashes (by decide +kernel) adapters
    (.ofNat 20 0x55) Composition.CompositionExample.params manifest _ captured.1 governance isAdapter world 1
    manifest list start s s s' rfl hinstall .refl env isAdapter world id hcheckpoint
  exact ⟨s, s', id, m, hcheckpoint, hparsed, hchecked⟩

end Trustgraphs.CompositionSourceAccumulator
