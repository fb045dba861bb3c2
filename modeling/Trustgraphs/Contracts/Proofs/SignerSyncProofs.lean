import Trustgraphs.Contracts.Proofs.GovActivityProofs
import Trustgraphs.Contracts.Proofs.OwnerRotationProofs
import Trustgraphs.TrustgraphCore.Proofs.RevocationProofs

/-!
# What is selected, and what the signer module accepts

The module stores the hash of a policy that it has checked, and the activity that a selection
replays is that of the governance module.
-/

namespace Trustgraphs.SignerSyncZkModule

open Evm Signer OwnerManager Merkle Outcome Option List

section Selection

variable {H : Hashes} {env : Env} {s s' : Storage} {sp sp' : SelectionParams} {safe : OwnerManager}
  {owners : List Address} {checkpoint : MerkleGovModule.ActivityCheckpoint} {input : SignerInput}
  {result : SignerComputeResult} {base : ComputeResult}

structure Holds (H : Hashes) (s : Storage) (sp : SelectionParams) : Prop where
  hash : s.selectionParamsHash = Signer.selectionParamsHash H sp
  valid : SignerSelectionPolicy.isValid sp.topN sp.minThreshold sp.targetThresholdBps sp.maxInactiveBlocks
    sp.minActivityWitnesses = true

/-- The storages of a module, with the policy that was last set. Its owner, its avatar and its target are those of
the base contract. -/
inductive Reached (H : Hashes) : Storage → SelectionParams → Prop
  | constructed {s : Storage} {sp : SelectionParams} (owner avatar target zkVerifier accumulator scoreSnapshot
      activitySource : Address)
      (h : constructor H owner avatar target zkVerifier accumulator scoreSnapshot activitySource sp.topN
        sp.minThreshold sp.targetThresholdBps sp.maxInactiveBlocks sp.minActivityWitnesses = .ok s) : Reached H s sp
  | called {s s' : Storage} {sp : SelectionParams} (hs : Reached H s sp) (env : Env) (c : Call)
      (h : c.run H env s = .ok s') : Reached H s' sp
  | setSelectionParams {s s' : Storage} {sp sp' : SelectionParams} (hs : Reached H s sp) (env : Env)
      (h : setSelectionParams H env s sp'.topN sp'.minThreshold sp'.targetThresholdBps sp'.maxInactiveBlocks
        sp'.minActivityWitnesses = .ok s') : Reached H s' sp'
  | roles {s : Storage} {sp : SelectionParams} (hs : Reached H s sp) (owner avatar target : Address) :
      Reached H { s with owner, avatar, target } sp

theorem writeSelectionParams_holds (h : writeSelectionParams H s sp.topN sp.minThreshold sp.targetThresholdBps
    sp.maxInactiveBlocks sp.minActivityWitnesses = .ok s') : Holds H s' sp := by
  obtain ⟨hvalid, h⟩ := of_guard h
  obtain rfl := ok_inj h
  exact ⟨rfl, by simpa using hvalid⟩

theorem Call.run_hash {c : Call} (h : c.run H env s = .ok s') : s'.selectionParamsHash = s.selectionParamsHash := by
  cases c with
  | setZkVerifier zkVerifier =>
    obtain ⟨-, h⟩ := of_guard h
    obtain ⟨-, h⟩ := of_guard h
    obtain rfl := ok_inj h
    rfl
  | setAccumulator accumulator =>
    obtain ⟨-, h⟩ := of_guard h
    obtain ⟨-, h⟩ := of_guard h
    by_cases hsame : accumulator = s.accumulator
    · rw [if_pos hsame] at h
      obtain rfl := ok_inj h
      rfl
    · rw [if_neg hsame] at h
      obtain ⟨current, -, h⟩ := of_bind h
      obtain ⟨candidate, -, h⟩ := of_bind h
      obtain ⟨-, h⟩ := of_guard h
      obtain rfl := ok_inj h
      rfl
  | setActivitySource activitySource =>
    obtain ⟨-, h⟩ := of_guard h
    obtain ⟨-, h⟩ := of_guard h
    obtain rfl := ok_inj h
    rfl
  | setPaused paused =>
    obtain ⟨-, h⟩ := of_guard h
    obtain rfl := ok_inj h
    rfl
  | submitSignerProof safe checkpointId activityCheckpointId signers targetThreshold proof =>
    obtain ⟨⟨after, r⟩, hsubmit, h⟩ := of_bind h
    obtain rfl := ok_inj h
    obtain ⟨digest, -, hsubmit⟩ := of_bind hsubmit
    obtain ⟨-, hsubmit⟩ := of_guard hsubmit
    obtain ⟨r', -, hsubmit⟩ := of_bind hsubmit
    obtain ⟨rfl, rfl⟩ := Prod.mk.inj (ok_inj hsubmit)
    rfl

theorem Reached.holds (h : Reached H s sp) : Holds H s sp := by
  induction h with
  | constructed owner avatar target zkVerifier accumulator scoreSnapshot activitySource h =>
    obtain ⟨-, h⟩ := of_guard h
    exact writeSelectionParams_holds h
  | called hs env c h ih => exact ⟨(Call.run_hash h).trans ih.hash, ih.valid⟩
  | setSelectionParams hs env h ih =>
    obtain ⟨-, h⟩ := of_guard h
    exact writeSelectionParams_holds h
  | roles hs owner avatar target ih => exact ⟨ih.hash, ih.valid⟩

theorem selectionParamsPreimage_inj (h : selectionParamsPreimage sp = selectionParamsPreimage sp') : sp = sp' := by
  obtain ⟨h, hwitnesses⟩ := append_inj h (by simp)
  obtain ⟨h, hinactive⟩ := append_inj h (by simp)
  obtain ⟨h, hbps⟩ := append_inj h (by simp)
  obtain ⟨htop, hmin⟩ := append_inj h (by simp)
  obtain ⟨topN, minThreshold, targetThresholdBps, maxInactiveBlocks, minActivityWitnesses⟩ := sp
  obtain ⟨topN', minThreshold', targetThresholdBps', maxInactiveBlocks', minActivityWitnesses'⟩ := sp'
  obtain rfl := wordU32_inj.mp htop
  obtain rfl := wordU32_inj.mp hmin
  obtain rfl := wordU32_inj.mp hbps
  obtain rfl := wordU64_inj.mp hinactive
  obtain rfl := wordU32_inj.mp hwitnesses
  rfl

theorem Holds.bounds (h : Holds H s sp) : sp.topN.toNat ≤ 64 ∧ 2 ≤ sp.minThreshold.toNat := by
  have hvalid := h.valid
  simp only [SignerSelectionPolicy.isValid, Bool.and_eq_true, decide_eq_true_eq] at hvalid
  obtain ⟨⟨⟨⟨⟨⟨⟨⟨-, htop⟩, hmin⟩, -⟩, -⟩, -⟩, -⟩, -⟩, -⟩ := hvalid
  exact ⟨UInt32.le_iff_toNat_le.mp htop, UInt32.le_iff_toNat_le.mp hmin⟩

theorem ownerSetRoot_eq_ok {root : B256} :
    ownerSetRoot H owners = .ok root ↔ Signer.signerSetRoot H owners = some root := by
  rw [ownerSetRoot, OzMerkle.root_eq, Signer.signerSetRoot, seedSetRoot_eq]
  cases merkleRoot H (owners.map fun a => H.keccak256 (wordAddr a)) with
  | none => exact ⟨fun h => (nomatch h), fun h => (nomatch h)⟩
  | some root' => exact ⟨fun h => congrArg some (ok_inj h), fun h => congrArg Except.ok (Option.some.inj h)⟩

theorem signerSetRoot_perm {l l' : List Address} (h : l.Perm l') :
    Signer.signerSetRoot H l = Signer.signerSetRoot H l' := by
  rw [Signer.signerSetRoot, Signer.signerSetRoot, seedSetRoot_eq, seedSetRoot_eq]
  exact merkleRoot_perm (h.map _)

/-- The input says what the module, its Safe and a checkpoint of the activity have. -/
structure Against (H : Hashes) (s : Storage) (safe : OwnerManager) (owners : List Address)
    (checkpoint : MerkleGovModule.ActivityCheckpoint) (input : SignerInput) : Prop where
  owners : input.currentSigners.Perm owners
  threshold : input.currentThreshold = safe.threshold
  initialized : input.wasInitialized = s.hasAppliedCheckpoint
  selection : Signer.selectionParamsHash H input.selection = s.selectionParamsHash
  acc : input.activityCheckpoint.acc = checkpoint.acc
  count : input.activityCheckpoint.count = checkpoint.count
  blockNumber : input.activityCheckpoint.blockNumber = checkpoint.blockNumber

/-- The strings that are hashed for the policies and for the activity. -/
def selectionHashed (H : Hashes) (sp : SelectionParams) (w : MerkleGovModule.World) (input : SignerInput) :
    List Bytes :=
  [selectionParamsPreimage sp, selectionParamsPreimage input.selection] ++
    (activityHashed H (MerkleGovModule.activityLog w) ++ activityHashed H input.activity)

/-- A selection that applies: the module accepts its owners and its threshold, every owner has a score and has
voted lately, and so have enough accounts, which are owners once the module has applied a selection. -/
structure Applied (H : Hashes) (s : Storage) (owners : List Address) (scores : List (Address × U256))
    (input : SignerInput) (result : SignerComputeResult) : Prop where
  accepted : validateAndRoot H result.signers = .ok result.journal.signerSetRoot
  threshold : 2 ≤ result.targetThreshold.toNat ∧ result.targetThreshold.toNat ≤ result.signers.length
  scored : ∀ signer ∈ result.signers, Scored scores signer
  fresh : ∀ signer ∈ result.signers, FreshlyActive input signer
  witnesses : ∃ witnesses : List Address, witnesses.Nodup ∧
    input.selection.minActivityWitnesses.toNat ≤ witnesses.length ∧
    ∀ a ∈ witnesses, FreshlyActive input a ∧ if s.hasAppliedCheckpoint then a ∈ owners else Scored scores a

/-- A selection that does not apply: the owners, their root and the threshold are those of the Safe. -/
structure Kept (H : Hashes) (safe : OwnerManager) (owners : List Address)
    (result : SignerComputeResult) : Prop where
  signers : result.signers.Perm owners
  root : ownerSetRoot H owners = .ok result.journal.signerSetRoot
  threshold : result.targetThreshold = safe.threshold

/-- What the module checks besides the owners and the threshold. -/
structure Presented (H : Hashes) (env : Env) (s : Storage) (checkpoint : MerkleGovModule.ActivityCheckpoint)
    (checkpointId activityCheckpointId : U256) (journal : SignerJournal) : Prop where
  running : s.paused = false
  newer : ¬ (s.hasAppliedCheckpoint ∧ checkpointId.toNat ≤ s.lastAppliedCheckpoint.toNat)
  accumulator : ∃ c, env.getCheckpoint s.accumulator checkpointId = some c ∧ c.acc = journal.acc ∧
    c.leafCount = journal.leafCount
  pinned : env.checkpointParamsHash s.scoreSnapshot checkpointId = some journal.paramsHash
  paramsHash_ne : journal.paramsHash ≠ 0
  activity : env.getActivityCheckpoint s.activitySource activityCheckpointId = some checkpoint
  forward : ¬ activityCheckpointId < s.lastAppliedActivityCheckpoint
  past : ¬ env.blockNumber < checkpoint.blockNumber
  recent : ¬ checkpoint.blockNumber.toNat + (if s.maxInactiveBlocks < MAX_ACTIVITY_CHECKPOINT_AGE then
    s.maxInactiveBlocks else MAX_ACTIVITY_CHECKPOINT_AGE).toNat < env.blockNumber.toNat
  domain : journal.instanceDomain = H.keccak256 (wordAddr env.self ++ wordU256 env.chainId)

/-- The journal of a selection, with the roots of the owners before it and after it. -/
def selectionJournal (H : Hashes) (input : SignerInput) (base : Journal) (currentRoot root : B256)
    (threshold : U256) :
    SignerJournal where
  acc := base.acc
  leafCount := base.leafCount
  paramsHash := base.paramsHash
  selectionParamsHash := Signer.selectionParamsHash H input.selection
  activityAcc := input.activityCheckpoint.acc
  activityCount := input.activityCheckpoint.count
  activityBlock := input.activityCheckpoint.blockNumber
  wasInitialized := input.wasInitialized
  currentSignerSetRoot := currentRoot
  currentThreshold := input.currentThreshold
  signerSetRoot := root
  targetThreshold := threshold
  instanceDomain := input.instanceDomain

theorem computeSigners_eq_some (h : computeSigners H input = some result) :
    ∃ base, PagerankCore.compute H ⟨input.edges, input.params, ⟨0, 0⟩⟩ = some base ∧
      activitySelection H base.scores input = some
        (result.signers, result.targetThreshold, result.activityApplied) ∧
      ∃ currentRoot root, Signer.signerSetRoot H input.currentSigners = some currentRoot ∧
        Signer.signerSetRoot H result.signers = some root ∧
        result.journal = selectionJournal H input base.journal currentRoot root result.targetThreshold := by
  obtain ⟨base, hbase, h⟩ := bind_eq_some_iff.mp h
  obtain ⟨⟨signers, threshold, applied⟩, hselection, h⟩ := bind_eq_some_iff.mp h
  obtain ⟨currentRoot, hcurrent, h⟩ := bind_eq_some_iff.mp h
  obtain ⟨root, hroot, h⟩ := bind_eq_some_iff.mp h
  obtain rfl := Option.some.inj h
  exact ⟨base, hbase, hselection, currentRoot, root, hcurrent, hroot, rfl⟩

theorem Against.accounts {w : MerkleGovModule.World} (hS : CollisionFree H.keccak256 (selectionHashed H sp w input))
    (hlogged : MerkleGovModule.Logged H w) (hcheckpoint : checkpoint ∈ w.activityCheckpoints)
    (hagainst : Against H s safe owners checkpoint input) (hwitnessed : Witnessed H input) :
    ∀ record ∈ input.activity, valid record.account := by
  obtain ⟨earlier, later, hsplit, hacc, hcount⟩ := hlogged.checkpoints checkpoint hcheckpoint
  have hchain : activityChain H input.activity = activityChain H earlier :=
    hwitnessed.chain.symm.trans (hagainst.acc.trans hacc)
  have hlength : input.activity.length = earlier.length := by
    rw [← hwitnessed.count, hagainst.count, hcount]
  have hearlier : ∀ x ∈ activityHashed H earlier, x ∈ selectionHashed H sp w input := by
    intro x hx
    refine mem_append_right _ (mem_append_left _ ?_)
    rw [hsplit]
    exact activityHashed_subset_append earlier later hx
  have hlog : input.activity = earlier := activityChain_injective hS
    (fun x hx => mem_append_right _ (mem_append_right _ hx)) hearlier hlength hchain
  intro record hrecord
  refine hlogged.accounts record ?_
  rw [hsplit]
  exact mem_append_left _ (hlog ▸ hrecord)

theorem Against.policy {w : MerkleGovModule.World} (hS : CollisionFree H.keccak256 (selectionHashed H sp w input))
    (hholds : Holds H s sp) (hagainst : Against H s safe owners checkpoint input) : input.selection = sp := by
  have hinput : selectionParamsPreimage input.selection ∈ selectionHashed H sp w input :=
    mem_append_left _ (mem_cons_of_mem _ mem_cons_self)
  have hstored : selectionParamsPreimage sp ∈ selectionHashed H sp w input := mem_append_left _ mem_cons_self
  exact selectionParamsPreimage_inj (hS.inj _ hinput _ hstored (hagainst.selection.trans hholds.hash))

theorem wordU32_bool (b : Bool) : wordU32 (if b then 1 else 0) = wordBool b := by
  cases b with
  | false => decide
  | true => decide

theorem Presented.digest {journal : Journal} {currentRoot root : B256} {checkpointId activityCheckpointId : U256}
    {signers : List Address} {threshold : U256} (howners : currentOwners safe = .ok owners)
    (hagainst : Against H s safe owners checkpoint input)
    (hcurrent : Signer.signerSetRoot H input.currentSigners = some currentRoot)
    (haccepted : validateAndRoot H signers = .ok root)
    (hthreshold : 2 ≤ threshold.toNat ∧ threshold.toNat ≤ signers.length)
    (h : Presented H env s checkpoint checkpointId activityCheckpointId
      (selectionJournal H input journal currentRoot root threshold)) :
    signerProofDigest H env s safe checkpointId activityCheckpointId signers threshold =
      .ok (signerJournalDigest H (selectionJournal H input journal currentRoot root threshold)) := by
  obtain ⟨c, hc, hacc, hcount⟩ := h.accumulator
  have hroot : ownerSetRoot H owners = .ok currentRoot := by
    rw [ownerSetRoot_eq_ok, ← signerSetRoot_perm hagainst.owners, hcurrent]
  have hout : ¬ (threshold.toNat < 2 ∨ signers.length < threshold.toNat) := by omega
  rw [signerProofDigest, if_neg (by rw [h.running]; decide), if_neg h.newer, hc, h.pinned, h.activity]
  simp only [answer, Option.elim_some, ok_bind, if_neg h.paramsHash_ne, if_neg h.forward,
    if_neg h.past, if_neg h.recent,
    howners, hroot, haccepted, if_neg hout]
  have hencoded : signerJournalEncoded (selectionJournal H input journal currentRoot root threshold) =
      c.acc.bytes ++ wordU64 c.leafCount ++ journal.paramsHash.bytes ++ s.selectionParamsHash.bytes ++
        checkpoint.acc.bytes ++ wordU64 checkpoint.count ++ wordU64 checkpoint.blockNumber ++
        wordBool s.hasAppliedCheckpoint ++ currentRoot.bytes ++ wordU256 safe.threshold ++ root.bytes ++
        wordU256 threshold ++ (H.keccak256 (wordAddr env.self ++ wordU256 env.chainId)).bytes := by
    rw [hacc, hcount, ← hagainst.selection, ← hagainst.acc, ← hagainst.count, ← hagainst.blockNumber,
      ← hagainst.initialized, ← hagainst.threshold, ← h.domain, ← wordU32_bool]
    rfl
  rw [signerJournalDigest, hencoded]
  rfl

/-- A selection against the storage that the module reaches and a checkpoint of the governance module either
applies, and the module accepts it, or leaves what the Safe has. A proof of an applied selection that passes the
other checks is of the digest that the module computes. -/
theorem computeSigners_accepted {w : MerkleGovModule.World} {events : List MerkleGovModule.Event}
    (hmodule : Reached H s sp) (howners : currentOwners safe = .ok owners)
    (hstart : MerkleGovModule.Start w) (hsenders : ∀ event ∈ events, MerkleGovModule.SenderValid event)
    (hcheckpoint : checkpoint ∈ (MerkleGovModule.run H w events).world.activityCheckpoints)
    (hagainst : Against H s safe owners checkpoint input)
    (hS : CollisionFree H.keccak256 (selectionHashed H sp (MerkleGovModule.run H w events).world input))
    (h : computeSigners H input = some result) :
    ∃ base, PagerankCore.compute H ⟨input.edges, input.params, ⟨0, 0⟩⟩ = some base ∧
      (result.activityApplied = true → Applied H s owners base.scores input result ∧
        ∀ env checkpointId activityCheckpointId,
          Presented H env s checkpoint checkpointId activityCheckpointId result.journal →
          signerProofDigest H env s safe checkpointId activityCheckpointId result.signers result.targetThreshold =
            .ok (signerJournalDigest H result.journal)) ∧
      (result.activityApplied = false → Kept H safe owners result) := by
  obtain ⟨base, hbase, hselection, currentRoot, root, hcurrent, hroot, hjournal⟩ := computeSigners_eq_some h
  obtain ⟨hwitnessed, happlied, hkept⟩ := activitySelection_eq_some (PagerankCore.scores_nodup hbase) hselection
  have hpolicy : input.selection = sp := hagainst.policy hS hmodule.holds
  obtain ⟨htop, hmin⟩ := hmodule.holds.bounds
  refine ⟨base, hbase, fun htrue => ?_, fun hfalse => ?_⟩
  · have hselected := happlied htrue
    have hvalid : ∀ signer ∈ result.signers, valid signer := by
      intro signer hsigner
      obtain ⟨record, hrecord, haccount, -⟩ := hselected.fresh signer hsigner
      exact haccount ▸ hagainst.accounts hS (MerkleGovModule.run_logged H hstart hsenders) hcheckpoint hwitnessed
        record hrecord
    have htwo : 2 ≤ result.signers.length := hselected.two_le.trans hselected.minimum_le
    have hlength : result.signers.length ≤ 64 := by
      have hle := hselected.length_le
      rw [hpolicy] at hle
      exact hle.trans htop
    have haccepted : validateAndRoot H result.signers = .ok root :=
      validateAndRoot_eq_ok.mpr ⟨⟨htwo, hlength⟩, hvalid, hselected.sorted, ownerSetRoot_eq_ok.mpr hroot⟩
    have hthreshold : 2 ≤ result.targetThreshold.toNat ∧ result.targetThreshold.toNat ≤ result.signers.length := by
      rw [hselected.threshold_eq, hpolicy]
      exact ⟨two_le_targetThreshold hmin htwo, targetThreshold_le sp (by omega)⟩
    refine ⟨⟨?_, hthreshold, hselected.scored, hselected.fresh, ?_⟩, ?_⟩
    · rw [hjournal]
      exact haccepted
    · obtain ⟨witnesses, hnodup, henough, hall⟩ := hselected.witnesses
      refine ⟨witnesses, hnodup, henough, fun a ha => ⟨(hall a ha).1, ?_⟩⟩
      have hcase := (hall a ha).2
      rw [hagainst.initialized] at hcase
      split_ifs at hcase ⊢
      · exact hagainst.owners.mem_iff.mp hcase
      · exact hcase
    · intro env checkpointId activityCheckpointId hpresented
      rw [hjournal] at hpresented ⊢
      exact hpresented.digest howners hagainst hcurrent haccepted hthreshold
  · obtain ⟨hperm, hthreshold⟩ := hkept hfalse
    refine ⟨hperm.trans hagainst.owners, ?_, hthreshold.trans hagainst.threshold⟩
    rw [ownerSetRoot_eq_ok, ← signerSetRoot_perm (hperm.trans hagainst.owners), hroot, hjournal]
    rfl

end Selection

namespace SelectionExample

open OzMerkle.Example (addr word)

def founder : Address := addr 6

def safe : OwnerManager where
  self := addr 4
  owners a := if a = SENTINEL then founder else if a = founder then SENTINEL else 0
  ownerCount := 1
  threshold := 1

def policy : SelectionParams := ⟨5, 2, 5000, 151200, 2⟩

def params : Params :=
  { TrustgraphCore.RevocationExample.params with trustedSeeds := [addr 1, addr 2], envelope0DomainSeparators := [] }

def vouch : RawEdge := ⟨0, addr 1, addr 2, 0, 100, List.replicate 63 0 ++ [95]⟩

def votes : List SignerActivity := [⟨addr 2, 1, 101⟩, ⟨addr 1, 1, 101⟩]

def head1 : B256 := word 0xe2d7b459de6dfc0d31d9511396a89875db98aa995fc749d5ba74c070018caecc

def head2 : B256 := word 0xf88d89121b8cdec3c58742ae29a2fc7f259f4a92907f1835b4fcc0a29e0ef09c

def dataHash : B256 := word 0x2f3542b7cb9207ce24a57b545dbcd536897a45c9d0e317421e8f5a891a7b7c06

def vouchLeaf : B256 := word 0xa234d82d8299c1f9ae4f453216e4b44ebbdd540510fd16036071763a79dc7e86

def seed1 : B256 := word 0xe4d47a1e33cbc779a23009a9cb602e84ba1bb1b9906177d37611329debea8811

def seed2 : B256 := word 0x1cb3aae5df623484f5cd10ef87cc287a41b4902667fbf263b1c0d290cb3f7ead

def seedRoot : B256 := word 0xaecb023ce0c4eea427a3edb2e62eaa398eb9c74b501848f147b6afe238776689

def keccakTable : List (Bytes × B256) :=
  [(vouch.data, dataHash), (edgePreimage 0 (addr 1) (addr 2) 0 100 dataHash, vouchLeaf),
    (foldPreimage 0 vouchLeaf, word 0x503d201f3e36a6d337a9f5f74acae06a180e487dda1124bdbb74d31d979de73d),
    (wordAddr (addr 1), seed1), (wordAddr (addr 2), seed2), (pairPreimage seed1 seed2, seedRoot),
    (paramsPreimage params seedRoot 0, word 0xa2fa80d7a9f696d1b19479641df21dd5f9cdf7c0515daa4ed297383a8eedb9e2),
    (selectionParamsPreimage policy, word 0x3be41e0203ce20307d89ee48a820a9374d4d3a9d023d049cc9f5f04a06ba14f3),
    (activityPreimage 0 1 ⟨addr 2, 1, 101⟩, head1), (activityPreimage head1 2 ⟨addr 1, 1, 101⟩, head2),
    (wordAddr founder, word 0x78af3fc99ce338b19f68638110b898644bc60303bb80ac757d08c36d8d6399b7),
    (wordAddr (addr 1) ++ wordU256 10, OzMerkle.Example.inner1),
    (wordAddr (addr 2) ++ wordU256 20, OzMerkle.Example.inner2),
    (OzMerkle.Example.inner1.bytes, OzMerkle.Example.leaf1),
    (OzMerkle.Example.inner2.bytes, OzMerkle.Example.leaf2),
    (OzMerkle.Example.leaf1.bytes ++ OzMerkle.Example.leaf2.bytes, OzMerkle.Example.rootWord)]

def hashes : Hashes where
  keccak256 s := ((keccakTable.find? fun e => e.1 == s).map Prod.snd).getD 0
  sha256 _ := 0

def checkpoint : MerkleGovModule.ActivityCheckpoint := ⟨head2, 2, 101⟩

def input : SignerInput where
  edges := [vouch]
  params := params
  selection := policy
  activity := votes
  activityCheckpoint := ⟨head2, 2, 101⟩
  currentSigners := [founder]
  currentThreshold := 1
  wasInitialized := false
  instanceDomain := 0

def constructed : Result Storage :=
  constructor hashes founder (addr 4) (addr 4) (addr 10) (addr 11) (addr 12)
    (addr 13) policy.topN policy.minThreshold
    policy.targetThresholdBps policy.maxInactiveBlocks policy.minActivityWitnesses

theorem exists_reached : ∃ s, constructed = .ok s ∧ Reached hashes s policy := by
  have hok : constructed.toOption.isSome = true := by decide
  obtain ⟨s, hs⟩ := isSome_iff_exists.mp hok
  rw [toOption_eq_some] at hs
  exact ⟨s, hs, .constructed _ _ _ _ _ _ _ hs⟩

theorem constructed_against : ∀ s, constructed = .ok s → Against hashes s safe [founder] checkpoint input := by
  intro s hs
  rw [constructed, constructor] at hs
  obtain ⟨-, hs⟩ := of_guard hs
  obtain ⟨-, hs⟩ := of_guard hs
  obtain rfl := ok_inj hs
  exact ⟨.refl _, rfl, rfl, rfl, rfl, rfl, rfl⟩

theorem voting_selects : (MerkleGovModule.GovExample.constructed.toOption.map fun w =>
    let w := (MerkleGovModule.run hashes w MerkleGovModule.GovExample.voting).world
    (w.activityCheckpoints.getLast?, MerkleGovModule.activityLog w)) = some (some checkpoint, votes) ∧
    (computeSigners hashes input).map (fun r => (r.signers, r.targetThreshold, r.activityApplied)) =
      some ([addr 1, addr 2], 2, true) := by
  decide +kernel

theorem voting_senders : ∀ event ∈ MerkleGovModule.GovExample.voting, MerkleGovModule.SenderValid event := by
  intro event he
  simp only [MerkleGovModule.GovExample.voting, mem_cons, not_mem_nil, or_false] at he
  rcases he with rfl | rfl | rfl | rfl | rfl | rfl
  · exact show valid (addr 1) by decide
  · trivial
  · exact show valid (addr 2) by decide
  · exact show valid (addr 3) by decide
  · exact show valid (addr 2) by decide
  · exact show valid (addr 1) by decide

theorem exists_voted : ∃ w, MerkleGovModule.Start w ∧
    checkpoint ∈ (MerkleGovModule.run hashes w MerkleGovModule.GovExample.voting).world.activityCheckpoints ∧
    MerkleGovModule.activityLog (MerkleGovModule.run hashes w MerkleGovModule.GovExample.voting).world = votes := by
  obtain ⟨w, hw, hstart⟩ := MerkleGovModule.GovExample.exists_start
  have h := voting_selects.1
  rw [hw] at h
  obtain ⟨hlast, hlog⟩ := Prod.mk.inj (Option.some.inj h)
  exact ⟨w, hstart, mem_of_getLast? hlast, hlog⟩

theorem exists_selected : ∃ result, computeSigners hashes input = some result ∧ result.signers = [addr 1, addr 2] ∧
    result.activityApplied = true := by
  have h := voting_selects.2
  cases hresult : computeSigners hashes input with
  | none =>
    rw [hresult] at h
    exact nomatch h
  | some result =>
    rw [hresult] at h
    obtain ⟨hsigners, h⟩ := Prod.mk.inj (Option.some.inj h)
    exact ⟨result, rfl, hsigners, (Prod.mk.inj h).2⟩

end SelectionExample

open SelectionExample in
/-- Two members are selected for the first rotation, in place of the founder. -/
theorem computeSigners_accepted_first : ∃ s, ∃ base : ComputeResult, ∃ result, constructed = .ok s ∧
    computeSigners hashes input = some result ∧ Applied hashes s [founder] base.scores input result := by
  obtain ⟨s, hs, hreached⟩ := exists_reached
  obtain ⟨w, hstart, hcheckpoint, hlog⟩ := exists_voted
  obtain ⟨result, hresult, -, happlied⟩ := exists_selected
  have howners : currentOwners safe = .ok [founder] := by decide
  have hS : CollisionFree hashes.keccak256 (selectionHashed hashes policy
      (MerkleGovModule.run hashes w MerkleGovModule.GovExample.voting).world input) := by
    rw [selectionHashed, hlog]
    exact ⟨by decide +kernel, by decide +kernel⟩
  obtain ⟨base, -, haccepted, -⟩ := computeSigners_accepted hreached howners hstart voting_senders hcheckpoint
    (constructed_against s hs) hS hresult
  exact ⟨s, base, result, hs, hresult, (haccepted happlied).1⟩

open SelectionExample in
/-- The first rotation drops the founder, although no owner has voted. -/
theorem first_rotation_drops_founder : ∃ s w result, Reached hashes s policy ∧ currentOwners safe = .ok [founder] ∧
    MerkleGovModule.Start w ∧
    checkpoint ∈ (MerkleGovModule.run hashes w MerkleGovModule.GovExample.voting).world.activityCheckpoints ∧
    Against hashes s safe [founder] checkpoint input ∧ computeSigners hashes input = some result ∧
    result.activityApplied = true ∧ founder ∉ result.signers ∧
    ¬ ∃ witnesses : List Address, input.selection.minActivityWitnesses.toNat ≤ witnesses.length ∧
      ∀ a ∈ witnesses, FreshlyActive input a ∧ a ∈ [founder] := by
  obtain ⟨s, hs, hreached⟩ := exists_reached
  obtain ⟨w, hstart, hcheckpoint, -⟩ := exists_voted
  obtain ⟨result, hresult, hsigners, happlied⟩ := exists_selected
  refine ⟨s, w, result, hreached, by decide, hstart, hcheckpoint, constructed_against s hs, hresult, happlied,
    ?_, ?_⟩
  · rw [hsigners]
    decide
  · rintro ⟨witnesses, henough, hall⟩
    cases witnesses with
    | nil => exact absurd henough (by decide)
    | cons a rest =>
      obtain ⟨⟨record, hrecord, haccount, -⟩, hmem⟩ := hall a mem_cons_self
      rw [mem_singleton.mp hmem] at haccount
      have hnone : ∀ record ∈ votes, record.account ≠ founder := by decide
      exact hnone record hrecord haccount

end Trustgraphs.SignerSyncZkModule
