import Trustgraphs.PagerankCore.Proofs.ComputeProofs
import Trustgraphs.TrustgraphCore.Compute
import Trustgraphs.TrustgraphCore.Proofs.RevocationProofs

/-!
# One statement, one root

The journal fields that the chain pins determine the edges of both lanes and the parameters up to
the order of the seeds.
-/

namespace Trustgraphs.TrustgraphCore

open Outcome Option

section

variable {H : Hashes} {K : K256}

theorem rankConfig_congr {p q : Params} (hq : q = { p with trustedSeeds := q.trustedSeeds })
    (h : p.trustedSeeds.Perm q.trustedSeeds) :
    PagerankCore.rankConfig q = PagerankCore.rankConfig p := by
  have hseeds : BTreeSet.ofList q.trustedSeeds = BTreeSet.ofList p.trustedSeeds :=
    BTreeSet.ofList_eq_of_mem_iff fun a => h.symm.mem_iff
  unfold PagerankCore.rankConfig
  rw [hseeds]
  rw [hq]

/-- What lane 2 was given, nothing when it was left out. -/
def witnessOf (lane2 : Option Lane2Witness) : Lane2Witness := lane2.getD ⟨[], [], []⟩

theorem runLane2_commits {p : Params} {lane2 : Option Lane2Witness} {r : Lane2.Lane2Result}
    (h : runLane2 H K p lane2 = some r) :
    r.anchorAcc = Lane2.anchorAcc H (witnessOf lane2).anchors ∧ r.skips = [] := by
  cases lane2 with
  | none =>
    simp only [runLane2, Option.ite_none_right_eq_some, Option.some.injEq] at h
    obtain ⟨-, rfl⟩ := h
    exact ⟨rfl, rfl⟩
  | some w => exact Lane2.process_commits (toOption_eq_some.mp h)

theorem runLane2_edges {S : List Bytes} (hS : CollisionFree H.sha256 S) {p : Params}
    {lane2 lane2' : Option Lane2Witness} {r r' : Lane2.Lane2Result}
    (hw : ∀ s ∈ Lane2.payloadsHashed (witnessOf lane2), s ∈ S)
    (hw' : ∀ s ∈ Lane2.payloadsHashed (witnessOf lane2'), s ∈ S)
    (hanchors : (witnessOf lane2).anchors = (witnessOf lane2').anchors)
    (h : runLane2 H K p lane2 = some r) (h' : runLane2 H K p lane2' = some r') :
    r.edges = r'.edges := by
  -- without separators the lane has to be left out, with separators it has to be given
  have hdisabled : ∀ {w : Lane2Witness} {q : Lane2.Lane2Result}, runLane2 H K p none = some q →
      ∀ {u}, runLane2 H K p (some w) ≠ some u := by
    intro w q hq u hu
    simp only [runLane2, Option.ite_none_right_eq_some, Bool.and_eq_true, List.isEmpty_iff] at hq
    have hproc := toOption_eq_some.mp hu
    rw [Lane2.process, hq.1.1] at hproc
    exact Lane2.fail_ne_ok hproc
  cases lane2 with
  | none =>
    cases lane2' with
    | none => rw [some_inj.mp (h.symm.trans h')]
    | some w' => exact absurd h' (hdisabled h)
  | some w =>
    cases lane2' with
    | none => exact absurd h (hdisabled h')
    | some w' =>
      exact Lane2.process_related hS hw hw' hanchors r r' (toOption_eq_some.mp h)
        (toOption_eq_some.mp h')

/-- The strings hashed with Keccak-256 for the commitments that the chain pins. -/
def keccakHashed (H : Hashes) (input : GuestInput) : List Bytes :=
  accumulateHashed H input.edges ++ Lane2.anchorsHashed H (witnessOf input.lane2).anchors ++
    Encode.paramsHashed H input.params

def sha256Hashed (input : GuestInput) : List Bytes := Lane2.payloadsHashed (witnessOf input.lane2)

/-- One statement, one root: two provers whose journals agree on what the chain pins commit the same
outputs, whatever payloads, authorizations, signatures or order of seeds they supplied. -/
theorem compute_sound (H : Hashes) (K : K256) (x y : GuestInput) (rx ry : ComputeResult)
    (hkeccak : CollisionFree H.keccak256 (keccakHashed H x ++ keccakHashed H y))
    (hsha : CollisionFree H.sha256 (sha256Hashed x ++ sha256Hashed y))
    (hx : compute H K x = some rx) (hy : compute H K y = some ry) (hacc : rx.journal.acc = ry.journal.acc)
    (_hleafCount : rx.journal.leafCount = ry.journal.leafCount)
    (hanchorAcc : rx.journal.anchorAcc = ry.journal.anchorAcc)
    (_hanchorCount : rx.journal.anchorCount = ry.journal.anchorCount)
    (hparams : rx.journal.paramsHash = ry.journal.paramsHash) :
    rx.journal.outputRoot = ry.journal.outputRoot ∧ rx.journal.totalValue = ry.journal.totalValue ∧
      rx.journal.ipfsHash = ry.journal.ipfsHash ∧ rx.journal.cidDigest = ry.journal.cidDigest ∧
      rx.journal.skippedDigest = ry.journal.skippedDigest := by
  simp only [compute, bind_eq_bind, bind_eq_some_iff, Option.some.injEq, Prod.exists] at hx hy
  obtain ⟨ph, hph, l, hl, g, hg, rk, hrk, as, tv, has, root, hroot, rfl⟩ := hx
  obtain ⟨ph', hph', l', hl', g', hg', rk', hrk', as', tv', has', root', hroot', rfl⟩ := hy
  simp only at hacc hanchorAcc hparams
  have hleft : ∀ s ∈ keccakHashed H x, s ∈ keccakHashed H x ++ keccakHashed H y :=
    fun s hs => List.mem_append_left _ hs
  have hright : ∀ s ∈ keccakHashed H y, s ∈ keccakHashed H x ++ keccakHashed H y :=
    fun s hs => List.mem_append_right _ hs
  -- lane 1
  have hedges : x.edges = y.edges :=
    accumulate_fst_injective hkeccak (fun s hs => hleft s (by simp [keccakHashed, hs]))
      (fun s hs => hright s (by simp [keccakHashed, hs])) hacc
  -- the parameters
  subst hparams
  obtain ⟨hq, hperm⟩ := Encode.paramsHash_injective hkeccak
    (fun s hs => hleft s (by simp [keccakHashed, hs]))
    (fun s hs => hright s (by simp [keccakHashed, hs])) hph hph'
  -- lane 2
  obtain ⟨hcommit, hskips⟩ := runLane2_commits hl
  obtain ⟨hcommit', hskips'⟩ := runLane2_commits hl'
  have hanchors : (witnessOf x.lane2).anchors = (witnessOf y.lane2).anchors :=
    Lane2.anchorAcc_injective hkeccak (fun s hs => hleft s (by simp [keccakHashed, hs]))
      (fun s hs => hright s (by simp [keccakHashed, hs])) (hcommit.symm.trans (hanchorAcc.trans hcommit'))
  have hl'' : runLane2 H K x.params y.lane2 = some l' := by
    rw [← hl', hq]
    rfl
  have hlane : l.edges = l'.edges :=
    runLane2_edges hsha (fun s hs => List.mem_append_left _ hs)
      (fun s hs => List.mem_append_right _ hs) hanchors hl hl''
  -- the rest is a function of these
  have hgraph : g = g' := by
    have hb : Reconcile.buildGraph (y.edges ++ l'.edges) y.params =
        Reconcile.buildGraph (y.edges ++ l'.edges) x.params := by
      rw [hq]
      rfl
    rw [hb, ← hedges, ← hlane, hg, some_inj] at hg'
    exact hg'
  subst hgraph
  rw [rankConfig_congr hq hperm, hrk, some_inj] at hrk'
  subst hrk'
  have hd : Distribute.distributePoints (rk.scores.toList.filter fun e => e.2 != 0) y.params =
      Distribute.distributePoints (rk.scores.toList.filter fun e => e.2 != 0) x.params := by
    rw [hq]
    rfl
  rw [hd, has, some_inj, Prod.mk.injEq] at has'
  obtain ⟨rfl, rfl⟩ := has'
  rw [hroot, some_inj] at hroot'
  exact ⟨hroot', rfl, rfl, rfl, by rw [hskips, hskips']⟩

end

/-! One vouch on chain, which a log off chain revokes, and a vouch that stands. Every hash is a real one. -/

namespace Example

open RevocationExample

def input (seeds : List Address) (lane2 : Lane2Witness) (recipient : UInt8) : GuestInput :=
  ⟨[vouch], { params with trustedSeeds := seeds }, some lane2, ⟨.replicate 20 recipient, 0⟩⟩

def leaf : B256 := .ofNat 32 0xcf912f726c4fba87675785a31f2195ed1b4318c6e1f3faf1f8f4600dbe0d58fd

def seedRoot : B256 := .ofNat 32 0x528ec4302eea6221220ebeae9f37ef81215fb615a508d4e7e665a7746edd06a1

def domains : B256 := .ofNat 32 0xe90b7bceb6e7df5418fb78d8ee546e97c83a08bbccc01a0644d599ccd2a7c2e0

def out1 : B256 := .ofNat 32 0xfc8229d8bfd1bdf22322ae137af2bac68122231312de9d5057b9bf8ceda6b527

def out2 : B256 := .ofNat 32 0x18ffbcd1b85eae6a522fa16d2c0560fbbbda26254339d91d360906a76e82eee3

def out3 : B256 := .ofNat 32 0xf1565ce5c2080ff49a91ba819b68dd14531de1b1be13b8be676922388825875f

def outLeaf1 : B256 := .ofNat 32 0x1c5d2a97588dbc6e5efa2d093a1ba495960bbc1fcb7111a73edbd0ea8e70128a

def outLeaf2 : B256 := .ofNat 32 0xba2654b1dc5cf38e072377d8e0a11dc026f05ca64581daf9bb99356a90ec9c0d

def outLeaf3 : B256 := .ofNat 32 0x2ab6c3efaa30dfd69a0b3a75985e354c107f38d22b9d986a13cd04d5084e6a05

def outNode : B256 := .ofNat 32 0x26635a2426c0194356ecbbda62ec2a7e1b7d29b5b2ca91b0633880f8cd38aa53

def blobDigest : B256 := .ofNat 32 0x57d1394c770866eab387b3abc0a888bd8db8b7c1398c6c554a34d0404dea9e1a

def keccakTable : List (Bytes × B256) :=
  RevocationExample.keccakTable ++ [(edgePreimage 0 owner1 RevocationExample.recipient 0 50 dataHash, leaf),
      (foldPreimage 0 leaf, .ofNat 32 0x5c0befd5f467f153a85da8b97ae4782f3f962a2d528192550fbf6e3253036faf),
      (pairPreimage node1 node2, seedRoot),
      ((FixedBytes.ofNat 32 1).bytes ++ (FixedBytes.ofNat 32 2).bytes, domains),
      (paramsPreimage params seedRoot domains,
        .ofNat 32 0xf8f2b5bf2e68d7e644f3f5dfbb75cc141d539ca81a64277b890ea6b94d00a3e5),
      (wordAddr RevocationExample.recipient ++ wordU256 739, out1), (out1.bytes, outLeaf1),
      (wordAddr owner2 ++ wordU256 131, out2), (out2.bytes, outLeaf2),
      (wordAddr owner1 ++ wordU256 130, out3), (out3.bytes, outLeaf3),
      (pairPreimage outLeaf1 outLeaf3, outNode),
      (pairPreimage outNode outLeaf2,
        .ofNat 32 0xb10a86ac27ae7429e6bfdcf25947e64329c133a8c3b62e3991d35fead1c82cd5),
      (cidV1Raw blobDigest, .ofNat 32 0xc1d1b30c36625891b4055cc55353bc300c9485cf0c0052c2b16031c136d5fd96)]

def hashes : Hashes where
  keccak256 s := ((keccakTable.find? fun e => e.1 == s).map Prod.snd).getD 0
  sha256 s :=
    if s = canonicalBlob [(RevocationExample.recipient, 739), (owner2, 131), (owner1, 130)] then blobDigest
    else RevocationExample.hashes.sha256 s

def left : GuestInput := input [owner1, owner2] witness 7

def right : GuestInput :=
  input [owner2, owner1]
    { witness with payloads := witness.payloads.reverse, authorizations := witness.authorizations.reverse } 8

/-- What the chain pins of a journal. -/
def pinned (r : ComputeResult) : B256 × UInt64 × B256 × UInt64 × B256 :=
  let journal := r.journal
  (journal.acc, journal.leafCount, journal.anchorAcc, journal.anchorCount, journal.paramsHash)

theorem runs_agree : ((compute hashes k256 left).map pinned).isSome = true ∧
    (compute hashes k256 left).map pinned = (compute hashes k256 right).map pinned := by
  decide +kernel

theorem left_isSome : (compute hashes k256 left).isSome = true := by
  have h := runs_agree.1
  rwa [isSome_map] at h

theorem right_isSome : (compute hashes k256 right).isSome = true := by
  have h := runs_agree.1
  rwa [runs_agree.2, isSome_map] at h

theorem hashed_collisionFree : (∀ s ∈ keccakHashed hashes left ++ keccakHashed hashes right,
      ∀ t ∈ keccakHashed hashes left ++ keccakHashed hashes right,
        hashes.keccak256 s = hashes.keccak256 t → s = t) ∧
      ∀ s ∈ keccakHashed hashes left ++ keccakHashed hashes right, hashes.keccak256 s ≠ 0 := by
  decide +kernel

theorem payloads_collisionFree :
    (∀ s ∈ sha256Hashed left ++ sha256Hashed right, ∀ t ∈ sha256Hashed left ++ sha256Hashed right,
      hashes.sha256 s = hashes.sha256 t → s = t) ∧
      ∀ s ∈ sha256Hashed left ++ sha256Hashed right, hashes.sha256 s ≠ 0 := by
  decide +kernel

end Example

open Example RevocationExample in
/-- Two provers with the seeds, the payloads and the authorizations in a different order commit the same root. -/
theorem compute_sound_two_seeds :
    let rx := (compute Example.hashes k256 left).get left_isSome
    let ry := (compute Example.hashes k256 right).get right_isSome
    rx.journal.outputRoot = ry.journal.outputRoot ∧ rx.journal.totalValue = ry.journal.totalValue ∧
      rx.journal.ipfsHash = ry.journal.ipfsHash ∧ rx.journal.cidDigest = ry.journal.cidDigest ∧
      rx.journal.skippedDigest = ry.journal.skippedDigest := by
  intro rx ry
  have hx : compute Example.hashes k256 left = some rx := (Option.some_get left_isSome).symm
  have hy : compute Example.hashes k256 right = some ry := (Option.some_get right_isSome).symm
  have hpinned := runs_agree.2
  rw [hx, hy] at hpinned
  have hfields : pinned rx = pinned ry := Option.some.inj hpinned
  simp only [pinned, Prod.mk.injEq] at hfields
  obtain ⟨hacc, hleafCount, hanchorAcc, hanchorCount, hparams⟩ := hfields
  exact compute_sound Example.hashes k256 left right rx ry
    ⟨hashed_collisionFree.1, hashed_collisionFree.2⟩
    ⟨payloads_collisionFree.1, payloads_collisionFree.2⟩ hx hy hacc hleafCount
    hanchorAcc hanchorCount hparams

end Trustgraphs.TrustgraphCore
