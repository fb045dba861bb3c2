import Trustgraphs.Lib.HashChain
import Trustgraphs.ZkCore.Words

/-!
# What the programs fold and commit to (`zk-core/src/edge.rs`, `anchor.rs`, `journal.rs`)
-/

/-! ## The root-producer journal (`zk-core/src/journal.rs`) -/

namespace Trustgraphs

/-- The journal shared by the root-producer programs. -/
structure Journal where
  acc : B256
  leafCount : UInt64
  anchorAcc : B256
  anchorCount : UInt64
  paramsHash : B256
  outputRoot : B256
  ipfsHash : B256
  cidDigest : B256
  totalValue : U256
  skippedDigest : B256
  /-- The bounty payee. -/
  recipient : Address
  /-- The instance this proof is for. -/
  instanceDomain : B256
deriving DecidableEq

/-- The static ABI tuple that the guest commits. -/
def journalEncoded (j : Journal) : Bytes :=
  j.acc.bytes ++ wordU64 j.leafCount ++ j.anchorAcc.bytes ++ wordU64 j.anchorCount ++
    j.paramsHash.bytes ++ j.outputRoot.bytes ++ j.ipfsHash.bytes ++ j.cidDigest.bytes ++
    wordU256 j.totalValue ++ j.skippedDigest.bytes ++ wordAddr j.recipient ++ j.instanceDomain.bytes

/-- The digest that the on-chain verifier binds. -/
def journalDigest (H : Hashes) (j : Journal) : B256 := H.keccak256 (journalEncoded j)

end Trustgraphs

/-! ## The lane-2 anchor log and the skip commitment (`zk-core/src/anchor.rs`) -/

namespace Trustgraphs

def anchorPreimage (nodeId : B256) (envelopeKind : UInt8) (head : B256) (count : UInt64)
    (dataCommitment : B256) (blockTimestamp : UInt64) : Bytes :=
  nodeId.bytes ++ wordU8 envelopeKind ++ head.bytes ++ wordU64 count ++ dataCommitment.bytes ++
    wordU256 (BitVec.ofNat 256 blockTimestamp.toNat)

/-- The anchor-log leaf, as `AnchorRegistry.anchor` folds it on chain. -/
def anchorLeaf (H : Hashes) (nodeId : B256) (envelopeKind : UInt8) (head : B256) (count : UInt64)
    (dataCommitment : B256) (blockTimestamp : UInt64) : B256 :=
  H.keccak256 (anchorPreimage nodeId envelopeKind head count dataCommitment blockTimestamp)

structure SkipEntry where
  nodeId : B256
  reason : UInt8
  /-- The epoch at which the condition was observed. -/
  epochObserved : UInt64
deriving DecidableEq

/-- The key by which skip entries are ordered. -/
def SkipEntry.key (e : SkipEntry) : B256 ×ₗ UInt8 ×ₗ ℕ :=
  toLex (e.nodeId, toLex (e.reason, e.epochObserved.toNat))

/-- Skips in the order of their keys. -/
def sortSkips (l : List SkipEntry) : List SkipEntry := l.insertionSort fun a b => a.key ≤ b.key

def skipLeaf (H : Hashes) (e : SkipEntry) : B256 :=
  H.keccak256 (e.nodeId.bytes ++ wordU8 e.reason ++ wordU64 e.epochObserved)

/-- The chained fold over skip-entry leaves, which the caller has sorted. -/
def skippedDigest (H : Hashes) (sortedEntries : List SkipEntry) : B256 :=
  sortedEntries.foldl (fun acc e => fold H acc (skipLeaf H e)) 0

theorem anchorPreimage_inj {n n' : B256} {k k' : UInt8} {h h' : B256} {c c' : UInt64} {d d' : B256}
    {t t' : UInt64} (e : anchorPreimage n k h c d t = anchorPreimage n' k' h' c' d' t') :
    n = n' ∧ k = k' ∧ h = h' ∧ c = c' ∧ d = d' ∧ t = t' := by
  obtain ⟨e, ht⟩ := List.append_inj e (by simp)
  obtain ⟨e, hd⟩ := List.append_inj e (by simp)
  obtain ⟨e, hc⟩ := List.append_inj e (by simp)
  obtain ⟨e, hh⟩ := List.append_inj e (by simp)
  obtain ⟨hn, hk⟩ := List.append_inj e (by simp)
  refine ⟨FixedBytes.bytes_inj.mp hn, wordU8_inj.mp hk, FixedBytes.bytes_inj.mp hh,
    wordU64_inj.mp hc, FixedBytes.bytes_inj.mp hd, ?_⟩
  exact ofNat_toNat_inj (wordU256_inj.mp ht)

end Trustgraphs

/-! ## The lane-1 edge accumulator (`zk-core/src/edge.rs`) -/

namespace Trustgraphs

open List

/-- One folded attestation edge, as the accumulator ingested it. -/
structure RawEdge where
  /-- 0 is an attestation and 1 a revocation; programs ignore other kinds. -/
  kind : UInt8
  attester : Address
  recipient : Address
  uid : B256
  /-- The `block.timestamp` that was folded on chain. -/
  blockTimestamp : UInt64
  /-- The raw attestation data. -/
  data : Bytes
deriving DecidableEq

/-- The words of an edge. -/
def edgePreimage (kind : UInt8) (attester recipient : Address) (uid : B256) (blockTimestamp : UInt64)
    (dataHash : B256) : Bytes :=
  wordU8 kind ++ wordAddr attester ++ wordAddr recipient ++ uid.bytes ++
    wordU256 (BitVec.ofNat 256 blockTimestamp.toNat) ++ dataHash.bytes

def edgeLeaf (H : Hashes) (kind : UInt8) (attester recipient : Address) (uid : B256)
    (blockTimestamp : UInt64) (dataHash : B256) : B256 :=
  H.keccak256 (edgePreimage kind attester recipient uid blockTimestamp dataHash)

/-- What an edge adds to the fold. -/
def RawEdge.leaf (H : Hashes) (e : RawEdge) : B256 :=
  edgeLeaf H e.kind e.attester e.recipient e.uid e.blockTimestamp (H.keccak256 e.data)

/-- The running accumulator over the full edge set, and the leaf count. -/
def accumulate (H : Hashes) (edges : List RawEdge) : B256 × UInt64 :=
  (edges.foldl (fun acc e => fold H acc (e.leaf H)) 0, UInt64.ofNat edges.length)

/-! ## What is hashed -/

/-- The strings hashed for the leaf of one edge. -/
def RawEdge.hashed (H : Hashes) (e : RawEdge) : List Bytes :=
  [e.data, edgePreimage e.kind e.attester e.recipient e.uid e.blockTimestamp (H.keccak256 e.data)]

def accumulateHashed (H : Hashes) (edges : List RawEdge) : List Bytes :=
  edges.flatMap (RawEdge.hashed H) ++
    (HashChain.steps (fold H) 0 (edges.map (RawEdge.leaf H))).map fun p => foldPreimage p.1 p.2

theorem edgePreimage_inj {k k' : UInt8} {a a' r r' : Address} {u u' : B256} {t t' : UInt64}
    {d d' : B256} (h : edgePreimage k a r u t d = edgePreimage k' a' r' u' t' d') :
    k = k' ∧ a = a' ∧ r = r' ∧ u = u' ∧ t = t' ∧ d = d' := by
  obtain ⟨h, hd⟩ := append_inj h (by simp)
  obtain ⟨h, ht⟩ := append_inj h (by simp)
  obtain ⟨h, hu⟩ := append_inj h (by simp)
  obtain ⟨h, hr⟩ := append_inj h (by simp)
  obtain ⟨hk, ha⟩ := append_inj h (by simp)
  exact ⟨wordU8_inj.mp hk, wordAddr_inj.mp ha, wordAddr_inj.mp hr, FixedBytes.bytes_inj.mp hu,
    ofNat_toNat_inj (wordU256_inj.mp ht), FixedBytes.bytes_inj.mp hd⟩

section

variable {H : Hashes} {S : List Bytes} (h : CollisionFree H.keccak256 S)
include h

theorem RawEdge.leaf_injective {e f : RawEdge} (he : ∀ s ∈ e.hashed H, s ∈ S)
    (hf : ∀ s ∈ f.hashed H, s ∈ S) (hl : e.leaf H = f.leaf H) : e = f := by
  have hpre := h.inj _ (he _ (by simp [hashed])) _ (hf _ (by simp [hashed])) hl
  obtain ⟨hk, ha, hr, hu, ht, hd⟩ := edgePreimage_inj hpre
  have hdata := h.inj _ (he _ (by simp [hashed])) _ (hf _ (by simp [hashed])) hd
  cases e
  cases f
  simp_all

theorem fold_injective (P : List (B256 × B256)) (hP : ∀ p ∈ P, foldPreimage p.1 p.2 ∈ S) :
    HashChain.Injective (fold H) 0 P where
  inj p hp q hq e := by
    obtain ⟨h1, h2⟩ := foldPreimage_inj.mp (h.inj _ (hP p hp) _ (hP q hq) e)
    exact Prod.ext h1 h2
  ne_start p hp := h.ne_zero _ (hP p hp)

theorem accumulate_fst_injective {xs ys : List RawEdge} (hx : ∀ s ∈ accumulateHashed H xs, s ∈ S)
    (hy : ∀ s ∈ accumulateHashed H ys, s ∈ S) (e : (accumulate H xs).1 = (accumulate H ys).1) : xs = ys := by
  have hmap : ∀ zs : List RawEdge,
      (accumulate H zs).1 = (zs.map (RawEdge.leaf H)).foldl (fold H) 0 := fun zs => by
    rw [foldl_map]
    rfl
  rw [hmap, hmap] at e
  have hsteps : ∀ p ∈ HashChain.steps (fold H) 0 (xs.map (RawEdge.leaf H)) ++
      HashChain.steps (fold H) 0 (ys.map (RawEdge.leaf H)), foldPreimage p.1 p.2 ∈ S := by
    intro p hp
    rcases mem_append.mp hp with hp | hp
    · exact hx _ (mem_append_right _ (List.mem_map_of_mem hp))
    · exact hy _ (mem_append_right _ (List.mem_map_of_mem hp))
  have hleaves := HashChain.foldl_injective _ _ (fold_injective h _ hsteps) e
  -- equal leaves are leaves of equal edges
  refine HashChain.eq_of_map_eq (fun a ha b hb hab => ?_) hleaves
  have hmem : ∀ c, c ∈ xs ∨ c ∈ ys → ∀ s ∈ c.hashed H, s ∈ S := by
    rintro c (hc | hc) s hs
    · exact hx s (mem_append_left _ (mem_flatMap.mpr ⟨c, hc, hs⟩))
    · exact hy s (mem_append_left _ (mem_flatMap.mpr ⟨c, hc, hs⟩))
  exact RawEdge.leaf_injective h (hmem a ha) (hmem b hb) hab

end

end Trustgraphs
