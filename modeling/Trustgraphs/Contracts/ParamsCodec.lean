import Trustgraphs.Contracts.OzMerkle
import Trustgraphs.PagerankCore.Proofs.ComputeProofs

/-!
# The params hash of the contracts (`contracts/src/params/ParamsCodec.sol`), and what it binds

The codec encodes the tuple in two halves and takes the seeds as they are stored. The guest sorts them;
the root over them is the same. A hash without collisions determines every field, the seeds up to their
order.
-/

namespace Trustgraphs

namespace ParamsCodec

def PARAMS_SCHEMA_VERSION : U256 := 3

/-- The tree over the seeds, as they are stored. -/
def seedSetRoot (H : Hashes) (seeds : List Address) : Option B256 :=
  OzMerkle.root H (seeds.map fun seed => H.keccak256 (wordAddr seed))

def domainSetHash (H : Hashes) (separators : List B256) : B256 :=
  if separators.length = 0 then 0 else H.keccak256 (separators.flatMap FixedBytes.bytes)

/-- `abi.encode` of the first nine words. -/
def head (p : Params) (seedSetRoot : B256) : Bytes :=
  wordU256 PARAMS_SCHEMA_VERSION ++ wordU256 p.dampingFp ++ wordU256 p.toleranceFp ++
    wordU32 p.maxIterations ++ wordU256 p.minWeightFp ++ wordU256 p.maxWeightFp ++
    wordU256 p.trustShareFp ++ wordU256 p.trustDecayFp ++ seedSetRoot.bytes

/-- `abi.encode` of the last eight words. -/
def tail (H : Hashes) (p : Params) : Bytes :=
  wordU256 p.totalPool ++ wordU256 p.precisionScale ++ p.schemaUid.bytes ++
    wordU32 p.weightFieldIndex ++ (domainSetHash H p.envelope0DomainSeparators).bytes ++
    wordU64 p.lane2MaxHeadAge ++ wordAddr p.accumulator ++ wordU64 p.chainId

/-- The hash of the tuple. An index out of bounds is `none`. -/
def hash (H : Hashes) (p : Params) : Option B256 := do
  some (H.keccak256 (head p (← seedSetRoot H p.trustedSeeds) ++ tail H p))

end ParamsCodec

namespace Params

variable {H : Hashes}

/-! ## The contracts and the guest -/

theorem seedSetRoot_perm {seeds seeds' : List Address} (h : seeds.Perm seeds') :
    seedSetRoot H seeds = seedSetRoot H seeds' := by
  rw [Merkle.seedSetRoot_eq, Merkle.seedSetRoot_eq]
  exact Merkle.merkleRoot_perm (h.map _)

theorem codec_version : wordU256 ParamsCodec.PARAMS_SCHEMA_VERSION = wordU32 PARAMS_SCHEMA_VERSION := by
  decide

theorem codec_seedSetRoot (seeds : List Address) : ParamsCodec.seedSetRoot H seeds = seedSetRoot H seeds := by
  rw [ParamsCodec.seedSetRoot, OzMerkle.root_eq, Merkle.seedSetRoot_eq]

theorem codec_domainSetHash (separators : List B256) :
    ParamsCodec.domainSetHash H separators = domainSetHash H separators := by
  unfold ParamsCodec.domainSetHash domainSetHash
  cases separators <;> rfl

theorem codec_hash_eq (p : Params) {seeds : List Address} (h : seeds.Perm p.trustedSeeds) :
    ParamsCodec.hash H { p with trustedSeeds := seeds } = paramsHash H p := by
  have hroot : ParamsCodec.seedSetRoot H seeds = seedSetRoot H (p.trustedSeeds.insertionSort (· ≤ ·)) := by
    rw [codec_seedSetRoot]
    exact seedSetRoot_perm (h.trans (List.perm_insertionSort _ _).symm)
  have hpreimage : ∀ root : B256, ParamsCodec.head { p with trustedSeeds := seeds } root ++
      ParamsCodec.tail H { p with trustedSeeds := seeds } =
        paramsPreimage p root (domainSetHash H p.envelope0DomainSeparators) := by
    intro root
    unfold ParamsCodec.head ParamsCodec.tail paramsPreimage
    dsimp only
    rw [codec_domainSetHash, codec_version]
    simp only [List.append_assoc]
  unfold ParamsCodec.hash paramsHash
  dsimp only
  rw [hroot]
  simp only [hpreimage]

/-! ## What the hash binds -/

/-- The hash of the guest binds every field, the seeds up to their order, and the contract computes it
from the seeds in any order. -/
theorem paramsHash_binds (H : Hashes) : (∀ (S : List Bytes) (p q : Params), CollisionFree H.keccak256 S →
      (∀ s ∈ Encode.paramsHashed H p, s ∈ S) → (∀ s ∈ Encode.paramsHashed H q, s ∈ S) →
      paramsHash H p = paramsHash H q →
        q = { p with trustedSeeds := q.trustedSeeds } ∧ p.trustedSeeds.Perm q.trustedSeeds) ∧
    ∀ (p : Params) (seeds : List Address), seeds.Perm p.trustedSeeds →
      ParamsCodec.hash H { p with trustedSeeds := seeds } = paramsHash H p := by
  constructor
  · intro S p q hS hp hq h
    obtain ⟨r, hr⟩ := PagerankCore.paramsHash_isSome H p
    exact Encode.paramsHash_injective hS hp hq hr (h ▸ hr)
  · intro p seeds hseeds
    exact codec_hash_eq p hseeds

namespace ParamsExample

open OzMerkle.Example (word addr)

def params (seeds : List Address) : Params where
  dampingFp := 850000000000000000
  toleranceFp := 1000000
  maxIterations := 100
  minWeightFp := 0
  maxWeightFp := 1000000000000000000
  trustShareFp := 100000000000000000
  trustDecayFp := 800000000000000000
  trustedSeeds := seeds
  totalPool := 1000
  precisionScale := 1000000000000000000
  schemaUid := word 7
  weightFieldIndex := 0
  envelope0DomainSeparators := [word 5]
  lane2MaxHeadAge := 0
  accumulator := addr 3
  chainId := 1

def leaf1 : B256 := word 0xe4d47a1e33cbc779a23009a9cb602e84ba1bb1b9906177d37611329debea8811

def leaf2 : B256 := word 0x1cb3aae5df623484f5cd10ef87cc287a41b4902667fbf263b1c0d290cb3f7ead

def root : B256 := word 0xaecb023ce0c4eea427a3edb2e62eaa398eb9c74b501848f147b6afe238776689

def domains : B256 := word 0x036b6384b5eca791c62761152d0c79bb0604c104a5fb6f4eb0703f3154bb3db0

def paramsWord : B256 := word 0x008dce0a3627372d3b1dd6bb372a37198cadee17e92df31197eed1b9e1bf4a9a

def keccak256 (s : Bytes) : B256 :=
  if s = wordAddr (addr 1) then leaf1
  else if s = wordAddr (addr 2) then leaf2
  else if s = leaf2.bytes ++ leaf1.bytes then root
  else if s = (word 5).bytes then domains
  else if s = paramsPreimage (params []) root domains then paramsWord
  else 0

def hashes : Hashes := ⟨keccak256, fun _ => 0⟩

end ParamsExample

open ParamsExample in
open OzMerkle.Example (addr) in
/-- Two orders of the same seeds have one hash. -/
theorem paramsHash_binds_two_orders : paramsHash hashes (params [addr 2, addr 1]) = some paramsWord ∧
      paramsHash hashes (params [addr 1, addr 2]) = some paramsWord ∧
      [addr 2, addr 1].Perm [addr 1, addr 2] ∧
      ParamsCodec.hash hashes (params [addr 2, addr 1]) = paramsHash hashes (params [addr 1, addr 2]) := by
  obtain ⟨hp, hq⟩ : paramsHash hashes (params [addr 2, addr 1]) = some paramsWord ∧
      paramsHash hashes (params [addr 1, addr 2]) = some paramsWord := by
    decide +kernel
  have hfree : CollisionFree hashes.keccak256 (Encode.paramsHashed hashes (params [addr 2, addr 1]) ++
      Encode.paramsHashed hashes (params [addr 1, addr 2])) :=
    ⟨by decide +kernel, by decide +kernel⟩
  have hbinds := (paramsHash_binds hashes).1 _ (params [addr 2, addr 1]) (params [addr 1, addr 2]) hfree
    (fun s hs => List.mem_append_left _ hs) (fun s hs => List.mem_append_right _ hs) (hp.trans hq.symm)
  exact ⟨hp, hq, hbinds.2,
    (paramsHash_binds hashes).2 (params [addr 1, addr 2]) [addr 2, addr 1] (List.Perm.swap ..)⟩

end Params

end Trustgraphs
