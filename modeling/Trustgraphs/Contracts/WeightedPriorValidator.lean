import Trustgraphs.WeightedPriorCore.Manifest

/-!
# On-chain validation of prior manifests (`contracts/src/params/WeightedPriorValidator.sol`)

The two validators read words of 32 bytes, one from the calldata and one from the memory. A revert is
an error or a panic.
-/

namespace Trustgraphs.WeightedPriorValidator

open Outcome Option

def PRECISION_SCALE : U256 := 1000000000000000000

def MANIFEST_VERSION : UInt16 := 1

def MAX_PRIOR_ENTRIES : UInt32 := 2048

def HEADER_LENGTH : Nat := 18

def ENTRY_LENGTH : Nat := 28

def MANIFEST_MAGIC : U256 := 0x54475750

structure Commitment where
  priorRoot : B256
  priorCount : UInt32
  manifestSha256 : B256
  chainId : UInt64
deriving DecidableEq

inductive Error where
  | invalidManifestLength (actual expected : Nat)
  | invalidManifestMagic (magic : U256)
  | invalidManifestVersion (version : UInt16)
  | invalidManifestChain (actual expected : UInt64)
  | invalidPriorCount (count : UInt32)
  | invalidPriorAccount (index : Nat) (account : U256)
  | priorAccountsNotAscending (index : Nat) (previous account : U256)
  | invalidPriorWeight (index : Nat)
  | invalidPriorWeightSum (sum : U256)
deriving DecidableEq

/-- A result of the library, which reverts with an error or a panic. -/
abbrev Result (α : Type) := Except (Abort Error) α

def revert {α : Type} (e : Error) : Result α := .error (.error e)

/-- The word at an offset, as `calldataload` and `mload` read it: what lies behind the end is zero. -/
def loadWord (data : Bytes) (offset : Nat) : U256 :=
  let read := (data.drop offset).take 32
  BitVec.ofNat 256 (ofBeBytes (read ++ List.replicate (32 - read.length) 0))

/-- A `bytes calldata`: an argument inside the calldata. -/
structure CalldataBytes where
  calldata : Bytes
  offset : Nat
  length : Nat
  inside : offset + length ≤ calldata.length

def CalldataBytes.bytes (m : CalldataBytes) : Bytes := (m.calldata.drop m.offset).take m.length

/-- A `bytes memory`: the word at the pointer is the length of the bytes that follow it. -/
structure MemoryBytes where
  memory : Bytes
  pointer : Nat
  inside : pointer + 32 + (loadWord memory pointer).toNat ≤ memory.length

def MemoryBytes.length (m : MemoryBytes) : Nat := (loadWord m.memory m.pointer).toNat

def MemoryBytes.bytes (m : MemoryBytes) : Bytes := (m.memory.drop (m.pointer + 32)).take m.length

/-- One level of the loop: the nodes `i` and `i + 1` are hashed into `nextWidth`. -/
def hashStep (H : Hashes) (width : Nat) (st : List B256 × Nat) (i : Nat) : Option (List B256 × Nat) :=
  let (level, nextWidth) := st
  if i + 1 = width then do some (level.set nextWidth (← level[i]?), nextWidth + 1)
  else do
    let left ← level[i]?
    let right ← level[i + 1]?
    let node := if left < right then H.keccak256 (left.bytes ++ right.bytes)
      else H.keccak256 (right.bytes ++ left.bytes)
    some (level.set nextWidth node, nextWidth + 1)

/-- The inner loop, over every second index below `width`. -/
def hashLevel (H : Hashes) (level : List B256) (width : Nat) : Option (List B256 × Nat) :=
  (List.range' 0 ((width + 1) / 2) 2).foldlM (hashStep H width) (level, 0)

variable {H : Hashes} {width : Nat} {st : List B256 × Nat}

theorem hashStep_width {i : Nat} {st' : List B256 × Nat}
    (h : hashStep H width st i = some st') : st'.2 = st.2 + 1 := by
  obtain ⟨level, nextWidth⟩ := st
  unfold hashStep at h
  dsimp only at h
  by_cases hi : i + 1 = width
  · rw [if_pos hi] at h
    obtain ⟨node, -, h⟩ := bind_eq_some_iff.mp h
    rw [← some_inj.mp h]
  · rw [if_neg hi] at h
    obtain ⟨left, -, h⟩ := bind_eq_some_iff.mp h
    obtain ⟨right, -, h⟩ := bind_eq_some_iff.mp h
    rw [← some_inj.mp h]

theorem foldlM_hashStep_width {is : List Nat} {st' : List B256 × Nat}
    (h : is.foldlM (hashStep H width) st = some st') : st'.2 = st.2 + is.length := by
  induction is generalizing st with
  | nil =>
    rw [← some_inj.mp h]
    rfl
  | cons i is ih =>
    obtain ⟨st₁, h₁, h⟩ := bind_eq_some_iff.mp h
    rw [ih h, hashStep_width h₁, List.length_cons]
    omega

theorem hashLevel_width {level : List B256}
    (h : hashLevel H level width = some st) : st.2 = (width + 1) / 2 := by
  rw [foldlM_hashStep_width h, List.length_range']
  omega

/-- The root of the first `width` nodes. The levels are hashed in place. -/
def merkleRoot (H : Hashes) (level : List B256) (width : Nat) : Option B256 :=
  if 1 < width then
    match _h : hashLevel H level width with
    | none => none
    | some (level, nextWidth) => merkleRoot H level nextWidth
  else level[0]?
termination_by width
decreasing_by
  have hwidth : nextWidth = (width + 1) / 2 := hashLevel_width _h
  omega

/-- The leaves so far, the sum of the weights and the last account. -/
structure Scan where
  level : List B256
  sum : U256
  previous : U256

/-- One entry of the loop, read at `base + offset`. -/
def scanEntry (H : Hashes) (load : Nat → U256) (base : Nat) (st : Scan) (i : Nat) : Result Scan :=
  let offset := HEADER_LENGTH + i * ENTRY_LENGTH
  let account := load (base + offset) >>> 96
  let weight := load (base + offset + 20) >>> 192
  if account = 0 then revert (.invalidPriorAccount i account)
  else if account ≤ st.previous then revert (.priorAccountsNotAscending i st.previous account)
  else if weight = 0 then revert (.invalidPriorWeight i)
  else do
    let sum ← ofPanic (Checked.add st.sum weight)
    let leaf := H.keccak256 (wordU256 account ++ wordU256 weight)
    .ok ⟨st.level ++ [leaf], sum, account⟩

/-- The validation of a manifest of `length` bytes that starts at `base`, with `digest` its hash. -/
def validateAt (H : Hashes) (load : Nat → U256) (base length : Nat) (digest : B256)
    (expectedChain : UInt64) : Result Commitment :=
  if length < HEADER_LENGTH then revert (.invalidManifestLength length HEADER_LENGTH)
  else
    let header := load base
    -- comparisons of `bytes4` see the four high bytes only
    let magic := header >>> 224
    let manifestVersion := UInt16.ofNat ((header >>> 208) &&& 0xffff).toNat
    let manifestChain := UInt64.ofNat ((header >>> 144) &&& 0xffffffffffffffff).toNat
    let count := UInt32.ofNat ((header >>> 112) &&& 0xffffffff).toNat
    if magic ≠ MANIFEST_MAGIC then revert (.invalidManifestMagic magic)
    else if manifestVersion ≠ MANIFEST_VERSION then revert (.invalidManifestVersion manifestVersion)
    else if manifestChain ≠ expectedChain then revert (.invalidManifestChain manifestChain expectedChain)
    else if count = 0 ∨ MAX_PRIOR_ENTRIES < count then revert (.invalidPriorCount count)
    else
      let expectedLength := HEADER_LENGTH + count.toNat * ENTRY_LENGTH
      if length ≠ expectedLength then revert (.invalidManifestLength length expectedLength)
      else do
        let scan ← (List.range count.toNat).foldlM (scanEntry H load base) ⟨[], 0, 0⟩
        if scan.sum ≠ PRECISION_SCALE then revert (.invalidPriorWeightSum scan.sum)
        else do
          let priorRoot ← ofPanic (merkleRoot H scan.level count.toNat)
          .ok ⟨priorRoot, count, digest, manifestChain⟩

def validateManifest (H : Hashes) (manifest : CalldataBytes) (expectedChain : UInt64) : Result Commitment :=
  validateAt H (loadWord manifest.calldata) manifest.offset manifest.length
    (H.sha256 manifest.bytes) expectedChain

/-- The equivalent of `validateManifest` for bytes in the memory. -/
def validateManifestMemory (H : Hashes) (manifest : MemoryBytes) (expectedChain : UInt64) : Result Commitment :=
  validateAt H (loadWord manifest.memory) (manifest.pointer + 32) manifest.length
    (H.sha256 manifest.bytes) expectedChain

end Trustgraphs.WeightedPriorValidator
