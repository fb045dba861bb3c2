import Trustgraphs.ZkCore.Proofs.MerkleProofs

/-!
# The Merkle trees of the contracts (`contracts/src/merkle/OzMerkle.sol`, `MerkleSnapshot.sol`)

An index out of bounds is `none`.
-/

namespace Trustgraphs.OzMerkle

/-- The inner loop of the sort: move the entries above `key` up from the position `j` down, and put it
in. -/
def insertKey (key : B256) (a : List B256) : Nat → Option (List B256)
  | 0 => if 0 < a.length then some (a.set 0 key) else none
  | j + 1 => do
    let below ← a[j]?
    if j + 1 < a.length then
      if key < below then insertKey key (a.set (j + 1) below) j
      else some (a.set (j + 1) key)
    else none

/-- Insertion sort, as the contract writes it. -/
def sortInPlace (a : List B256) : Option (List B256) :=
  (List.range' 1 (a.length - 1)).foldlM (fun a i => do insertKey (← a[i]?) a i) a

/-- The root over the sorted leaves, the tree laid out in an array. -/
def root (H : Hashes) (leaves : List B256) : Option B256 :=
  let n := leaves.length
  if n = 0 then some 0
  else do
    let leaves ← sortInPlace leaves
    if n = 1 then leaves[0]?
    else do
      let size := 2 * n - 1
      let tree ← (List.range' 1 (n - 1)).reverse.foldlM (fun tree i => fillNode H tree (i - 1))
        (placeLeaves size leaves)
      tree[0]?

/-- `MerkleProof.verifyCalldata` of OpenZeppelin on the leaf of an account: the proof's hashes, each in a
sorted pair, lead to the root. -/
def verifyProof (H : Hashes) (root : B256) (account : Address) (value : U256) (proof : List B256) : Bool :=
  let leaf := H.keccak256 (H.keccak256 (wordAddr account ++ wordU256 value)).bytes
  processProof H proof leaf = root

end Trustgraphs.OzMerkle

/-!
# The contracts build the same Merkle trees

The insertion sort of the library leaves the sorted list (`sortInPlace_eq`), and on it fills the same
array as the guest.
-/

namespace Trustgraphs.OzMerkle

open Merkle Option List

variable {H : Hashes} {key : B256} {a : List B256}

/-- The inner loop puts the key among the sorted entries before the hole. -/
theorem insertKey_spec (key : B256) (low : List B256) (hlow : low.Pairwise (· ≤ ·)) (hole : B256)
    (high : List B256) :
    ∃ low', insertKey key (low ++ hole :: high) low.length = some (low' ++ high) ∧
      low'.Perm (key :: low) ∧ low'.Pairwise (· ≤ ·) := by
  induction low using List.reverseRecOn generalizing hole high with
  | nil =>
    refine ⟨[key], ?_, List.Perm.refl _, pairwise_singleton ..⟩
    simp [insertKey]
  | append_singleton low below ih =>
    obtain ⟨hlow', -, hbelow⟩ := pairwise_append.mp hlow
    have hle : ∀ x ∈ low, x ≤ below := fun x hx => hbelow x hx below (mem_singleton_self _)
    have hget : ((low ++ [below]) ++ hole :: high)[low.length]? = some below := by
      rw [append_assoc, getElem?_append_right (le_refl _), Nat.sub_self]
      rfl
    have hset : ∀ x, ((low ++ [below]) ++ hole :: high).set (low.length + 1) x =
        (low ++ [below]) ++ x :: high := by
      intro x
      rw [set_append_right _ _ (by simp)]
      simp
    have hlt : low.length + 1 < ((low ++ [below]) ++ hole :: high).length := by
      simp only [length_append, length_cons, length_nil]
      omega
    rw [length_append, length_singleton, insertKey, hget, bind_eq_bind, bind_some, if_pos hlt, hset, hset]
    by_cases hkey : key < below
    · rw [if_pos hkey, append_assoc]
      obtain ⟨low', hr, hperm, hsorted⟩ := ih hlow' below (below :: high)
      refine ⟨low' ++ [below], by rw [append_assoc]; exact hr, ?_, ?_⟩
      · exact (hperm.append_right [below]).trans (by rw [cons_append])
      · rw [pairwise_append]
        refine ⟨hsorted, pairwise_singleton .., fun x hx y hy => ?_⟩
        rw [mem_singleton.mp hy]
        rcases mem_cons.mp (hperm.mem_iff.mp hx) with rfl | hx
        · exact hkey.le
        · exact hle x hx
    · rw [if_neg hkey]
      refine ⟨low ++ [below] ++ [key], by simp, ?_, ?_⟩
      · exact perm_append_singleton key _
      · rw [pairwise_append]
        refine ⟨hlow, pairwise_singleton .., fun x hx y hy => ?_⟩
        rw [mem_singleton.mp hy]
        rcases mem_append.mp hx with hx | hx
        · exact (hle x hx).trans (not_lt.mp hkey)
        · rw [mem_singleton.mp hx]
          exact not_lt.mp hkey

theorem foldlM_insertKey (low high : List B256) (hlow : low.Pairwise (· ≤ ·)) :
    ∃ r, (List.range' low.length high.length).foldlM
        (fun a i => do insertKey (← a[i]?) a i) (low ++ high) = some r ∧
      r.Perm (low ++ high) ∧ r.Pairwise (· ≤ ·) := by
  induction high generalizing low with
  | nil => exact ⟨low, by simp, by simp, hlow⟩
  | cons key high ih =>
    obtain ⟨low', hr, hperm, hsorted⟩ := insertKey_spec key low hlow key high
    have hget : (low ++ key :: high)[low.length]? = some key := by
      rw [getElem?_append_right (le_refl _), Nat.sub_self]
      rfl
    have hlen : low'.length = low.length + 1 := by rw [hperm.length_eq, length_cons]
    obtain ⟨r, hr', hperm', hsorted'⟩ := ih low' hsorted
    rw [hlen] at hr'
    refine ⟨r, ?_, hperm'.trans ((hperm.append_right high).trans ?_), hsorted'⟩
    · rw [length_cons, range'_succ, foldlM_cons, hget]
      simp only [bind_eq_bind, bind_some, hr]
      exact hr'
    · rw [cons_append]
      exact perm_middle.symm

theorem sortInPlace_eq (a : List B256) : sortInPlace a = some (a.insertionSort (· ≤ ·)) := by
  cases a with
  | nil => rfl
  | cons key high =>
    obtain ⟨r, hr, hperm, hsorted⟩ := foldlM_insertKey [key] high (pairwise_singleton ..)
    have heq : r = (key :: high).insertionSort (· ≤ ·) :=
      List.Perm.eq_of_pairwise (fun a b _ _ => le_antisymm) hsorted (pairwise_insertionSort _ _)
        (hperm.trans (perm_insertionSort ..).symm)
    rw [← heq]
    exact hr

theorem foldlM_parents (n : ℕ) (tree : List B256) :
    (List.range' 1 n).reverse.foldlM (fun tree i => fillNode H tree (i - 1)) tree =
      (List.range n).reverse.foldlM (fillNode H) tree := by
  have hrange : List.range' 1 n = (List.range n).map fun i => i + 1 := by
    rw [range'_eq_map_range]
    exact map_congr_left fun i _ => Nat.add_comm 1 i
  rw [hrange, ← map_reverse, foldlM_map]
  rfl

theorem root_eq (H : Hashes) (leaves : List B256) : root H leaves = merkleRoot H leaves := by
  unfold root merkleRoot
  by_cases h : leaves = []
  · simp [h]
  · have hlen : ¬ leaves.length = 0 := fun he => h (length_eq_zero_iff.mp he)
    have hemp : ¬ leaves.isEmpty = true := fun he => h (List.isEmpty_iff.mp he)
    rw [if_neg hlen, if_neg hemp, sortInPlace_eq]
    simp only [bind_eq_bind, bind_some, length_insertionSort, foldlM_parents]

/-- Every leaf has a proof, the root does not depend on the order of the leaves, it is the first entry of
the array, and the contracts compute the same one. -/
theorem merkle_complete (H : Hashes) (leaves : List B256) :
    ∃ root tree, merkleRoot H leaves = some root ∧ buildTree H leaves = some tree ∧ tree.headD 0 = root ∧
      (∀ leaf ∈ leaves, ∃ proof, proofFor tree leaf = some proof ∧ processProof H proof leaf = root) ∧
      (∀ leaves', leaves.Perm leaves' → merkleRoot H leaves' = some root) ∧
      OzMerkle.root H leaves = some root := by
  obtain ⟨tree, htree, hroot⟩ := buildTree_head H leaves
  refine ⟨tree.headD 0, tree, hroot, htree, rfl, fun leaf hleaf => ?_, fun leaves' hperm => ?_, ?_⟩
  · have h : leaves ≠ [] := ne_nil_of_mem hleaf
    obtain ⟨tree', htree', his⟩ := buildTree_isTree (H := H) h
    obtain rfl := Option.some.inj (htree'.symm.trans htree)
    rw [merkleRoot_eq h, some_inj] at hroot
    rw [← hroot]
    exact proofFor_complete his ((perm_insertionSort ..).mem_iff.mpr hleaf)
  · rw [← merkleRoot_perm hperm, hroot]
  · rw [root_eq, hroot]

/-- What a verifier accepts under the root of a list of scores is in the list, and the root determines the
list, as the root of a seed set does. -/
theorem output_root_binding (H : Hashes) :
    (∀ (scores : List (Address × U256)) (account : Address) (value : U256) (proof : List B256) (root : B256),
      CollisionFree H.keccak256 (outputHashed H scores ++ outputPreimages H (account, value) ++
        proofHashed H (outputLeaf H account value) proof) →
      merkleRoot H (outputLeaves H scores) = some root →
      verifyProof H root account value proof = true → (account, value) ∈ scores) ∧
    (∀ scores scores' : List (Address × U256),
      CollisionFree H.keccak256 (outputHashed H scores ++ outputHashed H scores') →
      merkleRoot H (outputLeaves H scores) = merkleRoot H (outputLeaves H scores') →
      scores.Perm scores') ∧
    ∀ seeds seeds' : List Address, CollisionFree H.keccak256 (seedSetHashed H seeds ++ seedSetHashed H seeds') →
      seedSetRoot H seeds = seedSetRoot H seeds' → seeds.Perm seeds' := by
  refine ⟨fun scores account value proof root hS hroot hverify => ?_, fun scores scores' hS e => ?_,
    fun seeds seeds' hS e => ?_⟩
  · have heq : processProof H proof (outputLeaf H account value) = root :=
      of_decide_eq_true hverify
    rw [← heq] at hroot
    exact mem_of_outputProof hS (fun s hs => by simp [hs]) (fun s hs => by simp [hs]) proof
      (fun s hs => by simp [hs]) hroot
  · exact outputRoot_injective hS (fun s hs => mem_append_left _ hs)
      (fun s hs => mem_append_right _ hs) e
  · exact seedSetRoot_injective hS (fun s hs => mem_append_left _ hs)
      (fun s hs => mem_append_right _ hs) e

namespace Example

def word (n : Nat) : B256 := .ofNat 32 n

def addr (b : UInt8) : Address := .replicate 20 b

def scores : List (Address × U256) := [(addr 1, 10), (addr 2, 20)]

def inner1 : B256 := word 0x6052eacc2d9024169fd40ed00842276d2d15ec88d0bd3d233963922f63db0127

def inner2 : B256 := word 0x84644b22bb4e8f85f9a56cf80f5cab1b310578537400c1f9791b6f588c5f8cbc

def leaf1 : B256 := word 0x1746cc44304b816177aecbd92f85bd32413f2f017402314495c264f81184c10d

def leaf2 : B256 := word 0x22450e482239b6967588c52f4986951654ab4cd9888eddc06bee798840c4fdc8

def rootWord : B256 := word 0xe0bba34e14aca08bde3fbd876176ef5229ae60f27bca10cd87f51f8f482478d8

def keccak256 (s : Bytes) : B256 :=
  if s = wordAddr (addr 1) ++ wordU256 10 then inner1
  else if s = wordAddr (addr 2) ++ wordU256 20 then inner2
  else if s = inner1.bytes then leaf1
  else if s = inner2.bytes then leaf2
  else if s = leaf1.bytes ++ leaf2.bytes then rootWord
  else 0

def hashes : Hashes := ⟨keccak256, fun _ => 0⟩

end Example

open Example in
/-- The proof of one of two scores. -/
theorem output_root_binding_two_scores : merkleRoot hashes (outputLeaves hashes scores) = some rootWord ∧
      verifyProof hashes rootWord (addr 1) 10 [leaf2] = true ∧ (addr 1, 10) ∈ scores := by
  obtain ⟨hroot, hverify⟩ : merkleRoot hashes (outputLeaves hashes scores) = some rootWord ∧
      verifyProof hashes rootWord (addr 1) 10 [leaf2] = true := by
    decide +kernel
  refine ⟨hroot, hverify, (output_root_binding hashes).1 scores (addr 1) 10 [leaf2] rootWord ?_ hroot
    hverify⟩
  exact ⟨by decide +kernel, by decide +kernel⟩

end Trustgraphs.OzMerkle
