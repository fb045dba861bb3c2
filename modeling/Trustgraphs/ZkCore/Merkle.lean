import Trustgraphs.ZkCore.Words

/-!
# The OpenZeppelin standard Merkle tree (`zk-core/src/merkle.rs`)

A tree of `n` sorted leaves lives in an array of `2 * n - 1` entries: the leaves at the tail in
reverse order, and the node `i` over its children `2 * i + 1` and `2 * i + 2`.
-/

namespace Trustgraphs

/-- The preimage of a parent: the two children in ascending order. -/
def pairPreimage (a b : B256) : Bytes :=
  let (lo, hi) := if a ≤ b then (a, b) else (b, a)
  lo.bytes ++ hi.bytes

/-- The hash of a sorted pair. -/
def hashPair (H : Hashes) (a b : B256) : B256 := H.keccak256 (pairPreimage a b)

/-- The leaf of an account, hashed twice. -/
def outputLeaf (H : Hashes) (account : Address) (value : U256) : B256 :=
  H.keccak256 (H.keccak256 (wordAddr account ++ wordU256 value)).bytes

/-- The tree array with its leaves in place. -/
def placeLeaves (size : Nat) (leaves : List B256) : List B256 :=
  leaves.zipIdx.foldl (fun tree leaf => tree.set (size - 1 - leaf.2) leaf.1) (List.replicate size 0)

/-- A node from its two children. -/
def fillNode (H : Hashes) (tree : List B256) (i : Nat) : Option (List B256) := do
  some (tree.set i (hashPair H (← tree[2 * i + 1]?) (← tree[2 * i + 2]?)))

/-- The root over a set of leaf hashes: zero when there are none, the leaf when there is one. -/
def merkleRoot (H : Hashes) (leaves : List B256) : Option B256 :=
  if leaves.isEmpty then some 0
  else
    let leaves := leaves.insertionSort (· ≤ ·)
    let n := leaves.length
    if n = 1 then leaves[0]?
    else do
      let size := 2 * n - 1
      let tree ← (List.range (n - 1)).reverse.foldlM (fillNode H) (placeLeaves size leaves)
      tree[0]?

/-- The tree in an array, the leaves sorted at its end. -/
def buildTree (H : Hashes) (leaves : List B256) : Option (List B256) :=
  if leaves.isEmpty then some []
  else
    let leaves := leaves.insertionSort (· ≤ ·)
    let n := leaves.length
    if n = 1 then some leaves
    else
      let size := 2 * n - 1
      (List.range (n - 1)).reverse.foldlM (fillNode H) (placeLeaves size leaves)

/-- The siblings from index `i` up to the root. -/
def siblings (tree : List B256) (i : Nat) : List B256 :=
  if i = 0 then []
  else
    let sibling := if i % 2 = 1 then i + 1 else i - 1
    tree[sibling]?.toList ++ siblings tree ((i - 1) / 2)
termination_by i
decreasing_by omega

/-- The siblings of a leaf from the leaf to the root, `none` when it is not in the tree. -/
def proofFor (tree : List B256) (leaf : B256) : Option (List B256) :=
  if tree.isEmpty then none
  else
    let n := (tree.length + 1) / 2
    let idx := (List.range' (n - 1) (tree.length - (n - 1))).find? fun i => tree[i]? = some leaf
    idx.map (siblings tree)

/-- What a verifier computes from a leaf and a proof (`MerkleProof.processProof`). -/
def processProof (H : Hashes) (proof : List B256) (leaf : B256) : B256 := proof.foldl (hashPair H) leaf

/-- The root over the leaves of the sorted seeds. -/
def seedSetRoot (H : Hashes) (sortedSeeds : List Address) : Option B256 :=
  if sortedSeeds.isEmpty then some 0
  else merkleRoot H (sortedSeeds.map fun a => H.keccak256 (wordAddr a))

end Trustgraphs
