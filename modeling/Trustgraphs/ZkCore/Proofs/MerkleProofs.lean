import Trustgraphs.ZkCore.Merkle

/-!
# The Merkle root as a recursion, and what it determines

The array that the source fills bottom-up holds at index `i` the value of a recursion over the heap
order (`merkleRoot_eq`), so no index is out of bounds.
-/

namespace Trustgraphs.Merkle

open Option List Finset

variable {H : Hashes}

/-- The value at index `i` of the finished tree over sorted leaves. -/
def treeNode (H : Hashes) (leaves : List B256) (i : Nat) : B256 :=
  if i + 1 < leaves.length then hashPair H (treeNode H leaves (2 * i + 1)) (treeNode H leaves (2 * i + 2))
  else leaves.getD (2 * leaves.length - 2 - i) 0
termination_by leaves.length - i

variable {leaves : List B256} {i : Nat} {S : List Bytes}

theorem treeNode_inner (h : i + 1 < leaves.length) : treeNode H leaves i =
      hashPair H (treeNode H leaves (2 * i + 1)) (treeNode H leaves (2 * i + 2)) := by
  rw [treeNode, if_pos h]

theorem treeNode_leaf (h : ¬ i + 1 < leaves.length) :
    treeNode H leaves i = leaves.getD (2 * leaves.length - 2 - i) 0 := by
  rw [treeNode, if_neg h]

theorem length_foldl_set (size : Nat) (l : List (B256 × Nat)) (tree : List B256) :
    (l.foldl (fun tree leaf => tree.set (size - 1 - leaf.2) leaf.1) tree).length = tree.length := by
  induction l generalizing tree with
  | nil => rfl
  | cons e l ih => rw [foldl_cons, ih, length_set]

theorem getElem?_foldl_set (size k j : Nat) (l : List B256) (tree : List B256)
    (hlen : tree.length = size) (hk : k + l.length ≤ size) (hj : j < size) :
    ((l.zipIdx k).foldl (fun tree leaf => tree.set (size - 1 - leaf.2) leaf.1) tree)[j]? =
      if k ≤ size - 1 - j ∧ size - 1 - j < k + l.length then l[size - 1 - j - k]? else tree[j]? := by
  induction l generalizing tree k with
  | nil =>
    have hout : ¬ (k ≤ size - 1 - j ∧ size - 1 - j < k + ([] : List B256).length) := by
      rw [length_nil]
      omega
    rw [if_neg hout]
    rfl
  | cons a l ih =>
    rw [length_cons] at hk
    rw [zipIdx_cons, foldl_cons, ih _ _ (by rw [length_set]; exact hlen) (by omega)]
    simp only [length_cons]
    by_cases hk : size - 1 - j = k
    · have h1 : ¬ (k + 1 ≤ size - 1 - j ∧ size - 1 - j < k + 1 + l.length) := by omega
      have h2 : k ≤ size - 1 - j ∧ size - 1 - j < k + (l.length + 1) := by omega
      have h3 : size - 1 - k = j := by omega
      have h4 : size - 1 - j - k = 0 := by omega
      rw [if_neg h1, if_pos h2, h3, h4, getElem?_set_self (by omega)]
      rfl
    · by_cases hin : k + 1 ≤ size - 1 - j ∧ size - 1 - j < k + 1 + l.length
      · have h2 : k ≤ size - 1 - j ∧ size - 1 - j < k + (l.length + 1) := by omega
        obtain ⟨d, hd⟩ : ∃ d, size - 1 - j - k = d + 1 := ⟨size - 1 - j - k - 1, by omega⟩
        have hd' : size - 1 - j - (k + 1) = d := by omega
        rw [if_pos hin, if_pos h2, hd, hd', getElem?_cons_succ]
      · have h2 : ¬ (k ≤ size - 1 - j ∧ size - 1 - j < k + (l.length + 1)) := by omega
        rw [if_neg hin, if_neg h2]
        exact getElem?_set_ne (by omega)

theorem getElem?_placeLeaves {j : Nat} (hn : leaves ≠ [])
    (hlo : ¬ j + 1 < leaves.length) (hj : j < 2 * leaves.length - 1) :
    (placeLeaves (2 * leaves.length - 1) leaves)[j]? = some (treeNode H leaves j) := by
  have hpos := length_pos_iff.mpr hn
  rw [placeLeaves, getElem?_foldl_set _ 0 j leaves _ (by simp) (by omega) hj, if_pos (by omega),
    treeNode_leaf hlo]
  have hidx : 2 * leaves.length - 1 - 1 - j - 0 = 2 * leaves.length - 2 - j := by omega
  have hlt : 2 * leaves.length - 2 - j < leaves.length := by omega
  rw [hidx, List.getElem?_eq_getElem hlt, getD_eq_getElem _ _ hlt]

theorem length_placeLeaves (size : Nat) (leaves : List B256) : (placeLeaves size leaves).length = size := by
  rw [placeLeaves, length_foldl_set, length_replicate]

theorem foldlM_fillNode (leaves : List B256) (m : Nat) (hm : m + 1 ≤ leaves.length)
    (tree : List B256) (hlen : tree.length = 2 * leaves.length - 1)
    (htree : ∀ j, m ≤ j → j < 2 * leaves.length - 1 → tree[j]? = some (treeNode H leaves j)) :
    ∃ r, (List.range m).reverse.foldlM (fillNode H) tree = some r ∧
      ∀ j, j < 2 * leaves.length - 1 → r[j]? = some (treeNode H leaves j) := by
  induction m generalizing tree with
  | zero => exact ⟨tree, rfl, fun j hj => htree j (Nat.zero_le _) hj⟩
  | succ m ih =>
    have h1 := htree (2 * m + 1) (by omega) (by omega)
    have h2 := htree (2 * m + 2) (by omega) (by omega)
    have hstep : fillNode H tree m = some (tree.set m (treeNode H leaves m)) := by
      rw [treeNode_inner (by omega)]
      simp only [fillNode, h1, h2, bind_eq_bind, bind_some]
    rw [range_succ, List.reverse_append, reverse_singleton, singleton_append, foldlM_cons, hstep]
    refine ih (by omega) _ (by rw [length_set]; exact hlen) fun j hmj hj => ?_
    by_cases hjm : m = j
    · subst hjm
      rw [getElem?_set_self (by omega)]
    · rw [getElem?_set_ne hjm]
      exact htree j (by omega) hj

theorem merkleRoot_eq (h : leaves ≠ []) :
    merkleRoot H leaves = some (treeNode H (leaves.insertionSort (· ≤ ·)) 0) := by
  have hemp : ¬ leaves.isEmpty = true := fun he => h (List.isEmpty_iff.mp he)
  have hne : leaves.insertionSort (· ≤ ·) ≠ [] := by
    intro he
    have := length_insertionSort (· ≤ ·) leaves
    rw [he] at this
    exact h (length_eq_zero_iff.mp this.symm)
  unfold merkleRoot
  rw [if_neg hemp]
  generalize leaves.insertionSort (· ≤ ·) = sorted at hne
  have hpos := length_pos_iff.mpr hne
  by_cases h1 : sorted.length = 1
  · simp only [h1, if_true]
    rw [treeNode_leaf (by omega), List.getElem?_eq_getElem (by omega), h1, getD_eq_getElem _ _ (by omega)]
  · obtain ⟨r, hr, hget⟩ := foldlM_fillNode (H := H) sorted (sorted.length - 1) (by omega)
      (placeLeaves (2 * sorted.length - 1) sorted) (length_placeLeaves ..) fun j hj hlt =>
        getElem?_placeLeaves hne (by omega) hlt
    simp only [h1, if_false, hr, bind_eq_bind, bind_some]
    exact hget 0 (by omega)

theorem merkleRoot_isSome (H : Hashes) (leaves : List B256) : ∃ r, merkleRoot H leaves = some r := by
  by_cases h : leaves = []
  · exact ⟨0, by simp [merkleRoot, h]⟩
  · exact ⟨_, merkleRoot_eq h⟩

theorem seedSetRoot_isSome (H : Hashes) (seeds : List Address) : ∃ r, seedSetRoot H seeds = some r := by
  unfold seedSetRoot
  split
  · exact ⟨0, rfl⟩
  · exact merkleRoot_isSome H _

def leavesAt (leaves : List B256) (i : Nat) : Multiset B256 :=
  if i + 1 < leaves.length then leavesAt leaves (2 * i + 1) + leavesAt leaves (2 * i + 2)
  else {leaves.getD (2 * leaves.length - 2 - i) 0}
termination_by leaves.length - i

theorem leavesAt_inner (h : i + 1 < leaves.length) :
    leavesAt leaves i = leavesAt leaves (2 * i + 1) + leavesAt leaves (2 * i + 2) := by
  rw [leavesAt, if_pos h]

theorem leavesAt_leaf (h : ¬ i + 1 < leaves.length) :
    leavesAt leaves i = {leaves.getD (2 * leaves.length - 2 - i) 0} := by
  rw [leavesAt, if_neg h]

theorem sum_leavesAt (leaves : List B256) (m : Nat) (hm : m + 1 ≤ leaves.length) :
    ∑ i ∈ Finset.Ico m (2 * m + 1), leavesAt leaves i = leavesAt leaves 0 := by
  induction m with
  | zero => simp
  | succ m ih =>
    rw [← ih (by omega), sum_eq_sum_Ico_succ_bot (by omega : m < 2 * m + 1),
      leavesAt_inner (by omega : m + 1 < leaves.length)]
    have h2 : 2 * (m + 1) + 1 = 2 * m + 1 + 1 + 1 := by omega
    rw [h2, sum_Ico_succ_top (by omega), sum_Ico_succ_top (by omega)]
    abel

theorem leavesAt_zero (h : leaves ≠ []) : leavesAt leaves 0 = ↑leaves := by
  have hpos := length_pos_iff.mpr h
  rw [← sum_leavesAt leaves (leaves.length - 1) (by omega)]
  have hIco : 2 * (leaves.length - 1) + 1 = leaves.length - 1 + leaves.length := by omega
  rw [hIco, sum_Ico_eq_sum_range, Nat.add_sub_cancel_left]
  have hterm : ∀ k ∈ Finset.range leaves.length, leavesAt leaves (leaves.length - 1 + k) =
      {leaves.getD (leaves.length - 1 - k) 0} := by
    intro k hk
    have hk' := Finset.mem_range.mp hk
    have hidx : 2 * leaves.length - 2 - (leaves.length - 1 + k) = leaves.length - 1 - k := by omega
    rw [leavesAt_leaf (by omega), hidx]
  rw [sum_congr rfl hterm, sum_range_reflect (fun k => ({leaves.getD k 0} : Multiset B256)) leaves.length]
  have hsum : ∀ l : List B256, ∑ k ∈ Finset.range l.length, ({l.getD k 0} : Multiset B256) = ↑l := by
    intro l
    induction l with
    | nil => rfl
    | cons a l ih =>
      rw [length_cons, Finset.sum_range_succ']
      simp only [getD_cons_succ, getD_cons_zero, ih]
      rw [add_comm]
      rfl
  exact hsum leaves

theorem pairPreimage_inj {a b c d : B256} (h : pairPreimage a b = pairPreimage c d) :
    (a = c ∧ b = d) ∨ (a = d ∧ b = c) := by
  have hsplit : ∀ w x y z : B256, w.bytes ++ x.bytes = y.bytes ++ z.bytes → w = y ∧ x = z := by
    intro w x y z e
    obtain ⟨h1, h2⟩ := append_inj e (by simp)
    exact ⟨FixedBytes.bytes_inj.mp h1, FixedBytes.bytes_inj.mp h2⟩
  unfold pairPreimage at h
  by_cases hab : a ≤ b
  · by_cases hcd : c ≤ d
    · rw [if_pos hab, if_pos hcd] at h
      exact .inl (hsplit _ _ _ _ h)
    · rw [if_pos hab, if_neg hcd] at h
      exact .inr (hsplit _ _ _ _ h)
  · by_cases hcd : c ≤ d
    · rw [if_neg hab, if_pos hcd] at h
      exact .inr (hsplit _ _ _ _ h).symm
    · rw [if_neg hab, if_neg hcd] at h
      exact .inl (hsplit _ _ _ _ h).symm

theorem length_pairPreimage (a b : B256) : (pairPreimage a b).length = 64 := by
  unfold pairPreimage
  split
  all_goals simp

/-- The strings hashed for the inner nodes over sorted leaves. -/
def treeHashed (H : Hashes) (leaves : List B256) : List Bytes :=
  (List.range (leaves.length - 1)).map fun i =>
    pairPreimage (treeNode H leaves (2 * i + 1)) (treeNode H leaves (2 * i + 2))

/-- Leaves that are hashes of 32-byte strings of `S`, over inner nodes hashed from `S`. -/
structure HashedTree (H : Hashes) (S : List Bytes) (leaves : List B256) : Prop where
  leaf : ∀ x ∈ leaves, ∃ s ∈ S, s.length = 32 ∧ H.keccak256 s = x
  inner : ∀ s ∈ treeHashed H leaves, s ∈ S

theorem HashedTree.mem_inner (h : HashedTree H S leaves) (hi : i + 1 < leaves.length) :
    pairPreimage (treeNode H leaves (2 * i + 1)) (treeNode H leaves (2 * i + 2)) ∈ S := by
  apply h.inner
  exact List.mem_map.mpr ⟨i, List.mem_range.mpr (by omega), rfl⟩

theorem HashedTree.leaf_at (h : HashedTree H S leaves) (hlo : ¬ i + 1 < leaves.length)
    (hi : i < 2 * leaves.length - 1) :
    ∃ s ∈ S, s.length = 32 ∧ H.keccak256 s = treeNode H leaves i := by
  rw [treeNode_leaf hlo, getD_eq_getElem _ _ (by omega)]
  exact h.leaf _ (getElem_mem _)

theorem leavesAt_eq (hS : CollisionFree H.keccak256 S)
    {xs ys : List B256} (hx : HashedTree H S xs) (hy : HashedTree H S ys) (i j : Nat)
    (hi : i < 2 * xs.length - 1) (hj : j < 2 * ys.length - 1)
    (e : treeNode H xs i = treeNode H ys j) : leavesAt xs i = leavesAt ys j := by
  induction hk : xs.length - i using Nat.strong_induction_on generalizing i j with
  | _ k ih =>
    by_cases hxi : i + 1 < xs.length
    · by_cases hyj : j + 1 < ys.length
      · rw [leavesAt_inner hxi, leavesAt_inner hyj]
        have epre := e
        rw [treeNode_inner hxi, treeNode_inner hyj] at epre
        have hpre := hS.inj _ (hx.mem_inner hxi) _ (hy.mem_inner hyj) epre
        have hi1 : 2 * i + 1 < 2 * xs.length - 1 := by omega
        have hi2 : 2 * i + 2 < 2 * xs.length - 1 := by omega
        have hj1 : 2 * j + 1 < 2 * ys.length - 1 := by omega
        have hj2 : 2 * j + 2 < 2 * ys.length - 1 := by omega
        rcases pairPreimage_inj hpre with ⟨h1, h2⟩ | ⟨h1, h2⟩
        · rw [ih _ (by omega) _ _ hi1 hj1 h1 rfl, ih _ (by omega) _ _ hi2 hj2 h2 rfl]
        · rw [ih _ (by omega) _ _ hi1 hj2 h1 rfl, ih _ (by omega) _ _ hi2 hj1 h2 rfl, add_comm]
      · -- a parent and a leaf: preimages of 64 and of 32 bytes
        obtain ⟨s, hsS, hs, he⟩ := hy.leaf_at hyj hj
        rw [treeNode_inner hxi, ← he] at e
        have hpre := hS.inj _ (hx.mem_inner hxi) _ hsS e
        have hlen := length_pairPreimage (treeNode H xs (2 * i + 1)) (treeNode H xs (2 * i + 2))
        rw [hpre] at hlen
        omega
    · by_cases hyj : j + 1 < ys.length
      · obtain ⟨s, hsS, hs, he⟩ := hx.leaf_at hxi hi
        rw [treeNode_inner hyj, ← he] at e
        have hpre := hS.inj _ hsS _ (hy.mem_inner hyj) e
        have hlen := length_pairPreimage (treeNode H ys (2 * j + 1)) (treeNode H ys (2 * j + 2))
        rw [← hpre] at hlen
        omega
      · rw [leavesAt_leaf hxi, leavesAt_leaf hyj, ← treeNode_leaf (H := H) hxi, ← treeNode_leaf (H := H) hyj, e]

theorem sorted_ne_nil (h : leaves ≠ []) : leaves.insertionSort (· ≤ ·) ≠ [] := by
  intro he
  have hlen := length_insertionSort (· ≤ ·) leaves
  rw [he] at hlen
  exact h (length_eq_zero_iff.mp hlen.symm)

theorem treeNode_zero_ne (hS : CollisionFree H.keccak256 S) (h : HashedTree H S leaves) (hne : leaves ≠ []) :
    treeNode H leaves 0 ≠ 0 := by
  have hpos := length_pos_iff.mpr hne
  by_cases h1 : 0 + 1 < leaves.length
  · rw [treeNode_inner h1]
    exact hS.ne_zero _ (h.mem_inner h1)
  · obtain ⟨s, hs, -, he⟩ := h.leaf_at h1 (by omega)
    rw [← he]
    exact hS.ne_zero s hs

theorem merkleRoot_injective (hS : CollisionFree H.keccak256 S)
    {xs ys : List B256} (hx : HashedTree H S (xs.insertionSort (· ≤ ·)))
    (hy : HashedTree H S (ys.insertionSort (· ≤ ·))) (e : merkleRoot H xs = merkleRoot H ys) :
    xs.Perm ys := by
  by_cases hnx : xs = []
  · by_cases hny : ys = []
    · rw [hnx, hny]
    · rw [merkleRoot_eq hny, hnx] at e
      exact absurd (some_inj.mp e).symm (treeNode_zero_ne hS hy (sorted_ne_nil hny))
  · by_cases hny : ys = []
    · rw [merkleRoot_eq hnx, hny] at e
      exact absurd (some_inj.mp e) (treeNode_zero_ne hS hx (sorted_ne_nil hnx))
    · rw [merkleRoot_eq hnx, merkleRoot_eq hny, some_inj] at e
      have hpos := length_pos_iff.mpr (sorted_ne_nil hnx)
      have hpos' := length_pos_iff.mpr (sorted_ne_nil hny)
      have hleaves := leavesAt_eq hS hx hy 0 0 (by omega) (by omega) e
      rw [leavesAt_zero (sorted_ne_nil hnx), leavesAt_zero (sorted_ne_nil hny)] at hleaves
      exact (perm_insertionSort (· ≤ ·) xs).symm.trans
        ((Multiset.coe_eq_coe.mp hleaves).trans (perm_insertionSort (· ≤ ·) ys))

theorem perm_of_map_perm {α β : Type*} [Nonempty α] {f : α → β} {l l' : List α}
    (hf : Set.InjOn f {a | a ∈ l ∨ a ∈ l'}) (h : (l.map f).Perm (l'.map f)) : l.Perm l' := by
  have hinv := hf.leftInvOn_invFunOn
  have hback := h.map (Function.invFunOn f {a | a ∈ l ∨ a ∈ l'})
  rw [List.map_map, List.map_map] at hback
  have hid : ∀ m : List α, (∀ a ∈ m, a ∈ l ∨ a ∈ l') →
      m.map (Function.invFunOn f {a | a ∈ l ∨ a ∈ l'} ∘ f) = m := fun m hm =>
    (map_congr_left fun a ha => hinv (hm a ha)).trans (List.map_id m)
  rwa [hid l fun a ha => .inl ha, hid l' fun a ha => .inr ha] at hback

def seedLeaves (H : Hashes) (seeds : List Address) : List B256 :=
  (seeds.map fun a => H.keccak256 (wordAddr a)).insertionSort (· ≤ ·)

def seedSetHashed (H : Hashes) (seeds : List Address) : List Bytes :=
  seeds.map wordAddr ++ treeHashed H (seedLeaves H seeds)

theorem seedLeaves_perm (H : Hashes) (seeds : List Address) :
    (seedLeaves H seeds).Perm (seeds.map fun a => H.keccak256 (wordAddr a)) :=
  perm_insertionSort _ _

theorem hashedTree_seedLeaves {seeds : List Address}
    (h : ∀ s ∈ seedSetHashed H seeds, s ∈ S) : HashedTree H S (seedLeaves H seeds) where
  leaf x hx := by
    obtain ⟨a, ha, rfl⟩ := List.mem_map.mp ((seedLeaves_perm H seeds).mem_iff.mp hx)
    exact ⟨wordAddr a, h _ (mem_append_left _ (List.mem_map_of_mem ha)), by simp, rfl⟩
  inner s hs := h s (mem_append_right _ hs)

theorem seedSetRoot_eq (seeds : List Address) :
    seedSetRoot H seeds = merkleRoot H (seeds.map fun a => H.keccak256 (wordAddr a)) := by
  unfold seedSetRoot
  by_cases h : seeds.isEmpty = true
  · rw [if_pos h, List.isEmpty_iff.mp h]
    rfl
  · rw [if_neg h]

theorem seedSetRoot_injective (hS : CollisionFree H.keccak256 S)
    {seeds seeds' : List Address} (h : ∀ s ∈ seedSetHashed H seeds, s ∈ S)
    (h' : ∀ s ∈ seedSetHashed H seeds', s ∈ S) (e : seedSetRoot H seeds = seedSetRoot H seeds') :
    seeds.Perm seeds' := by
  rw [seedSetRoot_eq, seedSetRoot_eq] at e
  have hperm := merkleRoot_injective hS (hashedTree_seedLeaves h) (hashedTree_seedLeaves h') e
  refine perm_of_map_perm (fun a ha b hb hab => ?_) hperm
  have hmem : ∀ c, c ∈ seeds ∨ c ∈ seeds' → wordAddr c ∈ S := by
    rintro c (hc | hc)
    · exact h _ (mem_append_left _ (List.mem_map_of_mem hc))
    · exact h' _ (mem_append_left _ (List.mem_map_of_mem hc))
  exact wordAddr_inj.mp (hS.inj _ (hmem a ha) _ (hmem b hb) hab)

end Trustgraphs.Merkle

/-!
## Openings of the Merkle tree

A proof of the source leads from its leaf to the root (`processProof_siblings`). Conversely a proof of any
siblings that leads from the hash of a 32-byte string to a node of the tree goes down the tree: its leaf
is a leaf below the node (`mem_leavesAt_of_processProof`).
-/

namespace Trustgraphs.Merkle

open Option List

variable {H : Hashes} {leaves : List B256}

theorem pairPreimage_comm (a b : B256) : pairPreimage a b = pairPreimage b a := by
  unfold pairPreimage
  by_cases hab : a ≤ b
  · by_cases hba : b ≤ a
    · rw [le_antisymm hab hba]
    · rw [if_pos hab, if_neg hba]
  · rw [if_neg hab, if_pos (le_of_not_ge hab)]

theorem hashPair_comm (a b : B256) : hashPair H a b = hashPair H b a := by
  rw [hashPair, pairPreimage_comm]
  rfl

theorem length_foldlM_fillNode {l : List ℕ} {tree r : List B256}
    (h : l.foldlM (fillNode H) tree = some r) : r.length = tree.length := by
  induction l generalizing tree with
  | nil =>
    obtain rfl : tree = r := Option.some.inj h
    rfl
  | cons i l ih =>
    rw [foldlM_cons, bind_eq_bind, bind_eq_some_iff] at h
    obtain ⟨mid, hmid, h⟩ := h
    rw [fillNode, bind_eq_bind, bind_eq_some_iff] at hmid
    obtain ⟨a, -, hmid⟩ := hmid
    obtain ⟨b, -, hmid⟩ := bind_eq_some_iff.mp hmid
    rw [ih h, ← Option.some.inj hmid, length_set]

/-- The array holds at every index the value of the recursion. -/
structure IsTree (H : Hashes) (sorted tree : List B256) : Prop where
  length : tree.length = 2 * sorted.length - 1
  node : ∀ j, j < 2 * sorted.length - 1 → tree[j]? = some (treeNode H sorted j)

theorem buildTree_isTree (h : leaves ≠ []) :
    ∃ tree, buildTree H leaves = some tree ∧ IsTree H (leaves.insertionSort (· ≤ ·)) tree := by
  have hemp : ¬ leaves.isEmpty = true := fun he => h (List.isEmpty_iff.mp he)
  have hne := sorted_ne_nil h
  unfold buildTree
  rw [if_neg hemp]
  generalize leaves.insertionSort (· ≤ ·) = sorted at hne
  have hpos := length_pos_iff.mpr hne
  by_cases h1 : sorted.length = 1
  · simp only [h1, if_true]
    refine ⟨sorted, rfl, by omega, fun j hj => ?_⟩
    obtain rfl : j = 0 := by omega
    rw [treeNode_leaf (by omega), getElem?_eq_getElem (by omega), h1, getD_eq_getElem _ _ (by omega)]
  · obtain ⟨r, hr, hget⟩ := foldlM_fillNode (H := H) sorted (sorted.length - 1) (by omega)
      (placeLeaves (2 * sorted.length - 1) sorted) (length_placeLeaves ..) fun j hj hlt =>
        getElem?_placeLeaves hne (by omega) hlt
    simp only [h1, if_false]
    exact ⟨r, hr, by rw [length_foldlM_fillNode hr, length_placeLeaves], hget⟩

theorem buildTree_head (H : Hashes) (leaves : List B256) :
    ∃ tree, buildTree H leaves = some tree ∧ merkleRoot H leaves = some (tree.headD 0) := by
  by_cases h : leaves = []
  · exact ⟨[], by simp [buildTree, h], by simp [merkleRoot, h]⟩
  · obtain ⟨tree, htree, hlen, hnode⟩ := buildTree_isTree (H := H) h
    refine ⟨tree, htree, ?_⟩
    have hpos := length_pos_iff.mpr (sorted_ne_nil h)
    have h0 := hnode 0 (by omega)
    rw [merkleRoot_eq h, ← h0]
    cases tree with
    | nil => exact absurd h0 (by simp)
    | cons a l => rfl

theorem merkleRoot_perm {leaves' : List B256} (h : leaves.Perm leaves') :
    merkleRoot H leaves = merkleRoot H leaves' := by
  have hsort : leaves.insertionSort (· ≤ ·) = leaves'.insertionSort (· ≤ ·) :=
    List.Perm.eq_of_pairwise (fun a b _ _ => le_antisymm) (pairwise_insertionSort _ _)
      (pairwise_insertionSort _ _)
      ((perm_insertionSort ..).trans (h.trans (perm_insertionSort ..).symm))
  have hempty : leaves.isEmpty = leaves'.isEmpty := by
    rw [Bool.eq_iff_iff, isEmpty_iff_length_eq_zero, isEmpty_iff_length_eq_zero, h.length_eq]
  unfold merkleRoot
  rw [hsort, hempty]

theorem processProof_siblings {sorted tree : List B256} (h : IsTree H sorted tree) (i : ℕ)
    (hi : i < 2 * sorted.length - 1) :
    processProof H (siblings tree i) (treeNode H sorted i) = treeNode H sorted 0 := by
  induction i using Nat.strong_induction_on with
  | _ i ih =>
    rw [siblings]
    by_cases h0 : i = 0
    · rw [if_pos h0, h0]
      rfl
    · rw [if_neg h0]
      have hparent := ih ((i - 1) / 2) (by omega) (by omega)
      rw [treeNode_inner (by omega)] at hparent
      -- an odd index is a left child, its sibling is within the odd length of the array
      by_cases hodd : i % 2 = 1
      · have hl : 2 * ((i - 1) / 2) + 1 = i := by omega
        have hr : 2 * ((i - 1) / 2) + 2 = i + 1 := by omega
        rw [hl, hr] at hparent
        simp only [if_pos hodd, h.node (i + 1) (by omega), Option.toList_some, singleton_append]
        exact hparent
      · have hl : 2 * ((i - 1) / 2) + 1 = i - 1 := by omega
        have hr : 2 * ((i - 1) / 2) + 2 = i := by omega
        rw [hl, hr, hashPair_comm] at hparent
        simp only [if_neg hodd, h.node (i - 1) (by omega), Option.toList_some, singleton_append]
        exact hparent

theorem proofFor_complete {sorted tree : List B256} (h : IsTree H sorted tree) {leaf : B256}
    (hleaf : leaf ∈ sorted) :
    ∃ proof, proofFor tree leaf = some proof ∧ processProof H proof leaf = treeNode H sorted 0 := by
  have hpos := length_pos_of_mem hleaf
  have hlen := h.length
  have hemp : ¬ tree.isEmpty = true := by
    rw [isEmpty_iff_length_eq_zero]
    omega
  have hn : (tree.length + 1) / 2 - 1 = sorted.length - 1 := by omega
  obtain ⟨k, hk, hkl⟩ := getElem_of_mem hleaf
  rw [proofFor, if_neg hemp]
  cases hfind : (List.range' ((tree.length + 1) / 2 - 1)
      (tree.length - ((tree.length + 1) / 2 - 1))).find? fun i => tree[i]? = some leaf with
  | none =>
    -- the leaf stands at its place from the end
    have hnone := find?_eq_none.mp hfind (2 * sorted.length - 2 - k)
      (mem_range'_1.mpr (by omega))
    rw [h.node _ (by omega), treeNode_leaf (by omega)] at hnone
    have hidx : 2 * sorted.length - 2 - (2 * sorted.length - 2 - k) = k := by omega
    rw [hidx, getD_eq_getElem _ _ hk, hkl] at hnone
    simp at hnone
  | some i =>
    have hmem := mem_range'_1.mp (mem_of_find?_eq_some hfind)
    have hi : tree[i]? = some leaf := by simpa using find?_some hfind
    rw [h.node i (by omega), some_inj] at hi
    refine ⟨siblings tree i, by simp only [hfind, map_some], ?_⟩
    rw [← hi]
    exact processProof_siblings h i (by omega)

def proofHashed (H : Hashes) : B256 → List B256 → List Bytes
  | _, [] => []
  | node, sibling :: proof => pairPreimage node sibling :: proofHashed H (hashPair H node sibling) proof

theorem processProof_concat (proof : List B256) (sibling leaf : B256) :
    processProof H (proof ++ [sibling]) leaf = hashPair H (processProof H proof leaf) sibling := by
  rw [processProof, foldl_append]
  rfl

theorem proofHashed_concat (proof : List B256) (sibling leaf : B256) : proofHashed H leaf (proof ++ [sibling]) =
      proofHashed H leaf proof ++ [pairPreimage (processProof H proof leaf) sibling] := by
  induction proof generalizing leaf with
  | nil => rfl
  | cons s proof ih =>
    show _ :: proofHashed H _ (proof ++ [sibling]) = _
    rw [ih]
    rfl

section

variable {S : List Bytes} {sorted : List B256} {s : Bytes}

theorem mem_leavesAt_of_processProof (hS : CollisionFree H.keccak256 S) (ht : HashedTree H S sorted)
    (hs : s ∈ S) (hlen : s.length = 32) (proof : List B256)
    (hproof : ∀ t ∈ proofHashed H (H.keccak256 s) proof, t ∈ S) (i : ℕ) (hi : i < 2 * sorted.length - 1)
    (e : processProof H proof (H.keccak256 s) = treeNode H sorted i) :
    H.keccak256 s ∈ leavesAt sorted i := by
  induction proof using List.reverseRecOn generalizing i with
  | nil =>
    change H.keccak256 s = treeNode H sorted i at e
    by_cases hinner : i + 1 < sorted.length
    · rw [treeNode_inner hinner] at e
      have hpre := hS.inj _ hs _ (ht.mem_inner hinner) e
      rw [hpre, length_pairPreimage] at hlen
      omega
    · rw [leavesAt_leaf hinner, Multiset.mem_singleton, ← treeNode_leaf (H := H) hinner]
      exact e
  | append_singleton proof sibling ih =>
    rw [processProof_concat] at e
    rw [proofHashed_concat] at hproof
    have hpair := hproof _ (mem_append_right _ (mem_singleton_self _))
    have hbelow : ∀ t ∈ proofHashed H (H.keccak256 s) proof, t ∈ S :=
      fun t ht => hproof t (mem_append_left _ ht)
    by_cases hinner : i + 1 < sorted.length
    · rw [treeNode_inner hinner] at e
      rw [leavesAt_inner hinner, Multiset.mem_add]
      -- the node is reached from one of its two children
      rcases pairPreimage_inj (hS.inj _ hpair _ (ht.mem_inner hinner) e) with ⟨h, -⟩ | ⟨h, -⟩
      · exact .inl (ih hbelow _ (by omega) h)
      · exact .inr (ih hbelow _ (by omega) h)
    · obtain ⟨t, htS, htlen, he⟩ := ht.leaf_at hinner hi
      rw [← he] at e
      have hpre := hS.inj _ hpair _ htS e
      rw [← hpre, length_pairPreimage] at htlen
      omega

theorem processProof_ne_zero (hS : CollisionFree H.keccak256 S) (hs : s ∈ S) (proof : List B256)
    (hproof : ∀ t ∈ proofHashed H (H.keccak256 s) proof, t ∈ S) :
    processProof H proof (H.keccak256 s) ≠ 0 := by
  rcases eq_nil_or_concat proof with rfl | ⟨proof, sibling, rfl⟩
  · exact hS.ne_zero s hs
  · rw [concat_eq_append] at hproof ⊢
    rw [proofHashed_concat] at hproof
    rw [processProof_concat]
    exact hS.ne_zero _ (hproof _ (mem_append_right _ (mem_singleton_self _)))

theorem mem_of_processProof (hS : CollisionFree H.keccak256 S)
    (ht : HashedTree H S (leaves.insertionSort (· ≤ ·))) (hs : s ∈ S) (hlen : s.length = 32)
    (proof : List B256) (hproof : ∀ t ∈ proofHashed H (H.keccak256 s) proof, t ∈ S)
    (e : merkleRoot H leaves = some (processProof H proof (H.keccak256 s))) :
    H.keccak256 s ∈ leaves := by
  by_cases hne : leaves = []
  · rw [hne] at e
    exact absurd (Option.some.inj e).symm (processProof_ne_zero hS hs proof hproof)
  · rw [merkleRoot_eq hne, some_inj] at e
    have hpos := length_pos_iff.mpr (sorted_ne_nil hne)
    have hmem := mem_leavesAt_of_processProof hS ht hs hlen proof hproof 0 (by omega) e.symm
    rw [leavesAt_zero (sorted_ne_nil hne), Multiset.mem_coe] at hmem
    exact (perm_insertionSort ..).mem_iff.mp hmem

end

def outputPreimages (H : Hashes) (e : Address × U256) : List Bytes :=
  [wordAddr e.1 ++ wordU256 e.2, (H.keccak256 (wordAddr e.1 ++ wordU256 e.2)).bytes]

def outputLeaves (H : Hashes) (scores : List (Address × U256)) : List B256 :=
  scores.map fun e => outputLeaf H e.1 e.2

def outputHashed (H : Hashes) (scores : List (Address × U256)) : List Bytes :=
  scores.flatMap (outputPreimages H) ++ treeHashed H ((outputLeaves H scores).insertionSort (· ≤ ·))

section

variable {S : List Bytes} {scores : List (Address × U256)}

theorem outputLeaf_inj (hS : CollisionFree H.keccak256 S) {a b : Address × U256}
    (ha : ∀ s ∈ outputPreimages H a, s ∈ S) (hb : ∀ s ∈ outputPreimages H b, s ∈ S)
    (e : outputLeaf H a.1 a.2 = outputLeaf H b.1 b.2) : a = b := by
  have houter := hS.inj _ (ha _ (by simp [outputPreimages])) _ (hb _ (by simp [outputPreimages])) e
  have hinner := hS.inj _ (ha _ (by simp [outputPreimages])) _ (hb _ (by simp [outputPreimages]))
    (FixedBytes.bytes_inj.mp houter)
  obtain ⟨h1, h2⟩ := append_inj hinner (by simp)
  exact Prod.ext (wordAddr_inj.mp h1) (wordU256_inj.mp h2)

theorem outputPreimages_mem (h : ∀ s ∈ outputHashed H scores, s ∈ S) {e : Address × U256}
    (he : e ∈ scores) : ∀ s ∈ outputPreimages H e, s ∈ S :=
  fun s hs => h s (mem_append_left _ (mem_flatMap.mpr ⟨e, he, hs⟩))

theorem hashedTree_outputLeaves (h : ∀ s ∈ outputHashed H scores, s ∈ S) :
    HashedTree H S ((outputLeaves H scores).insertionSort (· ≤ ·)) where
  leaf x hx := by
    obtain ⟨e, he, rfl⟩ := List.mem_map.mp ((perm_insertionSort ..).mem_iff.mp hx)
    exact ⟨_, outputPreimages_mem h he _ (by simp [outputPreimages]), FixedBytes.length_bytes _, rfl⟩
  inner s hs := h s (mem_append_right _ hs)

theorem outputRoot_injective (hS : CollisionFree H.keccak256 S) {scores' : List (Address × U256)}
    (h : ∀ s ∈ outputHashed H scores, s ∈ S) (h' : ∀ s ∈ outputHashed H scores', s ∈ S)
    (e : merkleRoot H (outputLeaves H scores) = merkleRoot H (outputLeaves H scores')) :
    scores.Perm scores' := by
  have hperm := merkleRoot_injective hS (hashedTree_outputLeaves h) (hashedTree_outputLeaves h') e
  refine perm_of_map_perm (fun a ha b hb hab => ?_) hperm
  have hmem : ∀ c, c ∈ scores ∨ c ∈ scores' → ∀ s ∈ outputPreimages H c, s ∈ S := by
    rintro c (hc | hc)
    · exact outputPreimages_mem h hc
    · exact outputPreimages_mem h' hc
  exact outputLeaf_inj hS (hmem a ha) (hmem b hb) hab

theorem mem_of_outputProof (hS : CollisionFree H.keccak256 S) (h : ∀ s ∈ outputHashed H scores, s ∈ S)
    {e : Address × U256} (he : ∀ s ∈ outputPreimages H e, s ∈ S) (proof : List B256)
    (hproof : ∀ s ∈ proofHashed H (outputLeaf H e.1 e.2) proof, s ∈ S)
    (hroot : merkleRoot H (outputLeaves H scores) =
      some (processProof H proof (outputLeaf H e.1 e.2))) : e ∈ scores := by
  have hmem := mem_of_processProof hS (hashedTree_outputLeaves h)
    (he _ (mem_cons_of_mem _ (mem_singleton_self _))) (FixedBytes.length_bytes _) proof hproof
    hroot
  obtain ⟨b, hb, hbe⟩ := List.mem_map.mp hmem
  rw [← outputLeaf_inj hS (outputPreimages_mem h hb) he hbe]
  exact hb

end

end Trustgraphs.Merkle
