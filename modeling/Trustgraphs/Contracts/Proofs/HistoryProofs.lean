import Trustgraphs.Contracts.Proofs.SnapshotWorldProofs

/-!
# The recorded states

The blocks of the recorded states ascend and the index inverts them (`History`).
-/

namespace Trustgraphs

open Outcome Function List

namespace MerkleSnapshot

variable {s s' : Storage} {state : MerkleState} {index : Nat}

/-- The recorded states are in the order of their blocks, and the index of a block is that of its state. -/
structure History (s : Storage) : Prop where
  ascending : s.stateBlocks.Pairwise (· < ·)
  index : ∀ i b, s.stateBlocks[i]? = some b → s.blockToStateIndex b = i
  blockNumber : ∀ i b, s.stateBlocks[i]? = some b → (s.states i).blockNumber = b
  unindexed : ∀ b, b ∉ s.stateBlocks → s.blockToStateIndex b = 0

theorem lt_of_ascending {l : List U256} (h : l.Pairwise (· < ·)) {i j : Nat} {a b : U256} (hij : i < j)
    (ha : l[i]? = some a) (hb : l[j]? = some b) : a < b := by
  obtain ⟨hi, rfl⟩ := List.getElem?_eq_some_iff.mp ha
  obtain ⟨hj, rfl⟩ := List.getElem?_eq_some_iff.mp hb
  exact pairwise_iff_getElem.mp h i j hi hj hij

theorem le_getLast {l : List U256} (h : l.Pairwise (· < ·)) {last b : U256}
    (hlast : l.getLast? = some last) (hb : b ∈ l) : b ≤ last := by
  obtain ⟨i, hi⟩ := List.mem_iff_getElem?.mp hb
  rw [getLast?_eq_getElem?] at hlast
  have hlt := (List.getElem?_eq_some_iff.mp hi).1
  by_cases hend : i = l.length - 1
  · rw [hend, hlast] at hi
    obtain rfl := Option.some.inj hi
    exact BitVec.le_refl _
  · exact BitVec.le_of_lt (lt_of_ascending h (by omega) hi hlast)

theorem History.nil (hblocks : s.stateBlocks = []) (hindex : s.blockToStateIndex = fun _ => 0) : History s where
  ascending := by
    rw [hblocks]
    exact .nil
  index i b hb := by
    rw [hblocks] at hb
    exact absurd hb (by simp)
  blockNumber i b hb := by
    rw [hblocks] at hb
    exact absurd hb (by simp)
  unindexed b _ := by rw [hindex]

theorem History.congr (h : History s) (hblocks : s'.stateBlocks = s.stateBlocks)
    (hstates : s'.states = s.states) (hindex : s'.blockToStateIndex = s.blockToStateIndex) :
    History s' where
  ascending := hblocks ▸ h.ascending
  index := by
    rw [hblocks, hindex]
    exact h.index
  blockNumber := by
    rw [hblocks, hstates]
    exact h.blockNumber
  unindexed := by
    rw [hblocks, hindex]
    exact h.unindexed

def NotAfter (s : Storage) (b : U256) : Prop := ∀ last, s.stateBlocks.getLast? = some last → last ≤ b

/-- A state of a new block is appended. -/
theorem Filed.append_history (h : History s) (hb : NotAfter s state.blockNumber)
    (hf : Filed s s' state s.stateBlocks.length)
    (hblocks : s'.stateBlocks = s.stateBlocks ++ [state.blockNumber])
    (hne : s.stateBlocks.getLast? ≠ some state.blockNumber) : History s' := by
  have hbelow : ∀ b ∈ s.stateBlocks, b < state.blockNumber := by
    intro b hmem
    obtain ⟨last, hlast⟩ : ∃ last, s.stateBlocks.getLast? = some last :=
      ⟨_, getLast?_eq_some_getLast (ne_nil_of_mem hmem)⟩
    have hle := le_getLast h.ascending hlast hmem
    have hlt := BitVec.lt_of_le_ne (hb last hlast) fun heq => hne (heq ▸ hlast)
    rw [BitVec.lt_def] at hlt ⊢
    rw [BitVec.le_def] at hle
    omega
  have hcases : ∀ i b, s'.stateBlocks[i]? = some b →
      i < s.stateBlocks.length ∧ s.stateBlocks[i]? = some b ∧ b ≠ state.blockNumber ∨
        i = s.stateBlocks.length ∧ b = state.blockNumber := by
    intro i b hget
    rw [hblocks, getElem?_append] at hget
    by_cases hi : i < s.stateBlocks.length
    · rw [if_pos hi] at hget
      refine .inl ⟨hi, hget, fun heq => ?_⟩
      have hlt := hbelow b (mem_of_getElem? hget)
      rw [heq] at hlt
      exact absurd hlt (BitVec.lt_irrefl _)
    · rw [if_neg hi, getElem?_singleton] at hget
      by_cases hzero : i - s.stateBlocks.length = 0
      · rw [if_pos hzero] at hget
        exact .inr ⟨by omega, (Option.some.inj hget).symm⟩
      · rw [if_neg hzero] at hget
        exact absurd hget (by simp)
  refine ⟨?_, fun i b hget => ?_, fun i b hget => ?_, fun b hnot => ?_⟩
  · rw [hblocks, pairwise_append]
    exact ⟨h.ascending, pairwise_singleton .., fun a ha b hb => mem_singleton.mp hb ▸ hbelow a ha⟩
  · rw [hf.blockToStateIndex]
    rcases hcases i b hget with ⟨-, hold, hne⟩ | ⟨rfl, rfl⟩
    · rw [update_of_ne hne]
      exact h.index i b hold
    · exact update_self ..
  · rw [hf.states]
    rcases hcases i b hget with ⟨hi, hold, -⟩ | ⟨rfl, rfl⟩
    · rw [update_of_ne (by omega)]
      exact h.blockNumber i b hold
    · rw [update_self]
  · rw [hblocks, mem_append, mem_singleton, not_or] at hnot
    rw [hf.blockToStateIndex, update_of_ne hnot.2]
    exact h.unindexed b hnot.1

theorem Filed.replace_history (h : History s) (hf : Filed s s' state index)
    (hblocks : s'.stateBlocks = s.stateBlocks) (hlast : s.stateBlocks.getLast? = some state.blockNumber)
    (hindex : index = s.blockToStateIndex state.blockNumber) : History s' := by
  have hsame : s'.blockToStateIndex = s.blockToStateIndex := by
    rw [hf.blockToStateIndex, hindex]
    exact update_eq_self ..
  refine ⟨hblocks ▸ h.ascending, ?_, fun i b hget => ?_, ?_⟩
  · rw [hblocks, hsame]
    exact h.index
  · rw [hblocks] at hget
    rw [hf.states]
    by_cases hi : i = index
    · -- an index has one block
      rw [hi, update_self]
      obtain ⟨j, hj⟩ := List.mem_iff_getElem?.mp (mem_of_getLast? hlast)
      have hij : j = i := (h.index j _ hj).symm.trans (hindex.symm.trans hi.symm)
      rw [hij, hget] at hj
      exact (Option.some.inj hj).symm
    · rw [update_of_ne hi]
      exact h.blockNumber i b hget
  · rw [hblocks, hsame]
    exact h.unindexed

theorem Filed.history (h : History s) (hb : NotAfter s state.blockNumber) (hf : Filed s s' state index) :
    History s' := by
  rcases hf.blocks with ⟨hblocks, rfl, hne⟩ | ⟨hblocks, hlast, hindex⟩
  · exact hf.append_history h hb hblocks hne
  · exact hf.replace_history h hblocks hlast hindex

theorem Filed.last (h : History s) (hf : Filed s s' state index) :
    s'.stateBlocks.getLast? = some state.blockNumber ∧ index + 1 = s'.stateBlocks.length := by
  rcases hf.blocks with ⟨hblocks, rfl, -⟩ | ⟨hblocks, hlast, rfl⟩
  · rw [hblocks]
    exact ⟨by simp, by simp⟩
  · rw [hblocks]
    refine ⟨hlast, ?_⟩
    rw [getLast?_eq_getElem?] at hlast
    rw [h.index _ _ hlast]
    have := (List.getElem?_eq_some_iff.mp hlast).1
    omega

/-- The first `n` recorded blocks are those that are not above `b`. -/
structure Cut (s : Storage) (b : U256) (n : Nat) : Prop where
  le_length : n ≤ s.stateBlocks.length
  below : ∀ i blk, i < n → s.stateBlocks[i]? = some blk → blk ≤ b
  above : ∀ i blk, n ≤ i → s.stateBlocks[i]? = some blk → b < blk

theorem Cut.unique {b : U256} {n m : Nat} (hn : Cut s b n) (hm : Cut s b m) : n = m := by
  have hle : ∀ {n m : Nat}, Cut s b n → Cut s b m → n ≤ m := by
    intro n m hn hm
    by_contra hlt
    have hm' : m < s.stateBlocks.length := by
      have := hn.le_length
      omega
    have hget : s.stateBlocks[m]? = some s.stateBlocks[m] := getElem?_eq_getElem hm'
    have hbelow := hn.below m _ (by omega) hget
    have habove := hm.above m _ le_rfl hget
    rw [BitVec.lt_def] at habove
    rw [BitVec.le_def] at hbelow
    omega
  exact Nat.le_antisymm (hle hn hm) (hle hm hn)

/-- The search ends at the cut, when it starts on both sides of it. -/
theorem searchStateIndex_cut (h : History s) {b : U256} {left right result : Nat} {found : Bool}
    (hle : left ≤ right) (hright : right ≤ s.stateBlocks.length)
    (hlow : ∀ i blk, i < left → s.stateBlocks[i]? = some blk → blk ≤ b)
    (hhigh : ∀ i blk, right ≤ i → s.stateBlocks[i]? = some blk → b < blk)
    (hfound : found = decide (0 < left)) (hresult : result = left - 1) :
    ∃ n, Cut s b n ∧ searchStateIndex s b left right result found = .ok (decide (0 < n), n - 1) := by
  induction hn : right - left using Nat.strong_induction_on generalizing left right result found with
  | _ d ih =>
    unfold searchStateIndex
    by_cases hlt : left < right
    · rw [if_pos hlt]
      have hmid : (left + right) / 2 < s.stateBlocks.length := by omega
      obtain ⟨mid, hmiddef⟩ : ∃ mid, mid = (left + right) / 2 := ⟨_, rfl⟩
      rw [← hmiddef] at hmid ⊢
      have hget : s.stateBlocks[mid]? = some s.stateBlocks[mid] := getElem?_eq_getElem hmid
      obtain ⟨midBlock, hblock⟩ : ∃ midBlock, s.stateBlocks[mid]? = some midBlock := ⟨_, hget⟩
      have hbefore : ∀ i blk, i < mid → s.stateBlocks[i]? = some blk → blk < midBlock :=
        fun i blk hi hblk => lt_of_ascending h.ascending hi hblk hblock
      have hafter : ∀ i blk, mid < i → s.stateBlocks[i]? = some blk → midBlock < blk :=
        fun i blk hi hblk => lt_of_ascending h.ascending hi hblock hblk
      dsimp only
      rw [hblock]
      dsimp only
      by_cases heq : midBlock = b
      · -- the block itself is recorded
        rw [if_pos heq, h.index mid midBlock hblock]
        refine ⟨mid + 1, ⟨by omega, fun i blk hi hblk => ?_, fun i blk hi hblk => ?_⟩, by simp⟩
        · rcases Nat.lt_succ_iff_lt_or_eq.mp hi with hi | rfl
          · rw [← heq]
            exact BitVec.le_of_lt (hbefore i blk hi hblk)
          · rw [hblock] at hblk
            obtain rfl := Option.some.inj hblk
            rw [heq]
            exact BitVec.le_refl _
        · rw [← heq]
          exact hafter i blk (by omega) hblk
      · rw [if_neg heq]
        by_cases hlow' : midBlock < b
        · rw [if_pos hlow', h.index mid midBlock hblock]
          refine ih (right - (mid + 1)) (by omega) (by omega) hright (fun i blk hi hblk => ?_) hhigh
            (by simp) (by simp) rfl
          rcases Nat.lt_succ_iff_lt_or_eq.mp hi with hi | rfl
          · have := hbefore i blk hi hblk
            rw [BitVec.lt_def] at this hlow'
            rw [BitVec.le_def]
            omega
          · rw [hblock] at hblk
            obtain rfl := Option.some.inj hblk
            exact BitVec.le_of_lt hlow'
        · rw [if_neg hlow']
          refine ih (mid - left) (by omega) (by omega) (by omega) hlow (fun i blk hi hblk => ?_) hfound
            hresult rfl
          have habove : b < midBlock := BitVec.lt_of_le_ne (BitVec.not_lt.mp hlow') fun hb => heq hb.symm
          rcases Nat.eq_or_lt_of_le hi with rfl | hi
          · rw [hblock] at hblk
            obtain rfl := Option.some.inj hblk
            exact habove
          · exact BitVec.lt_trans habove (hafter i blk hi hblk)
    · rw [if_neg hlt]
      obtain rfl : left = right := by omega
      exact ⟨left, ⟨hright, hlow, hhigh⟩, by rw [hfound, hresult]⟩

/-- What is refused for a block before the first state. -/
def noState (s : Storage) (b : U256) : HistoryError :=
  match s.stateBlocks with
  | [] => .noMerkleStates
  | first :: _ => .noMerkleStateAtBlock b first

/-- The read of a block answers with the last state before the cut. -/
theorem getStateAtBlock_cut (h : History s) (b : U256) : ∃ n, Cut s b n ∧
    getStateAtBlock s b = if n = 0 then fail (noState s b) else .ok (s.states (n - 1)) := by
  cases hblocks : s.stateBlocks with
  | nil =>
    refine ⟨0, ⟨Nat.zero_le _, fun i _ hi => absurd hi (Nat.not_lt_zero i), fun i blk _ hblk => ?_⟩, ?_⟩
    · rw [hblocks] at hblk
      exact absurd hblk (by simp)
    · rw [if_pos rfl, getStateAtBlock, noState, hblocks]
  | cons first rest =>
    have hfirst : s.stateBlocks[0]? = some first := by rw [hblocks]; rfl
    obtain ⟨n, hcut, hsearch⟩ := @searchStateIndex_cut s h b _ _ 0 false (Nat.zero_le _) le_rfl
        (fun i _ hi => absurd hi (Nat.not_lt_zero i))
      (fun i blk hi hblk => absurd (List.getElem?_eq_some_iff.mp hblk).1 (by omega)) (by simp) (by simp)
    have hsearch' : findStateIndexAtOrBeforeBlock s b = .ok (decide (0 < n), n - 1) := hsearch
    have hread : getStateAtBlock s b = (do
        let directBlock ← ofPanic s.stateBlocks[s.blockToStateIndex b]?
        if directBlock = b then .ok (s.states (s.blockToStateIndex b))
        else findStateIndexAtOrBeforeBlock s b >>= fun r =>
          if r.1 = false then fail (.noMerkleStateAtBlock b first) else .ok (s.states r.2)) := by
      unfold getStateAtBlock
      rw [hblocks]
    refine ⟨n, hcut, ?_⟩
    rw [hread]
    by_cases hmem : b ∈ s.stateBlocks
    · -- a direct hit: the block is the last one before the cut
      obtain ⟨i, hi⟩ := List.mem_iff_getElem?.mp hmem
      have hn : n = i + 1 := by
        refine hcut.unique ⟨(List.getElem?_eq_some_iff.mp hi).1, fun j blk hj hblk => ?_,
          fun j blk hj hblk => lt_of_ascending h.ascending (by omega) hi hblk⟩
        rcases Nat.lt_succ_iff_lt_or_eq.mp hj with hj | rfl
        · exact BitVec.le_of_lt (lt_of_ascending h.ascending hj hblk hi)
        · rw [hi] at hblk
          obtain rfl := Option.some.inj hblk
          exact BitVec.le_refl _
      rw [h.index i b hi, hi, hn, if_neg (Nat.succ_ne_zero i)]
      show (if b = b then _ else _ : HistoryResult MerkleState) = _
      rw [if_pos rfl, Nat.add_sub_cancel]
    · have hne : first ≠ b := fun heq => hmem (by rw [hblocks, heq]; exact mem_cons_self)
      rw [h.unindexed b hmem, hfirst]
      show (if first = b then _ else _ : HistoryResult MerkleState) = _
      rw [if_neg hne, hsearch']
      show (if decide (0 < n) = false then _ else _ : HistoryResult MerkleState) = _
      by_cases hzero : n = 0
      · rw [hzero, if_pos (by simp), if_pos rfl, noState, hblocks]
      · rw [if_neg (by simpa using hzero), if_neg hzero]

/-- The read of a block is specified: it answers with the recorded state of the greatest block that is not
above it, and it is refused when there is none. -/
structure ReadsGreatest (s : Storage) (b : U256) : Prop where
  found : ∀ i blk, s.stateBlocks[i]? = some blk → blk ≤ b → (∀ other ∈ s.stateBlocks, other ≤ b → other ≤ blk) →
    getStateAtBlock s b = .ok (s.states i) ∧ (s.states i).blockNumber = blk
  refused : (∃ e, getStateAtBlock s b = .error e) ↔ ∀ blk ∈ s.stateBlocks, b < blk

theorem History.readsGreatest (h : History s) (b : U256) : ReadsGreatest s b := by
  obtain ⟨n, hcut, hread⟩ := getStateAtBlock_cut h b
  constructor
  · intro i blk hblk hle hgreatest
    have hn : n = i + 1 := by
      refine hcut.unique ⟨(List.getElem?_eq_some_iff.mp hblk).1, fun j other hj hother => ?_,
        fun j other hj hother => ?_⟩
      · rcases Nat.lt_succ_iff_lt_or_eq.mp hj with hj | rfl
        · have := lt_of_ascending h.ascending hj hother hblk
          rw [BitVec.lt_def] at this
          rw [BitVec.le_def] at hle ⊢
          omega
        · rw [hblk] at hother
          exact Option.some.inj hother ▸ hle
      · have hlt := lt_of_ascending h.ascending (by omega : i < j) hblk hother
        by_contra hno
        have hback := hgreatest other (mem_of_getElem? hother) (BitVec.not_lt.mp hno)
        rw [BitVec.lt_def] at hlt
        rw [BitVec.le_def] at hback
        omega
    rw [hread, hn, if_neg (Nat.succ_ne_zero i), Nat.add_sub_cancel]
    exact ⟨rfl, h.blockNumber i blk hblk⟩
  · rw [hread]
    constructor
    · rintro ⟨e, he⟩ blk hblk
      by_cases hzero : n = 0
      · obtain ⟨i, hi⟩ := List.mem_iff_getElem?.mp hblk
        exact hcut.above i blk (by omega) hi
      · rw [if_neg hzero] at he
        exact absurd he (by simp)
    · intro hall
      have hzero : n = 0 := by
        refine hcut.unique ⟨Nat.zero_le _, fun i _ hi => absurd hi (Nat.not_lt_zero i), fun i blk _ hblk => ?_⟩
        exact hall blk (mem_of_getElem? hblk)
      rw [if_pos hzero]
      exact ⟨_, rfl⟩

/-- The history of `s` goes on in `s'`: only the state of the last block may be another one. -/
structure Extends (s s' : Storage) : Prop where
  blocks : s.stateBlocks <+: s'.stateBlocks
  states : ∀ i, i + 1 < s.stateBlocks.length → s'.states i = s.states i
  accepted : ∀ id, s.acceptedCheckpoints id = true → s'.acceptedCheckpoints id = true ∧
    s'.acceptedCheckpointStates id = s.acceptedCheckpointStates id ∧
    s'.acceptedCheckpointProvenance id = s.acceptedCheckpointProvenance id

theorem Extends.refl (s : Storage) : Extends s s :=
  ⟨prefix_refl _, fun _ _ => rfl, fun _ h => ⟨h, rfl, rfl⟩⟩

theorem Extends.trans {s'' : Storage} (h : Extends s s') (h' : Extends s' s'') : Extends s s'' where
  blocks := h.blocks.trans h'.blocks
  states i hi := (h'.states i (hi.trans_le h.blocks.length_le)).trans (h.states i hi)
  accepted id hid := by
    obtain ⟨h₁, hstate, hprovenance⟩ := h.accepted id hid
    obtain ⟨h₂, hstate', hprovenance'⟩ := h'.accepted id h₁
    exact ⟨h₂, hstate'.trans hstate, hprovenance'.trans hprovenance⟩

theorem Extends.getElem? (h : Extends s s') {i : Nat} (hi : i < s.stateBlocks.length) :
    s'.stateBlocks[i]? = s.stateBlocks[i]? := by
  obtain ⟨more, hmore⟩ := h.blocks
  rw [← hmore, getElem?_append_left hi]

theorem Extends.getStateAtBlock_eq (h : Extends s s') (hs : History s) (hs' : History s') {b last : U256}
    (hlast : s.stateBlocks.getLast? = some last) (hb : b < last) :
    getStateAtBlock s' b = getStateAtBlock s b := by
  obtain ⟨n, hcut, hread⟩ := getStateAtBlock_cut hs b
  obtain ⟨n', hcut', hread'⟩ := getStateAtBlock_cut hs' b
  rw [getLast?_eq_getElem?] at hlast
  have hpos := (List.getElem?_eq_some_iff.mp hlast).1
  have hn : n < s.stateBlocks.length := by
    by_contra hge
    have hbelow := hcut.below (s.stateBlocks.length - 1) last (by omega) hlast
    rw [BitVec.lt_def] at hb
    rw [BitVec.le_def] at hbelow
    omega
  have hsame : n' = n := by
    refine hcut'.unique ⟨(hcut.le_length).trans h.blocks.length_le, fun i blk hi hblk => ?_,
      fun i blk hi hblk => ?_⟩
    · rw [h.getElem? (by omega)] at hblk
      exact hcut.below i blk hi hblk
    · by_cases hold : i < s.stateBlocks.length
      · rw [h.getElem? hold] at hblk
        exact hcut.above i blk hi hblk
      · -- the blocks that were added come after the last one
        have hlast' : s'.stateBlocks[s.stateBlocks.length - 1]? = some last := by
          rw [h.getElem? (by omega), hlast]
        exact BitVec.lt_trans hb (lt_of_ascending hs'.ascending (by omega) hlast' hblk)
  rw [hread, hread', hsame]
  by_cases hzero : n = 0
  · rw [if_pos hzero, if_pos hzero]
    obtain ⟨more, hmore⟩ := h.blocks
    have hnoState : noState s' b = noState s b := by
      unfold noState
      cases hblocks : s.stateBlocks with
      | nil =>
        rw [hblocks] at hpos
        exact absurd hpos (by simp)
      | cons first rest => rw [← hmore, hblocks, cons_append]
    rw [hnoState]
  · rw [if_neg hzero, if_neg hzero, h.states (n - 1) (by omega)]

theorem Extends.getAcceptedCheckpoint_eq (h : Extends s s') {id : Nat} (hid : s.acceptedCheckpoints id = true) :
    getAcceptedCheckpoint s' id = getAcceptedCheckpoint s id := by
  obtain ⟨hid', hstate, hprovenance⟩ := h.accepted id hid
  unfold getAcceptedCheckpoint
  rw [hid, hid', hstate, hprovenance]

end MerkleSnapshot

end Trustgraphs
