import Trustgraphs.Contracts.WeightedPriorValidator
import Trustgraphs.WeightedPriorCore.Proofs.ManifestProofs

/-!
# The chain and the guest accept the same prior manifests

The words that the validators read are the fields that the parser slices, the loop over the records
decides the same list invariants, and the levels that are hashed in place are those of the guest.
-/

namespace Trustgraphs.WeightedPriorValidator

open Outcome WeightedPrior Checked List

variable {H : Hashes}

/-- The loader reads a byte string at `base`: the high bytes of a word are the bytes at its offset. -/
def Views (load : ℕ → U256) (base : ℕ) (bytes : Bytes) : Prop :=
  ∀ i k, k ≤ 32 → i + k ≤ bytes.length →
    (load (base + i)).toNat / 256 ^ (32 - k) = ofBeBytes (slice bytes i (i + k))

variable {base : ℕ} {a : Address} {bytes : Bytes} {entries : List PriorEntry} {e : PriorEntry}
  {load : ℕ → U256} {chain : UInt64}

theorem loadWord_views {data : Bytes} {length : ℕ} (h : base + length ≤ data.length) :
    Views (loadWord data) base ((data.drop base).take length) := by
  intro i k hk hlen
  rw [length_take, length_drop] at hlen
  -- the word with its padding, and the `k` bytes it starts with
  obtain ⟨word, hword⟩ : ∃ word, word = (data.drop (base + i)).take 32 ++
      List.replicate (32 - ((data.drop (base + i)).take 32).length) 0 := ⟨_, rfl⟩
  have hwordlen : word.length = 32 := by
    rw [hword, length_append, length_replicate, length_take]
    omega
  have htake : word.take k = (data.drop (base + i)).take k := by
    rw [hword, take_append_of_le_length, take_take, min_eq_left hk]
    rw [length_take, length_drop]
    omega
  have hslice : slice ((data.drop base).take length) i (i + k) = (data.drop (base + i)).take k := by
    rw [slice, Nat.add_sub_cancel_left, drop_take, drop_drop, take_take, min_eq_left (by omega)]
  have hload : (loadWord data (base + i)).toNat = ofBeBytes word := by
    have hlt := ofBeBytes_lt word
    rw [hwordlen] at hlt
    show (BitVec.ofNat 256 _).toNat = _
    rw [← hword, BitVec.toNat_ofNat]
    exact Nat.mod_eq_of_lt hlt
  have hlow : (word.drop k).length = 32 - k := by rw [length_drop, hwordlen]
  have hlt := ofBeBytes_lt (word.drop k)
  rw [hlow] at hlt
  rw [hload, hslice, ← htake, ← take_append_drop k word, ofBeBytes_append, hlow,
    Nat.mul_comm, Nat.mul_add_div (by positivity), Nat.div_eq_of_lt hlt, Nat.add_zero,
    take_append_drop]

theorem toNat_shiftRight (x : U256) (n : ℕ) : (x >>> n).toNat = x.toNat / 2 ^ n := by
  rw [BitVec.toNat_ushiftRight, Nat.shiftRight_eq_div_pow]

section

variable {load : ℕ → U256} {base : ℕ} {bytes : Bytes} (hv : Views load base bytes)
include hv

theorem Views.field {i j : ℕ} (hij : i ≤ j) (hj : j ≤ 32) (hlen : j ≤ bytes.length) :
    (load base).toNat / 256 ^ (32 - j) % 256 ^ (j - i) = ofBeBytes (slice bytes i j) := by
  have hall := hv 0 j hj (by omega)
  rw [Nat.add_zero, Nat.zero_add] at hall
  have hsplit : slice bytes 0 j = slice bytes 0 i ++ slice bytes i j := by
    unfold slice
    rw [Nat.sub_zero, Nat.sub_zero, drop_zero, ← take_add]
    congr 1
    omega
  have hlt := ofBeBytes_lt (slice bytes i j)
  rw [length_slice hij hlen] at hlt
  rw [hall, hsplit, ofBeBytes_append, length_slice hij hlen, Nat.mul_comm, Nat.mul_add_mod,
    Nat.mod_eq_of_lt hlt]

theorem Views.header (hlen : HEADER_LENGTH ≤ bytes.length) :
    (load base >>> 224).toNat = ofBeBytes (slice bytes 0 4) ∧
      ((load base >>> 208) &&& 0xffff).toNat = ofBeBytes (slice bytes 4 6) ∧
      ((load base >>> 144) &&& 0xffffffffffffffff).toNat = ofBeBytes (slice bytes 6 14) ∧
      ((load base >>> 112) &&& 0xffffffff).toNat = ofBeBytes (slice bytes 14 18) := by
  have hlen' : 18 ≤ bytes.length := hlen
  refine ⟨?_, ?_, ?_, ?_⟩
  · have h := hv 0 4 (by omega) (by omega)
    rw [toNat_shiftRight]
    exact h
  · have h := hv.field (i := 4) (j := 6) (by omega) (by omega) (by omega)
    rw [BitVec.toNat_and, toNat_shiftRight]
    exact (Nat.and_two_pow_sub_one_eq_mod _ 16).trans h
  · have h := hv.field (i := 6) (j := 14) (by omega) (by omega) (by omega)
    rw [BitVec.toNat_and, toNat_shiftRight]
    exact (Nat.and_two_pow_sub_one_eq_mod _ 64).trans h
  · have h := hv.field (i := 14) (j := 18) (by omega) (by omega) (by omega)
    rw [BitVec.toNat_and, toNat_shiftRight]
    exact (Nat.and_two_pow_sub_one_eq_mod _ 32).trans h

end

def accountWord (a : Address) : ℕ := ofBeBytes a.bytes

theorem accountWord_lt_iff {b : Address} : accountWord a < accountWord b ↔ a < b :=
  ofBeBytes_lt_iff (a.size.trans b.size.symm)

theorem accountWord_eq_zero_iff : accountWord a = 0 ↔ a = 0 := by
  have hzero : accountWord 0 = 0 := by decide
  constructor
  · intro h
    exact FixedBytes.ext (ofBeBytes_injective (a.size.trans (0 : Address).size.symm)
      (h.trans hzero.symm))
  · rintro rfl
    exact hzero

theorem exists_entries {n : ℕ} (h : bytes.length = n * 28) :
    ∃ entries : List PriorEntry, entries.length = n ∧ bytes = entries.flatMap entryBytes := by
  induction n generalizing bytes with
  | zero =>
    obtain rfl : bytes = [] := length_eq_zero_iff.mp (by omega)
    exact ⟨[], rfl, rfl⟩
  | succ n ih =>
    have haccount : (bytes.take 20).length = 20 := by rw [length_take]; omega
    have hweight : (slice bytes 20 28).length = 8 := length_slice (by omega) (by omega)
    have hrest : (bytes.drop 28).length = n * 28 := by rw [length_drop]; omega
    obtain ⟨entries, hlen, hentries⟩ := ih hrest
    have hlt := ofBeBytes_lt (slice bytes 20 28)
    rw [hweight] at hlt
    refine ⟨⟨⟨bytes.take 20, haccount⟩, UInt64.ofNat (ofBeBytes (slice bytes 20 28))⟩ :: entries,
      by rw [length_cons, hlen], ?_⟩
    rw [flatMap_cons, ← hentries, entryBytes, UInt64.toNat_ofNat_of_lt' hlt,
      ← eq_beBytes hweight, append_assoc, ← drop_eq_slice_append _ 20 28 (by omega),
      take_append_drop]

theorem slice_entry {i : ℕ} (hbytes : bytes.drop 18 = entries.flatMap entryBytes) (hi : entries[i]? = some e) :
    slice bytes (18 + i * 28) (18 + i * 28 + 28) = entryBytes e := by
  have hdrop : ∀ (es : List PriorEntry) (i : ℕ),
      (es.flatMap entryBytes).drop (i * 28) = (es.drop i).flatMap entryBytes := by
    intro es
    induction es with
    | nil => simp
    | cons f es ih =>
      intro i
      cases i with
      | zero => simp
      | succ i =>
        have hoff : (i + 1) * 28 = 28 + i * 28 := by omega
        rw [flatMap_cons, hoff, ← drop_drop, drop_left' (length_entryBytes f), ih]
        rfl
  obtain ⟨hlt, hget⟩ := List.getElem?_eq_some_iff.mp hi
  unfold slice
  rw [← drop_drop, hbytes, hdrop, drop_eq_getElem_cons hlt, hget, flatMap_cons, Nat.add_sub_cancel_left]
  exact take_left' (length_entryBytes e)

theorem priorLeaf_words {account weight : U256}
    (ha : account.toNat = accountWord e.account) (hw : weight.toNat = e.weight.toNat) :
    H.keccak256 (wordU256 account ++ wordU256 weight) = priorLeaf H e := by
  have haccount : wordU256 account = wordAddr e.account := by
    have h := beBytes_add_ofBeBytes 12 e.account.bytes
    rw [e.account.size] at h
    show beBytes 32 account.toNat = _
    rw [ha]
    exact h
  have hweight : wordU256 weight = wordU64 e.weight := by
    have h := beBytes_add_ofBeBytes 24 (beBytes 8 e.weight.toNat)
    rw [length_beBytes, ofBeBytes_beBytes] at h
    have hmod : e.weight.toNat % 256 ^ 8 = e.weight.toNat := Nat.mod_eq_of_lt e.weight.toNat_lt
    rw [hmod] at h
    show beBytes 32 weight.toNat = _
    rw [hw]
    exact h
  rw [haccount, hweight, priorLeaf]

section

variable {load : ℕ → U256} {base : ℕ} {bytes : Bytes} {entries : List PriorEntry}
  (hv : Views load base bytes) (hlen : bytes.length = 18 + entries.length * 28)
  (hbytes : bytes.drop 18 = entries.flatMap entryBytes)
include hv hlen hbytes

theorem record_words {i : ℕ} {e : PriorEntry} (hi : entries[i]? = some e) :
    (load (base + (HEADER_LENGTH + i * ENTRY_LENGTH)) >>> 96).toNat = accountWord e.account ∧
      (load (base + (HEADER_LENGTH + i * ENTRY_LENGTH) + 20) >>> 192).toNat = e.weight.toNat := by
  obtain ⟨hlt, -⟩ := List.getElem?_eq_some_iff.mp hi
  have hentry := slice_entry hbytes hi
  have hslices : slice bytes (18 + i * 28) (18 + i * 28 + 28) = slice bytes (18 + i * 28) (18 + i * 28 + 20) ++
        slice bytes (18 + i * 28 + 20) (18 + i * 28 + 20 + 8) := by
    have hdrop : bytes.drop (18 + i * 28 + 20) = (bytes.drop (18 + i * 28)).drop 20 := by rw [drop_drop]
    unfold slice
    rw [Nat.add_sub_cancel_left, Nat.add_sub_cancel_left, Nat.add_sub_cancel_left, hdrop, ← take_add]
  rw [hslices, entryBytes] at hentry
  obtain ⟨haccount, hweight⟩ := append_inj hentry (by
    rw [length_slice (by omega) (by omega), e.account.size]
    omega)
  have hmod : e.weight.toNat % 256 ^ 8 = e.weight.toNat := Nat.mod_eq_of_lt e.weight.toNat_lt
  constructor
  · rw [toNat_shiftRight]
    refine (hv (18 + i * 28) 20 (by omega) (by omega)).trans ?_
    rw [haccount, accountWord]
  · rw [toNat_shiftRight, Nat.add_assoc]
    refine (hv (18 + i * 28 + 20) 8 (by omega) (by omega)).trans ?_
    rw [hweight, ofBeBytes_beBytes, hmod]

theorem scanEntry_eq_ok {i : ℕ} {e : PriorEntry} (hi : entries[i]? = some e) {st st' : Scan} :
    scanEntry H load base st i = .ok st' ↔ (e.account ≠ 0 ∧ e.weight ≠ 0) ∧
      st.previous.toNat < accountWord e.account ∧ st'.level = st.level ++ [priorLeaf H e] ∧
      st'.sum.toNat = st.sum.toNat + e.weight.toNat ∧
      st'.previous.toNat = accountWord e.account := by
  obtain ⟨ha, hw⟩ := record_words hv hlen hbytes hi
  have hzero : load (base + (HEADER_LENGTH + i * ENTRY_LENGTH)) >>> 96 = 0 ↔ e.account = 0 := by
    rw [← BitVec.toNat_inj, ha, ← accountWord_eq_zero_iff]
    rfl
  have hweight : load (base + (HEADER_LENGTH + i * ENTRY_LENGTH) + 20) >>> 192 = 0 ↔ e.weight = 0 := by
    rw [← BitVec.toNat_inj, hw, ← UInt64.toNat_inj]
    rfl
  unfold scanEntry revert
  dsimp only
  rw [ite_error_eq_ok, ite_error_eq_ok, ite_error_eq_ok, bind_eq_ok, hzero, hweight,
    BitVec.le_def, ha, not_le, priorLeaf_words ha hw]
  constructor
  · rintro ⟨hne, hlt, hwne, sum, hsum, h⟩
    obtain rfl := ok_inj h
    refine ⟨⟨hne, hwne⟩, hlt, rfl, ?_, ha⟩
    rw [add_eq_some.mp (ofPanic_eq_ok.mp hsum), hw]
  · rintro ⟨⟨hne, hwne⟩, hlt, hlevel, hsum, hprevious⟩
    refine ⟨hne, hlt, hwne, st'.sum, ofPanic_eq_ok.mpr (add_eq_some.mpr ?_), ?_⟩
    · rw [hsum, hw]
    · obtain ⟨level, sum, previous⟩ := st'
      dsimp only at hlevel hprevious
      rw [← hlevel, BitVec.eq_of_toNat_eq (hprevious.trans ha.symm)]

end

def lastWord (entries : List PriorEntry) : ℕ := (entries.getLast?.map fun e => accountWord e.account).getD 0

theorem lastWord_lt_iff (ha : a ≠ 0) (h : entries.Pairwise fun e f => e.account < f.account) :
    lastWord entries < accountWord a ↔ ∀ e ∈ entries, e.account < a := by
  rcases eq_nil_or_concat entries with rfl | ⟨init, last, rfl⟩
  · have hpos : 0 < accountWord a := Nat.pos_of_ne_zero fun h => ha (accountWord_eq_zero_iff.mp h)
    exact iff_of_true hpos (by simp)
  · rw [concat_eq_append] at h ⊢
    have hlast : lastWord (init ++ [last]) = accountWord last.account := by simp [lastWord]
    have hbefore : ∀ e ∈ init, e.account < last.account := by
      intro e he
      exact (pairwise_append.mp h).2.2 e he last (by simp)
    rw [hlast, accountWord_lt_iff]
    constructor
    · intro hlt e he
      rcases mem_append.mp he with he | he
      · exact (hbefore e he).trans hlt
      · rw [mem_singleton.mp he]
        exact hlt
    · intro hall
      exact hall last (by simp)

/-- What the loop demands of the records it has passed, and the state it is in. -/
def Scanned (H : Hashes) (entries : List PriorEntry) (st : Scan) : Prop :=
  (∀ e ∈ entries, e.account ≠ 0 ∧ e.weight ≠ 0) ∧ (entries.Pairwise fun e f => e.account < f.account) ∧
    st.level = entries.map (priorLeaf H) ∧ st.sum.toNat = totalWeight entries ∧
    st.previous.toNat = lastWord entries

theorem scanned_concat {st' : Scan} : Scanned H (entries ++ [e]) st' ↔ ∃ st, Scanned H entries st ∧
      (e.account ≠ 0 ∧ e.weight ≠ 0) ∧ st.previous.toNat < accountWord e.account ∧
      st'.level = st.level ++ [priorLeaf H e] ∧ st'.sum.toNat = st.sum.toNat + e.weight.toNat ∧
      st'.previous.toNat = accountWord e.account := by
  have htotal : totalWeight (entries ++ [e]) = totalWeight entries + e.weight.toNat := by simp [totalWeight]
  have hlast : lastWord (entries ++ [e]) = accountWord e.account := by simp [lastWord]
  unfold Scanned
  rw [htotal, hlast, map_append, map_singleton]
  constructor
  · rintro ⟨hall, hpairwise, hlevel, hsum, hprevious⟩
    obtain ⟨hinit, -, hbefore⟩ := pairwise_append.mp hpairwise
    have he := hall e (by simp)
    have hlt := (lastWord_lt_iff he.1 hinit).mpr fun f hf => hbefore f hf e (by simp)
    have hbound := st'.sum.isLt
    have hword : lastWord entries < 2 ^ 256 := by
      have h := ofBeBytes_lt e.account.bytes
      rw [e.account.size] at h
      exact hlt.trans (h.trans (by norm_num))
    obtain ⟨sum, hs⟩ := exists_toNat (w := 256) (n := totalWeight entries) (by omega)
    obtain ⟨previous, hp⟩ := exists_toNat (w := 256) hword
    refine ⟨⟨entries.map (priorLeaf H), sum, previous⟩,
      ⟨fun f hf => hall f (mem_append_left _ hf), hinit, rfl, hs, hp⟩, he, ?_, hlevel, ?_,
      hprevious⟩
    · rw [hp]
      exact hlt
    · rw [hsum, hs]
  · rintro ⟨st, ⟨hall, hinit, hlevel, hsum, hprevious⟩, he, hlt, hlevel', hsum', hprevious'⟩
    rw [hprevious, lastWord_lt_iff he.1 hinit] at hlt
    refine ⟨?_, pairwise_append.mpr ⟨hinit, pairwise_singleton .., ?_⟩, ?_, ?_, hprevious'⟩
    · intro f hf
      rcases mem_append.mp hf with hf | hf
      · exact hall f hf
      · rw [mem_singleton.mp hf]
        exact he
    · intro f hf g hg
      rw [mem_singleton.mp hg]
      exact hlt f hf
    · rw [hlevel', hlevel]
    · rw [hsum', hsum]

theorem scan_eq_ok (hv : Views load base bytes) (hlen : bytes.length = 18 + entries.length * 28)
    (hbytes : bytes.drop 18 = entries.flatMap entryBytes) {n : ℕ} (hn : n ≤ entries.length)
    {st : Scan} : (List.range n).foldlM (scanEntry H load base) ⟨[], 0, 0⟩ = .ok st ↔
      Scanned H (entries.take n) st := by
  induction n generalizing st with
  | zero =>
    show Except.ok (Scan.mk [] 0 0) = .ok st ↔ _
    rw [take_zero, Except.ok.injEq]
    constructor
    · rintro rfl
      exact ⟨by simp, List.Pairwise.nil, rfl, rfl, rfl⟩
    · rintro ⟨-, -, hlevel, hsum, hprevious⟩
      obtain ⟨level, sum, previous⟩ := st
      dsimp only at hlevel
      rw [hlevel, BitVec.eq_of_toNat_eq (x := sum) (y := 0) hsum,
        BitVec.eq_of_toNat_eq (x := previous) (y := 0) hprevious]
      rfl
  | succ n ih =>
    obtain ⟨e, he⟩ : ∃ e, entries[n]? = some e := ⟨entries[n], getElem?_eq_getElem hn⟩
    have htake : entries.take (n + 1) = entries.take n ++ [e] := by
      rw [take_add_one, he]
      rfl
    rw [range_succ, foldlM_append, bind_eq_ok, htake, scanned_concat]
    refine exists_congr fun st' => ?_
    rw [ih (Nat.le_of_succ_le hn), foldlM_cons, bind_eq_ok]
    refine and_congr_right fun _ => ?_
    rw [← scanEntry_eq_ok hv hlen hbytes he]
    constructor
    · rintro ⟨st'', h, hst⟩
      obtain rfl : st'' = st := ok_inj hst
      exact h
    · exact fun h => ⟨st, h, rfl⟩

theorem sortedPair_eq (left right : B256) : (if left < right then H.keccak256 (left.bytes ++ right.bytes)
      else H.keccak256 (right.bytes ++ left.bytes)) = hashPair H left right := by
  unfold hashPair pairPreimage
  by_cases hlt : left < right
  · rw [if_pos hlt, if_pos hlt.le]
  · rw [if_neg hlt]
    by_cases hle : left ≤ right
    · rw [if_pos hle, le_antisymm hle (not_lt.mp hlt)]
    · rw [if_neg hle]

theorem getElem?_nextLevel (level : List B256) (k : ℕ) : (nextLevel H level)[k]? =
    (level[2 * k]?).map fun left => (level[2 * k + 1]?).elim left (hashPair H left) := by
  induction level using nextLevel.induct generalizing k with
  | case1 => simp [nextLevel]
  | case2 node =>
    cases k with
    | zero => simp [nextLevel]
    | succ k => simp [nextLevel, Nat.mul_add]
  | case3 left right rest ih =>
    cases k with
    | zero => simp [nextLevel]
    | succ k =>
      rw [nextLevel, getElem?_cons_succ, ih, Nat.mul_add]
      rfl

/-- After `k` steps the first `k` nodes are those of the next level, and the others are untouched. -/
theorem hashLevel_prefix {level : List B256} {width : ℕ} (hwidth : width ≤ level.length) {k : ℕ}
    (hk : k ≤ (width + 1) / 2) : ∃ nodes,
      (List.range' 0 k 2).foldlM (hashStep H width) (level, 0) = some (nodes, k) ∧
      nodes.length = level.length ∧ nodes.take k = (nextLevel H (level.take width)).take k ∧
      ∀ j, k ≤ j → nodes[j]? = level[j]? := by
  induction k with
  | zero => exact ⟨level, rfl, rfl, rfl, fun _ _ => rfl⟩
  | succ k ih =>
    obtain ⟨nodes, hfold, hlen, htake, hrest⟩ := ih (by omega)
    have hleft : nodes[2 * k]? = some level[2 * k] := by rw [hrest _ (by omega), getElem?_eq_getElem]
    have htakeleft : (level.take width)[2 * k]? = some level[2 * k] := by
      rw [getElem?_take_of_lt (by omega), getElem?_eq_getElem]
    -- the node that the step writes
    obtain ⟨node, hnode, hstep⟩ : ∃ node, (nextLevel H (level.take width))[k]? = some node ∧
        hashStep H width (nodes, k) (2 * k) = some (nodes.set k node, k + 1) := by
      unfold hashStep
      dsimp only
      by_cases hlast : 2 * k + 1 = width
      · have hnone : (level.take width)[2 * k + 1]? = none := by
          rw [List.getElem?_eq_none_iff, length_take]
          omega
        refine ⟨level[2 * k], ?_, ?_⟩
        · rw [getElem?_nextLevel, htakeleft, hnone]
          rfl
        · rw [if_pos hlast, hleft]
          rfl
      · have hright : nodes[2 * k + 1]? = some level[2 * k + 1] := by
          rw [hrest _ (by omega), getElem?_eq_getElem]
        have htakeright : (level.take width)[2 * k + 1]? = some level[2 * k + 1] := by
          rw [getElem?_take_of_lt (by omega), getElem?_eq_getElem]
        refine ⟨hashPair H level[2 * k] level[2 * k + 1], ?_, ?_⟩
        · rw [getElem?_nextLevel, htakeleft, htakeright]
          rfl
        · rw [if_neg hlast, hleft, hright, ← sortedPair_eq]
          rfl
    refine ⟨nodes.set k node, ?_, by rw [length_set, hlen], ?_, ?_⟩
    · rw [range'_concat, foldlM_append, hfold, Nat.zero_add]
      show (hashStep H width (nodes, k) (2 * k) >>= fun st => some st) = _
      rw [hstep]
      rfl
    · rw [take_add_one, take_add_one, hnode, ← htake, take_set_of_le le_rfl, getElem?_set_self (by omega)]
    · intro j hj
      rw [getElem?_set_ne (by omega), hrest j (by omega)]

theorem merkleRoot_eq {level : List B256} {width : ℕ} (hpos : 0 < width) (hwidth : width ≤ level.length) :
    merkleRoot H level width = (reduceLevels H (level.take width))[0]? := by
  induction width using Nat.strong_induction_on generalizing level with
  | _ width ih =>
    have hlen : (level.take width).length = width := length_take_of_le hwidth
    rw [merkleRoot, reduceLevels, hlen]
    by_cases hone : 1 < width
    · rw [if_pos hone, if_pos hone]
      obtain ⟨nodes, hfold, hnodes, htake, -⟩ := hashLevel_prefix (H := H) hwidth le_rfl
      have hlevel : hashLevel H level width = some (nodes, (width + 1) / 2) := hfold
      have hnext : nodes.take ((width + 1) / 2) = nextLevel H (level.take width) := by
        rw [htake, take_of_length_le]
        rw [length_nextLevel, hlen]
      split
      · rename_i hnone
        rw [hlevel] at hnone
        exact absurd hnone (by simp)
      · rename_i nodes' width' hsome
        rw [hlevel] at hsome
        obtain ⟨rfl, rfl⟩ := Prod.mk.inj (Option.some_inj.mp hsome)
        rw [ih _ (by omega) (by omega) (by omega), hnext]
    · rw [if_neg hone, if_neg hone, getElem?_take_of_lt hpos]

/-- A commitment of the chain against a manifest of the guest. -/
structure Agrees (c : Commitment) (parsed : ParsedManifest) : Prop where
  root : c.priorRoot = parsed.root
  count : c.priorCount.toNat = parsed.entries.length
  sha256 : c.manifestSha256 = parsed.sha256
  chainId : c.chainId = parsed.chainId

theorem scanned_iff_normalized (hne : entries ≠ []) (hlimit : entries.length ≤ 2048) :
    (∃ st, Scanned H entries st ∧ st.sum = PRECISION_SCALE) ↔ Normalized entries := by
  constructor
  · rintro ⟨st, ⟨hall, hpairwise, -, hsum, -⟩, hscale⟩
    refine ⟨hne, hlimit, hall, hpairwise, ?_⟩
    rw [← hsum, hscale]
    rfl
  · intro h
    have hword : lastWord entries < 2 ^ 256 := by
      unfold lastWord
      cases entries.getLast? with
      | none => exact Nat.two_pow_pos 256
      | some e =>
        have hlt := ofBeBytes_lt e.account.bytes
        rw [e.account.size] at hlt
        exact hlt.trans (by norm_num)
    obtain ⟨previous, hp⟩ := exists_toNat (w := 256) hword
    exact ⟨⟨entries.map (priorLeaf H), PRECISION_SCALE, previous⟩,
      ⟨h.nonzero, h.ascending, rfl, h.sum.symm, hp⟩, rfl⟩

/-- The validators accept the canonical encodings of the normalized lists. -/
theorem validateAt_eq_ok (hv : Views load base bytes) {digest : B256} {c : Commitment} :
    validateAt H load base bytes.length digest chain = .ok c ↔ ∃ entries, Normalized entries ∧
      bytes = manifestBytes chain entries ∧ priorRoot H entries = .ok c.priorRoot ∧
      c.priorCount.toNat = entries.length ∧ c.manifestSha256 = digest ∧ c.chainId = chain := by
  have hmagicWord : MANIFEST_MAGIC.toNat = ofBeBytes WeightedPrior.MANIFEST_MAGIC := by decide
  -- the root of the leaves, hashed in place or by the guest
  have hroot : ∀ {entries : List PriorEntry} {root : B256}, Normalized entries →
      (ofPanic (merkleRoot H (entries.map (priorLeaf H)) entries.length) = (.ok root : Result B256) ↔
        priorRoot H entries = .ok root) := by
    intro entries root h
    obtain ⟨root', hlevel, hprior⟩ := h.exists_priorRoot (H := H)
    have hlen : (entries.map (priorLeaf H)).length = entries.length := length_map ..
    rw [ofPanic_eq_ok, merkleRoot_eq (length_pos_iff.mpr h.nonempty) hlen.ge,
      take_of_length_le hlen.le, hlevel, hprior, Option.some_inj, Except.ok.injEq]
  unfold validateAt revert
  dsimp only
  rw [ite_error_eq_ok, not_lt]
  constructor
  · rintro ⟨hshort, h⟩
    have hshort' : 18 ≤ bytes.length := hshort
    obtain ⟨hmagic, hversion, hchain, hcount⟩ := hv.header hshort
    rw [hversion, hchain, hcount] at h
    obtain ⟨hmagicEq, h⟩ := of_guard h
    obtain ⟨hversionEq, h⟩ := of_guard h
    obtain ⟨hchainEq, h⟩ := of_guard h
    obtain ⟨hcountEq, h⟩ := of_guard h
    obtain ⟨hlenEq, h⟩ := of_guard h
    obtain ⟨st, hscan, h⟩ := of_bind h
    obtain ⟨hsum, h⟩ := of_guard h
    obtain ⟨root, hmerkle, h⟩ := of_bind h
    obtain rfl := ok_inj h
    have h2 : (slice bytes 4 6).length = 2 := length_slice (by omega) (by omega)
    have h4 : (slice bytes 14 18).length = 4 := length_slice (by omega) (by omega)
    have h4' : (slice bytes 0 4).length = 4 := length_slice (by omega) (by omega)
    have h8 : (slice bytes 6 14).length = 8 := length_slice (by omega) (by omega)
    have hlt2 := ofBeBytes_lt (slice bytes 4 6)
    have hlt4 := ofBeBytes_lt (slice bytes 14 18)
    have hlt8 := ofBeBytes_lt (slice bytes 6 14)
    rw [h2] at hlt2
    rw [h4] at hlt4
    rw [h8] at hlt8
    have hto : (UInt32.ofNat (ofBeBytes (slice bytes 14 18))).toNat = ofBeBytes (slice bytes 14 18) :=
      UInt32.toNat_ofNat_of_lt' hlt4
    rw [not_or, UInt32.lt_iff_toNat_lt, hto] at hcountEq
    rw [hto] at hlenEq hscan hmerkle
    have hlenEq' : bytes.length = 18 + ofBeBytes (slice bytes 14 18) * 28 := not_not.mp hlenEq
    obtain ⟨entries, hentriesLen, hentries⟩ :=
      exists_entries (show (bytes.drop 18).length = ofBeBytes (slice bytes 14 18) * 28 by
        rw [length_drop]
        omega)
    rw [← hentriesLen] at hscan hmerkle hcountEq hlenEq'
    have hscanned := (scan_eq_ok hv hlenEq' hentries le_rfl).mp hscan
    rw [take_length] at hscanned
    have hne : entries ≠ [] := by
      rintro rfl
      exact hcountEq.1 rfl
    have hnormalized := (scanned_iff_normalized hne (Nat.le_of_not_gt hcountEq.2)).mp
      ⟨st, hscanned, not_not.mp hsum⟩
    rw [hscanned.2.2.1] at hmerkle
    refine ⟨entries, hnormalized, ?_, (hroot hnormalized).mp hmerkle, ?_, rfl, not_not.mp hchainEq⟩
    · refine eq_manifestBytes ?_ ?_ ?_ ?_ hentries
      · refine ofBeBytes_injective h4' ?_
        rw [← hmagic, ← hmagicWord, not_not.mp hmagicEq]
      · have hversionEq' : UInt16.ofNat (ofBeBytes (slice bytes 4 6)) =
            WeightedPrior.MANIFEST_VERSION := not_not.mp hversionEq
        rw [← hversionEq', UInt16.toNat_ofNat_of_lt' hlt2]
        exact eq_beBytes h2
      · rw [← not_not.mp hchainEq, UInt64.toNat_ofNat_of_lt' hlt8]
        exact eq_beBytes h8
      · rw [hentriesLen]
        exact eq_beBytes h4
    · rw [hentriesLen]
      exact hto
  · rintro ⟨entries, hnormalized, rfl, hprior, hcountEq, hdigest, hchainEq⟩
    obtain ⟨hmagicB, hversionB, hchainB, hcountB, hentries⟩ := manifestBytes_fields chain entries
    have hlen := length_manifestBytes chain entries
    have hlimit : entries.length ≤ 2048 := hnormalized.length_le
    have hto := toNat_count hnormalized.length_le
    have hshort : HEADER_LENGTH ≤ (manifestBytes chain entries).length := by
      rw [hlen]
      exact Nat.le_add_right ..
    obtain ⟨hmagic, hversion, hchain, hcount⟩ := hv.header hshort
    have hmod : ofBeBytes (beBytes 4 entries.length) = entries.length := by
      rw [ofBeBytes_beBytes]
      exact Nat.mod_eq_of_lt (hlimit.trans_lt (by decide))
    have hmod8 : ofBeBytes (beBytes 8 chain.toNat) = chain.toNat := by
      rw [ofBeBytes_beBytes]
      exact Nat.mod_eq_of_lt chain.toNat_lt
    have hmod2 : UInt16.ofNat (ofBeBytes (beBytes 2 WeightedPrior.MANIFEST_VERSION.toNat)) =
        MANIFEST_VERSION := by decide
    have hlenEq : (manifestBytes chain entries).length = HEADER_LENGTH + entries.length * ENTRY_LENGTH := hlen
    obtain ⟨st, hscanned, hscale⟩ :=
      (scanned_iff_normalized (H := H) hnormalized.nonempty hlimit).mpr hnormalized
    have hscan := (scan_eq_ok (n := entries.length) hv hlen hentries le_rfl).mpr
      ((take_length (l := entries)).symm ▸ hscanned)
    have hne : UInt32.ofNat entries.length ≠ 0 := by
      intro h
      have hzero := congrArg UInt32.toNat h
      rw [hto] at hzero
      exact hnormalized.nonempty (length_eq_zero_iff.mp hzero)
    have hmagicEq : load base >>> 224 = MANIFEST_MAGIC := by
      refine BitVec.eq_of_toNat_eq ?_
      rw [hmagic, hmagicB, hmagicWord]
    refine ⟨hshort, ?_⟩
    rw [if_neg (not_not.mpr hmagicEq), hversion, hversionB, hmod2, if_neg (not_not.mpr rfl), hchain,
      hchainB, hmod8, UInt64.ofNat_toNat, if_neg (not_not.mpr rfl), hcount, hcountB, hmod, if_neg, hto,
      if_neg (not_not.mpr hlenEq), hscan, ok_bind, if_neg (not_not.mpr hscale), hscanned.2.2.1,
      (hroot hnormalized).mpr hprior, ok_bind, ← hcountEq, UInt32.ofNat_toNat, ← hdigest, ← hchainEq]
    rw [not_or, UInt32.lt_iff_toNat_lt, hto]
    exact ⟨hne, Nat.not_lt.mpr hlimit⟩

/-- The manifest of a byte string for a chain: the parser, and the chain check of
`validate_manifest`. -/
def guestManifest (H : Hashes) (bytes : Bytes) (chain : UInt64) : Weighted ParsedManifest := do
  let parsed ← parseManifest H bytes
  if parsed.chainId ≠ chain then fail (.wrongManifestChain chain parsed.chainId) else .ok parsed

theorem guestManifest_eq_ok {parsed : ParsedManifest} : guestManifest H bytes chain = .ok parsed ↔
      parseManifest H bytes = .ok parsed ∧ parsed.chainId = chain := by
  unfold guestManifest fail
  rw [bind_eq_ok]
  constructor
  · rintro ⟨parsed', hparse, h⟩
    obtain ⟨hchain, h⟩ := of_guard h
    obtain rfl := ok_inj h
    exact ⟨hparse, not_not.mp hchain⟩
  · rintro ⟨hparse, hchain⟩
    exact ⟨parsed, hparse, ite_error_eq_ok.mpr ⟨not_not.mpr hchain, rfl⟩⟩

theorem validateAt_iff_guest (hv : Views load base bytes) {c : Commitment} :
    validateAt H load base bytes.length (H.sha256 bytes) chain = .ok c ↔
      ∃ parsed, guestManifest H bytes chain = .ok parsed ∧ Agrees c parsed := by
  rw [validateAt_eq_ok hv]
  constructor
  · rintro ⟨entries, hnormalized, hbytes, hroot, hcount, hdigest, hchain⟩
    exact ⟨⟨chain, entries, c.priorRoot, H.sha256 bytes⟩,
      guestManifest_eq_ok.mpr ⟨parseManifest_eq_ok.mpr ⟨hnormalized, hbytes, hroot, rfl⟩, rfl⟩,
      rfl, hcount, hdigest, hchain⟩
  · rintro ⟨parsed, hparsed, hroot, hcount, hdigest, hchain⟩
    obtain ⟨hparse, hparsedChain⟩ := guestManifest_eq_ok.mp hparsed
    obtain ⟨hnormalized, hbytes, hprior, hsha⟩ := parseManifest_eq_ok.mp hparse
    refine ⟨parsed.entries, hnormalized, ?_, ?_, hcount, hdigest.trans hsha, hchain.trans hparsedChain⟩
    · rw [← hparsedChain]
      exact hbytes
    · rw [hroot]
      exact hprior

/-- The chain and the guest accept the same manifests. Each of the two validators accepts a byte string
for a chain just when the guest parses it for that chain, and then the root, the count and the digest
are the same; the root is the one over the parsed entries and the digest the one of the bytes. -/
theorem manifest_agreement (H : Hashes) (chain : UInt64) :
    (∀ (manifest : CalldataBytes) (c : Commitment), validateManifest H manifest chain = .ok c ↔
      ∃ parsed, guestManifest H manifest.bytes chain = .ok parsed ∧ Agrees c parsed) ∧
    (∀ (manifest : MemoryBytes) (c : Commitment), validateManifestMemory H manifest chain = .ok c ↔
      ∃ parsed, guestManifest H manifest.bytes chain = .ok parsed ∧ Agrees c parsed) ∧
    ∀ bytes parsed, guestManifest H bytes chain = .ok parsed →
      priorRoot H parsed.entries = .ok parsed.root ∧ parsed.sha256 = H.sha256 bytes ∧
      ∃ c, Agrees c parsed := by
  refine ⟨fun manifest c => ?_, fun manifest c => ?_, fun bytes parsed h => ?_⟩
  · have hlen : manifest.bytes.length = manifest.length := by
      have h := manifest.inside
      rw [CalldataBytes.bytes, length_take, length_drop]
      omega
    have hv : Views (loadWord manifest.calldata) manifest.offset manifest.bytes :=
      loadWord_views manifest.inside
    unfold validateManifest
    rw [← hlen]
    exact validateAt_iff_guest hv
  · have hlen : manifest.bytes.length = manifest.length := by
      have h := manifest.inside
      rw [MemoryBytes.bytes, length_take, length_drop, MemoryBytes.length]
      omega
    have hv : Views (loadWord manifest.memory) (manifest.pointer + 32) manifest.bytes :=
      loadWord_views manifest.inside
    unfold validateManifestMemory
    rw [← hlen]
    exact validateAt_iff_guest hv
  · obtain ⟨hparse, -⟩ := guestManifest_eq_ok.mp h
    obtain ⟨hnormalized, -, hprior, hsha⟩ := parseManifest_eq_ok.mp hparse
    exact ⟨hprior, hsha, ⟨parsed.root, UInt32.ofNat parsed.entries.length, parsed.sha256,
      parsed.chainId⟩, rfl, toNat_count hnormalized.length_le, rfl, rfl⟩

end Trustgraphs.WeightedPriorValidator
