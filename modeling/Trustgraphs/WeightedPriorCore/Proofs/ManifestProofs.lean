import Trustgraphs.WeightedPriorCore.Manifest
import Trustgraphs.ZkCore.Proofs.MerkleProofs

/-!
# What the parser of prior manifests accepts

A manifest is accepted when it is the canonical encoding of a normalized list of entries
(`parseManifest_eq_ok`).
-/

namespace Trustgraphs.WeightedPrior

open Outcome List

variable {H : Hashes}

def totalWeight (entries : List PriorEntry) : ℕ := (entries.map fun e => e.weight.toNat).sum

structure Normalized (entries : List PriorEntry) : Prop where
  nonempty : entries ≠ []
  length_le : entries.length ≤ MAX_PRIOR_ENTRIES
  nonzero : ∀ e ∈ entries, e.account ≠ 0 ∧ e.weight ≠ 0
  ascending : entries.Pairwise fun a b => a.account < b.account
  sum : totalWeight entries = SCALE.toNat

theorem checkEntry_eq_ok {st r : Option Address × UInt64} {e : PriorEntry} :
    checkEntry st e = .ok r ↔ (e.account ≠ 0 ∧ e.weight ≠ 0) ∧ (∀ p, st.1 = some p → p < e.account) ∧
      r.1 = some e.account ∧ r.2.toNat = st.2.toNat + e.weight.toNat := by
  obtain ⟨previous, sum⟩ := st
  obtain ⟨last, total⟩ := r
  -- the two comparisons with the account before
  have horder : (previous ≠ some e.account ∧
      ¬ (previous.any fun previous => decide (e.account < previous)) = true) ↔
      ∀ p, previous = some p → p < e.account := by
    cases previous with
    | none => simp
    | some p =>
      simp only [ne_eq, Option.some_inj, Option.any_some, decide_eq_true_eq, not_lt]
      constructor
      · rintro ⟨hne, hle⟩ q rfl
        exact lt_of_le_of_ne hle hne
      · intro h
        exact ⟨(h p rfl).ne, (h p rfl).le⟩
  have hadd : (Checked.add64 sum e.weight).elim (.error .arithmeticOverflow)
      (fun sum => .ok (some e.account, sum)) = (.ok (last, total) :
        Except WeightedError (Option Address × UInt64)) ↔
      last = some e.account ∧ total.toNat = sum.toNat + e.weight.toNat := by
    rw [← Checked.add64_eq_some]
    cases Checked.add64 sum e.weight with
    | none => simp
    | some s => simp [eq_comm]
  unfold checkEntry
  dsimp only
  rw [ite_error_eq_ok, ite_error_eq_ok, ite_error_eq_ok, ite_error_eq_ok, hadd, ← horder]
  tauto

variable {entries : List PriorEntry} {bytes : Bytes}

theorem foldlM_checkEntry {st : Option Address × UInt64} {total : UInt64} :
    (∃ last, entries.foldlM checkEntry st = .ok (last, total)) ↔ (∀ e ∈ entries, e.account ≠ 0 ∧ e.weight ≠ 0) ∧
      (∀ p, st.1 = some p → ∀ e ∈ entries, p < e.account) ∧
      (entries.Pairwise fun a b => a.account < b.account) ∧
      total.toNat = st.2.toNat + totalWeight entries := by
  induction entries generalizing st with
  | nil =>
    obtain ⟨previous, sum⟩ := st
    rw [foldlM_nil, totalWeight, map_nil, sum_nil, Nat.add_zero, UInt64.toNat_inj]
    show (∃ last, Except.ok (previous, sum) = .ok (last, total)) ↔ _
    simp [eq_comm]
  | cons e entries ih =>
    rw [foldlM_cons, totalWeight, map_cons, sum_cons]
    constructor
    · rintro ⟨last, h⟩
      obtain ⟨st', hst', h⟩ := of_bind h
      obtain ⟨hnonzero, horder, hlast, hsum⟩ := checkEntry_eq_ok.mp hst'
      obtain ⟨hall, hafter, hpairwise, htotal⟩ := ih.mp ⟨last, h⟩
      have hlt := hafter e.account hlast
      refine ⟨?_, ?_, pairwise_cons.mpr ⟨hlt, hpairwise⟩, ?_⟩
      · exact forall_mem_cons.mpr ⟨hnonzero, hall⟩
      · intro p hp
        exact forall_mem_cons.mpr ⟨horder p hp, fun f hf => (horder p hp).trans (hlt f hf)⟩
      · rw [htotal, hsum, totalWeight, Nat.add_assoc]
    · rintro ⟨hall, hafter, hpairwise, htotal⟩
      obtain ⟨hnonzero, hall⟩ := forall_mem_cons.mp hall
      obtain ⟨hlt, hpairwise⟩ := pairwise_cons.mp hpairwise
      have hbound := total.toNat_lt
      obtain ⟨sum, hsum⟩ := Checked.exists_toNat64 (n := st.2.toNat + e.weight.toNat) (by omega)
      have hhead : checkEntry st e = .ok (some e.account, sum) := checkEntry_eq_ok.mpr
        ⟨hnonzero, fun p hp => hafter p hp e mem_cons_self, rfl, hsum⟩
      have htail : ∃ last, entries.foldlM checkEntry (some e.account, sum) = .ok (last, total) := by
        refine ih.mpr ⟨hall, ?_, hpairwise, ?_⟩
        · intro p hp
          obtain rfl := Option.some_inj.mp hp
          exact hlt
        · show total.toNat = sum.toNat + totalWeight entries
          rw [hsum, htotal, totalWeight, Nat.add_assoc]
      obtain ⟨last, h⟩ := htail
      exact ⟨last, bind_eq_ok.mpr ⟨_, hhead, h⟩⟩

theorem validateNormalized_eq_ok : validateNormalized entries = .ok () ↔ Normalized entries := by
  unfold validateNormalized
  constructor
  · intro h
    obtain ⟨hne, h⟩ := of_guard h
    obtain ⟨hlen, h⟩ := of_guard h
    obtain ⟨⟨last, total⟩, hfold, h⟩ := of_bind h
    obtain ⟨hsum, -⟩ := of_guard h
    obtain rfl : total = SCALE := not_not.mp hsum
    obtain ⟨hall, -, hpairwise, htotal⟩ := foldlM_checkEntry.mp ⟨last, hfold⟩
    refine ⟨hne, Nat.le_of_not_gt hlen, hall, hpairwise, ?_⟩
    rw [htotal]
    exact (Nat.zero_add _).symm
  · rintro ⟨hne, hlen, hall, hpairwise, htotal⟩
    have hfold : ∃ last, entries.foldlM checkEntry (none, 0) = .ok (last, SCALE) := by
      refine foldlM_checkEntry.mpr ⟨hall, by simp, hpairwise, ?_⟩
      rw [htotal]
      exact (Nat.zero_add _).symm
    obtain ⟨last, hfold⟩ := hfold
    rw [if_neg hne, if_neg (Nat.not_lt.mpr hlen), hfold, ok_bind]
    exact if_neg (not_not.mpr rfl)

theorem reduceLevels_ne_nil {level : List B256} (h : level ≠ []) : reduceLevels H level ≠ [] := by
  induction level using reduceLevels.induct (H := H) with
  | case1 level hlen ih =>
    rw [reduceLevels, if_pos hlen]
    refine ih ?_
    rw [← length_pos_iff, length_nextLevel]
    omega
  | case2 level hlen =>
    rw [reduceLevels, if_neg hlen]
    exact h

theorem Normalized.exists_priorRoot (h : Normalized entries) :
    ∃ root, (reduceLevels H (entries.map (priorLeaf H)))[0]? = some root ∧ priorRoot H entries = .ok root := by
  have hne : reduceLevels H (entries.map (priorLeaf H)) ≠ [] :=
    reduceLevels_ne_nil (by simpa using h.nonempty)
  obtain ⟨root, rest, hlevel⟩ := exists_cons_of_ne_nil hne
  have hroot : (reduceLevels H (entries.map (priorLeaf H)))[0]? = some root := by
    rw [hlevel]
    rfl
  refine ⟨root, hroot, ?_⟩
  unfold priorRoot
  rw [validateNormalized_eq_ok.mpr h, hroot]
  rfl

def entryBytes (entry : PriorEntry) : Bytes := entry.account.bytes ++ beBytes 8 entry.weight.toNat

def manifestBytes (chainId : UInt64) (entries : List PriorEntry) : Bytes :=
  MANIFEST_MAGIC ++ beBytes 2 MANIFEST_VERSION.toNat ++ beBytes 8 chainId.toNat ++
    beBytes 4 entries.length ++ entries.flatMap entryBytes

theorem length_entryBytes (entry : PriorEntry) : (entryBytes entry).length = 28 := by simp [entryBytes]

theorem length_flatMap_entryBytes (entries : List PriorEntry) :
    (entries.flatMap entryBytes).length = entries.length * 28 := by
  induction entries with
  | nil => rfl
  | cons e entries ih =>
    rw [flatMap_cons, length_append, length_entryBytes, ih, length_cons]
    omega

theorem length_manifestBytes (chainId : UInt64) (entries : List PriorEntry) :
    (manifestBytes chainId entries).length = 18 + entries.length * 28 := by
  have hmagic : MANIFEST_MAGIC.length = 4 := by decide
  rw [manifestBytes, length_append, length_flatMap_entryBytes]
  simp [hmagic]

theorem length_slice {i j : ℕ} (hij : i ≤ j) (h : j ≤ bytes.length) : (slice bytes i j).length = j - i := by
  rw [slice, length_take, length_drop]
  omega

theorem drop_eq_slice_append (bytes : Bytes) (i j : ℕ) (hij : i ≤ j) :
    bytes.drop i = slice bytes i j ++ bytes.drop j := by
  have hdrop : bytes.drop j = (bytes.drop i).drop (j - i) := by
    rw [drop_drop]
    congr 1
    omega
  rw [slice, hdrop, take_append_drop]

theorem parseEntry_eq_ok {chunk : Bytes} {entry : PriorEntry} (h : chunk.length = 28) :
    parseEntry chunk = .ok entry ↔ chunk = entryBytes entry := by
  have hsplit : chunk = slice chunk 0 20 ++ slice chunk 20 28 := by
    have h20 := drop_eq_slice_append chunk 20 28 (by omega)
    have h28 : chunk.drop 28 = [] := drop_eq_nil_of_le h.le
    have h0 := drop_eq_slice_append chunk 0 20 (by omega)
    rwa [h20, h28, append_nil] at h0
  unfold parseEntry
  rw [bind_eq_ok]
  constructor
  · rintro ⟨account, haccount, h⟩
    obtain ⟨weight, hweight, h⟩ := of_bind h
    obtain rfl := ok_inj h
    have ha := FixedBytes.ofSlice_eq_some.mp (ofPanic_eq_ok.mp haccount)
    have hw := FixedBytes.ofSlice_eq_some.mp (ofPanic_eq_ok.mp hweight)
    have hlt := ofBeBytes_lt weight.bytes
    have hbytes := beBytes_ofBeBytes weight.bytes
    rw [weight.size] at hlt hbytes
    have hto : (UInt64.ofNat (ofBeBytes weight.bytes)).toNat = ofBeBytes weight.bytes :=
      UInt64.toNat_ofNat_of_lt' hlt
    rw [hsplit, ha, hw, entryBytes, hto, hbytes]
  · intro e
    have hlen : (slice chunk 0 20).length = entry.account.bytes.length := by
      rw [length_slice (by omega) (by omega), entry.account.size]
    obtain ⟨ha, hw⟩ := append_inj (hsplit.symm.trans e) hlen
    refine ⟨entry.account, ofPanic_eq_ok.mpr (FixedBytes.ofSlice_eq_some.mpr ha),
      bind_eq_ok.mpr ⟨FixedBytes.ofNat 8 entry.weight.toNat,
      ofPanic_eq_ok.mpr (FixedBytes.ofSlice_eq_some.mpr hw), ?_⟩⟩
    show Except.ok (PriorEntry.mk entry.account
      (UInt64.ofNat (ofBeBytes (beBytes 8 entry.weight.toNat)))) = _
    have hmod : entry.weight.toNat % 256 ^ 8 = entry.weight.toNat := Nat.mod_eq_of_lt entry.weight.toNat_lt
    rw [ofBeBytes_beBytes, hmod, UInt64.ofNat_toNat]

theorem chunksExact_nil (n : ℕ) : chunksExact n [] = [] := by simp [chunksExact]

theorem chunksExact_append {n : ℕ} (hn : 0 < n) {head rest : Bytes} (h : head.length = n) :
    chunksExact n (head ++ rest) = head :: chunksExact n rest := by
  have hcount : (head ++ rest).length / n = rest.length / n + 1 := by
    rw [length_append, h, Nat.add_comm, Nat.add_div_right _ hn]
  unfold chunksExact
  rw [hcount, range_succ_eq_map, map_cons, map_map]
  congr 1
  · rw [Nat.zero_mul, Nat.zero_add]
    exact take_left' h
  · refine map_congr_left fun i _ => ?_
    show slice (head ++ rest) ((i + 1) * n) ((i + 1) * n + n) = slice rest (i * n) (i * n + n)
    have hoff : (i + 1) * n = n + i * n := by rw [Nat.add_mul, Nat.one_mul, Nat.add_comm]
    unfold slice
    rw [hoff, ← drop_drop, drop_left' h]
    congr 1
    omega

theorem mapM_parseEntry_eq_ok {n : ℕ}
    (h : bytes.length = n * 28) : (chunksExact 28 bytes).mapM parseEntry = .ok entries ↔
      entries.length = n ∧ bytes = entries.flatMap entryBytes := by
  rw [mapM_eq_ok]
  induction n generalizing bytes entries with
  | zero =>
    obtain rfl : bytes = [] := length_eq_zero_iff.mp (by omega)
    rw [chunksExact_nil, forall₂_nil_left_iff]
    constructor
    · rintro rfl
      exact ⟨rfl, rfl⟩
    · rintro ⟨hlen, -⟩
      exact length_eq_zero_iff.mp hlen
  | succ n ih =>
    have hhead : (bytes.take 28).length = 28 := by
      rw [length_take]
      omega
    have hrest : (bytes.drop 28).length = n * 28 := by
      rw [length_drop]
      omega
    have hchunks : chunksExact 28 bytes = bytes.take 28 :: chunksExact 28 (bytes.drop 28) := by
      conv_lhs => rw [← take_append_drop 28 bytes]
      exact chunksExact_append (by omega) hhead
    rw [hchunks]
    cases entries with
    | nil => simp
    | cons e entries =>
      rw [forall₂_cons, parseEntry_eq_ok hhead, ih hrest, flatMap_cons, length_cons]
      constructor
      · rintro ⟨he, hlen, htail⟩
        refine ⟨by rw [hlen], ?_⟩
        rw [← he, ← htail, take_append_drop]
      · rintro ⟨hlen, rfl⟩
        exact ⟨take_left' (length_entryBytes e), Nat.succ.inj hlen, drop_left' (length_entryBytes e)⟩

theorem eq_beBytes {k : ℕ} {l : Bytes} (h : l.length = k) : l = beBytes k (ofBeBytes l) := by
  rw [← h, beBytes_ofBeBytes]

theorem manifestBytes_fields (chainId : UInt64) (entries : List PriorEntry) :
    slice (manifestBytes chainId entries) 0 4 = MANIFEST_MAGIC ∧
      slice (manifestBytes chainId entries) 4 6 = beBytes 2 MANIFEST_VERSION.toNat ∧
      slice (manifestBytes chainId entries) 6 14 = beBytes 8 chainId.toNat ∧
      slice (manifestBytes chainId entries) 14 18 = beBytes 4 entries.length ∧
      (manifestBytes chainId entries).drop 18 = entries.flatMap entryBytes := by
  have hmagic : MANIFEST_MAGIC.length = 4 := by decide
  simp only [manifestBytes, append_assoc, slice]
  refine ⟨take_left' hmagic, ?_, ?_, ?_, ?_⟩
  · rw [drop_left' hmagic, take_left' (length_beBytes ..)]
  · rw [show 6 = 4 + 2 from rfl, ← drop_drop, drop_left' hmagic,
      drop_left' (length_beBytes ..), take_left' (length_beBytes ..)]
  · rw [show 14 = 4 + (2 + 8) from rfl, ← drop_drop, drop_left' hmagic, ← drop_drop,
      drop_left' (length_beBytes ..), drop_left' (length_beBytes ..),
      take_left' (length_beBytes ..)]
  · rw [show 18 = 4 + (2 + (8 + 4)) from rfl, ← drop_drop, drop_left' hmagic,
      ← drop_drop, drop_left' (length_beBytes ..), ← drop_drop,
      drop_left' (length_beBytes ..), drop_left' (length_beBytes ..)]

theorem eq_manifestBytes {chainId : UInt64} (hmagic : slice bytes 0 4 = MANIFEST_MAGIC)
    (hversion : slice bytes 4 6 = beBytes 2 MANIFEST_VERSION.toNat)
    (hchain : slice bytes 6 14 = beBytes 8 chainId.toNat)
    (hcount : slice bytes 14 18 = beBytes 4 entries.length)
    (hentries : bytes.drop 18 = entries.flatMap entryBytes) :
    bytes = manifestBytes chainId entries := by
  calc bytes = slice bytes 0 4 ++ bytes.drop 4 := drop_eq_slice_append _ 0 4 (by omega)
    _ = slice bytes 0 4 ++ (slice bytes 4 6 ++ bytes.drop 6) := by
        rw [← drop_eq_slice_append _ 4 6 (by omega)]
    _ = slice bytes 0 4 ++ (slice bytes 4 6 ++ (slice bytes 6 14 ++ bytes.drop 14)) := by
        rw [← drop_eq_slice_append _ 6 14 (by omega)]
    _ = slice bytes 0 4 ++ (slice bytes 4 6 ++ (slice bytes 6 14 ++ (slice bytes 14 18 ++ bytes.drop 18))) := by
        rw [← drop_eq_slice_append _ 14 18 (by omega)]
    _ = manifestBytes chainId entries := by
        rw [hmagic, hversion, hchain, hcount, hentries]
        simp only [manifestBytes, append_assoc]

theorem toNat_count (h : entries.length ≤ MAX_PRIOR_ENTRIES) :
    (UInt32.ofNat entries.length).toNat = entries.length := by
  have hlt : entries.length ≤ 2048 := h
  exact UInt32.toNat_ofNat_of_lt' (hlt.trans_lt (by decide))

/-- The parser accepts the canonical encodings of the normalized lists. -/
theorem parseManifest_eq_ok {parsed : ParsedManifest} :
    parseManifest H bytes = .ok parsed ↔ Normalized parsed.entries ∧
      bytes = manifestBytes parsed.chainId parsed.entries ∧
      priorRoot H parsed.entries = .ok parsed.root ∧ parsed.sha256 = H.sha256 bytes := by
  unfold parseManifest fail
  constructor
  · intro h
    obtain ⟨hshort, h⟩ := of_guard h
    obtain ⟨hmagic, h⟩ := of_guard h
    obtain ⟨hversion, h⟩ := of_guard h
    obtain ⟨-, h⟩ := of_guard h
    obtain ⟨-, h⟩ := of_guard h
    obtain ⟨hlen, h⟩ := of_guard h
    obtain ⟨entries, hentries, h⟩ := of_bind h
    obtain ⟨⟨⟩, hvalid, h⟩ := of_bind h
    obtain ⟨root, hroot, h⟩ := of_bind h
    obtain rfl := ok_inj h
    have hrest : (bytes.drop 18).length = (UInt32.ofNat (ofBeBytes (slice bytes 14 18))).toNat * 28 := by
      rw [length_drop, not_not.mp hlen]
      omega
    obtain ⟨hcount, hbytes⟩ := (mapM_parseEntry_eq_ok hrest).mp hentries
    refine ⟨validateNormalized_eq_ok.mp (ofResult_eq_ok.mp hvalid), ?_, hroot, rfl⟩
    have h4 : (slice bytes 14 18).length = 4 := length_slice (by omega) (by omega)
    have h2 : (slice bytes 4 6).length = 2 := length_slice (by omega) (by omega)
    have h8 : (slice bytes 6 14).length = 8 := length_slice (by omega) (by omega)
    have hlt4 := ofBeBytes_lt (slice bytes 14 18)
    have hlt2 := ofBeBytes_lt (slice bytes 4 6)
    have hlt8 := ofBeBytes_lt (slice bytes 6 14)
    rw [h4] at hlt4
    rw [h2] at hlt2
    rw [h8] at hlt8
    refine eq_manifestBytes (not_not.mp hmagic) ?_ ?_ ?_ hbytes
    · rw [← not_not.mp hversion, UInt16.toNat_ofNat_of_lt' hlt2]
      exact eq_beBytes h2
    · show slice bytes 6 14 = beBytes 8 (UInt64.ofNat (ofBeBytes (slice bytes 6 14))).toNat
      rw [UInt64.toNat_ofNat_of_lt' hlt8]
      exact eq_beBytes h8
    · rw [hcount, UInt32.toNat_ofNat_of_lt' hlt4]
      exact eq_beBytes h4
  · rintro ⟨hnormalized, rfl, hroot, hdigest⟩
    obtain ⟨chainId, entries, root, sha256⟩ := parsed
    dsimp only at hnormalized hroot hdigest ⊢
    obtain ⟨hmagic, hversion, hchain, hcount, hentries⟩ := manifestBytes_fields chainId entries
    have hlen := length_manifestBytes chainId entries
    have hlimit : entries.length ≤ 2048 := hnormalized.length_le
    have hpos := length_pos_iff.mpr hnormalized.nonempty
    have hto := toNat_count hnormalized.length_le
    have hmod : ofBeBytes (beBytes 4 entries.length) = entries.length := by
      rw [ofBeBytes_beBytes]
      exact Nat.mod_eq_of_lt (hlimit.trans_lt (by decide))
    have hmod8 : ofBeBytes (beBytes 8 chainId.toNat) = chainId.toNat := by
      rw [ofBeBytes_beBytes]
      exact Nat.mod_eq_of_lt chainId.toNat_lt
    have hmod2 : UInt16.ofNat (ofBeBytes (beBytes 2 MANIFEST_VERSION.toNat)) = MANIFEST_VERSION := by decide
    rw [if_neg (by omega), if_neg (not_not.mpr hmagic), hversion, hmod2, hchain, hmod8, hcount, hmod,
      UInt64.ofNat_toNat]
    have hne : UInt32.ofNat entries.length ≠ 0 := by
      intro h
      have := congrArg UInt32.toNat h
      rw [hto] at this
      exact hpos.ne' this
    have hrest : ((manifestBytes chainId entries).drop 18).length = entries.length * 28 := by
      rw [hentries, length_flatMap_entryBytes]
    rw [if_neg (not_not.mpr rfl), if_neg hne, hto, if_neg (Nat.not_lt.mpr hnormalized.length_le),
      if_neg (not_not.mpr hlen), (mapM_parseEntry_eq_ok hrest).mpr ⟨rfl, hentries⟩, ok_bind,
      validateNormalized_eq_ok.mpr hnormalized, hroot, hdigest]
    rfl

end Trustgraphs.WeightedPrior

/-!
## What a root determines

Every node of a tree of sorted pairs stands for a multiset of leaf preimages. Where the hash has no
collision a node stands for one multiset only (`Covers.unique`), and the levels keep the multiset as a
whole; so two lists of leaves with one root are permutations of each other (`perm_of_reduceLevels_eq`).
-/

namespace Trustgraphs.WeightedPrior

open Merkle List

variable {H : Hashes} {S : List Bytes}

/-- The node `x` stands for the leaves with the preimages `m`; all strings hashed are in `S`. A leaf is
told from a parent by the length of its preimage. -/
inductive Covers (H : Hashes) (S : List Bytes) : B256 → Multiset Bytes → Prop where
  | leaf {s : Bytes} (mem : s ∈ S) (length : s.length ≠ 64) : Covers H S (H.keccak256 s) {s}
  | node {a b : B256} {m n : Multiset Bytes} (mem : pairPreimage a b ∈ S)
      (left : Covers H S a m) (right : Covers H S b n) : Covers H S (hashPair H a b) (m + n)

theorem Covers.unique (hS : CollisionFree H.keccak256 S) {x y : B256} {m n : Multiset Bytes}
    (hm : Covers H S x m) (hn : Covers H S y n) (hxy : x = y) : m = n := by
  induction hm generalizing y n with
  | @leaf s hs hlen =>
    cases hn with
    | @leaf t ht _ => rw [hS.inj s hs t ht hxy]
    | @node a b _ _ hmem _ _ =>
      have hpre := hS.inj s hs _ hmem hxy
      exact absurd (hpre ▸ length_pairPreimage a b) hlen
  | @node a b m₁ m₂ hmem _ _ ihl ihr =>
    cases hn with
    | @leaf t ht hlen =>
      have hpre := hS.inj _ hmem t ht hxy
      exact absurd (hpre ▸ length_pairPreimage a b) hlen
    | @node c d n₁ n₂ hmem' hl hr =>
      -- the parents are equal, so the children are the same up to their order
      rcases pairPreimage_inj (hS.inj _ hmem _ hmem' hxy) with ⟨hac, hbd⟩ | ⟨had, hbc⟩
      · rw [ihl hl hac, ihr hr hbd]
      · rw [ihl hr had, ihr hl hbc, add_comm]

def levelPreimages : List B256 → List Bytes
  | [] => []
  | [_] => []
  | left :: right :: rest => pairPreimage left right :: levelPreimages rest

def reducePreimages (H : Hashes) (level : List B256) : List Bytes :=
  if 1 < level.length then levelPreimages level ++ reducePreimages H (nextLevel H level) else []
termination_by level.length
decreasing_by rw [length_nextLevel]; omega

theorem exists_covers_nextLevel {level : List B256} {ms : List (Multiset Bytes)}
    (h : List.Forall₂ (Covers H S) level ms) (hmem : ∀ s ∈ levelPreimages level, s ∈ S) :
    ∃ ns, List.Forall₂ (Covers H S) (nextLevel H level) ns ∧ ns.sum = ms.sum := by
  induction level using nextLevel.induct generalizing ms with
  | case1 =>
    cases h
    exact ⟨[], .nil, rfl⟩
  | case2 node => exact ⟨ms, h, rfl⟩
  | case3 left right rest ih =>
    cases h with
    | @cons _ m _ ms hleft h =>
      cases h with
      | @cons _ n _ ms hright h =>
        obtain ⟨ns, hns, hsum⟩ := ih h fun s hs => hmem s (mem_cons_of_mem _ hs)
        refine ⟨(m + n) :: ns, .cons (.node (hmem _ (mem_cons_self ..)) hleft hright) hns, ?_⟩
        rw [sum_cons, sum_cons, sum_cons, hsum, add_assoc]

theorem exists_covers_reduceLevels {level : List B256} {ms : List (Multiset Bytes)}
    (h : List.Forall₂ (Covers H S) level ms) (hmem : ∀ s ∈ reducePreimages H level, s ∈ S) :
    ∃ ns, List.Forall₂ (Covers H S) (reduceLevels H level) ns ∧ ns.sum = ms.sum := by
  induction hn : level.length using Nat.strong_induction_on generalizing level ms with
  | _ n ih =>
    rw [reduceLevels]
    rw [reducePreimages] at hmem
    by_cases hone : 1 < level.length
    · rw [if_pos hone]
      rw [if_pos hone] at hmem
      obtain ⟨ms', hms', hsum⟩ := exists_covers_nextLevel h
        fun s hs => hmem s (mem_append_left _ hs)
      have hlt : (nextLevel H level).length < n := by
        rw [length_nextLevel]
        omega
      obtain ⟨ns, hns, hsum'⟩ := ih _ hlt hms' (fun s hs => hmem s (mem_append_right _ hs)) rfl
      exact ⟨ns, hns, hsum'.trans hsum⟩
    · rw [if_neg hone]
      exact ⟨ms, h, rfl⟩

theorem length_reduceLevels_le (H : Hashes) (level : List B256) : (reduceLevels H level).length ≤ 1 := by
  induction hn : level.length using Nat.strong_induction_on generalizing level with
  | _ n ih =>
    rw [reduceLevels]
    by_cases hone : 1 < level.length
    · rw [if_pos hone]
      exact ih _ (by rw [length_nextLevel]; omega) _ rfl
    · rw [if_neg hone]
      omega

theorem covers_root {preimages : List Bytes} {root : B256}
    (hlen : ∀ s ∈ preimages, s.length ≠ 64) (hleaves : ∀ s ∈ preimages, s ∈ S)
    (hmem : ∀ s ∈ reducePreimages H (preimages.map H.keccak256), s ∈ S)
    (hroot : (reduceLevels H (preimages.map H.keccak256))[0]? = some root) :
    Covers H S root (Multiset.ofList preimages) := by
  have hbase : List.Forall₂ (Covers H S) (preimages.map H.keccak256)
      (preimages.map fun s => ({s} : Multiset Bytes)) := by
    rw [forall₂_map_left_iff, forall₂_map_right_iff, forall₂_same]
    exact fun s hs => .leaf (hleaves s hs) (hlen s hs)
  obtain ⟨ns, hns, hsum⟩ := exists_covers_reduceLevels hbase hmem
  have hone := length_reduceLevels_le H (preimages.map H.keccak256)
  have hsingle : reduceLevels H (preimages.map H.keccak256) = [root] := by
    cases hr : reduceLevels H (preimages.map H.keccak256) with
    | nil =>
      rw [hr] at hroot
      exact absurd hroot (by simp)
    | cons x xs =>
      rw [hr] at hroot hone
      obtain rfl : x = root := by simpa using hroot
      obtain rfl : xs = [] := eq_nil_of_length_eq_zero (by
        rw [length_cons] at hone
        omega)
      rfl
  rw [hsingle] at hns
  cases hns with
  | @cons _ m _ _ hcovers hrest =>
    cases hrest
    have hm : m = Multiset.ofList preimages := by
      rw [sum_cons, sum_nil, add_zero] at hsum
      rw [hsum]
      clear * -
      induction preimages with
      | nil => rfl
      | cons s preimages ih =>
        rw [map_cons, sum_cons, ih, Multiset.singleton_add]
        rfl
    exact hm ▸ hcovers

theorem perm_of_reduceLevels_eq {xs ys : List Bytes} {root : B256}
    (hS : CollisionFree H.keccak256 (xs ++ reducePreimages H (xs.map H.keccak256) ++
      (ys ++ reducePreimages H (ys.map H.keccak256))))
    (hxs : ∀ s ∈ xs, s.length ≠ 64) (hys : ∀ s ∈ ys, s.length ≠ 64)
    (hx : (reduceLevels H (xs.map H.keccak256))[0]? = some root)
    (hy : (reduceLevels H (ys.map H.keccak256))[0]? = some root) : xs.Perm ys := by
  have hcx := covers_root (S := xs ++ reducePreimages H (xs.map H.keccak256) ++
      (ys ++ reducePreimages H (ys.map H.keccak256))) hxs (fun s hs => by simp [hs])
    (fun s hs => by simp [hs]) hx
  have hcy := covers_root (S := xs ++ reducePreimages H (xs.map H.keccak256) ++
      (ys ++ reducePreimages H (ys.map H.keccak256))) hys (fun s hs => by simp [hs])
    (fun s hs => by simp [hs]) hy
  exact Multiset.coe_eq_coe.mp (hcx.unique hS hcy rfl)

end Trustgraphs.WeightedPrior
