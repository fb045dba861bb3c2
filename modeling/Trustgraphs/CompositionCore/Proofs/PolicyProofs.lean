import Trustgraphs.CompositionCore.Proofs.HamiltonProofs

/-!
# The capture codec

The bytes of a capture are read back as the capture (`parseCaptureManifest_captureBytes`).
-/

namespace Trustgraphs.Composition

open Outcome List

section Chunks

variable {ls : List Bytes} {bytes : Bytes} {k offset : Nat}

theorem take_drop_flatten {l : Bytes} (h : ls[k]? = some l) :
    (ls.flatten.drop (ls.take k).flatten.length).take l.length = l := by
  have hsplit : ls = ls.take k ++ l :: ls.drop (k + 1) := by
    obtain ⟨hk, rfl⟩ := List.getElem?_eq_some_iff.mp h
    rw [getElem_cons_drop, take_append_drop]
  have hflat : ls.flatten = (ls.take k).flatten ++ (l ++ (ls.drop (k + 1)).flatten) := by
    conv_lhs => rw [hsplit]
    rw [flatten_append, flatten_cons]
  rw [hflat, drop_left, take_left]

theorem readBytes_chunk {n : Nat} {a : FixedBytes n} (hbytes : ls.flatten = bytes)
    (h : ls[k]? = some a.bytes) (hoffset : (ls.take k).flatten.length = offset) :
    readBytes n bytes offset = .ok a := by
  have htake := take_drop_flatten h
  rw [a.length_bytes, hbytes, hoffset] at htake
  rw [readBytes, ofPanic_eq_ok, FixedBytes.ofSlice_eq_some]
  exact htake

theorem readNumber_chunk {n m : Nat} (hm : m < 256 ^ n) (hbytes : ls.flatten = bytes)
    (h : ls[k]? = some (beBytes n m)) (hoffset : (ls.take k).flatten.length = offset) :
    ∃ a : FixedBytes n, readBytes n bytes offset = .ok a ∧ ofBeBytes a.bytes = m := by
  refine ⟨FixedBytes.ofNat n m, readBytes_chunk hbytes h hoffset, ?_⟩
  exact (ofBeBytes_beBytes n m).trans (Nat.mod_eq_of_lt hm)

theorem readU16_chunk {x : UInt16} (hbytes : ls.flatten = bytes)
    (h : ls[k]? = some (beBytes 2 x.toNat)) (hoffset : (ls.take k).flatten.length = offset) :
    readU16 bytes offset = .ok x := by
  obtain ⟨a, ha, hx⟩ := readNumber_chunk (by have := x.toNat_lt; omega) hbytes h hoffset
  rw [readU16, ha, ok_bind, hx, UInt16.ofNat_toNat]

theorem readU64_chunk {x : UInt64} (hbytes : ls.flatten = bytes)
    (h : ls[k]? = some (beBytes 8 x.toNat)) (hoffset : (ls.take k).flatten.length = offset) :
    readU64 bytes offset = .ok x := by
  obtain ⟨a, ha, hx⟩ := readNumber_chunk (by have := x.toNat_lt; omega) hbytes h hoffset
  rw [readU64, ha, ok_bind, hx, UInt64.ofNat_toNat]

theorem readU128_chunk {x : U128} (hbytes : ls.flatten = bytes)
    (h : ls[k]? = some (beBytes 16 x.toNat)) (hoffset : (ls.take k).flatten.length = offset) :
    readU128 bytes offset = .ok x := by
  obtain ⟨a, ha, hx⟩ := readNumber_chunk (by have := x.isLt; omega) hbytes h hoffset
  rw [readU128, ha, ok_bind, hx, BitVec.ofNat_toNat, BitVec.setWidth_eq]

theorem readU8_chunk {x : UInt8} (hbytes : ls.flatten = bytes) (h : ls[k]? = some [x])
    (hoffset : (ls.take k).flatten.length = offset) : readU8 bytes offset = .ok x := by
  have htake := take_drop_flatten h
  rw [hbytes, hoffset] at htake
  have hhead : (bytes.drop offset).head? = ((bytes.drop offset).take 1).head? := by
    rw [head?_take, if_neg one_ne_zero]
  rw [readU8, ofPanic_eq_ok, ← head?_drop, hhead]
  exact congrArg List.head? htake

end Chunks

def CapturedSource.chunks (s : CapturedSource) : List Bytes :=
  [s.sourceId.bytes, s.snapshot.bytes, s.familyId.bytes, s.programId.bytes,
    s.sourceOutputDomain.bytes, beBytes 8 s.stateIndex.toNat, beBytes 8 s.freezeBlock.toNat,
    s.outputRoot.bytes, s.blobSha256.bytes, s.cidDigest.bytes, beBytes 16 s.totalValue.toNat,
    beBytes 8 s.weight.toNat, beBytes 8 s.maxAgeBlocks.toNat, [flagByte s.required]]

theorem flatten_chunks (s : CapturedSource) : s.chunks.flatten = s.encoded := by
  simp only [CapturedSource.chunks, CapturedSource.encoded, flatten_cons, flatten_nil, append_nil, append_assoc]

@[simp]
theorem length_encoded (s : CapturedSource) : s.encoded.length = CAPTURE_RECORD_LENGTH := by
  simp only [CapturedSource.encoded, length_append, FixedBytes.length_bytes, length_beBytes,
    length_singleton, CAPTURE_RECORD_LENGTH]

/-- A record is read back wherever it stands. -/
theorem parseCapturedSource_encoded (s : CapturedSource) (pre post : Bytes) :
    parseCapturedSource (pre ++ s.encoded ++ post) pre.length = .ok s := by
  obtain ⟨ls, hls⟩ : ∃ ls, ls = pre :: (s.chunks ++ [post]) := ⟨_, rfl⟩
  have hbytes : ls.flatten = pre ++ s.encoded ++ post := by
    rw [hls, flatten_cons, flatten_append, flatten_chunks, flatten_singleton, append_assoc]
  have hoffset : ∀ k, (ls.take (k + 1)).flatten.length =
      pre.length + ((s.chunks ++ [post]).take k).flatten.length := by
    intro k
    rw [hls, take_succ_cons, flatten_cons, length_append]
  have hk : ∀ k l, (s.chunks ++ [post])[k]? = some l → ls[k + 1]? = some l := by
    intro k l h
    rw [hls, getElem?_cons_succ]
    exact h
  have hlength : ∀ k n, ((s.chunks ++ [post]).take k).flatten.length = n →
      (ls.take (k + 1)).flatten.length = pre.length + n := by
    intro k n h
    rw [hoffset, h]
  have hflag : ¬ 1 < flagByte s.required ∧ (flagByte s.required == 1) = s.required := by
    cases s.required with
    | false => exact ⟨by decide, by decide⟩
    | true => exact ⟨by decide, by decide⟩
  have hfirst : readBytes 32 (pre ++ s.encoded ++ post) pre.length = .ok s.sourceId :=
    readBytes_chunk hbytes (hk 0 _ rfl) (hlength 0 0 rfl)
  rw [parseCapturedSource, hfirst, ok_bind,
    readBytes_chunk hbytes (hk 1 _ rfl) (hlength 1 32 (by simp [CapturedSource.chunks])), ok_bind,
    readBytes_chunk hbytes (hk 2 _ rfl) (hlength 2 52 (by simp [CapturedSource.chunks])), ok_bind,
    readBytes_chunk hbytes (hk 3 _ rfl) (hlength 3 84 (by simp [CapturedSource.chunks])), ok_bind,
    readBytes_chunk hbytes (hk 4 _ rfl) (hlength 4 116 (by simp [CapturedSource.chunks])), ok_bind,
    readU64_chunk hbytes (hk 5 _ rfl) (hlength 5 148 (by simp [CapturedSource.chunks])), ok_bind,
    readU64_chunk hbytes (hk 6 _ rfl) (hlength 6 156 (by simp [CapturedSource.chunks])), ok_bind,
    readBytes_chunk hbytes (hk 7 _ rfl) (hlength 7 164 (by simp [CapturedSource.chunks])), ok_bind,
    readBytes_chunk hbytes (hk 8 _ rfl) (hlength 8 196 (by simp [CapturedSource.chunks])), ok_bind,
    readBytes_chunk hbytes (hk 9 _ rfl) (hlength 9 228 (by simp [CapturedSource.chunks])), ok_bind,
    readU128_chunk hbytes (hk 10 _ rfl) (hlength 10 260 (by simp [CapturedSource.chunks])), ok_bind,
    readU64_chunk hbytes (hk 11 _ rfl) (hlength 11 276 (by simp [CapturedSource.chunks])), ok_bind,
    readU64_chunk hbytes (hk 12 _ rfl) (hlength 12 284 (by simp [CapturedSource.chunks])), ok_bind,
    readU8_chunk hbytes (hk 13 _ rfl) (hlength 13 292 (by simp [CapturedSource.chunks])), ok_bind,
    if_neg hflag.1]
  rw [hflag.2]

def captureHeader (m : CapturedManifest) : Bytes :=
  CAPTURE_MAGIC ++ beBytes 2 MANIFEST_VERSION.toNat ++ beBytes 8 m.chainId.toNat ++
    beBytes 8 m.captureBlock.toNat ++ [UInt8.ofNat m.sources.length]

@[simp]
theorem length_captureHeader (m : CapturedManifest) : (captureHeader m).length = CAPTURE_HEADER_LENGTH := by
  simp only [captureHeader, length_append, length_beBytes, length_singleton]
  rfl

@[simp]
theorem length_flatMap_encoded (l : List CapturedSource) :
    (l.flatMap CapturedSource.encoded).length = l.length * CAPTURE_RECORD_LENGTH := by
  rw [length_flatMap, map_congr_left fun s _ => length_encoded s, map_const', sum_replicate, smul_eq_mul]

theorem mapM_parseCapturedSource (pre : Bytes) (l : List CapturedSource) (post : Bytes) :
    (List.range l.length).mapM (fun index =>
      parseCapturedSource (pre ++ l.flatMap CapturedSource.encoded ++ post)
        (pre.length + index * CAPTURE_RECORD_LENGTH)) = .ok l := by
  rw [mapM_eq_ok, forall₂_iff_get]
  refine ⟨by simp, fun i hi hi' => ?_⟩
  have hsplit : l = l.take i ++ l[i] :: l.drop (i + 1) := by rw [getElem_cons_drop, take_append_drop]
  have hbytes : pre ++ l.flatMap CapturedSource.encoded ++ post =
      (pre ++ (l.take i).flatMap CapturedSource.encoded) ++ l[i].encoded ++
        ((l.drop (i + 1)).flatMap CapturedSource.encoded ++ post) := by
    conv_lhs => rw [hsplit]
    simp only [flatMap_append, flatMap_cons, append_assoc]
  have hlength : pre.length + i * CAPTURE_RECORD_LENGTH =
      (pre ++ (l.take i).flatMap CapturedSource.encoded).length := by
    rw [length_append, length_flatMap_encoded, length_take_of_le (by omega)]
  rw [get_eq_getElem, get_eq_getElem, getElem_range, hbytes, hlength]
  exact parseCapturedSource_encoded _ _ _

/-- The bytes of a capture of at most 255 sources are read back as the capture. -/
theorem parseCaptureManifest_captureBytes {m : CapturedManifest} (hcount : m.sources.length < 256) :
    parseCaptureManifest (captureBytes m) m.chainId = .ok m := by
  obtain ⟨ls, hls⟩ : ∃ ls, ls = [CAPTURE_MAGIC, beBytes 2 MANIFEST_VERSION.toNat,
      beBytes 8 m.chainId.toNat, beBytes 8 m.captureBlock.toNat, [UInt8.ofNat m.sources.length],
      m.sources.flatMap CapturedSource.encoded] := ⟨_, rfl⟩
  have hbytes : ls.flatten = captureBytes m := by
    rw [hls, captureBytes]
    simp only [flatten_cons, flatten_nil, append_nil, append_assoc]
  have hlength : (captureBytes m).length =
      CAPTURE_HEADER_LENGTH + m.sources.length * CAPTURE_RECORD_LENGTH := by
    show (captureHeader m ++ m.sources.flatMap CapturedSource.encoded).length = _
    rw [length_append, length_captureHeader, length_flatMap_encoded]
  have hmagic : (captureBytes m).take 4 = CAPTURE_MAGIC := by
    have htake : (ls.flatten.drop (ls.take 0).flatten.length).take CAPTURE_MAGIC.length =
        CAPTURE_MAGIC := take_drop_flatten (by rw [hls]; rfl)
    rw [hbytes] at htake
    exact htake
  have hversion : readU16 (captureBytes m) 4 = .ok MANIFEST_VERSION :=
    readU16_chunk (k := 1) hbytes (by rw [hls]; rfl) (by rw [hls]; rfl)
  have hchain : readU64 (captureBytes m) 6 = .ok m.chainId :=
    readU64_chunk (k := 2) hbytes (by rw [hls]; rfl) (by rw [hls]; rfl)
  have hblock : readU64 (captureBytes m) 14 = .ok m.captureBlock :=
    readU64_chunk (k := 3) hbytes (by rw [hls]; rfl) (by
      rw [hls]
      simp only [take_succ_cons, take_zero, flatten_cons, flatten_nil,
        length_append, length_beBytes, length_nil]
      rfl)
  have hcountByte : readU8 (captureBytes m) 22 = .ok (UInt8.ofNat m.sources.length) :=
    readU8_chunk (k := 4) hbytes (by rw [hls]; rfl) (by
      rw [hls]
      simp only [take_succ_cons, take_zero, flatten_cons, flatten_nil,
        length_append, length_beBytes, length_nil]
      rfl)
  have hcount' : (UInt8.ofNat m.sources.length).toNat = m.sources.length := UInt8.toNat_ofNat_of_lt hcount
  have hsources := mapM_parseCapturedSource (captureHeader m) m.sources []
  rw [append_nil, length_captureHeader] at hsources
  rw [parseCaptureManifest, if_neg (by rw [hlength]; omega), if_neg (not_not.mpr hmagic), hversion,
    ok_bind, if_neg (not_not.mpr rfl), hchain, ok_bind, if_neg (not_not.mpr rfl), hblock, ok_bind,
    hcountByte, ok_bind, hcount', if_neg (not_not.mpr hlength)]
  show ((List.range m.sources.length).mapM _ >>= _) = _
  rw [show captureBytes m = captureHeader m ++ m.sources.flatMap CapturedSource.encoded from rfl, hsources]
  rfl

end Trustgraphs.Composition

/-!
# What the static checks of a composition accept

The loop over the sources passes exactly when every source is in order by itself (`SourceChecked`), the
ids ascend and the snapshots are distinct (`foldlM_checkSource_eq_ok`). With the weights, the manifest
and the root these are all the checks of the policy (`checkPolicy_eq_ok`).
-/

namespace Trustgraphs.Composition

open Outcome List

structure SourceChecked (H : Hashes) (p : Params) (captureBlock : UInt64) (s : CapturedSource) : Prop where
  sourceId : s.sourceId ≠ 0
  snapshot : s.snapshot ≠ 0
  familyId : s.familyId ≠ 0
  composite : s.programId ≠ programId H
  admitted : admittedSourceOutputDomain H s.programId = some s.sourceOutputDomain
  required : s.required = true
  weight : s.weight ≠ 0
  maxAgeBlocks : s.maxAgeBlocks ≠ 0
  maximumAge : s.maxAgeBlocks ≤ p.maxSourceAgeBlocks
  frozen : s.freezeBlock ≤ captureBlock
  fresh : captureBlock - s.freezeBlock ≤ s.maxAgeBlocks
  totalValue : s.totalValue ≠ 0

structure Fits (H : Hashes) (p : Params) (captureBlock : UInt64) (st : PolicyScan)
    (sources : List CapturedSource) : Prop where
  checked : ∀ s ∈ sources, SourceChecked H p captureBlock s
  ascending : sources.Pairwise fun a b => a.sourceId < b.sourceId
  above : ∀ previous, st.previousId = some previous → ∀ s ∈ sources, previous < s.sourceId
  distinct : (sources.map CapturedSource.snapshot).Nodup
  unseen : ∀ s ∈ sources, s.snapshot ∉ st.snapshots

def weightTotal (sources : List CapturedSource) : ℕ := (sources.map fun s => s.weight.toNat).sum

variable {H : Hashes} {p : Params} {captureBlock : UInt64}

theorem toNat_weight (w : UInt64) : (BitVec.ofNat 128 w.toNat).toNat = w.toNat := by
  have h := w.toNat_lt
  rw [BitVec.toNat_ofNat]
  exact Nat.mod_eq_of_lt (by omega)

/-- One round of the loop. -/
theorem checkSource_eq_ok {st st' : PolicyScan} {s : CapturedSource} :
    checkSource H p captureBlock st s = .ok st' ↔
      SourceChecked H p captureBlock s ∧ (∀ previous, st.previousId = some previous →
        previous < s.sourceId) ∧ s.snapshot ∉ st.snapshots ∧
      st'.weightSum.toNat = st.weightSum.toNat + s.weight.toNat ∧
      st'.previousId = some s.sourceId ∧ st'.snapshots = st.snapshots.insert s.snapshot := by
  have hprevious : st.previousId.any (fun previous => decide (s.sourceId ≤ previous)) = true ↔
      ¬ ∀ previous, st.previousId = some previous → previous < s.sourceId := by
    cases st.previousId with
    | none => simp
    | some previous => simp
  unfold checkSource reject
  simp only [ite_error_eq_ok, hprevious, not_not]
  constructor
  · rintro ⟨hid, habove, hsnapshot, hseen, hfamily, hcomposite, h⟩
    cases hadmitted : admittedSourceOutputDomain H s.programId with
    | none => rw [hadmitted] at h; exact absurd h (by simp)
    | some admittedDomain =>
      rw [hadmitted] at h
      dsimp only at h
      simp only [ite_error_eq_ok, not_not, Bool.not_eq_false] at h
      obtain ⟨hdomain, hrequired, hweight, h⟩ := h
      obtain ⟨weightSum, hadd, h⟩ := of_bind h
      simp only [ite_error_eq_ok, not_or, UInt64.not_lt] at h
      obtain ⟨⟨hage, hmaximum⟩, ⟨hfrozen, hfresh⟩, htotal, h⟩ := h
      obtain rfl := ok_inj h
      rw [orOverflow_eq_ok, Checked.add_eq_some, toNat_weight] at hadd
      rw [Std.ExtTreeSet.contains_iff_mem] at hseen
      exact ⟨⟨hid, hsnapshot, hfamily, hcomposite, by rw [hadmitted, hdomain], hrequired, hweight, hage,
        hmaximum, hfrozen, hfresh, htotal⟩, habove, hseen, hadd, rfl, rfl⟩
  · rintro ⟨hs, habove, hseen, hadd, hprev, hsnapshots⟩
    refine ⟨hs.sourceId, habove, hs.snapshot, by rwa [Std.ExtTreeSet.contains_iff_mem], hs.familyId,
      hs.composite, ?_⟩
    rw [hs.admitted]
    dsimp only
    simp only [ite_error_eq_ok, not_not, Bool.not_eq_false]
    refine ⟨trivial, hs.required, hs.weight, bind_eq_ok.mpr ⟨st'.weightSum, ?_, ?_⟩⟩
    · rw [orOverflow_eq_ok, Checked.add_eq_some, toNat_weight]
      exact hadd
    · simp only [ite_error_eq_ok, not_or, UInt64.not_lt]
      refine ⟨⟨hs.maxAgeBlocks, hs.maximumAge⟩, ⟨hs.frozen, hs.fresh⟩, hs.totalValue, ?_⟩
      rw [← hprev, ← hsnapshots]

theorem foldlM_checkSource_eq_ok {sources : List CapturedSource} {st : PolicyScan} {n : ℕ} :
    (∃ scan, sources.foldlM (checkSource H p captureBlock) st = .ok scan ∧ scan.weightSum.toNat = n) ↔
    Fits H p captureBlock st sources ∧ n = st.weightSum.toNat + weightTotal sources ∧ n < 2 ^ 128 := by
  induction sources generalizing st with
  | nil =>
    constructor
    · rintro ⟨scan, h, hn⟩
      rw [foldlM_nil] at h
      obtain rfl : st = scan := ok_inj h
      refine ⟨⟨by simp, .nil, by simp, by simp, by simp⟩, hn.symm, ?_⟩
      rw [← hn]
      exact BitVec.isLt _
    · rintro ⟨-, hn, -⟩
      exact ⟨st, rfl, hn.symm⟩
  | cons s sources ih =>
    have htotal : weightTotal (s :: sources) = s.weight.toNat + weightTotal sources := rfl
    rw [htotal]
    constructor
    · rintro ⟨scan, h, hn⟩
      rw [foldlM_cons] at h
      obtain ⟨st', hstep, h⟩ := of_bind h
      obtain ⟨hs, habove, hseen, hsum, hprev, hsnapshots⟩ := checkSource_eq_ok.mp hstep
      obtain ⟨hfits, hn', hlt⟩ := ih.mp ⟨scan, h, hn⟩
      have hbehind : ∀ t ∈ sources, s.sourceId < t.sourceId := hfits.above _ hprev
      have hfresh : ∀ t ∈ sources, s.snapshot ≠ t.snapshot ∧ t.snapshot ∉ st.snapshots := by
        intro t ht
        have hno := hfits.unseen t ht
        rw [hsnapshots, Std.ExtTreeSet.mem_insert, not_or] at hno
        exact ⟨fun heq => hno.1 (compare_eq_iff_eq.mpr heq), hno.2⟩
      refine ⟨⟨forall_mem_cons.mpr ⟨hs, hfits.checked⟩, pairwise_cons.mpr ⟨hbehind, hfits.ascending⟩, ?_, ?_,
        forall_mem_cons.mpr ⟨hseen, fun t ht => (hfresh t ht).2⟩⟩, by omega, hlt⟩
      · intro previous hp
        exact forall_mem_cons.mpr ⟨habove previous hp,
          fun t ht => (habove previous hp).trans (hbehind t ht)⟩
      · refine nodup_cons.mpr ⟨fun hmem => ?_, hfits.distinct⟩
        obtain ⟨t, ht, heq⟩ := mem_map.mp hmem
        exact (hfresh t ht).1 heq.symm
    · rintro ⟨hfits, hn, hlt⟩
      obtain ⟨hs, hchecked⟩ := forall_mem_cons.mp hfits.checked
      obtain ⟨hbehind, hascending⟩ := pairwise_cons.mp hfits.ascending
      obtain ⟨hnew, hdistinct⟩ := nodup_cons.mp hfits.distinct
      obtain ⟨hseen, hunseen⟩ := forall_mem_cons.mp hfits.unseen
      obtain ⟨weightSum, hsum⟩ := Checked.exists_toNat (w := 128)
        (n := st.weightSum.toNat + s.weight.toNat) (by omega)
      obtain ⟨scan, h, hscan⟩ := (@ih ⟨some s.sourceId, st.snapshots.insert s.snapshot, weightSum⟩).mpr
        ⟨⟨hchecked, hascending, fun previous hp => by rwa [← Option.some.inj hp], hdistinct,
          fun t ht hmem => by
            rcases Std.ExtTreeSet.mem_insert.mp hmem with heq | hmem
            · exact hnew (compare_eq_iff_eq.mp heq ▸ mem_map_of_mem ht)
            · exact hunseen t ht hmem⟩, by
            show n = weightSum.toNat + _
            omega, hlt⟩
      refine ⟨scan, ?_, hscan⟩
      rw [foldlM_cons]
      exact bind_eq_ok.mpr ⟨_, checkSource_eq_ok.mpr ⟨hs,
        fun previous hp => hfits.above previous hp s mem_cons_self, hseen, hsum, rfl, rfl⟩, h⟩

structure PolicyChecked (H : Hashes) (p : Params) (m : CapturedManifest) : Prop where
  checked : ∀ s ∈ m.sources, SourceChecked H p m.captureBlock s
  ascending : m.sources.Pairwise fun a b => a.sourceId < b.sourceId
  distinct : (m.sources.map CapturedSource.snapshot).Nodup
  weights : weightTotal m.sources = WEIGHT_SCALE.toNat
  manifest : H.sha256 (policyManifestEncoded p.chainId m.sources) = p.policyManifestSha256
  root : sourcePolicyRoot H m.sources = .ok p.sourcePolicyRoot

theorem checkPolicy_eq_ok {m : CapturedManifest} : checkPolicy H p m = .ok () ↔ PolicyChecked H p m := by
  unfold checkPolicy reject
  rw [bind_eq_ok]
  simp only [ite_error_eq_ok, not_not, bind_eq_ok, ofCodec, renameError_eq_ok]
  have hzero : ∀ n, (∃ scan, m.sources.foldlM (checkSource H p m.captureBlock) ⟨none, ∅, 0⟩ = .ok scan ∧
      scan.weightSum.toNat = n) ↔ _ := fun n => foldlM_checkSource_eq_ok
  constructor
  · rintro ⟨scan, h, hsum, hmanifest, root, hroot, heq, -⟩
    obtain ⟨hfits, hweights, -⟩ := (hzero _).mp ⟨scan, h, hsum⟩
    refine ⟨hfits.checked, hfits.ascending, hfits.distinct, ?_, hmanifest, by rw [hroot, heq]⟩
    rw [hweights]
    exact (Nat.zero_add _).symm
  · intro h
    obtain ⟨scan, hfold, hsum⟩ := (hzero WEIGHT_SCALE.toNat).mpr
      ⟨⟨h.checked, h.ascending, by simp, h.distinct, by simp⟩, by
        rw [h.weights]
        exact (Nat.zero_add _).symm, by decide⟩
    exact ⟨scan, hfold, hsum, h.manifest, p.sourcePolicyRoot, h.root, rfl, trivial⟩

structure StaticallyChecked (H : Hashes) (input : GuestInput) (m : CapturedManifest) : Prop where
  params : input.params.validate H = .ok ()
  commitment : H.sha256 input.manifest = input.captureCommitment
  parsed : parseCaptureManifest input.manifest input.params.chainId = .ok m
  captureCount : input.captureCount.toNat = m.sources.length
  sourceCount : input.params.sourceCount.toNat = m.sources.length
  preimages : input.sourcePreimages.length = m.sources.length
  policy : PolicyChecked H input.params m

theorem staticChecks_eq_ok {input : GuestInput} {m : CapturedManifest} :
    staticChecks H input = .ok m ↔ StaticallyChecked H input m := by
  unfold staticChecks reject
  simp only [bind_eq_ok, ite_error_eq_ok, not_not, ofCodec, renameError_eq_ok]
  constructor
  · rintro ⟨⟨⟩, hparams, hcommitment, m', hparsed, hcapture, hcount, hpreimages, ⟨⟩, hpolicy, h⟩
    obtain rfl : m' = m := ok_inj h
    exact ⟨hparams, hcommitment, hparsed, hcapture, hcount, hpreimages, checkPolicy_eq_ok.mp hpolicy⟩
  · intro h
    exact ⟨(), h.params, h.commitment, m, h.parsed, h.captureCount, h.sourceCount, h.preimages, (),
      checkPolicy_eq_ok.mpr h.policy, rfl⟩

theorem validate_scale_pool (h : p.validate H = .ok ()) : p.weightScale = WEIGHT_SCALE ∧ p.outputPool ≠ 0 := by
  unfold Params.validate reject at h
  simp only [ite_error_eq_ok, not_not] at h
  exact ⟨h.2.2.2.2.2.2.2.1, h.2.2.2.2.2.2.2.2.1⟩

end Trustgraphs.Composition
