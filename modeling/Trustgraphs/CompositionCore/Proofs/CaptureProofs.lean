import Trustgraphs.CompositionCore.Proofs.PolicyProofs

/-!
# The capture codec has one spelling

What the parser accepts is the header and the records of what it returns (`captureBytes_of_parse`).
-/

namespace Trustgraphs.Composition

open Outcome List

def Stands (bytes : Bytes) (offset : Nat) (l : Bytes) : Prop := (bytes.drop offset).take l.length = l

section Stands

variable {bytes l l' : Bytes} {offset offset' : Nat}

theorem Stands.append (h : Stands bytes offset l) (h' : Stands bytes offset' l')
    (hoffset : offset + l.length = offset') : Stands bytes offset (l ++ l') := by
  subst hoffset
  show (bytes.drop offset).take (l ++ l').length = l ++ l'
  rw [length_append, take_add, drop_drop]
  exact congrArg₂ (· ++ ·) h h'

theorem stands_readBytes {n : Nat} {a : FixedBytes n} (h : readBytes n bytes offset = .ok a) :
    Stands bytes offset a.bytes := by
  rw [readBytes, ofPanic_eq_ok, FixedBytes.ofSlice_eq_some] at h
  show (bytes.drop offset).take a.bytes.length = a.bytes
  rw [a.length_bytes]
  exact h

theorem stands_number {n m : Nat} {a : FixedBytes n} (h : readBytes n bytes offset = .ok a)
    (hm : ofBeBytes a.bytes < 256 ^ n → m = ofBeBytes a.bytes) : Stands bytes offset (beBytes n m) := by
  have hlt := ofBeBytes_lt a.bytes
  have hbytes := beBytes_ofBeBytes a.bytes
  rw [a.length_bytes] at hlt hbytes
  rw [hm hlt, hbytes]
  exact stands_readBytes h

theorem stands_readU16 {x : UInt16} (h : readU16 bytes offset = .ok x) :
    Stands bytes offset (beBytes 2 x.toNat) := by
  obtain ⟨a, ha, hx⟩ := of_bind h
  obtain rfl := ok_inj hx
  exact stands_number ha fun hlt => UInt16.toNat_ofNat_of_lt hlt

theorem stands_readU64 {x : UInt64} (h : readU64 bytes offset = .ok x) :
    Stands bytes offset (beBytes 8 x.toNat) := by
  obtain ⟨a, ha, hx⟩ := of_bind h
  obtain rfl := ok_inj hx
  exact stands_number ha fun hlt => UInt64.toNat_ofNat_of_lt hlt

theorem stands_readU128 {x : U128} (h : readU128 bytes offset = .ok x) :
    Stands bytes offset (beBytes 16 x.toNat) := by
  obtain ⟨a, ha, hx⟩ := of_bind h
  obtain rfl := ok_inj hx
  refine stands_number ha fun hlt => ?_
  have hpow : 256 ^ 16 = 2 ^ 128 := by norm_num
  rw [hpow] at hlt
  rw [BitVec.toNat_ofNat, Nat.mod_eq_of_lt hlt]

theorem stands_readU8 {x : UInt8} (h : readU8 bytes offset = .ok x) : Stands bytes offset [x] := by
  rw [readU8, ofPanic_eq_ok] at h
  obtain ⟨hlt, rfl⟩ := List.getElem?_eq_some_iff.mp h
  show (bytes.drop offset).take 1 = [bytes[offset]]
  rw [drop_eq_getElem_cons hlt, take_succ_cons, take_zero]

end Stands

theorem flagByte_of_le {b : UInt8} (h : ¬ 1 < b) : flagByte (b == 1) = b := by
  have hle : b.toNat ≤ 1 := not_lt.mp h
  rcases Nat.le_one_iff_eq_zero_or_eq_one.mp hle with hb | hb
  · obtain rfl : b = 0 := UInt8.toNat_inj.mp hb
    rfl
  · obtain rfl : b = 1 := UInt8.toNat_inj.mp hb
    rfl

theorem stands_parseCapturedSource {bytes : Bytes} {base : Nat} {s : CapturedSource}
    (h : parseCapturedSource bytes base = .ok s) : Stands bytes base s.encoded := by
  obtain ⟨sourceId, h₁, h⟩ := of_bind h
  obtain ⟨snapshot, h₂, h⟩ := of_bind h
  obtain ⟨familyId, h₃, h⟩ := of_bind h
  obtain ⟨programId, h₄, h⟩ := of_bind h
  obtain ⟨sourceOutputDomain, h₅, h⟩ := of_bind h
  obtain ⟨stateIndex, h₆, h⟩ := of_bind h
  obtain ⟨freezeBlock, h₇, h⟩ := of_bind h
  obtain ⟨outputRoot, h₈, h⟩ := of_bind h
  obtain ⟨blobSha256, h₉, h⟩ := of_bind h
  obtain ⟨cidDigest, h₁₀, h⟩ := of_bind h
  obtain ⟨totalValue, h₁₁, h⟩ := of_bind h
  obtain ⟨weight, h₁₂, h⟩ := of_bind h
  obtain ⟨maxAgeBlocks, h₁₃, h⟩ := of_bind h
  obtain ⟨required, h₁₄, h⟩ := of_bind h
  obtain ⟨hflag, h⟩ := of_guard h
  obtain rfl := ok_inj h
  have hrequired := stands_readU8 h₁₄
  rw [← flagByte_of_le hflag] at hrequired
  have happend := (stands_readBytes h₁).append (stands_readBytes h₂) (by simp)
  have happend := happend.append (stands_readBytes h₃) (by simp)
  have happend := happend.append (stands_readBytes h₄) (by simp)
  have happend := happend.append (stands_readBytes h₅) (by simp)
  have happend := happend.append (stands_readU64 h₆) (by simp)
  have happend := happend.append (stands_readU64 h₇) (by simp)
  have happend := happend.append (stands_readBytes h₈) (by simp)
  have happend := happend.append (stands_readBytes h₉) (by simp)
  have happend := happend.append (stands_readBytes h₁₀) (by simp)
  have happend := happend.append (stands_readU128 h₁₁) (by simp)
  have happend := happend.append (stands_readU64 h₁₂) (by simp)
  have happend := happend.append (stands_readU64 h₁₃) (by simp)
  exact happend.append hrequired (by simp)

theorem stands_records {bytes : Bytes} {base : Nat} {l : List CapturedSource}
    (h : ∀ i (hi : i < l.length), parseCapturedSource bytes (base + i * CAPTURE_RECORD_LENGTH) = .ok l[i]) :
    Stands bytes base (l.flatMap CapturedSource.encoded) := by
  induction l using List.reverseRecOn with
  | nil => rfl
  | append_singleton l s ih =>
    rw [flatMap_append, flatMap_singleton]
    have hinit := ih fun i hi => by
      have hi' : i < (l ++ [s]).length := by
        rw [length_append]
        omega
      have hread := h i hi'
      rw [getElem_append_left hi] at hread
      exact hread
    have hlast := h l.length (by rw [length_append, length_singleton]; omega)
    rw [getElem_concat_length rfl] at hlast
    refine hinit.append (stands_parseCapturedSource hlast) ?_
    rw [length_flatMap_encoded]

/-- What the parser accepts is the header and the records of what it returns, and nothing else. -/
theorem captureBytes_of_parse {bytes : Bytes} {chain : UInt64} {m : CapturedManifest}
    (h : parseCaptureManifest bytes chain = .ok m) :
    captureBytes m = bytes ∧ m.chainId = chain ∧ m.sources.length < 256 := by
  obtain ⟨hshort, h⟩ := of_guard h
  obtain ⟨hmagic, h⟩ := of_guard h
  obtain ⟨version, hversion, h⟩ := of_bind h
  obtain ⟨hv, h⟩ := of_guard h
  obtain ⟨chainId, hchain, h⟩ := of_bind h
  obtain ⟨hc, h⟩ := of_guard h
  obtain ⟨captureBlock, hblock, h⟩ := of_bind h
  obtain ⟨count, hcount, h⟩ := of_bind h
  obtain ⟨hlength, h⟩ := of_guard h
  obtain ⟨sources, hsources, h⟩ := of_bind h
  obtain rfl := ok_inj h
  rw [not_not] at hmagic hv hc hlength
  rw [hv] at hversion
  have hforall := forall₂_iff_get.mp (mapM_eq_ok.mp hsources)
  have hlen : sources.length = count.toNat := by rw [← hforall.1, length_range]
  have hcountByte : UInt8.ofNat sources.length = count := by rw [hlen, UInt8.ofNat_toNat]
  have hrecords : Stands bytes CAPTURE_HEADER_LENGTH (sources.flatMap CapturedSource.encoded) := by
    refine stands_records fun i hi => ?_
    have hread := hforall.2 i (by rw [length_range, ← hlen]; exact hi) hi
    rw [get_eq_getElem, get_eq_getElem, getElem_range] at hread
    exact hread
  have hcount' := stands_readU8 hcount
  rw [← hcountByte] at hcount'
  have hstart : Stands bytes 0 CAPTURE_MAGIC := hmagic
  have hheader := hstart.append (stands_readU16 hversion) rfl
  have hheader := hheader.append (stands_readU64 hchain) rfl
  have hheader := hheader.append (stands_readU64 hblock) (by simp; rfl)
  have hheader := hheader.append hcount' (by simp; rfl)
  have hwhole := hheader.append hrecords (length_captureHeader ⟨chainId, captureBlock, sources⟩)
  refine ⟨?_, hc, by rw [hlen]; exact count.toNat_lt⟩
  have hwhole' : bytes.take (captureBytes ⟨chainId, captureBlock, sources⟩).length =
    captureBytes ⟨chainId, captureBlock, sources⟩ := hwhole
  rw [← hwhole']
  refine take_of_length_le ?_
  rw [hlength, ← hlen]
  show _ ≤ (captureHeader ⟨chainId, captureBlock, sources⟩ ++ sources.flatMap CapturedSource.encoded).length
  rw [length_append, length_captureHeader, length_flatMap_encoded]

def Ascending (sources : List CapturedSource) : Prop := sources.Pairwise fun a b => a.sourceId ≤ b.sourceId

theorem length_sortSources (sources : List CapturedSource) : (sortSources sources).length = sources.length :=
  (perm_insertionSort _ _).length_eq

theorem sortSources_eq_iff {sources : List CapturedSource} :
    sortSources sources = sources ↔ Ascending sources := by
  constructor
  · intro h
    have : Std.Total fun a b : CapturedSource => a.sourceId ≤ b.sourceId :=
      ⟨fun a b => le_total a.sourceId b.sourceId⟩
    have : IsTrans CapturedSource fun a b => a.sourceId ≤ b.sourceId := ⟨fun _ _ _ => le_trans⟩
    have hsorted : Ascending (sortSources sources) := pairwise_insertionSort _ _
    rwa [h] at hsorted
  · exact List.Pairwise.insertionSort_eq

theorem parse_captureManifestEncoded {m : CapturedManifest} (hcount : m.sources.length < 256) :
    parseCaptureManifest (captureManifestEncoded m) m.chainId =
      .ok { m with sources := sortSources m.sources } := by
  refine parseCaptureManifest_captureBytes (m := { m with sources := sortSources m.sources }) ?_
  rw [length_sortSources]
  exact hcount

/-- The codec has one spelling. A capture of at most 255 sources is read back with its sources sorted by
their ids, which is the capture itself exactly where they were; bytes that are read are the header and
the records of the result, and are written back as they were exactly where the ids of the records
ascend. -/
theorem capture_codec_canonical : (∀ m : CapturedManifest, m.sources.length ≤ 255 →
      parseCaptureManifest (captureManifestEncoded m) m.chainId =
        .ok { m with sources := sortSources m.sources } ∧
      (parseCaptureManifest (captureManifestEncoded m) m.chainId = .ok m ↔ Ascending m.sources)) ∧
    ∀ bytes chain m, parseCaptureManifest bytes chain = .ok m → captureBytes m = bytes ∧ m.chainId = chain ∧
        (captureManifestEncoded m = bytes ↔ Ascending m.sources) := by
  constructor
  · intro m hcount
    have hparse := parse_captureManifestEncoded (Nat.lt_succ_of_le hcount)
    refine ⟨hparse, ?_⟩
    rw [hparse, ← sortSources_eq_iff, Except.ok.injEq]
    exact ⟨congrArg CapturedManifest.sources, fun h => by rw [h]⟩
  · intro bytes chain m h
    obtain ⟨hbytes, hchain, hcount⟩ := captureBytes_of_parse h
    refine ⟨hbytes, hchain, ?_⟩
    rw [← sortSources_eq_iff]
    constructor
    · intro hencoded
      have hparse := parse_captureManifestEncoded hcount
      rw [hencoded, hchain, h, Except.ok.injEq] at hparse
      exact (congrArg CapturedManifest.sources hparse).symm
    · intro hsort
      rw [captureManifestEncoded, hsort]
      exact hbytes

namespace CaptureExample

def source (id : Nat) : CapturedSource :=
  { sourceId := FixedBytes.ofNat 32 id, snapshot := 0, familyId := 0, programId := 0,
    sourceOutputDomain := 0, stateIndex := 0, freezeBlock := 0, outputRoot := 0, blobSha256 := 0,
    cidDigest := 0, totalValue := 0, weight := 1, maxAgeBlocks := 0, required := true }

def sorted : CapturedManifest := ⟨1, 2, [source 1, source 2]⟩

def unsorted : CapturedManifest := ⟨1, 2, [source 2, source 1]⟩

theorem ids_ascend : (source 1).sourceId ≤ (source 2).sourceId ∧
    ¬ (source 2).sourceId ≤ (source 1).sourceId := by
  decide +kernel

theorem ascending_sorted : Ascending sorted.sources := pairwise_pair.mpr ids_ascend.1

theorem not_ascending_unsorted : ¬ Ascending unsorted.sources := by
  intro h
  exact ids_ascend.2 (rel_of_pairwise_cons h List.mem_cons_self)

end CaptureExample

open CaptureExample in
/-- Two sources in order are read back as they are, and their bytes are written back as they are. -/
theorem capture_codec_canonical_sorted :
    parseCaptureManifest (captureManifestEncoded sorted) sorted.chainId = .ok sorted ∧
      captureManifestEncoded sorted = captureBytes sorted := by
  have hshort : sorted.sources.length ≤ 255 := by decide
  have hparse := (capture_codec_canonical.1 sorted hshort).2.mpr ascending_sorted
  obtain ⟨hbytes, -, hencoded⟩ := capture_codec_canonical.2 _ _ _ hparse
  exact ⟨hparse, hbytes.symm⟩

open CaptureExample in
/-- Two sources against the order of their ids are read back in the other order, and bytes that hold them
so are accepted and written back otherwise. -/
theorem not_capture_codec_canonical : (unsorted.sources.length ≤ 255 ∧
      parseCaptureManifest (captureManifestEncoded unsorted) unsorted.chainId ≠ .ok unsorted) ∧
    parseCaptureManifest (captureBytes unsorted) 1 = .ok unsorted ∧
      captureManifestEncoded unsorted ≠ captureBytes unsorted := by
  have hshort : unsorted.sources.length < 256 := by decide
  have hread : parseCaptureManifest (captureBytes unsorted) 1 = .ok unsorted :=
    parseCaptureManifest_captureBytes hshort
  have hback := parse_captureManifestEncoded hshort
  have hne : parseCaptureManifest (captureManifestEncoded unsorted) unsorted.chainId ≠ .ok unsorted := by
    intro h
    rw [hback, Except.ok.injEq] at h
    exact not_ascending_unsorted (sortSources_eq_iff.mp (congrArg CapturedManifest.sources h))
  refine ⟨⟨Nat.le_of_lt_succ hshort, hne⟩, hread, fun h => hne ?_⟩
  rw [h]
  exact hread

end Trustgraphs.Composition
