import Trustgraphs.Contracts.Proofs.WeightedPriorValidatorProofs
import Trustgraphs.Contracts.TrustComposeValidator

/-!
# What a validated policy grants

The records of a validated manifest ascend by their ids, and its root is the root over their leaves
(`Validated`).
-/

namespace Trustgraphs

namespace TrustComposeParamsCodec

open Composition

/-- The commitment determines the parameters. -/
theorem hash_injective {H : Hashes} {p q : Params}
    (hfree : CollisionFree H.keccak256 [paramsEncoded p, paramsEncoded q])
    (h : hash H p = hash H q) : p = q := by
  have henc : paramsEncoded p = paramsEncoded q := hfree.inj _ (by simp) _ (by simp) h
  unfold paramsEncoded at henc
  have hsplit : ∀ {a b c d : Bytes}, a ++ b = c ++ d → b.length = d.length → a = c ∧ b = d :=
    fun h hlen => List.append_inj' h hlen
  obtain ⟨h, hchain⟩ := hsplit henc (by simp)
  obtain ⟨h, haccumulator⟩ := hsplit h (by simp)
  obtain ⟨h, hage⟩ := hsplit h (by simp)
  obtain ⟨h, hblob⟩ := hsplit h (by simp)
  obtain ⟨h, hunion⟩ := hsplit h (by simp)
  obtain ⟨h, haggregate⟩ := hsplit h (by simp)
  obtain ⟨h, hentries⟩ := hsplit h (by simp)
  obtain ⟨h, hsources⟩ := hsplit h (by simp)
  obtain ⟨h, hmanifest⟩ := hsplit h (by simp)
  obtain ⟨h, hcount⟩ := hsplit h (by simp)
  obtain ⟨h, hroot⟩ := hsplit h (by simp)
  obtain ⟨h, hpool⟩ := hsplit h (by simp)
  obtain ⟨h, hscale⟩ := hsplit h (by simp)
  obtain ⟨h, hclass⟩ := hsplit h (by simp)
  obtain ⟨h, hdomain⟩ := hsplit h (by simp)
  obtain ⟨h, hkind⟩ := hsplit h (by simp)
  obtain ⟨h, hidentity⟩ := hsplit h (by simp)
  obtain ⟨h, hscope⟩ := hsplit h (by simp)
  obtain ⟨hversion, hprogram⟩ := hsplit h (by simp)
  rw [FixedBytes.bytes_inj] at hprogram hscope hidentity hkind hdomain hclass hroot hmanifest
  rw [wordU32_inj] at hversion hentries haggregate hunion hblob
  rw [wordU64_inj] at hscale hage hchain
  rw [wordU8_inj] at hcount hsources
  rw [wordAddr_inj] at haccumulator
  rw [wordU256_inj] at hpool
  have hpool' : p.outputPool = q.outputPool := by
    have hnat := congrArg BitVec.toNat hpool
    have hp := p.outputPool.isLt
    have hq := q.outputPool.isLt
    rw [BitVec.toNat_setWidth, BitVec.toNat_setWidth, Nat.mod_eq_of_lt (by omega),
      Nat.mod_eq_of_lt (by omega)] at hnat
    exact BitVec.eq_of_toNat_eq hnat
  exact Params.ext hversion hprogram hscope hidentity hkind hdomain hclass hscale hpool'
    hroot hcount hmanifest hsources hentries haggregate hunion hblob hage haccumulator hchain

end TrustComposeParamsCodec

namespace TrustComposeValidator

open Outcome TrustComposeParamsCodec
open WeightedPriorValidator (loadWord CalldataBytes)

variable {H : Hashes} {load : Nat → U256} {base : Nat} {maximumAge : UInt64}

def records (load : Nat → U256) (base n : Nat) : List Record :=
  (List.range n).map fun i => readRecord load (base + (HEADER_LENGTH + i * RECORD_LENGTH))

theorem records_succ (load : Nat → U256) (base n : Nat) : records load base (n + 1) =
    records load base n ++ [readRecord load (base + (HEADER_LENGTH + n * RECORD_LENGTH))] := by
  simp only [records, List.range_succ, List.map_append, List.map_cons, List.map_nil]

structure RecordValid (H : Hashes) (maximumAge : UInt64) (r : Record) : Prop where
  sourceId : r.sourceId ≠ 0
  snapshot : r.snapshot ≠ 0
  familyId : r.familyId ≠ 0
  composite : r.programId ≠ PROGRAM_ID H
  admitted : admittedSourceOutputDomain H r.programId ≠ 0
  sourceOutputDomain : r.sourceOutputDomain = admittedSourceOutputDomain H r.programId
  weight : r.weight ≠ 0
  maxAgeBlocks : r.maxAgeBlocks ≠ 0
  maximumAge : ¬ maximumAge < r.maxAgeBlocks
  required : r.required = 1

theorem validateRecord_eq_ok {index : Nat} {r : Record} {previousId : B256} {snapshots : List Address}
    (h : validateRecord H index r previousId snapshots maximumAge = .ok ()) :
    RecordValid H maximumAge r ∧ previousId < r.sourceId ∧ r.snapshot ∉ snapshots := by
  simp only [validateRecord, revert, ite_error_eq_ok, not_or, not_not, not_le] at h
  obtain ⟨hid, hprevious, hsnapshot, hfresh, hfamily, hcomposite, hadmitted, hdomain, hweight,
    ⟨hage, hmaximum⟩, hrequired, -⟩ := h
  exact ⟨⟨hid, hsnapshot, hfamily, hcomposite, hadmitted, hdomain, hweight, hage, hmaximum, hrequired⟩,
    hprevious, hfresh⟩

structure Scanned (H : Hashes) (maximumAge : UInt64) (rs : List Record) (st : Scan) : Prop where
  level : st.level = rs.map fun r => H.keccak256 (leafPreimage r)
  snapshots : st.snapshots = rs.map Record.snapshot
  below : ∀ r ∈ rs, r.sourceId ≤ st.previousId
  ascending : rs.Pairwise fun a b => a.sourceId < b.sourceId
  distinct : (rs.map Record.snapshot).Nodup
  valid : ∀ r ∈ rs, RecordValid H maximumAge r
  weightSum : st.weightSum.toNat = (rs.map fun r => r.weight.toNat).sum

theorem Scanned.concat {rs : List Record} {st st' : Scan} (h : Scanned H maximumAge rs st) {i : Nat}
    (hstep : scanRecord H load base maximumAge st i = .ok st') :
    Scanned H maximumAge (rs ++ [readRecord load (base + (HEADER_LENGTH + i * RECORD_LENGTH))]) st' := by
  unfold scanRecord at hstep
  obtain ⟨⟨⟩, hvalid, hstep⟩ := of_bind hstep
  obtain ⟨sum, hsum, hstep⟩ := of_bind hstep
  obtain rfl := ok_inj hstep
  obtain ⟨hrecord, hlt, hfresh⟩ := validateRecord_eq_ok hvalid
  rw [ofPanic_eq_ok, Checked.add_eq_some] at hsum
  have hweight : (readRecord load (base + (HEADER_LENGTH + i * RECORD_LENGTH))).weight.toNat < 2 ^ 64 :=
    UInt64.toNat_lt _
  refine ⟨?_, ?_, ?_, ?_, ?_, ?_, ?_⟩
  · rw [h.level, List.map_append]
    rfl
  · rw [h.snapshots, List.map_append]
    rfl
  · intro r hr
    rcases List.mem_append.mp hr with hr | hr
    · exact (lt_of_le_of_lt (h.below r hr) hlt).le
    · rw [List.mem_singleton.mp hr]
  · rw [List.pairwise_append]
    refine ⟨h.ascending, List.pairwise_singleton .., fun a ha b hb => ?_⟩
    rw [List.mem_singleton.mp hb]
    exact lt_of_le_of_lt (h.below a ha) hlt
  · rw [List.map_append, List.nodup_append]
    refine ⟨h.distinct, List.nodup_singleton _, fun a ha b hb => ?_⟩
    rw [h.snapshots] at hfresh
    rw [List.map_singleton, List.mem_singleton] at hb
    rintro rfl
    exact hfresh (hb ▸ ha)
  · intro r hr
    rcases List.mem_append.mp hr with hr | hr
    · exact h.valid r hr
    · rw [List.mem_singleton.mp hr]
      exact hrecord
  · rw [hsum, h.weightSum, List.map_append, List.sum_append, List.map_singleton, List.sum_singleton,
      BitVec.toNat_ofNat, Nat.mod_eq_of_lt (hweight.trans (by norm_num))]

theorem scan_scanned {n : Nat} {st : Scan}
    (h : (List.range n).foldlM (scanRecord H load base maximumAge) ⟨[], [], 0, 0⟩ = .ok st) :
    Scanned H maximumAge (records load base n) st := by
  induction n generalizing st with
  | zero =>
    obtain rfl := ok_inj h
    exact ⟨rfl, rfl, nofun, List.Pairwise.nil, List.nodup_nil, nofun, rfl⟩
  | succ n ih =>
    rw [List.range_succ, List.foldlM_append] at h
    obtain ⟨st₁, h₁, h⟩ := of_bind h
    obtain ⟨st₂, h₂, h⟩ := of_bind h
    obtain rfl := ok_inj h
    rw [records_succ]
    exact (ih h₁).concat h₂

def headerCount (load : Nat → U256) (base : Nat) : UInt8 := UInt8.ofNat ((load base >>> 136) &&& 0xff).toNat

structure Validated (H : Hashes) (load : Nat → U256) (base : Nat) (digest : B256)
    (expectedChain maximumAge : UInt64) (c : Commitment) : Prop where
  count : c.sourceCount = headerCount load base
  two_le : 2 ≤ c.sourceCount.toNat
  le_eight : c.sourceCount.toNat ≤ 8
  manifestSha256 : c.manifestSha256 = digest
  chainId : c.chainId = expectedChain
  root : (WeightedPrior.reduceLevels H ((records load base c.sourceCount.toNat).map fun r =>
    H.keccak256 (leafPreimage r)))[0]? = some c.sourcePolicyRoot
  ascending : (records load base c.sourceCount.toNat).Pairwise fun a b => a.sourceId < b.sourceId
  distinct : ((records load base c.sourceCount.toNat).map Record.snapshot).Nodup
  valid : ∀ r ∈ records load base c.sourceCount.toNat, RecordValid H maximumAge r
  weightSum : ((records load base c.sourceCount.toNat).map fun r => r.weight.toNat).sum = WEIGHT_SCALE.toNat

theorem length_records (load : Nat → U256) (base n : Nat) : (records load base n).length = n := by
  rw [records, List.length_map, List.length_range]

theorem validateAt_validated {length : Nat} {digest : B256} {expectedChain : UInt64} {c : Commitment}
    (h : validateAt H load base length digest expectedChain maximumAge = .ok c) :
    Validated H load base digest expectedChain maximumAge c := by
  unfold validateAt revert at h
  obtain ⟨-, h⟩ := of_guard h
  obtain ⟨-, h⟩ := of_guard h
  obtain ⟨-, h⟩ := of_guard h
  obtain ⟨hchain, h⟩ := of_guard h
  obtain ⟨hcount, h⟩ := of_guard h
  obtain ⟨-, h⟩ := of_guard h
  obtain ⟨scan, hscan, h⟩ := of_bind h
  obtain ⟨hsum, h⟩ := of_guard h
  obtain ⟨root, hroot, h⟩ := of_bind h
  obtain rfl := ok_inj h
  have hscanned := scan_scanned hscan
  have hcount' : ¬ headerCount load base < MIN_SOURCES ∧ ¬ headerCount load base > MAX_SOURCES :=
    not_or.mp hcount
  have htwo : 2 ≤ (headerCount load base).toNat := by
    have hmin := hcount'.1
    rw [UInt8.lt_iff_toNat_lt] at hmin
    exact not_lt.mp hmin
  have height : (headerCount load base).toNat ≤ 8 := by
    have hmax := hcount'.2
    rw [gt_iff_lt, UInt8.lt_iff_toNat_lt] at hmax
    exact not_lt.mp hmax
  refine ⟨rfl, htwo, height, rfl, not_not.mp hchain, ?_, hscanned.ascending, hscanned.distinct,
    hscanned.valid, ?_⟩
  · have hlevel : scan.level.length = (headerCount load base).toNat := by
      rw [hscanned.level, List.length_map]
      exact length_records ..
    rw [ofPanic_eq_ok, orderedRoot, WeightedPriorValidator.merkleRoot_eq (by omega) le_rfl,
      List.take_length, hscanned.level] at hroot
    exact hroot
  · rw [← not_not.mp hsum, hscanned.weightSum]

theorem Validated.commitment_eq {digest : B256} {chain chain' maximumAge' : UInt64}
    {c c' : Commitment} (h : Validated H load base digest chain maximumAge c)
    (h' : Validated H load base digest chain' maximumAge' c') :
    c.sourcePolicyRoot = c'.sourcePolicyRoot ∧ c.sourceCount = c'.sourceCount ∧
      c.manifestSha256 = c'.manifestSha256 := by
  have hcount : c.sourceCount = c'.sourceCount := h.count.trans h'.count.symm
  have hroot := h.root
  rw [hcount, h'.root] at hroot
  exact ⟨(Option.some.inj hroot).symm, hcount, h.manifestSha256.trans h'.manifestSha256.symm⟩

theorem leafPreimage_injective {r s : Record} (h : leafPreimage r = leafPreimage s) : r = s := by
  unfold leafPreimage at h
  have hsplit : ∀ {a b c d : Bytes}, a ++ b = c ++ d → b.length = d.length → a = c ∧ b = d :=
    fun h hlen => List.append_inj' h hlen
  obtain ⟨h, hrequired⟩ := hsplit h (by simp)
  obtain ⟨h, hage⟩ := hsplit h (by simp)
  obtain ⟨h, hweight⟩ := hsplit h (by simp)
  obtain ⟨h, hdomain⟩ := hsplit h (by simp)
  obtain ⟨h, hprogram⟩ := hsplit h (by simp)
  obtain ⟨h, hfamily⟩ := hsplit h (by simp)
  obtain ⟨hid, hsnapshot⟩ := hsplit h (by simp)
  rw [FixedBytes.bytes_inj] at hid hfamily hprogram hdomain
  rw [wordAddr_inj] at hsnapshot
  rw [wordU64_inj] at hweight hage
  rw [wordU8_inj] at hrequired
  exact Record.ext hid hsnapshot hfamily hprogram hdomain hweight hage hrequired

@[simp]
theorem length_leafPreimage (r : Record) : (leafPreimage r).length = 256 := by
  simp only [leafPreimage, List.length_append, FixedBytes.length_bytes, length_wordAddr, length_wordU64,
    length_wordU8]

/-- The strings that are hashed for the root of a policy. -/
def policyHashed (H : Hashes) (rs : List Record) : List Bytes :=
  rs.map leafPreimage ++ WeightedPrior.reducePreimages H ((rs.map leafPreimage).map H.keccak256)

theorem records_unique {rs ss : List Record} {root : B256}
    (hfree : CollisionFree H.keccak256 (policyHashed H rs ++ policyHashed H ss))
    (hrs : rs.Pairwise fun a b => a.sourceId < b.sourceId)
    (hss : ss.Pairwise fun a b => a.sourceId < b.sourceId)
    (hr : (WeightedPrior.reduceLevels H (rs.map fun r => H.keccak256 (leafPreimage r)))[0]? = some root)
    (hs : (WeightedPrior.reduceLevels H (ss.map fun r => H.keccak256 (leafPreimage r)))[0]? =
      some root) : rs = ss := by
  have hlen : ∀ ts : List Record, ∀ s ∈ ts.map leafPreimage, s.length ≠ 64 := by
    intro ts s hmem
    obtain ⟨t, -, rfl⟩ := List.mem_map.mp hmem
    rw [length_leafPreimage]
    norm_num
  have hperm : (rs.map leafPreimage).Perm (ss.map leafPreimage) :=
    WeightedPrior.perm_of_reduceLevels_eq hfree (hlen rs) (hlen ss)
      (by rw [List.map_map]; exact hr) (by rw [List.map_map]; exact hs)
  have hinj : Function.Injective leafPreimage := fun _ _ h => leafPreimage_injective h
  have hperm' : rs.Perm ss := (List.map_perm_map_iff hinj).mp hperm
  exact hperm'.eq_of_pairwise
    (fun (a b : Record) _ _ hab hba => absurd hab (lt_asymm hba)) hrs hss

end TrustComposeValidator

end Trustgraphs
