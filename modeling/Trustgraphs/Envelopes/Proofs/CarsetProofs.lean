import Trustgraphs.Envelopes.Carset

/-!
# Reading a CAR never panics and stores what its identifiers name

The reader on a machine agrees with the reader over unbounded offsets on every buffer that fits into
the address space, so none of its sums wraps and none of its ranges is out of bounds.
-/

namespace Trustgraphs.Carset

open Outcome List

variable {v : UInt64} {n : ℕ} {buf l : Bytes} {start : ℕ} {H : Hashes}

theorem readUvarintFrom_bounds {val : UInt64} {shift i : ℕ}
    (h : readUvarintFrom val shift i buf = .ok (v, n)) : i < n ∧ n ≤ i + buf.length := by
  induction buf generalizing val shift i with
  | nil => cases h
  | cons b buf ih =>
    rw [readUvarintFrom] at h
    obtain ⟨-, h⟩ := of_guard h
    dsimp only at h
    rw [length_cons]
    by_cases hlast : b &&& 0x80 = 0
    · rw [if_pos hlast] at h
      obtain ⟨-, rfl⟩ := Prod.mk.inj (ok_inj h)
      omega
    · rw [if_neg hlast] at h
      obtain ⟨hlt, hle⟩ := ih h
      omega

theorem readUvarint_bounds (h : readUvarint buf = .ok (v, n)) : 0 < n ∧ n ≤ buf.length := by
  obtain ⟨hlt, hle⟩ := readUvarintFrom_bounds h
  exact ⟨hlt, by omega⟩

theorem checkedSlice_eq_ok {len : UInt64} : checkedSlice buf start len = .ok l ↔
      start + len.toNat ≤ buf.length ∧ l = (buf.drop start).take len.toNat := by
  unfold checkedSlice
  rw [ite_error_eq_ok, Except.ok.injEq, Nat.not_lt, eq_comm (a := l)]

theorem checkedTail_eq_ok : checkedTail buf start = .ok l ↔ start ≤ buf.length ∧ l = buf.drop start := by
  unfold checkedTail
  rw [ite_error_eq_ok, Except.ok.injEq, Nat.not_lt, eq_comm (a := l)]

theorem tail_readUvarint_bounds (hl : checkedTail buf start = .ok l) (h : readUvarint l = .ok (v, n)) :
    0 < n ∧ start + n ≤ buf.length := by
  obtain ⟨hstart, rfl⟩ := checkedTail_eq_ok.mp hl
  obtain ⟨hpos, hle⟩ := readUvarint_bounds h
  rw [length_drop] at hle
  exact ⟨hpos, by omega⟩

namespace Usize

variable {α β : Type} {w : ℕ}

/-- A computation on a machine does not panic, and returns what the unbounded one returns. -/
structure Agrees (x : Checked α) (y : Except CarError α) : Prop where
  total : x ≠ .error .panic
  iff : ∀ a, x = .ok a ↔ y = .ok a

theorem agrees_ok (a : α) : Agrees (.ok a) (.ok a) := by
  refine ⟨?_, fun b => ?_⟩
  · intro h
    cases h
  · rw [Except.ok.injEq, Except.ok.injEq]

theorem agrees_error (e : UsizeError) (e' : CarError) : Agrees (α := α) (.error (.error e)) (.error e') := by
  refine ⟨?_, fun b => ?_⟩
  · intro h
    cases h
  · constructor
    · intro h
      cases h
    · intro h
      cases h

theorem agrees_lift (y : Except CarError α) : Agrees (lift y) y := by
  cases y with
  | ok a => exact agrees_ok a
  | error e => exact agrees_error (.car e) e

theorem Agrees.bind {x : Checked α} {y : Except CarError α} {f : α → Checked β} {g : α → Except CarError β}
    (h : Agrees x y) (hf : ∀ a, y = .ok a → Agrees (f a) (g a)) : Agrees (x >>= f) (y >>= g) := by
  refine ⟨fun hpanic => ?_, fun b => ?_⟩
  · rcases bind_eq_error.mp hpanic with hx | ⟨a, hx, hfa⟩
    · exact h.total hx
    · exact (hf a ((h.iff a).mp hx)).total hfa
  · rw [bind_eq_ok, bind_eq_ok]
    constructor
    · rintro ⟨a, hx, hfa⟩
      have hy := (h.iff a).mp hx
      exact ⟨a, hy, ((hf a hy).iff b).mp hfa⟩
    · rintro ⟨a, hy, hga⟩
      exact ⟨a, (h.iff a).mpr hy, ((hf a hy).iff b).mpr hga⟩

theorem add_eq {a b : ℕ} (h : a + b < 2 ^ w) : add w a b = .ok (a + b) := if_pos h

variable {buf : Bytes}

theorem readUvarintFrom_agrees {val : UInt64} {shift i : ℕ}
    (hi : i + buf.length < 2 ^ w) (hshift : shift ≤ 70) :
    Agrees (readUvarintFrom w val shift i buf) (Carset.readUvarintFrom val shift i buf) := by
  induction buf generalizing val shift i with
  | nil => exact agrees_error _ _
  | cons b buf ih =>
    rw [length_cons] at hi
    rw [readUvarintFrom, Carset.readUvarintFrom]
    by_cases hlong : shift ≥ 64
    · rw [if_pos hlong, if_pos hlong]
      exact agrees_error _ _
    · rw [if_neg hlong, if_neg hlong, shl, if_pos (by omega), ok_bind, add_eq (by omega), ok_bind]
      by_cases hlast : b &&& 0x80 = 0
      · rw [if_pos hlast, if_pos hlast]
        exact agrees_ok _
      · rw [if_neg hlast, if_neg hlast, add_eq (by omega), ok_bind]
        exact ih (by omega) (by omega)

theorem readUvarint_agrees (h : buf.length < 2 ^ w) :
    Agrees (readUvarint w buf) (Carset.readUvarint buf) := readUvarintFrom_agrees (by omega) (by omega)

theorem checkedSlice_agrees (h : buf.length < 2 ^ w) (start : ℕ) (len : UInt64) :
    Agrees (checkedSlice w buf start len) (Carset.checkedSlice buf start len) := by
  unfold checkedSlice Carset.checkedSlice
  by_cases hend : start + len.toNat > buf.length
  · by_cases hlen : len.toNat < 2 ^ w
    · rw [if_neg (not_not.mpr hlen)]
      by_cases hsum : start + len.toNat < 2 ^ w
      · rw [if_neg (not_not.mpr hsum), if_pos hend, if_pos hend]
        exact agrees_error _ _
      · rw [if_pos hsum, if_pos hend]
        exact agrees_error _ _
    · rw [if_pos hlen, if_pos hend]
      exact agrees_error _ _
  · rw [if_neg (by omega), if_neg (by omega), if_neg hend, if_neg hend, slice,
      if_pos ⟨by omega, by omega⟩, Nat.add_sub_cancel_left]
    exact agrees_ok _

theorem checkedTail_agrees (buf : Bytes) (start : ℕ) :
    Agrees (checkedTail buf start) (Carset.checkedTail buf start) := by
  unfold checkedTail Carset.checkedTail
  by_cases hstart : start > buf.length
  · rw [if_pos hstart, if_pos hstart]
    exact agrees_error _ _
  · have htake : (buf.drop start).take (buf.length - start) = buf.drop start := by
      rw [take_of_length_le]
      rw [length_drop]
    rw [if_neg hstart, if_neg hstart, slice, if_pos ⟨by omega, le_rfl⟩, htake]
    exact agrees_ok _

theorem readBlock_agrees (readCid : Bytes → Option Cid) {block : Bytes} (h : block.length < 2 ^ w) :
    Agrees (readBlock w readCid block) (Carset.readBlock readCid block) := by
  unfold readBlock Carset.readBlock
  refine (readUvarint_agrees h).bind fun ⟨ver, a⟩ hver => ?_
  obtain ⟨-, ha⟩ := readUvarint_bounds hver
  dsimp only
  by_cases hv1 : ver ≠ 1
  · rw [if_pos hv1, if_pos hv1]
    exact agrees_error _ _
  rw [if_neg hv1, if_neg hv1]
  refine (checkedTail_agrees block a).bind fun l hl => ?_
  refine (readUvarint_agrees ?_).bind fun ⟨codec, b⟩ hcodec => ?_
  · obtain ⟨-, rfl⟩ := checkedTail_eq_ok.mp hl
    rw [length_drop]
    omega
  obtain ⟨-, hb⟩ := tail_readUvarint_bounds hl hcodec
  dsimp only
  rw [add_eq (by omega), ok_bind]
  refine (checkedTail_agrees block (a + b)).bind fun l' hl' => ?_
  refine (readUvarint_agrees ?_).bind fun ⟨mhcode, c⟩ hcode => ?_
  · obtain ⟨-, rfl⟩ := checkedTail_eq_ok.mp hl'
    rw [length_drop]
    omega
  obtain ⟨-, hc⟩ := tail_readUvarint_bounds hl' hcode
  dsimp only
  rw [add_eq (by omega), ok_bind]
  refine (checkedTail_agrees block (a + b + c)).bind fun l'' hl'' => ?_
  refine (readUvarint_agrees ?_).bind fun ⟨mhsize, d⟩ hsize => ?_
  · obtain ⟨-, rfl⟩ := checkedTail_eq_ok.mp hl''
    rw [length_drop]
    omega
  obtain ⟨-, hd⟩ := tail_readUvarint_bounds hl'' hsize
  dsimp only
  rw [add_eq (by omega), ok_bind]
  refine (checkedSlice_agrees h _ _).bind fun stored hstored => ?_
  obtain ⟨hlen, rfl⟩ := checkedSlice_eq_ok.mp hstored
  have hstoredLen : ((block.drop (a + b + c + d)).take mhsize.toNat).length = mhsize.toNat := by
    rw [length_take, length_drop]
    omega
  rw [hstoredLen, add_eq (by omega), ok_bind]
  cases readCid block with
  | none => exact agrees_error _ _
  | some cid =>
    refine (checkedTail_agrees block _).bind fun data _ => ?_
    exact agrees_ok _

theorem parseBlocks_agrees (H : Hashes) (readCid : Bytes → Option Cid)
    (hbuf : buf.length < 2 ^ w) {fuel fuel' off : ℕ} {blocks : BTreeMap Cid Bytes}
    {numBlocks : ℕ} (hfuel : buf.length ≤ off + fuel) (hfuel' : buf.length ≤ off + fuel')
    (hcount : numBlocks ≤ off) (hoff : off ≤ buf.length) :
    Agrees (parseBlocks w H readCid buf fuel off blocks numBlocks)
      (Carset.parseBlocks H readCid buf fuel' off blocks numBlocks) := by
  induction fuel generalizing fuel' off blocks numBlocks with
  | zero =>
    -- nothing is left
    have hdone : ¬ off < buf.length := by omega
    rw [parseBlocks, if_neg hdone]
    cases fuel' with
    | zero => exact agrees_ok _
    | succ fuel' =>
      rw [Carset.parseBlocks, if_neg hdone]
      exact agrees_ok _
  | succ fuel ih =>
    rw [parseBlocks]
    by_cases hlt : off < buf.length
    · cases fuel' with
      | zero => omega
      | succ fuel' =>
        rw [if_pos hlt, Carset.parseBlocks, if_pos hlt]
        refine (checkedTail_agrees buf off).bind fun l hl => ?_
        refine (readUvarint_agrees ?_).bind fun ⟨blen, n⟩ hblen => ?_
        · obtain ⟨-, rfl⟩ := checkedTail_eq_ok.mp hl
          rw [length_drop]
          omega
        obtain ⟨hpos, hn⟩ := tail_readUvarint_bounds hl hblen
        dsimp only
        rw [add_eq (by omega), ok_bind]
        refine (checkedSlice_agrees hbuf _ _).bind fun block hblock => ?_
        obtain ⟨hend, hblock⟩ := checkedSlice_eq_ok.mp hblock
        have hlen : block.length = blen.toNat := by
          rw [hblock, length_take, length_drop]
          omega
        rw [add_eq (by omega), ok_bind]
        refine (readBlock_agrees readCid (by omega)).bind fun ⟨cid, head⟩ _ => ?_
        refine (agrees_lift _).bind fun _ _ => ?_
        rw [add_eq (by omega), ok_bind]
        exact ih (by omega) (by omega) (by omega) (by omega)
    · rw [if_neg hlt]
      cases fuel' with
      | zero => exact agrees_ok _
      | succ fuel' =>
        rw [Carset.parseBlocks, if_neg hlt]
        exact agrees_ok _

theorem parse_agrees (H : Hashes) (decodeIpld : Bytes → Option Ipld)
    (readCid : Bytes → Option Cid) (h : buf.length < 2 ^ w) :
    Agrees (parse w H decodeIpld readCid buf) (Car.parse H decodeIpld readCid buf) := by
  have hstart : checkedTail buf 0 = .ok buf := by
    rw [checkedTail, if_neg (by omega), slice, if_pos ⟨by omega, le_rfl⟩, drop_zero, Nat.sub_zero, take_length]
  unfold parse Car.parse
  rw [hstart, ok_bind]
  refine (readUvarint_agrees h).bind fun ⟨hlen, n⟩ hhlen => ?_
  obtain ⟨hpos, hn⟩ := readUvarint_bounds hhlen
  dsimp only
  rw [add_eq (by omega), ok_bind, Nat.zero_add]
  refine (checkedSlice_agrees h _ _).bind fun header hheader => ?_
  obtain ⟨hend, hheader⟩ := checkedSlice_eq_ok.mp hheader
  have hlength : header.length = hlen.toNat := by
    rw [hheader, length_take, length_drop]
    omega
  rw [add_eq (by omega), ok_bind]
  cases decodeIpld header with
  | none => exact agrees_error _ _
  | some hval =>
    refine (agrees_lift _).bind fun roots _ => ?_
    refine (parseBlocks_agrees H readCid h (by omega) (by omega) (by omega) (by omega)).bind
      fun ⟨blocks, numBlocks⟩ _ => ?_
    exact agrees_ok _

end Usize

/-- An identifier names its data: version 1, dag-cbor or raw, and the SHA-256 of the data. -/
structure Addressed (H : Hashes) (cid : Cid) (data : Bytes) : Prop where
  version : cid.version = 1
  codec : cid.codec = DAG_CBOR ∨ cid.codec = RAW
  hashCode : cid.hashCode = SHA2_256
  digest : cid.digest = (H.sha256 data).bytes

/-- The reader of identifiers takes the parts of a version 1 identifier from the varints that a block
starts with. -/
def ReadsLayout (readCid : Bytes → Option Cid) : Prop :=
  ∀ (block : Bytes) (cid : Cid), readCid block = some cid →
    ∀ (codec mhcode mhsize : UInt64) (a b c d : ℕ), readUvarint block = .ok (1, a) →
      readUvarint (block.drop a) = .ok (codec, b) → readUvarint (block.drop (a + b)) = .ok (mhcode, c) →
      readUvarint (block.drop (a + b + c)) = .ok (mhsize, d) →
        cid = ⟨1, codec, mhcode, (block.drop (a + b + c + d)).take mhsize.toNat⟩

theorem readBlock_cid {readCid : Bytes → Option Cid} (hlayout : ReadsLayout readCid)
    {block : Bytes} {cid : Cid} {head : BlockHead} (h : readBlock readCid block = .ok (cid, head)) :
    cid = ⟨1, head.codec, head.hashCode, head.stored⟩ := by
  unfold readBlock at h
  obtain ⟨⟨ver, a⟩, hver, h⟩ := of_bind h
  obtain ⟨hv1, h⟩ := of_guard h
  rw [not_not] at hv1
  obtain ⟨l, hl, h⟩ := of_bind h
  obtain ⟨⟨codec, b⟩, hcodec, h⟩ := of_bind h
  obtain ⟨l', hl', h⟩ := of_bind h
  obtain ⟨⟨mhcode, c⟩, hcode, h⟩ := of_bind h
  obtain ⟨l'', hl'', h⟩ := of_bind h
  obtain ⟨⟨mhsize, d⟩, hsize, h⟩ := of_bind h
  obtain ⟨stored, hstored, h⟩ := of_bind h
  obtain ⟨-, rfl⟩ := checkedTail_eq_ok.mp hl
  obtain ⟨-, rfl⟩ := checkedTail_eq_ok.mp hl'
  obtain ⟨-, rfl⟩ := checkedTail_eq_ok.mp hl''
  obtain ⟨-, rfl⟩ := checkedSlice_eq_ok.mp hstored
  cases hread : readCid block with
  | none =>
    rw [hread] at h
    cases h
  | some cid' =>
    rw [hread] at h
    obtain ⟨data, -, h⟩ := of_bind h
    obtain ⟨rfl, rfl⟩ := Prod.mk.inj (ok_inj h)
    rw [hv1] at hver
    exact hlayout block cid' hread codec mhcode mhsize a b c d hver hcodec hcode hsize

theorem checkBlock_addressed {cid : Cid} {head : BlockHead}
    (hcid : cid = ⟨1, head.codec, head.hashCode, head.stored⟩) (h : checkBlock H cid head = .ok ()) :
    Addressed H cid head.data := by
  unfold checkBlock at h
  obtain ⟨hprofile, h⟩ := of_guard h
  obtain ⟨hdigest, -⟩ := of_guard h
  rw [not_or, not_or, not_not, not_not, not_not] at hprofile
  obtain ⟨hcode, -, hcodec⟩ := hprofile
  subst hcid
  exact ⟨rfl, hcodec, hcode, (not_not.mp hdigest).symm⟩

theorem parseBlocks_addressed {readCid : Bytes → Option Cid} (hlayout : ReadsLayout readCid) {fuel off : ℕ}
    {blocks : BTreeMap Cid Bytes} {numBlocks : ℕ} {r : BTreeMap Cid Bytes × ℕ}
    (hblocks : ∀ cid data, blocks[cid]? = some data → Addressed H cid data)
    (h : parseBlocks H readCid buf fuel off blocks numBlocks = .ok r) :
    ∀ cid data, r.1[cid]? = some data → Addressed H cid data := by
  induction fuel generalizing off blocks numBlocks with
  | zero =>
    rw [parseBlocks] at h
    obtain rfl := ok_inj h
    exact hblocks
  | succ fuel ih =>
    rw [parseBlocks] at h
    by_cases hlt : off < buf.length
    · rw [if_pos hlt] at h
      obtain ⟨_, -, h⟩ := of_bind h
      obtain ⟨⟨blen, n⟩, -, h⟩ := of_bind h
      obtain ⟨block, -, h⟩ := of_bind h
      obtain ⟨⟨cid, head⟩, hread, h⟩ := of_bind h
      obtain ⟨_, hcheck, h⟩ := of_bind h
      have haddressed := checkBlock_addressed (readBlock_cid hlayout hread) hcheck
      refine ih (fun cid' data hget => ?_) h
      rw [BTreeMap.getElem?_insert] at hget
      by_cases hcid : cid = cid'
      · rw [if_pos hcid, Option.some_inj] at hget
        rw [← hcid, ← hget]
        exact haddressed
      · rw [if_neg hcid] at hget
        exact hblocks cid' data hget
    · rw [if_neg hlt] at h
      obtain rfl := ok_inj h
      exact hblocks

theorem parse_addressed {decodeIpld : Bytes → Option Ipld}
    {readCid : Bytes → Option Cid} (hlayout : ReadsLayout readCid) {car : Car}
    (h : Car.parse H decodeIpld readCid buf = .ok car) {cid : Cid} {data : Bytes}
    (hget : car.get cid = some data) : Addressed H cid data := by
  unfold Car.parse at h
  obtain ⟨⟨hlen, n⟩, -, h⟩ := of_bind h
  obtain ⟨header, -, h⟩ := of_bind h
  cases hdecode : decodeIpld header with
  | none =>
    rw [hdecode] at h
    cases h
  | some hval =>
    rw [hdecode] at h
    obtain ⟨roots, -, h⟩ := of_bind h
    obtain ⟨⟨blocks, numBlocks⟩, hblocks, h⟩ := of_bind h
    obtain rfl := ok_inj h
    exact parseBlocks_addressed hlayout (fun _ _ hnone => by simp at hnone) hblocks cid data hget

/-- Reading a CAR on a machine is total, it stores what its identifiers name, and two CARs agree on the
identifiers they share. -/
theorem parse_total_and_addressed (H : Hashes) (decodeIpld : Bytes → Option Ipld)
    (readCid : Bytes → Option Cid) (hlayout : ReadsLayout readCid) :
    (∀ (w : ℕ) (buf : Bytes), buf.length < 2 ^ w → Usize.parse w H decodeIpld readCid buf ≠ .error .panic ∧
        ∀ car, Usize.parse w H decodeIpld readCid buf = .ok car ↔
          Car.parse H decodeIpld readCid buf = .ok car) ∧
    (∀ (w : ℕ) (buf : Bytes) (car : Car), buf.length < 2 ^ w →
      Usize.parse w H decodeIpld readCid buf = .ok car →
        ∀ cid data, car.get cid = some data → Addressed H cid data) ∧
    ∀ (w w' : ℕ) (buf buf' : Bytes) (car car' : Car), buf.length < 2 ^ w → buf'.length < 2 ^ w' →
      Usize.parse w H decodeIpld readCid buf = .ok car →
      Usize.parse w' H decodeIpld readCid buf' = .ok car' →
        ∀ cid data data', car.get cid = some data → car'.get cid = some data' →
          Set.InjOn H.sha256 {data, data'} → data = data' := by
  have hstored : ∀ (w : ℕ) (buf : Bytes) (car : Car), buf.length < 2 ^ w →
      Usize.parse w H decodeIpld readCid buf = .ok car →
        ∀ cid data, car.get cid = some data → Addressed H cid data := by
    intro w buf car hbuf h cid data hget
    exact parse_addressed hlayout (((Usize.parse_agrees H decodeIpld readCid hbuf).iff car).mp h) hget
  refine ⟨fun w buf hbuf => ?_, hstored, ?_⟩
  · have h := Usize.parse_agrees H decodeIpld readCid hbuf
    exact ⟨h.total, h.iff⟩
  · intro w w' buf buf' car car' hbuf hbuf' h h' cid data data' hget hget' hinj
    have hdigest := (hstored w buf car hbuf h cid data hget).digest
    rw [(hstored w' buf' car' hbuf' h' cid data' hget').digest] at hdigest
    exact hinj (by simp) (by simp) (FixedBytes.ext hdigest.symm)

namespace CarExample

def data : Bytes := [101, 104, 101, 108, 108, 111]

def digest : B256 := ⟨[203, 131, 85, 147, 228, 250, 54, 51, 204, 151, 31, 203, 209, 235, 8, 12, 163, 34,
  37, 130, 32, 84, 142, 183, 8, 123, 234, 248, 239, 109, 127, 244], rfl⟩

def cid : Cid := ⟨1, DAG_CBOR, SHA2_256, digest.bytes⟩

def block : Bytes := [1, 0x71, 0x12, 0x20] ++ digest.bytes ++ data

def header : Bytes :=
  [162, 101, 114, 111, 111, 116, 115, 129, 216, 42, 88, 37, 0, 1, 0x71, 0x12, 0x20] ++ digest.bytes ++
    [103, 118, 101, 114, 115, 105, 111, 110, 1]

def car : Bytes := [58] ++ header ++ [42] ++ block

def hashes : Hashes := ⟨fun _ => 0, fun s => if s = data then digest else 0⟩

def decodeIpld (s : Bytes) : Option Ipld :=
  if s = header then some (.map [(utf8 "roots", .list [.link cid]), (utf8 "version", .integer 1)])
  else none

def readCid (s : Bytes) : Option Cid := if s = block then some cid else none

theorem readsLayout : ReadsLayout readCid := by
  intro s c hread codec mhcode mhsize a b d e hver hcodec hcode hsize
  unfold readCid at hread
  by_cases hs : s = block
  · rw [if_pos hs, Option.some_inj] at hread
    subst hs hread
    have hver' : readUvarint block = .ok (1, 1) := by decide +kernel
    obtain rfl := (Prod.mk.inj (ok_inj (hver'.symm.trans hver))).2
    have hcodec' : readUvarint (block.drop 1) = .ok (0x71, 1) := by decide +kernel
    obtain ⟨rfl, rfl⟩ := Prod.mk.inj (ok_inj (hcodec'.symm.trans hcodec))
    have hcode' : readUvarint (block.drop (1 + 1)) = .ok (0x12, 1) := by decide +kernel
    obtain ⟨rfl, rfl⟩ := Prod.mk.inj (ok_inj (hcode'.symm.trans hcode))
    have hsize' : readUvarint (block.drop (1 + 1 + 1)) = .ok (0x20, 1) := by decide +kernel
    obtain ⟨rfl, rfl⟩ := Prod.mk.inj (ok_inj (hsize'.symm.trans hsize))
    decide +kernel
  · rw [if_neg hs] at hread
    cases hread

end CarExample

open CarExample in
/-- A CAR with one block, read on a machine with 32-bit words. -/
theorem parse_total_and_addressed_hello :
    ∃ c, Usize.parse 32 hashes decodeIpld readCid car = .ok c ∧ c.get cid = some data ∧
      Addressed hashes cid data := by
  have h := parse_total_and_addressed hashes decodeIpld readCid readsLayout
  have hparse : (Usize.parse 32 hashes decodeIpld readCid car).toOption.bind (fun c => c.get cid) =
      some data := by
    decide +kernel
  obtain ⟨c, hc, hget⟩ := Option.bind_eq_some_iff.mp hparse
  have hok := toOption_eq_some.mp hc
  exact ⟨c, hok, hget, h.2.1 32 car c (by decide) hok cid data hget⟩

end Trustgraphs.Carset
