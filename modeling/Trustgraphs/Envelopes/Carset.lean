import Trustgraphs.Lib.BTree
import Trustgraphs.Lib.Outcome
import Trustgraphs.ZkCore.Words

/-!
# CAR files (`envelopes/src/atproto/carset.rs`)

The dag-cbor decoder and the CID reader are parameters: they are those of `serde_ipld_dagcbor` and of
the `cid` crate.
-/

/-!
## The IPLD data model

`Cid` and `Ipld` as the `ipld_core` crate has them. Strings are their UTF-8 bytes.
-/

namespace Trustgraphs

/-- A content identifier, by its codec and its hash. -/
@[ext]
structure Cid where
  /-- 0 or 1. -/
  version : Nat
  codec : UInt64
  /-- The multihash code. -/
  hashCode : UInt64
  /-- The multihash digest. -/
  digest : Bytes
deriving DecidableEq

namespace Cid

/-- The key by which identifiers are ordered. -/
def key (c : Cid) : ℕ ×ₗ ℕ ×ₗ ℕ ×ₗ ℕ ×ₗ Bytes :=
  toLex (c.version, toLex (c.codec.toNat, toLex (c.hashCode.toNat, toLex (c.digest.length, c.digest))))

theorem key_injective : Function.Injective key := by
  intro c d h
  obtain ⟨hv, h⟩ := Prod.mk.inj (toLex.injective h)
  obtain ⟨hc, h⟩ := Prod.mk.inj (toLex.injective h)
  obtain ⟨hh, h⟩ := Prod.mk.inj (toLex.injective h)
  obtain ⟨-, hd⟩ := Prod.mk.inj (toLex.injective h)
  exact Cid.ext hv (UInt64.toNat_inj.mp hc) (UInt64.toNat_inj.mp hh) hd

instance : LinearOrder Cid := LinearOrder.lift' key key_injective

end Cid

/-- A value of the DAG-CBOR data model. -/
inductive Ipld where
  | null
  | bool (b : Bool)
  | integer (i : Int)
  /-- The bits of the float. -/
  | float (bits : UInt64)
  | string (s : Bytes)
  | bytes (b : Bytes)
  | list (l : List Ipld)
  /-- The entries in ascending key order, each key once. -/
  | map (m : List (Bytes × Ipld))
  | link (c : Cid)

def Ipld.get (m : List (Bytes × Ipld)) (key : Bytes) : Option Ipld :=
  (m.find? fun e => e.1 == key).map Prod.snd

end Trustgraphs

/-! ## The reader -/

namespace Trustgraphs

namespace Carset

def DAG_CBOR : UInt64 := 0x71

def RAW : UInt64 := 0x55

def SHA2_256 : UInt64 := 0x12

inductive CarError where
  | varintTooLong
  | varintTruncated
  | truncated (need len : Nat)
  | badHeader
  | noRootsList
  | headerNotMap
  | nonCidV1 (version : UInt64)
  | badCid
  | unsupportedProfile (cid : Cid)
  | contentMismatch (cid : Cid)
deriving DecidableEq

/-- The loop of `readUvarint` from byte `i` on. -/
def readUvarintFrom : (val : UInt64) → (shift i : Nat) → Bytes → Except CarError (UInt64 × Nat)
  | _, _, _, [] => .error .varintTruncated
  | val, shift, i, b :: buf =>
    if shift ≥ 64 then .error .varintTooLong
    else
      let val := val ||| ((b &&& 0x7f).toUInt64 <<< UInt64.ofNat shift)
      if b &&& 0x80 = 0 then .ok (val, i + 1) else readUvarintFrom val (shift + 7) (i + 1) buf

/-- Read an unsigned LEB128 number: its value, and how many bytes it took. -/
def readUvarint (buf : Bytes) : Except CarError (UInt64 × Nat) := readUvarintFrom 0 0 0 buf

def checkedSlice (buf : Bytes) (start : Nat) (len : UInt64) : Except CarError Bytes :=
  if start + len.toNat > buf.length then .error (.truncated (start + len.toNat) buf.length)
  else .ok ((buf.drop start).take len.toNat)

def checkedTail (buf : Bytes) (start : Nat) : Except CarError Bytes :=
  if start > buf.length then .error (.truncated start buf.length) else .ok (buf.drop start)

end Carset

/-- A parsed archive: its roots and its blocks. -/
structure Car where
  roots : List Cid
  blocks : BTreeMap Cid Bytes
  numBlocks : Nat

/-- The block of a content identifier. -/
def Car.get (car : Car) (cid : Cid) : Option Bytes := car.blocks[cid]?

namespace Carset

/-- The identifier fields that a block starts with, as the parser reads them. -/
structure BlockHead where
  codec : UInt64
  hashCode : UInt64
  /-- The stored digest. -/
  stored : Bytes
  /-- The size of the multihash. -/
  hashSize : UInt64
  data : Bytes

/-- Read version, codec, multihash and data of a block. The identifier is read in between, once more
and by `readCid`. -/
def readBlock (readCid : Bytes → Option Cid) (block : Bytes) : Except CarError (Cid × BlockHead) := do
  let (ver, a) ← readUvarint block
  if ver ≠ 1 then .error (.nonCidV1 ver)
  else
    let (codec, b) ← readUvarint (← checkedTail block a)
    let (mhcode, c) ← readUvarint (← checkedTail block (a + b))
    let (mhsize, d) ← readUvarint (← checkedTail block (a + b + c))
    let digestStart := a + b + c + d
    let stored ← checkedSlice block digestStart mhsize
    match readCid block with
    | none => .error .badCid
    | some cid =>
      let data ← checkedTail block (digestStart + stored.length)
      .ok (cid, ⟨codec, mhcode, stored, mhsize, data⟩)

/-- A block has to be addressed by the SHA-256 of its bytes. -/
def checkBlock (H : Hashes) (cid : Cid) (h : BlockHead) : Except CarError Unit :=
  if h.hashCode ≠ SHA2_256 ∨ h.hashSize ≠ 32 ∨ ¬ (h.codec = DAG_CBOR ∨ h.codec = RAW) then
    .error (.unsupportedProfile cid)
  else if (H.sha256 h.data).bytes ≠ h.stored then .error (.contentMismatch cid)
  else .ok ()

/-- The blocks of a buffer from `off` on. A block takes at least the byte of its length, so `fuel`
bounds the number of blocks when it is the number of bytes left. -/
def parseBlocks (H : Hashes) (readCid : Bytes → Option Cid) (buf : Bytes) :
    (fuel off : Nat) → BTreeMap Cid Bytes → Nat → Except CarError (BTreeMap Cid Bytes × Nat)
  | 0, _, blocks, numBlocks => .ok (blocks, numBlocks)
  | fuel + 1, off, blocks, numBlocks =>
    if off < buf.length then do
      let (blen, n) ← readUvarint (← checkedTail buf off)
      let block ← checkedSlice buf (off + n) blen
      let (cid, head) ← readBlock readCid block
      checkBlock H cid head
      parseBlocks H readCid buf fuel (off + n + block.length) (blocks.insert cid head.data) (numBlocks + 1)
    else .ok (blocks, numBlocks)

def links (l : List Ipld) : List Cid :=
  l.filterMap fun x => match x with
    | .link c => some c
    | _ => none

/-- The roots that a header lists. -/
def headerRoots : Ipld → Except CarError (List Cid)
  | .map m =>
    match Ipld.get m (utf8 "roots") with
    | some (.list l) => .ok (links l)
    | _ => .error .noRootsList
  | _ => .error .headerNotMap

end Carset

open Carset in
/-- An archive whose blocks all match their identifiers. -/
def Car.parse (H : Hashes) (decodeIpld : Bytes → Option Ipld) (readCid : Bytes → Option Cid)
    (buf : Bytes) : Except CarError Car := do
  let (hlen, n) ← readUvarint buf
  let header ← checkedSlice buf n hlen
  match decodeIpld header with
  | none => .error .badHeader
  | some hval =>
    let roots ← headerRoots hval
    let off := n + header.length
    let (blocks, numBlocks) ← parseBlocks H readCid buf (buf.length - off) off ∅ 0
    .ok ⟨roots, blocks, numBlocks⟩

end Trustgraphs

/-!
# CAR files on a machine (`envelopes/src/atproto/carset.rs`)

The reader once more, with the arithmetic of a machine whose `usize` has `w` bits: a sum that does not fit,
a shift that is too wide and a range out of bounds panic, and a loop that does not end is counted as one
too. `Carset` has the same reader over unbounded offsets.
-/

namespace Trustgraphs.Carset.Usize

open Outcome

inductive UsizeError where
  | car (e : CarError)
  | lengthOverflowsUsize
  | lengthOverflows
deriving DecidableEq

/-- A computation on words of `w` bits. -/
abbrev Checked (α : Type) := Except (Abort UsizeError) α

def fail {α : Type} (e : CarError) : Checked α := .error (.error (.car e))

def lift {α : Type} : Except CarError α → Checked α
  | .ok a => .ok a
  | .error e => fail e

def add (w a b : ℕ) : Checked ℕ := if a + b < 2 ^ w then .ok (a + b) else .error .panic

def shl (a : UInt64) (shift : ℕ) : Checked UInt64 :=
  if shift < 64 then .ok (a <<< UInt64.ofNat shift) else .error .panic

def slice (buf : Bytes) (start stop : ℕ) : Checked Bytes :=
  if start ≤ stop ∧ stop ≤ buf.length then .ok ((buf.drop start).take (stop - start)) else .error .panic

/-- The loop of `readUvarint` from byte `i` on; the shift is a `u32`. -/
def readUvarintFrom (w : ℕ) : (val : UInt64) → (shift i : ℕ) → Bytes → Checked (UInt64 × ℕ)
  | _, _, _, [] => fail .varintTruncated
  | val, shift, i, b :: buf =>
    if shift ≥ 64 then fail .varintTooLong
    else do
      let bits ← shl (b &&& 0x7f).toUInt64 shift
      let val := val ||| bits
      let next ← add w i 1
      if b &&& 0x80 = 0 then .ok (val, next)
      else do
        let shift ← add 32 shift 7
        readUvarintFrom w val shift next buf

/-- A length prefix and where it ends. -/
def readUvarint (w : ℕ) (buf : Bytes) : Checked (UInt64 × ℕ) := readUvarintFrom w 0 0 0 buf

def checkedSlice (w : ℕ) (buf : Bytes) (start : ℕ) (len : UInt64) : Checked Bytes :=
  if ¬ len.toNat < 2 ^ w then .error (.error .lengthOverflowsUsize)
  else if ¬ start + len.toNat < 2 ^ w then .error (.error .lengthOverflows)
  else if start + len.toNat > buf.length then fail (.truncated (start + len.toNat) buf.length)
  else slice buf start (start + len.toNat)

def checkedTail (buf : Bytes) (start : ℕ) : Checked Bytes :=
  if start > buf.length then fail (.truncated start buf.length) else slice buf start buf.length

/-- Read version, codec, multihash and data of a block. -/
def readBlock (w : ℕ) (readCid : Bytes → Option Cid) (block : Bytes) : Checked (Cid × BlockHead) := do
  let (ver, a) ← readUvarint w block
  if ver ≠ 1 then fail (.nonCidV1 ver)
  else
    let (codec, b) ← readUvarint w (← checkedTail block a)
    let ab ← add w a b
    let (mhcode, c) ← readUvarint w (← checkedTail block ab)
    let abc ← add w ab c
    let (mhsize, d) ← readUvarint w (← checkedTail block abc)
    let digestStart ← add w abc d
    let stored ← checkedSlice w block digestStart mhsize
    let cidLen ← add w digestStart stored.length
    match readCid block with
    | none => fail .badCid
    | some cid =>
      let data ← checkedTail block cidLen
      .ok (cid, ⟨codec, mhcode, stored, mhsize, data⟩)

/-- The blocks of a buffer from `off` on, in at most `fuel` rounds. -/
def parseBlocks (w : ℕ) (H : Hashes) (readCid : Bytes → Option Cid) (buf : Bytes) :
    (fuel off : ℕ) → BTreeMap Cid Bytes → ℕ → Checked (BTreeMap Cid Bytes × ℕ)
  | 0, off, blocks, numBlocks => if off < buf.length then .error .panic else .ok (blocks, numBlocks)
  | fuel + 1, off, blocks, numBlocks =>
    if off < buf.length then do
      let (blen, n) ← readUvarint w (← checkedTail buf off)
      let start ← add w off n
      let block ← checkedSlice w buf start blen
      let next ← add w start block.length
      let (cid, head) ← readBlock w readCid block
      lift (checkBlock H cid head)
      let count ← add w numBlocks 1
      parseBlocks w H readCid buf fuel next (blocks.insert cid head.data) count
    else .ok (blocks, numBlocks)

/-- Parse a CAR of version 1 on a machine whose `usize` has `w` bits. -/
def parse (w : ℕ) (H : Hashes) (decodeIpld : Bytes → Option Ipld)
    (readCid : Bytes → Option Cid) (buf : Bytes) : Checked Car := do
  let (hlen, n) ← readUvarint w (← checkedTail buf 0)
  let start ← add w 0 n
  let header ← checkedSlice w buf start hlen
  let off ← add w start header.length
  match decodeIpld header with
  | none => fail .badHeader
  | some hval =>
    let roots ← lift (headerRoots hval)
    let (blocks, numBlocks) ← parseBlocks w H readCid buf buf.length off ∅ 0
    .ok ⟨roots, blocks, numBlocks⟩

end Trustgraphs.Carset.Usize
