import Trustgraphs.Lib.Bytes
import Trustgraphs.Lib.Checked

/-!
# ABI words and hashes (`zk-core/src/words.rs`, `zk-core/src/fold.rs`)

Every preimage that the programs share with the contracts is a concatenation of 32-byte big-endian
words. The two hash functions come from outside the repository and are a parameter `H`; what a result
assumes of them it assumes of the strings it hashes (`CollisionFree`).
-/

namespace Trustgraphs

abbrev Address := FixedBytes 20

abbrev B256 := FixedBytes 32

/-! What maps and sets of addresses and of hashes need of their order is found under a name of its own. -/

instance (priority := 1100) Address.transCmp :
    Std.TransCmp (compare : Address → Address → Ordering) := inferInstance

instance (priority := 1100) Address.lawfulBEq : LawfulBEq Address := inferInstance

instance (priority := 1100) B256.transCmp : Std.TransCmp (compare : B256 → B256 → Ordering) := inferInstance

instance (priority := 1100) B256.lawfulBEq : LawfulBEq B256 := inferInstance

/-- The two hash functions, taken as parameters. -/
structure Hashes where
  keccak256 : Bytes → B256
  sha256 : Bytes → B256

/-- On the strings `S` the hash has no collision and never is zero. -/
structure CollisionFree (hash : Bytes → B256) (S : List Bytes) : Prop where
  inj : ∀ s ∈ S, ∀ t ∈ S, hash s = hash t → s = t
  ne_zero : ∀ s ∈ S, hash s ≠ 0

theorem CollisionFree.mono {hash : Bytes → B256} {S T : List Bytes}
    (h : CollisionFree hash T) (hST : ∀ s ∈ S, s ∈ T) : CollisionFree hash S where
  inj s hs t ht := h.inj s (hST s hs) t (hST t ht)
  ne_zero s hs := h.ne_zero s (hST s hs)

/-! ## Words -/

/-- A 32-byte word. -/
def wordU256 (x : U256) : Bytes := beBytes 32 x.toNat

/-- A 32-byte ABI word from a `u64`, padded on the left. -/
def wordU64 (x : UInt64) : Bytes := List.replicate 24 0 ++ beBytes 8 x.toNat

/-- A 32-byte ABI word from a `u32`, padded on the left. -/
def wordU32 (x : UInt32) : Bytes := List.replicate 28 0 ++ beBytes 4 x.toNat

/-- A 32-byte ABI word from a `u8`, in the last byte. -/
def wordU8 (x : UInt8) : Bytes := List.replicate 31 0 ++ [x]

/-- A 32-byte ABI word from an address, in the last 20 bytes. -/
def wordAddr (a : Address) : Bytes := List.replicate 12 0 ++ a.bytes

@[simp] theorem length_wordU256 (x : U256) : (wordU256 x).length = 32 := length_beBytes ..

@[simp] theorem length_wordU64 (x : UInt64) : (wordU64 x).length = 32 := by simp [wordU64]

@[simp] theorem length_wordU32 (x : UInt32) : (wordU32 x).length = 32 := by simp [wordU32]

@[simp] theorem length_wordU8 (x : UInt8) : (wordU8 x).length = 32 := by simp [wordU8]

@[simp] theorem length_wordAddr (a : Address) : (wordAddr a).length = 32 := by simp [wordAddr]

@[simp]
theorem wordU256_inj {x y : U256} : wordU256 x = wordU256 y ↔ x = y := by
  refine ⟨fun h => ?_, fun h => h ▸ rfl⟩
  exact BitVec.eq_of_toNat_eq (beBytes_injective x.isLt y.isLt h)

@[simp]
theorem wordU64_inj {x y : UInt64} : wordU64 x = wordU64 y ↔ x = y := by
  refine ⟨fun h => ?_, fun h => h ▸ rfl⟩
  have h8 := List.append_cancel_left h
  exact UInt64.toNat_inj.mp (beBytes_injective x.toNat_lt y.toNat_lt h8)

@[simp]
theorem wordU32_inj {x y : UInt32} : wordU32 x = wordU32 y ↔ x = y := by
  refine ⟨fun h => ?_, fun h => h ▸ rfl⟩
  have h4 := List.append_cancel_left h
  exact UInt32.toNat_inj.mp (beBytes_injective x.toNat_lt y.toNat_lt h4)

@[simp]
theorem wordU8_inj {x y : UInt8} : wordU8 x = wordU8 y ↔ x = y := by simp [wordU8]

@[simp]
theorem wordAddr_inj {a b : Address} : wordAddr a = wordAddr b ↔ a = b := by simp [wordAddr]

theorem ofNat_toNat_inj {s t : UInt64} (h : (BitVec.ofNat 256 s.toNat : U256) =
    BitVec.ofNat 256 t.toNat) : s = t := by
  have hn := congrArg BitVec.toNat h
  have hs : s.toNat < 2 ^ 256 := s.toNat_lt.trans (by norm_num)
  have ht : t.toNat < 2 ^ 256 := t.toNat_lt.trans (by norm_num)
  rw [BitVec.toNat_ofNat, BitVec.toNat_ofNat, Nat.mod_eq_of_lt hs, Nat.mod_eq_of_lt ht] at hn
  exact UInt64.toNat_inj.mp hn

/-! ## The accumulator fold -/

/-- The preimage of a fold: `abi.encode(bytes32 acc, bytes32 leaf)`. -/
def foldPreimage (prev leaf : B256) : Bytes := prev.bytes ++ leaf.bytes

/-- Fold a leaf into the running accumulator. -/
def fold (H : Hashes) (prev leaf : B256) : B256 := H.keccak256 (foldPreimage prev leaf)

@[simp]
theorem foldPreimage_inj {p q l m : B256} : foldPreimage p l = foldPreimage q m ↔ p = q ∧ l = m := by
  refine ⟨fun h => ?_, fun h => by rw [h.1, h.2]⟩
  obtain ⟨hp, hl⟩ := List.append_inj h (by simp)
  exact ⟨FixedBytes.bytes_inj.mp hp, FixedBytes.bytes_inj.mp hl⟩

end Trustgraphs
