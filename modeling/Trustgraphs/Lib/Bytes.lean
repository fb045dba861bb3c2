import Mathlib

/-!
# Byte strings

Bytes with their linear order, byte arrays of a fixed size, and the big-endian encoding of a natural
number in a given number of bytes. A hash preimage is a concatenation of such pieces; the lemmas here
are what makes the pieces recoverable from the whole.
-/

namespace Trustgraphs

/-- A byte buffer. -/
abbrev Bytes := List UInt8

open List

/-- The numeric order on bytes, on top of the instances that `UInt8` already has. -/
instance UInt8.instLinearOrder : LinearOrder UInt8 where
  le_refl := UInt8.le_refl
  le_trans := fun _ _ _ => UInt8.le_trans
  le_antisymm := fun _ _ => UInt8.le_antisymm
  le_total := UInt8.le_total
  lt_iff_le_not_ge := fun a b => by simp only [UInt8.lt_iff_toNat_lt, UInt8.le_iff_toNat_le]; omega
  toDecidableLE := inferInstance
  toDecidableLT := inferInstance
  toDecidableEq := inferInstance
  compare_eq_compareOfLessAndEq := fun _ _ => rfl

/-- What maps with byte strings as keys need of their order. -/
instance (priority := 1100) transCmp_bytes : Std.TransCmp (@compare Bytes LinearOrder.toOrd) := inferInstance

instance (priority := 1100) lawfulBEq_byte : LawfulBEq UInt8 := inferInstance

instance (priority := 1100) lawfulBEq_bytes : LawfulBEq Bytes := inferInstance

/-- The UTF-8 bytes of a string. -/
def utf8 (s : String) : Bytes := s.toByteArray.data.toList

/-- Byte strings of one length, as addresses and hashes are. -/
@[ext]
structure FixedBytes (n : Nat) where
  /-- The bytes, first to last. -/
  bytes : Bytes
  size : bytes.length = n

namespace FixedBytes

variable {n : Nat}

theorem bytes_injective : Function.Injective (bytes : FixedBytes n → Bytes) := fun _ _ h => FixedBytes.ext h

@[simp]
theorem bytes_inj {a b : FixedBytes n} : a.bytes = b.bytes ↔ a = b := bytes_injective.eq_iff

@[simp]
theorem length_bytes (a : FixedBytes n) : a.bytes.length = n := a.size

/-- Fixed-width bytes are ordered as the words they spell. -/
instance : LinearOrder (FixedBytes n) := LinearOrder.lift' bytes bytes_injective

/-- The bytes all equal to one. -/
def replicate (n : Nat) (b : UInt8) : FixedBytes n := ⟨List.replicate n b, length_replicate⟩

/-- The zero word. -/
def zero : FixedBytes n := ⟨List.replicate n 0, length_replicate⟩

instance : Zero (FixedBytes n) := ⟨zero⟩

instance : Inhabited (FixedBytes n) := ⟨zero⟩

/-- The array with the given bytes, when there are exactly `n` of them. -/
def ofSlice (n : Nat) (l : Bytes) : Option (FixedBytes n) := if h : l.length = n then some ⟨l, h⟩ else none

@[simp]
theorem ofSlice_eq_some {l : Bytes} {a : FixedBytes n} : ofSlice n l = some a ↔ l = a.bytes := by
  unfold ofSlice
  split
  · rename_i h
    rw [Option.some_inj]
    exact ⟨fun e => e ▸ rfl, fun e => FixedBytes.ext e⟩
  · rename_i h
    simp only [reduceCtorEq, false_iff]
    rintro rfl
    exact h a.size

end FixedBytes

/-! ## Big-endian numbers -/

/-- Big-endian digits, kept to the width. -/
def beBytes : Nat → Nat → Bytes
  | 0, _ => []
  | w + 1, n => beBytes w (n / 256) ++ [UInt8.ofNat n]

/-- The number that big-endian bytes spell. -/
def ofBeBytes (l : Bytes) : Nat := l.foldl (fun acc b => acc * 256 + b.toNat) 0

@[simp]
theorem length_beBytes (w n : Nat) : (beBytes w n).length = w := by
  induction w generalizing n with
  | zero => rfl
  | succ w ih => simp [beBytes, ih]

/-- A number as fixed-width bytes, cut to the width. -/
def FixedBytes.ofNat (n m : Nat) : FixedBytes n := ⟨beBytes n m, length_beBytes ..⟩

theorem ofBeBytes_append_singleton (l : Bytes) (b : UInt8) :
    ofBeBytes (l ++ [b]) = ofBeBytes l * 256 + b.toNat := by
  simp [ofBeBytes]

theorem ofBeBytes_beBytes (w n : Nat) : ofBeBytes (beBytes w n) = n % 256 ^ w := by
  induction w generalizing n with
  | zero => simp [beBytes, ofBeBytes, Nat.mod_one]
  | succ w ih =>
    rw [beBytes, ofBeBytes_append_singleton, ih, pow_succ', Nat.mod_mul]
    simp only [UInt8.toNat_ofNat']
    omega

theorem beBytes_injective {w m n : Nat} (hm : m < 256 ^ w) (hn : n < 256 ^ w)
    (h : beBytes w m = beBytes w n) : m = n := by
  have e := congrArg ofBeBytes h
  rwa [ofBeBytes_beBytes, ofBeBytes_beBytes, Nat.mod_eq_of_lt hm, Nat.mod_eq_of_lt hn] at e

theorem ofBeBytes_lt (l : Bytes) : ofBeBytes l < 256 ^ l.length := by
  induction l using List.reverseRecOn with
  | nil => simp [ofBeBytes]
  | append_singleton l b ih =>
    rw [ofBeBytes_append_singleton, length_append, length_singleton, pow_succ]
    have hb : b.toNat < 256 := b.toNat_lt
    omega

theorem beBytes_ofBeBytes (l : Bytes) : beBytes l.length (ofBeBytes l) = l := by
  induction l using List.reverseRecOn with
  | nil => rfl
  | append_singleton l b ih =>
    have hb : b.toNat < 256 := b.toNat_lt
    rw [length_append, length_singleton, beBytes, ofBeBytes_append_singleton]
    have hdiv : (ofBeBytes l * 256 + b.toNat) / 256 = ofBeBytes l := by omega
    rw [hdiv, ih]
    congr 2
    apply UInt8.toNat_inj.mp
    rw [UInt8.toNat_ofNat']
    omega

theorem ofBeBytes_injective {l m : Bytes} (hlen : l.length = m.length)
    (h : ofBeBytes l = ofBeBytes m) : l = m := by
  rw [← beBytes_ofBeBytes l, ← beBytes_ofBeBytes m, hlen, h]

theorem ofBeBytes_append (l m : Bytes) : ofBeBytes (l ++ m) = ofBeBytes l * 256 ^ m.length + ofBeBytes m := by
  induction m using List.reverseRecOn with
  | nil => simp [ofBeBytes]
  | append_singleton m b ih =>
    rw [← append_assoc, ofBeBytes_append_singleton, ih, ofBeBytes_append_singleton,
      length_append, length_singleton, pow_succ]
    ring

theorem ofBeBytes_replicate_zero_append (k : Nat) (l : Bytes) :
    ofBeBytes (List.replicate k 0 ++ l) = ofBeBytes l := by
  have hzero : ofBeBytes (List.replicate k 0) = 0 := by
    induction k with
    | zero => rfl
    | succ k ih =>
      rw [replicate_succ', ofBeBytes_append_singleton, ih]
      rfl
  rw [ofBeBytes_append, hzero, Nat.zero_mul, Nat.zero_add]

theorem beBytes_add_ofBeBytes (k : Nat) (l : Bytes) :
    beBytes (k + l.length) (ofBeBytes l) = List.replicate k 0 ++ l := by
  have h := beBytes_ofBeBytes (List.replicate k 0 ++ l)
  rwa [ofBeBytes_replicate_zero_append, length_append, length_replicate] at h

theorem ofBeBytes_lt_iff {l m : Bytes} (h : l.length = m.length) : ofBeBytes l < ofBeBytes m ↔ l < m := by
  induction l generalizing m with
  | nil =>
    obtain rfl := length_eq_zero_iff.mp h.symm
    simp
  | cons a l ih =>
    cases m with
    | nil => exact absurd h (by simp)
    | cons b m =>
      have hlen : l.length = m.length := Nat.succ.inj h
      have hl := ofBeBytes_lt l
      have hm := ofBeBytes_lt m
      have hsingle : ∀ c : UInt8, ofBeBytes [c] = c.toNat := by simp [ofBeBytes]
      have hcons : ∀ (c : UInt8) (n : Bytes), ofBeBytes (c :: n) = c.toNat * 256 ^ n.length + ofBeBytes n := by
        intro c n
        rw [← singleton_append, ofBeBytes_append, hsingle]
      rw [hcons, hcons, hlen, cons_lt_cons_iff, ← ih hlen]
      rw [hlen] at hl
      rcases lt_trichotomy a.toNat b.toNat with hab | hab | hab
      · have hmul : (a.toNat + 1) * 256 ^ m.length ≤ b.toNat * 256 ^ m.length :=
          Nat.mul_le_mul_right _ hab
        rw [Nat.add_mul] at hmul
        exact iff_of_true (by omega) (Or.inl (UInt8.lt_iff_toNat_lt.mpr hab))
      · obtain rfl := UInt8.toNat_inj.mp hab
        constructor
        · intro hlt
          exact Or.inr ⟨rfl, by omega⟩
        · rintro (hlt | ⟨-, hlt⟩)
          · exact absurd hlt (lt_irrefl a)
          · omega
      · have hmul : (b.toNat + 1) * 256 ^ m.length ≤ a.toNat * 256 ^ m.length :=
          Nat.mul_le_mul_right _ hab
        rw [Nat.add_mul] at hmul
        refine iff_of_false (by omega) ?_
        rintro (hlt | ⟨rfl, -⟩)
        · exact absurd (UInt8.lt_iff_toNat_lt.mp hlt) (by omega)
        · omega

end Trustgraphs
