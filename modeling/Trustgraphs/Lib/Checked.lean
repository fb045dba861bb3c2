import Mathlib

/-!
# Checked fixed-width arithmetic

Operations on `BitVec w` that return `none` where the value does not fit. Every operation is
characterised by the equation its result satisfies on natural numbers, so a caller reasons about `Nat`
and never about bits. A result exists as soon as the number in question is in range
(`exists_toNat`).
-/

namespace Trustgraphs

open Option List BitVec UInt64

/-- The unsigned word of the virtual machine. -/
abbrev U256 := BitVec 256

namespace Checked

variable {w : Nat}

variable {n : Nat} {a b c : BitVec w} {l : List (BitVec w)}

theorem exists_toNat (h : n < 2 ^ w) : ∃ a : BitVec w, a.toNat = n :=
  ⟨BitVec.ofNat w n, by rw [BitVec.toNat_ofNat, Nat.mod_eq_of_lt h]⟩

/-- The number as a word, when it fits. -/
def ofNat (w n : Nat) : Option (BitVec w) := if n < 2 ^ w then some (BitVec.ofNat w n) else none

/-- The product, when it fits. -/
def mul (a b : BitVec w) : Option (BitVec w) := ofNat w (a.toNat * b.toNat)

/-- The sum, when it fits. -/
def add (a b : BitVec w) : Option (BitVec w) := if a.toNat + b.toNat < 2 ^ w then some (a + b) else none

/-- The difference, when it is not negative. -/
def sub (a b : BitVec w) : Option (BitVec w) := if b.toNat ≤ a.toNat then some (a - b) else none

/-- `a * b / d` with an intermediate wide enough for the product, `none` when `d` is zero or the
quotient does not fit. -/
def mulDiv (a b d : BitVec w) : Option (BitVec w) :=
  if d = 0 then none
  else if a.toNat * b.toNat / d.toNat < 2 ^ w then some (BitVec.ofNat w (a.toNat * b.toNat / d.toNat))
  else none

/-- The sum of a list, `none` as soon as a partial sum overflows. -/
def sum (l : List (BitVec w)) : Option (BitVec w) := l.foldlM add 0

theorem ofNat_eq_some : ofNat w n = some a ↔ a.toNat = n := by
  unfold ofNat
  have ha := a.isLt
  split
  · rename_i h
    rw [some_inj]
    constructor
    · rintro rfl
      rw [BitVec.toNat_ofNat, Nat.mod_eq_of_lt h]
    · intro e
      apply eq_of_toNat_eq
      rw [BitVec.toNat_ofNat, Nat.mod_eq_of_lt h, e]
  · simp only [reduceCtorEq, false_iff]
    omega

theorem mul_eq_some : mul a b = some c ↔ c.toNat = a.toNat * b.toNat := ofNat_eq_some

theorem add_eq_some : add a b = some c ↔ c.toNat = a.toNat + b.toNat := by
  unfold add
  have hc := c.isLt
  split
  · rename_i h
    rw [some_inj]
    constructor
    · rintro rfl
      rw [BitVec.toNat_add, Nat.mod_eq_of_lt h]
    · intro e
      apply eq_of_toNat_eq
      rw [BitVec.toNat_add, Nat.mod_eq_of_lt h, e]
  · simp only [reduceCtorEq, false_iff]
    omega

theorem sub_eq_some : sub a b = some c ↔ a.toNat = b.toNat + c.toNat := by
  unfold sub
  split
  · rename_i h
    have e : (a - b).toNat = a.toNat - b.toNat := BitVec.toNat_sub_of_le (by rwa [le_def])
    rw [some_inj]
    constructor
    · rintro rfl
      omega
    · intro hc
      apply eq_of_toNat_eq
      omega
  · simp only [reduceCtorEq, false_iff]
    omega

theorem mulDiv_eq_some {d q : BitVec w} :
    mulDiv a b d = some q ↔ d ≠ 0 ∧ q.toNat = a.toNat * b.toNat / d.toNat := by
  unfold mulDiv
  have hq := q.isLt
  by_cases hd : d = 0
  · simp [hd]
  · simp only [hd, if_false, ne_eq, not_false_eq_true, true_and]
    split
    · rename_i h
      rw [some_inj]
      constructor
      · rintro rfl
        rw [BitVec.toNat_ofNat, Nat.mod_eq_of_lt h]
      · intro e
        apply eq_of_toNat_eq
        rw [BitVec.toNat_ofNat, Nat.mod_eq_of_lt h, e]
    · simp only [reduceCtorEq, false_iff]
      omega

theorem foldlM_add_eq_some {s : BitVec w} :
    l.foldlM add a = some s ↔ s.toNat = a.toNat + (l.map BitVec.toNat).sum := by
  induction l generalizing a with
  | nil =>
    simp only [foldlM_nil, map_nil, sum_nil, Nat.add_zero]
    exact ⟨fun h => by rw [some_inj.mp h], fun h => by rw [eq_of_toNat_eq h]; rfl⟩
  | cons b l ih =>
    simp only [foldlM_cons, bind_eq_bind, bind_eq_some_iff, add_eq_some, ih, map_cons, sum_cons]
    constructor
    · rintro ⟨c, hc, hs⟩
      omega
    · intro hs
      have hlt := s.isLt
      obtain ⟨c, hc⟩ := exists_toNat (w := w) (n := a.toNat + b.toNat) (by omega)
      exact ⟨c, hc, by omega⟩

theorem sum_eq_some {s : BitVec w} : sum l = some s ↔ s.toNat = (l.map BitVec.toNat).sum := by
  rw [sum, foldlM_add_eq_some]
  simp

theorem add_isSome (h : a.toNat + b.toNat < 2 ^ w) : ∃ c, add a b = some c ∧ c.toNat = a.toNat + b.toNat :=
  (exists_toNat h).imp fun _ hc => ⟨add_eq_some.mpr hc, hc⟩

theorem sub_isSome (h : b.toNat ≤ a.toNat) : ∃ c, sub a b = some c ∧ c.toNat = a.toNat - b.toNat := by
  have ha := a.isLt
  obtain ⟨c, hc⟩ := exists_toNat (w := w) (n := a.toNat - b.toNat) (by omega)
  exact ⟨c, sub_eq_some.mpr (by omega), hc⟩

theorem mulDiv_isSome {d : BitVec w} (hd : d ≠ 0) (h : a.toNat * b.toNat / d.toNat < 2 ^ w) :
    ∃ q, mulDiv a b d = some q ∧ q.toNat = a.toNat * b.toNat / d.toNat :=
  (exists_toNat h).imp fun _ hq => ⟨mulDiv_eq_some.mpr ⟨hd, hq⟩, hq⟩

theorem sum_isSome (h : (l.map BitVec.toNat).sum < 2 ^ w) :
    ∃ s, sum l = some s ∧ s.toNat = (l.map BitVec.toNat).sum :=
  (exists_toNat h).imp fun _ hs => ⟨sum_eq_some.mpr hs, hs⟩

/-! ## Words of 64 bits -/

/-- A number as a `u64`, `none` when it is out of range. -/
def u64 (n : Nat) : Option UInt64 := if n < 2 ^ 64 then some (UInt64.ofNat n) else none

/-- `checked_add` of 64-bit words. -/
def add64 (a b : UInt64) : Option UInt64 := u64 (a.toNat + b.toNat)

/-- `checked_mul` of 64-bit words. -/
def mul64 (a b : UInt64) : Option UInt64 := u64 (a.toNat * b.toNat)

/-- `checked_sub` of 64-bit words. -/
def sub64 (a b : UInt64) : Option UInt64 := if b ≤ a then some (a - b) else none

theorem u64_eq_some {a : UInt64} : u64 n = some a ↔ a.toNat = n := by
  unfold u64
  by_cases h : n < 2 ^ 64
  · have hn : (UInt64.ofNat n).toNat = n := toNat_ofNat_of_lt' h
    rw [if_pos h, some_inj, ← UInt64.toNat_inj, hn, eq_comm]
  · rw [if_neg h]
    have ha := a.toNat_lt
    exact iff_of_false (by simp) (by omega)

theorem add64_eq_some {a b c : UInt64} : add64 a b = some c ↔ c.toNat = a.toNat + b.toNat := u64_eq_some

theorem mul64_eq_some {a b c : UInt64} : mul64 a b = some c ↔ c.toNat = a.toNat * b.toNat := u64_eq_some

theorem sub64_eq_some {a b c : UInt64} : sub64 a b = some c ↔ a.toNat = b.toNat + c.toNat := by
  unfold sub64
  by_cases h : b ≤ a
  · have hle := le_iff_toNat_le.mp h
    rw [if_pos h, some_inj, ← UInt64.toNat_inj, UInt64.toNat_sub_of_le _ _ h]
    omega
  · rw [if_neg h]
    rw [le_iff_toNat_le] at h
    exact iff_of_false (by simp) (by omega)

theorem exists_toNat64 (h : n < 2 ^ 64) : ∃ a : UInt64, a.toNat = n :=
  ⟨UInt64.ofNat n, toNat_ofNat_of_lt' h⟩

theorem foldlM_add64_eq_some {l : List UInt64} {a s : UInt64} :
    l.foldlM add64 a = some s ↔ s.toNat = a.toNat + (l.map UInt64.toNat).sum := by
  induction l generalizing a with
  | nil =>
    rw [foldlM_nil, map_nil, sum_nil, Nat.add_zero, UInt64.toNat_inj]
    exact some_inj.trans eq_comm
  | cons b l ih =>
    rw [foldlM_cons, map_cons, sum_cons]
    constructor
    · intro h
      obtain ⟨c, hc, h⟩ := bind_eq_some_iff.mp h
      rw [ih.mp h, add64_eq_some.mp hc, Nat.add_assoc]
    · intro h
      have hs := s.toNat_lt
      obtain ⟨c, hc⟩ := exists_toNat64 (n := a.toNat + b.toNat) (by omega)
      exact bind_eq_some_iff.mpr ⟨c, add64_eq_some.mpr hc, ih.mpr (by omega)⟩

end Checked

end Trustgraphs
