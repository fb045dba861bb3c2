import Trustgraphs.Lib.Checked

/-!
# Fixed-point helpers (`zk-core/src/fixed.rs`)

All arithmetic is integer at a scale `S`. A product is taken in 512 bits, so only the quotient can be
out of range; then, and on division by zero, the source panics, which is `none` here.
-/

namespace Trustgraphs

def mulDiv (a b d : U256) : Option U256 := Checked.mulDiv a b d

/-- `a * b / S`, the fixed-point multiplication. -/
def fpMul (a b scale : U256) : Option U256 := mulDiv a b scale

/-- `a * S / b`, the fixed-point division. -/
def fpDiv (a b scale : U256) : Option U256 := mulDiv a scale b

/-- A number divided by a nonzero count. The count is a `usize`, which widens without loss. -/
def divCount (a : U256) (n : Nat) : U256 := BitVec.ofNat 256 (a.toNat / n)

@[simp]
theorem toNat_divCount (a : U256) (n : Nat) : (divCount a n).toNat = a.toNat / n := by
  have h := a.isLt
  rw [divCount, BitVec.toNat_ofNat, Nat.mod_eq_of_lt (lt_of_le_of_lt (Nat.div_le_self _ _) h)]

theorem fpMul_eq_some {a b s q : U256} : fpMul a b s = some q ↔ s ≠ 0 ∧ q.toNat = a.toNat * b.toNat / s.toNat :=
  Checked.mulDiv_eq_some

theorem fpDiv_eq_some {a b s q : U256} : fpDiv a b s = some q ↔ b ≠ 0 ∧ q.toNat = a.toNat * s.toNat / b.toNat :=
  Checked.mulDiv_eq_some

theorem U256.toNat_pos {a : U256} : 0 < a.toNat ↔ a ≠ 0 := by
  rw [Nat.pos_iff_ne_zero, ne_eq, ne_eq, BitVec.toNat_eq]
  rfl

theorem fpMul_isSome {a b s : U256} (hs : s ≠ 0) (hb : b.toNat ≤ s.toNat) :
    ∃ q, fpMul a b s = some q ∧ q.toNat = a.toNat * b.toNat / s.toNat := by
  refine Checked.mulDiv_isSome hs (lt_of_le_of_lt ?_ a.isLt)
  apply Nat.div_le_of_le_mul
  rw [Nat.mul_comm s.toNat]
  exact Nat.mul_le_mul_left _ hb

theorem fpDiv_isSome {a b s : U256} (hb : b ≠ 0) (ha : a.toNat ≤ b.toNat) :
    ∃ q, fpDiv a b s = some q ∧ q.toNat = a.toNat * s.toNat / b.toNat := by
  refine Checked.mulDiv_isSome hb (lt_of_le_of_lt ?_ s.isLt)
  exact Nat.div_le_of_le_mul (Nat.mul_le_mul_right _ ha)

end Trustgraphs
