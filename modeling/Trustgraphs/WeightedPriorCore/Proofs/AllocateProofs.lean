import Trustgraphs.Lib.Hamilton
import Trustgraphs.WeightedPriorCore.Rank

/-!
# The allocations are Hamilton apportionments

The hand-written multiply-divide gives the quotient and the remainder (`mulDivRem_eq`), and both
allocation functions give the shares of `Hamilton.share`, the one by position and the other by
address.
-/

namespace Trustgraphs.WeightedPrior

open Outcome Checked Option UInt64 BitVec Finset

theorem orOverflow_eq_ok {α : Type} {o : Option α} {a : α} : orOverflow o = .ok a ↔ o = some a := by
  cases o with
  | none => simp [orOverflow, fail]
  | some b => simp [orOverflow]

theorem toNat_widen (a : UInt64) : (widen a).toNat = a.toNat := by
  have h := a.toNat_lt
  exact Nat.mod_eq_of_lt (h.trans (by norm_num))

/-- Both operands split at `10^9`. -/
theorem mulScaleRem_eq {numerator budget : UInt64} (hn : numerator ≤ SCALE) (hb : budget ≤ SCALE) :
    ∃ q r, mulScaleRem numerator budget = .ok (q, r) ∧ q.toNat = numerator.toNat * budget.toNat / SCALE.toNat ∧
      r.toNat = numerator.toNat * budget.toNat % SCALE.toNat := by
  have hscale : SCALE.toNat = 1000000000 * 1000000000 := by decide
  have hbase : BASE.toNat = 1000000000 := by decide
  rw [le_iff_toNat_le, hscale] at hn hb
  -- the halves of the operands
  obtain ⟨nh, hnh⟩ : ∃ nh, nh = numerator.toNat / 1000000000 := ⟨_, rfl⟩
  obtain ⟨nl, hnl⟩ : ∃ nl, nl = numerator.toNat % 1000000000 := ⟨_, rfl⟩
  obtain ⟨bh, hbh⟩ : ∃ bh, bh = budget.toNat / 1000000000 := ⟨_, rfl⟩
  obtain ⟨bl, hbl⟩ : ∃ bl, bl = budget.toNat % 1000000000 := ⟨_, rfl⟩
  have hnum : numerator.toNat = 1000000000 * nh + nl := by rw [hnh, hnl, Nat.div_add_mod]
  have hbud : budget.toNat = 1000000000 * bh + bl := by rw [hbh, hbl, Nat.div_add_mod]
  have hnhle : nh ≤ 1000000000 := by omega
  have hbhle : bh ≤ 1000000000 := by omega
  have hnllt : nl < 1000000000 := by omega
  have hbllt : bl < 1000000000 := by omega
  have h₁ : nh * bh ≤ 1000000000 * 1000000000 := Nat.mul_le_mul hnhle hbhle
  have h₂ : nh * bl ≤ 1000000000 * 1000000000 := Nat.mul_le_mul hnhle hbllt.le
  have h₃ : nl * bh ≤ 1000000000 * 1000000000 := Nat.mul_le_mul hnllt.le hbhle
  have h₄ : nl * bl ≤ 1000000000 * 1000000000 := Nat.mul_le_mul hnllt.le hbllt.le
  -- the partial products fit
  obtain ⟨high, hhigh⟩ := exists_toNat64 (n := nh * bh) (by omega)
  obtain ⟨left, hleft⟩ := exists_toNat64 (n := nh * bl) (by omega)
  obtain ⟨right, hright⟩ := exists_toNat64 (n := nl * bh) (by omega)
  obtain ⟨cross, hcross⟩ := exists_toNat64 (n := nh * bl + nl * bh) (by omega)
  obtain ⟨value, hvalue⟩ := exists_toNat64
    (n := (nh * bl + nl * bh) % 1000000000 * 1000000000) (by omega)
  obtain ⟨low, hlow⟩ := exists_toNat64 (n := nl * bl) (by omega)
  obtain ⟨tail, htail⟩ := exists_toNat64
    (n := (nh * bl + nl * bh) % 1000000000 * 1000000000 + nl * bl) (by omega)
  obtain ⟨sum, hsum⟩ := exists_toNat64 (n := nh * bh + (nh * bl + nl * bh) / 1000000000)
    (by omega)
  have hprod : numerator.toNat * budget.toNat =
      SCALE.toNat * (nh * bh + (nh * bl + nl * bh) / 1000000000) + tail.toNat := by
    have hdiv := Nat.div_add_mod (nh * bl + nl * bh) 1000000000
    rw [hnum, hbud, hscale, htail]
    calc (1000000000 * nh + nl) * (1000000000 * bh + bl) =
        1000000000 * 1000000000 * (nh * bh) + 1000000000 * (nh * bl + nl * bh) + nl * bl := by ring
      _ = 1000000000 * 1000000000 * (nh * bh) + 1000000000 * (1000000000 *
          ((nh * bl + nl * bh) / 1000000000) + (nh * bl + nl * bh) % 1000000000) + nl * bl := by rw [hdiv]
      _ = _ := by ring
  have hquot : numerator.toNat * budget.toNat / SCALE.toNat = sum.toNat + tail.toNat / SCALE.toNat := by
    rw [hprod, Nat.mul_add_div (by rw [hscale]; omega), hsum]
  have hqlt : sum.toNat + tail.toNat / SCALE.toNat < 2 ^ 64 := by
    rw [hsum, htail, hscale]
    omega
  obtain ⟨quotient, hquotient⟩ := exists_toNat64 hqlt
  refine ⟨quotient, tail % SCALE, ?_, hquotient.trans hquot.symm, ?_⟩
  · unfold mulScaleRem
    refine bind_eq_ok.mpr ⟨high, orOverflow_eq_ok.mpr (mul64_eq_some.mpr ?_),
      bind_eq_ok.mpr ⟨cross, orOverflow_eq_ok.mpr (bind_eq_some_iff.mpr
        ⟨left, mul64_eq_some.mpr ?_, bind_eq_some_iff.mpr
        ⟨right, mul64_eq_some.mpr ?_, add64_eq_some.mpr ?_⟩⟩),
      bind_eq_ok.mpr ⟨tail, orOverflow_eq_ok.mpr (bind_eq_some_iff.mpr
        ⟨value, mul64_eq_some.mpr ?_, bind_eq_some_iff.mpr
        ⟨low, mul64_eq_some.mpr ?_, add64_eq_some.mpr ?_⟩⟩),
      bind_eq_ok.mpr ⟨quotient, orOverflow_eq_ok.mpr (bind_eq_some_iff.mpr
        ⟨sum, add64_eq_some.mpr ?_, add64_eq_some.mpr ?_⟩), rfl⟩⟩⟩⟩
    · rw [UInt64.toNat_div, UInt64.toNat_div, hbase, hhigh, hnh, hbh]
    · rw [UInt64.toNat_div, UInt64.toNat_mod, hbase, hleft, hnh, hbl]
    · rw [UInt64.toNat_mod, UInt64.toNat_div, hbase, hright, hnl, hbh]
    · rw [hcross, hleft, hright]
    · rw [UInt64.toNat_mod, hbase, hvalue, hcross]
    · rw [UInt64.toNat_mod, UInt64.toNat_mod, hbase, hlow, hnl, hbl]
    · rw [htail, hvalue, hlow]
    · rw [UInt64.toNat_div, hbase, hsum, hhigh, hcross]
    · rw [UInt64.toNat_div, hquotient]
  · rw [UInt64.toNat_mod, hprod, Nat.mul_add_mod]

variable {k : ℕ} {denominator : U128} {l : List UInt64} {K : Type} {items : List (Address × UInt64)}

theorem toNat_bit (low : UInt64) (hk : k < 64) :
    (widen ((low >>> UInt64.ofNat k) &&& 1)).toNat = low.toNat / 2 ^ k % 2 := by
  have hto : (UInt64.ofNat k).toNat = k := UInt64.toNat_ofNat_of_lt' (hk.trans (by norm_num))
  rw [toNat_widen, UInt64.toNat_and, UInt64.toNat_shiftRight, hto, Nat.mod_eq_of_lt hk,
    Nat.shiftRight_eq_div_pow]
  exact Nat.and_two_pow_sub_one_eq_mod _ 1

/-- One bit of the division: the remainder is doubled, and the divisor taken off when it fits. -/
theorem divideBit_spec {low q q' : UInt64} {divisor r r' : U128} (hk : k < 64)
    (hd : divisor.toNat ≤ 2 ^ 64) (hr : r.toNat < divisor.toNat) (hq : 2 ^ (k + 1) ∣ q.toNat)
    (h : divideBit low divisor (q, r) k = (q', r')) :
    r'.toNat < divisor.toNat ∧ 2 ^ k ∣ q'.toNat ∧ q'.toNat * divisor.toNat + r'.toNat * 2 ^ k =
        q.toNat * divisor.toNat + (2 * r.toNat + low.toNat / 2 ^ k % 2) * 2 ^ k := by
  have hbit : low.toNat / 2 ^ k % 2 < 2 := Nat.mod_lt _ (by omega)
  have hto : (UInt64.ofNat k).toNat = k := toNat_ofNat_of_lt' (hk.trans (by norm_num))
  have hremainder : ((r <<< 1) ||| widen ((low >>> UInt64.ofNat k) &&& 1)).toNat =
      2 * r.toNat + low.toNat / 2 ^ k % 2 := by
    have hlt : r.toNat * 2 ^ 1 < 2 ^ 128 := by omega
    rw [BitVec.toNat_or, BitVec.toNat_shiftLeft, toNat_bit low hk, Nat.shiftLeft_eq,
      Nat.mod_eq_of_lt hlt, Nat.mul_comm]
    exact (Nat.two_pow_add_eq_or_of_lt (i := 1) hbit _).symm
  -- the bits of the quotient from `k` down are still zero
  obtain ⟨c, hc⟩ := hq
  have hpow : 2 ^ (k + 1) = 2 * 2 ^ k := by rw [pow_succ, Nat.mul_comm]
  have hquotient : (q ||| (1 <<< UInt64.ofNat k)).toNat = q.toNat + 2 ^ k := by
    have hlt : (2 : ℕ) ^ k < 2 ^ 64 := Nat.pow_lt_pow_right (by omega) hk
    have hone : ((1 : UInt64) <<< UInt64.ofNat k).toNat = 2 ^ k := by
      rw [UInt64.toNat_shiftLeft, hto, Nat.mod_eq_of_lt hk, Nat.shiftLeft_eq]
      show 1 * 2 ^ k % 2 ^ 64 = 2 ^ k
      rw [Nat.one_mul, Nat.mod_eq_of_lt hlt]
    rw [UInt64.toNat_or, hone, hc]
    have hstep : (2 : ℕ) ^ k < 2 ^ (k + 1) := Nat.pow_lt_pow_right (by omega) (by omega)
    exact (Nat.two_pow_add_eq_or_of_lt hstep _).symm
  have hdvd : 2 ^ k ∣ q.toNat := ⟨2 * c, by rw [hc, hpow]; ring⟩
  unfold divideBit at h
  dsimp only at h
  generalize low.toNat / 2 ^ k % 2 = b at hbit hremainder ⊢
  by_cases hle : divisor ≤ (r <<< 1) ||| widen ((low >>> UInt64.ofNat k) &&& 1)
  · rw [if_pos hle] at h
    obtain ⟨rfl, rfl⟩ := Prod.mk.inj h
    rw [BitVec.toNat_sub_of_le hle, hremainder, hquotient]
    rw [le_def, hremainder] at hle
    obtain ⟨rest, hrest⟩ := Nat.exists_eq_add_of_le hle
    rw [hrest, Nat.add_sub_cancel_left]
    refine ⟨by omega, (Nat.dvd_add_right hdvd).mpr dvd_rfl, ?_⟩
    ring
  · rw [if_neg hle] at h
    obtain ⟨rfl, rfl⟩ := Prod.mk.inj h
    rw [le_def, hremainder] at hle
    rw [hremainder]
    exact ⟨by omega, hdvd, rfl⟩

theorem foldl_divideBit (low : UInt64) (divisor : U128) (hd : divisor.toNat ≤ 2 ^ 64)
    (hk : k ≤ 64) {q : UInt64} {r : U128} (hr : r.toNat < divisor.toNat) (hq : 2 ^ k ∣ q.toNat) :
    ∃ q' r', (List.range k).reverse.foldl (divideBit low divisor) (q, r) = (q', r') ∧
      r'.toNat < divisor.toNat ∧ q'.toNat * divisor.toNat + r'.toNat =
        q.toNat * divisor.toNat + r.toNat * 2 ^ k + low.toNat % 2 ^ k := by
  induction k generalizing q r with
  | zero => exact ⟨q, r, rfl, hr, by simp [Nat.mod_one]⟩
  | succ k ih =>
    obtain ⟨q₁, r₁, hstep⟩ : ∃ q₁ r₁, divideBit low divisor (q, r) k = (q₁, r₁) := ⟨_, _, rfl⟩
    obtain ⟨hr₁, hq₁, hsum⟩ := divideBit_spec (by omega) hd hr hq hstep
    obtain ⟨q', r', hfold, hr', htotal⟩ := ih (by omega) hr₁ hq₁
    refine ⟨q', r', ?_, hr', ?_⟩
    · rw [List.range_succ, List.reverse_append, List.reverse_singleton, List.singleton_append,
        List.foldl_cons, hstep, hfold]
    · rw [htotal, hsum, pow_succ, Nat.mod_mul]
      ring

/-- The multiply-divide is exact when the quotient fits. -/
theorem quotient_lt {numerator budget : UInt64} (hle : numerator.toNat ≤ denominator.toNat) :
    numerator.toNat * budget.toNat / denominator.toNat < 2 ^ 64 :=
  lt_of_le_of_lt (Nat.div_le_of_le_mul (Nat.mul_le_mul_right _ hle)) budget.toNat_lt

theorem toNat_pos (hd : denominator ≠ 0) : 0 < denominator.toNat := by
  refine Nat.pos_of_ne_zero fun h => hd (eq_of_toNat_eq ?_)
  rw [h]
  rfl

theorem product_lt (numerator budget : UInt64) : numerator.toNat * budget.toNat < 2 ^ 128 := by
  have h := Nat.mul_le_mul (Nat.le_of_lt_succ numerator.toNat_lt) (Nat.le_of_lt_succ budget.toNat_lt)
  omega

theorem toNat_high (numerator budget : UInt64) :
    (UInt64.ofNat ((widen numerator * widen budget) >>> 64).toNat).toNat =
      numerator.toNat * budget.toNat / 2 ^ 64 := by
  have hlt := product_lt numerator budget
  rw [toNat_ushiftRight, BitVec.toNat_mul, toNat_widen, toNat_widen, Nat.mod_eq_of_lt hlt,
    Nat.shiftRight_eq_div_pow]
  exact toNat_ofNat_of_lt' (by
    show _ / 2 ^ 64 < 2 ^ 64
    omega)

theorem mulDivRem_eq {numerator : UInt64} (budget : UInt64) (hd : denominator ≠ 0)
    (hquot : numerator.toNat * budget.toNat / denominator.toNat < 2 ^ 64) :
    ∃ q r, mulDivRem numerator budget denominator = .ok (q, r) ∧
      q.toNat = numerator.toNat * budget.toNat / denominator.toNat ∧
      r.toNat = numerator.toNat * budget.toNat % denominator.toNat := by
  have hpos := toNat_pos hd
  have hprodlt := product_lt numerator budget
  unfold mulDivRem
  rw [if_neg hd]
  by_cases hscale : denominator = widen SCALE ∧ numerator ≤ SCALE ∧ budget ≤ SCALE
  · rw [if_pos hscale]
    obtain ⟨q, r, hok, hq, hr⟩ := mulScaleRem_eq hscale.2.1 hscale.2.2
    have hden : denominator.toNat = SCALE.toNat := by rw [hscale.1, toNat_widen]
    refine ⟨q, widen r, bind_eq_ok.mpr ⟨(q, r), hok, rfl⟩, ?_, ?_⟩
    · rw [hden, hq]
    · rw [hden, toNat_widen, hr]
  · rw [if_neg hscale]
    cases hden : u64 denominator.toNat with
    | none =>
      obtain ⟨product, hproduct⟩ := exists_toNat (w := 128) hprodlt
      obtain ⟨q, hq⟩ := exists_toNat64 hquot
      refine ⟨q, product % denominator, ?_, hq, ?_⟩
      · refine bind_eq_ok.mpr ⟨product, orOverflow_eq_ok.mpr (mul_eq_some.mpr ?_),
          bind_eq_ok.mpr ⟨q, orOverflow_eq_ok.mpr (u64_eq_some.mpr ?_), rfl⟩⟩
        · rw [hproduct, toNat_widen, toNat_widen]
        · rw [toNat_udiv, hproduct, hq]
      · rw [toNat_umod, hproduct]
    | some denominator64 =>
      have hden64 := u64_eq_some.mp hden
      dsimp only
      cases hmul : mul64 numerator budget with
      | some product =>
        have hproduct := mul64_eq_some.mp hmul
        refine ⟨_, _, rfl, ?_, ?_⟩
        · rw [UInt64.toNat_div, hproduct, hden64]
        · rw [toNat_widen, UInt64.toNat_mod, hproduct, hden64]
      | none =>
        dsimp only
        have hwide : (widen numerator * widen budget).toNat = numerator.toNat * budget.toNat := by
          rw [BitVec.toNat_mul, toNat_widen, toNat_widen, Nat.mod_eq_of_lt hprodlt]
        obtain ⟨product, hproduct⟩ : ∃ product, product = numerator.toNat * budget.toNat := ⟨_, rfl⟩
        rw [← hproduct] at hwide hquot hprodlt ⊢
        have hhigh := toNat_high numerator budget
        rw [← hproduct] at hhigh
        have hlow : (UInt64.ofNat (widen numerator * widen budget).toNat).toNat = product % 2 ^ 64 := by
          rw [hwide]
          exact toNat_ofNat'
        have hlt : product / 2 ^ 64 < denominator.toNat :=
          Nat.div_lt_of_lt_mul (Nat.lt_mul_of_div_lt hquot hpos)
        rw [if_neg]
        · obtain ⟨q, r, hfold, hr, hsum⟩ := foldl_divideBit
            (UInt64.ofNat (widen numerator * widen budget).toNat) (widen denominator64)
            (k := 64) (q := 0)
            (r := widen (UInt64.ofNat ((widen numerator * widen budget) >>> 64).toNat))
            (by rw [toNat_widen]; exact denominator64.toNat_lt.le) le_rfl
            (by rw [toNat_widen, toNat_widen, hhigh, hden64]; exact hlt) (dvd_zero _)
          rw [toNat_widen, hden64] at hr hsum
          rw [toNat_widen, hhigh, hlow, Nat.mod_mod] at hsum
          have hsum' : product = q.toNat * denominator.toNat + r.toNat := by
            have hdiv := Nat.div_add_mod product (2 ^ 64)
            have hzero : (0 : UInt64).toNat * denominator.toNat = 0 := by simp
            omega
          refine ⟨q, r, by rw [hfold], ?_, ?_⟩
          · rw [hsum', Nat.mul_comm, Nat.mul_add_div hpos, Nat.div_eq_of_lt hr, Nat.add_zero]
          · rw [hsum', Nat.mul_comm, Nat.mul_add_mod, Nat.mod_eq_of_lt hr]
        · rw [le_iff_toNat_le, hhigh, hden64]
          omega

def sumNat (l : List UInt64) : ℕ := (l.map UInt64.toNat).sum

/-- A quotient that does not fit is refused. -/
theorem mulDivRem_overflow {numerator : UInt64} (budget : UInt64) (hd : denominator ≠ 0)
    (hquot : 2 ^ 64 ≤ numerator.toNat * budget.toNat / denominator.toNat) :
    mulDivRem numerator budget denominator = fail .arithmeticOverflow := by
  have hpos := toNat_pos hd
  have hprodlt := product_lt numerator budget
  have hprod : 2 ^ 64 * denominator.toNat ≤ numerator.toNat * budget.toNat :=
    (Nat.le_div_iff_mul_le hpos).mp hquot
  unfold mulDivRem
  rw [if_neg hd, if_neg]
  · cases hden : u64 denominator.toNat with
    | none =>
      have hlt : denominator.toNat < 2 ^ 64 := by omega
      rw [u64, if_pos hlt] at hden
      exact absurd hden (by simp)
    | some denominator64 =>
      have hden64 := u64_eq_some.mp hden
      dsimp only
      cases hmul : mul64 numerator budget with
      | some product =>
        have hproduct := mul64_eq_some.mp hmul
        have hlt := product.toNat_lt
        omega
      | none =>
        refine if_pos ?_
        rw [le_iff_toNat_le, toNat_high, hden64]
        omega
  · rintro ⟨rfl, hn, -⟩
    have hle : numerator.toNat * budget.toNat / (widen SCALE).toNat < 2 ^ 64 :=
      quotient_lt (by rw [toNat_widen]; exact le_iff_toNat_le.mp hn)
    omega

/-- The multiply-divide is exact when the quotient fits 64 bits, and an error otherwise. -/
theorem mulDivRem_exact (numerator budget : UInt64) (denominator : U128) (hd : denominator ≠ 0) :
    (numerator.toNat * budget.toNat / denominator.toNat < 2 ^ 64 →
      ∃ q r, mulDivRem numerator budget denominator = .ok (q, r) ∧
        numerator.toNat * budget.toNat = q.toNat * denominator.toNat + r.toNat ∧
        r.toNat < denominator.toNat) ∧
    (2 ^ 64 ≤ numerator.toNat * budget.toNat / denominator.toNat →
      ∃ e, mulDivRem numerator budget denominator = .error (.error e)) := by
  refine ⟨fun hquot => ?_, fun hquot => ⟨_, mulDivRem_overflow budget hd hquot⟩⟩
  obtain ⟨q, r, hok, hq, hr⟩ := mulDivRem_eq budget hd hquot
  refine ⟨q, r, hok, ?_, ?_⟩
  · rw [hq, hr, Nat.div_add_mod']
  · rw [hr]
    exact Nat.mod_lt _ (toNat_pos hd)

/-- The greatest words over the greatest word, and over one less. -/
theorem mulDivRem_exact_greatest :
    (∃ q r, mulDivRem 0xffffffffffffffff 0xffffffffffffffff 0xffffffffffffffff = .ok (q, r) ∧
      0xffffffffffffffff * 0xffffffffffffffff = q.toNat * 0xffffffffffffffff + r.toNat ∧
      r.toNat < 0xffffffffffffffff) ∧
    ∃ e, mulDivRem 0xffffffffffffffff 0xffffffffffffffff 0xfffffffffffffffe = .error (.error e) :=
  ⟨(mulDivRem_exact _ _ _ (by decide)).1 (by decide), (mulDivRem_exact _ _ _ (by decide)).2 (by decide)⟩

theorem sumWords_eq_ok {a : UInt64} : sumWords l = .ok a ↔ a.toNat = sumNat l := by
  unfold sumWords
  rw [orOverflow_eq_ok, foldlM_add64_eq_some, sumNat]
  show a.toNat = 0 + _ ↔ _
  rw [Nat.zero_add]

theorem sumWide_eq_ok {a : U128} : sumWide l = .ok a ↔ a.toNat = sumNat l := by
  have hfold : l.foldlM (fun total a => add total (widen a)) (0 : U128) =
      sum (l.map widen) := by rw [sum, List.foldlM_map]
  have hmap : (l.map widen).map BitVec.toNat = l.map UInt64.toNat := by
    rw [List.map_map]
    exact List.map_congr_left fun a _ => toNat_widen a
  unfold sumWide
  rw [orOverflow_eq_ok, hfold, sum_eq_some, hmap, sumNat]

theorem le_sumNat {a : UInt64} (h : a ∈ l) : a.toNat ≤ sumNat l :=
  List.single_le_sum (fun _ _ => Nat.zero_le _) _ (List.mem_map_of_mem h)

def numberAt (l : List UInt64) (i : ℕ) : ℕ := (l.getD i 0).toNat

theorem numberAt_of_lt {i : ℕ} (h : i < l.length) : numberAt l i = l[i].toNat := by
  rw [numberAt, List.getD_eq_getElem _ _ h]

theorem total_numberAt (l : List UInt64) : Hamilton.total (Finset.range l.length) (numberAt l) = sumNat l := by
  have hmap : (List.range l.length).map (numberAt l) = l.map UInt64.toNat := by
    refine List.ext_getElem (by simp) fun i h h' => ?_
    rw [List.length_map] at h'
    rw [List.getElem_map, List.getElem_map, List.getElem_range, numberAt_of_lt h']
  unfold Hamilton.total sumNat
  rw [← List.toFinset_range, List.sum_toFinset _ List.nodup_range, hmap]

/-- The units go to the positions that are served. -/
theorem foldlM_giveUnit {taken : List ℕ} (values : List UInt64) (hnodup : taken.Nodup)
    (hlt : ∀ i ∈ taken, i < values.length) (hfits : ∀ i ∈ taken, numberAt values i + 1 < 2 ^ 64) :
    ∃ values', taken.foldlM giveUnit values = .ok values' ∧ values'.length = values.length ∧
      ∀ i, i < values.length → numberAt values' i = numberAt values i + if i ∈ taken then 1 else 0 := by
  induction taken generalizing values with
  | nil => exact ⟨values, rfl, rfl, fun i _ => by simp⟩
  | cons k taken ih =>
    obtain ⟨hk, hnodup⟩ := List.nodup_cons.mp hnodup
    have hklt := hlt k List.mem_cons_self
    obtain ⟨value, hvalue⟩ := exists_toNat64 (hfits k List.mem_cons_self)
    have hget : values[k]? = some values[k] := List.getElem?_eq_getElem hklt
    have hstep : giveUnit values k = .ok (values.set k value) := by
      unfold giveUnit
      refine bind_eq_ok.mpr ⟨values[k], ofPanic_eq_ok.mpr hget, bind_eq_ok.mpr
        ⟨value, orOverflow_eq_ok.mpr (add64_eq_some.mpr ?_), rfl⟩⟩
      rw [hvalue, numberAt_of_lt hklt]
      rfl
    have hset : ∀ i, i < values.length →
        numberAt (values.set k value) i = if i = k then numberAt values i + 1 else numberAt values i := by
      intro i hi
      rw [numberAt_of_lt (by rwa [List.length_set]), List.getElem_set]
      by_cases hik : i = k
      · subst hik
        rw [if_pos rfl, if_pos rfl, hvalue]
      · rw [if_neg fun h => hik h.symm, if_neg hik, numberAt_of_lt hi]
    have hother : ∀ i ∈ taken, numberAt (values.set k value) i = numberAt values i := by
      intro i hi
      rw [hset i (hlt i (List.mem_cons_of_mem k hi)), if_neg]
      rintro rfl
      exact hk hi
    obtain ⟨values', hfold, hlen, hvalues⟩ := ih (values.set k value) hnodup
      (fun i hi => by rw [List.length_set]; exact hlt i (List.mem_cons_of_mem k hi))
      (fun i hi => by rw [hother i hi]; exact hfits i (List.mem_cons_of_mem k hi))
    rw [List.length_set] at hlen hvalues
    refine ⟨values', ?_, hlen, fun i hi => ?_⟩
    · rw [List.foldlM_cons, hstep]
      exact hfold
    · rw [hvalues i hi, hset i hi]
      by_cases hik : i = k
      · subst hik
        simp [hk]
      · simp [hik]

theorem remainderOrder_iff [LinearOrder K] {a b : U128 × K} :
    remainderOrder a b = true ↔ Hamilton.NotAfter (a.1.toNat, a.2) (b.1.toNat, b.2) := by
  simp only [Hamilton.NotAfter, remainderOrder, Bool.or_eq_true, Bool.and_eq_true, decide_eq_true_eq, beq_iff_eq,
    lt_def, BitVec.toNat_inj]

theorem remainderOrder_total [LinearOrder K] (a b : U128 × K) :
    remainderOrder a b = true ∨ remainderOrder b a = true := by
  rw [remainderOrder_iff, remainderOrder_iff]
  exact Hamilton.NotAfter.total _ _

theorem remainderOrder_trans [LinearOrder K] (a b c : U128 × K)
    (h : remainderOrder a b = true) (h' : remainderOrder b c = true) : remainderOrder a c = true := by
  rw [remainderOrder_iff] at h h' ⊢
  exact h.trans h'

def shareAt (ns : List UInt64) (budget : ℕ) (i : ℕ) : ℕ :=
  Hamilton.share (Finset.range ns.length) (numberAt ns) budget i

section

variable {ns floors : List UInt64} {budget : UInt64} (hpos : 0 < sumNat ns)
  (hlen : floors.length = ns.length)
  (hfloor : ∀ i, i < ns.length →
    numberAt floors i = Hamilton.floor (Finset.range ns.length) (numberAt ns) budget.toNat i)
include hpos hlen hfloor

omit hpos in
theorem sumNat_floors : sumNat floors = ∑ i ∈ Finset.range ns.length,
      Hamilton.floor (Finset.range ns.length) (numberAt ns) budget.toNat i := by
  rw [← total_numberAt, hlen]
  exact sum_congr rfl fun i hi => hfloor i (mem_range.mp hi)

theorem exists_missing {floorSum : UInt64} (hsum : floorSum.toNat = sumNat floors) :
    ∃ missing, sub64 budget floorSum = some missing ∧
      missing.toNat = Hamilton.missing (Finset.range ns.length) (numberAt ns) budget.toNat ∧
      missing.toNat ≤ ns.length := by
  have htotal : 0 < Hamilton.total (Finset.range ns.length) (numberAt ns) := by
    rw [total_numberAt]
    exact hpos
  have hle := Hamilton.sum_floor_le (u := budget.toNat) htotal
  have hcard := Hamilton.missing_le_card (u := budget.toNat) htotal
  rw [card_range] at hcard
  rw [sumNat_floors hlen hfloor] at hsum
  have hb := budget.toNat_lt
  obtain ⟨missing, hmissing⟩ := exists_toNat64
    (n := Hamilton.missing (Finset.range ns.length) (numberAt ns) budget.toNat)
    (lt_of_le_of_lt (Nat.sub_le _ _) hb)
  refine ⟨missing, sub64_eq_some.mpr ?_, hmissing, by rw [hmissing]; exact hcard⟩
  rw [hmissing, hsum, Hamilton.missing]
  omega

theorem exists_served {order : List ℕ} (hnodup : order.Nodup) (hlt : ∀ i ∈ order, i < ns.length)
    (hmem : ∀ i, i < ns.length → ∀ m, i ∈ order.take m ↔
      Hamilton.rank (Finset.range ns.length) (numberAt ns) budget.toNat i < m) :
    ∃ values, (order.take (Hamilton.missing (Finset.range ns.length) (numberAt ns) budget.toNat)).foldlM
        giveUnit floors = .ok values ∧ values.length = ns.length ∧
      ∀ i, i < ns.length → numberAt values i = shareAt ns budget.toNat i := by
  have htotal : 0 < Hamilton.total (Finset.range ns.length) (numberAt ns) := by
    rw [total_numberAt]
    exact hpos
  have hshare : ∀ i, i < ns.length → numberAt floors i + (if i ∈ order.take
      (Hamilton.missing (Finset.range ns.length) (numberAt ns) budget.toNat) then 1 else 0) =
      shareAt ns budget.toNat i := by
    intro i hi
    rw [hfloor i hi, shareAt, Hamilton.share]
    simp only [hmem i hi]
  obtain ⟨values, hfold, hvlen, hvalues⟩ := foldlM_giveUnit floors
    (hnodup.sublist (List.take_sublist
      (Hamilton.missing (Finset.range ns.length) (numberAt ns) budget.toNat) order))
    (fun i hi => by rw [hlen]; exact hlt i (List.mem_of_mem_take hi))
    (fun i hi => by
      have hin := hlt i (List.mem_of_mem_take hi)
      have hle := Hamilton.share_le (u := budget.toNat) htotal (mem_range.mpr hin)
      have h := hshare i hin
      rw [if_pos hi] at h
      rw [h]
      exact lt_of_le_of_lt hle budget.toNat_lt)
  refine ⟨values, hfold, hvlen.trans hlen, fun i hi => ?_⟩
  rw [hvalues i (by rw [hlen]; exact hi), hshare i hi]

end

theorem foldlM_addFloor (budget : UInt64) (hd : denominator ≠ 0)
    {ns : List UInt64} (st : Floors) (hle : ∀ n ∈ ns, n.toNat ≤ denominator.toNat) (hfits : st.floorSum.toNat +
      (ns.map fun n => n.toNat * budget.toNat / denominator.toNat).sum < 2 ^ 64) :
    ∃ st', ns.foldlM (addFloor budget denominator) st = .ok st' ∧
      st'.values.map UInt64.toNat = st.values.map UInt64.toNat ++
        ns.map (fun n => n.toNat * budget.toNat / denominator.toNat) ∧
      st'.remainders.map BitVec.toNat = st.remainders.map BitVec.toNat ++
        ns.map (fun n => n.toNat * budget.toNat % denominator.toNat) ∧
      st'.floorSum.toNat = st.floorSum.toNat +
        (ns.map fun n => n.toNat * budget.toNat / denominator.toNat).sum := by
  induction ns generalizing st with
  | nil => exact ⟨st, rfl, by simp, by simp, by simp⟩
  | cons n ns ih =>
    rw [List.map_cons, List.sum_cons] at hfits
    obtain ⟨q, r, hok, hq, hr⟩ := mulDivRem_eq budget hd (quotient_lt (hle n List.mem_cons_self))
    obtain ⟨sum, hsum⟩ := exists_toNat64 (n := st.floorSum.toNat + q.toNat)
      (by rw [hq]; omega)
    have hstep : addFloor budget denominator st n = .ok ⟨st.values ++ [q], st.remainders ++ [r], sum⟩ := by
      unfold addFloor
      exact bind_eq_ok.mpr ⟨(q, r), hok, bind_eq_ok.mpr
        ⟨sum, orOverflow_eq_ok.mpr (add64_eq_some.mpr hsum), rfl⟩⟩
    obtain ⟨st', hfold, hvalues, hremainders, htotal⟩ := ih
      ⟨st.values ++ [q], st.remainders ++ [r], sum⟩
      (fun m hm => hle m (List.mem_cons_of_mem n hm))
      (by show sum.toNat + _ < _; rw [hsum, hq]; omega)
    refine ⟨st', by rw [List.foldlM_cons, hstep]; exact hfold, ?_, ?_, ?_⟩
    · rw [hvalues]
      simp [hq]
    · rw [hremainders]
      simp [hr]
    · rw [htotal]
      show sum.toNat + _ = _
      rw [hsum, hq, List.map_cons, List.sum_cons, Nat.add_assoc]

theorem length_of_map_toNat {m : List UInt64} {g : UInt64 → ℕ}
    (h : l.map UInt64.toNat = m.map g) : l.length = m.length := by
  have := congrArg List.length h
  rwa [List.length_map, List.length_map] at this

/-- The kernel's allocation gives every index its share. -/
theorem allocateIndexed_eq {ns : List UInt64} (budget : UInt64)
    (hsum : denominator.toNat = sumNat ns) (hpos : 0 < sumNat ns) :
    ∃ values, allocateIndexed ns budget denominator = .ok values ∧ values.length = ns.length ∧
      ∀ i, i < ns.length → numberAt values i = shareAt ns budget.toNat i := by
  have hne : ns ≠ [] := by
    rintro rfl
    exact absurd hpos (lt_irrefl 0)
  have hd : denominator ≠ 0 := by
    rintro rfl
    rw [← hsum] at hpos
    exact absurd hpos (lt_irrefl 0)
  have htotal : Hamilton.total (Finset.range ns.length) (numberAt ns) = denominator.toNat := by
    rw [total_numberAt, hsum]
  -- the floors of the list are the floors of the positions
  have hfloorAt : ∀ i (h : i < ns.length), ns[i].toNat * budget.toNat / denominator.toNat =
      Hamilton.floor (Finset.range ns.length) (numberAt ns) budget.toNat i := by
    intro i h
    rw [Hamilton.floor, htotal, numberAt_of_lt h]
  have hremAt : ∀ i (h : i < ns.length), ns[i].toNat * budget.toNat % denominator.toNat =
      Hamilton.remainder (Finset.range ns.length) (numberAt ns) budget.toNat i := by
    intro i h
    rw [Hamilton.remainder, htotal, numberAt_of_lt h]
  have hfits : (0 : UInt64).toNat +
      (ns.map fun n => n.toNat * budget.toNat / denominator.toNat).sum < 2 ^ 64 := by
    have hmap : (ns.map fun n => n.toNat * budget.toNat / denominator.toNat) = (List.range ns.length).map
          (Hamilton.floor (Finset.range ns.length) (numberAt ns) budget.toNat) := by
      refine List.ext_getElem (by simp) fun i h h' => ?_
      rw [List.length_map] at h
      rw [List.getElem_map, List.getElem_map, List.getElem_range, hfloorAt i h]
    have hle := Hamilton.sum_floor_le (s := Finset.range ns.length) (f := numberAt ns)
      (u := budget.toNat) (by rw [total_numberAt]; exact hpos)
    rw [hmap, ← List.sum_toFinset _ List.nodup_range, List.toFinset_range]
    show 0 + _ < _
    rw [Nat.zero_add]
    exact lt_of_le_of_lt hle budget.toNat_lt
  obtain ⟨st, hfold, hvalues, hremainders, hfloorSum⟩ := foldlM_addFloor budget hd
    ⟨[], [], 0⟩ (fun n hn => by rw [hsum]; exact le_sumNat hn) hfits
  simp only [List.map_nil, List.nil_append] at hvalues hremainders
  have hlen : st.values.length = ns.length := length_of_map_toNat hvalues
  have hrlen : st.remainders.length = ns.length := by
    have := congrArg List.length hremainders
    rwa [List.length_map, List.length_map] at this
  have hfloor : ∀ i, i < ns.length → numberAt st.values i =
      Hamilton.floor (Finset.range ns.length) (numberAt ns) budget.toNat i := by
    intro i hi
    have hget : (st.values.map UInt64.toNat)[i]? =
        (ns.map fun n => n.toNat * budget.toNat / denominator.toNat)[i]? := by rw [hvalues]
    rw [List.getElem?_map, List.getElem?_map, List.getElem?_eq_getElem hi,
      List.getElem?_eq_getElem (by rw [hlen]; exact hi)] at hget
    rw [numberAt_of_lt (by rw [hlen]; exact hi), ← hfloorAt i hi]
    exact some_inj.mp hget
  have hrem : ∀ i (h : i < st.remainders.length), st.remainders[i].toNat =
      Hamilton.remainder (Finset.range ns.length) (numberAt ns) budget.toNat i := by
    intro i h
    have hi : i < ns.length := by rwa [hrlen] at h
    have hget : (st.remainders.map BitVec.toNat)[i]? =
        (ns.map fun n => n.toNat * budget.toNat % denominator.toNat)[i]? := by rw [hremainders]
    rw [List.getElem?_map, List.getElem?_map, List.getElem?_eq_getElem hi, List.getElem?_eq_getElem h] at hget
    rw [← hremAt i hi]
    exact some_inj.mp hget
  obtain ⟨missing, hsub, hmissing, hmle⟩ := exists_missing hpos hlen hfloor
    (show st.floorSum.toNat = sumNat st.values by
      rw [hfloorSum, sumNat, hvalues]
      exact Nat.zero_add _)
  -- the order of service, by remainder and then by index
  obtain ⟨order, horder⟩ : ∃ order, order =
      (st.remainders.zipIdx.insertionSort fun a b => remainderOrder a b).map Prod.snd := ⟨_, rfl⟩
  have hperm : order.Perm (List.range ns.length) := by
    have h := (List.perm_insertionSort (fun a b => remainderOrder a b = true)
      st.remainders.zipIdx).map Prod.snd
    rw [List.zipIdx_map_snd, hrlen, ← List.range_eq_range'] at h
    rw [horder]
    exact h
  have hmem : ∀ i, i < ns.length → ∀ m, i ∈ order.take m ↔
      Hamilton.rank (Finset.range ns.length) (numberAt ns) budget.toNat i < m := by
    intro i hi m
    have h := Hamilton.mem_take_order (l := st.remainders) (r := remainderOrder)
      (f := numberAt ns) (u := budget.toNat) remainderOrder_total remainderOrder_trans
      (fun i j hi hj hne hij => by
        rw [remainderOrder_iff, hrem i hi, hrem j hj] at hij
        rw [hrlen]
        exact hij.before hne)
      (i := i) (by rw [hrlen]; exact hi) m
    rw [hrlen] at h
    rw [horder]
    exact h
  obtain ⟨values, hserve, hvlen, hshares⟩ := exists_served hpos hlen hfloor
    (hperm.nodup_iff.mpr List.nodup_range)
    (fun i hi => List.mem_range.mp (hperm.mem_iff.mp hi)) hmem
  refine ⟨values, ?_, hvlen, hshares⟩
  unfold allocateIndexed fail
  rw [if_neg (not_or.mpr ⟨hne, hd⟩)]
  refine bind_eq_ok.mpr ⟨denominator, sumWide_eq_ok.mpr hsum, ite_error_eq_ok.mpr
    ⟨not_not.mpr rfl, bind_eq_ok.mpr ⟨st, hfold, ?_⟩⟩⟩
  rw [hsub]
  dsimp only
  rw [if_neg (by rw [hlen]; exact Nat.not_lt.mpr hmle), ← horder, hmissing]
  exact hserve

/-- The loop over the items collects the rows. -/
theorem foldlM_apportionItem (budget : UInt64) (st : Apportioning)
    (hle : ∀ e ∈ items, e.2.toNat ≤ denominator.toNat) (hnodup : (items.map Prod.fst).Nodup)
    (hseen : ∀ e ∈ items, e.1 ∉ st.seen)
    (hfits : st.numeratorSum.toNat + sumNat (items.map Prod.snd) < 2 ^ 128) :
    ∃ st', items.foldlM (apportionItem budget denominator) st = .ok st' ∧
      st'.rows.map (fun row => (row.1, row.2.1.toNat, row.2.2.toNat)) =
        st.rows.map (fun row => (row.1, row.2.1.toNat, row.2.2.toNat)) ++ items.map (fun e =>
          (e.1, e.2.toNat * budget.toNat / denominator.toNat, e.2.toNat * budget.toNat % denominator.toNat)) ∧
      st'.numeratorSum.toNat = st.numeratorSum.toNat + sumNat (items.map Prod.snd) := by
  induction items generalizing st with
  | nil => exact ⟨st, rfl, by simp, by simp [sumNat]⟩
  | cons e items ih =>
    have hcons : sumNat ((e :: items).map Prod.snd) = e.2.toNat + sumNat (items.map Prod.snd) := rfl
    rw [hcons] at hfits ⊢
    rw [List.map_cons] at hnodup
    obtain ⟨hnew, hnodup⟩ := List.nodup_cons.mp hnodup
    have hbudget := budget.toNat_lt
    have hnumerator := e.2.toNat_lt
    have hprodlt : e.2.toNat * budget.toNat < 2 ^ 128 := by
      have h := Nat.mul_le_mul (Nat.le_of_lt_succ hnumerator) (Nat.le_of_lt_succ hbudget)
      omega
    have hquot : e.2.toNat * budget.toNat / denominator.toNat < 2 ^ 64 := by
      refine lt_of_le_of_lt (Nat.div_le_of_le_mul ?_) hbudget
      exact Nat.mul_le_mul_right _ (hle e List.mem_cons_self)
    obtain ⟨sum, hsum⟩ := exists_toNat (w := 128)
      (n := st.numeratorSum.toNat + e.2.toNat) (by omega)
    obtain ⟨product, hproduct⟩ := exists_toNat (w := 128) hprodlt
    obtain ⟨floor, hfloor⟩ := exists_toNat64 hquot
    have hstep : apportionItem budget denominator st e =
        .ok ⟨st.seen.insert e.1, sum, st.rows ++ [(e.1, floor, product % denominator)]⟩ := by
      have hno : ¬ st.seen.contains e.1 = true := by
        rw [Std.ExtTreeSet.contains_iff_mem]
        exact hseen e List.mem_cons_self
      unfold apportionItem fail
      rw [if_neg hno]
      refine bind_eq_ok.mpr ⟨sum, orOverflow_eq_ok.mpr (add_eq_some.mpr ?_),
        bind_eq_ok.mpr ⟨product, orOverflow_eq_ok.mpr (mul_eq_some.mpr ?_),
        bind_eq_ok.mpr ⟨floor, orOverflow_eq_ok.mpr (u64_eq_some.mpr ?_), rfl⟩⟩⟩
      · rw [hsum, toNat_widen]
      · rw [hproduct, toNat_widen, toNat_widen]
      · rw [toNat_udiv, hproduct, hfloor]
    obtain ⟨st', hfold, hrows, htotal⟩ := ih
      ⟨st.seen.insert e.1, sum, st.rows ++ [(e.1, floor, product % denominator)]⟩
      (fun f hf => hle f (List.mem_cons_of_mem e hf)) hnodup
      (fun f hf hmem => by
        rcases Std.ExtTreeSet.mem_insert.mp hmem with heq | hmem
        · have heq' : e.1 = f.1 := compare_eq_iff_eq.mp heq
          exact hnew (heq' ▸ List.mem_map_of_mem hf)
        · exact hseen f (List.mem_cons_of_mem e hf) hmem)
      (by show sum.toNat + _ < _; rw [hsum]; omega)
    refine ⟨st', by rw [List.foldlM_cons, hstep]; exact hfold, ?_, ?_⟩
    · rw [hrows]
      simp [hfloor, toNat_umod, hproduct]
    · rw [htotal]
      show sum.toNat + _ = _
      rw [hsum, Nat.add_assoc]

/-- The reference's allocation gives every item the share of its address. -/
theorem apportion_shares (budget : UInt64) (hkeys : (items.map Prod.fst).Nodup)
    (hsum : denominator.toNat = sumNat (items.map Prod.snd))
    (hpos : 0 < sumNat (items.map Prod.snd)) {f : Address → ℕ} (hf : ∀ e ∈ items, f e.1 = e.2.toNat) :
    ∃ values, apportion items budget denominator =
        .ok (BTreeMap.ofEntries ((items.map Prod.fst).zip values)) ∧ values.length = items.length ∧
      ∀ i (h : i < items.length), numberAt values i =
        Hamilton.share (items.map Prod.fst).toFinset f budget.toNat items[i].1 := by
  obtain ⟨s, hs⟩ : ∃ s, s = (items.map Prod.fst).toFinset := ⟨_, rfl⟩
  have hsumKeys : ∀ g : Address → ℕ, ∑ a ∈ s, g a = (items.map fun e => g e.1).sum := by
    intro g
    rw [hs, List.sum_toFinset _ hkeys, List.map_map]
    rfl
  have htotal : Hamilton.total s f = denominator.toNat := by
    rw [hsum, Hamilton.total, hsumKeys, sumNat, List.map_map]
    exact congrArg List.sum (List.map_congr_left hf)
  have htpos : 0 < Hamilton.total s f := by
    rw [htotal, hsum]
    exact hpos
  have hne : items ≠ [] := by
    rintro rfl
    exact absurd hpos (lt_irrefl 0)
  have hd : denominator ≠ 0 := by
    rintro rfl
    rw [← hsum] at hpos
    exact absurd hpos (lt_irrefl 0)
  obtain ⟨st, hfold, hrows, hnumerators⟩ := foldlM_apportionItem budget
    ⟨∅, 0, []⟩
    (fun e he => by
      rw [hsum]
      exact le_sumNat (List.mem_map_of_mem he))
    hkeys (by simp) (by
      rw [← hsum]
      show 0 + _ < _
      rw [Nat.zero_add]
      exact denominator.isLt)
  rw [List.map_nil, List.nil_append] at hrows
  have hrlen : st.rows.length = items.length := by
    have := congrArg List.length hrows
    rwa [List.length_map, List.length_map] at this
  -- a row by its position
  have hrow : ∀ i (h : i < st.rows.length) (h' : i < items.length), st.rows[i].1 = items[i].1 ∧
      st.rows[i].2.1.toNat = Hamilton.floor s f budget.toNat items[i].1 ∧
      st.rows[i].2.2.toNat = Hamilton.remainder s f budget.toNat items[i].1 := by
    intro i h h'
    have hget : (st.rows.map fun row => (row.1, row.2.1.toNat, row.2.2.toNat))[i]? =
        (items.map fun e => (e.1, e.2.toNat * budget.toNat / denominator.toNat,
          e.2.toNat * budget.toNat % denominator.toNat))[i]? := by rw [hrows]
    rw [List.getElem?_map, List.getElem?_map, List.getElem?_eq_getElem h, List.getElem?_eq_getElem h'] at hget
    obtain ⟨haddress, hrest⟩ := Prod.mk.inj (some_inj.mp hget)
    obtain ⟨hfloor, hrem⟩ := Prod.mk.inj hrest
    rw [Hamilton.floor, Hamilton.remainder, htotal, hf _ (List.getElem_mem h')]
    exact ⟨haddress, hfloor, hrem⟩
  obtain ⟨floors, hfloors⟩ : ∃ floors, floors = st.rows.map fun row => row.2.1 := ⟨_, rfl⟩
  have hlen : floors.length = items.length := by rw [hfloors, List.length_map, hrlen]
  have hfloor : ∀ i (h : i < items.length), numberAt floors i = Hamilton.floor s f budget.toNat items[i].1 := by
    intro i hi
    rw [numberAt_of_lt (by rw [hlen]; exact hi)]
    simp only [hfloors, List.getElem_map]
    exact (hrow i (by rw [hrlen]; exact hi) hi).2.1
  have hfloorSum : sumNat floors = ∑ a ∈ s, Hamilton.floor s f budget.toNat a := by
    rw [hsumKeys, sumNat]
    refine congrArg List.sum (List.ext_getElem (by simp [hlen]) fun i h h' => ?_)
    simp only [List.length_map] at h h'
    rw [List.getElem_map, List.getElem_map, ← hfloor i h', numberAt_of_lt h]
  -- the floors fit, as they do not exceed the budget, and leave at most one unit for each item
  have hle := Hamilton.sum_floor_le (u := budget.toNat) htpos
  have hbudget := budget.toNat_lt
  obtain ⟨floorSum, hfloorSumNat⟩ := exists_toNat64 (n := sumNat floors) (by omega)
  obtain ⟨missing, hmissing⟩ := exists_toNat64 (n := Hamilton.missing s f budget.toNat)
    (lt_of_le_of_lt (Nat.sub_le _ _) hbudget)
  have hsub : sub64 budget floorSum = some missing := by
    refine sub64_eq_some.mpr ?_
    rw [hmissing, hfloorSumNat, hfloorSum, Hamilton.missing]
    omega
  have hmle : missing.toNat ≤ items.length := by
    have hcard := Hamilton.missing_le_card (u := budget.toNat) htpos
    have hkeysCard := List.toFinset_card_le (items.map Prod.fst)
    rw [List.length_map, ← hs] at hkeysCard
    omega
  obtain ⟨keyed, hkeyed⟩ : ∃ keyed, keyed = st.rows.map fun row => (row.2.2, row.1) := ⟨_, rfl⟩
  have hklen : keyed.length = items.length := by rw [hkeyed, List.length_map, hrlen]
  have haddresses : st.rows.map Prod.fst = items.map Prod.fst := by
    have h := congrArg (List.map Prod.fst) hrows
    rw [List.map_map, List.map_map] at h
    exact h
  have hkeyedKeys : keyed.map Prod.snd = items.map Prod.fst := by
    rw [← haddresses, hkeyed, List.map_map]
    rfl
  have hkeyedAt : ∀ i (h : i < keyed.length) (h' : i < items.length), keyed[i].2 = items[i].1 ∧
      keyed[i].1.toNat = Hamilton.remainder s f budget.toNat items[i].1 := by
    intro i h h'
    obtain ⟨ha, -, hr⟩ := hrow i (by rw [hrlen]; exact h') h'
    simp only [hkeyed, List.getElem_map]
    exact ⟨ha, hr⟩
  -- the order of service, by remainder and then by address
  obtain ⟨taken, hnodup, hlt, htaken, hshares⟩ := Hamilton.exists_served (l := keyed) (g := Prod.snd)
    (r := fun a b => remainderOrder a.1 b.1) (f := f) (u := budget.toNat)
    (by rw [hkeyedKeys]; exact hkeys) (fun a b => remainderOrder_total a.1 b.1)
    (fun a b c => remainderOrder_trans a.1 b.1 c.1) (fun i j hi hj hij h => by
      have hi' : i < items.length := by rw [← hklen]; exact hi
      have hj' : j < items.length := by rw [← hklen]; exact hj
      obtain ⟨hai, hri⟩ := hkeyedAt i hi hi'
      obtain ⟨haj, hrj⟩ := hkeyedAt j hj hj'
      rw [remainderOrder_iff, hri, hrj, hai, haj] at h
      rw [hkeyedKeys, ← hs, hai, haj]
      exact h.before fun heq => hij (Hamilton.index_eq_of_key hkeys hi' hj' heq))
  rw [hkeyedKeys, ← hs] at htaken hshares
  have hshare : ∀ i (h : i < items.length), numberAt floors i + (if i ∈ taken then 1 else 0) =
      Hamilton.share s f budget.toNat items[i].1 := by
    intro i hi
    have h := hshares i (by rw [hklen]; exact hi)
    rw [(hkeyedAt i (by rw [hklen]; exact hi) hi).1] at h
    rw [h, hfloor i hi]
  obtain ⟨values, hserve, hvlen, hvalues⟩ := foldlM_giveUnit floors hnodup
    (fun i hi => by rw [hlen, ← hklen]; exact hlt i hi) (fun i hi => by
      have hi' : i < items.length := by rw [← hklen]; exact hlt i hi
      have h := hshare i hi'
      rw [if_pos hi] at h
      rw [h]
      refine lt_of_le_of_lt (Hamilton.share_le htpos ?_) hbudget
      rw [hs, List.mem_toFinset]
      exact List.mem_map_of_mem (List.getElem_mem hi'))
  refine ⟨values, ?_, hvlen.trans hlen, fun i hi => ?_⟩
  · have hnumeratorSum : st.numeratorSum = denominator := by
      refine eq_of_toNat_eq ?_
      rw [hnumerators, hsum]
      exact Nat.zero_add _
    unfold apportion fail
    rw [if_neg (not_or.mpr ⟨hne, hd⟩)]
    refine bind_eq_ok.mpr ⟨st, hfold, ite_error_eq_ok.mpr ⟨not_not.mpr hnumeratorSum, ?_⟩⟩
    dsimp only
    rw [← hfloors, ← hkeyed]
    refine bind_eq_ok.mpr ⟨floorSum, sumWords_eq_ok.mpr hfloorSumNat, ?_⟩
    rw [hsub]
    dsimp only
    rw [if_neg (by rw [hrlen]; exact Nat.not_lt.mpr hmle), hmissing, htaken, haddresses]
    exact bind_eq_ok.mpr ⟨values, hserve, rfl⟩
  · rw [hvalues i (by rw [hlen]; exact hi), hshare i hi, hs]

theorem strictMonoOn_getD {l : List Address} (hl : l.Pairwise (· < ·)) :
    StrictMonoOn (fun i => l.getD i 0) (Finset.range l.length) := by
  intro i hi j hj hij
  rw [coe_range, Set.mem_Iio] at hi hj
  show l.getD i 0 < l.getD j 0
  rw [List.getD_eq_getElem _ _ hi, List.getD_eq_getElem _ _ hj]
  exact List.pairwise_iff_getElem.mp hl i j hi hj hij

theorem toFinset_eq_image_getD (l : List Address) :
    l.toFinset = (Finset.range l.length).image fun i => l.getD i 0 := by
  ext a
  rw [List.mem_toFinset, List.mem_iff_getElem, mem_image]
  constructor
  · rintro ⟨i, hi, rfl⟩
    exact ⟨i, mem_range.mpr hi, List.getD_eq_getElem _ _ hi⟩
  · rintro ⟨i, hi, rfl⟩
    have hi := mem_range.mp hi
    exact ⟨i, hi, (List.getD_eq_getElem _ _ hi).symm⟩

theorem shareAt_eq_share {l : List Address} (hl : l.Pairwise (· < ·)) {ws : List UInt64}
    (hlen : ws.length = l.length) {f : Address → ℕ}
    (h : ∀ i, i < l.length → numberAt ws i = f (l.getD i 0)) (u : ℕ) {i : ℕ} (hi : i < l.length) :
    shareAt ws u i = Hamilton.share l.toFinset f u (l.getD i 0) := by
  have hmem : i ∈ Finset.range l.length := mem_range.mpr hi
  have himage := Hamilton.share_image (f := f) (u := u) (strictMonoOn_getD hl) hmem
  rw [toFinset_eq_image_getD, himage, shareAt, hlen]
  exact Hamilton.share_congr (fun j hj => h j (mem_range.mp hj)) hmem

theorem apportion_eq (budget : UInt64) (hsorted : (items.map Prod.fst).Pairwise (· < ·))
    (hsum : denominator.toNat = sumNat (items.map Prod.snd)) (hpos : 0 < sumNat (items.map Prod.snd)) :
    ∃ m values, apportion items budget denominator = .ok m ∧
      m.toList = (items.map Prod.fst).zip values ∧ values.length = items.length ∧
      ∀ i, i < items.length → numberAt values i = shareAt (items.map Prod.snd) budget.toNat i := by
  have hkeys : (items.map Prod.fst).Nodup := hsorted.imp fun h => h.ne
  obtain ⟨f, hf, -⟩ := Hamilton.exists_numerator hkeys fun item => item.2.toNat
  obtain ⟨values, hok, hvlen, hshares⟩ := apportion_shares budget hkeys hsum hpos hf
  refine ⟨_, values, hok, BTreeMap.toList_ofEntries ?_, hvlen, fun i hi => ?_⟩
  · rw [List.map_fst_zip (by rw [List.length_map, hvlen])]
    exact hsorted
  · have hkeyAt : ∀ j (h : j < items.length), (items.map Prod.fst).getD j 0 = items[j].1 := by
      intro j h
      rw [List.getD_eq_getElem _ _ (by rwa [List.length_map]), List.getElem_map]
    rw [hshares i hi, ← hkeyAt i hi]
    refine (shareAt_eq_share hsorted (by rw [List.length_map, List.length_map]) (fun j hj => ?_)
      budget.toNat (by rwa [List.length_map])).symm
    rw [List.length_map] at hj
    rw [hkeyAt j hj, hf _ (List.getElem_mem hj), numberAt_of_lt (by rwa [List.length_map]), List.getElem_map]

end Trustgraphs.WeightedPrior
