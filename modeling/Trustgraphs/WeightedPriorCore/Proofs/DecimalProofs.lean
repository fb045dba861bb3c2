import Trustgraphs.WeightedPriorCore.Proofs.AllocateProofs

/-!
# The decimals that are read

`parseDecimal` reads the canonical positive decimals of at most 20 whole and 18 fractional digits, exactly
(`parseDecimal_eq_ok`), refuses every other string as such, and different decimals have different values.
-/

namespace Trustgraphs.WeightedPrior

open Outcome Text Checked List Option

/-- A canonical positive decimal with its digits before and behind the point. -/
structure Canonical (value whole fractional : Bytes) : Prop where
  text : value = whole ++ if fractional = [] then [] else 46 :: fractional
  whole_numeral : Numeral whole
  whole_le : whole.length ≤ 20
  fraction : Fraction fractional
  fraction_le : fractional.length ≤ 18
  positive : whole ≠ [48] ∨ fractional ≠ []

def decimalValue (whole fractional : Bytes) : ℕ :=
  digitsValue whole * 10 ^ 18 + digitsValue fractional * 10 ^ (18 - fractional.length)

theorem toNat_SCALE_U256 : SCALE_U256.toNat = 10 ^ 18 := rfl

variable {value whole fractional : Bytes}

theorem parts_eq (hlast : value.getLast? ≠ some 46)
    (h : (splitOnce 46 value).getD (value, []) = (whole, fractional)) :
    value = whole ++ if fractional = [] then [] else 46 :: fractional := by
  cases hsplit : splitOnce 46 value with
  | none =>
    rw [hsplit] at h
    obtain ⟨rfl, rfl⟩ := Prod.mk.inj h
    simp
  | some parts =>
    rw [hsplit] at h
    obtain rfl : parts = (whole, fractional) := h
    obtain ⟨htext, -⟩ := splitOnce_eq_some.mp hsplit
    by_cases hempty : fractional = []
    · rw [hempty] at htext
      rw [htext] at hlast
      exact absurd getLast?_concat hlast
    · rw [if_neg hempty]
      exact htext

theorem not_mem_of_digits {l : Bytes} {b : UInt8} (hl : l.all isDigit = true)
    (hb : isDigit b = false) : b ∉ l := by
  intro hmem
  rw [List.all_eq_true.mp hl b hmem] at hb
  exact absurd hb (by simp)

theorem Canonical.parts (h : Canonical value whole fractional) :
    (splitOnce 46 value).getD (value, []) = (whole, fractional) := by
  have hpoint : 46 ∉ whole := not_mem_of_digits h.whole_numeral.digits rfl
  by_cases hempty : fractional = []
  · have hvalue : value = whole := by
      rw [h.text, if_pos hempty, append_nil]
    cases hsplit : splitOnce 46 value with
    | none => rw [getD_none, hvalue, hempty]
    | some parts =>
      obtain ⟨htext, -⟩ := splitOnce_eq_some.mp (show _ = some (parts.1, parts.2) from hsplit)
      rw [hvalue] at htext
      refine absurd ?_ hpoint
      rw [htext]
      simp
  · have hvalue : value = whole ++ 46 :: fractional := by
      rw [h.text, if_neg hempty]
    rw [splitOnce_eq_some.mpr ⟨hvalue, hpoint⟩]
    rfl

/-- Nothing in it is refused for its signs. -/
theorem Canonical.signs (h : Canonical value whole fractional) :
    ¬ (value = [] ∨ startsWith (utf8 "+") value = true ∨ startsWith (utf8 "-") value = true ∨
      101 ∈ value ∨ 69 ∈ value ∨ value.getLast? = some 46) := by
  have hmem : ∀ b ∈ value, isDigit b = true ∨ b = 46 := by
    intro b hb
    rw [h.text, mem_append] at hb
    rcases hb with hb | hb
    · exact .inl (List.all_eq_true.mp h.whole_numeral.digits b hb)
    · by_cases hempty : fractional = []
      · rw [if_pos hempty] at hb
        exact absurd hb not_mem_nil
      · rw [if_neg hempty] at hb
        rcases List.mem_cons.mp hb with rfl | hb
        · exact .inr rfl
        · exact .inl (List.all_eq_true.mp h.fraction.digits b hb)
  obtain ⟨first, rest, hwhole⟩ := exists_cons_of_ne_nil h.whole_numeral.nonempty
  have hfirst : isDigit first = true := by
    refine List.all_eq_true.mp h.whole_numeral.digits first ?_
    rw [hwhole]
    exact List.mem_cons_self
  have hstart : ∀ sign : UInt8, isDigit sign = false → startsWith [sign] value = false := by
    intro sign hsign
    have hne : sign ≠ first := by
      rintro rfl
      rw [hfirst] at hsign
      exact absurd hsign (by simp)
    rw [h.text, hwhole, List.cons_append]
    show (sign == first && _) = false
    rw [beq_false_of_ne hne]
    rfl
  rintro (hnil | hplus | hminus | he | hE | hlast)
  · rw [h.text, hwhole] at hnil
    exact absurd hnil (by simp)
  · rw [show utf8 "+" = [43] from rfl, hstart 43 rfl] at hplus
    exact absurd hplus (by simp)
  · rw [show utf8 "-" = [45] from rfl, hstart 45 rfl] at hminus
    exact absurd hminus (by simp)
  · rcases hmem 101 he with hdigit | hpoint
    · exact absurd hdigit (by decide)
    · exact absurd hpoint (by decide)
  · rcases hmem 69 hE with hdigit | hpoint
    · exact absurd hdigit (by decide)
    · exact absurd hpoint (by decide)
  · -- the last character is a digit, of the fraction or of the whole
    have hdigit : ∀ {l : Bytes}, l.all isDigit = true → l.getLast? ≠ some 46 := by
      intro l hl hend
      exact absurd (List.all_eq_true.mp hl 46 (mem_of_getLast? hend)) (by decide)
    by_cases hempty : fractional = []
    · rw [h.text, if_pos hempty, append_nil] at hlast
      exact hdigit h.whole_numeral.digits hlast
    · rw [h.text, if_neg hempty, getLast?_append, getLast?_cons] at hlast
      cases hend : fractional.getLast? with
      | none => exact hempty (getLast?_eq_none_iff.mp hend)
      | some b =>
        rw [hend] at hlast
        obtain rfl : b = 46 := by simpa using hlast
        exact hdigit h.fraction.digits hend

/-- The parts keep the bounds and the forms of a canonical decimal, except that its value may be zero. -/
theorem form_iff :
    ¬ (whole = [] ∨ (1 < whole.length ∧ startsWith (utf8 "0") whole = true) ∨ 20 < whole.length ∨
        whole.all isDigit = false ∨ 18 < fractional.length ∨
        (fractional ≠ [] ∧ (fractional.all isDigit = false ∨ fractional.getLast? = some 48))) ↔
      Numeral whole ∧ whole.length ≤ 20 ∧ Fraction fractional ∧ fractional.length ≤ 18 := by
  have hstart : startsWith (utf8 "0") whole = true ↔ whole.head? = some 48 := by
    rw [show utf8 "0" = [48] from rfl]
    cases whole with
    | nil => simp [startsWith]
    | cons b l =>
      show ((48 : UInt8) == b && List.isPrefixOf [] l) = true ↔ some b = some 48
      rw [Bool.and_eq_true, beq_iff_eq, some_inj]
      exact ⟨fun h => h.1.symm, fun h => ⟨h.symm, rfl⟩⟩
  have hone : whole ≠ [] → (whole = [48] ↔ whole.length ≤ 1 ∧ whole.head? = some 48) := by
    intro hne
    obtain ⟨b, l, rfl⟩ := exists_cons_of_ne_nil hne
    constructor
    · intro h
      rw [h]
      exact ⟨le_rfl, rfl⟩
    · rintro ⟨hlen, hhead⟩
      obtain rfl : l = [] := eq_nil_of_length_eq_zero (by rw [length_cons] at hlen; omega)
      rw [Option.some.inj hhead]
  rw [hstart]
  constructor
  · intro h
    simp only [not_or, not_and, not_lt, Bool.not_eq_false] at h
    obtain ⟨hne, hlead, hle, hdigits, hfle, hfraction⟩ := h
    refine ⟨⟨hdigits, hne, ?_⟩, hle, ?_, hfle⟩
    · by_cases hhead : whole.head? = some 48
      · refine .inl ((hone hne).mpr ⟨?_, hhead⟩)
        by_contra hlen
        exact hlead (not_le.mp hlen) hhead
      · exact .inr hhead
    · by_cases hempty : fractional = []
      · rw [hempty]
        exact ⟨rfl, by simp⟩
      · exact ⟨(hfraction hempty).1, (hfraction hempty).2⟩
  · rintro ⟨hw, hle, hf, hfle⟩
    simp only [not_or, not_and, not_lt, Bool.not_eq_false]
    refine ⟨hw.nonempty, fun hlen hhead => ?_, hle, hw.digits, hfle, fun _ => ⟨hf.digits, hf.trailing⟩⟩
    rcases hw.leading with hzero | hne
    · rw [hzero] at hlen
      exact absurd hlen (by simp)
    · exact hne hhead

theorem parseDigits_eq {l : Bytes} {n : ℕ} (hl : l.all isDigit = true) (hlength : l.length ≤ n)
    (hn : n ≤ 20) : ∃ v, parseDigits l = some v ∧ v.toNat = digitsValue l ∧ v.toNat < 10 ^ n := by
  have hlt := (digitsValue_lt hl).trans_le (Nat.pow_le_pow_right (by decide) hlength)
  have hbound : (10 : ℕ) ^ n ≤ 10 ^ 20 := Nat.pow_le_pow_right (by decide) hn
  obtain ⟨v, hv⟩ := exists_toNat (w := 256) (n := digitsValue l) (by omega)
  exact ⟨v, ofNat_eq_some.mpr hv, hv, by rw [hv]; exact hlt⟩

/-- What is left of `parseDecimal` once the form is checked. -/
theorem parseForm (hw : Numeral whole) (hle : whole.length ≤ 20)
    (hf : Fraction fractional) (hfle : fractional.length ≤ 18) :
    ∃ v : U256, v.toNat = decimalValue whole fractional ∧ (do
      let whole ← (parseDigits whole).elim (fail (.nonCanonicalDecimal value)) .ok
      let fraction ← parseFraction value fractional
      let parsed ← orOverflow ((mul whole SCALE_U256).bind fun scaled => add scaled fraction)
      if parsed = 0 then fail (.nonCanonicalDecimal value) else .ok parsed : Weighted U256) =
      if v = 0 then fail (.nonCanonicalDecimal value) else .ok v := by
  obtain ⟨wholeValue, hwhole, hwholeNat, hwholeLt⟩ := parseDigits_eq hw.digits hle le_rfl
  have hfractionLt := digitsValue_scaled_lt hf.digits hfle
  obtain ⟨fraction, hfraction⟩ : ∃ fraction : U256,
      fraction.toNat = digitsValue fractional * 10 ^ (18 - fractional.length) :=
    exists_toNat (w := 256) (by omega)
  have hstep : parseFraction value fractional = .ok fraction := by
    rw [parseFraction]
    by_cases hempty : fractional = []
    · rw [if_pos hempty]
      rw [hempty] at hfraction
      refine congrArg Except.ok (BitVec.toNat_inj.mp ?_)
      rw [hfraction]
      exact (Nat.zero_mul _).symm
    · obtain ⟨digits, hdigits, hdigitsNat, -⟩ := parseDigits_eq hf.digits hfle (by decide)
      rw [if_neg hempty, hdigits, elim_some, ok_bind]
      refine congrArg Except.ok (BitVec.toNat_inj.mp ?_)
      have hpow : (10 : ℕ) ^ (18 - fractional.length) ≤ 10 ^ 18 := Nat.pow_le_pow_right (by decide) (Nat.sub_le _ _)
      have hunit : (10 : ℕ) ^ (18 - fractional.length) % 2 ^ 256 = 10 ^ (18 - fractional.length) :=
        Nat.mod_eq_of_lt (by omega)
      rw [BitVec.toNat_mul, BitVec.toNat_ofNat, hunit, hdigitsNat, hfraction]
      exact Nat.mod_eq_of_lt (by omega)
  have hlt : decimalValue whole fractional < 2 ^ 256 := by
    rw [decimalValue, ← hwholeNat]
    omega
  obtain ⟨v, hv⟩ := exists_toNat (w := 256) hlt
  obtain ⟨scaled, hscaled⟩ : ∃ scaled : U256, scaled.toNat = wholeValue.toNat * 10 ^ 18 :=
    exists_toNat (w := 256) (by omega)
  refine ⟨v, hv, ?_⟩
  have hparsed : (mul wholeValue SCALE_U256).bind (fun scaled => add scaled fraction) = some v := by
    rw [mul_eq_some.mpr (hscaled.trans (by rw [toNat_SCALE_U256])), bind_some]
    refine add_eq_some.mpr ?_
    rw [hv, hscaled, hfraction, hwholeNat]
    rfl
  rw [hwhole, elim_some, ok_bind, hstep, ok_bind, hparsed]
  rfl

theorem decimalValue_eq_zero (hw : Numeral whole) (hf : Fraction fractional) :
    decimalValue whole fractional = 0 ↔ whole = [48] ∧ fractional = [] := by
  constructor
  · intro h
    rw [decimalValue, Nat.add_eq_zero_iff] at h
    obtain ⟨hwhole, hfraction⟩ := h
    refine ⟨?_, ?_⟩
    · by_contra hne
      have hpos := hw.pos hne
      omega
    · by_contra hne
      have hpos := Nat.mul_pos (hf.pos hne) (Nat.pow_pos (n := 18 - fractional.length) (show 0 < 10 by decide))
      omega
  · rintro ⟨rfl, rfl⟩
    rfl

/-- Every string is read as the value of a canonical decimal, or refused as none. -/
theorem parseDecimal_cases (value : Bytes) :
    (∃ whole fractional v, Canonical value whole fractional ∧ parseDecimal value = .ok v ∧
      v.toNat = decimalValue whole fractional) ∨
    (¬ ∃ whole fractional, Canonical value whole fractional) ∧
      parseDecimal value = fail (.nonCanonicalDecimal value) := by
  by_cases hsigns : value = [] ∨ startsWith (utf8 "+") value = true ∨
      startsWith (utf8 "-") value = true ∨ 101 ∈ value ∨ 69 ∈ value ∨ value.getLast? = some 46
  · refine .inr ⟨fun ⟨whole, fractional, h⟩ => h.signs hsigns, ?_⟩
    rw [parseDecimal, if_pos hsigns]
  obtain ⟨whole, fractional, hparts⟩ : ∃ whole fractional,
    (splitOnce 46 value).getD (value, []) = (whole, fractional) := ⟨_, _, rfl⟩
  have hread : parseDecimal value = _ := if_neg hsigns
  dsimp only at hread
  rw [hparts] at hread
  dsimp only at hread
  by_cases hform : whole = [] ∨ (1 < whole.length ∧ startsWith (utf8 "0") whole = true) ∨
      20 < whole.length ∨ whole.all isDigit = false ∨ 18 < fractional.length ∨
      (fractional ≠ [] ∧ (fractional.all isDigit = false ∨ fractional.getLast? = some 48))
  · refine .inr ⟨fun ⟨whole', fractional', h⟩ => ?_, ?_⟩
    · obtain ⟨rfl, rfl⟩ := Prod.mk.inj (h.parts.symm.trans hparts)
      exact form_iff.mpr ⟨h.whole_numeral, h.whole_le, h.fraction, h.fraction_le⟩ hform
    · rw [hread, if_pos hform]
  obtain ⟨hw, hle, hf, hfle⟩ := form_iff.mp hform
  obtain ⟨v, hv, hrest⟩ := @parseForm value _ _ hw hle hf hfle
  rw [if_neg hform, hrest] at hread
  have htext := parts_eq (fun hlast => hsigns (by simp [hlast])) hparts
  by_cases hzero : v = 0
  · rw [if_pos hzero] at hread
    refine .inr ⟨fun ⟨whole', fractional', h⟩ => ?_, hread⟩
    obtain ⟨rfl, rfl⟩ := Prod.mk.inj (h.parts.symm.trans hparts)
    rw [hzero] at hv
    obtain ⟨hwhole, hfraction⟩ := (decimalValue_eq_zero hw hf).mp hv.symm
    rcases h.positive with hne | hne
    · exact hne hwhole
    · exact hne hfraction
  · rw [if_neg hzero] at hread
    refine .inl ⟨whole, fractional, v, ⟨htext, hw, hle, hf, hfle, ?_⟩, hread, hv⟩
    by_contra hnone
    rw [not_or, not_not, not_not] at hnone
    have hvalue := (decimalValue_eq_zero hw hf).mpr hnone
    exact hzero (BitVec.toNat_inj.mp (hv.trans hvalue))

theorem parseDecimal_eq_ok {v : U256} :
    parseDecimal value = .ok v ↔ ∃ whole fractional, Canonical value whole fractional ∧
      v.toNat = decimalValue whole fractional := by
  rcases parseDecimal_cases value with ⟨whole, fractional, v', hc, hok, hv'⟩ | ⟨hnone, hfail⟩
  · constructor
    · intro h
      obtain rfl := ok_inj (hok.symm.trans h)
      exact ⟨whole, fractional, hc, hv'⟩
    · rintro ⟨whole', fractional', hc', hv⟩
      obtain ⟨rfl, rfl⟩ := Prod.mk.inj (hc.parts.symm.trans hc'.parts)
      rw [hok, BitVec.toNat_inj.mp (hv'.trans hv.symm)]
  · constructor
    · intro h
      rw [hfail] at h
      exact absurd h (by simp [fail])
    · rintro ⟨whole, fractional, hc, -⟩
      exact absurd ⟨whole, fractional, hc⟩ hnone

theorem Canonical.eq_of_value {value' whole' fractional' : Bytes}
    (h : Canonical value whole fractional) (h' : Canonical value' whole' fractional')
    (heq : decimalValue whole fractional = decimalValue whole' fractional') : value = value' := by
  have hlt := digitsValue_scaled_lt h.fraction.digits h.fraction_le
  have hlt' := digitsValue_scaled_lt h'.fraction.digits h'.fraction_le
  rw [decimalValue, decimalValue] at heq
  have hwhole := h.whole_numeral.eq_of_digitsValue h'.whole_numeral (by omega)
  subst hwhole
  have hfractional := h.fraction.eq_of_digitsValue h'.fraction h.fraction_le h'.fraction_le (by omega)
  subst hfractional
  rw [h.text, h'.text]

theorem decimalValue_lt (h : Canonical value whole fractional) : decimalValue whole fractional < 10 ^ 38 := by
  have hlt := digitsValue_scaled_lt h.fraction.digits h.fraction_le
  have hwhole := (digitsValue_lt h.whole_numeral.digits).trans_le
    (Nat.pow_le_pow_right (by decide) h.whole_le)
  rw [decimalValue]
  omega

theorem decimalValue_pos (h : Canonical value whole fractional) : 0 < decimalValue whole fractional := by
  rw [Nat.pos_iff_ne_zero]
  intro hzero
  obtain ⟨hwhole, hfraction⟩ := (decimalValue_eq_zero h.whole_numeral h.fraction).mp hzero
  rcases h.positive with hne | hne
  · exact hne hwhole
  · exact hne hfraction

end Trustgraphs.WeightedPrior
