import Trustgraphs.ZkCore.Cid

/-!
# Proofs: base32 and CIDs

The characters of a base32 string are the digits of the number that the bytes denote, shifted by the
padding bits.
-/

namespace Trustgraphs

open Option List

def ofDigits32 (ds : List ℕ) : ℕ := ds.foldl (fun n d => n * 32 + d) 0

theorem ofDigits32_append_singleton (ds : List ℕ) (d : ℕ) :
    ofDigits32 (ds ++ [d]) = ofDigits32 ds * 32 + d := by
  simp [ofDigits32]

def chars32 (ds : List ℕ) : Bytes := ds.map fun d => base32Char (UInt32.ofNat d)

/-- The characters so far are the digits of `n` without its last `bits` bits. -/
structure Encodes (n bits : ℕ) (out : Bytes) (ds : List ℕ) : Prop where
  out_eq : out = chars32 ds
  digit_lt : ∀ d ∈ ds, d < 32
  value : ofDigits32 ds = n / 2 ^ bits

variable {out : Bytes} {ds : List ℕ} {k : ℕ} {st : UInt32 × Nat × Bytes} {s : Bytes}

theorem Encodes.push {n bits : ℕ} {c : UInt32}
    (h : Encodes n (bits + 5) out ds) (hc : c.toNat = n / 2 ^ bits % 32) :
    Encodes n bits (out ++ [base32Char c]) (ds ++ [c.toNat]) where
  out_eq := by rw [h.out_eq, chars32, chars32, map_append, map_singleton, UInt32.ofNat_toNat]
  digit_lt d hd := by
    rcases mem_append.mp hd with hd | hd
    · exact h.digit_lt d hd
    · obtain rfl : d = c.toNat := by simpa using hd
      rw [hc]
      exact Nat.mod_lt _ (by norm_num)
  value := by
    have hdiv : n / 2 ^ (bits + 5) = n / 2 ^ bits / 32 := by
      rw [pow_add, Nat.div_div_eq_div_mul]
      norm_num
    rw [ofDigits32_append_singleton, h.value, hc, hdiv]
    omega

theorem toNat_digit (acc : UInt32) (hk : k < 32) :
    ((acc >>> UInt32.ofNat k) &&& 0x1f).toNat = acc.toNat / 2 ^ k % 32 := by
  rw [UInt32.toNat_and, UInt32.toNat_shiftRight]
  have hk' : (UInt32.ofNat k).toNat % 32 = k := by
    rw [UInt32.toNat_ofNat']
    omega
  have hmask : UInt32.toNat 0x1f = 2 ^ 5 - 1 := by decide
  rw [hk', hmask, Nat.and_two_pow_sub_one_eq_mod, Nat.shiftRight_eq_div_pow]

theorem base32Emit_spec {acc : UInt32} {n fuel bits : ℕ}
    (hacc : acc.toNat = n % 2 ^ 32) (hbits : bits ≤ 32) (hfuel : bits ≤ fuel + 4) (h : Encodes n bits out ds) :
    ∃ ds', Encodes n (base32Emit acc fuel bits out).1 (base32Emit acc fuel bits out).2 ds' ∧
      (base32Emit acc fuel bits out).1 = bits % 5 ∧ ds'.length = ds.length + bits / 5 := by
  induction fuel generalizing bits out ds with
  | zero =>
    refine ⟨ds, h, ?_⟩
    show bits = bits % 5 ∧ _
    omega
  | succ fuel ih =>
    rw [base32Emit]
    by_cases hge : bits ≥ 5
    · rw [if_pos hge]
      obtain ⟨b, rfl⟩ : ∃ b, bits = b + 5 := ⟨bits - 5, by omega⟩
      have hsub : b + 5 - 5 = b := by omega
      rw [hsub]
      have hdigit : (acc >>> UInt32.ofNat b &&& 0x1f).toNat = n / 2 ^ b % 32 := by
        rw [toNat_digit acc (by omega), hacc]
        have hsplit : (2 : ℕ) ^ 32 = 2 ^ b * 2 ^ (32 - b) := by
          rw [← pow_add]
          congr 1
          omega
        rw [hsplit, Nat.mod_mul_right_div_self]
        refine Nat.mod_mod_of_dvd _ ?_
        have h32 : (32 : ℕ) = 2 ^ 5 := by norm_num
        rw [h32]
        exact pow_dvd_pow 2 (by omega)
      obtain ⟨ds', henc, hmod, hlen⟩ := @ih _ _ b (by omega) (by omega) (h.push hdigit)
      refine ⟨ds', henc, ?_⟩
      rw [hmod, hlen, length_append, length_singleton]
      omega
    · rw [if_neg hge]
      refine ⟨ds, h, ?_⟩
      show bits = bits % 5 ∧ _
      omega

def base32Step (st : UInt32 × Nat × Bytes) (b : UInt8) : UInt32 × Nat × Bytes :=
  let acc := (st.1 <<< 8) ||| b.toUInt32
  (acc, base32Emit acc (st.2.1 + 8) (st.2.1 + 8) st.2.2)

structure Encoding (l : Bytes) (st : UInt32 × Nat × Bytes) (ds : List ℕ) : Prop where
  acc : st.1.toNat = ofBeBytes l % 2 ^ 32
  bits : st.2.1 = 8 * l.length % 5
  digits : Encodes (ofBeBytes l) st.2.1 st.2.2 ds
  length : ds.length = 8 * l.length / 5

theorem toNat_shift_or (acc b : UInt32) (hk : k < 32) (hb : b.toNat < 2 ^ k) :
    ((acc <<< UInt32.ofNat k) ||| b).toNat = (acc.toNat * 2 ^ k + b.toNat) % 2 ^ 32 := by
  have hk' : (UInt32.ofNat k).toNat % 32 = k := by
    rw [UInt32.toNat_ofNat']
    omega
  have hpow : (2 : ℕ) ^ 32 = 2 ^ k * 2 ^ (32 - k) := by
    rw [← pow_add]
    congr 1
    omega
  rw [UInt32.toNat_or, UInt32.toNat_shiftLeft, hk', Nat.shiftLeft_eq, hpow, Nat.mul_comm acc.toNat,
    Nat.mul_mod_mul_left, ← Nat.two_pow_add_eq_or_of_lt hb, Nat.mod_mul, Nat.mul_add_mod,
    Nat.mod_eq_of_lt hb, Nat.mul_add_div (by positivity), Nat.div_eq_of_lt hb, Nat.add_zero,
    Nat.add_comm]

theorem base32Step_spec {l : Bytes}
    (h : Encoding l st ds) (b : UInt8) : ∃ ds', Encoding (l ++ [b]) (base32Step st b) ds' := by
  have hb : b.toNat < 256 := b.toNat_lt
  have hbits := h.bits
  have hle : st.2.1 ≤ 4 := by omega
  have hacc : ((st.1 <<< 8) ||| b.toUInt32).toNat = ofBeBytes (l ++ [b]) % 2 ^ 32 := by
    have h8 := toNat_shift_or st.1 b.toUInt32 (show 8 < 32 by decide) (by simpa using hb)
    rw [UInt8.toNat_toUInt32] at h8
    rw [ofBeBytes_append_singleton]
    refine h8.trans ?_
    rw [h.acc]
    omega
  -- the byte comes in as eight bits that are not emitted yet
  have hin : Encodes (ofBeBytes (l ++ [b])) (st.2.1 + 8) st.2.2 ds := by
    refine ⟨h.digits.out_eq, h.digits.digit_lt, ?_⟩
    have hpow : 2 ^ (st.2.1 + 8) = 256 * 2 ^ st.2.1 := by ring
    have hdiv : (ofBeBytes l * 256 + b.toNat) / 256 = ofBeBytes l := by omega
    rw [h.digits.value, ofBeBytes_append_singleton, hpow, ← Nat.div_div_eq_div_mul, hdiv]
  obtain ⟨ds', henc, hmod, hlen⟩ := base32Emit_spec hacc (show st.2.1 + 8 ≤ 32 by omega)
      (show st.2.1 + 8 ≤ st.2.1 + 8 + 4 by omega) hin
  refine ⟨ds', hacc, ?_, henc, ?_⟩
  · show (base32Emit _ _ _ _).1 = _
    rw [hmod, length_append, length_singleton, hbits]
    omega
  · rw [hlen, h.length, hbits, length_append, length_singleton]
    omega

theorem base32_foldl (l : Bytes) : ∃ ds, Encoding l (l.foldl base32Step (0, 0, [])) ds := by
  induction l using List.reverseRecOn with
  | nil => exact ⟨[], by decide, rfl, ⟨rfl, by simp, rfl⟩, rfl⟩
  | append_singleton l b ih =>
    obtain ⟨ds, h⟩ := ih
    rw [foldl_append]
    exact base32Step_spec h b

theorem base32LowerNopad_eq (l : Bytes) : base32LowerNopad l = (fun st : UInt32 × Nat × Bytes =>
        if st.2.1 > 0 then st.2.2 ++ [base32Char ((st.1 <<< UInt32.ofNat (5 - st.2.1)) &&& 0x1f)]
        else st.2.2) (l.foldl base32Step (0, 0, [])) := rfl

theorem toNat_last_digit (acc : UInt32) (hk : k < 5) :
    ((acc <<< UInt32.ofNat k) &&& 0x1f).toNat = acc.toNat * 2 ^ k % 32 := by
  have hk' : (UInt32.ofNat k).toNat % 32 = k := by
    rw [UInt32.toNat_ofNat']
    omega
  have hmask : UInt32.toNat 0x1f = 2 ^ 5 - 1 := by decide
  rw [UInt32.toNat_and, UInt32.toNat_shiftLeft, hk', hmask, Nat.and_two_pow_sub_one_eq_mod, Nat.shiftLeft_eq]
  exact Nat.mod_mod_of_dvd _ (by norm_num)

theorem base32LowerNopad_spec (l : Bytes) : ∃ ds, base32LowerNopad l = chars32 ds ∧ (∀ d ∈ ds, d < 32) ∧
      ofDigits32 ds = ofBeBytes l * 2 ^ (5 * ds.length - 8 * l.length) ∧
      ds.length = (8 * l.length + 4) / 5 := by
  obtain ⟨ds, h⟩ := base32_foldl l
  rw [base32LowerNopad_eq]
  generalize l.foldl base32Step (0, 0, []) = st at h
  have hbits := h.bits
  dsimp only
  by_cases h0 : st.2.1 > 0
  · rw [if_pos h0]
    have hk : 5 * (ds.length + 1) - 8 * l.length = 5 - st.2.1 := by
      rw [h.length]
      omega
    have hlast : ((st.1 <<< UInt32.ofNat (5 - st.2.1)) &&& 0x1f).toNat =
        ofBeBytes l * 2 ^ (5 - st.2.1) / 2 ^ 0 % 32 := by
      rw [toNat_last_digit _ (by omega), h.acc, pow_zero, Nat.div_one]
      rw [← Nat.mod_mul_mod (ofBeBytes l % 2 ^ 32), Nat.mod_mod_of_dvd _ (by norm_num : 32 ∣ 2 ^ 32),
        Nat.mod_mul_mod]
    have hin : Encodes (ofBeBytes l * 2 ^ (5 - st.2.1)) (0 + 5) st.2.2 ds := by
      refine ⟨h.digits.out_eq, h.digits.digit_lt, ?_⟩
      have hpow : 2 ^ (0 + 5) = 2 ^ (5 - st.2.1) * 2 ^ st.2.1 := by
        rw [← pow_add]
        congr 1
        omega
      rw [h.digits.value, hpow, Nat.mul_comm (ofBeBytes l), Nat.mul_div_mul_left _ _ (by positivity)]
    have hout := hin.push hlast
    refine ⟨_, hout.out_eq, hout.digit_lt, ?_, ?_⟩
    · rw [hout.value, length_append, length_singleton, hk, pow_zero, Nat.div_one]
    · rw [length_append, length_singleton, h.length]
      omega
  · rw [if_neg h0]
    have hz : st.2.1 = 0 := by omega
    have hk : 5 * ds.length - 8 * l.length = 0 := by
      rw [h.length]
      omega
    refine ⟨ds, h.digits.out_eq, h.digits.digit_lt, ?_, ?_⟩
    · rw [h.digits.value, hz, hk, pow_zero, Nat.div_one, Nat.mul_one]
    · rw [h.length]
      omega

theorem base32Value_base32Char {d : ℕ} (hd : d < 32) :
    base32Value (base32Char (UInt32.ofNat d)) = some (UInt32.ofNat d) := by
  have hall : ∀ d < 32, base32Value (base32Char (UInt32.ofNat d)) = some (UInt32.ofNat d) := by decide
  exact hall d hd

theorem base32Value_eq_some {c : UInt8} {v : UInt32} (h : base32Value c = some v) :
    v.toNat < 32 ∧ c = base32Char (UInt32.ofNat v.toNat) := by
  have hall : ∀ n < 256, (base32Value (UInt8.ofNat n)).all (fun v =>
      decide (v.toNat < 32 ∧ UInt8.ofNat n = base32Char (UInt32.ofNat v.toNat))) = true := by
    decide +kernel
  have hc := hall c.toNat c.toNat_lt
  rw [UInt8.ofNat_toNat, h] at hc
  exact of_decide_eq_true hc

def base32DecodeStep (st : UInt32 × Nat × Bytes) (c : UInt8) : Option (UInt32 × Nat × Bytes) := do
  let val ← base32Value c
  let acc := (st.1 <<< 5) ||| val
  let bits := st.2.1 + 5
  if bits ≥ 8 then some (acc, bits - 8, st.2.2 ++ [(acc >>> UInt32.ofNat (bits - 8)).toUInt8])
  else some (acc, bits, st.2.2)

/-- The bytes so far are the number of the digits `ds` without its last bits. -/
structure Decoding (ds : List ℕ) (st : UInt32 × Nat × Bytes) : Prop where
  digit_lt : ∀ d ∈ ds, d < 32
  acc : st.1.toNat = ofDigits32 ds % 2 ^ 32
  bits : st.2.1 = 5 * ds.length % 8
  length : st.2.2.length = 5 * ds.length / 8
  value : ofBeBytes st.2.2 = ofDigits32 ds / 2 ^ st.2.1

theorem base32DecodeStep_spec (h : Decoding ds st) {d : ℕ} (hd : d < 32) :
    ∃ st', base32DecodeStep st (base32Char (UInt32.ofNat d)) = some st' ∧ Decoding (ds ++ [d]) st' := by
  have hto : (UInt32.ofNat d).toNat = d := UInt32.toNat_ofNat_of_lt' (hd.trans (by decide))
  have hbits := h.bits
  have hlength := h.length
  have hlen : (ds ++ [d]).length = ds.length + 1 := length_append
  have hlt : ∀ e ∈ ds ++ [d], e < 32 := by
    intro e he
    rcases mem_append.mp he with he | he
    · exact h.digit_lt e he
    · exact mem_singleton.mp he ▸ hd
  have hnum : ofDigits32 (ds ++ [d]) = ofDigits32 ds * 32 + d := ofDigits32_append_singleton ds d
  have hacc : ((st.1 <<< 5) ||| UInt32.ofNat d).toNat = ofDigits32 (ds ++ [d]) % 2 ^ 32 := by
    refine (toNat_shift_or st.1 (UInt32.ofNat d) (show 5 < 32 by decide) (by omega)).trans ?_
    rw [hto, h.acc, hnum]
    omega
  have hhigh : ofDigits32 (ds ++ [d]) / 2 ^ (st.2.1 + 5) = ofBeBytes st.2.2 := by
    rw [hnum, h.value, Nat.add_comm st.2.1 5, pow_add, ← Nat.div_div_eq_div_mul]
    congr 1
    omega
  unfold base32DecodeStep
  simp only [base32Value_base32Char hd, bind_eq_bind, bind_some]
  by_cases hge : st.2.1 + 5 ≥ 8
  · obtain ⟨k, hk⟩ : ∃ k, st.2.1 + 5 = k + 8 := ⟨st.2.1 + 5 - 8, by omega⟩
    rw [if_pos hge, hk, Nat.add_sub_cancel]
    have hbyte : (((st.1 <<< 5) ||| UInt32.ofNat d) >>> UInt32.ofNat k).toUInt8.toNat =
        ofDigits32 (ds ++ [d]) / 2 ^ k % 256 := by
      have hk' : (UInt32.ofNat k).toNat % 32 = k := by
        rw [UInt32.toNat_ofNat']
        omega
      have hsplit : (2 : ℕ) ^ 32 = 2 ^ k * 2 ^ (32 - k) := by
        rw [← pow_add]
        congr 1
        omega
      rw [UInt32.toNat_toUInt8, UInt32.toNat_shiftRight, hk', hacc, Nat.shiftRight_eq_div_pow, hsplit,
        Nat.mod_mul_right_div_self]
      refine Nat.mod_mod_of_dvd _ ?_
      exact pow_dvd_pow 2 (show 8 ≤ 32 - k by omega)
    refine ⟨_, rfl, hlt, hacc, ?_, ?_, ?_⟩
    · show k = _
      omega
    · show (st.2.2 ++ [_]).length = _
      rw [length_append, length_singleton]
      omega
    · show ofBeBytes (st.2.2 ++ [_]) = ofDigits32 (ds ++ [d]) / 2 ^ k
      rw [ofBeBytes_append_singleton, hbyte, ← hhigh, hk, pow_add, ← Nat.div_div_eq_div_mul]
      omega
  · rw [if_neg hge]
    refine ⟨_, rfl, hlt, hacc, ?_, ?_, hhigh.symm⟩
    · show st.2.1 + 5 = _
      omega
    · show st.2.2.length = _
      omega

theorem base32_foldlM (ds : List ℕ) (hds : ∀ d ∈ ds, d < 32) :
    ∃ st, (chars32 ds).foldlM base32DecodeStep (0, 0, []) = some st ∧ Decoding ds st := by
  induction ds using List.reverseRecOn with
  | nil => exact ⟨_, rfl, by simp, by decide, rfl, rfl, rfl⟩
  | append_singleton ds d ih =>
    obtain ⟨st, hst, hdec⟩ := ih fun e he => hds e (mem_append_left _ he)
    obtain ⟨st', hstep, hdec'⟩ := base32DecodeStep_spec hdec (hds d (by simp))
    refine ⟨st', ?_, hdec'⟩
    rw [chars32, map_append, foldlM_append]
    exact bind_eq_some_iff.mpr ⟨st, hst, by simpa using hstep⟩

theorem exists_chars32 {st' : UInt32 × Nat × Bytes}
    (h : s.foldlM base32DecodeStep st = some st') : ∃ ds, s = chars32 ds ∧ ∀ d ∈ ds, d < 32 := by
  induction s generalizing st with
  | nil => exact ⟨[], rfl, by simp⟩
  | cons c s ih =>
    rw [foldlM_cons] at h
    obtain ⟨st₁, hstep, hrest⟩ := bind_eq_some_iff.mp h
    obtain ⟨v, hv, -⟩ := bind_eq_some_iff.mp hstep
    obtain ⟨hlt, rfl⟩ := base32Value_eq_some hv
    obtain ⟨ds, rfl, hds⟩ := ih hrest
    exact ⟨v.toNat :: ds, rfl, forall_mem_cons.mpr ⟨hlt, hds⟩⟩

theorem toNat_mask (acc : UInt32) (hk : k < 32) :
    (acc &&& ((1 <<< UInt32.ofNat k) - 1)).toNat = acc.toNat % 2 ^ k := by
  have hk' : (UInt32.ofNat k).toNat % 32 = k := by
    rw [UInt32.toNat_ofNat']
    omega
  have hpow : ((1 : UInt32) <<< UInt32.ofNat k).toNat = 2 ^ k := by
    rw [UInt32.toNat_shiftLeft, hk', Nat.shiftLeft_eq]
    show 1 * 2 ^ k % 2 ^ 32 = 2 ^ k
    rw [Nat.one_mul]
    exact Nat.mod_eq_of_lt (Nat.pow_lt_pow_right (by norm_num) hk)
  have hle : (1 : UInt32) ≤ 1 <<< UInt32.ofNat k := by
    rw [UInt32.le_iff_toNat_le, hpow]
    exact Nat.one_le_two_pow
  rw [UInt32.toNat_and, UInt32.toNat_sub_of_le _ _ hle, hpow]
  exact Nat.and_two_pow_sub_one_eq_mod _ k

/-- The final check: fewer than five padding bits, all of them zero. -/
theorem Decoding.canonical (h : Decoding ds st) :
    ¬ (st.2.1 ≥ 5 ∨ (st.2.1 > 0 ∧ st.1 &&& ((1 <<< UInt32.ofNat st.2.1) - 1) ≠ 0)) ↔
      5 * ds.length % 8 < 5 ∧ ofDigits32 ds = ofBeBytes st.2.2 * 2 ^ (5 * ds.length % 8) := by
  have hbits := h.bits
  have hmask : st.1 &&& ((1 <<< UInt32.ofNat st.2.1) - 1) = 0 ↔ ofDigits32 ds % 2 ^ st.2.1 = 0 := by
    rw [← UInt32.toNat_inj, toNat_mask st.1 (by omega), h.acc,
      Nat.mod_mod_of_dvd _ (pow_dvd_pow 2 (show st.2.1 ≤ 32 by omega))]
    rfl
  have hdvd : ofDigits32 ds = ofBeBytes st.2.2 * 2 ^ st.2.1 ↔ ofDigits32 ds % 2 ^ st.2.1 = 0 := by
    rw [h.value, eq_comm, ← Nat.dvd_iff_div_mul_eq, Nat.dvd_iff_mod_eq_zero]
  rw [← hbits, hdvd, not_or, not_and, not_not, hmask]
  refine and_congr not_le ⟨fun hz => ?_, fun hz _ => hz⟩
  rcases Nat.eq_zero_or_pos st.2.1 with h0 | hpos
  · rw [h0, pow_zero, Nat.mod_one]
  · exact hz hpos

theorem base32LowerDecode_eq (s : Bytes) : base32LowerDecode s =
    (s.foldlM base32DecodeStep (0, 0, [])).bind fun st =>
      if st.2.1 ≥ 5 ∨ (st.2.1 > 0 ∧ st.1 &&& ((1 <<< UInt32.ofNat st.2.1) - 1) ≠ 0) then none
      else some st.2.2 := rfl

/-- What is accepted: digits that denote bytes, shifted by fewer than five padding bits. -/
theorem base32LowerDecode_eq_some : base32LowerDecode s = some out ↔
    ∃ ds, s = chars32 ds ∧ (∀ d ∈ ds, d < 32) ∧ 5 * ds.length % 8 < 5 ∧
      out.length = 5 * ds.length / 8 ∧ ofDigits32 ds = ofBeBytes out * 2 ^ (5 * ds.length % 8) := by
  rw [base32LowerDecode_eq, bind_eq_some_iff]
  constructor
  · rintro ⟨st, hst, hout⟩
    obtain ⟨ds, rfl, hds⟩ := exists_chars32 hst
    obtain ⟨st', hst', hdec⟩ := base32_foldlM ds hds
    obtain rfl : st' = st := Option.some.inj (hst'.symm.trans hst)
    split at hout
    · exact absurd hout nofun
    · rename_i hcanonical
      obtain rfl := Option.some.inj hout
      obtain ⟨hlt, hvalue⟩ := hdec.canonical.mp hcanonical
      exact ⟨ds, rfl, hds, hlt, hdec.length, hvalue⟩
  · rintro ⟨ds, rfl, hds, hlt, hlength, hvalue⟩
    obtain ⟨st, hst, hdec⟩ := base32_foldlM ds hds
    obtain rfl : st.2.2 = out := by
      refine ofBeBytes_injective (by rw [hdec.length, hlength]) ?_
      rw [hdec.value, hdec.bits, hvalue, Nat.mul_div_cancel _ (by positivity)]
    exact ⟨st, hst, if_neg (hdec.canonical.mpr ⟨hlt, hvalue⟩)⟩

theorem base32LowerDecode_nopad (b : Bytes) : base32LowerDecode (base32LowerNopad b) = some b := by
  obtain ⟨ds, hs, hds, hvalue, hlength⟩ := base32LowerNopad_spec b
  have hpad : 5 * ds.length % 8 = 5 * ds.length - 8 * b.length := by omega
  exact base32LowerDecode_eq_some.mpr
    ⟨ds, hs, hds, by omega, by omega, by rw [hvalue, hpad]⟩

theorem ofDigits32_injective {es : List ℕ} (hd : ∀ d ∈ ds, d < 32) (he : ∀ e ∈ es, e < 32)
    (hlen : ds.length = es.length) (h : ofDigits32 ds = ofDigits32 es) : ds = es := by
  induction ds using List.reverseRecOn generalizing es with
  | nil => exact (length_eq_zero_iff.mp hlen.symm).symm
  | append_singleton ds d ih =>
    rcases eq_nil_or_concat' es with rfl | ⟨es, e, rfl⟩
    · simp at hlen
    · simp only [mem_append, mem_singleton] at hd he
      rw [ofDigits32_append_singleton, ofDigits32_append_singleton] at h
      have hd' := hd d (.inr rfl)
      have he' := he e (.inr rfl)
      rw [ih (fun x hx => hd x (.inl hx)) (fun x hx => he x (.inl hx)) (by simpa using hlen) (by omega)]
      congr 2
      omega

theorem base32LowerNopad_of_decode {b : Bytes} (h : base32LowerDecode s = some b) : base32LowerNopad b = s := by
  obtain ⟨ds, rfl, hds, hlt, hlength, hvalue⟩ := base32LowerDecode_eq_some.mp h
  obtain ⟨es, hs, hes, hvalue', hlength'⟩ := base32LowerNopad_spec b
  have hlen : es.length = ds.length := by omega
  have hpad : 5 * es.length - 8 * b.length = 5 * ds.length % 8 := by omega
  rw [hs, ofDigits32_injective hes hds hlen (by rw [hvalue', hvalue, hpad])]

theorem dagcborSha256Digest_eq (codec : UInt8) (digest : B256) :
    dagcborSha256Digest (utf8 "b" ++ base32LowerNopad ([0x01, codec, 0x12, 0x20] ++ digest.bytes)) =
      if codec = 0x71 then some digest else none := by
  have hsize := digest.size
  show (base32LowerDecode (base32LowerNopad _) >>= fun bytes : Bytes => _) = _
  rw [base32LowerDecode_nopad, bind_eq_bind, bind_some, if_neg (by simp)]
  by_cases hc : codec = 0x71
  · rw [if_pos hc, hc, if_neg (by simp)]
    exact FixedBytes.ofSlice_eq_some.mpr rfl
  · rw [if_neg hc, if_pos (by simpa using hc)]

/-- The text codec loses nothing and accepts only what it writes, and the digest of a dag-cbor CID is read
back. A raw CID is refused; its text decodes to its bytes. -/
theorem base32_lossless : (∀ b, base32LowerDecode (base32LowerNopad b) = some b) ∧
    (∀ s b, base32LowerDecode s = some b → base32LowerNopad b = s) ∧
    ∀ digest : B256, dagcborSha256Digest (cidV1Dagcbor digest) = some digest ∧
      dagcborSha256Digest (cidV1Raw digest) = none ∧
      ∃ text, cidV1Raw digest = utf8 "b" ++ text ∧
        base32LowerDecode text = some ([0x01, 0x55, 0x12, 0x20] ++ digest.bytes) :=
  ⟨base32LowerDecode_nopad, fun _ _ => base32LowerNopad_of_decode, fun digest =>
    ⟨dagcborSha256Digest_eq 0x71 digest, dagcborSha256Digest_eq 0x55 digest, _, rfl, base32LowerDecode_nopad _⟩⟩

theorem base32_lossless_f : base32LowerNopad (utf8 "f") = utf8 "my" :=
  base32_lossless.2.1 (utf8 "my") (utf8 "f") (by decide +kernel)

/-- The digest of a raw CID is not read back. -/
theorem cidV1Raw_refused : ¬ ∀ digest : B256, dagcborSha256Digest (cidV1Dagcbor digest) = some digest ∧
    dagcborSha256Digest (cidV1Raw digest) = some digest :=
  fun h => absurd ((dagcborSha256Digest_eq 0x55 0).symm.trans (h 0).2) nofun

theorem cidV1Dagcbor_injective {d e : B256} (h : cidV1Dagcbor d = cidV1Dagcbor e) : d = e := by
  have hd := dagcborSha256Digest_eq 0x71 d
  exact Option.some.inj (hd.symm.trans ((congrArg _ h).trans (dagcborSha256Digest_eq 0x71 e)))

end Trustgraphs
