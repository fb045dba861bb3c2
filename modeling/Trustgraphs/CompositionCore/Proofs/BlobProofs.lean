import Trustgraphs.CompositionCore.Compute
import Trustgraphs.Lib.Related

/-!
# What a decoded blob says (`BlobProofs`)

The entries of a blob ascend by account and are positive, and the blob is their canonical form.
-/

namespace Trustgraphs.Composition

open Outcome Related Option List

theorem hexDigitValue_eq_some {b v : UInt8} (hb : isLowerHex b = true)
    (h : hexDigitValue b = some v) : v.toNat < 16 ∧ b = Text.hexDigit v.toNat := by
  have hall : ∀ n : Fin 256, isLowerHex (UInt8.ofNat n) = true →
      ∀ v ∈ hexDigitValue (UInt8.ofNat n), v.toNat < 16 ∧ UInt8.ofNat n = Text.hexDigit v.toNat := by
    decide +kernel
  have := hall ⟨b.toNat, b.toNat_lt⟩
  simp only [UInt8.ofNat_toNat] at this
  exact this hb v h

theorem decodeHexPairs_eq_some {l bytes : Bytes} (hl : l.all isLowerHex = true)
    (h : decodeHexPairs l = some bytes) : l = Text.encodeHex bytes := by
  fun_induction decodeHexPairs l generalizing bytes with
  | case1 => rw [← Option.some.inj h]; rfl
  | case2 => exact absurd h (by simp)
  | case3 high low rest ih =>
    rw [all_cons, all_cons, Bool.and_eq_true, Bool.and_eq_true] at hl
    obtain ⟨hhigh, hlow, hrest⟩ := hl
    obtain ⟨a, ha, h⟩ := bind_eq_some_iff.mp h
    obtain ⟨b, hb, h⟩ := bind_eq_some_iff.mp h
    obtain ⟨bytes', hbytes, h⟩ := bind_eq_some_iff.mp h
    obtain ⟨ha16, ha⟩ := hexDigitValue_eq_some hhigh ha
    obtain ⟨hb16, hb⟩ := hexDigitValue_eq_some hlow hb
    have hbyte : (a * 16 + b).toNat = a.toNat * 16 + b.toNat := by
      rw [UInt8.toNat_add, UInt8.toNat_mul]
      show (a.toNat * 16 % 256 + b.toNat) % 256 = _
      omega
    rw [← Option.some.inj h, ih hrest hbytes, ha, hb]
    show _ = Text.hexDigit ((a * 16 + b).toNat / 16) :: Text.hexDigit ((a * 16 + b).toNat % 16) :: _
    rw [hbyte, show (a.toNat * 16 + b.toNat) / 16 = a.toNat by omega,
      show (a.toNat * 16 + b.toNat) % 16 = b.toNat by omega]
    rfl

theorem hexDigit_lt {m n : ℕ} (hn : n < 16) (h : m < n) : Text.hexDigit m < Text.hexDigit n := by
  have hall : ∀ a b : Fin 16, a < b → Text.hexDigit a < Text.hexDigit b := by decide
  exact hall ⟨m, h.trans hn⟩ ⟨n, hn⟩ h

theorem encodeHex_lt {l m : Bytes} (h : l < m) : Text.encodeHex l < Text.encodeHex m := by
  induction l generalizing m with
  | nil =>
    cases m with
    | nil => exact absurd h (lt_irrefl _)
    | cons c m => exact nil_lt_cons _ _
  | cons b l ih =>
    cases m with
    | nil => exact absurd h (not_lt_nil _)
    | cons c m =>
      have hb := b.toNat_lt
      have hc := c.toNat_lt
      show Text.hexDigit (b.toNat / 16) :: Text.hexDigit (b.toNat % 16) :: Text.encodeHex l <
        Text.hexDigit (c.toNat / 16) :: Text.hexDigit (c.toNat % 16) :: Text.encodeHex m
      rw [cons_lt_cons_iff, cons_lt_cons_iff]
      rcases cons_lt_cons_iff.mp h with hlt | ⟨rfl, hlt⟩
      · rw [UInt8.lt_iff_toNat_lt] at hlt
        rcases Nat.lt_or_ge (b.toNat / 16) (c.toNat / 16) with hhigh | hhigh
        · exact Or.inl (hexDigit_lt (by omega) hhigh)
        · have heq : b.toNat / 16 = c.toNat / 16 := by omega
          rw [heq]
          exact Or.inr ⟨rfl, Or.inl (hexDigit_lt (by omega) (by omega))⟩
      · exact Or.inr ⟨rfl, Or.inr ⟨rfl, ih hlt⟩⟩

theorem foldl_digit_pos {l : Bytes} {n : ℕ} (h : 0 < n) :
    0 < l.foldl (fun n b => n * 10 + (b.toNat - 48)) n := by
  induction l generalizing n with
  | nil => exact h
  | cons b l ih =>
    refine ih ?_
    show 0 < n * 10 + _
    omega

theorem digitsValue_pos {value : Bytes} (h : valueInvalid value = false) : 0 < Text.digitsValue value := by
  unfold valueInvalid at h
  simp only [Bool.or_eq_false_iff, Bool.and_eq_false_iff, beq_eq_false_iff_ne, Bool.not_eq_false',
    decide_eq_false_iff_not] at h
  obtain ⟨⟨⟨hne, hzero⟩, hlead⟩, hdigits⟩ := h
  cases value with
  | nil => exact absurd hne (by simp)
  | cons b l =>
    rw [all_cons, Bool.and_eq_true] at hdigits
    have hb : 48 ≤ b.toNat ∧ b.toNat ≤ 57 := by
      have := hdigits.1
      simpa [Text.isDigit, UInt8.le_iff_toNat_le] using this
    have hb48 : b ≠ 48 := by
      rintro rfl
      rcases hlead with hlen | hstart
      · have hl : l = [] := by
          rw [length_cons] at hlen
          exact eq_nil_of_length_eq_zero (by omega)
        exact hzero (by rw [hl]; decide)
      · have hzeroBytes : utf8 "0" = [48] := by decide
        rw [hzeroBytes] at hstart
        exact absurd hstart (by simp [Text.startsWith])
    have hne48 : b.toNat ≠ 48 := fun h => hb48 (UInt8.toNat_inj.mp h)
    have hfirst : 0 < 0 * 10 + (b.toNat - 48) := by omega
    exact foldl_digit_pos (l := l) hfirst

theorem decodeEntry_eq_ok {entry : Bytes × Bytes} {e : Address × U128} (h : decodeEntry entry = .ok e) :
    entry.1 = utf8 "0x" ++ Text.encodeHex e.1.bytes ∧ e.2 ≠ 0 := by
  unfold decodeEntry at h
  obtain ⟨haccount, h⟩ := of_guard h
  cases haddress : decodeAddress (entry.1.drop 2) with
  | none => rw [haddress] at h; exact absurd h (by simp [reject])
  | some address =>
    rw [haddress] at h
    obtain ⟨hvalue, h⟩ := of_guard h
    cases hparse : Text.parseUnsigned (2 ^ 128 - 1) entry.2 with
    | none => rw [hparse] at h; exact absurd h (by simp [reject])
    | some value =>
      rw [hparse] at h
      obtain rfl : (address, BitVec.ofNat 128 value) = e := ok_inj h
      constructor
      · unfold accountInvalid at haccount
        simp only [Bool.or_eq_true, not_or, Bool.not_eq_true', Bool.not_eq_false] at haccount
        obtain ⟨⟨-, hstart⟩, hhex⟩ := haccount
        obtain ⟨rest, hrest⟩ := isPrefixOf_iff_prefix.mp hstart
        have hdrop : entry.1.drop 2 = rest := by rw [← hrest]; rfl
        obtain ⟨bytes, hbytes, hslice⟩ := bind_eq_some_iff.mp haddress
        rw [FixedBytes.ofSlice_eq_some] at hslice
        rw [hdrop] at hbytes hhex
        rw [← hrest, decodeHexPairs_eq_some hhex hbytes, hslice]
      · rw [Bool.not_eq_true] at hvalue
        have hpos := digitsValue_pos hvalue
        unfold Text.parseUnsigned at hparse
        have hdigits : entry.2.all Text.isDigit = true := by
          unfold valueInvalid at hvalue
          simp only [Bool.or_eq_false_iff, Bool.not_eq_false'] at hvalue
          exact hvalue.2
        -- a digit is no plus sign
        have hstrip : Text.stripPrefix [43] entry.2 = none := by
          cases hs : Text.stripPrefix [43] entry.2 with
          | none => rfl
          | some r =>
            rw [Text.stripPrefix_eq_some.mp hs, all_append, Bool.and_eq_true] at hdigits
            exact absurd hdigits.1 (by decide)
        rw [hstrip, getD_none] at hparse
        dsimp only at hparse
        split at hparse
        · rename_i hok
          obtain rfl := Option.some.inj hparse
          intro hzero
          have hnat := congrArg BitVec.toNat hzero
          rw [BitVec.toNat_ofNat, Nat.mod_eq_of_lt (by omega)] at hnat
          exact hpos.ne' hnat
        · exact absurd hparse (by simp)

theorem lt_of_decodeEntry {entry entry' : Bytes × Bytes} {e e' : Address × U128}
    (h : decodeEntry entry = .ok e) (h' : decodeEntry entry' = .ok e') (hlt : entry.1 < entry'.1) :
    e.1 < e'.1 := by
  rw [(decodeEntry_eq_ok h).1, (decodeEntry_eq_ok h').1] at hlt
  have hlt : Text.encodeHex e.1.bytes < Text.encodeHex e'.1.bytes := by
    rcases cons_lt_cons_iff.mp hlt with h0 | ⟨-, hlt⟩
    · exact absurd h0 (lt_irrefl _)
    rcases cons_lt_cons_iff.mp hlt with h0 | ⟨-, hlt⟩
    · exact absurd h0 (lt_irrefl _)
    exact hlt
  by_contra hge
  rcases (not_lt.mp hge).lt_or_eq with hlt' | heq
  · exact lt_asymm hlt (encodeHex_lt hlt')
  · exact lt_irrefl _ (heq ▸ hlt)

theorem pairwise_decodeEntry {l : List (Bytes × Bytes)} {m : List (Address × U128)}
    (h : List.Forall₂ (fun entry e => decodeEntry entry = .ok e) l m)
    (hl : l.Pairwise fun a b => a.1 < b.1) : (m.map Prod.fst).Pairwise (· < ·) := by
  rw [pairwise_map]
  induction h with
  | nil => exact List.Pairwise.nil
  | cons hab hrest ih =>
    obtain ⟨ha, hl⟩ := List.pairwise_cons.mp hl
    refine List.pairwise_cons.mpr ⟨fun c hc => ?_, ih hl⟩
    obtain ⟨d, hd, hdc⟩ := exists_of_forall₂ hrest hc
    exact lt_of_decodeEntry hab hdc (ha d hd)

structure Decoded (blob : Bytes) (entries : List (Address × U128)) : Prop where
  sorted : (entries.map Prod.fst).Pairwise (· < ·)
  ne_nil : entries ≠ []
  pos : ∀ e ∈ entries, e.2 ≠ 0
  canonical : canonicalBlob (scoresOf entries) = blob

theorem decoded_of_decode {fromSlice : Bytes → Option (BTreeMap Bytes Bytes)}
    {blob : Bytes} {entries : List (Address × U128)}
    (h : decodeCanonicalScoreBlob fromSlice blob = .ok entries) : Decoded blob entries := by
  unfold decodeCanonicalScoreBlob at h
  cases hparsed : fromSlice blob with
  | none => rw [hparsed] at h; exact absurd h (by simp [reject])
  | some parsed =>
    rw [hparsed] at h
    obtain ⟨hne, h⟩ := of_guard h
    obtain ⟨entries', hmapM, h⟩ := of_bind h
    obtain ⟨hcanonical, h⟩ := of_guard h
    obtain rfl : entries' = entries := ok_inj h
    have hforall := mapM_eq_ok.mp hmapM
    refine ⟨pairwise_decodeEntry hforall parsed.toList_sorted, ?_, fun e he => ?_, not_not.mp hcanonical⟩
    · rintro rfl
      have hnil := forall₂_nil_right_iff.mp hforall
      refine hne ?_
      rw [Std.ExtTreeMap.isEmpty_eq_size_beq_zero, ← Std.ExtTreeMap.length_toList, hnil]
      rfl
    · obtain ⟨entry, -, hentry⟩ := exists_of_forall₂ hforall he
      exact (decodeEntry_eq_ok hentry).2

end Trustgraphs.Composition
