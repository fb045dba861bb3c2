import Trustgraphs.Lib.Bytes

/-!
# Text

Strings are their UTF-8 bytes. The separators here are ASCII, so that a string may be cut byte by
byte.
-/

namespace Trustgraphs.Text

open List

/-- A continuation byte. -/
def continues (b : UInt8) : Bool := 0x80 ≤ b && b ≤ 0xbf

/-- Whether the second byte of a character of three bytes fits the first. -/
def second3 (a b : UInt8) : Bool :=
  if a = 0xe0 then 0xa0 ≤ b && b ≤ 0xbf
  else if a = 0xed then 0x80 ≤ b && b ≤ 0x9f
  else continues b

/-- Whether the second byte of a character of four bytes fits the first. -/
def second4 (a b : UInt8) : Bool :=
  if a = 0xf0 then 0x90 ≤ b && b ≤ 0xbf
  else if a = 0xf4 then 0x80 ≤ b && b ≤ 0x8f
  else continues b

/-- Well-formed UTF-8: no surrogates, no overlong forms. -/
def validUtf8 : Bytes → Bool
  | [] => true
  | a :: l =>
    if a < 0x80 then validUtf8 l
    else
      match l with
      | [] => false
      | b :: l =>
        if a < 0xc2 then false
        else if a ≤ 0xdf then continues b && validUtf8 l
        else
          match l with
          | [] => false
          | c :: l =>
            if a ≤ 0xef then second3 a b && continues c && validUtf8 l
            else
              match l with
              | [] => false
              | d :: l =>
                if a ≤ 0xf4 then second4 a b && continues c && continues d && validUtf8 l
                else false

/-- Cut at the first separator, `none` when there is none. -/
def splitOnce (sep : UInt8) : Bytes → Option (Bytes × Bytes)
  | [] => none
  | b :: l => if b = sep then some ([], l) else (splitOnce sep l).map fun p => (b :: p.1, p.2)

theorem splitOnce_eq_some {sep : UInt8} {s l r : Bytes} :
    splitOnce sep s = some (l, r) ↔ s = l ++ sep :: r ∧ sep ∉ l := by
  induction s generalizing l with
  | nil =>
    constructor
    · intro h
      exact absurd h (by simp [splitOnce])
    · rintro ⟨h, -⟩
      exact absurd h.symm (by simp)
  | cons b s ih =>
    rw [splitOnce]
    by_cases hb : b = sep
    · subst hb
      rw [if_pos rfl, Option.some_inj, Prod.mk.injEq]
      constructor
      · rintro ⟨rfl, rfl⟩
        exact ⟨rfl, not_mem_nil⟩
      · rintro ⟨h, hl⟩
        cases l with
        | nil => exact ⟨rfl, (List.cons.inj h).2⟩
        | cons c l =>
          rw [(List.cons.inj h).1] at hl
          exact absurd List.mem_cons_self hl
    · rw [if_neg hb, Option.map_eq_some_iff]
      constructor
      · rintro ⟨⟨l', r'⟩, h, heq⟩
        obtain ⟨rfl, rfl⟩ := Prod.mk.inj heq
        obtain ⟨rfl, hl⟩ := ih.mp h
        refine ⟨rfl, fun hm => ?_⟩
        rcases List.mem_cons.mp hm with rfl | hm
        · exact hb rfl
        · exact hl hm
      · rintro ⟨h, hl⟩
        cases l with
        | nil => exact absurd (List.cons.inj h).1 hb
        | cons c l =>
          obtain ⟨rfl, hs⟩ := List.cons.inj h
          exact ⟨(l, r), ih.mpr ⟨hs, fun hm => hl (List.mem_cons_of_mem _ hm)⟩, rfl⟩

/-- The text starts with the prefix. -/
def startsWith (prefx s : Bytes) : Bool := prefx.isPrefixOf s

/-- The text after the prefix. -/
def stripPrefix (prefx s : Bytes) : Option Bytes :=
  if startsWith prefx s then some (s.drop prefx.length) else none

theorem stripPrefix_eq_some {prefx s r : Bytes} : stripPrefix prefx s = some r ↔ s = prefx ++ r := by
  unfold stripPrefix startsWith
  constructor
  · intro h
    split at h
    · rename_i hp
      obtain ⟨t, rfl⟩ := isPrefixOf_iff_prefix.mp hp
      rw [drop_left] at h
      rw [Option.some.inj h]
    · simp at h
  · rintro rfl
    rw [if_pos ( isPrefixOf_iff_prefix.mpr (prefix_append ..)), drop_left]

/-- A decimal digit. -/
def isDigit (b : UInt8) : Bool := 48 ≤ b && b ≤ 57

/-- The number that decimal digits spell. -/
def digitsValue (l : Bytes) : Nat := l.foldl (fun n b => n * 10 + (b.toNat - 48)) 0

theorem digitsValue_append_singleton (l : Bytes) (b : UInt8) :
    digitsValue (l ++ [b]) = digitsValue l * 10 + (b.toNat - 48) := by
  simp [digitsValue]

theorem digitsValue_lt {l : Bytes} (h : l.all isDigit = true) : digitsValue l < 10 ^ l.length := by
  induction l using List.reverseRecOn with
  | nil => simp [digitsValue]
  | append_singleton l b ih =>
    rw [all_append, Bool.and_eq_true] at h
    have hl := ih h.1
    have hb : b.toNat ≤ 57 := by
      have h2 := h.2
      simp only [all_cons, all_nil, Bool.and_true, isDigit, Bool.and_eq_true,
        decide_eq_true_eq, UInt8.le_iff_toNat_le] at h2
      exact h2.2
    rw [digitsValue_append_singleton, length_append, length_singleton, pow_succ]
    omega

/-- `parse` of an unsigned number up to a maximum: an optional plus sign and at least one digit. -/
def parseUnsigned (maximum : Nat) (s : Bytes) : Option Nat :=
  let digits := (stripPrefix [43] s).getD s
  if digits ≠ [] ∧ digits.all isDigit = true ∧ digitsValue digits ≤ maximum then some (digitsValue digits)
  else none

/-- A number in decimal digits. -/
def decimal (n : Nat) : Bytes := (Nat.toDigits 10 n).map fun c => UInt8.ofNat c.toNat

/-- The pieces between the separators. -/
def split (sep : UInt8) : Bytes → List Bytes
  | [] => [[]]
  | b :: l =>
    match split sep l with
    | [] => [[b]]
    | piece :: pieces => if b = sep then [] :: piece :: pieces else (b :: piece) :: pieces

/-- The lowercase hexadecimal digit of a number below 16. -/
def hexDigit (n : Nat) : UInt8 := if n < 10 then UInt8.ofNat (48 + n) else UInt8.ofNat (87 + n)

/-- The bytes in lower-case hexadecimal. -/
def encodeHex (l : Bytes) : Bytes := l.flatMap fun b => [hexDigit (b.toNat / 16), hexDigit (b.toNat % 16)]

theorem hexDigit_inj {m n : Nat} (hm : m < 16) (hn : n < 16) : hexDigit m = hexDigit n ↔ m = n := by
  have h : ∀ a b : Fin 16, hexDigit a = hexDigit b ↔ a = b := by decide
  rw [h ⟨m, hm⟩ ⟨n, hn⟩, Fin.mk.injEq]

theorem length_encodeHex (l : Bytes) : (encodeHex l).length = 2 * l.length := by
  induction l with
  | nil => rfl
  | cons b l ih =>
    show (encodeHex l).length + 2 = _
    rw [ih, length_cons]
    omega

theorem encodeHex_injective : Function.Injective encodeHex := by
  intro l m h
  induction l generalizing m with
  | nil =>
    cases m with
    | nil => rfl
    | cons c m => exact absurd h (by simp [encodeHex])
  | cons b l ih =>
    cases m with
    | nil => exact absurd h (by simp [encodeHex])
    | cons c m =>
      have hb := b.toNat_lt
      have hc := c.toNat_lt
      obtain ⟨hhigh, h⟩ := List.cons.inj h
      obtain ⟨hlow, h⟩ := List.cons.inj h
      rw [hexDigit_inj (by omega) (by omega)] at hhigh hlow
      rw [ih h, UInt8.toNat_inj.mp (by omega : b.toNat = c.toNat)]

/-- A string of the Rust standard library: bytes that are UTF-8. -/
@[ext]
structure Str where
  bytes : Bytes
  utf8 : validUtf8 bytes = true
deriving DecidableEq

/-- A string of well-formed bytes. -/
def Str.fromUtf8 (bytes : Bytes) : Option Str :=
  if h : validUtf8 bytes = true then some ⟨bytes, h⟩ else none

theorem Str.fromUtf8_eq_some {bytes : Bytes} {s : Str} : Str.fromUtf8 bytes = some s ↔ bytes = s.bytes := by
  unfold Str.fromUtf8
  constructor
  · intro h
    split at h
    · rw [← Option.some.inj h]
    · exact absurd h (by simp)
  · rintro rfl
    rw [dif_pos s.utf8]

end Trustgraphs.Text

/-!
# Decimal digits

A run of digits is determined by its length and its number (`eq_of_digitsValue`). Without zeros in front it is
determined by its number, and without zeros behind it by its part of a unit.
-/

namespace Trustgraphs.Text

open List

theorem toNat_of_isDigit {b : UInt8} (h : isDigit b = true) : 48 ≤ b.toNat ∧ b.toNat ≤ 57 := by
  simpa [isDigit, UInt8.le_iff_toNat_le] using h

theorem digitsValue_append (l m : Bytes) :
    digitsValue (l ++ m) = digitsValue l * 10 ^ m.length + digitsValue m := by
  induction m using List.reverseRecOn with
  | nil => simp [digitsValue]
  | append_singleton m b ih =>
    rw [← append_assoc, digitsValue_append_singleton, ih, digitsValue_append_singleton, length_append,
      length_singleton, pow_succ]
    ring

theorem digitsValue_zeros (k : ℕ) : digitsValue (List.replicate k 48) = 0 := by
  induction k with
  | zero => rfl
  | succ k ih => rw [replicate_succ', digitsValue_append_singleton, ih]; rfl

theorem all_isDigit_zeros (k : ℕ) : (List.replicate k 48).all isDigit = true := by
  rw [all_eq_true]
  intro b hb
  rw [eq_of_mem_replicate hb]
  rfl

variable {l m : Bytes} {n : ℕ}

theorem eq_of_digitsValue (hl : l.all isDigit = true) (hm : m.all isDigit = true)
    (hlength : l.length = m.length) (h : digitsValue l = digitsValue m) : l = m := by
  induction l using List.reverseRecOn generalizing m with
  | nil => exact (eq_nil_of_length_eq_zero hlength.symm).symm
  | append_singleton l b ih =>
    rcases eq_nil_or_concat m with rfl | ⟨m, c, rfl⟩
    · simp at hlength
    · rw [concat_eq_append] at hm hlength h ⊢
      rw [digitsValue_append_singleton, digitsValue_append_singleton] at h
      rw [all_append, Bool.and_eq_true] at hl hm
      have hb := toNat_of_isDigit (all_eq_true.mp hl.2 b mem_cons_self)
      have hc := toNat_of_isDigit (all_eq_true.mp hm.2 c mem_cons_self)
      rw [length_append, length_append] at hlength
      have hlast : b = c := UInt8.toNat_inj.mp (by omega)
      rw [ih hl.1 hm.1 (by simpa using hlength) (by omega), hlast]

theorem digitsValue_padded (hl : l.all isDigit = true) (hlength : l.length ≤ n) :
    (List.replicate (n - l.length) 48 ++ l).all isDigit = true ∧
    (List.replicate (n - l.length) 48 ++ l).length = n ∧
    digitsValue (List.replicate (n - l.length) 48 ++ l) = digitsValue l := by
  refine ⟨?_, ?_, ?_⟩
  · rw [all_append, all_isDigit_zeros, hl]
    rfl
  · rw [length_append, length_replicate]
    omega
  · rw [digitsValue_append, digitsValue_zeros, Nat.zero_mul, Nat.zero_add]

theorem digitsValue_scaled (hl : l.all isDigit = true) (hlength : l.length ≤ n) :
    (l ++ List.replicate (n - l.length) 48).all isDigit = true ∧
    (l ++ List.replicate (n - l.length) 48).length = n ∧
    digitsValue (l ++ List.replicate (n - l.length) 48) = digitsValue l * 10 ^ (n - l.length) := by
  refine ⟨?_, ?_, ?_⟩
  · rw [all_append, all_isDigit_zeros, hl]
    rfl
  · rw [length_append, length_replicate]
    omega
  · rw [digitsValue_append, digitsValue_zeros, length_replicate, Nat.add_zero]

/-- A numeral: at least one digit, and no zero in front of others. -/
structure Numeral (l : Bytes) : Prop where
  digits : l.all isDigit = true
  nonempty : l ≠ []
  leading : l = [48] ∨ l.head? ≠ some 48

theorem Numeral.eq_of_zeros {k : ℕ} (hl : l ≠ []) (hm : Numeral m)
    (h : List.replicate k 48 ++ l = m) : l = m := by
  cases k with
  | zero => exact h
  | succ k =>
    rw [replicate_succ, cons_append] at h
    rcases hm.leading with hzero | hne
    · rw [hzero] at h
      have hnil := (append_eq_nil_iff.mp (List.cons.inj h).2).2
      exact absurd hnil hl
    · exact absurd (by rw [← h]; rfl) hne

theorem Numeral.eq_of_digitsValue (hl : Numeral l) (hm : Numeral m)
    (h : digitsValue l = digitsValue m) : l = m := by
  obtain ⟨hld, hll, hlv⟩ := digitsValue_padded hl.digits (le_max_left l.length m.length)
  obtain ⟨hmd, hml, hmv⟩ := digitsValue_padded hm.digits (le_max_right l.length m.length)
  have heq := Text.eq_of_digitsValue hld hmd (hll.trans hml.symm) (by rw [hlv, hmv, h])
  rcases le_total l.length m.length with hle | hle
  · rw [max_eq_right hle, Nat.sub_self, replicate_zero, nil_append] at heq
    exact hm.eq_of_zeros hl.nonempty heq
  · rw [max_eq_left hle, Nat.sub_self, replicate_zero, nil_append] at heq
    exact (hl.eq_of_zeros hm.nonempty heq.symm).symm

/-- Digits behind the point: none of them is a zero at the end. -/
structure Fraction (l : Bytes) : Prop where
  digits : l.all isDigit = true
  trailing : l.getLast? ≠ some 48

theorem Fraction.eq_of_zeros {k : ℕ} (hm : Fraction m) (h : l ++ List.replicate k 48 = m) : l = m := by
  cases k with
  | zero => rwa [replicate_zero, append_nil] at h
  | succ k =>
    rw [replicate_succ', ← append_assoc] at h
    exact absurd (by rw [← h, getLast?_concat]) hm.trailing

theorem Fraction.eq_of_digitsValue (hl : Fraction l) (hm : Fraction m) (hln : l.length ≤ n) (hmn : m.length ≤ n)
    (h : digitsValue l * 10 ^ (n - l.length) = digitsValue m * 10 ^ (n - m.length)) : l = m := by
  obtain ⟨hld, hll, hlv⟩ := digitsValue_scaled hl.digits hln
  obtain ⟨hmd, hml, hmv⟩ := digitsValue_scaled hm.digits hmn
  have heq := Text.eq_of_digitsValue hld hmd (hll.trans hml.symm) (by rw [hlv, hmv, h])
  rcases le_total l.length m.length with hle | hle
  · obtain ⟨k, hk⟩ := Nat.exists_eq_add_of_le hle
    have hsplit : n - l.length = k + (n - m.length) := by omega
    rw [hsplit, replicate_add, ← append_assoc] at heq
    exact hm.eq_of_zeros (append_cancel_right heq)
  · obtain ⟨k, hk⟩ := Nat.exists_eq_add_of_le hle
    have hsplit : n - m.length = k + (n - l.length) := by omega
    rw [hsplit, replicate_add, ← append_assoc] at heq
    exact (hl.eq_of_zeros (append_cancel_right heq).symm).symm

theorem digitsValue_scaled_lt (hl : l.all isDigit = true) (hlength : l.length ≤ n) :
    digitsValue l * 10 ^ (n - l.length) < 10 ^ n := by
  obtain ⟨hd, hlen, hv⟩ := digitsValue_scaled hl hlength
  have hlt := digitsValue_lt hd
  rw [hlen, hv] at hlt
  exact hlt

theorem Numeral.pos (hl : Numeral l) (hne : l ≠ [48]) : 0 < digitsValue l := by
  rw [Nat.pos_iff_ne_zero]
  intro hzero
  have hnumeral : Numeral [48] := ⟨rfl, by simp, .inl rfl⟩
  exact hne (hl.eq_of_digitsValue hnumeral hzero)

theorem Fraction.pos (hl : Fraction l) (hne : l ≠ []) : 0 < digitsValue l := by
  rw [Nat.pos_iff_ne_zero]
  intro hzero
  have hempty : Fraction [] := ⟨rfl, by simp⟩
  refine hne (hl.eq_of_digitsValue hempty le_rfl (Nat.zero_le _) ?_)
  rw [hzero, Nat.zero_mul]
  exact (Nat.zero_mul _).symm

end Trustgraphs.Text
