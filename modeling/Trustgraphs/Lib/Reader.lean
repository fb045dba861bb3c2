import Trustgraphs.Lib.Bytes
import Trustgraphs.Lib.Outcome

/-!
# Exact readers

A reader takes an item off the front of its input and may fail. It is *exact* for an encoding when it
returns the items that fit whose encoding the input starts with, moves past that encoding, and does not
panic when it is sure of its resources. Exact readers compose: a value that is read in parts is encoded
by the parts in that order, and nothing is left to choose on either side.
-/

namespace Trustgraphs.Codec

open List

variable {S C E α β : Type}

/-- States of reading, and what is left to be read in each. -/
structure Feed (S C : Type) where
  /-- The states in which reading makes sense. -/
  Ok : C → Prop
  /-- What is still to be read. -/
  rest : C → List S
  advance : C → Nat → C
  ok_advance : ∀ c n, Ok c → n ≤ (rest c).length → Ok (advance c n)
  rest_advance : ∀ c n, rest (advance c n) = (rest c).drop n
  advance_zero : ∀ c, advance c 0 = c
  advance_advance : ∀ c m n, advance (advance c m) n = advance c (m + n)

variable {P : Prop} {F : Feed S C}

/-- The reader returns the items that fit whose encoding comes next, and never panics if `P` holds. -/
structure Exact (P : Prop) (F : Feed S C) (read : C → Except (Abort E) (α × C)) (enc : α → List S)
    (fits : α → Prop) : Prop where
  total : P → ∀ c, F.Ok c → read c ≠ .error .panic
  iff : ∀ c, F.Ok c → ∀ a c',
    read c = .ok (a, c') ↔ fits a ∧ enc a <+: F.rest c ∧ c' = F.advance c (enc a).length

theorem append_prefix_iff {l m r : List S} : l ++ m <+: r ↔ l <+: r ∧ m <+: r.drop l.length := by
  constructor
  · rintro ⟨t, rfl⟩
    rw [List.append_assoc, drop_left]
    exact ⟨prefix_append .., prefix_append ..⟩
  · rintro ⟨⟨s, rfl⟩, hm⟩
    rw [drop_left] at hm
    exact (prefix_append_right_inj l).mpr hm

namespace Exact

variable {read : C → Except (Abort E) (α × C)} {enc enc' : α → List S} {fits fits' : α → Prop}

theorem ok_advance (_ : Exact P F read enc fits) {c : C} (hc : F.Ok c) {a : α}
    (ha : enc a <+: F.rest c) : F.Ok (F.advance c (enc a).length) :=
  F.ok_advance c _ hc ha.length_le

theorem congr (h : Exact P F read enc fits) (hfits : ∀ a, fits a ↔ fits' a)
    (henc : ∀ a, fits a → enc a = enc' a) : Exact P F read enc' fits' where
  total := h.total
  iff := by
    intro c hc a c'
    rw [h.iff c hc, ← hfits]
    refine and_congr_right fun ha => ?_
    rw [henc a ha]

theorem pure (a : α) : Exact P F (fun c => (.ok (a, c) : Except (Abort E) (α × C))) (fun _ => [])
    (fun b => b = a) where
  total := fun _ _ _ h => nomatch h
  iff := by
    intro c _ b c'
    rw [Except.ok.injEq, Prod.mk.injEq, length_nil, F.advance_zero]
    constructor
    · rintro ⟨rfl, rfl⟩
      exact ⟨rfl, nil_prefix, rfl⟩
    · rintro ⟨rfl, -, rfl⟩
      exact ⟨rfl, rfl⟩

theorem fail (e : E) (h : ∀ a, ¬ fits a) :
    Exact P F (fun _ => (.error (.error e) : Except (Abort E) (α × C))) enc fits where
  total := by simp
  iff := by simp [h]

theorem guard {p : Prop} [Decidable p] {e : E} (h : ¬ p → Exact P F read enc fits) :
    Exact P F (fun c => if p then .error (.error e) else read c) enc (fun a => ¬ p ∧ fits a) := by
  by_cases hp : p
  · simp only [hp, if_true]
    exact fail e (by simp)
  · simp only [hp, if_false, not_false_iff, true_and]
    exact h hp

theorem guard_fits {p : Prop} [Decidable p] {e : E} (hp : ∀ a, fits a → ¬ p)
    (h : ¬ p → Exact P F read enc fits) :
    Exact P F (fun c => if p then .error (.error e) else read c) enc fits :=
  (guard h).congr (fun a => ⟨And.right, fun ha => ⟨hp a ha, ha⟩⟩) (fun _ _ => rfl)

theorem check {γ : Type} {x : Except (Abort E) γ} {f : γ → C → Except (Abort E) (α × C)}
    (hx : P → x ≠ .error .panic) (h : ∀ u, x = .ok u → Exact P F (f u) enc fits) :
    Exact P F (fun c => x >>= fun u => f u c) enc (fun a => (∃ u, x = .ok u) ∧ fits a) := by
  cases x with
  | error e =>
    cases e with
    | panic => exact ⟨fun hP => absurd rfl (hx hP), by simp⟩
    | error e => exact fail e (by simp)
  | ok u => exact (h u rfl).congr (fun a => by simp) (fun _ _ => rfl)

theorem require {x : Except (Abort E) Unit} (hx : P → x ≠ .error .panic) (h : Exact P F read enc fits) :
    Exact P F (fun c => x >>= fun _ => read c) enc (fun a => x = .ok () ∧ fits a) :=
  (check hx fun _ _ => h).congr (fun _ => and_congr_left' Unique.exists_iff) (fun _ _ => rfl)

variable {encA : α → List S} {fitsA : α → Prop}

theorem bind {f : α × C → Except (Abort E) (β × C)} {enc : β → List S} {fits : β → Prop}
    (h : Exact P F read encA fitsA) (encB : α → β → List S) (fitsB : α → β → Prop)
    (hf : ∀ a, fitsA a → Exact P F (fun c => f (a, c)) (encB a) (fitsB a))
    (hfits : ∀ b, fits b ↔ ∃ a, fitsA a ∧ fitsB a b)
    (henc : ∀ a b, fitsA a → fitsB a b → enc b = encA a ++ encB a b) :
    Exact P F (fun c => read c >>= f) enc fits where
  total := by
    intro hP c hc hpanic
    obtain hr | ⟨⟨a, c₁⟩, hr, hfa⟩ := Outcome.bind_eq_error.mp hpanic
    · exact h.total hP c hc hr
    · obtain ⟨hfits, hpre, rfl⟩ := (h.iff c hc a c₁).mp hr
      exact (hf a hfits).total hP _ (h.ok_advance hc hpre) hfa
  iff := by
    intro c hc b c'
    rw [Outcome.bind_eq_ok]
    -- the two parts of an encoding, one after the other
    have hsplit : ∀ a, fitsA a → fitsB a b → (enc b <+: F.rest c ∧ c' = F.advance c (enc b).length ↔
        encA a <+: F.rest c ∧ encB a b <+: F.rest (F.advance c (encA a).length) ∧
          c' = F.advance (F.advance c (encA a).length) (encB a b).length) := by
      intro a ha hb
      rw [henc a b ha hb, length_append, ← F.advance_advance, append_prefix_iff, ← F.rest_advance, and_assoc]
    constructor
    · rintro ⟨⟨a, c₁⟩, hr, hfa⟩
      obtain ⟨ha, hpre, rfl⟩ := (h.iff c hc a c₁).mp hr
      obtain ⟨hb, hrest⟩ := ((hf a ha).iff _ (h.ok_advance hc hpre) b c').mp hfa
      exact ⟨(hfits b).mpr ⟨a, ha, hb⟩, (hsplit a ha hb).mpr ⟨hpre, hrest⟩⟩
    · rintro ⟨hb, hrest⟩
      obtain ⟨a, ha, hb⟩ := (hfits b).mp hb
      obtain ⟨hpre, hrest⟩ := (hsplit a ha hb).mp hrest
      refine ⟨(a, F.advance c (encA a).length), (h.iff c hc _ _).mpr ⟨ha, hpre, rfl⟩, ?_⟩
      exact ((hf _ ha).iff _ (h.ok_advance hc hpre) b _).mpr ⟨hb, hrest⟩

theorem field {f : α × C → Except (Abort E) (β × C)} {encB : α → β → List S}
    {fitsB : α → β → Prop} (π : β → α) (h : Exact P F read encA fitsA)
    (hf : ∀ a, fitsA a → Exact P F (fun c => f (a, c)) (encB a) (fitsB a)) (hπ : ∀ a b, fitsB a b → π b = a) :
    Exact P F (fun c => read c >>= f) (fun b => encA (π b) ++ encB (π b) b)
      (fun b => fitsA (π b) ∧ fitsB (π b) b) := by
  refine h.bind encB fitsB hf (fun b => ⟨fun hb => ⟨π b, hb⟩, ?_⟩) ?_
  · rintro ⟨a, ha, hb⟩
    rw [hπ a b hb]
    exact ⟨ha, hb⟩
  · intro a b _ hb
    rw [hπ a b hb]

end Exact

end Trustgraphs.Codec

/-!
# Bounded readers

A reader consumes a byte string from the front and returns what is left. Every read fails with the
given error when the bytes run out. A reader reads an encoding (`Reads`) when what it accepts are the
encodings of the items that fit, and a run of such readers reads the concatenation.
-/

namespace Trustgraphs.Reader

open List

variable {E : Type} (truncated : E)

/-- The next `n` bytes and the rest. -/
def take (n : Nat) (buf : Bytes) : Except E (Bytes × Bytes) :=
  if n ≤ buf.length then .ok (buf.take n, buf.drop n) else .error truncated

/-- A fixed-width value and the rest. -/
def array (n : Nat) (buf : Bytes) : Except E (FixedBytes n × Bytes) :=
  if h : (buf.take n).length = n then .ok (⟨buf.take n, h⟩, buf.drop n) else .error truncated

/-- A byte and the rest. -/
def u8 : Bytes → Except E (UInt8 × Bytes)
  | [] => .error truncated
  | b :: buf => .ok (b, buf)

/-- A big-endian word of two bytes. -/
def u16 (buf : Bytes) : Except E (UInt16 × Bytes) := do
  let (l, buf) ← take truncated 2 buf
  .ok (UInt16.ofNat (ofBeBytes l), buf)

/-- A big-endian word of four bytes. -/
def u32 (buf : Bytes) : Except E (UInt32 × Bytes) := do
  let (l, buf) ← take truncated 4 buf
  .ok (UInt32.ofNat (ofBeBytes l), buf)

/-- A big-endian word of eight bytes. -/
def u64 (buf : Bytes) : Except E (UInt64 × Bytes) := do
  let (l, buf) ← take truncated 8 buf
  .ok (UInt64.ofNat (ofBeBytes l), buf)

/-- So many items, one after the other. -/
def repeated {α : Type} (item : Bytes → Except E (α × Bytes)) : Nat → Bytes → Except E (List α × Bytes)
  | 0, buf => .ok ([], buf)
  | n + 1, buf => do
    let (a, buf) ← item buf
    let (as, buf) ← repeated item n buf
    .ok (a :: as, buf)

variable {truncated}

variable {buf rest : Bytes}

theorem take_eq_ok {n : Nat} {l : Bytes} :
    take truncated n buf = .ok (l, rest) ↔ buf = l ++ rest ∧ l.length = n := by
  unfold take
  constructor
  · intro h
    by_cases hn : n ≤ buf.length
    · rw [if_pos hn, Except.ok.injEq, Prod.mk.injEq] at h
      obtain ⟨rfl, rfl⟩ := h
      exact ⟨(take_append_drop n buf).symm, length_take_of_le hn⟩
    · rw [if_neg hn] at h
      exact absurd h (by simp)
  · rintro ⟨rfl, rfl⟩
    rw [if_pos (by simp)]
    simp

theorem array_eq_ok {n : Nat} {a : FixedBytes n} :
    array truncated n buf = .ok (a, rest) ↔ buf = a.bytes ++ rest := by
  unfold array
  constructor
  · intro h
    by_cases hn : (buf.take n).length = n
    · rw [dif_pos hn, Except.ok.injEq, Prod.mk.injEq] at h
      obtain ⟨rfl, rfl⟩ := h
      exact (take_append_drop n buf).symm
    · rw [dif_neg hn] at h
      exact absurd h (by simp)
  · rintro rfl
    have htake : (a.bytes ++ rest).take n = a.bytes := take_left' a.size
    have hdrop : (a.bytes ++ rest).drop n = rest := drop_left' a.size
    have hlen : ((a.bytes ++ rest).take n).length = n := by rw [htake, a.size]
    rw [dif_pos hlen, hdrop]
    congr

theorem u8_eq_ok {b : UInt8} : u8 truncated buf = .ok (b, rest) ↔ buf = b :: rest := by
  cases buf with
  | nil => simp [u8]
  | cons c buf => simp [u8]

theorem number_eq_ok {N : Type} {k : ℕ} {ofNat : ℕ → N} {toNat : N → ℕ}
    (hto : ∀ x, toNat x < 256 ^ k) (hof : ∀ n < 256 ^ k, toNat (ofNat n) = n)
    (hinj : ∀ x, ofNat (toNat x) = x) {x : N} :
    (do
      let (l, buf) ← take truncated k buf
      .ok (ofNat (ofBeBytes l), buf)) = .ok (x, rest) ↔ buf = beBytes k (toNat x) ++ rest := by
  rw [Outcome.bind_eq_ok]
  constructor
  · rintro ⟨⟨l, buf'⟩, hl, h⟩
    obtain ⟨rfl, hlen⟩ := take_eq_ok.mp hl
    obtain ⟨rfl, rfl⟩ := Prod.mk.inj (Except.ok.inj h)
    have hlt := ofBeBytes_lt l
    have hbytes := beBytes_ofBeBytes l
    rw [hlen] at hlt hbytes
    rw [hof _ hlt, hbytes]
  · rintro rfl
    refine ⟨(beBytes k (toNat x), rest), take_eq_ok.mpr ⟨rfl, length_beBytes ..⟩, ?_⟩
    show Except.ok (ofNat (ofBeBytes (beBytes k (toNat x))), rest) = _
    rw [ofBeBytes_beBytes, Nat.mod_eq_of_lt (hto x), hinj]

theorem u16_eq_ok {x : UInt16} : u16 truncated buf = .ok (x, rest) ↔ buf = beBytes 2 x.toNat ++ rest :=
  number_eq_ok (fun x => x.toNat_lt) (fun _ h => UInt16.toNat_ofNat_of_lt' h)
    (fun _ => UInt16.ofNat_toNat)

theorem u32_eq_ok {x : UInt32} : u32 truncated buf = .ok (x, rest) ↔ buf = beBytes 4 x.toNat ++ rest :=
  number_eq_ok (fun x => x.toNat_lt) (fun _ h => UInt32.toNat_ofNat_of_lt' h)
    (fun _ => UInt32.ofNat_toNat)

theorem u64_eq_ok {x : UInt64} : u64 truncated buf = .ok (x, rest) ↔ buf = beBytes 8 x.toNat ++ rest :=
  number_eq_ok (fun x => x.toNat_lt) (fun _ h => UInt64.toNat_ofNat_of_lt' h)
    (fun _ => UInt64.ofNat_toNat)

/-! ## Readers of an encoding -/

/-- The reader accepts the encodings of the items that fit, and returns what follows. -/
def Reads {α : Type} (item : Bytes → Except E (α × Bytes)) (enc : α → Bytes) (fits : α → Prop) : Prop :=
  ∀ buf a rest, item buf = .ok (a, rest) ↔ fits a ∧ buf = enc a ++ rest

theorem Reads.repeated {α : Type} {item : Bytes → Except E (α × Bytes)}
    {enc : α → Bytes} {fits : α → Prop} (h : Reads item enc fits) (n : ℕ) :
    Reads (repeated item n) (fun as => as.flatMap enc) (fun as => as.length = n ∧ ∀ a ∈ as, fits a) := by
  induction n with
  | zero =>
    intro buf as rest
    show Except.ok ([], buf) = .ok (as, rest) ↔ _
    rw [Except.ok.injEq, Prod.mk.injEq]
    constructor
    · rintro ⟨rfl, rfl⟩
      exact ⟨⟨rfl, by simp⟩, rfl⟩
    · rintro ⟨⟨hlen, -⟩, rfl⟩
      obtain rfl := length_eq_zero_iff.mp hlen
      exact ⟨rfl, rfl⟩
  | succ n ih =>
    intro buf as rest
    unfold Reader.repeated
    rw [Outcome.bind_eq_ok]
    constructor
    · rintro ⟨⟨a, buf'⟩, ha, hbind⟩
      obtain ⟨⟨as', buf''⟩, has, hok⟩ := Outcome.of_bind hbind
      obtain ⟨rfl, rfl⟩ := Prod.mk.inj (Except.ok.inj hok)
      obtain ⟨hfit, rfl⟩ := (h buf a buf').mp ha
      obtain ⟨⟨hlen, hfits⟩, rfl⟩ := (ih buf' as' buf'').mp has
      refine ⟨⟨congrArg (· + 1) hlen, ?_⟩, ?_⟩
      · rintro b hb
        rcases mem_cons.mp hb with rfl | hb
        · exact hfit
        · exact hfits b hb
      · show _ = (a :: as').flatMap enc ++ buf''
        rw [flatMap_cons, append_assoc]
    · rintro ⟨⟨hlen, hfits⟩, rfl⟩
      cases as with
      | nil => exact absurd hlen (by simp)
      | cons a as =>
        refine ⟨(a, as.flatMap enc ++ rest), (h _ a _).mpr ⟨hfits a mem_cons_self, ?_⟩, Outcome.bind_eq_ok.mpr
          ⟨(as, rest), (ih _ as rest).mpr ⟨⟨Nat.succ.inj hlen, ?_⟩, rfl⟩, rfl⟩⟩
        · show (a :: as).flatMap enc ++ rest = _
          rw [flatMap_cons, append_assoc]
        · exact fun b hb => hfits b (mem_cons_of_mem a hb)

end Trustgraphs.Reader
