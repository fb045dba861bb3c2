import Trustgraphs.Lib.Reader
import Trustgraphs.NostrEnvelope.Tgnw
import Trustgraphs.ZkCore.Proofs.CidProofs

/-!
# TGNW bundles have one encoding

Every reader of the decoder is exact for the bytes that the encoder writes (`Codec.Exact`).
-/

namespace Trustgraphs.Nostr.Tgnw

open Outcome Codec List Option
open Text (Str)

/-- A cursor reads its input from its offset on. A buffer has less than `2 ^ 64` bytes. -/
def feed : Feed UInt8 Cursor where
  Ok c := c.offset ≤ c.input.length ∧ c.input.length < 2 ^ 64
  rest c := c.input.drop c.offset
  advance c n := { c with offset := c.offset + n }
  ok_advance := by
    intro c n hc hn
    rw [length_drop] at hn
    exact ⟨by show c.offset + n ≤ c.input.length; omega, hc.2⟩
  rest_advance c n := by
    show c.input.drop (c.offset + n) = _
    rw [drop_drop]
  advance_zero c := rfl
  advance_advance c m n := by
    show Cursor.mk c.input (c.offset + m + n) = _
    rw [Nat.add_assoc]

variable {P : Prop}

theorem take_exact (n : ℕ) : Exact P feed (Cursor.take n) id (fun l => l.length = n) where
  total := by
    intro _ c hc
    unfold Cursor.take Cursor.slice fail
    by_cases h : c.input.length < c.offset + n
    · by_cases h' : 2 ^ 64 ≤ c.offset + n
      · rw [if_pos h']
        simp
      · rw [if_neg h', if_pos h]
        simp
    · rw [if_neg (by have := hc.2; omega), if_neg h, if_pos ⟨by omega, by omega⟩, ok_bind]
      simp
  iff := by
    intro c hc l c'
    unfold Cursor.take fail
    obtain ⟨hoff, hlen⟩ := hc
    show _ ↔ _ ∧ l <+: c.input.drop c.offset ∧ c' = feed.advance c l.length
    by_cases h : c.offset + n ≤ c.input.length
    · rw [if_neg (by omega), if_neg (by omega), Cursor.slice, if_pos ⟨by omega, h⟩, ok_bind,
        Except.ok.injEq, Prod.mk.injEq, Nat.add_sub_cancel_left]
      constructor
      · rintro ⟨rfl, rfl⟩
        have hl : ((c.input.drop c.offset).take n).length = n := by
          rw [length_take, length_drop]
          omega
        exact ⟨hl, take_prefix .., by rw [hl]; rfl⟩
      · rintro ⟨rfl, hpre, rfl⟩
        exact ⟨(prefix_iff_eq_take.mp hpre).symm, rfl⟩
    · have hno : ¬ (l.length = n ∧ l <+: c.input.drop c.offset ∧ c' = feed.advance c l.length) := by
        rintro ⟨rfl, hpre, -⟩
        have := hpre.length_le
        rw [length_drop] at this
        omega
      rw [iff_false_right hno]
      by_cases h' : 2 ^ 64 ≤ c.offset + n
      · rw [if_pos h']
        simp
      · rw [if_neg h', if_pos (by omega)]
        simp

theorem array_exact (n : ℕ) : Exact P feed (Cursor.array n) FixedBytes.bytes (fun _ => True) := by
  unfold Cursor.array
  refine (take_exact n).bind (fun _ _ => [])
    (fun l a => FixedBytes.ofSlice n l = some a) (fun l hl => ?_) (fun a => ?_)
    (fun l a _ h => ?_)
  · have h : FixedBytes.ofSlice n l = some ⟨l, hl⟩ := FixedBytes.ofSlice_eq_some.mpr rfl
    show Exact P feed (fun c => ofPanic (FixedBytes.ofSlice n l) >>= fun a => .ok (a, c)) _ _
    rw [h]
    exact (Exact.pure _).congr (fun a => by rw [some_inj, eq_comm]) (fun _ _ => rfl)
  · exact iff_of_true trivial ⟨a.bytes, a.size, FixedBytes.ofSlice_eq_some.mpr rfl⟩
  · rw [← FixedBytes.ofSlice_eq_some.mp h]
    exact (append_nil l).symm

theorem byte_exact : Exact P feed Cursor.byte (fun b => [b]) (fun _ => True) := by
  unfold Cursor.byte
  refine (take_exact 1).bind (fun _ _ => []) (fun l b => l = [b])
    (fun l hl => ?_) (fun b => iff_of_true trivial ⟨[b], rfl, rfl⟩) ?_
  · obtain ⟨b, rfl⟩ := length_eq_one_iff.mp hl
    exact (Exact.pure b).congr (fun a => by simp [eq_comm]) (fun _ _ => rfl)
  · rintro _ b - rfl
    rfl

theorem number_exact {N : Type} (k : ℕ) (ofNat : ℕ → N) (toNat : N → ℕ)
    (hto : ∀ x, toNat x < 256 ^ k) (hof : ∀ n < 256 ^ k, toNat (ofNat n) = n)
    (hinj : ∀ x, ofNat (toNat x) = x) :
    Exact P feed (fun c => do
      let (bytes, c) ← c.array k
      .ok (ofNat (ofBeBytes bytes.bytes), c)) (fun x => beBytes k (toNat x)) (fun _ => True) := by
  refine (array_exact k).bind (fun _ _ => [])
    (fun a x => x = ofNat (ofBeBytes a.bytes)) (fun a _ => Exact.pure _)
    (fun x => iff_of_true trivial ⟨FixedBytes.ofNat k (toNat x), trivial, ?_⟩) ?_
  · show x = ofNat (ofBeBytes (beBytes k (toNat x)))
    rw [ofBeBytes_beBytes, Nat.mod_eq_of_lt (hto x), hinj]
  · rintro a x - rfl
    have hlt := ofBeBytes_lt a.bytes
    rw [a.size] at hlt
    have h := beBytes_ofBeBytes a.bytes
    rw [a.size] at h
    show beBytes k (toNat (ofNat (ofBeBytes a.bytes))) = a.bytes ++ []
    rw [hof _ hlt, h, append_nil]

theorem u16_exact : Exact P feed Cursor.u16 (fun x => beBytes 2 x.toNat) (fun _ => True) :=
  number_exact 2 UInt16.ofNat UInt16.toNat (fun x => x.toNat_lt)
    (fun _ h => UInt16.toNat_ofNat_of_lt' h) (fun _ => UInt16.ofNat_toNat)

theorem u32_exact : Exact P feed Cursor.u32 (fun x => beBytes 4 x.toNat) (fun _ => True) :=
  number_exact 4 UInt32.ofNat UInt32.toNat (fun x => x.toNat_lt)
    (fun _ h => UInt32.toNat_ofNat_of_lt' h) (fun _ => UInt32.ofNat_toNat)

theorem u64_exact : Exact P feed Cursor.u64 (fun x => beBytes 8 x.toNat) (fun _ => True) :=
  number_exact 8 UInt64.ofNat UInt64.toNat (fun x => x.toNat_lt)
    (fun _ h => UInt64.toNat_ofNat_of_lt' h) (fun _ => UInt64.ofNat_toNat)

def stringBytes (s : Str) : Bytes := beBytes 4 s.bytes.length ++ s.bytes

variable {maximum : ℕ} {heap : Heap} {limits : NostrLimits} {size : ℕ}

theorem string_exact (hmax : maximum < 2 ^ 32) :
    Exact P feed (Cursor.string maximum) stringBytes (fun s => s.bytes.length ≤ maximum) := by
  unfold Cursor.string fail
  refine u32_exact.bind (fun _ s => s.bytes)
    (fun n s => ¬ maximum < n.toNat ∧ s.bytes.length = n.toNat)
    (fun n _ => Exact.guard fun _ => ?_) (fun s => ?_) ?_
  · refine (take_exact n.toNat).bind (fun _ _ => [])
      (fun l s => Str.fromUtf8 l = some s) (fun l _ => ?_) (fun s => ?_) ?_
    · dsimp only
      cases Str.fromUtf8 l with
      | none => exact Exact.fail _ (by simp)
      | some s => exact (Exact.pure s).congr (fun a => by simp [eq_comm]) (fun _ _ => rfl)
    · simp [Str.fromUtf8_eq_some]
    · intro l s _ hs
      rw [← Str.fromUtf8_eq_some.mp hs]
      exact (append_nil l).symm
  · constructor
    · intro hs
      have hn : (UInt32.ofNat s.bytes.length).toNat = s.bytes.length :=
        UInt32.toNat_ofNat_of_lt' (by show _ < 2 ^ 32; omega)
      exact ⟨_, trivial, by omega, hn.symm⟩
    · rintro ⟨n, -, hle, hs⟩
      omega
  · rintro n s - ⟨-, hs⟩
    rw [stringBytes, hs]

/-- A flag byte and, when it is set, the bytes of an item. -/
def optionalBytes {α : Type} (enc : α → Bytes) : Option α → Bytes
  | some a => 1 :: enc a
  | none => [0]

variable {α : Type} {item : Cursor → Decode (α × Cursor)} {enc : α → Bytes} {fits : α → Prop}

theorem optional_exact (h : Exact P feed item enc fits) :
    Exact P feed (parseOptional item) (optionalBytes enc) (fun o => ∀ a, o = some a → fits a) := by
  unfold parseOptional
  refine byte_exact.bind (fun _ o => o.elim [] enc)
    (fun flag o => o.elim (flag = 0) fun a => flag = 1 ∧ fits a) (fun flag _ => ?_) (fun o => ?_) ?_
  · show Exact P feed (fun c => if flag = 0 then .ok (none, c) else if flag = 1 then
      item c >>= fun x => .ok (some x.1, x.2) else fail .malformed) _ _
    by_cases h0 : flag = 0
    · simp only [h0, if_true]
      refine (Exact.pure none).congr (fun o => ?_) (fun o ho => ho ▸ rfl)
      cases o <;> simp
    · by_cases h1 : flag = 1
      · simp only [h1, if_true, if_neg (show ¬ (1 : UInt8) = 0 by decide)]
        refine h.bind (fun _ _ => []) (fun a o => o = some a)
          (fun a _ => Exact.pure (some a)) (fun o => ?_) ?_
        · cases o <;> simp
        · rintro a _ - rfl
          exact (append_nil _).symm
      · simp only [h0, h1, if_false]
        refine Exact.fail _ fun o => ?_
        cases o with
        | none => exact id
        | some a => exact fun ho => ho.1
  · cases o with
    | none => simp
    | some a => simp
  · rintro flag (_ | a) - hflag
    · rw [show flag = 0 from hflag]
      rfl
    · rw [hflag.1]
      rfl

theorem repeated_exact (h : Exact P feed item enc fits) (n : ℕ) :
    Exact P feed (repeated item n) (List.flatMap enc) (fun as => as.length = n ∧ ∀ a ∈ as, fits a) := by
  induction n with
  | zero =>
    exact (Exact.pure []).congr (fun as => by constructor <;> (intro h; simp_all))
      (fun as has => by rw [has]; rfl)
  | succ n ih =>
    refine h.bind (fun _ as => as.tail.flatMap enc)
      (fun a as => ∃ t, as = a :: t ∧ t.length = n ∧ ∀ a ∈ t, fits a)
      (fun a _ => ?_) (fun as => ?_) ?_
    · refine ih.bind (fun _ _ => []) (fun t as => as = a :: t)
        (fun t _ => Exact.pure (a :: t)) (fun as => ?_) ?_
      · exact ⟨fun ⟨t, ht, hrest⟩ => ⟨t, hrest, ht⟩, fun ⟨t, hrest, ht⟩ => ⟨t, ht, hrest⟩⟩
      · rintro t _ - rfl
        exact (append_nil _).symm
    · cases as with
      | nil => simp
      | cons a t => simp [and_assoc, and_left_comm]
    · rintro a _ - ⟨t, rfl, -⟩
      rfl

def countedBytes {α : Type} (enc : α → Bytes) (as : List α) : Bytes := beBytes 4 as.length ++ as.flatMap enc

/-- The allocator grants the vectors that the limits allow to announce. -/
structure Heap.Grants (heap : Heap) (limits : NostrLimits) : Prop where
  elements : heap.stringSize * limits.elements_per_tag.toNat ≤ heap.room
  tags : heap.tagSize * limits.tags_per_event.toNat ≤ heap.room
  audit : heap.auditSize * max 4 limits.audit_entries.toNat ≤ heap.room
  events : heap.eventSize * max 4 limits.events.toNat ≤ heap.room

/-- Limits that are validated are within the hard ones. -/
theorem Heap.Grants.of_validate (h : heap.Grants NostrLimits.HARD)
    (hlimits : limits.validate = .ok ()) : heap.Grants limits := by
  have hle := (of_guard hlimits).1
  simp only [gt_iff_lt, not_or, UInt32.not_lt, UInt32.le_iff_toNat_le] at hle
  obtain ⟨-, -, haudit, hevents, -, -, htags, helements, -⟩ := hle
  exact ⟨(Nat.mul_le_mul_left _ helements).trans h.elements, (Nat.mul_le_mul_left _ htags).trans h.tags,
    (Nat.mul_le_mul_left _ (max_le_max_left 4 haudit)).trans h.audit,
    (Nat.mul_le_mul_left _ (max_le_max_left 4 hevents)).trans h.events⟩

theorem withCapacity_ne_panic {count : ℕ} (h : size * maximum ≤ heap.room)
    (hcount : count ≤ maximum) : withCapacity heap size count ≠ .error .panic := by
  have hle := (Nat.mul_le_mul_left size hcount).trans h
  rw [withCapacity, if_neg (by omega)]
  simp

theorem reserve_ne_panic {count : ℕ} (h : size * max 4 maximum ≤ heap.room)
    (hcount : count ≤ maximum) : reserve heap size count ≠ .error .panic := by
  unfold reserve
  split
  · simp
  · exact withCapacity_ne_panic h (max_le_max_left 4 hcount)

theorem counted_exact (h : Exact P feed item enc fits) {maximum : UInt32}
    (hroom : P → size * max 4 maximum.toNat ≤ heap.room) :
    Exact P feed (counted heap size maximum item) (countedBytes enc)
      (fun as => as.length ≤ maximum.toNat ∧ reserve heap size as.length = .ok () ∧ ∀ a ∈ as, fits a) := by
  unfold counted fail
  refine u32_exact.bind (fun _ as => as.flatMap enc)
    (fun n as => ¬ maximum < n ∧ reserve heap size n.toNat = .ok () ∧ as.length = n.toNat ∧ ∀ a ∈ as, fits a)
    (fun n _ => Exact.guard fun hn => (repeated_exact h n.toNat).require fun hP => ?_) (fun as => ?_) ?_
  · exact reserve_ne_panic (hroom hP) (UInt32.le_iff_toNat_le.mp (UInt32.not_lt.mp hn))
  · constructor
    · rintro ⟨hle, hres, has⟩
      have hmax := maximum.toNat_lt
      have hn : (UInt32.ofNat as.length).toNat = as.length :=
        UInt32.toNat_ofNat_of_lt' (by show _ < 2 ^ 32; omega)
      refine ⟨_, trivial, ?_, by rw [hn]; exact hres, hn.symm, has⟩
      rw [UInt32.lt_iff_toNat_lt, hn]
      omega
    · rintro ⟨n, -, hle, hres, hlen, has⟩
      rw [UInt32.lt_iff_toNat_lt] at hle
      exact ⟨by omega, hlen ▸ hres, has⟩
  · rintro n as - ⟨-, -, hlen, -⟩
    rw [countedBytes, hlen]

def ActionNamed (action : UInt8) : Prop := ∃ name, actionName action = .ok name

theorem check_ne_panic (x : Except NostrError Unit) : check x ≠ .error .panic := by
  cases x with
  | error e => simp [check, ofResult, withError]
  | ok u => simp [check, ofResult, withError]

theorem check_eq_ok {x : Except NostrError Unit} : (∃ u, check x = .ok u) ↔ x = .ok () := by
  constructor
  · rintro ⟨⟨⟩, h⟩
    exact ofResult_eq_ok.mp h
  · intro h
    exact ⟨(), ofResult_eq_ok.mpr h⟩

theorem action_exact : Exact P feed parseAction (fun b => [b]) ActionNamed := by
  unfold parseAction
  refine byte_exact.bind (fun _ _ => [])
    (fun a b => (∃ u, check ((actionName a).map fun _ => ()) = .ok u) ∧ b = a)
    (fun a _ => Exact.check (fun _ => check_ne_panic _) fun _ _ => Exact.pure a) (fun b => ?_) ?_
  · simp only [check_eq_ok, map_eq_ok, and_true, true_and]
    exact ⟨fun hb => ⟨b, hb, rfl⟩, by rintro ⟨_, hb, rfl⟩; exact hb⟩
  · rintro a _ - ⟨-, rfl⟩
    rfl

theorem detail_exact (J : Json) (hmax : maximum < 2 ^ 32) : Exact P feed (parseDetail J maximum) stringBytes
      (fun s => s.bytes.length ≤ maximum ∧ requireCanonicalJson J s = .ok ()) := by
  unfold parseDetail
  refine (string_exact hmax).bind (fun _ _ => [])
    (fun a b => (∃ u, check (requireCanonicalJson J a) = .ok u) ∧ b = a)
    (fun a _ => Exact.check (fun _ => check_ne_panic _) fun _ _ => Exact.pure a) (fun b => ?_) ?_
  · simp only [check_eq_ok]
    exact ⟨fun hb => ⟨b, hb.1, hb.2, rfl⟩, by rintro ⟨_, hle, hb, rfl⟩; exact ⟨hle, hb⟩⟩
  · rintro a _ - ⟨-, rfl⟩
    exact (append_nil _).symm

def auditBytes (entry : AuditEntry) : Bytes :=
  beBytes 8 entry.sequence.toNat ++ entry.hash.bytes ++
    optionalBytes FixedBytes.bytes entry.previous_hash ++ [entry.action] ++
    optionalBytes FixedBytes.bytes entry.actor_pubkey ++ optionalBytes stringBytes entry.object_id ++
    stringBytes entry.created_at ++ stringBytes entry.detail

structure AuditWithin (J : Json) (limits : NostrLimits) (entry : AuditEntry) : Prop where
  action : ActionNamed entry.action
  object_id : ∀ s, entry.object_id = some s → s.bytes.length ≤ 1024
  created_at : entry.created_at.bytes.length ≤ 64
  detail_bytes : entry.detail.bytes.length ≤ limits.audit_detail_bytes.toNat
  detail : requireCanonicalJson J entry.detail = .ok ()

theorem audit_exact (J : Json) (limits : NostrLimits) :
    Exact P feed (parseAudit J limits) auditBytes (AuditWithin J limits) := by
  unfold parseAudit
  have h32 := optional_exact (array_exact (P := P) 32)
  have hid := optional_exact (string_exact (P := P) (show 1024 < 2 ^ 32 by decide))
  have hat := string_exact (P := P) (show 64 < 2 ^ 32 by decide)
  have hdetail := detail_exact (P := P) J limits.audit_detail_bytes.toNat_lt
  refine (u64_exact.field AuditEntry.sequence (fun sequence _ =>
    (array_exact 32).field AuditEntry.hash (fun hash _ =>
    h32.field AuditEntry.previous_hash (fun previous_hash _ =>
    action_exact.field AuditEntry.action (fun action _ =>
    h32.field AuditEntry.actor_pubkey (fun actor_pubkey _ =>
    hid.field AuditEntry.object_id (fun object_id _ =>
    hat.field AuditEntry.created_at (fun created_at _ =>
    hdetail.field AuditEntry.detail (fun detail _ => Exact.pure _)
      ?_) ?_) ?_) ?_) ?_) ?_) ?_) ?_).congr ?_ ?_
  · exact fun _ _ h => congrArg _ h
  · exact fun _ _ h => congrArg AuditEntry.created_at h.2
  · exact fun _ _ h => congrArg AuditEntry.object_id h.2.2
  · exact fun _ _ h => congrArg AuditEntry.actor_pubkey h.2.2.2
  · exact fun _ _ h => congrArg AuditEntry.action h.2.2.2.2
  · exact fun _ _ h => congrArg AuditEntry.previous_hash h.2.2.2.2.2
  · exact fun _ _ h => congrArg AuditEntry.hash h.2.2.2.2.2.2
  · exact fun _ _ h => congrArg AuditEntry.sequence h.2.2.2.2.2.2.2
  · intro entry
    constructor
    · rintro ⟨-, -, -, haction, -, hid, hat, ⟨hsize, hdetail⟩, -⟩
      exact ⟨haction, hid, hat, hsize, hdetail⟩
    · intro h
      exact ⟨trivial, trivial, fun _ _ => trivial, h.action, fun _ _ => trivial, h.object_id,
        h.created_at, ⟨h.detail_bytes, h.detail⟩, rfl⟩
  · intro entry _
    simp [auditBytes]

theorem kind_exact : Exact P feed parseKind (fun k => beBytes 4 k.toNat) (fun _ => True) := by
  unfold parseKind fail
  refine u32_exact.bind (fun _ _ => [])
    (fun n k => ¬ 65535 < n.toNat ∧ k = UInt16.ofNat n.toNat)
    (fun n _ => Exact.guard fun _ => Exact.pure _) (fun k => ?_) ?_
  · have hk := k.toNat_lt
    have hn : (UInt32.ofNat k.toNat).toNat = k.toNat :=
      UInt32.toNat_ofNat_of_lt' (by show _ < 2 ^ 32; omega)
    refine iff_of_true trivial ⟨UInt32.ofNat k.toNat, trivial, ?_, ?_⟩
    · rw [hn]
      omega
    · rw [hn, UInt16.ofNat_toNat]
  · rintro n _ - ⟨hle, rfl⟩
    rw [UInt16.toNat_ofNat_of_lt' (by show _ < 2 ^ 16; omega), append_nil]

def sizes (l : List Str) : ℕ := (l.map fun s => s.bytes.length).sum

theorem sizes_cons (s : Str) (l : List Str) : sizes (s :: l) = s.bytes.length + sizes l := rfl

theorem sizes_append (l m : List Str) : sizes (l ++ m) = sizes l + sizes m := by
  rw [sizes, map_append, sum_append]
  rfl

def StringsWithin (limits : NostrLimits) (tag : List Str) : Prop :=
  ∀ s ∈ tag, s.bytes.length ≤ limits.tag_string_bytes.toNat

theorem elements_exact (limits : NostrLimits) (n total : ℕ)
    (htotal : total ≤ limits.all_tag_strings_bytes.toNat) :
    Exact P feed (parseElements limits n total) (fun p => p.1.flatMap stringBytes)
      (fun p => p.1.length = n ∧ StringsWithin limits p.1 ∧ p.2 = total + sizes p.1 ∧
        p.2 ≤ limits.all_tag_strings_bytes.toNat) := by
  have hall := limits.all_tag_strings_bytes.toNat_lt
  induction n generalizing total with
  | zero =>
    refine (Exact.pure ([], total)).congr (fun p => ?_) (fun p hp => by rw [hp]; rfl)
    constructor
    · rintro rfl
      exact ⟨rfl, fun s hs => absurd hs not_mem_nil, rfl, htotal⟩
    · obtain ⟨tag, t⟩ := p
      rintro ⟨hlen, -, ht, -⟩
      obtain rfl : tag = [] := length_eq_zero_iff.mp hlen
      exact Prod.ext rfl ht
  | succ n ih =>
    refine (string_exact limits.tag_string_bytes.toNat_lt).bind
      (fun _ p => p.1.tail.flatMap stringBytes)
      (fun s p => ∃ tag, p.1 = s :: tag ∧ tag.length = n ∧ StringsWithin limits tag ∧
        p.2 = total + s.bytes.length + sizes tag ∧ p.2 ≤ limits.all_tag_strings_bytes.toNat)
      (fun s _ => ?_) (fun p => ?_) ?_
    · refine Exact.guard_fits ?_ fun _ => Exact.guard_fits ?_ fun hle => ?_
      · rintro p ⟨tag, -, -, -, hsum, hle⟩
        omega
      · rintro p ⟨tag, -, -, -, hsum, hle⟩
        omega
      · refine (ih (total + s.bytes.length) (by omega)).bind (fun _ _ => [])
          (fun q p => p = (s :: q.1, q.2)) (fun q _ => Exact.pure _) (fun p => ?_) ?_
        · constructor
          · rintro ⟨tag, hp, htag⟩
            exact ⟨(tag, p.2), htag, Prod.ext hp rfl⟩
          · rintro ⟨⟨tag, t⟩, htag, rfl⟩
            exact ⟨tag, rfl, htag⟩
        · rintro q _ - rfl
          exact (append_nil _).symm
    · obtain ⟨tag, t⟩ := p
      constructor
      · rintro ⟨hlen, hstr, hsum, hle⟩
        cases tag with
        | nil => simp at hlen
        | cons s tag =>
          refine ⟨s, hstr s (mem_cons_self ..), tag, rfl, by simpa using hlen,
            fun u hu => hstr u (mem_cons_of_mem _ hu), ?_, hle⟩
          rw [sizes_cons] at hsum
          omega
      · rintro ⟨s, hs, tag, rfl, hlen, hstr, hsum, hle⟩
        refine ⟨by simp [hlen], fun u hu => ?_, ?_, hle⟩
        · obtain rfl | hu := mem_cons.mp hu
          · exact hs
          · exact hstr u hu
        · rw [sizes_cons]
          omega
    · rintro s ⟨_, t⟩ - ⟨tag, rfl, -⟩
      rfl

structure TagWithin (heap : Heap) (limits : NostrLimits) (tag : List Str) : Prop where
  elements : tag.length ≤ limits.elements_per_tag.toNat
  room : withCapacity heap heap.stringSize tag.length = .ok ()
  strings : StringsWithin limits tag

def tagsBytes (tags : List (List Str)) : Bytes := tags.flatMap (countedBytes stringBytes)

/-- What `parseTags` returns for `n` tags, when `total` bytes came before them. -/
structure TagsRead (heap : Heap) (limits : NostrLimits) (n total : ℕ) (p : List (List Str) × ℕ) : Prop where
  length : p.1.length = n
  within : ∀ tag ∈ p.1, TagWithin heap limits tag
  sum : p.2 = total + sizes p.1.flatten
  le : p.2 ≤ limits.all_tag_strings_bytes.toNat

theorem tags_exact (hroom : P → heap.Grants limits) (n total : ℕ)
    (htotal : total ≤ limits.all_tag_strings_bytes.toNat) :
    Exact P feed (parseTags heap limits n total) (fun p => tagsBytes p.1) (TagsRead heap limits n total) := by
  induction n generalizing total with
  | zero =>
    refine (Exact.pure ([], total)).congr (fun p => ?_) (fun p hp => by rw [hp]; rfl)
    constructor
    · rintro rfl
      exact ⟨rfl, fun tag htag => absurd htag not_mem_nil, rfl, htotal⟩
    · obtain ⟨tags, t⟩ := p
      rintro ⟨hlen, -, ht, -⟩
      obtain rfl : tags = [] := length_eq_zero_iff.mp hlen
      exact Prod.ext rfl ht
  | succ n ih =>
    refine u32_exact.bind
      (fun _ p => (p.1.headD []).flatMap stringBytes ++ tagsBytes p.1.tail)
      (fun count p => ¬ limits.elements_per_tag < count ∧
        withCapacity heap heap.stringSize count.toNat = .ok () ∧ ∃ tag tags, p.1 = tag :: tags ∧
        tag.length = count.toNat ∧ StringsWithin limits tag ∧
        TagsRead heap limits n (total + sizes tag) (tags, p.2))
      (fun count _ => Exact.guard fun hcount => Exact.require (fun hP => ?_) ?_) (fun p => ?_) ?_
    · exact withCapacity_ne_panic (hroom hP).elements (UInt32.le_iff_toNat_le.mp (UInt32.not_lt.mp hcount))
    · refine (elements_exact limits count.toNat total htotal).bind
        (fun _ p => tagsBytes p.1.tail)
        (fun q p => ∃ tags, p.1 = q.1 :: tags ∧ TagsRead heap limits n q.2 (tags, p.2))
        (fun q hq => ?_) (fun p => ?_) ?_
      · refine (ih q.2 hq.2.2.2).bind (fun _ _ => [])
          (fun r p => p = (q.1 :: r.1, r.2)) (fun r _ => Exact.pure _) (fun p => ?_) ?_
        · constructor
          · rintro ⟨tags, hp, htags⟩
            exact ⟨(tags, p.2), htags, Prod.ext hp rfl⟩
          · rintro ⟨⟨tags, t⟩, htags, rfl⟩
            exact ⟨tags, rfl, htags⟩
        · rintro r _ - rfl
          exact (append_nil _).symm
      · constructor
        · rintro ⟨tag, tags, hp, hlen, hstr, hread⟩
          have hle : total + sizes tag ≤ limits.all_tag_strings_bytes.toNat := by
            have := hread.sum
            have := hread.le
            omega
          exact ⟨(tag, total + sizes tag), ⟨hlen, hstr, rfl, hle⟩, tags, hp, hread⟩
        · rintro ⟨q, ⟨hlen, hstr, hsum, -⟩, tags, hp, hread⟩
          rw [hsum] at hread
          exact ⟨q.1, tags, hp, hlen, hstr, hread⟩
      · rintro q ⟨_, t⟩ - ⟨tags, rfl, -⟩
        rfl
    · obtain ⟨tags, t⟩ := p
      have hmax := limits.elements_per_tag.toNat_lt
      constructor
      · rintro ⟨hlen, hin, hsum, hle⟩
        cases tags with
        | nil => simp at hlen
        | cons tag tags =>
          obtain ⟨helems, hres, hstr⟩ := hin tag (mem_cons_self ..)
          have hn : (UInt32.ofNat tag.length).toNat = tag.length :=
            UInt32.toNat_ofNat_of_lt' (by show _ < 2 ^ 32; omega)
          refine ⟨_, trivial, ?_, by rw [hn]; exact hres, tag, tags, rfl, hn.symm, hstr, by simpa using hlen,
            fun u hu => hin u (mem_cons_of_mem _ hu), ?_, hle⟩
          · rw [UInt32.lt_iff_toNat_lt, hn]
            omega
          · rw [flatten_cons, sizes_append] at hsum
            show t = total + sizes tag + sizes tags.flatten
            omega
      · rintro ⟨count, -, hcount, hres, tag, tags, rfl, hlen, hstr, hread⟩
        rw [UInt32.lt_iff_toNat_lt] at hcount
        refine ⟨?_, fun u hu => ?_, ?_, hread.le⟩
        · rw [length_cons, hread.length]
        · obtain rfl | hu := mem_cons.mp hu
          · exact ⟨by omega, hlen ▸ hres, hstr⟩
          · exact hread.within u hu
        · have hsum : t = total + sizes tag + sizes tags.flatten := hread.sum
          show t = total + sizes (tag :: tags).flatten
          rw [flatten_cons, sizes_append]
          omega
    · rintro count ⟨_, t⟩ - ⟨-, -, tag, tags, rfl, hlen, -⟩
      show tagsBytes (tag :: tags) = beBytes 4 count.toNat ++ (tag.flatMap stringBytes ++ tagsBytes tags)
      rw [tagsBytes, flatMap_cons, countedBytes, hlen, append_assoc]
      rfl

structure TagListWithin (heap : Heap) (limits : NostrLimits) (tags : List (List Str)) : Prop where
  length : tags.length ≤ limits.tags_per_event.toNat
  room : withCapacity heap heap.tagSize tags.length = .ok ()
  within : ∀ tag ∈ tags, TagWithin heap limits tag
  sizes : sizes tags.flatten ≤ limits.all_tag_strings_bytes.toNat

theorem tagList_exact (hroom : P → heap.Grants limits) :
    Exact P feed (parseTagList heap limits) (countedBytes (countedBytes stringBytes))
      (TagListWithin heap limits) := by
  unfold parseTagList fail
  refine u32_exact.bind (fun _ tags => tagsBytes tags)
    (fun count tags => ¬ limits.tags_per_event < count ∧
      withCapacity heap heap.tagSize count.toNat = .ok () ∧ tags.length = count.toNat ∧
      (∀ tag ∈ tags, TagWithin heap limits tag) ∧ sizes tags.flatten ≤ limits.all_tag_strings_bytes.toNat)
    (fun count _ => Exact.guard fun hcount => Exact.require (fun hP => ?_) ?_) (fun tags => ?_) ?_
  · exact withCapacity_ne_panic (hroom hP).tags (UInt32.le_iff_toNat_le.mp (UInt32.not_lt.mp hcount))
  · refine (tags_exact hroom count.toNat 0 (Nat.zero_le _)).bind (fun _ _ => [])
      (fun p tags => tags = p.1) (fun p _ => Exact.pure _) (fun tags => ?_) ?_
    · constructor
      · rintro ⟨hlen, hin, hsize⟩
        exact ⟨(tags, sizes tags.flatten), ⟨hlen, hin, (Nat.zero_add _).symm, hsize⟩, rfl⟩
      · rintro ⟨⟨_, t⟩, ⟨hlen, hin, hsum, hle⟩, rfl⟩
        rw [Nat.zero_add] at hsum
        exact ⟨hlen, hin, hsum ▸ hle⟩
    · rintro p _ - rfl
      exact (append_nil _).symm
  · have hmax := limits.tags_per_event.toNat_lt
    constructor
    · rintro ⟨hlen, hres, hin, hsize⟩
      have hn : (UInt32.ofNat tags.length).toNat = tags.length :=
        UInt32.toNat_ofNat_of_lt' (by show _ < 2 ^ 32; omega)
      refine ⟨_, trivial, ?_, by rw [hn]; exact hres, hn.symm, hin, hsize⟩
      rw [UInt32.lt_iff_toNat_lt, hn]
      omega
    · rintro ⟨count, -, hcount, hres, hlen, hin, hsize⟩
      rw [UInt32.lt_iff_toNat_lt] at hcount
      exact ⟨by omega, hlen ▸ hres, hin, hsize⟩
  · rintro count tags - ⟨-, -, hlen, -⟩
    rw [countedBytes, hlen]
    rfl

def eventBytes (event : NostrEvent) : Bytes :=
  event.id.bytes ++ event.pubkey.bytes ++ beBytes 8 event.created_at.toNat ++
    beBytes 4 event.kind.toNat ++ countedBytes (countedBytes stringBytes) event.tags ++
    stringBytes event.content ++ event.sig

structure FieldsWithin (heap : Heap) (limits : NostrLimits) (event : NostrEvent) : Prop where
  tags : TagListWithin heap limits event.tags
  content : event.content.bytes.length ≤ limits.content_bytes.toNat
  sig : event.sig.length = 64

theorem eventFields_exact (hroom : P → heap.Grants limits) :
    Exact P feed (parseEventFields heap limits) eventBytes (FieldsWithin heap limits) := by
  unfold parseEventFields
  refine ((array_exact 32).field NostrEvent.id (fun id _ =>
    (array_exact 32).field NostrEvent.pubkey (fun pubkey _ =>
    u64_exact.field NostrEvent.created_at (fun created_at _ =>
    kind_exact.field NostrEvent.kind (fun kind _ =>
    (tagList_exact hroom).field NostrEvent.tags (fun tags _ =>
    (string_exact limits.content_bytes.toNat_lt).field NostrEvent.content (fun content _ =>
    (take_exact 64).field NostrEvent.sig (fun sig _ => Exact.pure _)
      ?_) ?_) ?_) ?_) ?_) ?_) ?_).congr ?_ ?_
  · exact fun _ _ h => congrArg _ h
  · exact fun _ _ h => congrArg NostrEvent.content h.2
  · exact fun _ _ h => congrArg NostrEvent.tags h.2.2
  · exact fun _ _ h => congrArg NostrEvent.kind h.2.2.2
  · exact fun _ _ h => congrArg NostrEvent.created_at h.2.2.2.2
  · exact fun _ _ h => congrArg NostrEvent.pubkey h.2.2.2.2.2
  · exact fun _ _ h => congrArg NostrEvent.id h.2.2.2.2.2.2
  · intro event
    constructor
    · rintro ⟨-, -, -, -, htags, hcontent, hsig, -⟩
      exact ⟨htags, hcontent, hsig⟩
    · intro h
      exact ⟨trivial, trivial, trivial, trivial, h.tags, h.content, h.sig, rfl⟩
  · intro event _
    simp [eventBytes]

structure EventWithin (heap : Heap) (limits : NostrLimits) (event : NostrEvent) : Prop where
  fields : FieldsWithin heap limits event
  encoded : (eventBytes event).length ≤ limits.encoded_event_bytes.toNat

theorem event_exact (hroom : P → heap.Grants limits) :
    Exact P feed (parseEvent heap limits) eventBytes (EventWithin heap limits) where
  total := by
    intro hP c hc hpanic
    have h := eventFields_exact hroom
    obtain hr | ⟨⟨event, c'⟩, hr, hrest⟩ := bind_eq_error.mp hpanic
    · exact h.total hP c hc hr
    · obtain ⟨-, -, rfl⟩ := (h.iff c hc event c').mp hr
      obtain ⟨hlt, -⟩ | ⟨-, hrest⟩ := ite_error_eq_error.mp hrest
      · -- the offset only grows
        change c.offset + _ < c.offset at hlt
        omega
      · obtain ⟨-, he⟩ | ⟨-, he⟩ := ite_error_eq_error.mp hrest
        · simp at he
        · simp at he
  iff := by
    intro c hc event c'
    have h := eventFields_exact hroom
    have hoff : ∀ n, (feed.advance c n).offset = c.offset + n := fun _ => rfl
    constructor
    · intro hr
      obtain ⟨⟨event', c₁⟩, hr, hrest⟩ := of_bind hr
      obtain ⟨hfits, hpre, rfl⟩ := (h.iff c hc event' c₁).mp hr
      obtain ⟨-, hrest⟩ := of_guard hrest
      obtain ⟨hlen, hrest⟩ := of_guard hrest
      obtain ⟨rfl, rfl⟩ := Prod.mk.inj (ok_inj hrest)
      rw [hoff] at hlen
      exact ⟨⟨hfits, by omega⟩, hpre, rfl⟩
    · rintro ⟨⟨hfits, hlen⟩, hpre, rfl⟩
      refine bind_eq_ok.mpr ⟨_, (h.iff c hc event _).mpr ⟨hfits, hpre, rfl⟩, ?_⟩
      refine ite_error_eq_ok.mpr ⟨?_, ite_error_eq_ok.mpr ⟨?_, rfl⟩⟩
      · show ¬ c.offset + _ < c.offset
        omega
      · show ¬ limits.encoded_event_bytes.toNat < c.offset + _ - c.offset
        omega

theorem magic_exact : Exact P feed parseMagic (fun _ => utf8 "TGNW" ++ [1]) (fun _ => True) := by
  unfold parseMagic fail
  have h4 : (utf8 "TGNW").length = 4 := by decide
  refine (take_exact 4).bind (fun _ _ => [1]) (fun magic _ => ¬ magic ≠ utf8 "TGNW")
    (fun magic _ => ?_) (fun _ => iff_of_true trivial ⟨_, h4, not_not.mpr rfl⟩) ?_
  · refine Exact.guard_fits (fun _ h => h) fun hmagic => ?_
    refine byte_exact.bind (fun _ _ => []) (fun version _ => ¬ version ≠ 1)
      (fun version _ => ?_) (fun _ => iff_of_true hmagic ⟨1, trivial, not_not.mpr rfl⟩) ?_
    · exact (Exact.guard fun _ => Exact.pure ()).congr (fun _ => by simp) (fun _ _ => rfl)
    · intro version _ _ h
      rw [not_not.mp h]
      rfl
  · intro magic _ _ h
    rw [not_not.mp h]
    rfl

theorem variant_exact : Exact P feed parseVariant (fun variant => [variant.toUInt8]) (fun _ => True) := by
  unfold parseVariant fail
  refine byte_exact.bind (fun _ _ => []) (fun b variant => variant.toUInt8 = b)
    (fun b _ => ?_) (fun variant => iff_of_true trivial ⟨_, trivial, rfl⟩) ?_
  · show Exact P feed (fun c => if b = 1 then .ok (CommitmentVariant.buzzAuditV1, c)
      else if b = 2 then .ok (CommitmentVariant.selfLogV1, c) else .error
        (.error NostrError.unsupportedVariant)) _ _
    by_cases h1 : b = 1
    · simp only [h1, if_true]
      refine (Exact.pure _).congr (fun v => ?_) (fun _ _ => rfl)
      cases v <;> decide
    · by_cases h2 : b = 2
      · simp only [h2, if_true, if_neg (show ¬ (2 : UInt8) = 1 by decide)]
        refine (Exact.pure _).congr (fun v => ?_) (fun _ _ => rfl)
        cases v <;> decide
      · simp only [h1, h2, if_false]
        refine Exact.fail _ fun v => ?_
        cases v with
        | buzzAuditV1 => exact fun h => h1 h.symm
        | selfLogV1 => exact fun h => h2 h.symm
  · rintro _ v - rfl
    rfl

theorem flags_exact : Exact P feed parseFlags (fun _ => beBytes 2 0) (fun _ => True) := by
  unfold parseFlags fail
  refine u16_exact.bind (fun _ _ => []) (fun flags _ => ¬ flags ≠ 0)
    (fun flags _ => ?_) (fun _ => iff_of_true trivial ⟨0, trivial, not_not.mpr rfl⟩) ?_
  · exact (Exact.guard fun _ => Exact.pure ()).congr (fun _ => by simp) (fun _ _ => rfl)
  · intro flags _ _ h
    rw [not_not.mp h]
    rfl

def bodyBytes (variant : CommitmentVariant)
    (body : List AuditEntry × List NostrEvent × Option NostrEvent) : Bytes :=
  match variant with
  | .buzzAuditV1 => countedBytes auditBytes body.1 ++ countedBytes eventBytes body.2.1
  | .selfLogV1 => countedBytes eventBytes body.2.1 ++ body.2.2.elim [] eventBytes

def Shape (variant : CommitmentVariant) (audit : List AuditEntry) (head_event : Option NostrEvent) : Prop :=
  match variant with
  | .buzzAuditV1 => head_event = none
  | .selfLogV1 => audit = [] ∧ head_event.isSome = true

structure BodyWithin (heap : Heap) (J : Json) (limits : NostrLimits) (variant : CommitmentVariant)
    (body : List AuditEntry × List NostrEvent × Option NostrEvent) : Prop where
  shape : Shape variant body.1 body.2.2
  audit_count : body.1.length ≤ limits.audit_entries.toNat
  audit_room : reserve heap heap.auditSize body.1.length = .ok ()
  audit : ∀ entry ∈ body.1, AuditWithin J limits entry
  event_count : body.2.1.length ≤ limits.events.toNat
  event_room : reserve heap heap.eventSize body.2.1.length = .ok ()
  events : ∀ event ∈ body.2.1, EventWithin heap limits event
  head_event : ∀ event, body.2.2 = some event → EventWithin heap limits event

theorem body_exact (J : Json) (hroom : P → heap.Grants limits) (variant : CommitmentVariant) :
    Exact P feed (parseBody heap J limits variant) (bodyBytes variant) (BodyWithin heap J limits variant) := by
  have hevents := counted_exact (event_exact hroom) fun hP => (hroom hP).events
  cases variant with
  | buzzAuditV1 =>
    have haudit := counted_exact (audit_exact J limits) fun hP => (hroom hP).audit
    refine (haudit.field Prod.fst (fun audit _ => hevents.field
      (fun body : List AuditEntry × List NostrEvent × Option NostrEvent => body.2.1)
        (fun events _ => Exact.pure (audit, events, none)) ?_) ?_).congr ?_ ?_
    · exact fun _ _ h => congrArg (fun body => body.2.1) h
    · exact fun _ _ h => congrArg Prod.fst h.2
    · rintro ⟨audit, events, head_event⟩
      constructor
      · rintro ⟨⟨hcount, hres, haudit⟩, ⟨hevcount, hevres, hev⟩, h⟩
        obtain rfl : head_event = none := congrArg (fun body => body.2.2) h
        exact ⟨rfl, hcount, hres, haudit, hevcount, hevres, hev, fun _ h => nomatch h⟩
      · rintro ⟨hshape, hcount, hres, haudit, hevcount, hevres, hev, -⟩
        obtain rfl : head_event = none := hshape
        exact ⟨⟨hcount, hres, haudit⟩, ⟨hevcount, hevres, hev⟩, rfl⟩
    · intro body _
      show _ ++ (_ ++ []) = _
      rw [append_nil]
      rfl
  | selfLogV1 =>
    have hhead : ∀ events, Exact P feed (fun c => parseEvent heap limits c >>= fun x =>
        .ok ((([], events, some x.1) : List AuditEntry × List NostrEvent × Option NostrEvent), x.2))
        (fun body => body.2.2.elim [] eventBytes)
        (fun body => ∃ event, EventWithin heap limits event ∧ body = ([], events, some event)) := by
      intro events
      refine (event_exact hroom).bind (fun _ _ => []) (fun event body =>
        body = ([], events, some event)) (fun event _ => Exact.pure ([], events, some event))
        (fun body => Iff.rfl) ?_
      rintro event _ - rfl
      exact (append_nil _).symm
    refine (hevents.field (fun body => body.2.1) (fun events _ => hhead events) ?_).congr ?_ ?_
    · rintro events _ ⟨event, -, rfl⟩
      rfl
    · rintro ⟨audit, events, head_event⟩
      constructor
      · rintro ⟨⟨hcount, hres, hev⟩, event, hevent, h⟩
        obtain ⟨rfl, h⟩ := Prod.mk.inj h
        obtain rfl : head_event = some event := congrArg Prod.snd h
        exact ⟨⟨rfl, rfl⟩, Nat.zero_le _, rfl, fun _ h => absurd h not_mem_nil, hcount, hres, hev,
          fun e he => Option.some.inj he ▸ hevent⟩
      · rintro ⟨⟨haudit, hsome⟩, -, -, -, hcount, hres, hev, hhead⟩
        obtain ⟨event, rfl⟩ := isSome_iff_exists.mp hsome
        obtain rfl : audit = [] := haudit
        exact ⟨⟨hcount, hres, hev⟩, event, hhead event rfl, rfl⟩
    · intro body _
      rfl

def bundleBytes (bundle : TgnwBundle) : Bytes :=
  utf8 "TGNW" ++ [1, bundle.variant.toUInt8] ++ beBytes 2 0 ++ bundle.community_id.bytes ++
    bundle.instance_domain.bytes ++ bundle.authority.bytes ++
    bodyBytes bundle.variant (bundle.audit, bundle.events, bundle.head_event)

def BundleWithin (heap : Heap) (J : Json) (limits : NostrLimits) (bundle : TgnwBundle) : Prop :=
  BodyWithin heap J limits bundle.variant (bundle.audit, bundle.events, bundle.head_event)

theorem bundle_exact (J : Json) (hroom : P → heap.Grants limits) :
    Exact P feed (parseBundle heap J limits) bundleBytes (BundleWithin heap J limits) := by
  unfold parseBundle
  refine (magic_exact.field (fun _ : TgnwBundle => ()) (fun _ _ =>
    variant_exact.field TgnwBundle.variant (fun variant _ =>
    flags_exact.field (fun _ => ()) (fun _ _ =>
    (array_exact 16).field TgnwBundle.community_id (fun community_id _ =>
    (array_exact 32).field TgnwBundle.instance_domain (fun instance_domain _ =>
    (array_exact 32).field TgnwBundle.authority (fun authority _ =>
    (body_exact J hroom variant).field (fun bundle : TgnwBundle =>
      (bundle.audit, bundle.events, bundle.head_event)) (fun body _ => Exact.pure _)
      ?_) ?_) ?_) ?_) ?_) ?_) ?_).congr ?_ ?_
  · rintro body _ rfl
    rfl
  · exact fun _ _ h => congrArg TgnwBundle.authority h.2
  · exact fun _ _ h => congrArg TgnwBundle.instance_domain h.2.2
  · exact fun _ _ h => congrArg TgnwBundle.community_id h.2.2.2
  · exact fun _ _ _ => rfl
  · exact fun _ _ h => congrArg TgnwBundle.variant h.2.2.2.2.2
  · exact fun _ _ _ => rfl
  · intro bundle
    constructor
    · rintro ⟨-, -, -, -, -, -, hbody, -⟩
      exact hbody
    · intro hbody
      exact ⟨trivial, trivial, trivial, trivial, trivial, trivial, hbody, rfl⟩
  · intro bundle _
    simp [bundleBytes]

variable {heap : Heap} {J : Json} {limits : NostrLimits}

theorem decode_eq_ok {input : Bytes} {bundle : TgnwBundle} : decode heap J input limits = .ok bundle ↔
      input.length ≤ limits.envelope_bytes.toNat ∧ BundleWithin heap J limits bundle ∧
        input = bundleBytes bundle := by
  have hmax := limits.envelope_bytes.toNat_lt
  have h : Exact False feed (parseBundle heap J limits) bundleBytes (BundleWithin heap J limits) :=
    bundle_exact J False.elim
  have hat : ∀ n, (feed.advance ⟨input, 0⟩ n).offset = n := fun n => Nat.zero_add n
  unfold decode Cursor.new fail
  constructor
  · intro hd
    obtain ⟨c, hc, hd⟩ := of_bind hd
    obtain ⟨hlen, hc⟩ := of_guard hc
    obtain rfl := ok_inj hc
    obtain ⟨⟨bundle', c⟩, hb, hd⟩ := of_bind hd
    obtain ⟨hend, hd⟩ := of_guard hd
    obtain rfl := ok_inj hd
    obtain ⟨hin, hpre, rfl⟩ := (h.iff _ ⟨Nat.zero_le _, by show input.length < _; omega⟩ _ _).mp hb
    rw [hat, not_not] at hend
    exact ⟨by omega, hin, (hpre.eq_of_length hend).symm⟩
  · rintro ⟨hlen, hin, hinput⟩
    refine bind_eq_ok.mpr ⟨_, ite_error_eq_ok.mpr ⟨by omega, rfl⟩, bind_eq_ok.mpr ⟨_,
      (h.iff _ ⟨Nat.zero_le _, by show input.length < _; omega⟩ bundle _).mpr
        ⟨hin, ?_, rfl⟩, ite_error_eq_ok.mpr ⟨?_, rfl⟩⟩⟩
    · exact hinput ▸ prefix_rfl
    · rw [hat, not_not, hinput]

theorem decode_ne_panic (hroom : heap.Grants limits) (input : Bytes) :
    decode heap J input limits ≠ .error .panic := by
  have hmax := limits.envelope_bytes.toNat_lt
  intro hpanic
  unfold decode Cursor.new fail at hpanic
  obtain hc | ⟨c, hc, hpanic⟩ := bind_eq_error.mp hpanic
  · obtain ⟨-, he⟩ | ⟨-, he⟩ := ite_error_eq_error.mp hc
    · simp at he
    · simp at he
  · obtain ⟨hlen, hc⟩ := of_guard hc
    obtain rfl := ok_inj hc
    obtain hb | ⟨⟨bundle, c⟩, -, hpanic⟩ := bind_eq_error.mp hpanic
    · exact (bundle_exact J fun _ => hroom).total trivial _
        ⟨Nat.zero_le _, by show input.length < _; omega⟩ hb
    · obtain ⟨-, he⟩ | ⟨-, he⟩ := ite_error_eq_error.mp hpanic
      · simp at he
      · simp at he

theorem pushU32_eq {n : ℕ} (h : n < 2 ^ 32) : pushU32 n = .ok (beBytes 4 n) := if_pos h

theorem pushString_eq {s : Str} (h : s.bytes.length < 2 ^ 32) : pushString s = .ok (stringBytes s) := by
  rw [pushString, pushU32_eq h, ok_bind]
  rfl

theorem encodeOptional32_eq (o : Option B256) : encodeOptional32 o = optionalBytes FixedBytes.bytes o := by
  cases o with
  | none => rfl
  | some a => rfl

theorem encodeOptionalString_eq {o : Option Str} (h : ∀ s, o = some s → s.bytes.length < 2 ^ 32) :
    encodeOptionalString o = .ok (optionalBytes stringBytes o) := by
  cases o with
  | none => rfl
  | some s =>
    rw [encodeOptionalString, pushString_eq (h s rfl), ok_bind]
    rfl

variable {write : α → Except NostrError Bytes}

theorem encodeAll_eq {as : List α} (h : ∀ a ∈ as, write a = .ok (enc a)) :
    encodeAll write as = .ok (as.flatMap enc) := by
  induction as with
  | nil => rfl
  | cons a as ih =>
    rw [encodeAll, h a (mem_cons_self ..), ok_bind,
      ih fun b hb => h b (mem_cons_of_mem _ hb), ok_bind, flatMap_cons]

theorem encodeCounted_eq {as : List α} (hlen : as.length < 2 ^ 32)
    (h : ∀ a ∈ as, write a = .ok (enc a)) : encodeCounted write as = .ok (countedBytes enc as) := by
  rw [encodeCounted, pushU32_eq hlen, ok_bind, encodeAll_eq h, ok_bind]
  rfl

theorem encodeAudit_eq {entry : AuditEntry} (hid : ∀ s, entry.object_id = some s → s.bytes.length < 2 ^ 32)
    (hat : entry.created_at.bytes.length < 2 ^ 32) (hdetail : entry.detail.bytes.length < 2 ^ 32) :
    encodeAudit entry = .ok (auditBytes entry) := by
  rw [encodeAudit, encodeOptionalString_eq hid, ok_bind, pushString_eq hat, ok_bind,
    pushString_eq hdetail, ok_bind, encodeOptional32_eq, encodeOptional32_eq]
  rfl

theorem AuditWithin.encode_eq {entry : AuditEntry}
    (h : AuditWithin J limits entry) : encodeAudit entry = .ok (auditBytes entry) :=
  encodeAudit_eq (fun s hs => (h.object_id s hs).trans_lt (by norm_num))
    (h.created_at.trans_lt (by norm_num)) (h.detail_bytes.trans_lt limits.audit_detail_bytes.toNat_lt)

theorem encodeEvent_eq {event : NostrEvent} (h : EventWithin heap limits event) :
    encodeEvent event = .ok (eventBytes event) := by
  have htags : encodeCounted (encodeCounted pushString) event.tags =
      .ok (countedBytes (countedBytes stringBytes) event.tags) := by
    refine encodeCounted_eq (h.fields.tags.length.trans_lt limits.tags_per_event.toNat_lt)
      fun tag htag => ?_
    obtain ⟨helems, -, hstr⟩ := h.fields.tags.within tag htag
    exact encodeCounted_eq (helems.trans_lt limits.elements_per_tag.toNat_lt)
      fun s hs => pushString_eq ((hstr s hs).trans_lt limits.tag_string_bytes.toNat_lt)
  rw [encodeEvent, htags, ok_bind,
    pushString_eq (h.fields.content.trans_lt limits.content_bytes.toNat_lt), ok_bind]
  rfl

theorem encode_eq {bundle : TgnwBundle}
    (h : BundleWithin heap J limits bundle) : encode bundle = .ok (bundleBytes bundle) := by
  obtain ⟨variant, community_id, instance_domain, authority, audit, events, head_event⟩ := bundle
  obtain ⟨hshape, hcount, -, haudit, hevcount, -, hev, hhead⟩ := h
  have hevents : encodeCounted encodeEvent events = .ok (countedBytes eventBytes events) :=
    encodeCounted_eq (hevcount.trans_lt limits.events.toNat_lt) fun e he => encodeEvent_eq (hev e he)
  cases variant with
  | buzzAuditV1 =>
    obtain rfl : head_event = none := hshape
    have hrows : encodeCounted encodeAudit audit = .ok (countedBytes auditBytes audit) :=
      encodeCounted_eq (hcount.trans_lt limits.audit_entries.toNat_lt)
        fun a ha => (haudit a ha).encode_eq
    show (encodeCounted encodeAudit audit >>= fun rows => encodeCounted encodeEvent events >>=
      fun evs => Except.ok (_ ++ rows ++ evs)) = _
    rw [hrows, ok_bind, hevents, ok_bind, append_assoc]
    rfl
  | selfLogV1 =>
    obtain ⟨rfl, hsome⟩ := hshape
    obtain ⟨event, rfl⟩ := isSome_iff_exists.mp hsome
    show (encodeCounted encodeEvent events >>= fun evs => encodeEvent event >>=
      fun head => Except.ok (_ ++ evs ++ head)) = _
    rw [hevents, ok_bind, encodeEvent_eq (hhead event rfl), ok_bind, append_assoc]
    rfl

/-- Bundles have one encoding. Decoding never panics where the allocator grants the vectors of the hard
limits and the limits are validated, as `verify_cached` does first; what is decoded has the input as its
encoding; a bundle within the limits has an encoding, and is decoded from it when the envelope may be as
long. -/
theorem one_encoding (heap : Heap) (J : Json) (limits : NostrLimits) :
    (limits.validate = .ok () → heap.Grants NostrLimits.HARD →
      ∀ input, decode heap J input limits ≠ .error .panic) ∧
    (∀ input bundle, decode heap J input limits = .ok bundle → encode bundle = .ok input) ∧
    ∀ bundle, BundleWithin heap J limits bundle → ∃ bytes, encode bundle = .ok bytes ∧
      (bytes.length ≤ limits.envelope_bytes.toNat → decode heap J bytes limits = .ok bundle) := by
  refine ⟨fun hlimits hroom input => decode_ne_panic (hroom.of_validate hlimits) input,
    fun input bundle h => ?_,
    fun bundle h => ⟨bundleBytes bundle, encode_eq h, fun hlen => decode_eq_ok.mpr ⟨hlen, h, rfl⟩⟩⟩
  obtain ⟨-, hin, rfl⟩ := decode_eq_ok.mp h
  exact encode_eq hin

/-- A machine of 64 bits that grants whatever `isize::MAX` allows. -/
def heap64 : Heap := ⟨2 ^ 63 - 1, 24, 24, 184, 152⟩

def nullJson : Json where
  fromStr s := if s = utf8 "null" then some .null else none
  quote _ := none
  scalar
    | .null => some (utf8 "null")
    | _ => none

def rowBundle (action : UInt8) (object_id : Option Str) (created_at : Str) : TgnwBundle where
  variant := .buzzAuditV1
  community_id := 0
  instance_domain := 0
  authority := 0
  audit := [⟨1, 0, none, action, none, object_id, created_at, ⟨utf8 "null", by decide⟩⟩]
  events := []
  head_event := none

theorem validUtf8_replicate (n : ℕ) : Text.validUtf8 (List.replicate n 97) = true := by
  induction n with
  | zero => rfl
  | succ n ih =>
    rw [replicate_succ, Text.validUtf8.eq_def]
    exact ih

def letters (n : ℕ) : Str := ⟨List.replicate n 97, validUtf8_replicate n⟩

theorem length_null : (utf8 "null").length = 4 := by decide

theorem nullJson_canonical :
    requireCanonicalJson nullJson ⟨utf8 "null", by decide⟩ = .ok () := by
  have hc : canonicalJsonValue nullJson .null = some (utf8 "null") := by
    rw [canonicalJsonValue]
    rfl
  have hp : nullJson.fromStr (utf8 "null") = some .null := by simp [nullJson]
  rw [requireCanonicalJson]
  simp only [hp, hc]
  rfl

theorem length_optionalString (o : Option Str) :
    (optionalBytes stringBytes o).length = 1 + o.elim 0 fun s => 4 + s.bytes.length := by
  cases o with
  | none => rfl
  | some s =>
    simp only [optionalBytes, stringBytes, length_cons, length_append, length_beBytes, elim_some]
    omega

theorem length_rowBundle (action : UInt8) (object_id : Option Str) (created_at : Str) :
    (bundleBytes (rowBundle action object_id created_at)).length =
      152 + (object_id.elim 0 fun s => 4 + s.bytes.length) + created_at.bytes.length := by
  have hmagic : (utf8 "TGNW").length = 4 := by decide
  have hnone : (optionalBytes (FixedBytes.bytes : B256 → Bytes) none).length = 1 := rfl
  simp only [bundleBytes, bodyBytes, rowBundle, countedBytes, flatMap_cons, flatMap_nil,
    auditBytes, length_optionalString, hnone, stringBytes, length_append,
    length_cons, length_nil, length_beBytes, FixedBytes.length_bytes, hmagic, length_null]
  omega

theorem one_encoding_row : (∀ input, decode heap64 nullJson input NostrLimits.HARD ≠ .error .panic) ∧
    ∃ bytes, encode (rowBundle 0 none (letters 1)) = .ok bytes ∧
      decode heap64 nullJson bytes NostrLimits.HARD = .ok (rowBundle 0 none (letters 1)) := by
  obtain ⟨htotal, -, hall⟩ := one_encoding heap64 nullJson NostrLimits.HARD
  have h : BundleWithin heap64 nullJson NostrLimits.HARD (rowBundle 0 none (letters 1)) := by
    refine ⟨rfl, by decide, rfl, fun entry hentry => ?_, by decide, rfl, fun _ h => absurd h not_mem_nil,
      fun _ h => nomatch h⟩
    obtain rfl := mem_singleton.mp hentry
    exact ⟨⟨utf8 "event_created", rfl⟩, (fun _ h => nomatch h), by decide, by decide, nullJson_canonical⟩
  obtain ⟨bytes, hbytes, hdecode⟩ := hall _ h
  refine ⟨htotal (by decide) ⟨by decide, by decide, by decide, by decide⟩, bytes, hbytes, hdecode ?_⟩
  rw [encode_eq h, Except.ok.injEq] at hbytes
  rw [← hbytes, length_rowBundle]
  decide

theorem rowBundle_encode {action : UInt8} {object_id : Option Str} {created_at : Str}
    (hid : ∀ s, object_id = some s → s.bytes.length < 2 ^ 32) (hat : created_at.bytes.length < 2 ^ 32) :
    encode (rowBundle action object_id created_at) =
      .ok (bundleBytes (rowBundle action object_id created_at)) := by
  have hrows : encodeCounted encodeAudit (rowBundle action object_id created_at).audit =
      .ok (countedBytes auditBytes (rowBundle action object_id created_at).audit) := by
    refine encodeCounted_eq (show 1 < 2 ^ 32 by decide) fun entry hentry => ?_
    obtain rfl := mem_singleton.mp hentry
    exact encodeAudit_eq hid hat (show (utf8 "null").length < 2 ^ 32 by decide)
  show (encodeCounted encodeAudit (rowBundle action object_id created_at).audit >>= fun rows =>
    Except.ok (_ ++ rows ++ beBytes 4 0)) = _
  rw [hrows, ok_bind, append_assoc]
  rfl

/-- A bundle of one row with canonical details that has an encoding but is not decoded from it. -/
def NotDecoded (bundle : TgnwBundle) : Prop :=
  Shape bundle.variant bundle.audit bundle.head_event ∧ bundle.audit.length = 1 ∧
  bundle.events = [] ∧
  (∀ entry ∈ bundle.audit, entry.detail.bytes.length = 4 ∧
    requireCanonicalJson nullJson entry.detail = .ok ()) ∧
  ∃ bytes, encode bundle = .ok bytes ∧ bytes.length ≤ NostrLimits.HARD.envelope_bytes.toNat ∧
    decode heap64 nullJson bytes NostrLimits.HARD ≠ .ok bundle

/-- A machine of 32 bits. -/
def heap32 : Heap := ⟨2 ^ 31 - 1, 12, 12, 152, 120⟩

/-- A bundle of one event that announces `2 ^ 32 - 1` tags, and ends there. -/
def announced : Bytes :=
  utf8 "TGNW" ++ [1, 2] ++ replicate 82 0 ++ beBytes 4 1 ++ replicate 76 0 ++ replicate 4 255

theorem announced_panics :
    decode heap32 nullJson announced { NostrLimits.HARD with tags_per_event := 0xffffffff } =
      .error .panic := by
  decide +kernel

/-- An action without a name, an object identifier of more than 1024 bytes, and a timestamp of more than
64; and limits beyond the hard ones, with which the tags that are announced are more than `isize::MAX`
bytes. -/
theorem rows_not_decoded : NotDecoded (rowBundle 11 none (letters 1)) ∧
    NotDecoded (rowBundle 0 (some (letters 1025)) (letters 1)) ∧
    NotDecoded (rowBundle 0 none (letters 65)) ∧
    decode heap32 nullJson announced { NostrLimits.HARD with tags_per_event := 0xffffffff } =
      .error .panic := by
  have hrow : ∀ action object_id created_at, (∀ s, object_id = some s → s.bytes.length ≤ 1025) →
      created_at.bytes.length ≤ 65 →
      ¬ AuditWithin nullJson NostrLimits.HARD
        ⟨1, 0, none, action, none, object_id, created_at, ⟨utf8 "null", by decide⟩⟩ →
      ∃ bytes, encode (rowBundle action object_id created_at) = .ok bytes ∧
        bytes.length ≤ NostrLimits.HARD.envelope_bytes.toNat ∧
        decode heap64 nullJson bytes NostrLimits.HARD ≠ .ok (rowBundle action object_id created_at) := by
    intro action object_id created_at hid hat hno
    refine ⟨_, rowBundle_encode (fun s hs => (hid s hs).trans_lt (by norm_num))
      (hat.trans_lt (by norm_num)), ?_, fun h => ?_⟩
    · have hlen : (object_id.elim 0 fun s => 4 + s.bytes.length) ≤ 1029 := by
        cases object_id with
        | none => exact Nat.zero_le _
        | some s => exact Nat.add_le_add_left (hid s rfl) 4
      rw [length_rowBundle]
      show _ ≤ 12582912
      omega
    · obtain ⟨-, hin, -⟩ := decode_eq_ok.mp h
      exact hno (hin.audit _ (mem_singleton_self _))
  have hlength : ∀ n, (letters n).bytes.length = n := fun n => length_replicate
  have hshape : ∀ action object_id created_at,
      Shape CommitmentVariant.buzzAuditV1 (rowBundle action object_id created_at).audit none ∧
      (rowBundle action object_id created_at).audit.length = 1 ∧
      ∀ entry ∈ (rowBundle action object_id created_at).audit, entry.detail.bytes.length = 4 ∧
        requireCanonicalJson nullJson entry.detail = .ok () := by
    intro action object_id created_at
    refine ⟨rfl, rfl, fun entry hentry => ?_⟩
    obtain rfl := mem_singleton.mp hentry
    exact ⟨length_null, nullJson_canonical⟩
  refine ⟨?_, ?_, ?_, announced_panics⟩
  · obtain ⟨h₁, h₂, h₃⟩ := hshape 11 none (letters 1)
    refine ⟨h₁, h₂, rfl, h₃, hrow _ _ _ (fun _ h => nomatch h) (by rw [hlength]; omega) fun h => ?_⟩
    obtain ⟨name, hname⟩ := h.action
    exact nomatch hname
  · obtain ⟨h₁, h₂, h₃⟩ := hshape 0 (some (letters 1025)) (letters 1)
    refine ⟨h₁, h₂, rfl, h₃, hrow _ _ _ (fun s hs => ?_) (by rw [hlength]; omega) fun h => ?_⟩
    · rw [← Option.some.inj hs, hlength]
    · have hle := h.object_id _ rfl
      rw [hlength] at hle
      omega
  · obtain ⟨h₁, h₂, h₃⟩ := hshape 0 none (letters 65)
    refine ⟨h₁, h₂, rfl, h₃, hrow _ _ _ (fun _ h => nomatch h) (by rw [hlength]) fun h => ?_⟩
    have hle := h.created_at
    rw [hlength] at hle
    omega

end Trustgraphs.Nostr.Tgnw
