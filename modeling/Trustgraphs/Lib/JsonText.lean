import Trustgraphs.Lib.Text

/-!
# Texts of JSON objects, and where they end

The text of an object is written with its strings escaped. A text that a JSON parser accepts is a single value:
its brackets, outside its strings, are closed at its end and not before. `Closed` says so with a scan of the text
that knows strings and brackets only, so it holds of every text that is accepted.

A text that is cut off is not closed, and neither are texts, cut off or not, that follow one another
(`Whole.not_closed_of_torn`, `not_closed_flatten`).
-/

namespace Trustgraphs.JsonText

open Text List

/-! ## Writing -/

/-- A byte as a JSON string writes it. -/
def escapeByte (byte : UInt8) : Bytes :=
  if byte = 34 then [92, 34]
  else if byte = 92 then [92, 92]
  else if byte = 8 then [92, 98]
  else if byte = 9 then [92, 116]
  else if byte = 10 then [92, 110]
  else if byte = 12 then [92, 102]
  else if byte = 13 then [92, 114]
  else if byte < 32 then [92, 117, 48, 48, hexDigit (byte.toNat / 16), hexDigit (byte.toNat % 16)]
  else [byte]

/-- A quoted string. -/
def quote (s : Bytes) : Bytes := 34 :: (s.flatMap escapeByte ++ [34])

/-- Items with commas between them. -/
def commas : List Bytes → Bytes
  | [] => []
  | [item] => item
  | item :: items => item ++ 44 :: commas items

/-- An array of written values. -/
def array (items : List Bytes) : Bytes := 91 :: (commas items ++ [93])

/-- A member of an object. -/
def field (f : Bytes × Bytes) : Bytes := quote f.1 ++ 58 :: f.2

/-- An object of written members. -/
def object (fields : List (Bytes × Bytes)) : Bytes := 123 :: (commas (fields.map field) ++ [125])

/-! ## Scanning -/

/-- Where in a value the scanner stands. -/
inductive Mode where
  /-- Before the value. -/
  | before
  | text
  | string
  /-- After a backslash in a string. -/
  | escape
  /-- So many hexadecimal digits of an escape are to come. -/
  | hex (digits : Nat)
  /-- Right after a string. -/
  | closed
deriving DecidableEq

/-- The scanner's state. -/
structure State where
  /-- The brackets that are open. -/
  depth : Nat
  mode : Mode
deriving DecidableEq

/-- At the start of a value. -/
def start : State := ⟨0, .before⟩

/-- After a whole value outside brackets. -/
def done : State := ⟨0, .text⟩

/-- White space of the grammar. -/
def isSpace (b : UInt8) : Bool := b = 32 || b = 9 || b = 10 || b = 13

/-- A hexadecimal digit of either case. -/
def isHex (b : UInt8) : Bool := isDigit b || (97 ≤ b && b ≤ 102) || (65 ≤ b && b ≤ 70)

/-- One byte more. There is none where no value can have the byte. -/
def step (s : State) (b : UInt8) : Option State :=
  match s.mode with
  | .before => if isSpace b then some s else if b = 123 ∨ b = 91 then some ⟨s.depth + 1, .text⟩ else none
  | .text =>
    if s.depth = 0 then if isSpace b then some s else none
    else if b = 34 then some ⟨s.depth, .string⟩
    else if b = 123 ∨ b = 91 then some ⟨s.depth + 1, .text⟩
    else if b = 125 ∨ b = 93 then some ⟨s.depth - 1, .text⟩
    else some s
  | .string =>
    if b = 34 then some ⟨s.depth, .closed⟩ else if b = 92 then some ⟨s.depth, .escape⟩ else some s
  | .escape =>
    if b = 117 then some ⟨s.depth, .hex 4⟩
    else if b ∈ [34, 92, 47, 98, 102, 110, 114, 116] then some ⟨s.depth, .string⟩ else none
  | .hex digits =>
    if isHex b then some ⟨s.depth, if digits ≤ 1 then .string else .hex (digits - 1)⟩ else none
  | .closed =>
    if isSpace b then some s
    else if b = 58 ∨ b = 44 then some ⟨s.depth, .text⟩
    else if b = 125 ∨ b = 93 then some ⟨s.depth - 1, .text⟩
    else none

/-- The scan of a text, none where it leaves the grammar. -/
def scan (s : State) (l : Bytes) : Option State := l.foldlM step s

/-- The text is one array or one object, as far as its strings and its brackets show. -/
def Closed (l : Bytes) : Prop := scan start l = some done

instance (l : Bytes) : Decidable (Closed l) := inferInstanceAs (Decidable (_ = _))

variable {s t : State} {d k : ℕ} {l m p : Bytes} {b : UInt8}

theorem scan_cons (s : State) (b : UInt8) (l : Bytes) : scan s (b :: l) = (step s b).bind (scan · l) := rfl

theorem scan_append (s : State) (l m : Bytes) : scan s (l ++ m) = (scan s l).bind (scan · m) :=
  foldlM_append

theorem scan_trans (h : scan s l = some t) (m : Bytes) : scan s (l ++ m) = scan t m := by
  rw [scan_append, h]
  rfl

/-! ## The texts that are written -/

/-- A text that leaves the depth as it found it. -/
def Inner (l : Bytes) : Prop :=
  ∀ d, scan ⟨d + 1, .text⟩ l = some ⟨d + 1, .text⟩ ∨ scan ⟨d + 1, .text⟩ l = some ⟨d + 1, .closed⟩

variable {r : Option State} {items : List Bytes} {fields : List (Bytes × Bytes)}

theorem Inner.scan_append (h : Inner l) (htext : scan ⟨d + 1, .text⟩ m = r)
    (hclosed : scan ⟨d + 1, .closed⟩ m = r) : scan ⟨d + 1, .text⟩ (l ++ m) = r := by
  rcases h d with hl | hl
  · rw [scan_trans hl, htext]
  · rw [scan_trans hl, hclosed]

theorem scan_escapeByte (d : ℕ) (b : UInt8) : scan ⟨d, .string⟩ (escapeByte b) = some ⟨d, .string⟩ := by
  have hhex : ∀ n < 16, isHex (hexDigit n) = true := by decide
  have hbyte := b.toNat_lt
  unfold escapeByte
  split_ifs with h1 h2 h3 h4 h5 h6 h7 h8
  all_goals try rfl
  · have hhigh := hhex (b.toNat / 16) (by omega)
    have hlow := hhex (b.toNat % 16) (by omega)
    show ((if isHex (hexDigit (b.toNat / 16)) then some (⟨d, .hex 1⟩ : State) else none).bind fun s =>
      (step s (hexDigit (b.toNat % 16))).bind (scan · [])) = _
    rw [if_pos hhigh]
    show (if isHex (hexDigit (b.toNat % 16)) then some (⟨d, .string⟩ : State) else none).bind (scan · []) = _
    rw [if_pos hlow]
    rfl
  · show (step ⟨d, .string⟩ b).bind (scan · []) = _
    rw [step]
    simp only [if_neg h1, if_neg h2]
    rfl

theorem scan_quote (d : ℕ) (l : Bytes) : scan ⟨d + 1, .text⟩ (quote l) = some ⟨d + 1, .closed⟩ := by
  have hbody : scan ⟨d + 1, .string⟩ (l.flatMap escapeByte) = some ⟨d + 1, .string⟩ := by
    induction l with
    | nil => rfl
    | cons b l ih => rw [flatMap_cons, scan_trans (scan_escapeByte (d + 1) b), ih]
  show scan ⟨d + 1, .string⟩ (l.flatMap escapeByte ++ [34]) = _
  rw [scan_trans hbody]
  rfl

theorem inner_quote (l : Bytes) : Inner (quote l) := fun d => .inr (scan_quote d l)

theorem inner_plain (h : ∀ b ∈ l, b ∉ [34, 123, 91, 125, 93]) : Inner l := by
  intro d
  refine .inl ?_
  induction l with
  | nil => rfl
  | cons b l ih =>
    have hb := h b mem_cons_self
    simp only [mem_cons, not_mem_nil, or_false, not_or] at hb
    obtain ⟨h1, h2, h3, h4, h5⟩ := hb
    have hstep : step ⟨d + 1, .text⟩ b = some ⟨d + 1, .text⟩ := by
      simp only [step, if_neg h1, if_neg (not_or.mpr ⟨h2, h3⟩), if_neg (not_or.mpr ⟨h4, h5⟩), Nat.succ_ne_zero,
        if_false]
    rw [scan_cons, hstep]
    exact ih fun b hb => h b (mem_cons_of_mem _ hb)

theorem toNat_of_mem_decimal {n : ℕ} (h : b ∈ decimal n) : 48 ≤ b.toNat ∧ b.toNat ≤ 57 := by
  obtain ⟨c, hc, rfl⟩ := mem_map.mp h
  have hdigit := Nat.isDigit_of_mem_toDigits (by decide) (by decide) hc
  simp only [Char.isDigit, ge_iff_le, Bool.and_eq_true, decide_eq_true_eq, UInt32.le_iff_toNat_le] at hdigit
  have hlow : 48 ≤ c.toNat := hdigit.1
  have hhigh : c.toNat ≤ 57 := hdigit.2
  rw [UInt8.toNat_ofNat', Nat.mod_eq_of_lt (by omega)]
  exact ⟨hlow, hhigh⟩

theorem inner_decimal (n : ℕ) : Inner (decimal n) := by
  refine inner_plain fun b hb hmem => ?_
  obtain ⟨hlow, hhigh⟩ := toNat_of_mem_decimal hb
  simp only [mem_cons, not_mem_nil, or_false] at hmem
  rcases hmem with rfl | rfl | rfl | rfl | rfl
  · exact absurd hlow (by decide)
  · exact absurd hhigh (by decide)
  · exact absurd hhigh (by decide)
  · exact absurd hhigh (by decide)
  · exact absurd hhigh (by decide)

theorem inner_commas (h : ∀ item ∈ items, Inner item) : Inner (commas items) := by
  induction items with
  | nil => exact fun d => .inl rfl
  | cons item items ih =>
    cases items with
    | nil => exact h item mem_cons_self
    | cons next items =>
      intro d
      have hrest := ih fun item hitem => h item (mem_cons_of_mem _ hitem)
      have hitem := h item mem_cons_self
      rcases hrest d with hrest | hrest
      · exact .inl (hitem.scan_append hrest hrest)
      · exact .inr (hitem.scan_append hrest hrest)

theorem Inner.field (h : Inner m) : Inner (field (l, m)) := by
  intro d
  rw [JsonText.field, scan_trans (scan_quote d l)]
  exact h d

theorem Inner.bracket (h : Inner l) (d : ℕ) {close : UInt8} (hclose : close = 125 ∨ close = 93) :
    scan ⟨d + 1, .text⟩ (l ++ [close]) = some ⟨d, .text⟩ := by
  rcases hclose with rfl | rfl
  · exact h.scan_append rfl rfl
  · exact h.scan_append rfl rfl

theorem inner_array (h : ∀ item ∈ items, Inner item) : Inner (array items) :=
  fun d => .inl ((inner_commas h).bracket (d + 1) (.inr rfl))

theorem inner_fields (h : ∀ f ∈ fields, Inner f.2) : Inner (commas (fields.map field)) := by
  refine inner_commas fun item hitem => ?_
  obtain ⟨f, hf, rfl⟩ := mem_map.mp hitem
  exact (h f hf).field

theorem inner_object (h : ∀ f ∈ fields, Inner f.2) : Inner (object fields) :=
  fun d => .inl ((inner_fields h).bracket (d + 1) (.inl rfl))

theorem closed_object (h : ∀ f ∈ fields, Inner f.2) : Closed (object fields) :=
  (inner_fields h).bracket 0 (.inl rfl)

/-! ## Control characters -/

theorem escapeByte_printable (b : UInt8) : ∀ c ∈ escapeByte b, 32 ≤ c.toNat := by
  have hhex : ∀ n < 16, 32 ≤ (hexDigit n).toNat := by decide
  have hpair : ∀ x : UInt8, 32 ≤ x.toNat → ∀ c ∈ [92, x], 32 ≤ c.toNat := fun x hx =>
    forall_mem_cons.mpr ⟨by decide, forall_mem_singleton.mpr hx⟩
  have hbyte := b.toNat_lt
  unfold escapeByte
  split_ifs with h1 h2 h3 h4 h5 h6 h7 h8
  · exact hpair 34 (by decide)
  · exact hpair 92 (by decide)
  · exact hpair 98 (by decide)
  · exact hpair 116 (by decide)
  · exact hpair 110 (by decide)
  · exact hpair 102 (by decide)
  · exact hpair 114 (by decide)
  · intro c hc
    simp only [mem_cons, not_mem_nil, or_false] at hc
    rcases hc with rfl | rfl | rfl | rfl | rfl | rfl
    · decide
    · decide
    · decide
    · decide
    · exact hhex _ (by omega)
    · exact hhex _ (by omega)
  · intro c hc
    rw [mem_singleton.mp hc]
    exact Nat.not_lt.mp fun hlt => h8 (UInt8.lt_iff_toNat_lt.mpr hlt)

/-- No byte is a control character, so that the text fits on a line. -/
def Printable (l : Bytes) : Prop := ∀ b ∈ l, 32 ≤ b.toNat

theorem Printable.append (hl : Printable l) (hm : Printable m) : Printable (l ++ m) := fun b hb =>
  (mem_append.mp hb).elim (hl b) (hm b)

theorem Printable.cons (hb : 32 ≤ b.toNat) (hl : Printable l) : Printable (b :: l) :=
  forall_mem_cons.mpr ⟨hb, hl⟩

theorem printable_quote (l : Bytes) : Printable (quote l) := by
  refine Printable.cons (by decide) (Printable.append (fun b hb =>
    ?_) (Printable.cons (by decide) fun _ h => nomatch h))
  obtain ⟨c, -, hc⟩ := mem_flatMap.mp hb
  exact escapeByte_printable c b hc

theorem printable_decimal (n : ℕ) : Printable (decimal n) := fun _ hb =>
  le_trans (by norm_num) (toNat_of_mem_decimal hb).1

theorem printable_commas (h : ∀ item ∈ items, Printable item) : Printable (commas items) := by
  induction items with
  | nil => exact fun _ h => nomatch h
  | cons item items ih =>
    cases items with
    | nil => exact h item mem_cons_self
    | cons next items =>
      exact (h item mem_cons_self).append
        (Printable.cons (by decide) (ih fun item hitem => h item (mem_cons_of_mem _ hitem)))

theorem printable_array (h : ∀ item ∈ items, Printable item) : Printable (array items) :=
  Printable.cons (by decide) ((printable_commas h).append (Printable.cons (by decide) fun _ h => nomatch h))

theorem printable_object (h : ∀ f ∈ fields, Printable f.2) : Printable (object fields) := by
  refine Printable.cons (by decide) ((printable_commas fun item hitem => ?_).append
    (Printable.cons (by decide) fun _ h => nomatch h))
  obtain ⟨f, hf, rfl⟩ := mem_map.mp hitem
  exact (printable_quote f.1).append (Printable.cons (by decide) (h f hf))

/-! ## Texts that are cut off or follow one another -/

/-- The text of an object whose first name starts with `c`. -/
structure Whole (l : Bytes) : Prop where
  closed : Closed l
  /-- No value has the third byte right after a string. -/
  head : ∃ c rest, l = 123 :: 34 :: c :: rest ∧ ∀ d, step ⟨d, .closed⟩ c = none
  last : ∃ init, l = init ++ [125]

theorem exists_object_cons (f : Bytes × Bytes) (fields : List (Bytes × Bytes)) :
    ∃ tail, object (f :: fields) = 123 :: (quote f.1 ++ tail) := by
  cases fields with
  | nil =>
    refine ⟨58 :: f.2 ++ [125], ?_⟩
    show 123 :: (quote f.1 ++ 58 :: f.2 ++ [125]) = _
    rw [append_assoc]
  | cons g fields =>
    refine ⟨58 :: f.2 ++ 44 :: commas ((g :: fields).map field) ++ [125], ?_⟩
    show 123 :: (quote f.1 ++ 58 :: f.2 ++ 44 :: commas ((g :: fields).map field) ++ [125]) = _
    simp only [append_assoc]

theorem whole_object {c : UInt8} {name value : Bytes}
    (h : ∀ f ∈ (c :: name, value) :: fields, Inner f.2) (hplain : escapeByte c = [c])
    (hc : ∀ d, step ⟨d, .closed⟩ c = none) : Whole (object ((c :: name, value) :: fields)) := by
  obtain ⟨tail, htail⟩ := exists_object_cons (c :: name, value) fields
  refine ⟨closed_object h, ⟨c, name.flatMap escapeByte ++ [34] ++ tail, ?_, hc⟩, ⟨_, (cons_append ..).symm⟩⟩
  rw [htail, quote, flatMap_cons, hplain]
  rfl

/-- The scanner has read some of a value. -/
def Begun (s : State) : Prop := s.mode ≠ .before ∧ (s.mode = .text ∨ 1 ≤ s.depth)

theorem step_space (h : isSpace b = true) (d : ℕ) : step ⟨d, .text⟩ b = some ⟨d, .text⟩ := by
  simp only [isSpace, Bool.or_eq_true, decide_eq_true_eq] at h
  rcases h with ((rfl | rfl) | rfl) | rfl
  all_goals
    cases d with
    | zero => rfl
    | succ d => rfl

/-- A deeper scan takes the same step at its depth. -/
theorem step_deeper (h : step s b = some t) (hs : Begun s) (k : ℕ) :
    step ⟨s.depth + k, s.mode⟩ b = some ⟨t.depth + k, t.mode⟩ ∧ Begun t := by
  obtain ⟨d, mode⟩ := s
  obtain ⟨hmode, hdepth⟩ := hs
  cases mode with
  | before => exact absurd rfl hmode
  | text =>
    rcases Nat.eq_zero_or_pos d with rfl | hd
    · by_cases hspace : isSpace b = true
      · obtain rfl : (⟨0, .text⟩ : State) = t := Option.some.inj ((step_space hspace 0).symm.trans h)
        exact ⟨step_space hspace _, hmode, .inl rfl⟩
      · exact absurd h (by simp [step, hspace])
    · have hd0 : d ≠ 0 := by omega
      have hdk : d + k ≠ 0 := by omega
      have hsub : d + k - 1 = d - 1 + k := by omega
      simp only [step, hd0, hdk, if_false] at h ⊢
      split_ifs at h ⊢ with h1 h2 h3
      all_goals obtain rfl := Option.some.inj h
      · exact ⟨rfl, by simp [Begun]; omega⟩
      · exact ⟨by rw [Nat.add_right_comm], by simp [Begun]⟩
      · exact ⟨by rw [hsub], by simp [Begun]⟩
      · exact ⟨rfl, by simp [Begun]⟩
  | string =>
    have hd : 1 ≤ d := hdepth.resolve_left (by simp)
    simp only [step] at h ⊢
    split_ifs at h ⊢
    all_goals obtain rfl := Option.some.inj h
    all_goals exact ⟨rfl, by simp [Begun]; omega⟩
  | escape =>
    have hd : 1 ≤ d := hdepth.resolve_left (by simp)
    simp only [step] at h ⊢
    split_ifs at h ⊢
    all_goals obtain rfl := Option.some.inj h
    all_goals exact ⟨rfl, by simp [Begun]; omega⟩
  | hex digits =>
    have hd : 1 ≤ d := hdepth.resolve_left (by simp)
    simp only [step] at h ⊢
    split_ifs at h ⊢
    all_goals obtain rfl := Option.some.inj h
    all_goals exact ⟨rfl, by simp [Begun]; omega⟩
  | closed =>
    have hd : 1 ≤ d := hdepth.resolve_left (by simp)
    have hsub : d + k - 1 = d - 1 + k := by omega
    simp only [step] at h ⊢
    split_ifs at h ⊢
    all_goals obtain rfl := Option.some.inj h
    · exact ⟨rfl, by simp [Begun]; omega⟩
    · exact ⟨rfl, by simp [Begun]⟩
    · exact ⟨by rw [hsub], by simp [Begun]⟩

theorem scan_deeper (h : scan s l = some t) (hs : Begun s) (k : ℕ) :
    scan ⟨s.depth + k, s.mode⟩ l = some ⟨t.depth + k, t.mode⟩ ∧ Begun t := by
  induction l generalizing s with
  | nil =>
    obtain rfl := Option.some.inj h
    exact ⟨rfl, hs⟩
  | cons b l ih =>
    obtain ⟨u, hstep, hrest⟩ := Option.bind_eq_some_iff.mp h
    obtain ⟨hdeep, hu⟩ := step_deeper hstep hs k
    rw [scan_cons, hdeep]
    exact ih hrest hu

theorem scan_done (h : scan done l = some t) : t = done ∧ ∀ b ∈ l, isSpace b = true := by
  induction l with
  | nil => exact ⟨(Option.some.inj h).symm, fun _ hb => nomatch hb⟩
  | cons b l ih =>
    obtain ⟨u, hstep, hrest⟩ := Option.bind_eq_some_iff.mp h
    by_cases hspace : isSpace b = true
    · obtain rfl : done = u := Option.some.inj ((step_space hspace 0).symm.trans hstep)
      obtain ⟨ht, hl⟩ := ih hrest
      exact ⟨ht, forall_mem_cons.mpr ⟨hspace, hl⟩⟩
    · exact absurd hstep (by simp [step, done, hspace])

/-- A scan that fails or stops inside a bracket. -/
def Unfinished : Option State → Prop
  | none => True
  | some s => Begun s ∧ 1 ≤ s.depth

theorem Whole.scan_torn (h : Whole l) (hp : p <+: l) (hne : p ≠ []) (hproper : p ≠ l) :
    ∃ s, scan start p = some s ∧ Begun s ∧ 1 ≤ s.depth := by
  obtain ⟨c, rest, hhead, -⟩ := h.head
  obtain ⟨init, hlast⟩ := h.last
  obtain ⟨q, hq⟩ := hp
  obtain ⟨b, p, rfl⟩ := exists_cons_of_ne_nil hne
  obtain ⟨rfl, hp⟩ : b = 123 ∧ p ++ q = 34 :: c :: rest := by
    rw [hhead] at hq
    exact List.cons.inj hq
  have hclosed : scan start (123 :: p ++ q) = some done := by
    rw [hq]
    exact h.closed
  rw [scan_append] at hclosed
  obtain ⟨s, hs, hrest⟩ := Option.bind_eq_some_iff.mp hclosed
  have hbegun : Begun s := (scan_deeper (show scan ⟨1, .text⟩ p = some s from hs) ⟨by decide, .inl rfl⟩ 0).2
  refine ⟨s, hs, hbegun, ?_⟩
  -- at depth zero the rest would be space, but its last byte is a bracket
  by_contra hzero
  obtain ⟨d, mode⟩ := s
  obtain rfl : d = 0 := by simpa using hzero
  obtain rfl : mode = .text := hbegun.2.resolve_right (by simp)
  have hspace := (scan_done hrest).2
  rcases eq_nil_or_concat q with rfl | ⟨q, e, rfl⟩
  · exact hproper (by simpa using hq)
  · have he : e = 125 := by
      rw [hlast, concat_eq_append, ← append_assoc] at hq
      exact (append_inj' hq rfl).2 |> List.cons.inj |>.1
    rw [concat_eq_append] at hspace
    have hfalse := hspace e (by simp)
    rw [he] at hfalse
    exact absurd hfalse (by decide)

theorem Whole.scan_part (h : Whole l) (hp : p <+: l) (hne : p ≠ []) :
    ∃ s, scan start p = some s ∧ Begun s ∧ (p ≠ l → 1 ≤ s.depth) := by
  by_cases hproper : p = l
  · exact ⟨done, hproper ▸ h.closed, ⟨by decide, .inl rfl⟩, fun hne => absurd hproper hne⟩
  · obtain ⟨s, hs, hbegun, hdepth⟩ := h.scan_torn hp hne hproper
    exact ⟨s, hs, hbegun, fun _ => hdepth⟩

theorem Whole.scan_within (h : Whole l) (hp : p <+: l) (hne : p ≠ []) (hs : Begun s) (hdepth : 1 ≤ s.depth) :
    Unfinished (scan s p) := by
  obtain ⟨t, ht, hbegun, -⟩ := h.scan_part hp hne
  obtain ⟨c, rest, hhead, hc⟩ := h.head
  obtain ⟨d, mode⟩ := s
  obtain ⟨d, rfl⟩ : ∃ n, d = n + 1 := ⟨d - 1, by simp only at hdepth; omega⟩
  obtain ⟨q, hq⟩ := hp
  obtain ⟨b, p, rfl⟩ := exists_cons_of_ne_nil hne
  obtain ⟨rfl, hp⟩ : b = 123 ∧ p ++ q = 34 :: c :: rest := by
    rw [hhead] at hq
    exact List.cons.inj hq
  cases mode with
  | before => exact absurd rfl hs.1
  | text =>
    obtain ⟨hdeep, hbegun⟩ := scan_deeper (show scan ⟨1, .text⟩ p = some t from ht) ⟨by decide, .inl rfl⟩ (d + 1)
    have hscan : scan ⟨d + 1, .text⟩ (123 :: p) = some ⟨t.depth + (d + 1), t.mode⟩ := by
      show scan ⟨d + 1 + 1, .text⟩ p = _
      rw [Nat.add_comm (d + 1) 1]
      exact hdeep
    rw [hscan]
    exact ⟨⟨hbegun.1, .inr (Nat.le_add_left ..)⟩, Nat.le_add_left ..⟩
  | string =>
    -- the quote of the first name ends the string, and the name itself cannot follow it
    show Unfinished (scan ⟨d + 1, .string⟩ p)
    cases p with
    | nil => exact ⟨⟨by simp, .inr (Nat.succ_pos d)⟩, Nat.succ_pos d⟩
    | cons b p =>
      obtain ⟨rfl, hrest⟩ : b = 34 ∧ p ++ q = c :: rest := List.cons.inj hp
      show Unfinished (scan ⟨d + 1, .closed⟩ p)
      cases p with
      | nil => exact ⟨⟨by simp, .inr (Nat.succ_pos d)⟩, Nat.succ_pos d⟩
      | cons b p =>
        obtain ⟨rfl, -⟩ : b = c ∧ p ++ q = rest := List.cons.inj hrest
        rw [scan_cons, hc]
        trivial
  | escape => trivial
  | hex digits => trivial
  | closed => trivial

theorem Whole.scan_behind (h : Whole l) (hp : p <+: l) (hne : p ≠ []) : scan done p = none := by
  obtain ⟨c, rest, hhead, -⟩ := h.head
  obtain ⟨q, hq⟩ := hp
  obtain ⟨b, p, rfl⟩ := exists_cons_of_ne_nil hne
  obtain ⟨rfl, -⟩ : b = 123 ∧ p ++ q = 34 :: c :: rest := by
    rw [hhead] at hq
    exact List.cons.inj hq
  rfl

/-- A part of the text of an object, which is not empty. -/
def Part (p : Bytes) : Prop := p ≠ [] ∧ ∃ l, Whole l ∧ p <+: l

theorem scan_parts {parts : List Bytes} (h : ∀ p ∈ parts, Part p) (hr : Unfinished r) :
    Unfinished (r.bind (scan · parts.flatten)) := by
  induction parts generalizing r with
  | nil =>
    cases r with
    | none => trivial
    | some s => exact hr
  | cons p parts ih =>
    obtain ⟨hp, hparts⟩ := forall_mem_cons.mp h
    obtain ⟨hne, l, hl, hpart⟩ := hp
    cases r with
    | none => trivial
    | some s =>
      show Unfinished (scan s (p ++ parts.flatten))
      rw [scan_append]
      exact ih hparts (hl.scan_within hpart hne hr.1 hr.2)

theorem Unfinished.ne_done (h : Unfinished r) : r ≠ some done := by
  rintro rfl
  exact absurd h.2 (by decide)

theorem Whole.not_closed_of_torn (h : Whole l) (hp : p <+: l) (hproper : p ≠ l) : ¬ Closed p := by
  intro hclosed
  rcases eq_or_ne p [] with rfl | hne
  · exact absurd hclosed (by decide)
  · obtain ⟨s, hs, hbegun, hdepth⟩ := h.scan_torn hp hne hproper
    have hunfinished : Unfinished (scan start p) := by
      rw [hs]
      exact ⟨hbegun, hdepth⟩
    exact hunfinished.ne_done hclosed

/-- A torn line with more behind it is no JSON value. -/
theorem not_closed_flatten {first second : Bytes} {parts : List Bytes} (hfirst : Part first)
    (hsecond : Part second) (hparts : ∀ p ∈ parts, Part p) : ¬ Closed (first ++ second ++ parts.flatten) := by
  intro hclosed
  obtain ⟨hne, l, hl, hpart⟩ := hfirst
  obtain ⟨hne', l', hl', hpart'⟩ := hsecond
  obtain ⟨s, hs, hbegun, hdepth⟩ := hl.scan_part hpart hne
  have hboth : Unfinished (scan start (first ++ second)) := by
    rw [scan_trans hs]
    by_cases hproper : first = l
    · obtain rfl : done = s := by
        rw [hproper] at hs
        exact Option.some.inj (hl.closed.symm.trans hs)
      rw [hl'.scan_behind hpart' hne']
      trivial
    · exact hl'.scan_within hpart' hne' hbegun (hdepth hproper)
  rw [Closed, scan_append] at hclosed
  exact (scan_parts hparts hboth).ne_done hclosed

end Trustgraphs.JsonText
