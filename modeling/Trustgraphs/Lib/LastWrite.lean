import Trustgraphs.Lib.BTree

/-!
# Last write wins

A register keeps the greatest of the stamped values written to it, the first of them on a tie. A map
of registers is written key by key.
-/

namespace Trustgraphs.Latest

open List

variable {K O V : Type} [LinearOrder K] [LinearOrder O]

/-- An event replaces the one before it when its order is strictly larger. -/
def write (reg : Option (O × V)) (e : O × V) : Option (O × V) :=
  match reg with
  | some prev => if prev.1 ≥ e.1 then some prev else some e
  | none => some e

/-- The event a register holds after the list. -/
def latest (l : List (O × V)) : Option (O × V) := l.foldl write none

/-- The write to the register of the event's key. -/
def put (m : BTreeMap K (O × V)) (e : K × O × V) : BTreeMap K (O × V) :=
  match m[e.1]? with
  | some prev => if prev.1 ≥ e.2.1 then m else m.insert e.1 e.2
  | none => m.insert e.1 e.2

/-! ## Registers -/

theorem write_isSome (reg : Option (O × V)) (e : O × V) : (write reg e).isSome = true := by
  cases reg with
  | none => rfl
  | some prev =>
    unfold write
    dsimp only
    split <;> rfl

variable {reg : Option (O × V)} {x : O × V} {l : List (O × V)}

theorem write_choice {e : O × V} (h : write reg e = some x) : reg = some x ∨ e = x := by
  cases reg with
  | none => exact Or.inr (Option.some.inj h)
  | some prev =>
    unfold write at h
    dsimp only at h
    split at h
    · exact Or.inl h
    · exact Or.inr (Option.some.inj h)

theorem foldl_write_choice (h : l.foldl write reg = some x) : reg = some x ∨ x ∈ l := by
  induction l generalizing reg with
  | nil => exact Or.inl h
  | cons e l ih =>
    rcases ih h with hreg | hl
    · rcases write_choice hreg with hprev | rfl
      · exact Or.inl hprev
      · exact Or.inr mem_cons_self
    · exact Or.inr (mem_cons_of_mem _ hl)

theorem mem_of_latest (h : latest l = some x) : x ∈ l := (foldl_write_choice h).resolve_left (by simp)

theorem foldl_write_isSome (l : List (O × V)) (h : reg.isSome = true) : (l.foldl write reg).isSome = true := by
  induction l generalizing reg with
  | nil => exact h
  | cons e l ih => exact ih (write_isSome reg e)

theorem latest_eq_none : latest l = none ↔ l = [] := by
  cases l with
  | nil => simp [latest]
  | cons e l =>
    have h := foldl_write_isSome l (write_isSome none e)
    constructor
    · intro hn
      rw [latest, foldl_cons] at hn
      rw [hn] at h
      exact absurd h (by simp)
    · intro hn
      exact absurd hn (cons_ne_nil e l)

theorem latest_of_same_stamp {e : O × V} (h : ∀ x ∈ l, x.1 = e.1) : latest (e :: l) = some e := by
  show l.foldl write (some e) = some e
  induction l with
  | nil => rfl
  | cons x l ih =>
    have hx : write (some e) x = some e := if_pos (h x mem_cons_self).le
    rw [foldl_cons, hx]
    exact ih fun y hy => h y (mem_cons_of_mem _ hy)

/-! ## Maps of registers -/

theorem getElem?_put (m : BTreeMap K (O × V)) (e : K × O × V) (k : K) :
    (put m e)[k]? = if e.1 = k then write m[k]? e.2 else m[k]? := by
  by_cases hk : e.1 = k
  · subst hk
    rw [if_pos rfl]
    unfold put write
    cases hm : m[e.1]? with
    | none => exact m.getElem?_insert_self _ _
    | some prev =>
      dsimp only
      split
      · exact hm
      · exact m.getElem?_insert_self _ _
  · rw [if_neg hk]
    unfold put
    split
    · split
      · rfl
      · exact m.getElem?_insert_of_ne _ hk
    · exact m.getElem?_insert_of_ne _ hk

/-- The events of one key, in the order of the list. -/
def writesTo (k : K) (l : List (K × O × V)) : List (O × V) := (l.filter fun e => e.1 = k).map Prod.snd

omit [LinearOrder O] in
theorem mem_writesTo {k : K} {l : List (K × O × V)} {x : O × V} : x ∈ writesTo k l ↔ (k, x) ∈ l := by
  unfold writesTo
  simp

omit [LinearOrder O] in
theorem writesTo_append (k : K) (l m : List (K × O × V)) :
    writesTo k (l ++ m) = writesTo k l ++ writesTo k m := by
  simp [writesTo]

omit [LinearOrder O] in
theorem writesTo_eq_nil {k : K} {l : List (K × O × V)} (h : ∀ e ∈ l, e.1 ≠ k) : writesTo k l = [] := by
  refine eq_nil_iff_forall_not_mem.mpr fun x hx => ?_
  exact h (k, x) (mem_writesTo.mp hx) rfl

theorem getElem?_foldl_put (l : List (K × O × V)) (m : BTreeMap K (O × V)) (k : K) :
    (l.foldl put m)[k]? = (writesTo k l).foldl write m[k]? := by
  induction l generalizing m with
  | nil => rfl
  | cons e l ih =>
    rw [foldl_cons, ih, getElem?_put]
    by_cases hk : e.1 = k
    · have hw : writesTo k (e :: l) = e.2 :: writesTo k l := by simp [writesTo, hk]
      rw [if_pos hk, hw, foldl_cons]
    · have hw : writesTo k (e :: l) = writesTo k l := by simp [writesTo, hk]
      rw [if_neg hk, hw]

theorem getElem?_foldl_put_empty (l : List (K × O × V)) (k : K) :
    (l.foldl put (∅ : BTreeMap K (O × V)))[k]? = latest (writesTo k l) := by
  rw [getElem?_foldl_put, Std.ExtTreeMap.getElem?_empty]
  rfl

end Trustgraphs.Latest

/-!
# Logs whose later entries overwrite

A log is replayed into a map: an entry writes one key or none, and a later write takes the place of an
earlier one. What the map holds under a key is the last entry that wrote it. A log is sorted before it
is replayed; the sort keeps the order of entries that it does not tell apart, so that entries which are
dropped before or after the sort leave the same log.
-/

namespace Trustgraphs.LastWrite

open List

/-! ## Replaying -/

section Replay

variable {α K V : Type} [LinearOrder K]

/-- An element writes its key, if it has one. -/
def write (f : α → Option (K × V)) (m : BTreeMap K V) (a : α) : BTreeMap K V :=
  match f a with
  | some e => m.insert e.1 e.2
  | none => m

/-- The map after all the elements. -/
def writes (f : α → Option (K × V)) (l : List α) : BTreeMap K V := l.foldl (write f) ∅

/-- What the element writes at the key. -/
def valueAt (f : α → Option (K × V)) (k : K) (a : α) : Option V :=
  (f a).bind fun e => if e.1 = k then some e.2 else none

variable {f : α → Option (K × V)}

theorem valueAt_eq_some {k : K} {a : α} {v : V} : valueAt f k a = some v ↔ f a = some (k, v) := by
  unfold valueAt
  cases hf : f a with
  | none => simp
  | some e =>
    obtain ⟨b, w⟩ := e
    by_cases hb : b = k
    · simp [hb]
    · simp [hb]

theorem writes_append_singleton (l : List α) (a : α) : writes f (l ++ [a]) = write f (writes f l) a := by
  rw [writes, foldl_append]
  rfl

theorem getElem?_writes (l : List α) (k : K) : (writes f l)[k]? = (l.filterMap (valueAt f k)).getLast? := by
  induction l using List.reverseRecOn with
  | nil => simp [writes]
  | append_singleton l a ih =>
    rw [writes_append_singleton, filterMap_append, write]
    cases hf : f a with
    | none =>
      have hnone : valueAt f k a = none := by rw [valueAt, hf]; rfl
      simpa [hnone] using ih
    | some e =>
      obtain ⟨b, v⟩ := e
      by_cases hb : b = k
      · subst hb
        have hsome : valueAt f b a = some v := valueAt_eq_some.mpr hf
        simp [hsome]
      · have hnone : valueAt f k a = none := by rw [valueAt, hf]; simp [hb]
        rw [BTreeMap.getElem?_insert_of_ne _ _ hb, ih]
        simp [hnone]

/-- In a log in ascending order the greatest of the entries that wrote a key counts. -/
theorem getElem?_writes_eq_some {r : α → α → Prop} {l : List α} (hs : l.Pairwise r)
    (hasymm : ∀ a b, r a b → ¬ r b a) {k : K} {v : V} : (writes f l)[k]? = some v ↔
      ∃ a ∈ l, f a = some (k, v) ∧ ∀ b ∈ l, ∀ w, f b = some (k, w) → b = a ∨ r b a := by
  induction l using List.reverseRecOn with
  | nil => simp [writes]
  | append_singleton l a ih =>
    obtain ⟨hl, -, hla⟩ := pairwise_append.mp hs
    have hbefore : ∀ b ∈ l, r b a := fun b hb => hla b hb a (mem_singleton_self a)
    have ih := ih hl
    rw [writes_append_singleton, write]
    by_cases hk : ∃ w, f a = some (k, w)
    · obtain ⟨w, hw⟩ := hk
      rw [hw, BTreeMap.getElem?_insert_self, Option.some_inj]
      constructor
      · rintro rfl
        refine ⟨a, by simp, hw, fun b hb _ _ => ?_⟩
        rcases mem_append.mp hb with hb | hb
        · exact Or.inr (hbefore b hb)
        · exact Or.inl (mem_singleton.mp hb)
      · rintro ⟨c, hc, hfc, hmax⟩
        have hac : a = c := by
          rcases hmax a (by simp) w hw with hac | hac
          · exact hac
          · rcases mem_append.mp hc with hc | hc
            · exact absurd hac (hasymm _ _ (hbefore c hc))
            · exact (mem_singleton.mp hc).symm
        rw [← hac, hw, Option.some_inj, Prod.mk.injEq] at hfc
        exact hfc.2
    · have hskip : (match f a with
          | some e => (writes f l).insert e.1 e.2
          | none => writes f l)[k]? = (writes f l)[k]? := by
        cases hf : f a with
        | none => rfl
        | some e =>
          refine BTreeMap.getElem?_insert_of_ne _ _ fun he => hk ⟨e.2, ?_⟩
          rw [hf, ← he]
      rw [hskip, ih]
      constructor
      · rintro ⟨c, hc, hfc, hmax⟩
        refine ⟨c, mem_append_left _ hc, hfc, fun b hb w hw => ?_⟩
        rcases mem_append.mp hb with hb | hb
        · exact hmax b hb w hw
        · rw [mem_singleton.mp hb] at hw
          exact absurd ⟨w, hw⟩ hk
      · rintro ⟨c, hc, hfc, hmax⟩
        refine ⟨c, ?_, hfc, fun b hb => hmax b (mem_append_left _ hb)⟩
        rcases mem_append.mp hc with hc | hc
        · exact hc
        · rw [mem_singleton.mp hc] at hfc
          exact absurd ⟨v, hfc⟩ hk

theorem writes_map {β : Type} (g : β → α) (l : List β) : writes f (l.map g) = writes (fun b => f (g b)) l := by
  rw [writes, foldl_map]
  rfl

theorem size_writes_le (l : List α) : (writes f l).size ≤ l.length := by
  induction l using List.reverseRecOn with
  | nil => exact Nat.le_of_eq Std.ExtTreeMap.size_empty
  | append_singleton l a ih =>
    rw [writes_append_singleton, length_append, write]
    cases f a with
    | none => exact ih.trans (Nat.le_add_right _ _)
    | some e => exact (Std.ExtTreeMap.size_insert_le).trans (Nat.add_le_add_right ih 1)

theorem getElem?_writes_congr {g : α → Option (K × V)} {l l' : List α} {k : K}
    (h : l.filterMap (valueAt f k) = l'.filterMap (valueAt g k)) :
    (writes f l)[k]? = (writes g l')[k]? := by
  rw [getElem?_writes, getElem?_writes, h]

end Replay

/-! ## Sorting -/

section Sorting

variable {α : Type} {r : α → α → Prop} [DecidableRel r]

variable {a : α} {l : List α}

theorem filter_orderedInsert_of_false {p : α → Bool} (h : p a = false) (l : List α) :
    (l.orderedInsert r a).filter p = l.filter p := by
  induction l with
  | nil => simp [h]
  | cons b l ih =>
    rw [orderedInsert_cons]
    split
    · rw [filter_cons_of_neg (by simp [h])]
    · rw [filter_cons, filter_cons, ih]

theorem filter_orderedInsert_of_true [IsTrans α r] {p : α → Bool} (h : p a = true)
    (hs : l.Pairwise r) : (l.orderedInsert r a).filter p = (l.filter p).orderedInsert r a := by
  induction l with
  | nil => simp [h]
  | cons b l ih =>
    have ih := ih hs.of_cons
    by_cases hab : r a b
    · rw [orderedInsert_cons_of_le _ _ hab, filter_cons_of_pos h]
      -- everything that is left comes after `a`
      have hall : ∀ c ∈ (b :: l).filter p, r a c := by
        intro c hc
        rcases mem_cons.mp (mem_filter.mp hc).1 with rfl | hc
        · exact hab
        · exact IsTrans.trans _ _ _ hab (rel_of_pairwise_cons hs hc)
      cases hl : (b :: l).filter p with
      | nil => rfl
      | cons c m => rw [orderedInsert_cons_of_le _ _ (hall c (by rw [hl]; exact mem_cons_self ..))]
    · rw [orderedInsert_of_not_le _ _ hab]
      cases hb : p b with
      | true => rw [filter_cons_of_pos hb, filter_cons_of_pos hb, ih, orderedInsert_of_not_le _ _ hab]
      | false => rw [filter_cons_of_neg (by simp [hb]), filter_cons_of_neg (by simp [hb]), ih]

theorem filter_insertionSort [IsTrans α r] [Std.Total r] (p : α → Bool) (l : List α) :
    (l.insertionSort r).filter p = (l.filter p).insertionSort r := by
  induction l with
  | nil => rfl
  | cons a l ih =>
    rw [insertionSort_cons]
    cases h : p a with
    | true =>
      rw [filter_orderedInsert_of_true h (pairwise_insertionSort r l), ih, filter_cons_of_pos h,
        insertionSort_cons]
    | false => rw [filter_orderedInsert_of_false h, ih, filter_cons_of_neg (by simp [h])]

theorem map_orderedInsert_of_pairs {β : Type} {s : β → β → Prop} [DecidableRel s] {g : α → β}
    (h : ∀ b ∈ l, r a b ↔ s (g a) (g b)) :
    (l.orderedInsert r a).map g = (l.map g).orderedInsert s (g a) := by
  induction l with
  | nil => rfl
  | cons b l ih =>
    have hab := h b (mem_cons_self ..)
    rw [orderedInsert_cons, map_cons, orderedInsert_cons]
    by_cases hr : r a b
    · rw [if_pos hr, if_pos (hab.mp hr), map_cons, map_cons]
    · rw [if_neg hr, if_neg (mt hab.mpr hr), map_cons, ih fun c hc => h c (mem_cons_of_mem _ hc)]

theorem map_insertionSort_of_pairs {β : Type} {s : β → β → Prop} [DecidableRel s] {g : α → β}
    (h : l.Pairwise fun a b => r a b ↔ s (g a) (g b)) :
    (l.insertionSort r).map g = (l.map g).insertionSort s := by
  induction l with
  | nil => rfl
  | cons a l ih =>
    rw [insertionSort_cons, map_cons, insertionSort_cons, ← ih h.of_cons]
    refine map_orderedInsert_of_pairs ?_
    intro b hb
    exact rel_of_pairwise_cons h ((mem_insertionSort r).mp hb)

end Sorting

/-! ## Logs with more entries -/

section Extends

variable {α β : Type}

/-- The second log is the first one with more entries anywhere, which all satisfy `P`. -/
inductive Extends (P : α → Prop) : List α → List α → Prop where
  | nil : Extends P [] []
  | keep (a : α) {l l' : List α} : Extends P l l' → Extends P (a :: l) (a :: l')
  | extra {a : α} (h : P a) {l l' : List α} : Extends P l l' → Extends P l (a :: l')

namespace Extends

variable {P : α → Prop} {l l' : List α}

theorem append_right {m : List α} (h : ∀ a ∈ m, P a) : Extends P l (l ++ m) := by
  induction l with
  | nil =>
    induction m with
    | nil => exact .nil
    | cons a m ih => exact .extra (h a (mem_cons_self ..)) (ih fun b hb => h b (mem_cons_of_mem _ hb))
  | cons a l ih => exact .keep a ih

theorem filter_eq (h : Extends P l l') {p : α → Bool} (hp : ∀ a, P a → p a = false) :
    l.filter p = l'.filter p := by
  induction h with
  | nil => rfl
  | keep a _ ih => rw [filter_cons, filter_cons, ih]
  | extra hP _ ih => rw [filter_cons_of_neg (by simp [hp _ hP]), ih]

theorem length_le (h : Extends P l l') : l.length ≤ l'.length := by
  induction h with
  | nil => exact le_rfl
  | keep a _ ih => exact Nat.succ_le_succ ih
  | extra _ _ ih => exact ih.trans (Nat.le_succ _)

end Extends

end Extends

end Trustgraphs.LastWrite
