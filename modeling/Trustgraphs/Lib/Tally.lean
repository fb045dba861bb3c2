import Trustgraphs.Lib.BTree
import Trustgraphs.Lib.Outcome

/-!
# Rounding down part by part

A whole that is split in proportion to some weights, every part rounded down, does not give out more
than it is, whatever the number of parts.
-/

namespace Trustgraphs.Rounding

theorem sum_floor_le (l : List ℕ) (d : ℕ) : (l.map fun x => x / d).sum ≤ l.sum / d := by
  induction l with
  | nil => simp
  | cons x l ih =>
    rw [List.map_cons, List.sum_cons, List.sum_cons]
    calc x / d + (l.map fun x => x / d).sum ≤ x / d + l.sum / d := Nat.add_le_add_left ih _
      _ ≤ (x + l.sum) / d := Nat.div_add_div_le_add_div

theorem sum_split_le {α : Type*} {l : List α} {f : α → ℕ} {d : ℕ} (h : (l.map f).sum ≤ d) (w : ℕ) :
    (l.map fun a => f a * w / d).sum ≤ w := by
  have hfloor := sum_floor_le (l.map fun a => f a * w) d
  rw [List.map_map, List.sum_map_mul_right] at hfloor
  calc (l.map fun a => f a * w / d).sum ≤ (l.map f).sum * w / d := hfloor
    _ ≤ d * w / d := Nat.div_le_div_right (Nat.mul_le_mul_right _ h)
    _ ≤ w := Nat.div_le_of_le_mul le_rfl

theorem part_le {x d : ℕ} (h : x ≤ d) (w : ℕ) : w * x / d ≤ w := by
  refine Nat.div_le_of_le_mul ?_
  rw [Nat.mul_comm d]
  exact Nat.mul_le_mul_left _ h

end Trustgraphs.Rounding

/-!
# Sums kept under keys

A map into a commutative monoid to which terms are added, each under its own key, with an empty sum
where a key is new. What the map holds under a key is the sum of the terms of that key, whatever their
order; two lists of terms that agree key by key give the same sums.
-/

namespace Trustgraphs.Tally

open Outcome BTreeMap

variable {K : Type} [LinearOrder K] {M : Type} [AddCommMonoid M]

/-- Adds to a key's sum. -/
def add (m : BTreeMap K M) (k : K) (x : M) : BTreeMap K M := m.insert k (m.getD k 0 + x)

/-- Adds a list of amounts. -/
def addAll (m : BTreeMap K M) (l : List (K × M)) : BTreeMap K M := l.foldl (fun m e => add m e.1 e.2) m

/-- The sum of one key's amounts. -/
def sumAt (l : List (K × M)) (k : K) : M := ((l.filter fun e => e.1 = k).map Prod.snd).sum

theorem sumAt_cons (e : K × M) (l : List (K × M)) (k : K) :
    sumAt (e :: l) k = (if e.1 = k then e.2 else 0) + sumAt l k := by
  unfold sumAt
  by_cases h : e.1 = k
  · rw [List.filter_cons_of_pos (by simpa using h), if_pos h, List.map_cons, List.sum_cons]
  · rw [List.filter_cons_of_neg (by simpa using h), if_neg h, zero_add]

theorem sumAt_append (l l' : List (K × M)) (k : K) : sumAt (l ++ l') k = sumAt l k + sumAt l' k := by
  unfold sumAt
  rw [List.filter_append, List.map_append, List.sum_append]

variable {l : List (K × M)} {k : K} {m : BTreeMap K M}

theorem sumAt_eq_zero (h : ∀ e ∈ l, e.1 = k → e.2 = 0) : sumAt l k = 0 := by
  refine List.sum_eq_zero fun x hx => ?_
  obtain ⟨e, he, rfl⟩ := List.mem_map.mp hx
  obtain ⟨hmem, hkey⟩ := List.mem_filter.mp he
  exact h e hmem (by simpa using hkey)

/-! ## One key -/

theorem getD_eq (m : BTreeMap K M) (k : K) : m.getD k 0 = (m[k]?).getD 0 := by
  rw [Std.ExtTreeMap.getD_eq_getD_getElem?]

theorem getD_add (m : BTreeMap K M) (k : K) (x : M) (a : K) :
    (add m k x).getD a 0 = m.getD a 0 + if k = a then x else 0 := by
  rw [add, getD_eq, BTreeMap.getElem?_insert, getD_eq]
  by_cases h : k = a
  · subst h
    rw [if_pos rfl, if_pos rfl, Option.getD_some, getD_eq]
  · rw [if_neg h, if_neg h, add_zero, ← getD_eq]

theorem mem_add {a : K} {x : M} : a ∈ add m k x ↔ k = a ∨ a ∈ m := by
  rw [add, mem_iff_getElem?, mem_iff_getElem?]
  simp only [BTreeMap.getElem?_insert]
  by_cases h : k = a
  · simp [h]
  · simp [h]

theorem getD_addAll (m : BTreeMap K M) (l : List (K × M)) (k : K) :
    (addAll m l).getD k 0 = m.getD k 0 + sumAt l k := by
  induction l generalizing m with
  | nil => exact (add_zero _).symm
  | cons e l ih =>
    show (addAll (add m e.1 e.2) l).getD k 0 = _
    rw [ih, getD_add, sumAt_cons, add_assoc]

theorem mem_addAll : k ∈ addAll m l ↔ k ∈ m ∨ k ∈ l.map Prod.fst := by
  induction l generalizing m with
  | nil => exact ⟨Or.inl, fun h => h.resolve_right (by simp)⟩
  | cons e l ih =>
    show k ∈ addAll (add m e.1 e.2) l ↔ _
    rw [ih, mem_add, List.map_cons, List.mem_cons, eq_comm (a := k)]
    tauto

theorem addAll_append (m : BTreeMap K M) (l l' : List (K × M)) :
    addAll m (l ++ l') = addAll (addAll m l) l' := List.foldl_append

/-- The sums of all keys. -/
def sums (l : List (K × M)) : BTreeMap K M := addAll ∅ l

theorem getD_sums (l : List (K × M)) (k : K) : (sums l).getD k 0 = sumAt l k := by
  rw [sums, getD_addAll]
  have hempty : (∅ : BTreeMap K M).getD k 0 = 0 := by simp
  rw [hempty, zero_add]

theorem mem_sums : k ∈ sums l ↔ k ∈ l.map Prod.fst := by
  rw [sums, mem_addAll]
  exact ⟨fun h => h.resolve_left (by simp), Or.inr⟩

theorem getElem?_sums (l : List (K × M)) (k : K) :
    (sums l)[k]? = if k ∈ l.map Prod.fst then some (sumAt l k) else none := by
  by_cases h : k ∈ l.map Prod.fst
  · obtain ⟨v, hv⟩ := mem_iff_getElem?.mp (mem_sums.mpr h)
    have hval := getD_sums l k
    rw [getD_eq, hv, Option.getD_some] at hval
    rw [if_pos h, hv, hval]
  · rw [if_neg h, not_mem_iff_getElem?.mp fun hmem => h (mem_sums.mp hmem)]

theorem getElem?_sums_eq_some {v : M} : (sums l)[k]? = some v ↔ k ∈ l.map Prod.fst ∧ v = sumAt l k := by
  rw [getElem?_sums]
  by_cases h : k ∈ l.map Prod.fst
  · rw [if_pos h, Option.some_inj]
    exact ⟨fun e => ⟨h, e.symm⟩, fun e => e.2.symm⟩
  · rw [if_neg h]
    exact iff_of_false (by simp) fun e => h e.1

theorem getElem?_eq_some_of_ne {v : M} (hv : v ≠ 0) : m[k]? = some v ↔ m.getD k 0 = v := by
  rw [getD_eq]
  cases m[k]? with
  | none => exact iff_of_false (by simp) fun h => hv h.symm
  | some w => rw [Option.some_inj, Option.getD_some]

theorem nonzero_congr [DecidableEq M] {m' : BTreeMap K M} (h : ∀ k, m.getD k 0 = m'.getD k 0) :
    (m.toList.filter fun e => e.2 ≠ 0) = m'.toList.filter fun e => e.2 ≠ 0 := by
  refine filter_toList_congr fun k v hv => ?_
  have hv : v ≠ 0 := by simpa using hv
  rw [getElem?_eq_some_of_ne hv, getElem?_eq_some_of_ne hv, h]

/-! ## All the keys -/

theorem sum_sumAt {s : Finset K} (h : ∀ e ∈ l, e.1 ∈ s) : ∑ k ∈ s, sumAt l k = (l.map Prod.snd).sum := by
  induction l with
  | nil => exact Finset.sum_const_zero
  | cons e l ih =>
    have he := h e (List.mem_cons_self ..)
    simp only [sumAt_cons, Finset.sum_add_distrib]
    rw [ih fun a ha => h a (List.mem_cons_of_mem _ ha), Finset.sum_ite_eq, if_pos he, List.map_cons,
      List.sum_cons]

theorem sum_toList_sums (l : List (K × M)) : ((sums l).toList.map Prod.snd).sum = (l.map Prod.snd).sum := by
  have h := sum_toList (sums l) (fun _ v => v) (sumAt l) fun k v hv => (getElem?_sums_eq_some.mp hv).2
  rw [h]
  refine sum_sumAt fun e he => ?_
  rw [mem_dom, mem_sums]
  exact List.mem_map_of_mem he

/-! ## Sums that are read as numbers -/

/-- Terms that stand for numbers and are added modulo `bound`. -/
structure Modular (num : M → ℕ) (bound : ℕ) : Prop where
  zero : num 0 = 0
  add : ∀ a b, num (a + b) = (num a + num b) % bound

theorem modular_bitVec (w : ℕ) : Modular (BitVec.toNat : BitVec w → ℕ) (2 ^ w) where
  zero := BitVec.toNat_zero
  add := BitVec.toNat_add

theorem modular_uint64 : Modular UInt64.toNat (2 ^ 64) where
  zero := rfl
  add := UInt64.toNat_add

namespace Modular

variable {num : M → ℕ} {bound : ℕ} (h : Modular num bound)
include h

theorem num_sum (l : List M) : num l.sum = (l.map num).sum ∨ bound ≤ (l.map num).sum := by
  induction l with
  | nil => exact Or.inl h.zero
  | cons a l ih =>
    rw [List.sum_cons, List.map_cons, List.sum_cons, h.add]
    rcases ih with ih | ih
    · rw [ih]
      by_cases hlt : num a + (l.map num).sum < bound
      · exact Or.inl (Nat.mod_eq_of_lt hlt)
      · exact Or.inr (Nat.not_lt.mp hlt)
    · exact Or.inr (ih.trans (Nat.le_add_left _ _))

theorem num_sum_of_lt {l : List M} (hlt : (l.map num).sum < bound) : num l.sum = (l.map num).sum :=
  (h.num_sum l).resolve_right (Nat.not_le.mpr hlt)

end Modular

/-- The amounts as numbers. -/
def numbers (num : M → ℕ) (l : List (K × M)) : List (K × ℕ) := l.map fun e => (e.1, num e.2)

section Numbers

variable {num : M → ℕ} {l : List (K × M)}

omit [LinearOrder K] [AddCommMonoid M] in
theorem map_snd_numbers : (numbers num l).map Prod.snd = (l.map Prod.snd).map num := by
  rw [numbers, List.map_map, List.map_map]
  rfl

omit [AddCommMonoid M] in
theorem sumAt_numbers (k : K) :
    sumAt (numbers num l) k = (((l.filter fun e => e.1 = k).map Prod.snd).map num).sum := by
  rw [sumAt, numbers, List.filter_map, List.map_map, List.map_map]
  rfl

theorem sumAt_le (l : List (K × ℕ)) (k : K) : sumAt l k ≤ (l.map Prod.snd).sum :=
  List.Sublist.sum_le_sum (List.filter_sublist.map _) fun _ _ => Nat.zero_le _

theorem num_sumAt {bound : ℕ} (h : Modular num bound)
    (hlt : ((numbers num l).map Prod.snd).sum < bound) (k : K) :
    num (sumAt l k) = sumAt (numbers num l) k := by
  rw [sumAt_numbers]
  refine h.num_sum_of_lt ?_
  rw [← sumAt_numbers]
  exact lt_of_le_of_lt (sumAt_le _ k) hlt

end Numbers

/-- What is kept after some of the terms have been added is the sum of these, within the limit. -/
structure Within (num : M → ℕ) (limit : ℕ) (l : List (K × M)) : Prop where
  exact : ∀ before after, l = before ++ after → ∀ k,
    num ((sums before).getD k 0) = sumAt (numbers num before) k ∧ num ((sums before).getD k 0) ≤ limit

theorem within_of_sum_le {num : M → ℕ} {bound limit : ℕ} (h : Modular num bound)
    (hsum : ((numbers num l).map Prod.snd).sum ≤ limit) (hlimit : limit < bound) : Within num limit l where
  exact := by
    rintro before after rfl k
    have hle : ((numbers num before).map Prod.snd).sum ≤ limit := by
      rw [numbers, List.map_append, List.map_append, List.sum_append] at hsum
      exact (Nat.le_add_right _ _).trans hsum
    have hval := num_sumAt (l := before) h (lt_of_le_of_lt hle hlimit) k
    rw [getD_sums, hval]
    exact ⟨rfl, (sumAt_le _ k).trans hle⟩

/-! ## Loops that add -/

section Loops

variable {E : Type} {α β : Type}

variable {l : List α}

theorem foldlM_eq_mapM {f : BTreeMap K M → α → Except E (BTreeMap K M)}
    {term : α → Except E (List (K × M))} (h : ∀ a ∈ l, ∀ m, f m a = (term a).map (addAll m))
    (m : BTreeMap K M) : l.foldlM f m = (l.mapM term).map fun ts => addAll m ts.flatten := by
  induction l generalizing m with
  | nil => rfl
  | cons a l ih =>
    have ih := ih fun b hb => h b (List.mem_cons_of_mem _ hb)
    rw [List.foldlM_cons, List.mapM_cons, h a (List.mem_cons_self ..) m]
    cases term a with
    | error e => rfl
    | ok t =>
      show l.foldlM f (addAll m t) = _
      rw [ih]
      cases l.mapM term with
      | error e => rfl
      | ok ts => rw [ok_bind, ok_bind]; exact congrArg Except.ok (addAll_append ..).symm

theorem flatten_mapM_filter {f : α → Except E (List β)} {p : α → Bool}
    (h : ∀ a ∈ l, p a = false → f a = .ok []) :
    (l.mapM f).map List.flatten = ((l.filter p).mapM f).map List.flatten := by
  induction l with
  | nil => rfl
  | cons a l ih =>
    have ih := ih fun b hb => h b (List.mem_cons_of_mem _ hb)
    cases hp : p a with
    | true =>
      rw [List.filter_cons_of_pos hp, List.mapM_cons, List.mapM_cons]
      cases f a with
      | error e => rfl
      | ok t =>
        rw [ok_bind, ok_bind]
        cases hl : l.mapM f with
        | error e =>
          rw [hl] at ih
          rw [map_eq_error.mp ih.symm]
        | ok ts =>
          rw [hl] at ih
          obtain ⟨us, hus, heq⟩ := map_eq_ok.mp ih.symm
          rw [hus]
          exact congrArg Except.ok (congrArg (t ++ ·) heq.symm)
    | false =>
      rw [List.filter_cons_of_neg (by simp [hp]), List.mapM_cons, h a (List.mem_cons_self ..) hp, ok_bind, ← ih]
      cases l.mapM f <;> rfl

theorem mapM_congr {f g : α → Except E β} (h : ∀ a ∈ l, f a = g a) : l.mapM f = l.mapM g := by
  induction l with
  | nil => rfl
  | cons a l ih =>
    rw [List.mapM_cons, List.mapM_cons, h a (List.mem_cons_self ..), ih fun b hb => h b (List.mem_cons_of_mem _ hb)]

theorem mapM_returns {f : α → Except E β} (h : ∀ a ∈ l, ∃ b, f a = .ok b) : ∃ bs, l.mapM f = .ok bs := by
  induction l with
  | nil => exact ⟨[], rfl⟩
  | cons a l ih =>
    obtain ⟨b, hb⟩ := h a (List.mem_cons_self ..)
    obtain ⟨bs, hbs⟩ := ih fun c hc => h c (List.mem_cons_of_mem _ hc)
    exact ⟨b :: bs, by rw [List.mapM_cons, hb, ok_bind, hbs]; rfl⟩

theorem sumAt_flatten_filter {f : α → Except E (List (K × M))} {p : α → Bool}
    {ts : List (List (K × M))} (h : l.mapM f = .ok ts)
    (hzero : ∀ a ∈ l, p a = false → ∀ t, f a = .ok t → ∀ e ∈ t, e.2 = 0) :
    ∃ us, (l.filter p).mapM f = .ok us ∧ ∀ k, sumAt ts.flatten k = sumAt us.flatten k := by
  induction l generalizing ts with
  | nil =>
    obtain rfl := ok_inj (show Except.ok [] = Except.ok ts from h)
    exact ⟨[], rfl, fun _ => rfl⟩
  | cons a l ih =>
    rw [List.mapM_cons] at h
    obtain ⟨t, ht, h⟩ := of_bind h
    obtain ⟨rest, hrest, h⟩ := of_bind h
    obtain rfl := ok_inj (show Except.ok (t :: rest) = Except.ok ts from h)
    obtain ⟨us, hus, hsum⟩ := ih hrest fun b hb => hzero b (List.mem_cons_of_mem _ hb)
    cases hp : p a with
    | true =>
      refine ⟨t :: us, ?_, fun k => ?_⟩
      · rw [List.filter_cons_of_pos hp, List.mapM_cons, ht, ok_bind, hus]
        rfl
      · rw [List.flatten_cons, List.flatten_cons, sumAt_append, sumAt_append, hsum]
    | false =>
      refine ⟨us, ?_, fun k => ?_⟩
      · rw [List.filter_cons_of_neg (by simp [hp]), hus]
      · rw [List.flatten_cons, sumAt_append, hsum,
          sumAt_eq_zero fun e he _ => hzero a (List.mem_cons_self ..) hp t ht e he, zero_add]

end Loops

end Trustgraphs.Tally
