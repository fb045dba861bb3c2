import Mathlib

/-!
# Ordered maps and sets

`BTreeMap` and `BTreeSet` of the Rust standard library are modelled by the extensional tree maps of
the Lean standard library over the order of the keys: two maps with the same lookups are equal, and
traversal is in ascending key order. This file restates the lookup lemmas with `=` on keys and adds
what a traversal that builds, sums or searches a map needs.
-/

namespace Trustgraphs

open List Option

/-! Found directly, whatever the way an order on a concrete key type is put together. -/

instance lawfulEqCmp_compare {K : Type} [LinearOrder K] : Std.LawfulEqCmp (compare : K → K → Ordering) :=
  inferInstance

instance transCmp_compare {K : Type} [LinearOrder K] : Std.TransCmp (compare : K → K → Ordering) :=
  inferInstance

/-- An ordered map, as Rust's BTreeMap iterates it. -/
abbrev BTreeMap (K : Type) (V : Type*) [LinearOrder K] := Std.ExtTreeMap K V compare

/-- An ordered set. -/
abbrev BTreeSet (K : Type) [LinearOrder K] := Std.ExtTreeSet K compare

namespace BTreeMap

variable {K : Type} {V W : Type*} [LinearOrder K]

theorem getElem?_insert (m : BTreeMap K V) (k a : K) (v : V) :
    (m.insert k v)[a]? = if k = a then some v else m[a]? := by
  rw [Std.ExtTreeMap.getElem?_insert]
  simp only [compare_eq_iff_eq]

@[simp]
theorem getElem?_insert_self (m : BTreeMap K V) (k : K) (v : V) : (m.insert k v)[k]? = some v := by simp

variable {k a : K} {m : BTreeMap K V} {v : V} {n : BTreeMap K V} {p : K × V → Bool}
  {l : List (K × V)}

theorem getElem?_insert_of_ne (m : BTreeMap K V) (v : V) (h : k ≠ a) : (m.insert k v)[a]? = m[a]? := by
  simp [getElem?_insert, h]

theorem getElem?_erase (m : BTreeMap K V) (k a : K) : (m.erase k)[a]? = if k = a then none else m[a]? := by
  rw [Std.ExtTreeMap.getElem?_erase]
  simp only [compare_eq_iff_eq]

theorem getElem?_of_erase (h : (m.erase k)[a]? = some v) : m[a]? = some v := by
  rw [getElem?_erase] at h
  by_cases hk : k = a
  · rw [if_pos hk] at h
    exact absurd h (by simp)
  · rwa [if_neg hk] at h

theorem ext_getElem? (h : ∀ k : K, m[k]? = n[k]?) : m = n := Std.ExtTreeMap.ext_getElem? h

theorem mem_iff_getElem? : k ∈ m ↔ ∃ v, m[k]? = some v := by
  rw [Std.ExtTreeMap.mem_iff_isSome_getElem?, isSome_iff_exists]

theorem not_mem_iff_getElem? : k ∉ m ↔ m[k]? = none := by
  rw [mem_iff_getElem?, eq_none_iff_forall_ne_some]
  simp

theorem exists_mem_of_ne_empty (h : m ≠ ∅) : ∃ k, k ∈ m := by
  by_contra hnone
  refine h (ext_getElem? fun k => ?_)
  rw [not_mem_iff_getElem?.mp fun hk => hnone ⟨k, hk⟩]
  simp

theorem getElem?_of_contains : m.contains k = m[k]?.isSome := by
  rw [Std.ExtTreeMap.isSome_getElem?_eq_contains]

/-! ## Traversal -/

theorem keys_sorted (m : BTreeMap K V) : m.keys.Pairwise (· < ·) :=
  m.ordered_keys.imp fun h => compare_lt_iff_lt.mp h

theorem toList_sorted (m : BTreeMap K V) : m.toList.Pairwise (fun a b => a.1 < b.1) :=
  m.ordered_keys_toList.imp fun h => compare_lt_iff_lt.mp h

theorem keys_nodup (m : BTreeMap K V) : m.keys.Nodup := m.keys_sorted.imp fun h => h.ne

theorem toList_nodup (m : BTreeMap K V) : m.toList.Nodup :=
  m.toList_sorted.imp fun h e => h.ne (congrArg Prod.fst e)

theorem mem_toList : (k, v) ∈ m.toList ↔ m[k]? = some v := Std.ExtTreeMap.mem_toList_iff_getElem?_eq_some

/-- The keys present. -/
def dom (m : BTreeMap K V) : Finset K := m.keys.toFinset

@[simp]
theorem mem_dom : k ∈ m.dom ↔ k ∈ m := by simp [dom]

theorem sum_toList {M : Type*} [AddCommMonoid M] (m : BTreeMap K V) (f : K → V → M) (g : K → M)
    (h : ∀ k v, m[k]? = some v → f k v = g k) :
    (m.toList.map fun e => f e.1 e.2).sum = ∑ k ∈ m.dom, g k := by
  have hg : (m.toList.map fun e => f e.1 e.2) = m.keys.map g := by
    rw [← Std.ExtTreeMap.map_fst_toList_eq_keys, List.map_map]
    refine map_congr_left fun e he => ?_
    exact h e.1 e.2 (mem_toList.mp he)
  rw [hg, dom, sum_toFinset _ m.keys_nodup]

theorem filter_toList_congr (h : ∀ k v, p (k, v) = true → (m[k]? = some v ↔ n[k]? = some v)) :
    m.toList.filter p = n.toList.filter p := by
  have hperm : (m.toList.filter p).Perm (n.toList.filter p) := by
    refine (perm_ext_iff_of_nodup (m.toList_nodup.filter p) (n.toList_nodup.filter p)).mpr ?_
    rintro ⟨k, v⟩
    rw [mem_filter, mem_filter, mem_toList, mem_toList]
    exact ⟨fun hk => ⟨(h k v hk.2).mp hk.1, hk.2⟩, fun hk => ⟨(h k v hk.2).mpr hk.1, hk.2⟩⟩
  exact hperm.eq_of_pairwise
    (fun (a b : K × V) _ _ (hab : a.1 < b.1) (hba : b.1 < a.1) => absurd hab (lt_asymm hba))
    (m.toList_sorted.filter p) (n.toList_sorted.filter p)

theorem filterMap_toList_congr {f : K × V → Option W}
    (h : ∀ k v, f (k, v) ≠ none → (m[k]? = some v ↔ n[k]? = some v)) :
    m.toList.filterMap f = n.toList.filterMap f := by
  have hdrop : ∀ l : List (K × V), l.filterMap f = (l.filter fun e => (f e).isSome).filterMap f := by
    intro l
    rw [filterMap_filter]
    refine filterMap_congr fun e _ => ?_
    cases f e <;> rfl
  rw [hdrop, hdrop n.toList, filter_toList_congr fun k v hkv => h k v (isSome_iff_ne_none.mp hkv)]

theorem find?_toList_eq_some : m.toList.find? p = some (k, v) ↔
      m[k]? = some v ∧ p (k, v) ∧ ∀ a w, m[a]? = some w → p (a, w) → k ≤ a := by
  constructor
  · intro h
    refine ⟨mem_toList.mp (mem_of_find?_eq_some h), find?_some h, fun a w ha hp => ?_⟩
    obtain ⟨-, xs, ys, hl, hxs⟩ := find?_eq_some_iff_append.mp h
    have hmem : (a, w) ∈ m.toList := mem_toList.mpr ha
    have hs := m.toList_sorted
    rw [hl] at hmem hs
    rcases mem_append.mp hmem with hx | hx
    · exact absurd hp (by simpa using hxs _ hx)
    · rcases mem_cons.mp hx with hx | hx
      · exact (congrArg Prod.fst hx).ge
      · have hs' := (pairwise_append.mp hs).2.1
        exact ((pairwise_cons.mp hs').1 _ hx).le
  · rintro ⟨hk, hp, hmin⟩
    cases hf : m.toList.find? p with
    | none => exact absurd hp (by simpa using find?_eq_none.mp hf _ (mem_toList.mpr hk))
    | some e =>
      obtain ⟨a, w⟩ := e
      have ha := mem_toList.mp (mem_of_find?_eq_some hf)
      have hle : k ≤ a := hmin a w ha (find?_some hf)
      obtain ⟨-, xs, ys, hl, hxs⟩ := find?_eq_some_iff_append.mp hf
      have hmem : (k, v) ∈ m.toList := mem_toList.mpr hk
      have hs := m.toList_sorted
      rw [hl] at hmem hs
      rcases mem_append.mp hmem with hx | hx
      · exact absurd hp (by simpa using hxs _ hx)
      · rcases mem_cons.mp hx with hx | hx
        · rw [hx]
        · have hs' := (pairwise_append.mp hs).2.1
          exact absurd ((pairwise_cons.mp hs').1 _ hx) (not_lt.mpr hle)

theorem find?_toList_eq_none : m.toList.find? p = none ↔ ∀ k v, m[k]? = some v → ¬ p (k, v) := by
  rw [find?_eq_none]
  exact ⟨fun h k v hk => h _ (mem_toList.mpr hk), fun h e he => h e.1 e.2 (mem_toList.mp he)⟩

theorem find?_keys_eq_some {p : K → Bool} : m.keys.find? p = some k ↔ k ∈ m ∧ p k ∧ ∀ a ∈ m, p a → k ≤ a := by
  rw [← Std.ExtTreeMap.map_fst_toList_eq_keys, find?_map]
  simp only [map_eq_some_iff, Prod.exists, exists_and_right, exists_eq_right]
  constructor
  · rintro ⟨v, hv⟩
    obtain ⟨hk, hp, hmin⟩ := find?_toList_eq_some.mp hv
    exact ⟨mem_iff_getElem?.mpr ⟨v, hk⟩, hp, fun a ha hpa =>
      (mem_iff_getElem?.mp ha).elim fun w hw => hmin a w hw hpa⟩
  · rintro ⟨hk, hp, hmin⟩
    obtain ⟨v, hv⟩ := mem_iff_getElem?.mp hk
    exact ⟨v, find?_toList_eq_some.mpr ⟨hv, hp, fun a w ha hpa =>
      hmin a (mem_iff_getElem?.mpr ⟨w, ha⟩) hpa⟩⟩

/-! ## Building a map from a list of keys -/

/-- The map with the keys of `l` and the values of `f`, built in the order of `l`. -/
def tabulate (l : List K) (f : K → V) : BTreeMap K V := l.foldl (fun m k => m.insert k (f k)) ∅

theorem getElem?_foldl_insert (l : List K) (f : K → V) (m : BTreeMap K V) (a : K) :
    (l.foldl (fun m k => m.insert k (f k)) m)[a]? = if a ∈ l then some (f a) else m[a]? := by
  induction l generalizing m with
  | nil => simp
  | cons k l ih =>
    rw [foldl_cons, ih, getElem?_insert]
    by_cases hk : k = a
    · subst hk; simp
    · simp [hk, Ne.symm hk]

theorem getElem?_tabulate (l : List K) (f : K → V) (a : K) :
    (tabulate l f)[a]? = if a ∈ l then some (f a) else none := by
  rw [tabulate, getElem?_foldl_insert]
  simp

@[simp]
theorem mem_tabulate {l : List K} {f : K → V} : a ∈ tabulate l f ↔ a ∈ l := by
  rw [mem_iff_getElem?, getElem?_tabulate]
  by_cases h : a ∈ l <;> simp [h]

/-- As `tabulate`, for values that may be missing: `none` as soon as one of them is. -/
def tabulateM (l : List K) (f : K → Option V) : Option (BTreeMap K V) :=
  l.foldlM (fun m k => do some (m.insert k (← f k))) ∅

theorem foldlM_insert_eq_some {l : List K} {f : K → Option V} {g : K → V}
    (h : ∀ k ∈ l, f k = some (g k)) (m : BTreeMap K V) :
    l.foldlM (fun m k => do some (m.insert k (← f k))) m = some (l.foldl (fun m k => m.insert k (g k)) m) := by
  induction l generalizing m with
  | nil => rfl
  | cons k l ih =>
    rw [foldlM_cons, h k (mem_cons_self ..)]
    exact ih (fun a ha => h a (mem_cons_of_mem _ ha)) _

theorem tabulateM_eq_some {l : List K} {f : K → Option V} {g : K → V}
    (h : ∀ k ∈ l, f k = some (g k)) : tabulateM l f = some (tabulate l g) :=
  foldlM_insert_eq_some h ∅

/-- The map of a list of entries, a later entry over an earlier one. -/
def ofEntries (l : List (K × V)) : BTreeMap K V := l.foldl (fun m e => m.insert e.1 e.2) ∅

theorem getElem?_foldl_insert_entries (hl : (l.map Prod.fst).Nodup)
    (m : BTreeMap K V) : (l.foldl (fun m e => m.insert e.1 e.2) m)[k]? = some v ↔
      (k, v) ∈ l ∨ k ∉ l.map Prod.fst ∧ m[k]? = some v := by
  induction l generalizing m with
  | nil => simp
  | cons e l ih =>
    obtain ⟨a, b⟩ := e
    rw [map_cons] at hl
    obtain ⟨ha, hl⟩ := nodup_cons.mp hl
    rw [foldl_cons, ih hl, getElem?_insert, mem_cons, map_cons, mem_cons, Prod.mk.injEq]
    by_cases hak : a = k
    · subst hak
      have hno : (a, v) ∉ l := fun h => ha (List.mem_map.mpr ⟨(a, v), h, rfl⟩)
      simp [hno, ha, eq_comm]
    · simp [hak, Ne.symm hak]

theorem getElem?_ofEntries (hl : (l.map Prod.fst).Nodup) : (ofEntries l)[k]? = some v ↔ (k, v) ∈ l := by
  rw [ofEntries, getElem?_foldl_insert_entries hl]
  simp

theorem toList_ofEntries_perm (hl : (l.map Prod.fst).Nodup) : (ofEntries l).toList.Perm l := by
  refine (perm_ext_iff_of_nodup (toList_nodup _) hl.of_map).mpr ?_
  rintro ⟨k, v⟩
  rw [mem_toList, getElem?_ofEntries hl]

theorem toList_ofEntries (hl : (l.map Prod.fst).Pairwise (· < ·)) : (ofEntries l).toList = l := by
  have hperm := toList_ofEntries_perm (hl.imp fun h => h.ne)
  refine hperm.eq_of_pairwise (fun a b _ _ hab hba => absurd hab (lt_asymm hba)) (toList_sorted _) ?_
  exact pairwise_map.mp hl

/-! ## Maps of maps -/

section Cell

variable {L : Type} [LinearOrder L]

/-- A cell of a map of rows. -/
def cell (m : BTreeMap K (BTreeMap L V)) (k : K × L) : Option V := m[k.1]?.bind fun row => row[k.2]?

theorem cell_insert (m : BTreeMap K (BTreeMap L V)) (a : K) (row : BTreeMap L V) (k : K × L) :
    cell (m.insert a row) k = if a = k.1 then row[k.2]? else cell m k := by
  rw [cell, getElem?_insert]
  by_cases h : a = k.1
  · rw [if_pos h, if_pos h]
    rfl
  · rw [if_neg h, if_neg h]
    rfl

theorem cell_erase (m : BTreeMap K (BTreeMap L V)) (a : K) (k : K × L) :
    cell (m.erase a) k = if a = k.1 then none else cell m k := by
  rw [cell, getElem?_erase]
  by_cases h : a = k.1
  · rw [if_pos h, if_pos h]
    rfl
  · rw [if_neg h, if_neg h]
    rfl

theorem cell_eq (m : BTreeMap K (BTreeMap L V)) (a : K) (b : L) : cell m (a, b) = ((m[a]?).getD ∅)[b]? := by
  unfold cell
  cases m[a]? with
  | none => simp
  | some row => rfl

end Cell

theorem getElem?_map (m : BTreeMap K V) (f : V → W) (a : K) : (m.map fun _ v => f v)[a]? = m[a]?.map f := by
  simp

end BTreeMap

namespace BTreeSet

variable {K : Type} [LinearOrder K]

/-- The set of a list's elements. -/
def ofList (l : List K) : BTreeSet K := Std.ExtTreeSet.ofList l compare

@[simp]
theorem mem_ofList {l : List K} {k : K} : k ∈ ofList l ↔ k ∈ l := by simp [ofList]

theorem toList_sorted (s : BTreeSet K) : s.toList.Pairwise (· < ·) :=
  s.ordered_toList.imp fun h => compare_lt_iff_lt.mp h

theorem toList_nodup (s : BTreeSet K) : s.toList.Nodup := s.toList_sorted.imp fun h => h.ne

/-- The elements. -/
def dom (s : BTreeSet K) : Finset K := s.toList.toFinset

@[simp]
theorem mem_dom {s : BTreeSet K} {k : K} : k ∈ s.dom ↔ k ∈ s := by simp [dom]

theorem card_dom (s : BTreeSet K) : s.dom.card = s.size := by
  rw [dom, toFinset_card_of_nodup s.toList_nodup, Std.ExtTreeSet.length_toList]

theorem ofList_eq_of_mem_iff {l l' : List K} (h : ∀ k, k ∈ l ↔ k ∈ l') : ofList l = ofList l' :=
  Std.ExtTreeSet.ext_mem fun k => by simp [h k]

end BTreeSet

end Trustgraphs
