import Mathlib

/-!
# Maps in insertion order

A map that lists its entries in the order in which their keys came in: a new value for a key that is
there takes the place of the old one, and a key that was deleted comes back at the end.
-/

namespace Trustgraphs

open Option Function List

/-- A map that iterates in the order of first insertion. -/
structure InsertionMap (K V : Type*) where
  entries : List (K × V)
  nodup : (entries.map Prod.fst).Nodup

namespace InsertionMap

variable {K V : Type*} [DecidableEq K]

/-- No entries. -/
def empty : InsertionMap K V := ⟨[], nodup_nil⟩

/-- The value of a key. -/
def get (m : InsertionMap K V) (k : K) : Option V := (m.entries.find? fun e => e.1 = k).map Prod.snd

variable {m : InsertionMap K V}

theorem get_eq_some {k : K} {v : V} : m.get k = some v ↔ (k, v) ∈ m.entries := by
  obtain ⟨entries, hnd⟩ := m
  show (entries.find? fun e => e.1 = k).map Prod.snd = some v ↔ (k, v) ∈ entries
  induction entries with
  | nil => simp
  | cons e entries ih =>
    obtain ⟨hnot, hnd⟩ := nodup_cons.mp hnd
    by_cases he : e.1 = k
    · rw [find?_cons_of_pos (by simpa using he), map_some, some_inj, mem_cons]
      constructor
      · rintro rfl
        exact .inl (Prod.ext he.symm rfl)
      · rintro (h | h)
        · rw [← h]
        · exact absurd (List.mem_map_of_mem h) (he ▸ hnot)
    · rw [find?_cons_of_neg (by simpa using he), ih hnd, mem_cons]
      constructor
      · exact .inr
      · rintro (h | h)
        · exact absurd (congrArg Prod.fst h).symm he
        · exact h

theorem get_isSome {k : K} : (m.get k).isSome = true ↔ k ∈ m.entries.map Prod.fst := by
  rw [isSome_iff_exists, List.mem_map]
  constructor
  · rintro ⟨v, hv⟩
    exact ⟨(k, v), get_eq_some.mp hv, rfl⟩
  · rintro ⟨⟨_, v⟩, hv, rfl⟩
    exact ⟨v, get_eq_some.mpr hv⟩

theorem map_fst_replace (l : List (K × V)) (k : K) (v : V) :
    (l.map fun e => if e.1 = k then (k, v) else e).map Prod.fst = l.map Prod.fst := by
  rw [List.map_map]
  refine map_congr_left fun e _ => ?_
  show (if e.1 = k then (k, v) else e).1 = e.1
  by_cases h : e.1 = k
  · rw [if_pos h, h]
  · rw [if_neg h]

/-- A key that is present keeps its place; a new one goes last. -/
def set (m : InsertionMap K V) (k : K) (v : V) : InsertionMap K V :=
  if h : (m.get k).isSome then
    ⟨m.entries.map fun e => if e.1 = k then (k, v) else e, by rw [map_fst_replace]; exact m.nodup⟩
  else ⟨m.entries ++ [(k, v)], by
    rw [map_append, map_singleton, nodup_append]
    refine ⟨m.nodup, nodup_singleton _, fun a ha b hb hab => h (get_isSome.mpr ?_)⟩
    rw [mem_singleton.mp hb] at hab
    rwa [hab] at ha⟩

/-- Without the key. -/
def delete (m : InsertionMap K V) (k : K) : InsertionMap K V :=
  ⟨m.entries.filter fun e => decide (e.1 ≠ k), m.nodup.sublist (filter_sublist.map Prod.fst)⟩

/-- The values in the order of insertion. -/
def values (m : InsertionMap K V) : List V := m.entries.map Prod.snd

theorem get_set (m : InsertionMap K V) (k : K) (v : V) : (m.set k v).get = update m.get k (some v) := by
  funext a
  refine Option.ext fun u => ?_
  rw [get_eq_some]
  by_cases ha : a = k
  · subst ha
    rw [update_self, set]
    split
    · rename_i h
      obtain ⟨w, hw⟩ := isSome_iff_exists.mp h
      rw [get_eq_some] at hw
      simp only [List.mem_map, some_inj]
      constructor
      · rintro ⟨e, -, he⟩
        by_cases hea : e.1 = a
        · rw [if_pos hea] at he
          exact congrArg Prod.snd he
        · rw [if_neg hea] at he
          exact absurd (congrArg Prod.fst he) hea
      · rintro rfl
        exact ⟨(a, w), hw, if_pos rfl⟩
    · rename_i h
      simp only [mem_append, mem_singleton, Prod.mk.injEq, true_and, some_inj]
      constructor
      · rintro (hu | rfl)
        · exact absurd (isSome_iff_exists.mpr ⟨u, get_eq_some.mpr hu⟩) h
        · rfl
      · rintro rfl
        exact .inr rfl
  · rw [update_of_ne ha, get_eq_some, set]
    split
    · simp only [List.mem_map]
      constructor
      · rintro ⟨e, he, hea⟩
        by_cases hek : e.1 = k
        · rw [if_pos hek] at hea
          exact absurd (congrArg Prod.fst hea).symm ha
        · rw [if_neg hek] at hea
          exact hea ▸ he
      · exact fun hu => ⟨(a, u), hu, if_neg ha⟩
    · simp [ha]

theorem get_delete (m : InsertionMap K V) (k : K) : (m.delete k).get = update m.get k none := by
  funext a
  refine Option.ext fun u => ?_
  rw [get_eq_some, delete]
  by_cases ha : a = k
  · subst ha
    simp
  · rw [update_of_ne ha, get_eq_some]
    simp [ha]

theorem mem_values {v : V} : v ∈ m.values ↔ ∃ k, m.get k = some v := by
  rw [values, List.mem_map]
  constructor
  · rintro ⟨⟨k, _⟩, h, rfl⟩
    exact ⟨k, get_eq_some.mpr h⟩
  · rintro ⟨k, h⟩
    exact ⟨(k, v), get_eq_some.mp h, rfl⟩

theorem nodup_map_values {f : V → K} (h : ∀ k v, m.get k = some v → f v = k) : (m.values.map f).Nodup := by
  have hmap : m.values.map f = m.entries.map Prod.fst := by
    rw [values, List.map_map]
    exact map_congr_left fun e he => h e.1 e.2 (get_eq_some.mpr he)
  rw [hmap]
  exact m.nodup

end InsertionMap

end Trustgraphs
