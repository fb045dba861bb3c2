import Mathlib

/-!
# A set in an array with an index map

The members stand without gaps in the slots from 1 on, and a map gives the slot of a member, 0 where
there is none. An insertion takes the next slot. A removal moves the last member to the slot that it
frees.
-/

namespace Trustgraphs

open Function List

/-- Members in numbered slots from one, each with its index. -/
structure SlotSet (α : Type*) where
  slots : ℕ → α
  index : α → ℕ
  next : ℕ

namespace SlotSet

open Function (update)

variable {α : Type*} [DecidableEq α] [Zero α] {s : SlotSet α} {a b : α}

/-- The members, slot after slot. -/
def members (s : SlotSet α) : List α := (List.range (s.next - 1)).map fun i => s.slots (i + 1)

/-- The new member takes the next slot. -/
def insert (s : SlotSet α) (a : α) : SlotSet α :=
  ⟨update s.slots s.next a, update s.index a s.next, s.next + 1⟩

/-- The last member moves into the freed slot. -/
def remove (s : SlotSet α) (a : α) : SlotSet α :=
  let last := s.next - 1
  let moved := s.slots last
  ⟨update (if s.index a = last then s.slots else update s.slots (s.index a) moved) last 0,
    update (if s.index a = last then s.index else update s.index moved (s.index a)) a 0, last⟩

/-- The index map is the inverse of the array, which holds no zero. -/
structure Dense (s : SlotSet α) : Prop where
  pos : 1 ≤ s.next
  inverse : ∀ i a, i ≠ 0 → (s.index a = i ↔ i < s.next ∧ s.slots i = a)
  ne_zero : ∀ i, i ≠ 0 → i < s.next → s.slots i ≠ 0

omit [DecidableEq α] in
theorem Dense.index_eq_succ_iff (h : Dense s) {i : ℕ} : s.index a = i + 1 ↔ s.members[i]? = some a := by
  rw [h.inverse (i + 1) a (Nat.succ_ne_zero i), members, List.getElem?_map, Option.map_eq_some_iff]
  constructor
  · rintro ⟨hlt, rfl⟩
    exact ⟨i, getElem?_range (by omega), rfl⟩
  · rintro ⟨j, hj, rfl⟩
    obtain ⟨hlt, rfl⟩ := List.getElem?_eq_some_iff.mp hj
    rw [length_range] at hlt
    rw [getElem_range]
    exact ⟨by omega, rfl⟩

omit [DecidableEq α] in
theorem Dense.mem_members (h : Dense s) : a ∈ s.members ↔ s.index a ≠ 0 := by
  rw [List.mem_iff_getElem?]
  constructor
  · rintro ⟨i, hi⟩
    rw [h.index_eq_succ_iff.mpr hi]
    exact Nat.succ_ne_zero i
  · intro hne
    obtain ⟨i, hi⟩ := Nat.exists_eq_add_one_of_ne_zero hne
    exact ⟨i, h.index_eq_succ_iff.mp hi⟩

omit [DecidableEq α] in
theorem Dense.zero_notMem (h : Dense s) : (0 : α) ∉ s.members := by
  intro hmem
  have hne := h.mem_members.mp hmem
  obtain ⟨hlt, hslot⟩ := (h.inverse _ 0 hne).mp rfl
  exact h.ne_zero _ hne hlt hslot

omit [DecidableEq α] in
theorem Dense.nodup (h : Dense s) : s.members.Nodup := by
  rw [nodup_iff_getElem?_ne_getElem?]
  intro i j hij hj heq
  obtain ⟨a, ha⟩ : ∃ a, s.members[j]? = some a := ⟨_, getElem?_eq_getElem hj⟩
  have hi := h.index_eq_succ_iff.mpr (heq.trans ha)
  have hj := h.index_eq_succ_iff.mpr ha
  omega

theorem Dense.insert (h : Dense s) (ha : a ≠ 0) (hnew : s.index a = 0) : Dense (s.insert a) := by
  have hpos := h.pos
  refine ⟨Nat.le_add_left 1 _, fun i b hi => ?_, fun i hi hlt => ?_⟩
  · have hb := h.inverse i b hi
    have ha := h.inverse i a hi
    show update s.index a s.next b = i ↔ i < s.next + 1 ∧ update s.slots s.next a i = b
    simp only [update_apply]
    grind
  · have hslot := h.ne_zero i hi
    show update s.slots s.next a i ≠ 0
    have hlt' : i < s.next + 1 := hlt
    simp only [update_apply]
    grind

theorem Dense.remove_index (h : Dense s) (ha : s.index a ≠ 0) : (s.remove a).index b =
    if b = a then 0 else if b = s.slots (s.next - 1) then s.index a else s.index b := by
  obtain ⟨hlt, hslot⟩ := (h.inverse _ a ha).mp rfl
  have hmoved : s.index (s.slots (s.next - 1)) = s.next - 1 :=
    (h.inverse _ _ (by omega)).mpr ⟨by omega, rfl⟩
  simp only [SlotSet.remove, update_apply]
  grind [update_apply]

theorem Dense.index_remove (h : Dense s) (ha : s.index a ≠ 0) :
    (s.remove a).index b ≠ 0 ↔ b ≠ a ∧ s.index b ≠ 0 := by
  obtain ⟨hlt, hslot⟩ := (h.inverse _ a ha).mp rfl
  have hmoved : s.index (s.slots (s.next - 1)) = s.next - 1 :=
    (h.inverse _ _ (by omega)).mpr ⟨by omega, rfl⟩
  rw [h.remove_index ha]
  grind

theorem Dense.remove (h : Dense s) (ha : s.index a ≠ 0) : Dense (s.remove a) := by
  have hpos := h.pos
  obtain ⟨hlt, hslot⟩ := (h.inverse _ a ha).mp rfl
  obtain ⟨last, hlast⟩ : ∃ last, last = s.next - 1 := ⟨_, rfl⟩
  have hmoved : s.index (s.slots last) = last := (h.inverse last _ (by omega)).mpr ⟨by omega, rfl⟩
  have hslots : ∀ i, i < last → (s.remove a).slots i = if i = s.index a then s.slots last else s.slots i := by
    intro i hi
    simp only [SlotSet.remove, ← hlast, update_of_ne hi.ne]
    grind [update_apply]
  have hindex : ∀ b, (s.remove a).index b =
      if b = a then 0 else if b = s.slots last then s.index a else s.index b :=
    fun b => hlast ▸ h.remove_index ha
  have hnext : (s.remove a).next = last := hlast.symm
  refine ⟨by omega, fun i b hi => ?_, fun i hi hi' => ?_⟩
  · have hb := h.inverse i b hi
    have hia := h.inverse i a hi
    have hil := h.inverse i (s.slots last) hi
    rw [hindex, hnext]
    constructor
    · intro heq
      grind
    · rintro ⟨hil', hib⟩
      rw [hslots i hil'] at hib
      grind
  · have hne := h.ne_zero i hi
    have hne' := h.ne_zero last (by omega)
    rw [hslots i (hnext ▸ hi')]
    grind

end SlotSet

end Trustgraphs
