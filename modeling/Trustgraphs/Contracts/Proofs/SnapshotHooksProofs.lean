import Trustgraphs.Contracts.SnapshotHooks
import Trustgraphs.Lib.SlotSet

/-!
# The hooks are a set

The contract is a `SlotSet`, whose members are the hooks added and not removed since.
-/

namespace Trustgraphs.SnapshotHooks

open Evm Outcome Checked

variable {m : Caller} {s s' : State} {hook : Address} {S : Finset Address}

def State.toSlots (s : State) : SlotSet Address := ⟨s.hooks, s.hookIndex, s.nextHookIndex.toNat⟩

structure Holds (s : State) (S : Finset Address) : Prop where
  dense : s.toSlots.Dense
  mem : ∀ a, a ∈ S ↔ s.hookIndex a ≠ 0

theorem addHook_eq_ok (h : addHook m s hook = .ok s') :
    hook ≠ 0 ∧ s.hookIndex hook = 0 ∧ s'.toSlots = s.toSlots.insert hook := by
  unfold addHook at h
  obtain ⟨-, -, h⟩ := of_bind h
  obtain ⟨hzero, h⟩ := of_guard h
  obtain ⟨hnew, h⟩ := of_guard h
  obtain ⟨next, hnext, h⟩ := of_bind h
  obtain rfl := ok_inj h
  have hvalue := add64_eq_some.mp (arith_eq_ok.mp hnext)
  refine ⟨hzero, not_not.mp hnew, ?_⟩
  rw [SlotSet.insert, State.toSlots, hvalue]
  rfl

theorem removeHook_eq_ok (h : removeHook m s hook = .ok s') :
    s.hookIndex hook ≠ 0 ∧ s'.toSlots = s.toSlots.remove hook := by
  unfold removeHook at h
  obtain ⟨-, -, h⟩ := of_bind h
  obtain ⟨hindex, h⟩ := of_guard h
  obtain ⟨last, hlast, h⟩ := of_bind h
  obtain rfl := ok_inj h
  have hvalue := sub64_eq_some.mp (arith_eq_ok.mp hlast)
  have hnext : last.toNat = s.nextHookIndex.toNat - 1 := by
    rw [hvalue]
    exact (Nat.add_sub_cancel_left ..).symm
  refine ⟨hindex, ?_⟩
  simp only [State.toSlots, SlotSet.remove, ← hnext]

theorem Holds.addHook (hs : Holds s S) (h : addHook m s hook = .ok s') : Holds s' (insert hook S) := by
  obtain ⟨hzero, hnew, hslots⟩ := addHook_eq_ok h
  have hindex : s'.hookIndex = (s.toSlots.insert hook).index := congrArg SlotSet.index hslots
  refine ⟨hslots ▸ hs.dense.insert hzero hnew, fun a => ?_⟩
  have hpos := hs.dense.pos
  rw [Finset.mem_insert, hs.mem, hindex]
  show _ ↔ Function.update s.hookIndex hook s.nextHookIndex.toNat a ≠ 0
  by_cases ha : a = hook
  · rw [ha, Function.update_self]
    exact ⟨fun _ => Nat.one_le_iff_ne_zero.mp hpos, fun _ => .inl rfl⟩
  · rw [Function.update_of_ne ha]
    exact ⟨fun h => h.resolve_left ha, .inr⟩

theorem Holds.removeHook (hs : Holds s S) (h : removeHook m s hook = .ok s') : Holds s' (S.erase hook) := by
  obtain ⟨hindex, hslots⟩ := removeHook_eq_ok h
  refine ⟨hslots ▸ hs.dense.remove hindex, fun a => ?_⟩
  have hindex' : s'.hookIndex a = (s.toSlots.remove hook).index a :=
    congrFun (congrArg SlotSet.index hslots) a
  rw [Finset.mem_erase, hs.mem, hindex', hs.dense.index_remove hindex]
  exact Iff.rfl

theorem run_holds (calls : List (Caller × Call)) : Holds (run calls).1 (run calls).2 := by
  refine Run.run_holds (P := fun t : State × Finset Address => Holds t.1 t.2) ?_ ?_ calls
  · rintro ⟨m, c⟩ ⟨s, S⟩ t hs hcall
    obtain ⟨s', hs', rfl⟩ := Option.map_eq_some_iff.mp hcall
    cases c with
    | addHook hook => exact hs.addHook (toOption_eq_some.mp hs')
    | removeHook hook => exact hs.removeHook (toOption_eq_some.mp hs')
  · refine ⟨⟨le_rfl, fun i a hi => ?_, fun i hi hlt => ?_⟩, fun a => ?_⟩
    · exact iff_of_false (fun h => hi h.symm) fun h => hi (Nat.lt_one_iff.mp h.1)
    · exact absurd (Nat.lt_one_iff.mp hlt) hi
    · exact iff_of_false (Finset.notMem_empty a) fun h => h rfl

/-- After every sequence of calls the hooks are distinct and none is the zero address, the index map is
their inverse, and they are the hooks added and not removed since. -/
theorem hooks_represent (calls : List (Caller × Call)) :
    ∃ hooks, getHooks (run calls).1 = .ok hooks ∧ hooks.Nodup ∧ (0 : Address) ∉ hooks ∧
      (∀ a i, (run calls).1.hookIndex a = i + 1 ↔ hooks[i]? = some a) ∧
      (∀ a, (run calls).1.hookIndex a = 0 ↔ a ∉ hooks) ∧ hooks.toFinset = (run calls).2 := by
  have hs := run_holds calls
  have hdense := hs.dense
  obtain ⟨count, hcount⟩ := exists_toNat64
    (lt_of_le_of_lt (Nat.sub_le (run calls).1.nextHookIndex.toNat 1) (UInt64.toNat_lt _))
  have hsub : sub64 (run calls).1.nextHookIndex 1 = some count := by
    have hpos : 1 ≤ (run calls).1.nextHookIndex.toNat := hdense.pos
    rw [sub64_eq_some, hcount]
    show _ = 1 + _
    omega
  refine ⟨(run calls).1.toSlots.members, ?_, hdense.nodup, hdense.zero_notMem,
    fun a i => hdense.index_eq_succ_iff, fun a => ?_, ?_⟩
  · refine bind_eq_ok.mpr ⟨count, arith_eq_ok.mpr hsub, ?_⟩
    rw [hcount]
    rfl
  · rw [hdense.mem_members]
    exact not_not.symm
  · ext a
    rw [List.mem_toFinset, hdense.mem_members, hs.mem]
    exact Iff.rfl

/-- Whatever calls came before, a call is accepted exactly when its caller holds the role and its hook can be
added or removed. -/
theorem call_accepted_iff (calls : List (Caller × Call)) (m : Caller) (c : Call) :
    (call (m, c) (run calls).1).isSome ↔ m.isConstitutional m.sender = true ∧
      match c with
      | .addHook hook => hook ≠ 0 ∧ hook ∉ (run calls).2 ∧ (run calls).1.nextHookIndex.toNat + 1 < 2 ^ 64
      | .removeHook hook => hook ∈ (run calls).2 := by
  have hs := run_holds calls
  have hpos : 1 ≤ (run calls).1.nextHookIndex.toNat := hs.dense.pos
  have hlt := (run calls).1.nextHookIndex.toNat_lt
  have hone : UInt64.toNat 1 = 1 := rfl
  rw [Option.isSome_iff_exists]
  cases c with
  | addHook hook =>
    simp only [call, toOption_eq_some, addHook, onlyRole, bind_eq_ok, ite_error_eq_ok, arith_eq_ok, hs.mem,
      add64_eq_some, Bool.not_eq_false, and_true]
    constructor
    · rintro ⟨_, _, hrole, hzero, hnew, next, hvalue, -⟩
      have := next.toNat_lt
      exact ⟨hrole, hzero, hnew, by omega⟩
    · rintro ⟨hrole, hzero, hnew, hroom⟩
      obtain ⟨next, hvalue⟩ := exists_toNat64 hroom
      exact ⟨_, (), hrole, hzero, hnew, next, by omega, rfl⟩
  | removeHook hook =>
    simp only [call, toOption_eq_some, removeHook, onlyRole, bind_eq_ok, ite_error_eq_ok, arith_eq_ok, hs.mem,
      sub64_eq_some, Bool.not_eq_false, and_true]
    constructor
    · rintro ⟨_, _, hrole, hindex, -⟩
      exact ⟨hrole, hindex⟩
    · rintro ⟨hrole, hindex⟩
      obtain ⟨last, hvalue⟩ := exists_toNat64 (show (run calls).1.nextHookIndex.toNat - 1 < _ by omega)
      exact ⟨_, (), hrole, hindex, last, by omega, rfl⟩

end Trustgraphs.SnapshotHooks
