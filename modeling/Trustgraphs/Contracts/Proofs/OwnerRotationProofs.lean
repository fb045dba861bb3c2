import Trustgraphs.Contracts.SignerSyncZkModule
import Trustgraphs.Lib.LinkedList

/-!
# A rotation reaches the owners that it is to reach

`At r address list threshold` is what holds between two calls of `_syncOwners`: the local list is
the list of the Safe, and the Safe has always had a threshold that its owners can meet.
-/

/-!
## Safes and the lists of their owners

`Represents safe list` says that the mapping of a Safe holds a list of distinct owners. A call that meets the
guards of the Safe succeeds, and the Safe then represents the list that the call is meant to leave.
-/

namespace Trustgraphs

open Function List

theorem FixedBytes.length_le_of_nodup {n : ℕ} {list : List (FixedBytes n)} (h : list.Nodup) :
    list.length ≤ 256 ^ n := by
  have hinj : Injective fun a : FixedBytes n => ofBeBytes a.bytes := fun a b heq =>
    FixedBytes.ext (ofBeBytes_injective (a.size.trans b.size.symm) heq)
  have hsub : list.map (fun a => ofBeBytes a.bytes) ⊆ List.range (256 ^ n) := by
    intro v hv
    obtain ⟨a, -, rfl⟩ := mem_map.mp hv
    have hlt := ofBeBytes_lt a.bytes
    rw [a.size] at hlt
    exact mem_range.mpr hlt
  have hle := ((h.map hinj).subperm hsub).length_le
  rwa [length_map, length_range] at hle

namespace OwnerManager

open LinkedList

/-- The Safe has these owners, in the order of its list. -/
structure Represents (safe : OwnerManager) (list : List Address) : Prop where
  valid : ∀ owner ∈ list, valid owner
  ring : Ring safe.owners SENTINEL 0 list
  count : safe.ownerCount = list.length

variable {safe after : OwnerManager} {list front back : List Address} {owner new : Address} {threshold : U256}

theorem Represents.nodup (h : Represents safe list) : list.Nodup := h.ring.nodup.of_cons

theorem walk_eq {owners : Address → Address} {current : Address} {n : ℕ} (h : Links owners current list SENTINEL)
    (hlist : SENTINEL ∉ list) (hn : list.length ≤ n) : walk owners n (owners current) = some list := by
  induction list generalizing current n with
  | nil =>
    rw [show owners current = SENTINEL from h]
    cases n with
    | zero => exact if_pos rfl
    | succ n => exact if_pos rfl
  | cons x list ih =>
    obtain ⟨hx, hrest⟩ := h
    obtain ⟨hne, hlist⟩ := not_or.mp (mt mem_cons.mpr hlist)
    obtain ⟨n, rfl⟩ : ∃ m, n = m + 1 := ⟨n - 1, by rw [length_cons] at hn; omega⟩
    rw [hx, walk, if_neg (Ne.symm hne), ih hrest hlist (Nat.le_of_succ_le_succ hn)]
    rfl

theorem Represents.getOwners (h : Represents safe list) : safe.getOwners = some list := by
  rw [OwnerManager.getOwners, walk_eq h.ring.links h.ring.sentinel_not_mem h.count.ge, Option.map_some, h.count,
    Nat.sub_self]
  exact congrArg some (append_nil list)

theorem Represents.length_lt (h : Represents safe list) : list.length < 2 ^ 256 :=
  (FixedBytes.length_le_of_nodup h.nodup).trans_lt (by norm_num)

theorem Represents.withThreshold (h : Represents safe list) (hone : 1 ≤ threshold.toNat)
    (hle : threshold.toNat ≤ list.length) :
    safe.withThreshold threshold = some { safe with threshold := threshold } := by
  rw [OwnerManager.withThreshold]
  split
  · rw [changeThreshold, h.count, if_neg (Nat.not_lt.mpr hle), if_neg (Nat.not_lt.mpr hone)]
  · rename_i hsame
    rw [← not_not.mp hsame]

theorem Represents.of_threshold (h : Represents safe list) :
    Represents { safe with threshold := threshold } list := ⟨h.valid, h.ring, h.count⟩

theorem Represents.changeThreshold (h : Represents safe list) (hone : 1 ≤ threshold.toNat)
    (hle : threshold.toNat ≤ list.length) :
    safe.changeThreshold threshold = some { safe with threshold := threshold } := by
  rw [OwnerManager.changeThreshold, h.count, if_neg (Nat.not_lt.mpr hle), if_neg (Nat.not_lt.mpr hone)]

theorem Represents.free (h : Represents safe list) (hvalid : OwnerManager.valid new) (hself : new ≠ safe.self)
    (hnew : new ∉ list) : safe.free new :=
  ⟨hvalid, hself, h.ring.absent new (by rw [mem_cons, not_or]; exact ⟨hvalid.2, hnew⟩)⟩

theorem Represents.addOwner (h : Represents safe list) (hvalid : OwnerManager.valid new) (hself : new ≠ safe.self)
    (hnew : new ∉ list) (hone : 1 ≤ safe.threshold.toNat) (hle : safe.threshold.toNat ≤ list.length) :
    ∃ after, safe.addOwnerWithThreshold new safe.threshold = some after ∧ Represents after (new :: list) ∧
      after.self = safe.self ∧ after.threshold = safe.threshold := by
  have hring := h.ring.push (x := new) (by rw [mem_cons, not_or]; exact ⟨hvalid.2, hnew⟩)
  have hafter : Represents { safe with
      owners := update (update safe.owners new (safe.owners SENTINEL)) SENTINEL new
      ownerCount := safe.ownerCount + 1 } (new :: list) := by
    refine ⟨fun owner howner => ?_, hring, congrArg (· + 1) h.count⟩
    rcases mem_cons.mp howner with rfl | howner
    · exact hvalid
    · exact h.valid owner howner
  refine ⟨_, ?_, hafter.of_threshold, rfl, rfl⟩
  rw [addOwnerWithThreshold, if_neg (not_not.mpr (h.free hvalid hself hnew))]
  exact hafter.withThreshold hone (hle.trans (Nat.le_succ _))

theorem Represents.removeOwner (h : Represents safe (front ++ owner :: back)) (hone : 1 ≤ threshold.toNat)
    (hle : threshold.toNat ≤ (front ++ back).length) :
    ∃ after, safe.removeOwner (front.getLastD SENTINEL) owner threshold = some after ∧
      Represents after (front ++ back) ∧ after.self = safe.self ∧ after.threshold = threshold := by
  have hlength : (front ++ owner :: back).length = (front ++ back).length + 1 := by
    simp only [length_append, length_cons]
    omega
  have hafter : Represents { safe with
      owners := update (update safe.owners (front.getLastD SENTINEL) (safe.owners owner)) owner 0
      ownerCount := safe.ownerCount - 1 } (front ++ back) := by
    refine ⟨fun other hother => h.valid other ?_, h.ring.erase, ?_⟩
    · rcases mem_append.mp hother with hother | hother
      · exact mem_append_left _ hother
      · exact mem_append_right _ (mem_cons_of_mem owner hother)
    · show safe.ownerCount - 1 = _
      rw [h.count, hlength, Nat.add_sub_cancel]
  refine ⟨_, ?_, hafter.of_threshold, rfl, rfl⟩
  have hvalid := h.valid owner (mem_append_right front mem_cons_self)
  rw [OwnerManager.removeOwner, h.count, if_neg (by omega), if_neg (not_not.mpr hvalid),
    if_neg (not_not.mpr h.ring.next_pred), ← h.count]
  exact hafter.withThreshold hone hle

theorem Represents.swapOwner (h : Represents safe (front ++ owner :: back)) (hvalid : OwnerManager.valid new)
    (hself : new ≠ safe.self) (hnew : new ∉ front ++ owner :: back) :
    ∃ after, safe.swapOwner (front.getLastD SENTINEL) owner new = some after ∧
      Represents after (front ++ new :: back) ∧ after.self = safe.self ∧ after.threshold = safe.threshold := by
  have hold := h.valid owner (mem_append_right front mem_cons_self)
  have hring := h.ring.replace (y := new) (by rw [mem_cons, not_or]; exact ⟨hvalid.2, hnew⟩)
  have hcalled : safe.swapOwner (front.getLastD SENTINEL) owner new = some { safe with
      owners := update (update (update safe.owners new (safe.owners owner))
        (front.getLastD SENTINEL) new) owner 0 } := by
    rw [OwnerManager.swapOwner, if_neg (not_not.mpr (h.free hvalid hself hnew)), if_neg (not_not.mpr hold),
      if_neg (not_not.mpr h.ring.next_pred)]
  refine ⟨_, hcalled, ⟨fun other hother => ?_, hring, ?_⟩, rfl, rfl⟩
  · rcases mem_append.mp hother with hother | hother
    · exact h.valid other (mem_append_left _ hother)
    · rcases mem_cons.mp hother with rfl | hother
      · exact hvalid
      · exact h.valid other (mem_append_right _ (mem_cons_of_mem owner hother))
  · show safe.ownerCount = _
    rw [h.count, length_append, length_append]
    rfl

end OwnerManager

end Trustgraphs

namespace Trustgraphs

open Outcome List

/-- A Safe with a list of owners, and a threshold that they can meet. -/
def OwnerManager.Sound (safe : OwnerManager) : Prop :=
  (∃ list, safe.Represents list) ∧ 1 ≤ safe.threshold.toNat ∧ safe.threshold.toNat ≤ safe.ownerCount

namespace SignerSyncZkModule

open Evm OwnerManager

section Rotation

variable {H : Hashes} {safe : OwnerManager} {r : Rotation} {address owner new : Address}
  {list front back desired signers : List Address} {threshold target : U256} {root : B256}

theorem findIdx?_eq (h : owner ∉ front) :
    (front ++ owner :: back).findIdx? (· == owner) = some front.length := by
  rw [findIdx?_append, findIdx?_eq_none_iff.mpr fun x hx => beq_eq_false_iff_ne.mpr (ne_of_mem_of_not_mem hx h)]
  simp [findIdx?_cons]

theorem prevOwner_eq (h : owner ∉ front) :
    prevOwner (front ++ owner :: back) owner = .ok (front.getLastD SENTINEL) := by
  rw [prevOwner, findIdx?_eq h]
  rcases eq_nil_or_concat front with rfl | ⟨init, last, rfl⟩
  · rfl
  · have hlast : (init ++ [last] ++ owner :: back)[init.length]? = some last := by
      rw [append_assoc, getElem?_append_right le_rfl, Nat.sub_self]
      rfl
    rw [concat_eq_append, length_append]
    show answer _ = _
    rw [hlast, getLastD_concat]
    rfl

theorem replaceInPlace_eq (h : owner ∉ front) :
    replaceInPlace (front ++ owner :: back) owner new = .ok (front ++ new :: back) := by
  rw [replaceInPlace, findIdx?_eq h]
  show Except.ok _ = _
  rw [set_append_right _ _ le_rfl, Nat.sub_self]
  rfl

theorem remove_eq (h : (front ++ owner :: back).Nodup) :
    remove (front ++ owner :: back) owner = .ok (front ++ back) := by
  obtain ⟨-, hback, hapart⟩ := nodup_append.mp h
  have hfront : ∀ x ∈ front, (x != owner) = true := fun x hx => bne_iff_ne.mpr (hapart x hx owner mem_cons_self)
  have hrest : ∀ x ∈ back, (x != owner) = true := fun x hx =>
    bne_iff_ne.mpr (ne_of_mem_of_not_mem hx (nodup_cons.mp hback).1)
  have hfilter : (front ++ owner :: back).filter (· != owner) = front ++ back := by
    rw [filter_append, filter_eq_self.mpr hfront, filter_cons_of_neg (by simp), filter_eq_self.mpr hrest]
  have hlength : (front ++ owner :: back).length = (front ++ back).length + 1 := by
    simp only [length_append, length_cons]
    omega
  rw [remove, hfilter, hlength, if_neg (Nat.succ_ne_zero _), if_neg (by omega)]
  simp

/-- The Safe has this list and this threshold, and was never without a threshold that its owners can meet. -/
structure At (r : Rotation) (address : Address) (list : List Address) (threshold : U256) : Prop where
  represents : r.safe.Represents list
  self_eq : r.safe.self = address
  threshold_eq : r.safe.threshold = threshold
  one_le : 1 ≤ threshold.toNat
  le_length : threshold.toNat ≤ list.length
  seen : ∀ state ∈ r.seen, state.Sound

theorem At.after (h : At r address list threshold) {after : OwnerManager} {next : List Address} {th : U256}
    (hrep : after.Represents next) (hself : after.self = r.safe.self) (hth : after.threshold = th)
    (hone : 1 ≤ th.toNat) (hle : th.toNat ≤ next.length) : At ⟨after, r.seen ++ [after]⟩ address next th := by
  have hsound : after.Sound := by
    refine ⟨⟨next, hrep⟩, ?_⟩
    rw [hth, hrep.count]
    exact ⟨hone, hle⟩
  refine ⟨hrep, hself.trans h.self_eq, hth, hone, hle, fun state hstate => ?_⟩
  rcases mem_append.mp hstate with hstate | hstate
  · exact h.seen state hstate
  · rwa [mem_singleton.mp hstate]

/-- Neither the Safe nor an owner, nor what no Safe has as an owner. -/
structure Newcomer (address : Address) (list : List Address) (owner : Address) : Prop where
  valid : valid owner
  not_self : owner ≠ address
  not_mem : owner ∉ list

theorem swapOwners_eq (h : At r address list threshold) :
    ∀ pairs : List (Address × Address), (pairs.map Prod.fst).Nodup → (pairs.map Prod.snd).Nodup →
      (∀ old ∈ pairs.map Prod.fst, old ∈ list) → (∀ new ∈ pairs.map Prod.snd, Newcomer address list new) →
      ∃ r' list', swapOwners pairs (r, list) = .ok (r', list') ∧ At r' address list' threshold ∧
        list'.length = list.length ∧
        ∀ x, x ∈ list' ↔ x ∈ list ∧ x ∉ pairs.map Prod.fst ∨ x ∈ pairs.map Prod.snd := by
  intro pairs
  induction pairs generalizing r list with
  | nil =>
    intro _ _ _ _
    exact ⟨r, list, rfl, h, rfl, fun x => by simp⟩
  | cons pair pairs ih =>
    obtain ⟨old, new⟩ := pair
    intro holds hnews hmem hfree
    obtain ⟨hold, holds⟩ := nodup_cons.mp holds
    obtain ⟨hnew, hnews⟩ := nodup_cons.mp hnews
    have hcomer := hfree new mem_cons_self
    obtain ⟨front, back, rfl⟩ := append_of_mem (hmem old mem_cons_self)
    obtain ⟨-, hback, hapart⟩ := nodup_append.mp h.represents.nodup
    have hfront : old ∉ front := fun hx => hapart old hx old mem_cons_self rfl
    have hnot := hcomer.not_mem
    obtain ⟨after, hcall, hrep, hself, hth⟩ := h.represents.swapOwner hcomer.valid
      (h.self_eq ▸ hcomer.not_self) hnot
    have hlength : (front ++ new :: back).length = (front ++ old :: back).length := by
      rw [length_append, length_append]
      rfl
    have hat : At ⟨after, r.seen ++ [after]⟩ address (front ++ new :: back) threshold :=
      h.after hrep hself (hth.trans h.threshold_eq) h.one_le (hlength ▸ h.le_length)
    -- the others are still to be replaced, and no newcomer has come in but this one
    have hstay : ∀ x ∈ pairs.map Prod.fst, x ∈ front ++ new :: back := by
      intro x hx
      have hne : x ≠ old := ne_of_mem_of_not_mem hx hold
      have hin := hmem x (mem_cons_of_mem old hx)
      simp only [mem_append, mem_cons] at hin ⊢
      tauto
    have hcome : ∀ x ∈ pairs.map Prod.snd, Newcomer address (front ++ new :: back) x := by
      intro x hx
      have hne : x ≠ new := ne_of_mem_of_not_mem hx hnew
      obtain ⟨hvalid, hself, hnot⟩ := hfree x (mem_cons_of_mem new hx)
      refine ⟨hvalid, hself, ?_⟩
      simp only [mem_append, mem_cons] at hnot ⊢
      tauto
    obtain ⟨r', list', hrun, hat', hlength', hiff⟩ := ih hat holds hnews hstay hcome
    refine ⟨r', list', ?_, hat', hlength'.trans hlength, fun x => ?_⟩
    · have hexec : execSafe r (.swapOwner (front.getLastD SENTINEL) old new) = .ok ⟨after, r.seen ++ [after]⟩ := by
        simp only [execSafe, hcall]
      rw [swapOwners, prevOwner_eq hfront, ok_bind, hexec, ok_bind, replaceInPlace_eq hfront, ok_bind, hrun]
    · have hold' : old ∉ back := (nodup_cons.mp hback).1
      rw [hiff x]
      simp only [mem_append, mem_cons, map_cons] at hnot ⊢
      grind

theorem addOwners_eq (h : At r address list threshold) :
    ∀ adds : List Address, adds.Nodup → (∀ new ∈ adds, Newcomer address list new) →
      ∃ r' list', addOwners threshold adds (r, list) = .ok (r', list') ∧ At r' address list' threshold ∧
        ∀ x, x ∈ list' ↔ x ∈ list ∨ x ∈ adds := by
  intro adds
  induction adds generalizing r list with
  | nil =>
    intro _ _
    exact ⟨r, list, rfl, h, fun x => by simp⟩
  | cons new adds ih =>
    intro hnodup hfree
    obtain ⟨hnew, hnodup⟩ := nodup_cons.mp hnodup
    obtain ⟨hvalid, hself, hnot⟩ := hfree new mem_cons_self
    obtain ⟨after, hcall, hrep, hsame, hth⟩ := h.represents.addOwner hvalid (h.self_eq ▸ hself) hnot
      (h.threshold_eq ▸ h.one_le) (h.threshold_eq ▸ h.le_length)
    rw [h.threshold_eq] at hcall
    have hat := h.after hrep hsame (hth.trans h.threshold_eq) h.one_le (h.le_length.trans (Nat.le_succ _))
    have hcome : ∀ x ∈ adds, Newcomer address (new :: list) x := by
      intro x hx
      obtain ⟨hvalid, hself, hnot⟩ := hfree x (mem_cons_of_mem new hx)
      refine ⟨hvalid, hself, ?_⟩
      rw [mem_cons, not_or]
      exact ⟨ne_of_mem_of_not_mem hx hnew, hnot⟩
    obtain ⟨r', list', hrun, hat', hiff⟩ := ih hat hnodup hcome
    refine ⟨r', list', ?_, hat', fun x => ?_⟩
    · have hexec : execSafe r (.addOwnerWithThreshold new threshold) = .ok ⟨after, r.seen ++ [after]⟩ := by
        simp only [execSafe, hcall]
      rw [addOwners, hexec, ok_bind, hrun]
    · rw [hiff x, mem_cons, mem_cons]
      tauto

theorem clamp_spec {count threshold : U256} (hcount : 1 ≤ count.toNat) (hone : 1 ≤ threshold.toNat) :
    ∃ th : U256, (if (if count.toNat < threshold.toNat then count else threshold).toNat < 1 then (1 : U256)
      else if count.toNat < threshold.toNat then count else threshold) = th ∧ 1 ≤ th.toNat ∧
        th.toNat ≤ count.toNat := by
  refine ⟨_, rfl, ?_⟩
  by_cases h : count.toNat < threshold.toNat
  · rw [if_pos h, if_neg (Nat.not_lt.mpr hcount)]
    exact ⟨hcount, le_rfl⟩
  · rw [if_neg h, if_neg (Nat.not_lt.mpr hone)]
    exact ⟨hone, Nat.not_lt.mp h⟩

/-- At least one owner is left at each removal. -/
theorem removeOwners_eq (h : At r address list threshold) :
    ∀ removes : List Address, removes.Nodup → (∀ old ∈ removes, old ∈ list) → removes.length < list.length →
      ∃ r' list' threshold', removeOwners removes (r, list, threshold) = .ok (r', list', threshold') ∧
        At r' address list' threshold' ∧ ∀ x, x ∈ list' ↔ x ∈ list ∧ x ∉ removes := by
  intro removes
  induction removes generalizing r list threshold with
  | nil =>
    intro _ _ _
    exact ⟨r, list, threshold, rfl, h, fun x => by simp⟩
  | cons old removes ih =>
    intro hnodup hmem hlt
    obtain ⟨hold, hnodup⟩ := nodup_cons.mp hnodup
    obtain ⟨front, back, rfl⟩ := append_of_mem (hmem old mem_cons_self)
    obtain ⟨-, hback, hapart⟩ := nodup_append.mp h.represents.nodup
    have hfront : old ∉ front := fun hx => hapart old hx old mem_cons_self rfl
    have hold' : old ∉ back := (nodup_cons.mp hback).1
    have hlength : (front ++ old :: back).length = (front ++ back).length + 1 := by
      simp only [length_append, length_cons]
      omega
    have hbound := h.represents.length_lt
    have hcount : (BitVec.ofNat 256 (front ++ old :: back).length).toNat = (front ++ back).length + 1 := by
      rw [BitVec.toNat_ofNat, Nat.mod_eq_of_lt hbound, hlength]
    obtain ⟨newCount, hminus, hnew⟩ :=
      minus_isOk (E := Error) (show (1 : U256).toNat ≤ (BitVec.ofNat 256 (front ++ old :: back).length).toNat by
        rw [hcount]; exact Nat.le_add_left 1 _)
    have hnewCount : newCount.toNat = (front ++ back).length := by
      rw [hnew, hcount]
      exact Nat.add_sub_cancel _ 1
    rw [length_cons, hlength] at hlt
    obtain ⟨th, hclamp, hone, hle⟩ := @clamp_spec newCount threshold (by omega) h.one_le
    rw [hnewCount] at hle
    obtain ⟨after, hcall, hrep, hself, hth⟩ := h.represents.removeOwner hone hle
    have hat := h.after hrep hself hth hone hle
    have hstay : ∀ x ∈ removes, x ∈ front ++ back := by
      intro x hx
      have hne : x ≠ old := ne_of_mem_of_not_mem hx hold
      have hin := hmem x (mem_cons_of_mem old hx)
      simp only [mem_append, mem_cons] at hin ⊢
      tauto
    obtain ⟨r', list', threshold', hrun, hat', hiff⟩ := ih hat hnodup hstay (by omega)
    refine ⟨r', list', threshold', ?_, hat', fun x => ?_⟩
    · have hexec : execSafe r (.removeOwner (front.getLastD SENTINEL) old th) = .ok ⟨after, r.seen ++ [after]⟩ := by
        simp only [execSafe, hcall]
      rw [removeOwners, prevOwner_eq hfront, ok_bind, hminus, ok_bind]
      simp only [hclamp, hexec, ok_bind, remove_eq h.represents.nodup]
      exact hrun
    · rw [hiff x]
      simp only [mem_append, mem_cons]
      grind

theorem checkSigners_succ_eq_ok {prev : Address} {i : ℕ} : checkSigners prev (i + 1) signers = .ok () ↔
    (∀ signer ∈ signers, valid signer) ∧ (∀ signer ∈ signers, prev < signer) ∧ signers.Pairwise (· < ·) := by
  induction signers generalizing prev i with
  | nil => exact ⟨fun _ => ⟨by simp, by simp, List.Pairwise.nil⟩, fun _ => rfl⟩
  | cons signer rest ih =>
    rw [checkSigners, ite_error_eq_ok, ite_error_eq_ok, ih, pairwise_cons]
    simp only [not_or, not_and, not_le, Nat.succ_pos, forall_const, forall_mem_cons]
    refine ⟨?_, ?_⟩
    · rintro ⟨hvalid, hprev, hrest, hlt, hsorted⟩
      exact ⟨⟨hvalid, hrest⟩, ⟨hprev, fun x hx => hprev.trans (hlt x hx)⟩, hlt, hsorted⟩
    · rintro ⟨⟨hvalid, hrest⟩, ⟨hprev, -⟩, hlt, hsorted⟩
      exact ⟨hvalid, hprev, hrest, hlt, hsorted⟩

theorem checkSigners_eq_ok :
    checkSigners 0 0 signers = .ok () ↔ (∀ signer ∈ signers, valid signer) ∧ signers.Pairwise (· < ·) := by
  cases signers with
  | nil => exact ⟨fun _ => ⟨by simp, List.Pairwise.nil⟩, fun _ => rfl⟩
  | cons signer rest =>
    rw [checkSigners, ite_error_eq_ok, if_neg (fun h => (lt_irrefl 0 h.1)), checkSigners_succ_eq_ok,
      pairwise_cons, forall_mem_cons, not_or]
    exact ⟨fun ⟨hvalid, hrest, hlt, hsorted⟩ => ⟨⟨hvalid, hrest⟩, hlt, hsorted⟩,
      fun ⟨⟨hvalid, hrest⟩, hlt, hsorted⟩ => ⟨hvalid, hrest, hlt, hsorted⟩⟩

theorem validateAndRoot_eq_ok : validateAndRoot H signers = .ok root ↔
    (2 ≤ signers.length ∧ signers.length ≤ 64) ∧ (∀ signer ∈ signers, valid signer) ∧ signers.Pairwise (· < ·) ∧
      ownerSetRoot H signers = .ok root := by
  have hmax : SignerSelectionPolicy.MAX_SIGNERS.toNat = 64 := rfl
  rw [validateAndRoot, ite_error_eq_ok, ite_error_eq_ok, bind_eq_ok, hmax]
  refine ⟨?_, ?_⟩
  · rintro ⟨hne, hcount, ⟨⟩, hcheck, hroot⟩
    obtain ⟨hvalid, hsorted⟩ := checkSigners_eq_ok.mp hcheck
    exact ⟨by omega, hvalid, hsorted, hroot⟩
  · rintro ⟨hcount, hvalid, hsorted, hroot⟩
    exact ⟨by omega, by omega, (), checkSigners_eq_ok.mpr ⟨hvalid, hsorted⟩, hroot⟩

theorem mem_rotated {toRemove toAdd : List Address} (hremove : ∀ x, x ∈ toRemove ↔ x ∈ list ∧ x ∉ desired)
    (hadd : ∀ x, x ∈ toAdd ↔ x ∈ desired ∧ x ∉ list) {n : ℕ} (x : Address) :
    (((x ∈ list ∧ x ∉ toRemove.take n) ∨ x ∈ toAdd.take n) ∨ x ∈ toAdd.drop n) ∧ x ∉ toRemove.drop n ↔
      x ∈ desired := by
  have hr : x ∈ toRemove ↔ x ∈ toRemove.take n ∨ x ∈ toRemove.drop n := by
    rw [← mem_append, take_append_drop]
  have ha : x ∈ toAdd ↔ x ∈ toAdd.take n ∨ x ∈ toAdd.drop n := by rw [← mem_append, take_append_drop]
  have hr' := hremove x
  have ha' := hadd x
  tauto

/-- From a Safe with a list of owners and a threshold that they can meet, every call of a rotation to an
accepted set succeeds, and the Safe ends with the owners and the threshold that were to be reached. -/
theorem syncOwners_reaches (hlist : safe.Represents list)
    (hthreshold : 1 ≤ safe.threshold.toNat ∧ safe.threshold.toNat ≤ list.length)
    (hdesired : validateAndRoot H desired = .ok root) (hself : safe.self ∉ desired)
    (htarget : 2 ≤ target.toNat ∧ target.toNat ≤ desired.length) :
    ∃ r, syncOwners safe desired target = .ok r ∧ (∀ state ∈ r.seen, state.Sound) ∧ r.safe.threshold = target ∧
      ∃ final, r.safe.Represents final ∧ r.safe.getOwners = some final ∧ ∀ owner, owner ∈ final ↔
        owner ∈ desired := by
  obtain ⟨⟨htwo, -⟩, hvalid, hsorted, -⟩ := validateAndRoot_eq_ok.mp hdesired
  have hnodup : desired.Nodup := hsorted.imp fun hlt => hlt.ne
  have hstart : At ⟨safe, []⟩ safe.self list safe.threshold :=
    ⟨hlist, rfl, rfl, hthreshold.1, hthreshold.2, fun state hstate => absurd hstate not_mem_nil⟩
  -- what is to be removed, and what is to be added
  obtain ⟨toRemove, htoRemove⟩ : ∃ l, l = list.filter fun owner => !desired.contains owner := ⟨_, rfl⟩
  obtain ⟨toAdd, htoAdd⟩ : ∃ l, l = desired.filter fun owner => !list.contains owner := ⟨_, rfl⟩
  have hremove : ∀ x, x ∈ toRemove ↔ x ∈ list ∧ x ∉ desired := fun x => by simp [htoRemove]
  have hadd : ∀ x, x ∈ toAdd ↔ x ∈ desired ∧ x ∉ list := fun x => by simp [htoAdd]
  have hremoveNodup : toRemove.Nodup := htoRemove ▸ hlist.nodup.filter _
  have haddNodup : toAdd.Nodup := htoAdd ▸ hnodup.filter _
  obtain ⟨s, hs⟩ : ∃ s, s = min toRemove.length toAdd.length := ⟨_, rfl⟩
  have htake : (toRemove.take s).length = (toAdd.take s).length := by
    rw [length_take, length_take]
    omega
  have hfst : ((toRemove.take s).zip (toAdd.take s)).map Prod.fst = toRemove.take s := map_fst_zip htake.le
  have hsnd : ((toRemove.take s).zip (toAdd.take s)).map Prod.snd = toAdd.take s := map_snd_zip htake.ge
  have hcomer : ∀ x ∈ toAdd, Newcomer safe.self list x := fun x hx =>
    ⟨hvalid x ((hadd x).mp hx).1, ne_of_mem_of_not_mem ((hadd x).mp hx).1 hself, ((hadd x).mp hx).2⟩
  -- the swaps
  obtain ⟨r₁, list₁, hswap, hat₁, -, hiff₁⟩ := swapOwners_eq hstart ((toRemove.take s).zip (toAdd.take s))
    (by rw [hfst]; exact hremoveNodup.sublist (take_sublist s _))
    (by rw [hsnd]; exact haddNodup.sublist (take_sublist s _))
    (by rw [hfst]; exact fun x hx => ((hremove x).mp (mem_of_mem_take hx)).1)
    (by rw [hsnd]; exact fun x hx => hcomer x (mem_of_mem_take hx))
  rw [hfst, hsnd] at hiff₁
  -- the additions
  have haddSplit : (toAdd.take s ++ toAdd.drop s).Nodup := by rwa [take_append_drop]
  obtain ⟨-, haddDrop, hapart⟩ := nodup_append.mp haddSplit
  obtain ⟨r₂, list₂, hadds, hat₂, hiff₂⟩ := addOwners_eq hat₁ (toAdd.drop s) haddDrop fun x hx => by
    obtain ⟨hv, hs', hnot⟩ := hcomer x (mem_of_mem_drop hx)
    refine ⟨hv, hs', fun hmem => ?_⟩
    rcases (hiff₁ x).mp hmem with ⟨hin, -⟩ | hin
    · exact hnot hin
    · exact hapart x hin x hx rfl
  -- the removals, which leave the desired owners at least
  have hmembers : ∀ x, x ∈ list₂ ∧ x ∉ toRemove.drop s ↔ x ∈ desired := fun x => by
    rw [hiff₂ x, hiff₁ x]
    exact mem_rotated hremove hadd x
  have hremoveDrop : (toRemove.drop s).Nodup := hremoveNodup.sublist (drop_sublist s _)
  have hstay : ∀ x ∈ toRemove.drop s, x ∈ list₂ := by
    intro x hx
    have hx' : x ∉ toRemove.take s := by
      have hsplit : (toRemove.take s ++ toRemove.drop s).Nodup := by rwa [take_append_drop]
      exact fun hin => (nodup_append.mp hsplit).2.2 x hin x hx rfl
    exact (hiff₂ x).mpr (.inl ((hiff₁ x).mpr (.inl ⟨((hremove x).mp (mem_of_mem_drop hx)).1, hx'⟩)))
  have hroom : (toRemove.drop s).length < list₂.length := by
    have hboth : (toRemove.drop s ++ desired).Nodup := nodup_append.mpr
      ⟨hremoveDrop, hnodup, fun x hx y hy heq => ((hmembers y).mpr hy).2 (heq ▸ hx)⟩
    have hsub : toRemove.drop s ++ desired ⊆ list₂ := fun x hx =>
      (mem_append.mp hx).elim (hstay x) fun hx => ((hmembers x).mpr hx).1
    have hle := (hboth.subperm hsub).length_le
    rw [length_append] at hle
    omega
  obtain ⟨r₃, list₃, threshold₃, hremoves, hat₃, hiff₃⟩ :=
    removeOwners_eq hat₂ (toRemove.drop s) hremoveDrop hstay hroom
  have hfinal : ∀ x, x ∈ list₃ ↔ x ∈ desired := fun x => (hiff₃ x).trans (hmembers x)
  have hlength : list₃.length = desired.length :=
    ((perm_ext_iff_of_nodup hat₃.represents.nodup hnodup).mpr hfinal).length_eq
  have hrun : syncOwners safe desired target =
      if r₃.safe.threshold ≠ target then execSafe r₃ (.changeThreshold target) else .ok r₃ := by
    rw [syncOwners, currentOwners, hlist.getOwners]
    simp only [answer, Option.elim_some, ok_bind, ← htoRemove, ← htoAdd, ← hs, hswap, hadds, hremoves]
  -- the threshold
  by_cases hsame : r₃.safe.threshold = target
  · refine ⟨r₃, hrun.trans (if_neg (not_not.mpr hsame)), hat₃.seen, hsame, list₃, hat₃.represents, ?_, hfinal⟩
    exact hat₃.represents.getOwners
  · have hle : target.toNat ≤ list₃.length := hlength ▸ htarget.2
    have hone : 1 ≤ target.toNat := by omega
    have hcall := hat₃.represents.changeThreshold hone hle
    have hrep : OwnerManager.Represents { r₃.safe with threshold := target } list₃ := hat₃.represents.of_threshold
    have hat := hat₃.after hrep rfl rfl hone hle
    refine ⟨_, (hrun.trans (if_pos hsame)).trans ?_, hat.seen, rfl, list₃, hrep, hrep.getOwners, hfinal⟩
    simp only [execSafe, hcall]

end Rotation

namespace RotationExample

open OzMerkle.Example (addr word)

def leaf2 : B256 := word 0x1cb3aae5df623484f5cd10ef87cc287a41b4902667fbf263b1c0d290cb3f7ead

def leaf4 : B256 := word 0xb76a017ffc0f80c6e55630073c6e4be1f96f03cb53a712db53633d7dc3acaab4

def rootWord : B256 := word 0xe95bdf4566e8867683ba14634bd5af0fb60d51e5c220489428cdd16da445192f

def keccak256 (s : Bytes) : B256 :=
  if s = wordAddr (addr 2) then leaf2
  else if s = wordAddr (addr 4) then leaf4
  else if s = leaf2.bytes ++ leaf4.bytes then rootWord
  else 0

def hashes : Hashes := ⟨keccak256, fun _ => 0⟩

def safe : OwnerManager where
  self := addr 9
  owners a :=
    if a = SENTINEL then addr 1
    else if a = addr 1 then addr 2
    else if a = addr 2 then addr 3
    else if a = addr 3 then SENTINEL
    else 0
  ownerCount := 3
  threshold := 3

theorem safe_represents : safe.Represents [addr 1, addr 2, addr 3] where
  valid := by decide
  ring := {
    nodup := by decide
    links := ⟨by decide, by decide, by decide, show safe.owners (addr 3) = SENTINEL by decide⟩
    absent := by
      intro a ha
      simp only [mem_cons, not_mem_nil, or_false, not_or] at ha
      obtain ⟨hs, h1, h2, h3⟩ := ha
      show (if a = SENTINEL then _ else _) = _
      rw [if_neg hs, if_neg h1, if_neg h2, if_neg h3] }
  count := rfl

def desired : List Address := [addr 2, addr 4]

end RotationExample

open RotationExample in
/-- One owner is replaced and one is removed, with a threshold of two afterwards. -/
theorem syncOwners_reaches_two : ∃ r, syncOwners safe desired 2 = .ok r ∧ (∀ state ∈ r.seen, state.Sound) ∧
    r.safe.threshold = 2 ∧
      ∃ final, r.safe.Represents final ∧ r.safe.getOwners = some final ∧ ∀ owner, owner ∈ final ↔
        owner ∈ desired := by
  have hroot : validateAndRoot hashes desired = .ok rootWord := by decide +kernel
  exact syncOwners_reaches safe_represents (by decide) hroot (by decide) (by decide)

end SignerSyncZkModule

end Trustgraphs
