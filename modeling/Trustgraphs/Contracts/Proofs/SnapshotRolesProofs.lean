import Trustgraphs.Contracts.SnapshotRoles
import Trustgraphs.Lib.Ledger

/-!
# The constitutional role is never without a holder

Every operation ends in a grant or a revocation, so two lemmas say what it does to the holders, to their
count and to the pending handoff.
-/

namespace Trustgraphs.SnapshotRoles

open Evm Outcome

variable {O : AccessControl} {H : Hashes} {s s' : State O} {role : B256} {account sender : Address}

def holders (H : Hashes) (s : State O) : Set Address := {a | hasRole s (CONSTITUTIONAL_ROLE H) a = true}

/-- The counter counts the holders. There is one, and the zero address is none. -/
structure Counted (H : Hashes) (s : State O) : Prop where
  count : s.constitutionalHolderCount.toNat = (holders H s).ncard
  pos : 1 ≤ s.constitutionalHolderCount.toNat
  nonzero : (0 : Address) ∉ holders H s

structure Handed (H : Hashes) (s : State O) : Prop where
  holds : s.pendingConstitutionalTransferor ≠ 0 → s.pendingConstitutionalTransferor ∈ holders H s
  idle : s.pendingConstitutionalTransferor = 0 → s.pendingConstitutionalSuccessor = 0

def handoff (s : State O) : Address × Address :=
  (s.pendingConstitutionalTransferor, s.pendingConstitutionalSuccessor)

theorem onlyRole_eq_ok {u : Unit} : (onlyRole s role sender : Result Error Unit) = .ok u ↔
    hasRole s role sender = true := by
  unfold onlyRole
  rw [ite_error_eq_ok]
  simp

theorem _grantRole_cases (hO : O.Documented) (h : _grantRole H s role account = .ok s') :
    handoff s' = handoff s ∧
      ((account ≠ 0 ∧ account ∉ holders H s ∧ holders H s' = insert account (holders H s) ∧
          s'.constitutionalHolderCount.toNat = s.constitutionalHolderCount.toNat + 1) ∨
        ((role = CONSTITUTIONAL_ROLE H → account ∈ holders H s) ∧ holders H s' = holders H s ∧
          s'.constitutionalHolderCount = s.constitutionalHolderCount)) := by
  have hholders : ∀ a, O.hasRole (O.grantRole s.roles role account).1 (CONSTITUTIONAL_ROLE H) a = true ↔
      a ∈ holders H s ∨ CONSTITUTIONAL_ROLE H = role ∧ a = account := by
    intro a
    rw [hO.hasRole_grantRole, Bool.or_eq_true, decide_eq_true_iff]
    rfl
  have hgranted := hO.granted s.roles role account
  unfold _grantRole at h
  rw [ite_error_eq_ok] at h
  obtain ⟨hzero, h⟩ := h
  dsimp only at h
  split at h
  · rename_i hnew
    obtain ⟨count, hcount, h⟩ := of_bind h
    obtain rfl := ok_inj h
    obtain ⟨hheld, rfl⟩ := hnew
    rw [hgranted, Bool.not_eq_true'] at hheld
    refine ⟨rfl, Or.inl ⟨fun hz => hzero ⟨rfl, hz⟩, fun hmem => ?_, ?_, ?_⟩⟩
    · exact Bool.noConfusion (hheld.symm.trans hmem)
    · ext a
      rw [Set.mem_insert_iff, or_comm]
      exact (hholders a).trans (or_congr_right (and_iff_right rfl))
    · exact Checked.add_eq_some.mp (arith_eq_ok.mp hcount)
  · rename_i hold
    obtain rfl := ok_inj h
    have hheld : role = CONSTITUTIONAL_ROLE H → account ∈ holders H s := by
      rintro rfl
      rw [hgranted, Bool.not_eq_true', and_iff_left rfl, Bool.not_eq_false] at hold
      exact hold
    refine ⟨rfl, Or.inr ⟨hheld, ?_, rfl⟩⟩
    ext a
    refine (hholders a).trans (or_iff_left_of_imp ?_)
    rintro ⟨hrole, rfl⟩
    exact hheld hrole.symm

/-- A revocation removes a holder that is not the last, and its handoff with it, or changes nothing of
the three. -/
theorem _revokeRole_cases (hO : O.Documented) (h : _revokeRole H s role account = .ok s') :
    (account ∈ holders H s ∧ s.constitutionalHolderCount ≠ 1 ∧ holders H s' = holders H s \ {account} ∧
        s.constitutionalHolderCount.toNat = s'.constitutionalHolderCount.toNat + 1 ∧
        (account = s.pendingConstitutionalTransferor ∧ s.pendingConstitutionalTransferor ≠ 0 ∧ handoff s' = 0 ∨
          (account = s.pendingConstitutionalTransferor → s.pendingConstitutionalTransferor = 0) ∧
            handoff s' = handoff s)) ∨
      (holders H s' = holders H s ∧ s'.constitutionalHolderCount = s.constitutionalHolderCount ∧
        handoff s' = handoff s) := by
  have hholders : ∀ a, O.hasRole (O.revokeRole s.roles role account).1 (CONSTITUTIONAL_ROLE H) a = true ↔
      a ∈ holders H s ∧ ¬ (CONSTITUTIONAL_ROLE H = role ∧ a = account) := by
    intro a
    rw [hO.hasRole_revokeRole, Bool.and_eq_true, Bool.not_eq_true', decide_eq_false_iff_not]
    rfl
  have hrevoked := hO.revoked s.roles role account
  unfold _revokeRole at h
  rw [ite_error_eq_ok] at h
  obtain ⟨hlast, h⟩ := h
  dsimp only at h
  split at h
  · rename_i hheld
    obtain ⟨count, hcount, h⟩ := of_bind h
    obtain ⟨hheld, rfl⟩ := hheld
    rw [hrevoked] at hheld
    have hremoved : ∀ t : State O, t.roles = (O.revokeRole s.roles (CONSTITUTIONAL_ROLE H) account).1 →
        holders H t = holders H s \ {account} := by
      intro t ht
      ext a
      rw [Set.mem_sdiff, Set.mem_singleton_iff]
      have hmem : a ∈ holders H t ↔ O.hasRole t.roles (CONSTITUTIONAL_ROLE H) a = true := Iff.rfl
      rw [hmem, ht, hholders a, and_iff_right rfl]
    have hminus := minus_eq_ok.mp hcount
    refine Or.inl ⟨hheld, fun hone => hlast ⟨rfl, hheld, hone⟩, ?_⟩
    split at h
    · rename_i haccount
      obtain rfl := ok_inj h
      unfold _cancelPendingConstitutionalTransfer
      dsimp only at haccount ⊢
      split
      · rename_i hidle
        exact ⟨hremoved _ rfl, hminus.trans (Nat.add_comm _ _), Or.inr ⟨fun _ => hidle, rfl⟩⟩
      · rename_i hpending
        exact ⟨hremoved _ rfl, hminus.trans (Nat.add_comm _ _), Or.inl ⟨haccount, hpending, rfl⟩⟩
    · rename_i haccount
      obtain rfl := ok_inj h
      exact ⟨hremoved _ rfl, hminus.trans (Nat.add_comm _ _), Or.inr ⟨fun heq => absurd heq haccount, rfl⟩⟩
  · rename_i hother
    obtain rfl := ok_inj h
    refine Or.inr ⟨?_, rfl, rfl⟩
    ext a
    refine (hholders a).trans (and_iff_left_of_imp ?_)
    rintro hmem ⟨hrole, rfl⟩
    refine hother ⟨?_, hrole.symm⟩
    rw [hrevoked, ← hrole]
    exact hmem

theorem Counted._grantRole (hO : O.Documented) (hs : Counted H s)
    (h : SnapshotRoles._grantRole H s role account = .ok s') : Counted H s' := by
  obtain ⟨-, ⟨hzero, hnew, hholders, hcount⟩ | ⟨-, hholders, hcount⟩⟩ := _grantRole_cases hO h
  · constructor
    · rw [hcount, hholders, Set.ncard_insert_of_notMem hnew (Set.toFinite _), hs.count]
    · omega
    · rw [hholders, Set.mem_insert_iff, not_or]
      exact ⟨hzero.symm, hs.nonzero⟩
  · exact ⟨by rw [hcount, hholders, hs.count], hcount ▸ hs.pos, hholders ▸ hs.nonzero⟩

theorem Handed._grantRole (hO : O.Documented) (hs : Handed H s)
    (h : SnapshotRoles._grantRole H s role account = .ok s') : Handed H s' := by
  obtain ⟨hhandoff, hcases⟩ := _grantRole_cases hO h
  obtain ⟨htransferor, hsuccessor⟩ := Prod.ext_iff.mp hhandoff
  have hsubset : holders H s ⊆ holders H s' := by
    rcases hcases with ⟨-, -, hholders, -⟩ | ⟨-, hholders, -⟩
    · exact hholders ▸ Set.subset_insert _ _
    · exact hholders ▸ subset_rfl
  dsimp only [handoff] at htransferor hsuccessor
  constructor
  · rw [htransferor]
    exact fun hpending => hsubset (hs.holds hpending)
  · rw [htransferor, hsuccessor]
    exact hs.idle

theorem Counted._revokeRole (hO : O.Documented) (hs : Counted H s)
    (h : SnapshotRoles._revokeRole H s role account = .ok s') : Counted H s' := by
  rcases _revokeRole_cases hO h with ⟨hheld, hlast, hholders, hcount, -⟩ | ⟨hholders, hcount, -⟩
  · have hcard := Set.ncard_sdiff_singleton_add_one hheld (Set.toFinite _)
    have hone : s.constitutionalHolderCount.toNat ≠ 1 := fun hone => hlast (BitVec.eq_of_toNat_eq hone)
    have hpos := hs.pos
    constructor
    · rw [hholders]
      have := hs.count
      omega
    · omega
    · rw [hholders]
      exact fun hmem => hs.nonzero hmem.1
  · exact ⟨by rw [hcount, hholders, hs.count], hcount ▸ hs.pos, hholders ▸ hs.nonzero⟩

theorem Handed._revokeRole (hO : O.Documented) (hs : Handed H s)
    (h : SnapshotRoles._revokeRole H s role account = .ok s') : Handed H s' := by
  rcases _revokeRole_cases hO h with ⟨-, -, hholders, -, ⟨-, -, hhandoff⟩ | ⟨hother, hhandoff⟩⟩ |
    ⟨hholders, -, hhandoff⟩ <;> obtain ⟨htransferor, hsuccessor⟩ := Prod.ext_iff.mp hhandoff <;>
    dsimp only [handoff] at htransferor hsuccessor
  · exact ⟨fun hpending => absurd htransferor hpending, fun _ => hsuccessor⟩
  · constructor
    · rw [htransferor, hholders]
      exact fun hpending => ⟨hs.holds hpending, fun heq => hpending (hother heq.symm)⟩
    · rw [htransferor, hsuccessor]
      exact hs.idle
  · constructor
    · rw [htransferor, hholders]
      exact hs.holds
    · rw [htransferor, hsuccessor]
      exact hs.idle

structure Governed (H : Hashes) (s : State O) : Prop where
  counted : Counted H s
  handed : Handed H s

theorem Handed.cancel (hs : Handed H s) : _cancelPendingConstitutionalTransfer s =
    { s with pendingConstitutionalTransferor := 0, pendingConstitutionalSuccessor := 0 } := by
  unfold _cancelPendingConstitutionalTransfer
  split
  · rename_i hidle
    have hsuccessor := hs.idle hidle
    cases s
    dsimp only at hidle hsuccessor
    rw [hidle, hsuccessor]
  · rfl

theorem Governed.dropped (hs : Governed H s) : Governed H
    { s with pendingConstitutionalTransferor := 0, pendingConstitutionalSuccessor := 0 } where
  counted := ⟨hs.counted.count, hs.counted.pos, hs.counted.nonzero⟩
  handed := ⟨fun hpending => absurd rfl hpending, fun _ => rfl⟩

theorem Governed.proposeConstitutionalTransfer (hs : Governed H s) {successor : Address}
    (h : SnapshotRoles.proposeConstitutionalTransfer H sender s successor = .ok s') : Governed H s' := by
  obtain ⟨_, hrole, h⟩ := of_bind h
  have hsender : sender ∈ holders H s := onlyRole_eq_ok.mp hrole
  rw [ite_error_eq_ok] at h
  obtain ⟨-, h⟩ := h
  dsimp only at h
  rw [hs.handed.cancel] at h
  obtain rfl := ok_inj h
  constructor
  · exact ⟨hs.counted.count, hs.counted.pos, hs.counted.nonzero⟩
  · refine ⟨fun _ => hsender, fun hzero => ?_⟩
    dsimp only at hzero
    rw [hzero] at hsender
    exact absurd hsender hs.counted.nonzero

theorem Governed.cancelConstitutionalTransfer (hs : Governed H s)
    (h : SnapshotRoles.cancelConstitutionalTransfer H sender s = .ok s') : Governed H s' := by
  obtain ⟨_, -, h⟩ := of_bind h
  rw [ite_error_eq_ok] at h
  obtain ⟨-, h⟩ := h
  rw [hs.handed.cancel] at h
  obtain rfl := ok_inj h
  exact hs.dropped

theorem Governed.acceptConstitutionalTransfer (hO : O.Documented) (hs : Governed H s)
    (h : SnapshotRoles.acceptConstitutionalTransfer H sender s = .ok s') : Governed H s' := by
  unfold SnapshotRoles.acceptConstitutionalTransfer at h
  dsimp only at h
  rw [ite_error_eq_ok, ite_error_eq_ok] at h
  obtain ⟨-, -, h⟩ := h
  obtain ⟨granted, hgrant, hrevoke⟩ := of_bind h
  have hdropped := hs.dropped
  exact ⟨(hdropped.counted._grantRole hO hgrant)._revokeRole hO hrevoke,
    (hdropped.handed._grantRole hO hgrant)._revokeRole hO hrevoke⟩

theorem Governed.call (hO : O.Documented) (hs : Governed H s) {c : Call}
    (h : SnapshotRoles.call H sender s c = .ok s') : Governed H s' := by
  cases c with
  | proposeConstitutionalTransfer successor => exact hs.proposeConstitutionalTransfer h
  | cancelConstitutionalTransfer => exact hs.cancelConstitutionalTransfer h
  | acceptConstitutionalTransfer => exact hs.acceptConstitutionalTransfer hO h
  | grantRole role account =>
    obtain ⟨_, -, h⟩ := of_bind h
    exact ⟨hs.counted._grantRole hO h, hs.handed._grantRole hO h⟩
  | revokeRole role account =>
    obtain ⟨_, -, h⟩ := of_bind h
    exact ⟨hs.counted._revokeRole hO h, hs.handed._revokeRole hO h⟩
  | renounceRole role callerConfirmation =>
    have h := (of_guard h).2
    exact ⟨hs.counted._revokeRole hO h, hs.handed._revokeRole hO h⟩

theorem Governed.run (hO : O.Documented) (hs : Governed H s) (calls : List (Address × Call)) :
    Governed H (SnapshotRoles.run H s calls) :=
  Run.run_holds (fun _ _ _ hs h => hs.call hO (toOption_eq_some.mp h)) hs calls

theorem governed_of_constructor (hO : O.Documented) {constitutionalAdmin operationalAdmin : Address}
    (h : constructor H constitutionalAdmin operationalAdmin = .ok s) : Governed H s := by
  unfold constructor at h
  rw [ite_error_eq_ok] at h
  obtain ⟨-, h⟩ := h
  obtain ⟨t, hfirst, hsecond⟩ := of_bind h
  have hempty : ∀ r : O.Storage, (∀ role a, O.hasRole r role a = false) →
      holders H (⟨r, 0, 0, 0⟩ : State O) = ∅ := by
    intro r hr
    ext a
    simp only [Set.mem_empty_iff_false, iff_false]
    exact fun hmem => Bool.noConfusion ((hr _ a).symm.trans hmem)
  have hnone := hempty (O.setRoleAdmin (O.setRoleAdmin O.empty (CONSTITUTIONAL_ROLE H) (CONSTITUTIONAL_ROLE H))
    (OPERATIONAL_ROLE H) (CONSTITUTIONAL_ROLE H)) fun role a => by
      rw [hO.hasRole_setRoleAdmin, hO.hasRole_setRoleAdmin, hO.hasRole_empty]
  obtain ⟨hhandoff, ⟨hzero, -, hholders, hcount⟩ | ⟨hheld, -⟩⟩ := _grantRole_cases hO hfirst
  · obtain ⟨htransferor, hsuccessor⟩ := Prod.ext_iff.mp hhandoff
    dsimp only [handoff] at htransferor hsuccessor
    have hcounted : Counted H t := by
      constructor
      · rw [hholders, hnone, hcount, insert_empty_eq, Set.ncard_singleton]
        rfl
      · omega
      · rw [hholders, hnone, insert_empty_eq]
        exact hzero.symm
    have hhanded : Handed H t := ⟨fun hpending => absurd htransferor hpending, fun _ => hsuccessor⟩
    exact ⟨hcounted._grantRole hO hsecond, hhanded._grantRole hO hsecond⟩
  · have hmem := hheld rfl
    rw [hnone] at hmem
    exact hmem.elim

theorem onlyRole_eq_error {e : Error} (h : (onlyRole s role sender : Result Error Unit) = .error (.error e)) :
    e = .accessControlUnauthorizedAccount sender role := by
  rcases ite_error_eq_error.mp h with ⟨-, he⟩ | ⟨-, he⟩
  · exact (Revert.error.inj he).symm
  · exact nomatch he

theorem _grantRole_eq_error {e : Error} (h : _grantRole H s role account = .error (.error e)) :
    e = .zeroAddress := by
  unfold _grantRole at h
  rcases ite_error_eq_error.mp h with ⟨-, he⟩ | ⟨-, h⟩
  · exact (Revert.error.inj he).symm
  · dsimp only at h
    split at h
    · rcases bind_eq_error.mp h with he | ⟨count, -, he⟩
      · exact absurd he (arith_ne_error _ e)
      · exact nomatch he
    · exact nomatch h

theorem _revokeRole_eq_error {e : Error} (h : _revokeRole H s role account = .error (.error e)) :
    e = .lastConstitutionalHolder account := by
  unfold _revokeRole at h
  rcases ite_error_eq_error.mp h with ⟨-, he⟩ | ⟨-, h⟩
  · exact (Revert.error.inj he).symm
  · dsimp only at h
    split at h
    · rcases bind_eq_error.mp h with he | ⟨count, -, he⟩
      · exact absurd he (minus_ne_error _ _ e)
      · split at he
        · exact nomatch he
        · exact nomatch he
    · exact nomatch h

/-- The transferor of a pending handoff has not lost the role. Nothing is sent from the zero address. -/
theorem Governed.call_ne_lostRole (hs : Governed H s) (hsender : sender ≠ 0) (c : Call) (transferor : Address) :
    SnapshotRoles.call H sender s c ≠ .error (.error (.constitutionalTransferorLostRole transferor)) := by
  intro h
  cases c with
  | proposeConstitutionalTransfer successor =>
    rcases bind_eq_error.mp h with he | ⟨_, -, h⟩
    · exact absurd (onlyRole_eq_error he) (by simp)
    · rcases ite_error_eq_error.mp h with ⟨-, he⟩ | ⟨-, he⟩
      · exact absurd he (by simp)
      · exact absurd he (by simp)
  | cancelConstitutionalTransfer =>
    rcases bind_eq_error.mp h with he | ⟨_, -, h⟩
    · exact absurd (onlyRole_eq_error he) (by simp)
    · rcases ite_error_eq_error.mp h with ⟨-, he⟩ | ⟨-, he⟩
      · exact absurd he (by simp)
      · exact absurd he (by simp)
  | acceptConstitutionalTransfer =>
    rcases ite_error_eq_error.mp h with ⟨-, he⟩ | ⟨hsuccessor, h⟩
    · exact absurd he (by simp)
    -- the sender is the successor, so a handoff is pending and its transferor holds the role
    have hpending : s.pendingConstitutionalTransferor ≠ 0 := by
      intro hidle
      rw [ne_eq, not_not] at hsuccessor
      exact hsender (hsuccessor.trans (hs.handed.idle hidle))
    rcases ite_error_eq_error.mp h with ⟨hlost, -⟩ | ⟨-, h⟩
    · exact Bool.noConfusion (hlost.symm.trans (hs.handed.holds hpending))
    · rcases bind_eq_error.mp h with he | ⟨t, -, he⟩
      · exact absurd (_grantRole_eq_error he) (by simp)
      · exact absurd (_revokeRole_eq_error he) (by simp)
  | grantRole role account =>
    rcases bind_eq_error.mp h with he | ⟨_, -, he⟩
    · exact absurd (onlyRole_eq_error he) (by simp)
    · exact absurd (_grantRole_eq_error he) (by simp)
  | revokeRole role account =>
    rcases bind_eq_error.mp h with he | ⟨_, -, he⟩
    · exact absurd (onlyRole_eq_error he) (by simp)
    · exact absurd (_revokeRole_eq_error he) (by simp)
  | renounceRole role callerConfirmation =>
    rcases ite_error_eq_error.mp h with ⟨-, he⟩ | ⟨-, he⟩
    · exact absurd he (by simp)
    · exact absurd (_revokeRole_eq_error he) (by simp)

/-- In every state of the contract the counter counts the holders of the constitutional role, there is one,
a pending handoff is from a holder, and none is refused for the role of its transferor. -/
theorem constitutional_role_held (O : AccessControl) (hO : O.Documented) (H : Hashes)
    (constitutionalAdmin operationalAdmin : Address) (s₀ : State O)
    (hs₀ : constructor H constitutionalAdmin operationalAdmin = .ok s₀) (calls : List (Address × Call)) :
    let s := run H s₀ calls
    s.constitutionalHolderCount.toNat = Set.ncard {a | hasRole s (CONSTITUTIONAL_ROLE H) a = true} ∧
      1 ≤ s.constitutionalHolderCount.toNat ∧
      (s.pendingConstitutionalTransferor ≠ 0 →
        hasRole s (CONSTITUTIONAL_ROLE H) s.pendingConstitutionalTransferor = true) ∧
      ∀ (sender : Address) (c : Call) (transferor : Address), sender ≠ 0 →
        call H sender s c ≠ .error (.error (.constitutionalTransferorLostRole transferor)) := by
  intro s
  have h : Governed H s := (governed_of_constructor hO hs₀).run hO calls
  exact ⟨h.counted.count, h.counted.pos, h.handed.holds,
    fun sender c transferor hsender => h.call_ne_lostRole hsender c transferor⟩

namespace RolesExample

def constitutional : B256 := .ofNat 32 0xb56660dd973371aa322644c54be4634423657e5045bdfd9a7a3b0b7c2a3d507e

def operational : B256 := .ofNat 32 0x62b695a3da77363a912e609c01f7fcecee884e8b21968a4e6ff0be61056ea8c9

def hashes : Hashes where
  keccak256 s :=
    if s = utf8 "CONSTITUTIONAL_ROLE" then constitutional
    else if s = utf8 "OPERATIONAL_ROLE" then operational
    else 0
  sha256 _ := 0

def admin : Address := .replicate 20 1

def operator : Address := .replicate 20 2

def successor : Address := .replicate 20 3

def handover : List (Address × Call) :=
  [(admin, .renounceRole constitutional admin), (admin, .proposeConstitutionalTransfer successor),
    (successor, .acceptConstitutionalTransfer)]

end RolesExample

open RolesExample in
/-- After a handoff the successor is the one holder. -/
theorem constitutional_role_held_handover : ∃ s₀ : State AccessControl.mappings,
    constructor hashes admin operator = .ok s₀ ∧ (run hashes s₀ handover).constitutionalHolderCount = 1 ∧
      hasRole (run hashes s₀ handover) constitutional successor = true ∧
      hasRole (run hashes s₀ handover) constitutional admin = false ∧
      Set.ncard {a | hasRole (run hashes s₀ handover) (CONSTITUTIONAL_ROLE hashes) a = true} = 1 := by
  have hdeployed : ((constructor hashes admin operator :
      Result Error (State AccessControl.mappings)).toOption.map fun s =>
      let t := run hashes s handover
      (t.constitutionalHolderCount, hasRole t constitutional successor, hasRole t constitutional admin)) =
        some (1, true, false) := by
    decide +kernel
  obtain ⟨s₀, hs₀, hend⟩ := Option.map_eq_some_iff.mp hdeployed
  have hs₀ := toOption_eq_some.mp hs₀
  have hheld := constitutional_role_held AccessControl.mappings AccessControl.mappings_documented hashes
    admin operator s₀ hs₀ handover
  have hcount := congrArg Prod.fst hend
  have hnew := congrArg (Prod.fst ∘ Prod.snd) hend
  have hold := congrArg (Prod.snd ∘ Prod.snd) hend
  dsimp only [Function.comp_apply] at hcount hnew hold
  refine ⟨s₀, hs₀, hcount, hnew, hold, ?_⟩
  rw [← hheld.1, hcount]
  rfl

end Trustgraphs.SnapshotRoles
