import Trustgraphs.Contracts.Proofs.GovLifecycleProofs

/-!
# Executions

While a proposal is being executed, its actions may call the module again; but they cannot execute
the same proposal again, so its actions are given to the Safe one by one (`Performing`).
-/

namespace Trustgraphs.MerkleGovModule

open Evm List

section

variable {H : Hashes} {presented : Address → U256 → List B256 → Prop} {w w' : World} {ks : List Waiting}

structure Waits (k : Waiting) (w : World) : Prop where
  executed : (w.proposals k.proposalId).executed = true
  actions : k.actions = w.proposalActions k.proposalId
  index : k.index < k.actions.length
  performances : performances w.history k.proposalId = List.range (k.index + 1)
  executions : executions w.history k.proposalId = [w.blockNumber]

/-- The executions that wait are of different proposals, and the actions of each proposal are given to the Safe
in their order. -/
structure Performing (ks : List Waiting) (w : World) : Prop where
  nodup : (ks.map Waiting.proposalId).Nodup
  waits : ∀ k ∈ ks, Waits k w
  unexecuted : ∀ id, (w.proposals id).executed = false → performances w.history id = []
  bounded : ∀ id, ∃ n ≤ (w.proposalActions id).length, performances w.history id = List.range n
  executed : ∀ n ∈ w.history, ∀ id i, n.entry = .performed id i → n.blockNumber ∈ executions w.history id

theorem Effect.performances (heffect : Effect H presented w w') (id : U256) :
    performances w'.history id = performances w.history id := by
  cases heffect with
  | configured _ _ hhistory => rw [hhistory]
  | created => exact filterMap_append_none rfl
  | voted => exact filterMap_append_none rfl
  | delegated => exact filterMap_append_none rfl
  | replaced => exact filterMap_append_none rfl
  | executed => exact filterMap_append_none rfl
  | cancelled => exact filterMap_append_none rfl

variable {id : U256}

theorem Effect.proposalActions (heffect : Effect H presented w w') (hexisting : Existing w id) :
    w'.proposalActions id = w.proposalActions id := by
  cases heffect with
  | configured hregister => rw [show w'.proposalActions =
    w.proposalActions from congrArg Register.proposalActions hregister]
  | created proposalId proposal actions terms hid =>
    refine Function.update_of_ne ?_ ..
    rintro rfl
    have := hexisting.2
    omega
  | voted => rfl
  | delegated => rfl
  | replaced => rfl
  | executed => rfl
  | cancelled => rfl

theorem Effect.performed_mem (heffect : Effect H presented w w') {n : Noted} {i : ℕ}
    (hn : n ∈ w'.history) (hentry : n.entry = .performed id i) : n ∈ w.history := by
  have hcases : w'.history = w.history ∨ ∃ m, w'.history = w.history ++ [m] ∧ ∀ id i,
      m.entry ≠ .performed id i := by
    cases heffect with
    | configured _ _ hhistory => exact .inl hhistory
    | created => exact .inr ⟨_, rfl, fun _ _ => (nomatch ·)⟩
    | voted => exact .inr ⟨_, rfl, fun _ _ => (nomatch ·)⟩
    | delegated => exact .inr ⟨_, rfl, fun _ _ => (nomatch ·)⟩
    | replaced => exact .inr ⟨_, rfl, fun _ _ => (nomatch ·)⟩
    | executed => exact .inr ⟨_, rfl, fun _ _ => (nomatch ·)⟩
    | cancelled => exact .inr ⟨_, rfl, fun _ _ => (nomatch ·)⟩
  rcases hcases with hhistory | ⟨m, hhistory, hm⟩
  · exact hhistory ▸ hn
  · rw [hhistory, mem_append, mem_singleton] at hn
    rcases hn with hn | rfl
    · exact hn
    · exact absurd hentry (hm id i)

theorem Moved.mem_executions (h : Moved w w' id) {block : UInt64} (hb : block ∈ executions w.history id) :
    block ∈ executions w'.history id := by
  cases h with
  | same _ _ _ hexecutions => exact hexecutions ▸ hb
  | created _ _ _ _ _ _ hexecutions => exact hexecutions ▸ hb
  | tallied _ _ _ _ hexecutions => exact hexecutions ▸ hb
  | executed _ _ _ _ _ hexecutions =>
    rw [hexecutions]
    exact mem_append_left _ hb
  | cancelled _ _ _ _ _ hexecutions => exact hexecutions ▸ hb

theorem existing_of_executed (hsound : Sound w) (h : (w.proposals id).executed = true) : Existing w id := by
  by_contra hnew
  rw [(hsound id hnew).1] at h
  exact nomatch h

theorem Effect.waits {k : Waiting} (heffect : Effect H presented w w') (hsound : Sound w) (h : Waits k w) :
    Waits k w' := by
  obtain ⟨hproposal, hexecutions⟩ := (heffect.moved hsound k.proposalId).of_executed hsound h.executed
  refine ⟨?_, ?_, h.index, ?_, ?_⟩
  · rw [hproposal]
    exact h.executed
  · rw [heffect.proposalActions (existing_of_executed hsound h.executed)]
    exact h.actions
  · rw [heffect.performances]
    exact h.performances
  · rw [hexecutions, heffect.blockNumber]
    exact h.executions

theorem Effect.performing (heffect : Effect H presented w w') (hsound : Sound w) (h : Performing ks w) :
    Performing ks w' where
  nodup := h.nodup
  waits k hk := heffect.waits hsound (h.waits k hk)
  unexecuted id hunexecuted := by
    rw [heffect.performances]
    refine h.unexecuted id ?_
    by_contra hexecuted
    rw [Bool.not_eq_false] at hexecuted
    rw [((heffect.moved hsound id).of_executed hsound hexecuted).1] at hunexecuted
    exact nomatch hunexecuted.symm.trans hexecuted
  bounded id := by
    obtain ⟨n, hn, hrange⟩ := h.bounded id
    rw [heffect.performances]
    by_cases hexisting : Existing w id
    · rw [heffect.proposalActions hexisting]
      exact ⟨n, hn, hrange⟩
    · rw [(hsound id hexisting).2.1] at hn
      obtain rfl := Nat.le_zero.mp hn
      exact ⟨0, Nat.zero_le _, hrange⟩
  executed n hn id i hentry :=
    (heffect.moved hsound id).mem_executions (h.executed n (heffect.performed_mem hn hentry) id i hentry)

theorem Effects.performing (heffects : Effects H presented w w') (hsound : Sound w) (h : Performing ks w) :
    Performing ks w' := by
  induction heffects with
  | refl => exact h
  | tail hbefore heffect ih => exact heffect.performing (Effects.sound hbefore hsound) ih

theorem Performing.tail {k : Waiting} (h : Performing (k :: ks) w) : Performing ks w :=
  ⟨(nodup_cons.mp h.nodup).2, fun k' hk' => h.waits k' (mem_cons_of_mem _ hk'), h.unexecuted, h.bounded,
    h.executed⟩

theorem performances_self (history : List Noted) (block : UInt64) (id : U256) (i : ℕ) :
    performances (history ++ [⟨block, .performed id i⟩]) id = performances history id ++ [i] :=
  filterMap_append_some (if_pos rfl)

theorem performances_other (history : List Noted) (block : UInt64) {id' : U256} (i : ℕ) (h : id ≠ id') :
    performances (history ++ [⟨block, .performed id i⟩]) id' = performances history id' :=
  filterMap_append_none (if_neg h)

theorem executions_performed (history : List Noted) (block : UInt64) (id id' : U256) (i : ℕ) :
    executions (history ++ [⟨block, .performed id i⟩]) id' = executions history id' :=
  filterMap_append_none rfl

theorem Performing.push (h : Performing ks w) {i : ℕ} (hother : id ∉ ks.map Waiting.proposalId)
    (hexecuted : (w.proposals id).executed = true) (hexecutions : executions w.history id = [w.blockNumber])
    (hperformances : performances w.history id = List.range i) (hindex : i < (w.proposalActions id).length) :
    Performing (⟨id, w.proposalActions id, i⟩ :: ks) (w.note (.performed id i)) where
  nodup := nodup_cons.mpr ⟨hother, h.nodup⟩
  waits k hk := by
    rcases mem_cons.mp hk with rfl | hmem
    · refine ⟨hexecuted, rfl, hindex, ?_, (executions_performed ..).trans hexecutions⟩
      rw [range_succ, ← hperformances]
      exact performances_self ..
    · obtain ⟨hk₁, hk₂, hk₃, hk₄, hk₅⟩ := h.waits k hmem
      refine ⟨hk₁, hk₂, hk₃, (performances_other _ _ _ ?_).trans hk₄, (executions_performed ..).trans hk₅⟩
      rintro rfl
      exact hother (mem_map_of_mem hmem)
  unexecuted id' hunexecuted := by
    refine (performances_other _ _ _ ?_).trans (h.unexecuted id' hunexecuted)
    rintro rfl
    exact nomatch hexecuted.symm.trans hunexecuted
  bounded id' := by
    by_cases hid : id = id'
    · subst hid
      refine ⟨i + 1, hindex, ?_⟩
      rw [range_succ, ← hperformances]
      exact performances_self ..
    · obtain ⟨n, hn, hrange⟩ := h.bounded id'
      exact ⟨n, hn, (performances_other _ _ _ hid).trans hrange⟩
  executed n hn id' i' hentry := by
    change n ∈ w.history ++ [_] at hn
    show n.blockNumber ∈ executions (w.history ++ [_]) id'
    rw [executions_performed]
    rcases mem_append.mp hn with hn | hn
    · exact h.executed n hn id' i' hentry
    · obtain rfl := mem_singleton.mp hn
      obtain ⟨rfl, rfl⟩ := Entry.performed.inj hentry
      rw [hexecutions]
      exact mem_singleton_self _

theorem performing_preserved (H : Hashes) : CallStack.Preserved (contract H) (fun _ _ => True)
    fun ks w => Sound w ∧ Lawful w ∧ Performing ks w where
  enter i ks w _ h := by
    obtain ⟨hsound, hlawful, hperforming⟩ := h
    have hturn : EnterSpec H (fun _ _ _ => True) w (enter H i w) := enter_spec hsound i fun _ _ _ _ => trivial
    show CallStack.TurnHolds _ _ (enter H i w)
    cases hresult : enter H i w with
    | returned w' =>
      rw [hresult] at hturn
      exact ⟨Effects.sound hturn hsound, (keeps_lawful.effects hturn hsound hlawful).2,
        Effects.performing hturn hsound hperforming⟩
    | reverted e => trivial
    | waits w' k =>
      rw [hresult] at hturn
      obtain ⟨v, hbegin, hk, hindex, rfl⟩ := hturn
      obtain ⟨heffect, hv, hstate⟩ : Effect H (fun _ _ _ => True) w v ∧ _ := begin_eq_ok hbegin
      obtain ⟨hexisting, -, hunexecuted, -⟩ := state_eq_ok hstate
      have hsound' := heffect.sound hsound
      have hlawful' := heffect.lawful hsound hlawful
      have hperforming' := heffect.performing hsound hperforming
      have hexecuted : (v.proposals k.proposalId).executed = true := by
        rw [hv]
        show (Function.update w.proposals k.proposalId _ k.proposalId).executed = true
        rw [Function.update_self]
      have hexecutions : executions v.history k.proposalId = [v.blockNumber] := by
        rw [hv]
        show executions (w.history ++ [⟨w.blockNumber, .executed k.proposalId⟩]) k.proposalId = [w.blockNumber]
        have happend : executions (w.history ++ [⟨w.blockNumber, .executed k.proposalId⟩]) k.proposalId =
            executions w.history k.proposalId ++ [w.blockNumber] := filterMap_append_some (if_pos rfl)
        rw [happend, hlawful.unexecuted _ hunexecuted, nil_append]
      have hperformances : performances v.history k.proposalId = List.range 0 := by
        rw [heffect.performances, hperforming.unexecuted _ hunexecuted, range_zero]
      have hother : k.proposalId ∉ ks.map Waiting.proposalId := by
        intro hmem
        obtain ⟨k', hk', hid⟩ := mem_map.mp hmem
        have hwaits := (hperforming.waits k' hk').executed
        rw [hid] at hwaits
        exact nomatch hunexecuted.symm.trans hwaits
      have hpush := hperforming'.push hother hexecuted hexecutions hperformances (by
        rw [hk] at hindex
        exact hindex)
      rw [← hk] at hpush
      exact ⟨hsound', (keeps_lawful : Keeps H (fun _ _ _ => True) Lawful).performed _ _ hlawful', hpush⟩
  resume k ks a w _ h := by
    obtain ⟨hsound, hlawful, hperforming⟩ := h
    have hturn := resume_spec k a w
    show CallStack.TurnHolds _ _ (resume k a w)
    cases hresult : resume k a w with
    | returned w' =>
      rw [hresult] at hturn
      obtain rfl : w' = w := hturn
      exact ⟨hsound, hlawful, hperforming.tail⟩
    | reverted e => trivial
    | waits w' k' =>
      rw [hresult] at hturn
      obtain ⟨rfl, hindex, rfl⟩ := hturn
      have hk := hperforming.waits k mem_cons_self
      have hpush := hperforming.tail.push (nodup_cons.mp hperforming.nodup).1 hk.executed hk.executions
        hk.performances (hk.actions ▸ hindex)
      rw [← hk.actions] at hpush
      exact ⟨hsound, (keeps_lawful : Keeps H (fun _ _ _ => True) Lawful).performed _ _ hlawful, hpush⟩
  outside r ks w _ h := by
    obtain ⟨hsound, hlawful, hperforming⟩ := h
    have heffect : Effect H (fun _ _ _ => True) w ((contract H).outside r w) := .configured rfl rfl rfl
    exact ⟨heffect.sound hsound, heffect.lawful hsound hlawful, heffect.performing hsound hperforming⟩
  between b w w' _ h hb := by
    obtain ⟨hsound, hlawful, hperforming⟩ := h
    obtain ⟨hsound', -, hw'⟩ := hsound.advance hb
    refine ⟨hsound', (keeps_lawful : Keeps H (fun _ _ _ => True) Lawful).between hb hlawful, ?_⟩
    rw [hw']
    exact ⟨nodup_nil, fun k hk => absurd hk not_mem_nil, hperforming.unexecuted, hperforming.bounded,
      hperforming.executed⟩

theorem run_performing (H : Hashes) (hstart : Start w) (events : List Event) :
    Sound (run H w events).world ∧ Lawful (run H w events).world ∧
      Performing (CallStack.waiting (run H w events).frames) (run H w events).world := by
  obtain ⟨hsound, hhistory, hregister⟩ := hstart.sound
  have hperforming : Performing [] w := by
    refine ⟨nodup_nil, fun k hk => absurd hk not_mem_nil, fun id _ => ?_, fun id => ⟨0, Nat.zero_le _, ?_⟩,
      fun n hn => ?_⟩
    · rw [hhistory]
      rfl
    · rw [hhistory]
      rfl
    · rw [hhistory] at hn
      exact absurd hn not_mem_nil
  exact (CallStack.run_holds (performing_preserved H) ⟨hsound, hstart.lawful, hperforming⟩
    (CallStack.allowed_true w events)).world

theorem run_later (H : Hashes) (hstart : Start w) (events more : List Event)
    (hframes : (run H w events).frames = []) :
    Later (run H w events).world (run H w (events ++ more)).world := by
  have hrun : run H w (events ++ more) = run H (run H w events).world more := by
    show CallStack.run (contract H) w (events ++ more) = _
    rw [CallStack.run_append]
    change more.foldl _ (run H w events) = _
    rw [CallStack.eq_of_frames_nil hframes]
    rfl
  rw [hrun]
  have hpresented : Presented (fun _ _ _ => True) more := fun _ _ _ _ _ _ _ => trivial
  exact (keeps_later.run_holds (H := H) (run_performing H hstart events).1 (Later.refl _) hpresented).2

theorem state_congr (hregister : w'.toRegister = w.toRegister)
    (hblock : w'.blockNumber = w.blockNumber) (id : U256) :
    state w' id = state w id := by
  have hproposals : w'.proposals = w.proposals := congrArg Register.proposals hregister
  have hcount : w'.proposalCount = w.proposalCount := congrArg Register.proposalCount hregister
  rw [state, state, hproposals, hcount, hblock]

/-- Along a run: a proposal is executed once at most, after the delay of its creation and within the window of its
creation, when the vote has carried it, and its actions are given to the Safe once at most and at that time; from
between two transactions on, its terms stay, its tallies stay when the voting has ended, its state moves forward,
and it is not executed when it is closed; and no setter, nor a change of the roles, changes what its state is at
any block. -/
theorem run_lifecycle (H : Hashes) (w : World) (hstart : Start w) (events : List Event) (id : U256) :
    let v := (run H w events).world
    ((executions v.history id).length ≤ 1 ∧
      (∃ n ≤ (v.proposalActions id).length, performances v.history id = List.range n) ∧
      (∀ n ∈ v.history, ∀ i, n.entry = .performed id i → n.blockNumber ∈ executions v.history id) ∧
      ∀ block ∈ executions v.history id, ∃ created terms, creations v.history id = [(created, terms)] ∧
        (v.proposals id).Has created.toNat terms ∧ (v.proposals id).Carried ∧
        (v.proposals id).endBlock.toNat + terms.executionDelay.toNat < block.toNat ∧
        block.toNat ≤ (v.proposals id).endBlock.toNat + terms.executionDelay.toNat + EXECUTION_WINDOW.toNat) ∧
    ((run H w events).frames = [] → Existing v id → ∀ more,
      let v' := (run H w (events ++ more)).world
      (v'.proposals id).fixed = (v.proposals id).fixed ∧
      ((v.proposals id).endBlock.toNat < v.blockNumber.toNat →
        (v'.proposals id).unflagged = (v.proposals id).unflagged) ∧
      (∀ s s', state v id = .ok s → state v' id = .ok s' → s.canBecome s' = true) ∧
      ∀ s, state v id = .ok s → s.Closed → ∃ e, execute v' id = .reverted e) ∧
    (∀ env c v', c.Sets → enter H (env, c) v = .returned v' → v'.proposals id = v.proposals id ∧
      ∀ blockNumber, state { v' with blockNumber := blockNumber } id = state
        { v with blockNumber := blockNumber } id) ∧
    ∀ roles blockNumber, state { (contract H).outside roles v with blockNumber := blockNumber } id =
      state { v with blockNumber := blockNumber } id := by
  intro v
  obtain ⟨hsound, hlawful, hperforming⟩ := run_performing H hstart events
  refine ⟨⟨?_, hperforming.bounded id, fun n hn i => hperforming.executed n hn id i, fun block hblock => ?_⟩,
    fun hframes hexisting more => ?_, fun env c v' hc hturn => ?_, fun roles blockNumber => state_congr rfl rfl id⟩
  · cases hexecuted : (v.proposals id).executed with
    | false =>
      rw [hlawful.unexecuted id hexecuted]
      exact Nat.zero_le _
    | true =>
      obtain ⟨block, hexecutions, -⟩ := hlawful.executed id hexecuted
      rw [hexecutions]
      exact le_rfl
  · cases hexecuted : (v.proposals id).executed with
    | false =>
      rw [hlawful.unexecuted id hexecuted] at hblock
      exact absurd hblock not_mem_nil
    | true =>
      obtain ⟨block', hexecutions, hdue⟩ := hlawful.executed id hexecuted
      rw [hexecutions, mem_singleton] at hblock
      subst hblock
      obtain ⟨created, terms, hcreations, hterms⟩ := hlawful.created id (existing_of_executed hsound hexecuted)
      have hterms : (v.proposals id).Has created.toNat terms := hterms
      refine ⟨created, terms, hcreations, hterms, hdue.carried, ?_, ?_⟩
      · have hlate : (v.proposals id).executionDeadlineBlock.toNat < _ := hdue.late
        rw [hterms.executionDeadlineBlock] at hlate
        omega
      · rw [← hterms.executionDeadlineBlock]
        exact hdue.early
  · have hlater : Later v _ := run_later H hstart events more hframes
    exact ⟨hlater.fixed id hexisting, hlater.ended id hexisting, fun s s' hs hs' => hlater.canBecome hs hs',
      fun s hs hclosed => hlater.execute hs hclosed⟩
  · obtain ⟨hregister, -, -⟩ := hc.enter hturn
    refine ⟨congrFun (congrArg Register.proposals hregister) id, fun blockNumber => ?_⟩
    refine state_congr ?_ ?_ id
    · exact hregister
    · rfl

end

namespace GovExample

def executing : List Event :=
  [call member1 (.proposeWithVote args .yes), .between 101,
    call member2 (.castVote 1 .yes 20 [OzMerkle.Example.leaf1]),
    .between 57702, call delegate (.execute 1), .answer (some true)]

theorem executing_state : (constructed.toOption.map fun w =>
    let v := (run hashes w executing).world
    ((run hashes w executing).frames.length, v.proposalCount, (state v 1).toOption, executions v.history 1)) =
    some (0, 1, some .executed, [57702]) := by
  decide +kernel

end GovExample

open GovExample in
/-- A proposal that was executed is not executed again, at whatever later block. -/
theorem run_lifecycle_executed : ∃ w, Start w ∧ 57702 ∈ executions (run hashes w executing).world.history 1 ∧
    ∀ blockNumber, ∃ e, execute (run hashes w (executing ++ [.between blockNumber])).world 1 = .reverted e := by
  obtain ⟨w, hw, hstart⟩ := exists_start
  have h := executing_state
  rw [hw] at h
  obtain ⟨hframes, h⟩ := Prod.mk.inj (Option.some.inj h)
  obtain ⟨hcount, h⟩ := Prod.mk.inj h
  obtain ⟨hstate, hexecutions⟩ := Prod.mk.inj h
  have hexisting : Existing (run hashes w executing).world 1 := by
    rw [Existing, hcount]
    decide
  refine ⟨w, hstart, by rw [hexecutions]; exact mem_singleton_self _, fun blockNumber => ?_⟩
  exact ((run_lifecycle hashes w hstart executing 1).2.1 (length_eq_zero_iff.mp hframes) hexisting
    [.between blockNumber]).2.2.2 .executed (Outcome.toOption_eq_some.mp hstate) (.inr (.inr (.inr rfl)))

end Trustgraphs.MerkleGovModule
