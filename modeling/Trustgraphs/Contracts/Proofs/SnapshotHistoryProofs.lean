import Trustgraphs.Contracts.Proofs.SnapshotRunProofs

/-!
# The history of a snapshot is append-only and consistent in time

What a checkpoint was frozen and pinned under stays (`SameCheckpoints`), so a submission is proved under
the params hash of its trigger, however late it comes (`pinned_of_submission`).
-/

namespace Trustgraphs

open Outcome Function Option

namespace SnapshotWorld

open MerkleSnapshot

variable {H : Hashes} {self : Address} {i : Input} {w w' : World} {env : BlockEnv}

/-- The checkpoints of `w` are still there, under the params hash that was pinned. -/
structure SameCheckpoints (w w' : World) : Prop where
  next : w.snapshot.nextCheckpointId ≤ w'.snapshot.nextCheckpointId
  pinned : ∀ id < w.snapshot.nextCheckpointId,
    w'.snapshot.checkpointParamsHash id = w.snapshot.checkpointParamsHash id
  frozen : ∀ id < w.snapshot.nextCheckpointId, w'.lane.checkpoints[id]? = w.lane.checkpoints[id]?

theorem SameCheckpoints.refl (w : World) : SameCheckpoints w w := ⟨le_rfl, fun _ _ => rfl, fun _ _ => rfl⟩

theorem SameCheckpoints.trans {w'' : World} (h : SameCheckpoints w w') (h' : SameCheckpoints w' w'') :
    SameCheckpoints w w'' where
  next := h.next.trans h'.next
  pinned id hid := (h'.pinned id (hid.trans_le h.next)).trans (h.pinned id hid)
  frozen id hid := (h'.frozen id (hid.trans_le h.next)).trans (h.frozen id hid)

theorem Triggered.next_eq {anchors : AnchorView} {view : LaneView}
    (h : Triggered H self env anchors view w w') :
    w'.snapshot.nextCheckpointId = w.snapshot.nextCheckpointId + 1 ∧
      w'.snapshot.checkpointParamsHash = update w.snapshot.checkpointParamsHash
        w.snapshot.nextCheckpointId w.snapshot.paramsHash := by
  obtain ⟨boundary, -, hs⟩ := h.pinned
  rw [hs]
  exact ⟨rfl, rfl⟩

theorem Triggered.frozen {anchors : AnchorView} {view : LaneView} (h : Triggered H self env anchors view w w') :
    ∃ c, w'.lane.checkpoints[w.snapshot.nextCheckpointId]? = some c ∧
      c.blockNumber = UInt64.ofNat env.blockNumber.toNat := by
  obtain ⟨lane, hminted, hlanes⟩ := h.minted
  obtain ⟨acc, -, hfrozen⟩ := hminted.frozen
  have haccumulator : w'.snapshot.accumulator = w.snapshot.accumulator := by rw [h.history_eq]
  have hlane : w'.lane = lane := by rw [World.lane, hlanes, haccumulator, update_self]
  refine ⟨⟨acc, w.lane.leafCount H view, UInt64.ofNat env.blockNumber.toNat⟩, ?_, rfl⟩
  rw [hlane, hfrozen, hminted.id_eq, List.getElem?_concat_length]

theorem Effect.sameCheckpoints {c : Call} (hw : Inv self w) (hsender : env.sender ≠ self)
    (h : Effect H self env w w' c) : SameCheckpoints w w' := by
  cases h with
  | triggered anchors view h =>
    obtain ⟨hnext, hpinned⟩ := h.next_eq
    refine ⟨by omega, fun id hid => ?_, fun id hid => ?_⟩
    · rw [hpinned, update_of_ne (by omega)]
    · have hlength := (hw.owned (by omega)).length
      have hget := List.getElem?_eq_getElem (l := w.lane.checkpoints) (i := id) (by omega)
      rw [hget]
      exact h.getElem? hget
  | submitted v p c index hlanes h =>
    refine ⟨?_, fun id _ => ?_, fun id _ => ?_⟩
    · rw [h.toState]
    · rw [h.toState]
    · rw [Submitted.lane_eq hlanes h]
  | governed _ h =>
    refine ⟨?_, fun id _ => ?_, fun id hid => ?_⟩
    · rw [h.kept.nextCheckpointId]
    · rw [h.kept.checkpointParamsHash]
    · rw [(h.lane_eq hw (by omega)).2]
  | lane address view c l hsnapshot hlanes h =>
    refine ⟨?_, fun id _ => ?_, fun id hid => ?_⟩
    · rw [hsnapshot]
    · rw [hsnapshot]
    · rw [(lane_call_eq hw hsender (by omega) h hsnapshot hlanes).2]

theorem step_sameCheckpoints (hw : Inv self w) (h : step H self i w = some w') : SameCheckpoints w w' := by
  obtain ⟨hle, -, hsender, heffect⟩ := step_cases h
  have hadvanced : Inv self (w.advance i.block) := hw.advance hle
  have hsame := heffect.sameCheckpoints hadvanced hsender
  exact ⟨hsame.next, hsame.pinned, hsame.frozen⟩

theorem run_sameCheckpoints (hw : Inv self w) (is : List Input) : SameCheckpoints w (run H self w is) := by
  have h : Inv self (run H self w is) ∧ SameCheckpoints w (run H self w is) :=
    Run.run_holds (P := fun t => Inv self t ∧ SameCheckpoints w t)
      (fun _ _ _ hs h => ⟨step_inv hs.1 h, hs.2.trans (step_sameCheckpoints hs.1 h)⟩)
      ⟨hw, SameCheckpoints.refl _⟩ is
  exact h.2

theorem step_next (h : step H self i w = some w')
    (hnext : w'.snapshot.nextCheckpointId ≠ w.snapshot.nextCheckpointId) :
    ∃ anchors view, i.call = .trigger anchors view ∧ (w.advance i.block).trigger H self i.env anchors view =
        .ok (w', w.snapshot.nextCheckpointId) ∧
      Triggered H self i.env anchors view (w.advance i.block) w' := by
  obtain ⟨-, -, -, heffect⟩ := step_cases h
  unfold step at h
  simp only [ite_none_left_eq_some] at h
  obtain ⟨-, -, h⟩ := h
  generalize hcall : i.call = c at heffect h
  cases heffect with
  | triggered anchors view htriggered =>
    obtain ⟨⟨w₁, id⟩, htrigger, rfl⟩ := map_eq_some_iff.mp h
    have htrigger' := toOption_eq_some.mp htrigger
    obtain ⟨-, hid, -⟩ := trigger_triggered htrigger'
    refine ⟨anchors, view, rfl, ?_, htriggered⟩
    rw [htrigger', hid]
    rfl
  | submitted v p c index hlanes hsubmitted =>
    rw [hsubmitted.toState] at hnext
    exact absurd rfl hnext
  | governed _ hgoverned =>
    rw [hgoverned.kept.nextCheckpointId] at hnext
    exact absurd rfl hnext
  | lane address view c l hsnapshot hlanes hl =>
    rw [hsnapshot] at hnext
    exact absurd rfl hnext

/-- The checkpoint `id` was triggered in the run `before` by an accepted input, at the block of the
checkpoint, when the params hash of the snapshot was `paramsHash`. -/
def TriggeredUnder (H : Hashes) (self : Address) (w₀ : World) (before : List Input) (id : Nat)
    (c : AttestationAccumulator.Checkpoint) (paramsHash : B256) : Prop :=
  ∃ earlier j since anchors view t, before = earlier ++ j :: since ∧ j.call = .trigger anchors view ∧
    ((run H self w₀ earlier).advance j.block).trigger H self j.env anchors view = .ok (t, id) ∧
    c.blockNumber = j.block ∧ paramsHash = (run H self w₀ earlier).snapshot.paramsHash

/-- Every checkpoint of a run was triggered in it, under the params hash that is pinned. -/
theorem triggeredUnder_of_run {w₀ : World} (hstart : Start self w₀) {before : List Input} {id : Nat}
    {c : AttestationAccumulator.Checkpoint} (hid : id < (run H self w₀ before).snapshot.nextCheckpointId)
    (hc : (run H self w₀ before).lane.checkpoints[id]? = some c) :
    TriggeredUnder H self w₀ before id c ((run H self w₀ before).snapshot.checkpointParamsHash id) := by
  have hnone : ¬ id < w₀.snapshot.nextCheckpointId := by
    obtain ⟨zk, params, accumulator, ca, oa, hconstructed⟩ := hstart.constructed
    unfold constructor fail at hconstructed
    obtain ⟨-, hconstructed⟩ := of_guard hconstructed
    obtain ⟨-, hconstructed⟩ := of_guard hconstructed
    rw [← ok_inj hconstructed]
    exact Nat.not_lt_zero id
  obtain ⟨earlier, j, since, t, hsplit, hbefore, hj, ht, -⟩ :=
    @Run.exists_onset _ _ (step H self) (fun t => id < t.snapshot.nextCheckpointId) _ _ hnone hid
  have hearlier : Inv self (run H self w₀ earlier) := run_inv hstart.inv earlier
  have hbefore' : (run H self w₀ earlier).snapshot.nextCheckpointId ≤ id := not_lt.mp hbefore
  obtain ⟨anchors, view, hcall, htrigger, htriggered⟩ := step_next hj (by
    have : (Run.run (step H self) w₀ earlier).snapshot.nextCheckpointId ≤ id := hbefore'
    omega)
  obtain ⟨hnext, hpinned⟩ := htriggered.next_eq
  have hnext' : t.snapshot.nextCheckpointId = (run H self w₀ earlier).snapshot.nextCheckpointId + 1 := hnext
  have hideq : id = (run H self w₀ earlier).snapshot.nextCheckpointId := by omega
  -- what the trigger froze and pinned is there at the end of the run
  have hrun : run H self w₀ before = run H self t since := by
    show Run.run (step H self) w₀ before = Run.run (step H self) t since
    rw [hsplit, Run.run_append, Run.run_cons, Run.apply_accepted hj]
  have hsame := run_sameCheckpoints (H := H) (step_inv hearlier hj) since
  rw [← hrun] at hsame
  obtain ⟨d, hd, hblock⟩ := htriggered.frozen
  have hcd : c = d := by
    have hfrozen := hsame.frozen id ht
    rw [hc, hideq] at hfrozen
    exact Option.some.inj (hfrozen.trans hd)
  refine ⟨earlier, j, since, anchors, view, t, hsplit, hcall, ?_, ?_, ?_⟩
  · rw [hideq]
    exact htrigger
  · rw [hcd, hblock]
    exact ofNat_uint256 j.block
  · rw [hsame.pinned id ht, hpinned, hideq]
    exact update_self ..

/-- An accepted submission: the checkpoint was triggered earlier in the run, and the proof was verified for
a journal that commits to the params hash of that moment. -/
def ProvedUnderPin (H : Hashes) (self : Address) (w₀ : World) (before : List Input) (i : Input)
    (v : VerifierView) (p : Submission) : Prop :=
  ∃ c paramsHash, (run H self w₀ before).lane.checkpoints[p.checkpointId]? = some c ∧
    TriggeredUnder H self w₀ before p.checkpointId c paramsHash ∧
    (submissionJournal H self i.env (run H self w₀ before).snapshot c p).paramsHash = paramsHash ∧
    v.verify p.proof
      (journalDigest H (submissionJournal H self i.env (run H self w₀ before).snapshot c p)) = true

theorem submitProof_of_step {v : VerifierView} {p : Submission} (h : step H self i w = some w')
    (hcall : i.call = .submitProof v p) :
    ∃ index c, (w.advance i.block).submitProof H self i.env v p = .ok (w', index) ∧
      Submitted H self i.env w.lane.checkpoints v p w.snapshot w'.snapshot c index := by
  unfold step at h
  simp only [ite_none_left_eq_some, hcall] at h
  obtain ⟨-, -, h⟩ := h
  obtain ⟨⟨w₁, index⟩, hw₁, rfl⟩ := map_eq_some_iff.mp h
  obtain ⟨⟨s, index'⟩, hsubmit, hpair⟩ := map_eq_ok.mp (toOption_eq_some.mp hw₁)
  obtain ⟨rfl, rfl⟩ := Prod.mk.inj hpair
  obtain ⟨c, hc⟩ := submitProof_submitted hsubmit
  exact ⟨index', c, toOption_eq_some.mp hw₁, hc⟩

theorem pinned_of_submission {w₀ : World} (hstart : Start self w₀) {before : List Input}
    {v : VerifierView} {p : Submission} (hcall : i.call = .submitProof v p)
    (h : step H self i (run H self w₀ before) = some w') : ProvedUnderPin H self w₀ before i v p := by
  obtain ⟨index, c, -, hsubmitted⟩ := submitProof_of_step h hcall
  have hinv : Inv self (run H self w₀ before) := run_inv hstart.inv before
  exact ⟨c, _, hsubmitted.frozen,
    triggeredUnder_of_run hstart (hinv.lt_of_pinned hsubmitted.pinned) hsubmitted.frozen, rfl,
    hsubmitted.verified⟩

/-- A state is written by an accepted submission of the run. -/
def WrittenBy (H : Hashes) (self : Address) (w₀ : World) (is : List Input) (index : Nat)
    (state : MerkleState) : Prop :=
  ∃ before i after v p w', is = before ++ i :: after ∧ i.call = .submitProof v p ∧
    step H self i (run H self w₀ before) = some w' ∧
    ((run H self w₀ before).advance i.block).submitProof H self i.env v p = .ok (w', index) ∧
    w'.snapshot.states index = state

theorem step_states (h : step H self i w = some w') (hno : ∀ v p, i.call ≠ .submitProof v p) :
    w'.snapshot.stateBlocks = w.snapshot.stateBlocks ∧ w'.snapshot.states = w.snapshot.states ∧
      w'.snapshot.hasAppliedCheckpoint = w.snapshot.hasAppliedCheckpoint ∧
      w'.snapshot.lastAppliedCheckpoint = w.snapshot.lastAppliedCheckpoint := by
  obtain ⟨-, -, -, heffect⟩ := step_cases h
  generalize i.call = c at heffect hno
  cases heffect with
  | triggered anchors view h =>
    rw [h.history_eq]
    exact ⟨rfl, rfl, rfl, rfl⟩
  | submitted v p _ _ _ _ => exact absurd rfl (hno v p)
  | governed _ h =>
    exact ⟨h.kept.stateBlocks, h.kept.states, h.kept.hasAppliedCheckpoint, h.kept.lastAppliedCheckpoint⟩
  | lane _ _ _ _ hsnapshot _ _ =>
    rw [hsnapshot]
    exact ⟨rfl, rfl, rfl, rfl⟩

theorem writtenBy_of_run {w₀ : World} (hstart : Start self w₀) (is : List Input) {index : Nat}
    (hindex : index < (run H self w₀ is).snapshot.stateBlocks.length) :
    WrittenBy H self w₀ is index ((run H self w₀ is).snapshot.states index) := by
  induction is using List.reverseRecOn with
  | nil =>
    have hnil : (run H self w₀ []).snapshot.stateBlocks = [] := by
      refine hstart.inv.unapplied ?_
      obtain ⟨zk, params, accumulator, ca, oa, hconstructed⟩ := hstart.constructed
      unfold constructor fail at hconstructed
      obtain ⟨-, hconstructed⟩ := of_guard hconstructed
      obtain ⟨-, hconstructed⟩ := of_guard hconstructed
      rw [← ok_inj hconstructed]
    rw [hnil] at hindex
    exact absurd hindex (Nat.not_lt_zero _)
  | append_singleton is i ih =>
    have hinv : Inv self (run H self w₀ is) := run_inv hstart.inv is
    have hrun : run H self w₀ (is ++ [i]) = Run.apply (step H self) (run H self w₀ is) i := by
      show Run.run (step H self) w₀ (is ++ [i]) = _
      rw [Run.run_append]
      rfl
    -- what an earlier submission wrote is still there
    have hearlier : index < (run H self w₀ is).snapshot.stateBlocks.length →
        (run H self w₀ (is ++ [i])).snapshot.states index = (run H self w₀ is).snapshot.states index →
        WrittenBy H self w₀ (is ++ [i]) index ((run H self w₀ (is ++ [i])).snapshot.states index) := by
      intro hlt hsame
      obtain ⟨before, j, after, v, p, w', hsplit, hcall, hj, hsubmit, hstate⟩ := ih hlt
      exact ⟨before, j, after ++ [i], v, p, w', by simp [hsplit], hcall, hj, hsubmit, hstate.trans hsame.symm⟩
    cases hi : step H self i (run H self w₀ is) with
    | none =>
      rw [Run.apply_refused hi] at hrun
      refine hearlier ?_ ?_
      · rw [hrun] at hindex
        exact hindex
      · rw [hrun]
    | some w' =>
      rw [Run.apply_accepted hi] at hrun
      rw [hrun] at hindex
      by_cases hcall : ∃ v p, i.call = .submitProof v p
      · obtain ⟨v, p, hcall⟩ := hcall
        obtain ⟨index', c, hsubmit, hsubmitted⟩ := submitProof_of_step hi hcall
        by_cases heq : index = index'
        · refine ⟨is, i, [], v, p, w', rfl, hcall, hi, ?_, ?_⟩
          · rw [heq]
            exact hsubmit
          · rw [hrun]
        · have hlast := (hsubmitted.filed.last hinv.history).2
          have hlength : w'.snapshot.stateBlocks.length ≤
              (run H self w₀ is).snapshot.stateBlocks.length + 1 := by
            rcases hsubmitted.filed.blocks with ⟨hblocks, -⟩ | ⟨hblocks, -⟩
            · rw [hblocks, List.length_append, List.length_singleton]
            · rw [hblocks]
              exact Nat.le_succ _
          refine hearlier (by omega) ?_
          rw [hrun, hsubmitted.filed.states, update_of_ne heq]
      · obtain ⟨hblocks, hstates, -⟩ := step_states hi fun v p h => hcall ⟨v, p, h⟩
        refine hearlier ?_ ?_
        · rw [hblocks] at hindex
          exact hindex
        · rw [hrun, hstates]

def Input.isSubmission (i : Input) : Bool :=
  match i.call with
  | .submitProof _ _ => true
  | _ => false

def World.lastApplied (w : World) : WithBot Nat :=
  if w.snapshot.hasAppliedCheckpoint = true then (w.snapshot.lastAppliedCheckpoint : WithBot Nat) else ⊥

theorem step_lastApplied (h : step H self i w = some w') :
    w.lastApplied ≤ w'.lastApplied ∧ (i.isSubmission = true → w.lastApplied < w'.lastApplied) := by
  by_cases hcall : ∃ v p, i.call = .submitProof v p
  · obtain ⟨v, p, hcall⟩ := hcall
    obtain ⟨index, c, -, hsubmitted⟩ := submitProof_of_step h hcall
    have hlt : w.lastApplied < w'.lastApplied := by
      unfold World.lastApplied
      rw [hsubmitted.hasAppliedCheckpoint, hsubmitted.lastAppliedCheckpoint, if_pos rfl]
      cases happlied : w.snapshot.hasAppliedCheckpoint with
      | true =>
        rw [if_pos rfl]
        exact WithBot.coe_lt_coe.mpr (hsubmitted.fresh happlied)
      | false =>
        rw [if_neg (by simp)]
        exact WithBot.bot_lt_coe _
    exact ⟨hlt.le, fun _ => hlt⟩
  · obtain ⟨-, -, happlied, hlast⟩ := step_states h fun v p h => hcall ⟨v, p, h⟩
    have hsame : w'.lastApplied = w.lastApplied := by
      unfold World.lastApplied
      rw [happlied, hlast]
    refine ⟨hsame.ge, fun hsubmission => ?_⟩
    unfold Input.isSubmission at hsubmission
    split at hsubmission
    · rename_i v p heq
      exact absurd ⟨v, p, heq⟩ hcall
    · exact absurd hsubmission (by simp)

theorem trigger_ne_unexpected (hw : Inv self w) {anchors : AnchorView} {view : LaneView}
    (expected actual : Nat) :
    w.trigger H self env anchors view ≠ .error (.error (.unexpectedCheckpointId expected actual)) := by
  intro h
  rcases trigger_eq_error (map_eq_error.mp h) with ⟨-, -, h⟩ | h | h | h | ⟨lane, id, hcheckpoint, hid, -⟩
  · exact absurd h (by simp)
  · exact absurd h (by simp)
  · exact absurd h (by simp)
  · exact absurd h (by simp)
  · have hminted := Lane.checkpoint_minted hcheckpoint
    refine hid (hminted.id_eq.trans ?_)
    by_cases hpos : 0 < w.snapshot.nextCheckpointId
    · exact (hw.owned hpos).length
    · have hnil : w.lane.checkpoints = [] :=
        hw.unminted w.snapshot.accumulator (.inr (by omega)) (.inr hminted.sender.symm)
      rw [hnil]
      exact (Nat.eq_zero_of_not_pos hpos).symm

theorem submitProof_ne_nonMonotonic (hw : Inv self w) {v : VerifierView} {p : Submission} (b last : U256) :
    w.submitProof H self env v p ≠ .error (.error (.nonMonotonicStateBlock b last)) := by
  intro h
  obtain ⟨c, hc, hlast, hlt, hfresh⟩ := submitProof_nonMonotonic (map_eq_error.mp h)
  have hle := hw.notAfter hfresh hc last hlast
  rw [BitVec.lt_def] at hlt
  rw [BitVec.le_def] at hle
  omega

/-- The history of a snapshot after a run from `w₀` is consistent in time, and it is final. -/
structure Consistent (H : Hashes) (address : Address) (w₀ : World) (is : List Input) : Prop where
  ascending : (run H address w₀ is).snapshot.stateBlocks.Pairwise (· < ·)
  index : ∀ i b, (run H address w₀ is).snapshot.stateBlocks[i]? = some b →
    (run H address w₀ is).snapshot.blockToStateIndex b = i
  block : ∀ b ∈ (run H address w₀ is).snapshot.stateBlocks, (run H address w₀ is).snapshot.stateBlocks[
      (run H address w₀ is).snapshot.blockToStateIndex b]? = some b
  reads : ∀ b, ReadsGreatest (run H address w₀ is).snapshot b
  /-- Later inputs do not change the answer for a block below the last one. -/
  stable : ∀ more b last, (run H address w₀ is).snapshot.stateBlocks.getLast? = some last → b < last →
    getStateAtBlock (run H address w₀ (is ++ more)).snapshot b =
      getStateAtBlock (run H address w₀ is).snapshot b
  /-- Nor an accepted checkpoint record. -/
  records : ∀ more id r, getAcceptedCheckpoint (run H address w₀ is).snapshot id = .ok r →
    getAcceptedCheckpoint (run H address w₀ (is ++ more)).snapshot id = .ok r
  /-- The ids that were applied, in the order of their submissions. -/
  applied : (Run.marks (step H address) Input.isSubmission World.lastApplied w₀ is).Pairwise (· < ·)
  written : ∀ index < (run H address w₀ is).snapshot.stateBlocks.length,
    WrittenBy H address w₀ is index ((run H address w₀ is).snapshot.states index)
  pinned : ∀ before (i : Input) after v p w', is = before ++ i :: after → i.call = .submitProof v p →
    step H address i (run H address w₀ before) = some w' → ProvedUnderPin H address w₀ before i v p
  expectedId : ∀ (i : Input) anchors view expected actual, (run H address w₀ is).block ≤ i.block →
    ((run H address w₀ is).advance i.block).trigger H address i.env anchors view ≠
      .error (.error (.unexpectedCheckpointId expected actual))
  monotonic : ∀ (i : Input) v p b last, (run H address w₀ is).block ≤ i.block →
    ((run H address w₀ is).advance i.block).submitProof H address i.env v p ≠
      .error (.error (.nonMonotonicStateBlock b last))

/-- After every run of triggers, submissions, governance and calls of the accumulators from a snapshot that
was just constructed, at blocks that do not go back: the recorded blocks ascend and the index is their
inverse; a read answers with the state of the greatest block that is not above the one asked for, or is
refused where there is none; what was answered below the last block, and the record of an accepted
checkpoint, never change; the applied ids rise; every state was written by a submission whose proof commits
to the params hash of the trigger of its checkpoint; no trigger finds another id than the expected one, and
no submission a later state. -/
theorem run_consistent (H : Hashes) (self : Address) (w₀ : World) (hstart : Start self w₀)
    (is : List Input) : Consistent H self w₀ is := by
  have hinv : ∀ is, Inv self (run H self w₀ is) := fun is => run_inv hstart.inv is
  have hextends : ∀ more, Extends (run H self w₀ is).snapshot (run H self w₀ (is ++ more)).snapshot := by
    intro more
    have hrun : run H self w₀ (is ++ more) = run H self (run H self w₀ is) more := Run.run_append w₀ is more
    rw [hrun]
    exact run_extends (hinv is) more
  have hhistory := (hinv is).history
  refine ⟨hhistory.ascending, hhistory.index, fun b hb => ?_, fun b => hhistory.readsGreatest b,
    fun more b last hlast hb => ?_, fun more id r hr => ?_, ?_, fun index hindex => ?_,
    fun before i after v p w' _ hcall h => ?_, fun i anchors view expected actual hblock => ?_,
    fun i v p b last hblock => ?_⟩
  · obtain ⟨i, hi⟩ := List.mem_iff_getElem?.mp hb
    rw [hhistory.index i b hi]
    exact hi
  · exact (hextends more).getStateAtBlock_eq hhistory (hinv _).history hlast hb
  · have haccepted : (run H self w₀ is).snapshot.acceptedCheckpoints id = true := by
      unfold getAcceptedCheckpoint fail at hr
      simpa using (of_guard hr).1
    rw [(hextends more).getAcceptedCheckpoint_eq haccepted]
    exact hr
  · exact Run.marks_pairwise (P := fun _ => True) (fun _ _ _ _ h => ⟨trivial, step_lastApplied h⟩) trivial is
  · exact writtenBy_of_run hstart is hindex
  · exact pinned_of_submission hstart hcall h
  · exact trigger_ne_unexpected ((hinv is).advance hblock) expected actual
  · exact submitProof_ne_nonMonotonic ((hinv is).advance hblock) b last

namespace HistoryExample

def contract : Address := .ofNat 20 0x53

def accumulator : Address := .ofNat 20 0x20

def binder : Address := .ofNat 20 0x55

def constitution : Address := .ofNat 20 0x54

def operator : Address := .ofNat 20 0x56

def prover : Address := .ofNat 20 0x57

def domain : B256 := .ofNat 32 0x9c418a1a75cd0dc2ad86d1f48af63ce4ea83ab7c3f3ce2dfcf1d40a4f0e90780

def cidDigest0 : B256 := .ofNat 32 0x7a75bcd51ac15708842a165bf24f817c39fb5c5e11d188f4d968c8acc7ac77ea

def cidDigest1 : B256 := .ofNat 32 0x11a3d5b968754c4f3def9b53ef29e98754afc88f7916f7927a43dba5f4dd5166

def digest0 : B256 := .ofNat 32 0xcd09166122ab22d4be18eed49a1e39829abd28c17e38ab381f69b39ed397fb36

def digest1 : B256 := .ofNat 32 0x01c24a2c0a20f995846609216846a114eb19c4c0a01d2622b2a886b386380c4d

def submission0 : Submission where
  checkpointId := 0
  outputRoot := .ofNat 32 0x61
  ipfsHash := .ofNat 32 0x62
  ipfsHashCid := utf8 "bafk0"
  totalValue := 100
  skippedDigest := 0
  recipient := prover
  proof := [1]

def submission1 : Submission where
  checkpointId := 1
  outputRoot := .ofNat 32 0x63
  ipfsHash := .ofNat 32 0x64
  ipfsHashCid := utf8 "bafk1"
  totalValue := 200
  skippedDigest := 0
  recipient := .ofNat 20 0x58
  proof := [2]

def journalOf (n : Nat) (cidDigest : B256) (p : Submission) : Journal where
  acc := 0
  leafCount := 0
  anchorAcc := 0
  anchorCount := 0
  paramsHash := .ofNat 32 n
  outputRoot := p.outputRoot
  ipfsHash := p.ipfsHash
  cidDigest := cidDigest
  totalValue := p.totalValue
  skippedDigest := 0
  recipient := p.recipient
  instanceDomain := domain

def hashes : Hashes where
  keccak256 s :=
    if s = wordAddr contract ++ wordU256 10 then domain
    else if s = utf8 "bafk0" then cidDigest0
    else if s = utf8 "bafk1" then cidDigest1
    else if s = journalEncoded (journalOf 1 cidDigest0 submission0) then digest0
    else if s = journalEncoded (journalOf 2 cidDigest1 submission1) then digest1
    else 0
  sha256 _ := 0

def verifier : VerifierView where
  verify proof digest := (proof = [1] ∧ digest = digest0) ∨ (proof = [2] ∧ digest = digest1)
  codehash := .ofNat 32 0x45
  programVKey := none

def view : LaneView := ⟨fun _ => none, fun _ => 0, ⟨fun _ => false, fun _ => none⟩⟩

def anchors : AnchorView := ⟨0, 0, none⟩

def input (block : UInt64) (sender : Address) (call : Call) : Input := ⟨block, 0, 10, sender, call⟩

def deployed : HistoryResult Storage :=
  constructor (.ofNat 20 0x44) (.ofNat 32 1) accumulator constitution operator

def start (s : Storage) : World := ⟨s, fun _ => .empty (EmptyLaneAccumulator.constructor binder), 0⟩

def inputs : List Input :=
  [input 5 binder (.lane accumulator view (.bindSnapshot contract accumulator)),
    input 5 constitution .enableStateProvenance,
    input 10 prover (.trigger anchors view),
    input 11 operator (.setParamsHash (.ofNat 32 2)),
    input 12 prover (.trigger anchors view),
    input 13 prover (.submitProof verifier submission0),
    input 15 prover (.submitProof verifier submission1)]

theorem recorded : (deployed.toOption.map fun s =>
    ((run hashes contract (start s) inputs).snapshot.stateBlocks,
      (run hashes contract (start s) inputs).snapshot.acceptedCheckpoints 1)) = some ([10, 12], true) := by
  decide +kernel

end HistoryExample

open HistoryExample in
theorem run_consistent_two_states : ∃ s, deployed = .ok s ∧
    (run hashes contract (start s) inputs).snapshot.stateBlocks = [10, 12] ∧
    (run hashes contract (start s) inputs).snapshot.acceptedCheckpoints 1 = true ∧
    Consistent hashes contract (start s) inputs := by
  obtain ⟨s, hs, hrecorded⟩ := Option.map_eq_some_iff.mp recorded
  have hdeployed : deployed = .ok s := toOption_eq_some.mp hs
  obtain ⟨hblocks, haccepted⟩ := Prod.mk.inj hrecorded
  have hstart : Start contract (start s) := ⟨⟨_, _, _, _, _, hdeployed⟩, fun _ _ => rfl⟩
  exact ⟨s, hdeployed, hblocks, haccepted, run_consistent hashes contract (start s) hstart inputs⟩

end SnapshotWorld

end Trustgraphs
