import Trustgraphs.Contracts.Proofs.HistoryProofs

/-!
# Runs of a snapshot over its lanes

The checkpoints that exist are those of the snapshot, in the order of their blocks, and the last
recorded state is the one of the checkpoint that was applied last (`Inv`).
-/

namespace Trustgraphs

open Outcome Function List

theorem MerkleSnapshot.toNat_uint256 (b : UInt64) : (MerkleSnapshot.uint256 b).toNat = b.toNat := by
  rw [MerkleSnapshot.uint256, BitVec.toNat_ofNat]
  exact Nat.mod_eq_of_lt (b.toNat_lt.trans (by decide))

theorem MerkleSnapshot.ofNat_uint256 (b : UInt64) : UInt64.ofNat (MerkleSnapshot.uint256 b).toNat = b := by
  rw [MerkleSnapshot.toNat_uint256, UInt64.ofNat_toNat]

namespace SnapshotWorld

open MerkleSnapshot

variable {H : Hashes} {self : Address} {i : Input} {w w' : World} {env : BlockEnv}

/-- The accumulator belongs to the snapshot: it holds the checkpoints that were triggered, in order. -/
structure Owned (address : Address) (w : World) : Prop where
  bound : w.lane.snapshot = address
  nonzero : address ≠ 0
  length : w.lane.checkpoints.length = w.snapshot.nextCheckpointId
  ordered : w.lane.checkpoints.Pairwise fun c d => c.blockNumber ≤ d.blockNumber
  past : ∀ c ∈ w.lane.checkpoints, c.blockNumber ≤ w.block

structure Inv (address : Address) (w : World) : Prop where
  history : History w.snapshot
  paramsHash : w.snapshot.paramsHash ≠ 0
  /-- Nothing is pinned for a checkpoint that does not exist. -/
  unpinned : ∀ id, w.snapshot.nextCheckpointId ≤ id → w.snapshot.checkpointParamsHash id = 0
  unanchored : ∀ id, w.snapshot.nextCheckpointId ≤ id → w.snapshot.anchorCheckpoints id = ⟨0, 0⟩
  /-- The other lanes of the snapshot are still empty. -/
  unminted : ∀ a, a ≠ w.snapshot.accumulator ∨ w.snapshot.nextCheckpointId = 0 → (w.lanes a).Unminted address
  owned : 0 < w.snapshot.nextCheckpointId → Owned address w
  unapplied : w.snapshot.hasAppliedCheckpoint = false → w.snapshot.stateBlocks = []
  applied : w.snapshot.hasAppliedCheckpoint = true →
    ∃ c, w.lane.checkpoints[w.snapshot.lastAppliedCheckpoint]? = some c ∧
      w.snapshot.lastAppliedCheckpoint < w.snapshot.nextCheckpointId ∧
      w.snapshot.stateBlocks.getLast? = some (uint256 c.blockNumber)
  accepted : ∀ id, w.snapshot.acceptedCheckpoints id = true →
    w.snapshot.hasAppliedCheckpoint = true ∧ id ≤ w.snapshot.lastAppliedCheckpoint

theorem Start.inv (h : Start self w) : Inv self w := by
  obtain ⟨zk, params, accumulator, ca, oa, hconstructed⟩ := h.constructed
  unfold constructor fail at hconstructed
  obtain ⟨-, hconstructed⟩ := of_guard hconstructed
  obtain ⟨hparams, hconstructed⟩ := of_guard hconstructed
  have hs := (ok_inj hconstructed).symm
  refine ⟨?_, ?_, ?_, ?_, fun a _ => h.unminted a, ?_, ?_, ?_, ?_⟩
  · exact History.nil (by rw [hs]) (by rw [hs])
  all_goals rw [hs]
  · exact hparams
  · exact fun _ _ => rfl
  · exact fun _ _ => rfl
  · exact fun hpos => absurd hpos (Nat.lt_irrefl 0)
  · exact fun _ => rfl
  · exact fun happlied => Bool.noConfusion happlied
  · exact fun _ hid => Bool.noConfusion hid

theorem Inv.advance (h : Inv self w) {block : UInt64} (hblock : w.block ≤ block) :
    Inv self (w.advance block) where
  history := h.history
  paramsHash := h.paramsHash
  unpinned := h.unpinned
  unanchored := h.unanchored
  unminted := h.unminted
  owned hpos := by
    have howned := h.owned hpos
    exact ⟨howned.bound, howned.nonzero, howned.length, howned.ordered,
      fun c hc => UInt64.le_trans (howned.past c hc) hblock⟩
  unapplied := h.unapplied
  applied := h.applied
  accepted := h.accepted

variable {anchors : AnchorView} {view : LaneView} {c : Call}

/-- The lane that a trigger freezes is the snapshot's own, and the checkpoint is the next one. -/
theorem Triggered.owned (hw : Inv self w)
    (henv : env.blockNumber = uint256 w.block) (hblock : w'.block = w.block)
    (h : Triggered H self env anchors view w w') : Owned self w' := by
  obtain ⟨lane, hminted, hlanes⟩ := h.minted
  obtain ⟨boundary, -, hs⟩ := h.pinned
  obtain ⟨acc, -, hfrozen⟩ := hminted.frozen
  have hbound : w.lane.snapshot = self := hminted.sender.symm
  have haccumulator : w'.snapshot.accumulator = w.snapshot.accumulator := by rw [hs]
  have hlane : w'.lane = lane := by rw [World.lane, hlanes, haccumulator, update_self]
  have hnext : w'.snapshot.nextCheckpointId = w.snapshot.nextCheckpointId + 1 := by
    rw [hs]
    rfl
  have hold : w.lane.checkpoints.Pairwise (fun c d => c.blockNumber ≤ d.blockNumber) ∧
      ∀ c ∈ w.lane.checkpoints, c.blockNumber ≤ w.block := by
    by_cases hpos : 0 < w.snapshot.nextCheckpointId
    · exact ⟨(hw.owned hpos).ordered, (hw.owned hpos).past⟩
    · have hnil : w.lane.checkpoints = [] := by
        rw [← length_eq_zero_iff, ← hminted.id_eq]
        omega
      rw [hnil]
      exact ⟨.nil, fun c hc => absurd hc not_mem_nil⟩
  refine ⟨?_, hbound ▸ hminted.bound, ?_, ?_, ?_⟩
  · rw [hlane, hminted.snapshot, hbound]
  · rw [hlane, hnext, hfrozen, length_append, ← hminted.id_eq]
    rfl
  · rw [hlane, hfrozen, pairwise_append]
    refine ⟨hold.1, pairwise_singleton .., fun c hc d hd => ?_⟩
    rw [List.mem_singleton.mp hd]
    show c.blockNumber ≤ UInt64.ofNat env.blockNumber.toNat
    rw [henv, ofNat_uint256]
    exact hold.2 c hc
  · rw [hlane, hfrozen, hblock]
    intro c hc
    rcases mem_append.mp hc with hc | hc
    · exact hold.2 c hc
    · rw [List.mem_singleton.mp hc]
      show UInt64.ofNat env.blockNumber.toNat ≤ w.block
      rw [henv, ofNat_uint256]
      exact UInt64.le_refl _

theorem Triggered.history_eq (h : Triggered H self env anchors view w w') :
    w'.snapshot = { w.snapshot with toState := w'.snapshot.toState } := by
  obtain ⟨boundary, -, hs⟩ := h.pinned
  rw [hs]

theorem Triggered.getElem?
    (h : Triggered H self env anchors view w w') {id : Nat} {c : AttestationAccumulator.Checkpoint}
    (hc : w.lane.checkpoints[id]? = some c) : w'.lane.checkpoints[id]? = some c := by
  obtain ⟨lane, hminted, hlanes⟩ := h.minted
  obtain ⟨acc, -, hfrozen⟩ := hminted.frozen
  have haccumulator : w'.snapshot.accumulator = w.snapshot.accumulator := by rw [h.history_eq]
  have hlane : w'.lane = lane := by rw [World.lane, hlanes, haccumulator, update_self]
  rw [hlane, hfrozen, getElem?_append_left (List.getElem?_eq_some_iff.mp hc).1, hc]

theorem Triggered.inv (hw : Inv self w) (henv : env.blockNumber = uint256 w.block) (hblock : w'.block = w.block)
    (h : Triggered H self env anchors view w w') : Inv self w' := by
  obtain ⟨boundary, -, hs⟩ := h.pinned
  obtain ⟨lane, hminted, hlanes⟩ := h.minted
  have hnext : w'.snapshot.nextCheckpointId = w.snapshot.nextCheckpointId + 1 := by
    rw [hs]
    rfl
  refine ⟨?_, ?_, ?_, ?_, ?_, fun _ => h.owned hw henv hblock, ?_, ?_, ?_⟩
  · exact hw.history.congr (by rw [hs]) (by rw [hs]) (by rw [hs])
  · rw [hs]
    exact hw.paramsHash
  · intro id hid
    have hid' : w.snapshot.nextCheckpointId < id := by omega
    have hupdate : w'.snapshot.checkpointParamsHash =
        update w.snapshot.checkpointParamsHash w.snapshot.nextCheckpointId
          w.snapshot.paramsHash := by
      rw [hs]
      rfl
    rw [hupdate, update_of_ne (by omega)]
    exact hw.unpinned id hid'.le
  · intro id hid
    have hid' : w.snapshot.nextCheckpointId < id := by omega
    rw [hs]
    show (if _ then update _ _ _ else _ : Nat → AnchorCheckpoint) id = _
    split
    · rw [update_of_ne (by omega)]
      exact hw.unanchored id hid'.le
    · exact hw.unanchored id hid'.le
  · intro a ha
    have haccumulator : w'.snapshot.accumulator = w.snapshot.accumulator := by rw [hs]
    have hne : a ≠ w.snapshot.accumulator := by
      rcases ha with ha | ha
      · exact haccumulator ▸ ha
      · omega
    rw [hlanes, update_of_ne hne]
    exact hw.unminted a (.inl hne)
  · rw [h.history_eq]
    exact hw.unapplied
  · intro happlied
    rw [h.history_eq] at happlied
    obtain ⟨c, hc, hlt, hlast⟩ := hw.applied happlied
    refine ⟨c, ?_, ?_, ?_⟩
    · have hsame : w'.snapshot.lastAppliedCheckpoint = w.snapshot.lastAppliedCheckpoint := by rw [hs]
      rw [hsame]
      exact h.getElem? hc
    · rw [hnext, hs]
      exact Nat.lt_succ_of_lt hlt
    · rw [hs]
      exact hlast
  · rw [h.history_eq]
    exact hw.accepted

section Submission

variable {v : VerifierView} {p : Submission} {c : AttestationAccumulator.Checkpoint} {index : Nat}

theorem Inv.notAfter (hw : Inv self w)
    (hfresh : w.snapshot.hasAppliedCheckpoint = true → w.snapshot.lastAppliedCheckpoint < p.checkpointId)
    (hc : w.lane.checkpoints[p.checkpointId]? = some c) :
    NotAfter w.snapshot (uint256 c.blockNumber) := by
  intro last hlast
  cases happlied : w.snapshot.hasAppliedCheckpoint with
  | false =>
    rw [hw.unapplied happlied] at hlast
    exact absurd hlast (by simp)
  | true =>
    obtain ⟨d, hd, hlt, hlast'⟩ := hw.applied happlied
    obtain rfl := Option.some.inj (hlast.symm.trans hlast')
    obtain ⟨hi, hid⟩ := List.getElem?_eq_some_iff.mp hd
    obtain ⟨hj, hjc⟩ := List.getElem?_eq_some_iff.mp hc
    have hle := pairwise_iff_getElem.mp (hw.owned (by omega)).ordered _ _ hi hj (hfresh happlied)
    rw [hid, hjc, UInt64.le_iff_toNat_le] at hle
    rw [BitVec.le_def, toNat_uint256, toNat_uint256]
    exact hle

theorem Inv.lt_of_pinned (hw : Inv self w) {id : Nat}
    (hpinned : w.snapshot.checkpointParamsHash id ≠ 0) : id < w.snapshot.nextCheckpointId := by
  by_contra hge
  exact hpinned (hw.unpinned id (not_lt.mp hge))

theorem Submitted.lane_eq (hlanes : w'.lanes = w.lanes)
    (h : Submitted H self env w.lane.checkpoints v p w.snapshot w'.snapshot c index) :
    w'.lane = w.lane := by
  rw [World.lane, World.lane, hlanes, h.accumulator]

theorem Submitted.inv (hw : Inv self w) (hblock : w'.block = w.block) (hlanes : w'.lanes = w.lanes)
    (h : Submitted H self env w.lane.checkpoints v p w.snapshot w'.snapshot c index) : Inv self w' := by
  have hlane := Submitted.lane_eq hlanes h
  have hnotAfter : NotAfter w.snapshot (p.state env.blockTimestamp c).blockNumber :=
    hw.notAfter h.fresh h.frozen
  refine ⟨h.filed.history hw.history hnotAfter, ?_, ?_, ?_, ?_, fun hpos => ?_, ?_, fun _ => ?_,
    fun id hid => ?_⟩
  · rw [h.toState]
    exact hw.paramsHash
  · rw [h.toState]
    exact hw.unpinned
  · rw [h.toState]
    exact hw.unanchored
  · rw [h.accumulator, h.toState, hlanes]
    exact hw.unminted
  · rw [h.toState] at hpos
    have howned := hw.owned hpos
    refine ⟨?_, howned.nonzero, ?_, ?_, ?_⟩
    · rw [hlane]
      exact howned.bound
    · rw [hlane, h.toState]
      exact howned.length
    · rw [hlane]
      exact howned.ordered
    · rw [hlane, hblock]
      exact howned.past
  · rw [h.hasAppliedCheckpoint]
    exact fun hno => Bool.noConfusion hno
  · rw [hlane, h.lastAppliedCheckpoint, h.toState]
    exact ⟨c, h.frozen, hw.lt_of_pinned h.pinned, (h.filed.last hw.history).1⟩
  · refine ⟨h.hasAppliedCheckpoint, ?_⟩
    rw [h.lastAppliedCheckpoint]
    have hold : w.snapshot.acceptedCheckpoints id = true → id ≤ p.checkpointId := by
      intro hid
      obtain ⟨happlied, hle⟩ := hw.accepted id hid
      exact hle.trans (h.fresh happlied).le
    cases henabled : w.snapshot.provenanceEnabled with
    | true =>
      rw [(h.recorded henabled).1] at hid
      by_cases heq : id = p.checkpointId
      · exact heq.le
      · rw [update_of_ne heq] at hid
        exact hold hid
    | false =>
      rw [(h.unrecorded henabled).1] at hid
      exact hold hid

theorem Submitted.extends (hw : Inv self w)
    (h : Submitted H self env w.lane.checkpoints v p w.snapshot w'.snapshot c index) :
    Extends w.snapshot w'.snapshot := by
  refine ⟨?_, fun i hi => ?_, fun id hid => ?_⟩
  · rcases h.filed.blocks with ⟨hblocks, -⟩ | ⟨hblocks, -⟩
    · rw [hblocks]
      exact prefix_append ..
    · rw [hblocks]
  · have hlast := (h.filed.last hw.history).2
    have hlength : w.snapshot.stateBlocks.length ≤ w'.snapshot.stateBlocks.length := by
      rcases h.filed.blocks with ⟨hblocks, -⟩ | ⟨hblocks, -⟩
      · rw [hblocks, length_append]
        exact Nat.le_add_right ..
      · rw [hblocks]
    rw [h.filed.states, update_of_ne (by omega)]
  · obtain ⟨happlied, hle⟩ := hw.accepted id hid
    have hne : id ≠ p.checkpointId := by
      have := h.fresh happlied
      omega
    cases henabled : w.snapshot.provenanceEnabled with
    | true =>
      obtain ⟨haccepted, -, hstates, hprovenance⟩ := h.recorded henabled
      rw [haccepted, hstates, hprovenance, update_of_ne hne, update_of_ne hne, update_of_ne hne]
      exact ⟨hid, rfl, rfl⟩
    | false =>
      obtain ⟨haccepted, -, hstates, hprovenance⟩ := h.unrecorded henabled
      rw [haccepted, hstates, hprovenance]
      exact ⟨hid, rfl, rfl⟩

end Submission

theorem Kept.extends {s s' : Storage} (h : Kept s s') : Extends s s' := by
  refine ⟨?_, fun i _ => ?_, fun id hid => ?_⟩
  · rw [h.stateBlocks]
  · rw [h.states]
  · rw [h.acceptedCheckpoints, h.acceptedCheckpointStates, h.acceptedCheckpointProvenance]
    exact ⟨hid, rfl, rfl⟩

theorem Governed.lane_eq (hw : Inv self w) (hpos : 0 < w.snapshot.nextCheckpointId)
    (h : Governed env c w w') : w'.snapshot.accumulator = w.snapshot.accumulator ∧ w'.lane = w.lane := by
  rcases h.accumulator with haccumulator | ⟨hnil, -⟩
  · refine ⟨haccumulator, ?_⟩
    rw [World.lane, World.lane, haccumulator, h.lanes]
  · have hlength := (hw.owned hpos).length
    rw [hnil] at hlength
    exact absurd hpos (by rw [← hlength]; exact Nat.lt_irrefl 0)

theorem Governed.inv (hw : Inv self w) (hblock : w'.block = w.block)
    (h : Governed env c w w') : Inv self w' := by
  have hkept := h.kept
  refine ⟨hw.history.congr hkept.stateBlocks hkept.states hkept.blockToStateIndex, ?_, ?_, ?_, ?_,
    fun hpos => ?_, ?_, fun happlied => ?_, ?_⟩
  · rcases h.paramsHash with hsame | ⟨paramsHash, -, hset, hne⟩
    · rw [hsame]
      exact hw.paramsHash
    · rw [hset]
      exact hne
  · rw [hkept.nextCheckpointId, hkept.checkpointParamsHash]
    exact hw.unpinned
  · rw [hkept.nextCheckpointId, hkept.anchorCheckpoints]
    exact hw.unanchored
  · intro a ha
    rw [h.lanes]
    rw [hkept.nextCheckpointId] at ha
    by_cases hpos : 0 < w.snapshot.nextCheckpointId
    · rw [(h.lane_eq hw hpos).1] at ha
      exact hw.unminted a ha
    · exact hw.unminted a (.inr (by omega))
  · rw [hkept.nextCheckpointId] at hpos
    have howned := hw.owned hpos
    have hlane := (h.lane_eq hw hpos).2
    refine ⟨?_, howned.nonzero, ?_, ?_, ?_⟩
    · rw [hlane]
      exact howned.bound
    · rw [hlane, hkept.nextCheckpointId]
      exact howned.length
    · rw [hlane]
      exact howned.ordered
    · rw [hlane, hblock]
      exact howned.past
  · rw [hkept.hasAppliedCheckpoint, hkept.stateBlocks]
    exact hw.unapplied
  · rw [hkept.hasAppliedCheckpoint] at happlied
    obtain ⟨d, hd, hlt, hlast⟩ := hw.applied happlied
    rw [hkept.lastAppliedCheckpoint, hkept.nextCheckpointId, hkept.stateBlocks, (h.lane_eq hw (by omega)).2]
    exact ⟨d, hd, hlt, hlast⟩
  · rw [hkept.acceptedCheckpoints, hkept.hasAppliedCheckpoint, hkept.lastAppliedCheckpoint]
    exact hw.accepted

theorem lane_call_eq {address : Address} {c : Lane.Call} {l : Lane} (hw : Inv self w)
    (hsender : env.sender ≠ self) (hpos : 0 < w.snapshot.nextCheckpointId)
    (h : Lane.call H view address env (w.lanes address) c = some l)
    (hsnapshot : w'.snapshot = w.snapshot) (hlanes : w'.lanes = update w.lanes address l) :
    w'.lane.snapshot = self ∧ w'.lane.checkpoints = w.lane.checkpoints := by
  have howned := hw.owned hpos
  have hlane : w'.lane = update w.lanes address l w.snapshot.accumulator := by
    rw [World.lane, hlanes, hsnapshot]
  rw [hlane]
  by_cases haddress : w.snapshot.accumulator = address
  · rw [haddress, update_self]
    have hlane' : w.lanes address = w.lane := by rw [World.lane, haddress]
    rw [hlane'] at h
    exact Lane.call_owned hsender h howned.bound howned.nonzero
  · rw [update_of_ne haddress]
    exact ⟨howned.bound, rfl⟩

theorem lane_call_inv {address : Address} {c : Lane.Call} {l : Lane} (hw : Inv self w)
    (hsender : env.sender ≠ self) (hblock : w'.block = w.block)
    (h : Lane.call H view address env (w.lanes address) c = some l)
    (hsnapshot : w'.snapshot = w.snapshot) (hlanes : w'.lanes = update w.lanes address l) :
    Inv self w' := by
  have hlane : 0 < w.snapshot.nextCheckpointId →
      w'.lane.snapshot = self ∧ w'.lane.checkpoints = w.lane.checkpoints :=
    fun hpos => lane_call_eq hw hsender hpos h hsnapshot hlanes
  refine ⟨?_, ?_, ?_, ?_, fun a ha => ?_, fun hpos => ?_, ?_, fun happlied => ?_, ?_⟩
  · rw [hsnapshot]
    exact hw.history
  · rw [hsnapshot]
    exact hw.paramsHash
  · rw [hsnapshot]
    exact hw.unpinned
  · rw [hsnapshot]
    exact hw.unanchored
  · rw [hsnapshot] at ha
    rw [hlanes]
    by_cases haddress : a = address
    · rw [haddress, update_self]
      exact Lane.call_unminted hsender h (hw.unminted address (haddress ▸ ha))
    · rw [update_of_ne haddress]
      exact hw.unminted a ha
  · rw [hsnapshot] at hpos
    have howned := hw.owned hpos
    obtain ⟨hbound, hcheckpoints⟩ := hlane hpos
    refine ⟨hbound, howned.nonzero, ?_, ?_, ?_⟩
    · rw [hcheckpoints, hsnapshot]
      exact howned.length
    · rw [hcheckpoints]
      exact howned.ordered
    · rw [hcheckpoints, hblock]
      exact howned.past
  · rw [hsnapshot]
    exact hw.unapplied
  · rw [hsnapshot] at happlied ⊢
    obtain ⟨d, hd, hlt, hlast⟩ := hw.applied happlied
    rw [(hlane (by omega)).2]
    exact ⟨d, hd, hlt, hlast⟩
  · rw [hsnapshot]
    exact hw.accepted

theorem Effect.inv (hw : Inv self w) (henv : env.blockNumber = uint256 w.block)
    (hsender : env.sender ≠ self) (hblock : w'.block = w.block) (h : Effect H self env w w' c) :
    Inv self w' := by
  cases h with
  | triggered anchors view h => exact h.inv hw henv hblock
  | submitted v p c index hlanes h => exact Submitted.inv hw hblock hlanes h
  | governed _ h => exact h.inv hw hblock
  | lane address view c l hsnapshot hlanes h => exact lane_call_inv hw hsender hblock h hsnapshot hlanes

theorem Effect.extends (hw : Inv self w) (h : Effect H self env w w' c) : Extends w.snapshot w'.snapshot := by
  cases h with
  | triggered anchors view h =>
    have hs := h.history_eq
    refine ⟨?_, fun i _ => ?_, fun id hid => ?_⟩
    · rw [hs]
    · rw [hs]
    · rw [hs]
      exact ⟨hid, rfl, rfl⟩
  | submitted v p c index hlanes h => exact Submitted.extends hw h
  | governed _ h => exact Kept.extends h.kept
  | lane address view c l hsnapshot hlanes h =>
    rw [hsnapshot]
    exact Extends.refl _

theorem step_inv (hw : Inv self w) (h : step H self i w = some w') : Inv self w' := by
  obtain ⟨hle, hblock, hsender, heffect⟩ := step_cases h
  have hadvanced : Inv self (w.advance i.block) := hw.advance hle
  exact heffect.inv hadvanced rfl hsender hblock

theorem step_extends (hw : Inv self w) (h : step H self i w = some w') : Extends w.snapshot w'.snapshot := by
  obtain ⟨hle, -, -, heffect⟩ := step_cases h
  have hadvanced : Inv self (w.advance i.block) := hw.advance hle
  exact Effect.extends (w := w.advance i.block) hadvanced heffect

theorem run_inv (hw : Inv self w) (is : List Input) : Inv self (run H self w is) :=
  Run.run_holds (fun _ _ _ hs h => step_inv hs h) hw is

theorem run_extends (hw : Inv self w) (is : List Input) : Extends w.snapshot (run H self w is).snapshot := by
  have h : Inv self (run H self w is) ∧ Extends w.snapshot (run H self w is).snapshot :=
    Run.run_holds (P := fun t => Inv self t ∧ Extends w.snapshot t.snapshot)
      (fun _ _ _ hs h => ⟨step_inv hs.1 h, hs.2.trans (step_extends hs.1 h)⟩) ⟨hw, Extends.refl _⟩ is
  exact h.2

end SnapshotWorld

end Trustgraphs
