import Trustgraphs.Contracts.Proofs.EpochProofs
import Trustgraphs.Contracts.Proofs.FrozenCaptureProofs

/-!
# A trigger is refused while nothing has moved

What a lane commits to is a function of what it has folded, of what it reads and, for a composition,
of the block (`Lane.acc_congr`).
-/

namespace Trustgraphs

open Outcome Function Option Checked CompositionSourceAdapter List

namespace CompositionSourceAccumulator

variable {H : Hashes} {c : Config} {env env' : BlockEnv} {sources sources' : Sources} {s : State}

theorem capture_congr (hblock : env'.blockNumber = env.blockNumber) (hchain : env'.chainId = env.chainId)
    (hreads : ∀ p ∈ s.policy, sources'.readLatest p.adapter = sources.readLatest p.adapter) :
    capture H c env' sources' s = capture H c env sources s := by
  have hchain64 : chain64 env'.toMsg = chain64 env.toMsg := by rw [chain64, chain64, hchain]
  unfold capture
  rw [hblock, hchain64]
  split
  · rfl
  · refine foldlM_congr (fun p hp st => ?_) _
    obtain ⟨policy, i⟩ := p
    have hread := hreads policy (fst_mem_of_mem_zipIdx hp)
    unfold captureSource
    dsimp only
    rw [hread, hblock]

theorem capture_block {m m' : Bytes × List U256} (h : capture H c env sources s = .ok m)
    (h' : capture H c env' sources' s = .ok m') (hne : env'.blockNumber ≠ env.blockNumber) :
    m'.1 ≠ m.1 := by
  intro hsame
  obtain ⟨hlt, states, -, hbytes⟩ := capture_captured h
  obtain ⟨hlt', states', -, hbytes'⟩ := capture_captured h'
  have hbytes'' : Composition.captureBytes (capturedManifest H c env' s.policy states') =
      Composition.captureBytes (capturedManifest H c env s.policy states) := by
    rw [← hbytes, ← hbytes']
    exact hsame
  unfold Composition.captureBytes at hbytes''
  simp only [append_assoc] at hbytes''
  obtain ⟨-, hrest⟩ := append_inj hbytes'' rfl
  obtain ⟨-, hrest⟩ := append_inj hrest rfl
  obtain ⟨-, hrest⟩ := append_inj hrest (by rw [length_beBytes, length_beBytes])
  obtain ⟨hblock, -⟩ := append_inj hrest (by rw [length_beBytes, length_beBytes])
  have hnumbers := beBytes_injective (UInt64.toNat_lt _) (UInt64.toNat_lt _) hblock
  dsimp only [capturedManifest] at hnumbers
  rw [UInt64.toNat_ofNat_of_lt' hlt', UInt64.toNat_ofNat_of_lt' hlt] at hnumbers
  exact hne (BitVec.eq_of_toNat_eq hnumbers)

end CompositionSourceAccumulator

namespace Lane

variable {H : Hashes} {v v' : LaneView} {env env' : BlockEnv}

def SameReads (v v' : LaneView) : Lane → Prop
  | .attestation _ => True
  | .mirror s => v'.acc s.trustAccumulator = v.acc s.trustAccumulator ∧
      v'.leafCount s.trustAccumulator = v.leafCount s.trustAccumulator
  | .empty _ => True
  | .composition _ s => ∀ p ∈ s.policy, v'.sources.readLatest p.adapter = v.sources.readLatest p.adapter

theorem SameReads.refl (v : LaneView) (l : Lane) : l.SameReads v v := by
  cases l with
  | attestation s => exact trivial
  | mirror s => exact ⟨rfl, rfl⟩
  | empty s => exact trivial
  | composition c s => exact fun _ _ => rfl

def isComposition : Lane → Bool
  | .composition _ _ => true
  | _ => false

theorem acc_congr {l : Lane} (hreads : l.SameReads v v')
    (hblock : l.isComposition = true → env'.blockNumber = env.blockNumber ∧ env'.chainId = env.chainId) :
    l.acc H v' env' = l.acc H v env := by
  cases l with
  | attestation s => rfl
  | mirror s => exact hreads.1
  | empty s => rfl
  | composition c s =>
    obtain ⟨hnumber, hchain⟩ := hblock rfl
    show (CompositionSourceAccumulator.capture H c env' v'.sources s).toOption.map (fun m => H.sha256 m.1) =
      (CompositionSourceAccumulator.capture H c env v.sources s).toOption.map fun m => H.sha256 m.1
    rw [CompositionSourceAccumulator.capture_congr hnumber hchain hreads]

theorem leafCount_congr {l : Lane} (hreads : l.SameReads v v') : l.leafCount H v' = l.leafCount H v := by
  cases l with
  | attestation s => rfl
  | mirror s => exact hreads.2
  | empty s => rfl
  | composition c s => rfl

/-- A composition commits to one digest in two blocks only if its two manifests, which differ, have it. -/
theorem manifest_of_acc {l : Lane} {a : B256} (hl : l.isComposition = true) (h : l.acc H v env = some a)
    (h' : l.acc H v' env' = some a) (hne : env'.blockNumber ≠ env.blockNumber) :
    ∃ m m', l.manifest H v env = some m ∧ l.manifest H v' env' = some m' ∧ m ≠ m' ∧
      H.sha256 m = H.sha256 m' := by
  cases l with
  | composition c s =>
    obtain ⟨m, hm, hdigest⟩ := map_eq_some_iff.mp h
    obtain ⟨m', hm', hdigest'⟩ := map_eq_some_iff.mp h'
    have hbytes := CompositionSourceAccumulator.capture_block (toOption_eq_some.mp hm)
      (toOption_eq_some.mp hm') hne
    exact ⟨m.1, m'.1, map_eq_some_iff.mpr ⟨m, hm, rfl⟩, map_eq_some_iff.mpr ⟨m', hm', rfl⟩, hbytes.symm,
      hdigest.trans hdigest'.symm⟩
  | attestation s => exact Bool.noConfusion hl
  | mirror s => exact Bool.noConfusion hl
  | empty s => exact Bool.noConfusion hl

end Lane

namespace MerkleSnapshot

variable {σ : Type} {L : Accumulator σ} {self : Address} {env : BlockEnv} {anchors : AnchorView}
  {s : State} {lane : σ}

theorem consumedBoundary_ok {block : UInt64} (henv : env.blockNumber = uint256 block)
    (ho : s.epochOriginBlock ≤ block) : ∃ boundary, consumedBoundary env s = .ok boundary := by
  unfold consumedBoundary
  split
  · have hle : (uint256 s.epochOriginBlock).toNat ≤ env.blockNumber.toNat := by
      rw [henv, toNat_uint256, toNat_uint256]
      exact UInt64.le_iff_toNat_le.mp ho
    obtain ⟨elapsed, helapsed, helapsed'⟩ := sub_isSome hle
    have hbelow := Nat.div_mul_le_self elapsed.toNat (uint256 s.epochLength).toNat
    have hlt := env.blockNumber.isLt
    obtain ⟨offset, hoffset⟩ := exists_toNat (w := 256)
      (n := elapsed.toNat / (uint256 s.epochLength).toNat * (uint256 s.epochLength).toNat) (by omega)
    have hmul : mul (elapsed / uint256 s.epochLength) (uint256 s.epochLength) = some offset := by
      rw [mul_eq_some, BitVec.toNat_udiv, hoffset]
    obtain ⟨boundary, hboundary, -⟩ := add_isSome (a := uint256 s.epochOriginBlock) (b := offset)
      (by omega)
    refine ⟨UInt64.ofNat boundary.toNat, bind_eq_ok.mpr ⟨elapsed, ofPanic_eq_ok.mpr helapsed, ?_⟩⟩
    refine bind_eq_ok.mpr ⟨offset, ofPanic_eq_ok.mpr hmul, ?_⟩
    exact bind_eq_ok.mpr ⟨boundary, ofPanic_eq_ok.mpr hboundary, rfl⟩
  · exact ⟨0, rfl⟩

theorem requireNewInputs_refused {prev : AttestationAccumulator.Checkpoint}
    (hpos : 0 < s.nextCheckpointId) (hprev : (L.checkpoints lane).getLast? = some prev)
    (hlength : (L.checkpoints lane).length = s.nextCheckpointId)
    (hacc : L.acc env lane = some prev.acc) (hleaf : L.leafCount lane = prev.leafCount)
    (hanchors : s.anchorCheckpoints (s.nextCheckpointId - 1) =
      ⟨(liveAnchors s anchors).1, (liveAnchors s anchors).2⟩)
    (hparams : s.paramsHash = s.checkpointParamsHash (s.nextCheckpointId - 1))
    (hverifier : s.zkVerifier = s.checkpointVerifier (s.nextCheckpointId - 1)) :
    requireNewInputs L env anchors s lane = .error (.error .noNewInputs) := by
  have hcheckpoints : hasCheckpoints s = true := decide_eq_true hpos
  unfold requireNewInputs
  rw [if_pos hcheckpoints]
  dsimp only
  rw [hprev, hlength, hanchors, hacc]
  show (if prev.acc = prev.acc ∧ _ then _ else _ : Result Unit) = _
  rw [if_pos ⟨rfl, hleaf, rfl, rfl, hparams, hverifier⟩]
  rfl

theorem trigger_noNewInputs_acc (h : trigger L self env anchors s lane = .error (.error .noNewInputs)) :
    ∃ prev, (L.checkpoints lane).getLast? = some prev ∧
      L.acc { env with sender := self } lane = some prev.acc := by
  unfold trigger revert at h
  rcases ite_error_eq_error.mp h with ⟨-, h⟩ | ⟨-, h⟩
  · exact absurd h (by simp)
  rcases bind_eq_error.mp h with h | ⟨boundary, -, h⟩
  · exact absurd (consumedBoundary_eq_error h) (by simp)
  rcases bind_eq_error.mp h with h | ⟨⟨⟩, -, h⟩
  · unfold requireNewInputs revert at h
    split at h
    · rcases bind_eq_error.mp h with h | ⟨prev, hprev, h⟩
      · exact absurd (ofPanic_eq_error.mp h).2 (by simp)
      rcases bind_eq_error.mp h with h | ⟨acc, hacc, h⟩
      · exact absurd (ofAccumulator_eq_error h) (by simp)
      rcases ite_error_eq_error.mp h with ⟨⟨heq, -⟩, -⟩ | ⟨-, h⟩
      · refine ⟨prev, ofPanic_eq_ok.mp hprev, ?_⟩
        rw [← heq]
        exact ofAccumulator_eq_ok.mp hacc
      · exact absurd h (by simp)
    · exact absurd h (by simp)
  rcases bind_eq_error.mp h with h | ⟨⟨lane', id⟩, -, h⟩
  · exact absurd (ofAccumulator_eq_error h) (by simp)
  rcases ite_error_eq_error.mp h with ⟨-, h⟩ | ⟨-, h⟩
  · exact absurd h (by simp)
  · exact absurd h (by simp)

def SameAnchors (v v' : AnchorView) : Prop := v'.anchorAcc = v.anchorAcc ∧ v'.anchorCount = v.anchorCount

theorem liveAnchors_congr {s' : State} {anchors' : AnchorView} (h : SameAnchors anchors anchors')
    (hregistry : s'.anchorRegistry = s.anchorRegistry) : liveAnchors s' anchors' = liveAnchors s anchors := by
  rw [liveAnchors, liveAnchors, hregistry, h.1, h.2]

theorem anchorEpoch_origin {block : UInt64} {s : State} {epochLength : UInt64}
    (h : s.epochOriginBlock ≤ block) :
    (anchorEpoch (uint256 block) s epochLength).epochOriginBlock ≤ block := by
  unfold anchorEpoch
  split
  · split
    · exact UInt64.zero_le
    · show UInt64.ofNat (uint256 block).toNat ≤ block
      rw [ofNat_uint256]
      exact UInt64.le_refl _
  · exact h

end MerkleSnapshot

namespace SnapshotWorld

open MerkleSnapshot

variable {H : Hashes} {self : Address} {i : Input} {w w' : World} {env : BlockEnv}

/-- A call that may move what the next checkpoint of the snapshot freezes: another checkpoint, the
configuration, or an event or a policy of its accumulator. -/
def Call.moves (accumulator : Address) : Call → Bool
  | .trigger _ _ => true
  | .setParamsHash _ => true
  | .setZkVerifier _ => true
  | .lane address _ c => decide (address = accumulator) && c.feeds
  | _ => false

/-- No accepted input of a run moves what the snapshot freezes. -/
def Quiet (H : Hashes) (self : Address) (w : World) (is : List Input) : Prop :=
  ∀ mid j rest, is = mid ++ j :: rest → step H self j (run H self w mid) ≠ none →
    j.call.moves (run H self w mid).snapshot.accumulator = false

/-- What the snapshot would freeze of its own storage and of its accumulator is the same. -/
structure Unmoved (H : Hashes) (w w' : World) : Prop where
  checkpoints : w'.lane.checkpoints = w.lane.checkpoints
  acc : ∀ v env, w'.lane.acc H v env = w.lane.acc H v env
  manifest : ∀ v env, w'.lane.manifest H v env = w.lane.manifest H v env
  leafCount : ∀ v, w'.lane.leafCount H v = w.lane.leafCount H v
  paramsHash : w'.snapshot.paramsHash = w.snapshot.paramsHash
  zkVerifier : w'.snapshot.zkVerifier = w.snapshot.zkVerifier
  anchorRegistry : w'.snapshot.anchorRegistry = w.snapshot.anchorRegistry
  nextCheckpointId : w'.snapshot.nextCheckpointId = w.snapshot.nextCheckpointId
  checkpointParamsHash : w'.snapshot.checkpointParamsHash = w.snapshot.checkpointParamsHash
  checkpointVerifier : w'.snapshot.checkpointVerifier = w.snapshot.checkpointVerifier
  anchorCheckpoints : w'.snapshot.anchorCheckpoints = w.snapshot.anchorCheckpoints

theorem Unmoved.of_same (hlane : w'.lane = w.lane) (hstate : w'.snapshot.toState = w.snapshot.toState) :
    Unmoved H w w' := by
  refine ⟨by rw [hlane], fun _ _ => by rw [hlane], fun _ _ => by rw [hlane], fun _ =>
    by rw [hlane], ?_, ?_, ?_, ?_, ?_, ?_, ?_⟩
  all_goals rw [hstate]

theorem Unmoved.trans {w'' : World} (h : Unmoved H w w') (h' : Unmoved H w' w'') : Unmoved H w w'' where
  checkpoints := h'.checkpoints.trans h.checkpoints
  acc v env := (h'.acc v env).trans (h.acc v env)
  manifest v env := (h'.manifest v env).trans (h.manifest v env)
  leafCount v := (h'.leafCount v).trans (h.leafCount v)
  paramsHash := h'.paramsHash.trans h.paramsHash
  zkVerifier := h'.zkVerifier.trans h.zkVerifier
  anchorRegistry := h'.anchorRegistry.trans h.anchorRegistry
  nextCheckpointId := h'.nextCheckpointId.trans h.nextCheckpointId
  checkpointParamsHash := h'.checkpointParamsHash.trans h.checkpointParamsHash
  checkpointVerifier := h'.checkpointVerifier.trans h.checkpointVerifier
  anchorCheckpoints := h'.anchorCheckpoints.trans h.anchorCheckpoints

theorem Governed.unmoved {c : Call} (hw : Inv self w) (hpos : 0 < w.snapshot.nextCheckpointId)
    (h : Governed env c w w') (hquiet : c.moves w.snapshot.accumulator = false) : Unmoved H w w' := by
  have hlane := (h.lane_eq hw hpos).2
  refine ⟨by rw [hlane], fun _ _ => by rw [hlane], fun _ _ => by rw [hlane], fun _ => by rw [hlane], ?_, ?_,
    h.anchorRegistry hpos, h.kept.nextCheckpointId, h.kept.checkpointParamsHash,
    h.kept.checkpointVerifier, h.kept.anchorCheckpoints⟩
  · rcases h.paramsHash with hsame | ⟨paramsHash, rfl, -, -⟩
    · exact hsame
    · exact Bool.noConfusion hquiet
  · rcases h.zkVerifier with hsame | ⟨a, rfl⟩
    · exact hsame
    · exact Bool.noConfusion hquiet

theorem lane_call_unmoved {address : Address} {view : LaneView} {c : Lane.Call} {l : Lane}
    (hw : Inv self w) (hsender : env.sender ≠ self) (hpos : 0 < w.snapshot.nextCheckpointId)
    (h : Lane.call H view address env (w.lanes address) c = some l)
    (hsnapshot : w'.snapshot = w.snapshot) (hlanes : w'.lanes = update w.lanes address l)
    (hquiet : (decide (address = w.snapshot.accumulator) && c.feeds) = false) : Unmoved H w w' := by
  have hlane : w'.lane = update w.lanes address l w.snapshot.accumulator := by
    rw [World.lane, hlanes, hsnapshot]
  by_cases haddress : address = w.snapshot.accumulator
  · rw [haddress, update_self] at hlane
    have hfeeds : c.feeds = false := by
      rw [decide_eq_true haddress, Bool.true_and] at hquiet
      exact hquiet
    rw [haddress] at h
    rcases Lane.call_cases h with ⟨id, -, hminted⟩ | hunfrozen
    · exact absurd (hminted.sender.trans (hw.owned hpos).bound) hsender
    · refine ⟨?_, fun v env => ?_, fun v env => ?_, fun v => ?_, ?_, ?_, ?_, ?_, ?_, ?_, ?_⟩
      · rw [hlane, hunfrozen.checkpoints]
        rfl
      · rw [hlane, hunfrozen.acc hfeeds]
        rfl
      · rw [hlane, hunfrozen.manifest hfeeds]
        rfl
      · rw [hlane, hunfrozen.leafCount hfeeds]
        rfl
      all_goals rw [hsnapshot]
  · rw [update_of_ne (Ne.symm haddress)] at hlane
    exact .of_same hlane (by rw [hsnapshot])

theorem Effect.unmoved {c : Call} (hw : Inv self w) (hsender : env.sender ≠ self)
    (hpos : 0 < w.snapshot.nextCheckpointId) (h : Effect H self env w w' c)
    (hquiet : c.moves w.snapshot.accumulator = false) : Unmoved H w w' := by
  cases h with
  | triggered anchors view h => exact Bool.noConfusion hquiet
  | submitted v p c index hlanes h => exact .of_same (Submitted.lane_eq hlanes h) h.toState
  | governed _ h => exact h.unmoved hw hpos hquiet
  | lane address view c l hsnapshot hlanes h =>
    exact lane_call_unmoved hw hsender hpos h hsnapshot hlanes hquiet

theorem step_unmoved (hw : Inv self w) (hpos : 0 < w.snapshot.nextCheckpointId)
    (h : step H self i w = some w') (hquiet : i.call.moves w.snapshot.accumulator = false) :
    Unmoved H w w' := by
  obtain ⟨hle, -, hsender, heffect⟩ := step_cases h
  have hadvanced : Inv self (w.advance i.block) := hw.advance hle
  have hunmoved := heffect.unmoved hadvanced hsender hpos hquiet
  have hpassed : Unmoved H w (w.advance i.block) := .of_same rfl rfl
  exact hpassed.trans hunmoved

theorem run_unmoved (hw : Inv self w) (hpos : 0 < w.snapshot.nextCheckpointId) (is : List Input)
    (hquiet : Quiet H self w is) : Unmoved H w (run H self w is) := by
  induction is using List.reverseRecOn with
  | nil => exact .of_same rfl rfl
  | append_singleton is i ih =>
    have hbefore := ih fun mid j rest hsplit =>
      hquiet mid j (rest ++ [i]) (by rw [hsplit, append_assoc, cons_append])
    have hrun : run H self w (is ++ [i]) = Run.apply (step H self) (run H self w is) i := by
      show Run.run (step H self) w (is ++ [i]) = _
      rw [Run.run_append]
      rfl
    rw [hrun]
    cases hi : step H self i (run H self w is) with
    | none =>
      rw [Run.apply_refused hi]
      exact hbefore
    | some w' =>
      rw [Run.apply_accepted hi]
      have hnext : 0 < (run H self w is).snapshot.nextCheckpointId := by
        rw [hbefore.nextCheckpointId]
        exact hpos
      exact hbefore.trans (step_unmoved (run_inv hw is) hnext hi (hquiet is i [] rfl (by rw [hi]; simp)))

/-- The last checkpoint is what the snapshot would freeze now, with these answers, in the block of `env`. -/
structure Captured (H : Hashes) (env : BlockEnv) (anchors : AnchorView) (view : LaneView) (w : World) :
    Prop where
  positive : 0 < w.snapshot.nextCheckpointId
  last : ∃ prev, w.lane.checkpoints.getLast? = some prev ∧ w.lane.acc H view env = some prev.acc ∧
    w.lane.leafCount H view = prev.leafCount
  anchors : w.snapshot.anchorCheckpoints (w.snapshot.nextCheckpointId - 1) =
    ⟨(liveAnchors w.snapshot.toState anchors).1, (liveAnchors w.snapshot.toState anchors).2⟩
  paramsHash : w.snapshot.paramsHash = w.snapshot.checkpointParamsHash (w.snapshot.nextCheckpointId - 1)
  zkVerifier : w.snapshot.zkVerifier = w.snapshot.checkpointVerifier (w.snapshot.nextCheckpointId - 1)

theorem Triggered.captured {anchors : AnchorView} {view : LaneView} (hw : Inv self w)
    (h : Triggered H self env anchors view w w') :
    Captured H { env with sender := self } anchors view w' := by
  obtain ⟨lane, hminted, hlanes⟩ := h.minted
  obtain ⟨acc, hacc, hfrozen⟩ := hminted.frozen
  have haccumulator : w'.snapshot.accumulator = w.snapshot.accumulator := by rw [h.history_eq]
  have hlane : w'.lane = lane := by rw [World.lane, hlanes, haccumulator, update_self]
  obtain ⟨hnext, -⟩ := h.next_eq
  have hlast : w'.snapshot.nextCheckpointId - 1 = w.snapshot.nextCheckpointId := by omega
  obtain ⟨boundary, -, hs⟩ := h.pinned
  refine ⟨by omega, ⟨⟨acc, w.lane.leafCount H view, UInt64.ofNat env.blockNumber.toNat⟩, ?_, ?_, ?_⟩,
    ?_, ?_, ?_⟩
  · rw [hlane, hfrozen, getLast?_concat]
  · rw [hlane, hminted.acc]
    exact hacc
  · rw [hlane, hminted.leafCount]
  · rw [hlast, hs]
    -- a pair of zeros is not written, and nothing was there
    show (if _ then update _ _ _ else _ : Nat → AnchorCheckpoint) w.snapshot.nextCheckpointId = _
    split
    · exact update_self ..
    · rename_i hzero
      simp only [ne_eq, not_or, not_not] at hzero
      rw [hw.unanchored _ le_rfl]
      exact AnchorCheckpoint.mk.injEq .. |>.mpr ⟨hzero.1.symm, hzero.2.symm⟩
  · rw [hlast, hs]
    exact (update_self (f := w.snapshot.checkpointParamsHash) ..).symm
  · rw [hlast, hs]
    exact (update_self (f := w.snapshot.checkpointVerifier) ..).symm

theorem Captured.of_unmoved {anchors : AnchorView} {view : LaneView} (h : Captured H env anchors view w)
    (hsame : Unmoved H w w') : Captured H env anchors view w' := by
  obtain ⟨prev, hprev, hacc, hleaf⟩ := h.last
  refine ⟨?_, ⟨prev, ?_, ?_, ?_⟩, ?_, ?_, ?_⟩
  · rw [hsame.nextCheckpointId]
    exact h.positive
  · rw [hsame.checkpoints]
    exact hprev
  · rw [hsame.acc]
    exact hacc
  · rw [hsame.leafCount]
    exact hleaf
  · rw [hsame.anchorCheckpoints, hsame.nextCheckpointId, liveAnchors_congr ⟨rfl, rfl⟩ hsame.anchorRegistry]
    exact h.anchors
  · rw [hsame.paramsHash, hsame.checkpointParamsHash, hsame.nextCheckpointId]
    exact h.paramsHash
  · rw [hsame.zkVerifier, hsame.checkpointVerifier, hsame.nextCheckpointId]
    exact h.zkVerifier

theorem step_origin (hw : w.snapshot.epochOriginBlock ≤ w.block) (h : step H self i w = some w') :
    w'.snapshot.epochOriginBlock ≤ w'.block := by
  obtain ⟨hle, hblock, -, heffect⟩ := step_cases h
  rw [hblock]
  have hle' : w.snapshot.epochOriginBlock ≤ i.block := UInt64.le_trans hw hle
  generalize i.call = c at heffect
  cases heffect with
  | triggered anchors view h =>
    obtain ⟨boundary, -, hs⟩ := h.pinned
    rw [hs]
    exact hle'
  | submitted v p c index hlanes h =>
    rw [h.toState]
    exact hle'
  | governed _ h =>
    rcases h.schedule with hsame | ⟨epochLength, -, hset⟩
    · rw [show w'.snapshot.epochOriginBlock = _ from congrArg Schedule.epochOriginBlock hsame]
      exact hle'
    · rw [show w'.snapshot.epochOriginBlock = _ from congrArg Schedule.epochOriginBlock hset]
      exact anchorEpoch_origin hle'
  | lane address view c l hsnapshot hlanes h =>
    rw [hsnapshot]
    exact hle'

theorem Start.origin (h : Start self w) : w.snapshot.epochOriginBlock ≤ w.block := by
  obtain ⟨zk, params, accumulator, ca, oa, hconstructed⟩ := h.constructed
  unfold constructor fail at hconstructed
  obtain ⟨-, hconstructed⟩ := of_guard hconstructed
  obtain ⟨-, hconstructed⟩ := of_guard hconstructed
  rw [← ok_inj hconstructed]
  exact UInt64.zero_le

def quietError (s : State) (block : UInt64) : MerkleSnapshot.Error :=
  if 0 < s.epochLength ∧ block.toNat < s.lastTriggerBlock.toNat + s.epochLength.toNat then
    .epochNotElapsed s.lastTriggerBlock s.epochLength
  else .noNewInputs

theorem Captured.refused {anchors anchors' : AnchorView} {view view' : LaneView} {env' : BlockEnv}
    (hw : Inv self w) (horigin : w.snapshot.epochOriginBlock ≤ w.block)
    (henv : env'.blockNumber = uint256 w.block) (h : Captured H env anchors view w)
    (hanchors : SameAnchors anchors anchors')
    (hacc : w.lane.acc H view' { env' with sender := self } = w.lane.acc H view env)
    (hleaf : w.lane.leafCount H view' = w.lane.leafCount H view) :
    w.trigger H self env' anchors' view' = .error (.error (quietError w.snapshot.toState w.block)) := by
  obtain ⟨prev, hprev, hprevAcc, hprevLeaf⟩ := h.last
  obtain ⟨boundary, hboundary⟩ := consumedBoundary_ok henv horigin
  have hguard : requireNewInputs (Lane.accumulator H view' w.snapshot.accumulator)
      { env' with sender := self } anchors' w.snapshot.toState w.lane = .error (.error .noNewInputs) := by
    refine requireNewInputs_refused h.positive hprev (hw.owned h.positive).length (hacc.trans hprevAcc)
      (hleaf.trans hprevLeaf) ?_ h.paramsHash h.zkVerifier
    rw [liveAnchors_congr hanchors rfl]
    exact h.anchors
  have hnumber : env'.blockNumber.toNat = w.block.toNat := by rw [henv, toNat_uint256]
  have htrigger : trigger (Lane.accumulator H view' w.snapshot.accumulator) self env' anchors'
      w.snapshot.toState w.lane = .error (.error (quietError w.snapshot.toState w.block)) := by
    unfold trigger quietError
    rw [hnumber]
    split
    · rfl
    · rw [hboundary, hguard]
      rfl
  rw [World.trigger, htrigger]
  rfl

/-- Since the checkpoint that the trigger `i` froze, no accepted input has moved what the snapshot reads of
its own storage and of its accumulator, and the anchors, a mirrored accumulator and the sources of a
composition are what they were. Then a trigger is refused, by the schedule or else as one without new
inputs, when the accumulator is none of a composition or the block is that of the checkpoint. And a
composition is refused so at another block only if the manifest captured there and the one of the
checkpoint, which differ, have one digest. -/
theorem trigger_noNewInputs (H : Hashes) (self : Address) (w₀ : World) (hstart : Start self w₀)
    (before : List Input) (i : Input) (anchors : AnchorView) (view : LaneView) (w₁ : World)
    (hcall : i.call = .trigger anchors view) (htriggered : step H self i (run H self w₀ before) = some w₁)
    (since : List Input) (hquiet : Quiet H self w₁ since) (j : Input) (anchors' : AnchorView)
    (view' : LaneView) (hblock : (run H self w₁ since).block ≤ j.block)
    (hanchors : SameAnchors anchors anchors') (hreads : w₁.lane.SameReads view view') :
    ((w₁.lane.isComposition = true → j.block = i.block ∧ j.chainId = i.chainId) →
      ((run H self w₁ since).advance j.block).trigger H self j.env anchors' view' =
        .error (.error (quietError (run H self w₁ since).snapshot.toState j.block))) ∧
    (w₁.lane.isComposition = true → j.block ≠ i.block →
      ((run H self w₁ since).advance j.block).trigger H self j.env anchors' view' =
        .error (.error .noNewInputs) →
      ∃ m m', w₁.lane.manifest H view { i.env with sender := self } = some m ∧
        (run H self w₁ since).lane.manifest H view' { j.env with sender := self } = some m' ∧ m ≠ m' ∧
        H.sha256 m = H.sha256 m') := by
  have hinv : Inv self (run H self w₀ before) := run_inv hstart.inv before
  have horigin : (run H self w₀ before).snapshot.epochOriginBlock ≤ (run H self w₀ before).block :=
    Run.run_holds (P := fun w => w.snapshot.epochOriginBlock ≤ w.block) (fun _ _ _ hs h => step_origin hs h)
      hstart.origin before
  have hinv₁ : Inv self w₁ := step_inv hinv htriggered
  have horigin₁ : w₁.snapshot.epochOriginBlock ≤ w₁.block := step_origin horigin htriggered
  obtain ⟨hle, -, -, heffect⟩ := step_cases htriggered
  rw [hcall] at heffect
  have hcaptured₁ : Captured H { i.env with sender := self } anchors view w₁ := by
    cases heffect with
    | triggered _ _ h => exact h.captured (hinv.advance hle)
    | governed _ h => exact Bool.noConfusion h.governs
  have hunmoved := run_unmoved hinv₁ hcaptured₁.positive since hquiet
  have hcaptured := hcaptured₁.of_unmoved hunmoved
  have hinv' : Inv self ((run H self w₁ since).advance j.block) := (run_inv hinv₁ since).advance hblock
  have horigin' : (run H self w₁ since).snapshot.epochOriginBlock ≤ (run H self w₁ since).block :=
    Run.run_holds (P := fun w => w.snapshot.epochOriginBlock ≤ w.block) (fun _ _ _ hs h => step_origin hs h)
      horigin₁ since
  have hleaf : (run H self w₁ since).lane.leafCount H view' = (run H self w₁ since).lane.leafCount H view := by
    rw [hunmoved.leafCount, hunmoved.leafCount]
    exact Lane.leafCount_congr hreads
  constructor
  · intro hsameBlock
    have hacc : (run H self w₁ since).lane.acc H view' { j.env with sender := self } =
        (run H self w₁ since).lane.acc H view { i.env with sender := self } := by
      rw [hunmoved.acc, hunmoved.acc]
      refine Lane.acc_congr hreads fun hcomposition => ?_
      obtain ⟨hnumber, hchain⟩ := hsameBlock hcomposition
      exact ⟨congrArg uint256 hnumber, hchain⟩
    exact Captured.refused (w := (run H self w₁ since).advance j.block) hinv'
      (UInt64.le_trans horigin' hblock) rfl
      ⟨hcaptured.positive, hcaptured.last, hcaptured.anchors, hcaptured.paramsHash, hcaptured.zkVerifier⟩
      hanchors hacc hleaf
  · intro hcomposition hne hrefused
    obtain ⟨prev, hprev, hacc⟩ := trigger_noNewInputs_acc (map_eq_error.mp hrefused)
    obtain ⟨prev₁, hprev₁, hacc₁, -⟩ := hcaptured.last
    obtain rfl : prev₁ = prev := Option.some.inj (hprev₁.symm.trans hprev)
    have hnow : w₁.lane.acc H view' { j.env with sender := self } = some prev₁.acc := by
      rw [← hunmoved.acc]
      exact hacc
    rw [hunmoved.acc] at hacc₁
    rw [hunmoved.manifest]
    refine Lane.manifest_of_acc hcomposition hacc₁ hnow fun hsame => hne ?_
    have hnumbers := congrArg BitVec.toNat (show uint256 j.block = uint256 i.block from hsame)
    rw [toNat_uint256, toNat_uint256] at hnumbers
    exact UInt64.toNat_inj.mp hnumbers

namespace RecaptureExample

open HistoryExample (contract accumulator binder prover anchors input deployed)
open Composition.CompositionExample (source1 source2)

def controller : Address := .ofNat 20 0x54

def hashes : Hashes where
  keccak256 := CompositionSourceAccumulator.CaptureExample.hashes.keccak256
  sha256 s :=
    if s = Composition.captureBytes ⟨10, 101, [source1, source2]⟩ then
      .ofNat 32 0x48d155aac1833b99456abcb5c2274d7cef370d6f257cd91d23b4064086e10288
    else CompositionSourceAccumulator.CaptureExample.hashes.sha256 s

def view : LaneView where
  acc _ := none
  leafCount _ := 0
  sources := sources hashes CompositionSourceAccumulator.CaptureExample.adapters
    CompositionSourceAccumulator.CaptureExample.isAdapter ⟨accumulator, 0, 10⟩
    CompositionSourceAccumulator.CaptureExample.world

def start (s : Storage) : World where
  snapshot := s
  lanes _ := .composition
    (config CompositionSourceAccumulator.CaptureExample.adapters binder)
    CompositionSourceAccumulator.constructor
  block := 0

def setup : List Input :=
  [input 50 binder (.lane accumulator view (.bind contract controller accumulator)),
    input 60 controller (.lane accumulator view (.installPolicy 1
      CompositionSourceAccumulator.CaptureExample.manifest
      CompositionSourceAccumulator.CaptureExample.list))]

def attempt (block : UInt64) : Input := input block prover (.trigger anchors view)

theorem triggered : (deployed.toOption.bind fun s =>
    (step hashes contract (attempt 100) (run hashes contract (start s) setup)).map fun w₁ =>
      (w₁.block, quietError w₁.snapshot.toState 100,
        ((w₁.advance 101).trigger hashes contract (attempt 101).env anchors view).isOk)) =
    some (100, .noNewInputs, true) := by
  decide +kernel

def bound : Input :=
  input 5 binder (.lane accumulator HistoryExample.view (.bindSnapshot contract accumulator))

def quietAttempt (block : UInt64) : Input := input block prover (.trigger anchors HistoryExample.view)

theorem scheduled : (deployed.toOption.bind fun s =>
    (step HistoryExample.hashes contract (quietAttempt 15) (run HistoryExample.hashes contract
      (HistoryExample.start s) [bound, input 5 HistoryExample.constitution (.setEpochLength 10)])).bind
        fun w₁ => errorOf ((w₁.advance 16).trigger HistoryExample.hashes contract (quietAttempt 16).env
          anchors HistoryExample.view)) = some (.error (.epochNotElapsed 15 10)) := by
  decide +kernel

def reparam : Input := input 11 HistoryExample.operator (.setParamsHash (.ofNat 32 2))

theorem reparamed : (deployed.toOption.bind fun s =>
    (step HistoryExample.hashes contract (quietAttempt 10) (run HistoryExample.hashes contract
      (HistoryExample.start s) [bound])).map fun w₁ =>
        (((run HistoryExample.hashes contract w₁ [reparam]).advance 12).trigger HistoryExample.hashes
          contract (quietAttempt 12).env anchors HistoryExample.view).isOk) = some true := by
  decide +kernel

end RecaptureExample

open RecaptureExample HistoryExample in
/-- No source event, anchor, source state or policy has moved since the checkpoint, and yet: in the next
block a composition is captured again; before its boundary a trigger is refused by the schedule; and after a
change of the parameters alone a trigger succeeds. -/
theorem trigger_recaptures : (∃ s w₁ w₂ id, deployed = .ok s ∧
      step RecaptureExample.hashes contract (attempt 100)
        (run RecaptureExample.hashes contract (RecaptureExample.start s) setup) = some w₁ ∧
      (w₁.advance 101).trigger RecaptureExample.hashes contract (attempt 101).env anchors
        RecaptureExample.view = .ok (w₂, id)) ∧
    (∃ s w₁, deployed = .ok s ∧
      step HistoryExample.hashes contract (quietAttempt 15) (run HistoryExample.hashes contract
        (HistoryExample.start s) [bound, input 5 constitution (.setEpochLength 10)]) = some w₁ ∧
      (w₁.advance 16).trigger HistoryExample.hashes contract (quietAttempt 16).env anchors
        HistoryExample.view = .error (.error (.epochNotElapsed 15 10))) ∧
    ∃ s w₁ w₂ id, deployed = .ok s ∧
      step HistoryExample.hashes contract (quietAttempt 10) (run HistoryExample.hashes contract
        (HistoryExample.start s) [bound]) = some w₁ ∧
      ((run HistoryExample.hashes contract w₁ [reparam]).advance 12).trigger HistoryExample.hashes
        contract (quietAttempt 12).env anchors HistoryExample.view = .ok (w₂, id) := by
  refine ⟨?_, ?_, ?_⟩
  · obtain ⟨s, hs, htriggered⟩ := bind_eq_some_iff.mp RecaptureExample.triggered
    obtain ⟨w₁, hw₁, hresult⟩ := map_eq_some_iff.mp htriggered
    obtain ⟨-, hresult⟩ := Prod.mk.inj hresult
    obtain ⟨-, hagain⟩ := Prod.mk.inj hresult
    obtain ⟨⟨w₂, id⟩, hw₂⟩ := isOk_iff.mp hagain
    exact ⟨s, w₁, w₂, id, toOption_eq_some.mp hs, hw₁, hw₂⟩
  · obtain ⟨s, hs, hscheduled⟩ := bind_eq_some_iff.mp scheduled
    obtain ⟨w₁, hw₁, herror⟩ := bind_eq_some_iff.mp hscheduled
    exact ⟨s, w₁, toOption_eq_some.mp hs, hw₁, errorOf_eq_some.mp herror⟩
  · obtain ⟨s, hs, hreparamed⟩ := bind_eq_some_iff.mp reparamed
    obtain ⟨w₁, hw₁, hagain⟩ := map_eq_some_iff.mp hreparamed
    obtain ⟨⟨w₂, id⟩, hw₂⟩ := isOk_iff.mp hagain
    exact ⟨s, w₁, w₂, id, toOption_eq_some.mp hs, hw₁, hw₂⟩

open RecaptureExample HistoryExample in
/-- In the block of the checkpoint it is not. -/
theorem trigger_noNewInputs_same_block : ∃ s w₁, deployed = .ok s ∧
    step RecaptureExample.hashes contract (attempt 100)
      (run RecaptureExample.hashes contract (RecaptureExample.start s) setup) = some w₁ ∧
    (w₁.advance 100).trigger RecaptureExample.hashes contract (attempt 100).env anchors
      RecaptureExample.view = .error (.error .noNewInputs) := by
  obtain ⟨s, hs, htriggered⟩ := bind_eq_some_iff.mp RecaptureExample.triggered
  obtain ⟨w₁, hw₁, hresult⟩ := map_eq_some_iff.mp htriggered
  obtain ⟨hblock, hresult⟩ := Prod.mk.inj hresult
  obtain ⟨herror, -⟩ := Prod.mk.inj hresult
  have hdeployed : deployed = .ok s := toOption_eq_some.mp hs
  have hstart : Start contract (RecaptureExample.start s) := ⟨⟨_, _, _, _, _, hdeployed⟩, fun _ _ => rfl⟩
  have hquiet : Quiet RecaptureExample.hashes contract w₁ [] :=
    fun mid j rest hsplit => absurd hsplit (by simp)
  have hreached : (run RecaptureExample.hashes contract w₁ []).block ≤ (attempt 100).block := by
    show w₁.block ≤ 100
    rw [hblock]
    exact UInt64.le_refl _
  obtain ⟨hrefused, -⟩ := trigger_noNewInputs RecaptureExample.hashes contract (RecaptureExample.start s)
    hstart setup (attempt 100) anchors RecaptureExample.view w₁ rfl hw₁ [] hquiet (attempt 100) anchors
    RecaptureExample.view hreached ⟨rfl, rfl⟩ (Lane.SameReads.refl _ _)
  refine ⟨s, w₁, hdeployed, hw₁, (hrefused fun _ => ⟨rfl, rfl⟩).trans ?_⟩
  show (.error (.error (quietError w₁.snapshot.toState 100)) : MerkleSnapshot.Result (World × Nat)) = _
  rw [herror]

end SnapshotWorld

end Trustgraphs
