import Trustgraphs.Contracts.Proofs.CompositionSourceAccumulatorProofs
import Trustgraphs.Contracts.SnapshotWorld

/-!
# What one input does to a snapshot and its lanes

An accepted input is a trigger, a submission, a governance call or a call of a lane (`step_cases`).
-/

/-!
## What the lanes have in common

Whichever of the four contracts a lane is, only the snapshot that it is bound to freezes its checkpoints,
a binding is final (`call_cases`), and what a checkpoint commits to is a function of the inputs of the lane
(`Minted`).
-/

namespace Trustgraphs

open Outcome Option

namespace Lane

variable {H : Hashes} {v : LaneView} {address : Address} {env : BlockEnv} {l l' : Lane}

structure Minted (H : Hashes) (v : LaneView) (env : BlockEnv) (l l' : Lane) (id : Nat) : Prop where
  sender : env.sender = l.snapshot
  bound : l.snapshot ≠ 0
  id_eq : id = l.checkpoints.length
  frozen : ∃ acc, l.acc H v env = some acc ∧ l'.checkpoints =
    l.checkpoints ++ [⟨acc, l.leafCount H v, UInt64.ofNat env.blockNumber.toNat⟩]
  snapshot : l'.snapshot = l.snapshot
  acc : ∀ v env, l'.acc H v env = l.acc H v env
  leafCount : ∀ v, l'.leafCount H v = l.leafCount H v

variable {snapshot : Address} {s : AttestationAccumulator.State} {id : Nat} {c : Call}
  {reads : Address}

theorem bound_of_guard {α : Type} {sender : Address} {x : Option α} {a : α}
    (h : (if sender ≠ snapshot ∨ snapshot = 0 then none else x) = some a) :
    sender = snapshot ∧ snapshot ≠ 0 ∧ x = some a := by
  by_cases hguard : sender ≠ snapshot ∨ snapshot = 0
  · rw [if_pos hguard] at h
    exact absurd h (by simp)
  · rw [if_neg hguard] at h
    rw [not_or, not_not] at hguard
    exact ⟨hguard.1, hguard.2, h⟩

theorem minted_attestation (h : checkpoint H v address env (.attestation s) = some (l', id)) :
    Minted H v env (.attestation s) l' id := by
  obtain ⟨s', hs', hpair⟩ := map_eq_some_iff.mp h
  obtain ⟨hsender, hbound, hs'⟩ := bound_of_guard hs'
  obtain rfl := Option.some.inj hs'
  obtain ⟨rfl, rfl⟩ := Prod.mk.inj hpair
  exact ⟨hsender, hbound, rfl, ⟨s.acc, rfl, rfl⟩, rfl, fun _ _ => rfl, fun _ => rfl⟩

theorem minted_mirror {s : TrustAccumulatorMirror.State}
    (h : checkpoint H v address env (.mirror s) = some (l', id)) :
    Minted H v env (.mirror s) l' id := by
  obtain ⟨⟨s', id'⟩, hs', hpair⟩ := map_eq_some_iff.mp h
  obtain ⟨hsender, hbound, hs'⟩ := bound_of_guard hs'
  obtain ⟨acc, hacc, hs'⟩ := map_eq_some_iff.mp hs'
  obtain ⟨rfl, rfl⟩ := Prod.mk.inj hs'
  obtain ⟨rfl, rfl⟩ := Prod.mk.inj hpair
  exact ⟨hsender, hbound, rfl, ⟨acc, hacc, rfl⟩, rfl, fun _ _ => rfl, fun _ => rfl⟩

theorem minted_empty {s : EmptyLaneAccumulator.State}
    (h : checkpoint H v address env (.empty s) = some (l', id)) :
    Minted H v env (.empty s) l' id := by
  obtain ⟨⟨s', id'⟩, hs', hpair⟩ := map_eq_some_iff.mp h
  obtain ⟨hsender, hbound, hs'⟩ := bound_of_guard hs'
  obtain ⟨rfl, rfl⟩ := Prod.mk.inj (Option.some.inj hs')
  obtain ⟨rfl, rfl⟩ := Prod.mk.inj hpair
  exact ⟨hsender, hbound, rfl, ⟨0, rfl, rfl⟩, rfl, fun _ _ => rfl, fun _ => rfl⟩

theorem minted_composition {c : CompositionSourceAccumulator.Config} {s : CompositionSourceAccumulator.State}
    (h : checkpoint H v address env (.composition c s) = some (l', id)) :
    Minted H v env (.composition c s) l' id := by
  obtain ⟨⟨s', id'⟩, hs', hpair⟩ := map_eq_some_iff.mp h
  have hcheckpoint := toOption_eq_some.mp hs'
  unfold CompositionSourceAccumulator.checkpoint CompositionSourceAccumulator.revert at hcheckpoint
  obtain ⟨hsender, hcheckpoint⟩ := of_guard hcheckpoint
  obtain ⟨⟨manifest, ids⟩, hcapture, hcheckpoint⟩ := of_bind hcheckpoint
  obtain ⟨rfl, rfl⟩ := Prod.mk.inj (ok_inj hcheckpoint)
  obtain ⟨rfl, rfl⟩ := Prod.mk.inj hpair
  rw [not_or, not_not] at hsender
  refine ⟨hsender.1, hsender.2, rfl, ⟨H.sha256 manifest, ?_, rfl⟩, rfl, fun _ _ => rfl, fun _ => rfl⟩
  show ((CompositionSourceAccumulator.capture H c env v.sources s).toOption.map
    fun m => H.sha256 m.1) = some (H.sha256 manifest)
  rw [hcapture]
  rfl

theorem checkpoint_minted (h : checkpoint H v address env l = some (l', id)) : Minted H v env l l' id := by
  cases l with
  | attestation s => exact minted_attestation h
  | mirror s => exact minted_mirror h
  | empty s => exact minted_empty h
  | composition c s => exact minted_composition h

def Call.feeds : Call → Bool
  | .fold _ => true
  | .foldAt _ _ => true
  | .installPolicy _ _ _ => true
  | _ => false

/-- The manifest that a composition captures. -/
def manifest (H : Hashes) (v : LaneView) (env : BlockEnv) : Lane → Option Bytes
  | .composition c s => (CompositionSourceAccumulator.capture H c env v.sources s).toOption.map Prod.fst
  | _ => none

/-- A call that freezes nothing: the checkpoints stay, and so does a binding. -/
structure Unfrozen (H : Hashes) (c : Call) (l l' : Lane) : Prop where
  checkpoints : l'.checkpoints = l.checkpoints
  snapshot : l.snapshot ≠ 0 → l'.snapshot = l.snapshot
  acc : c.feeds = false → ∀ v env, l'.acc H v env = l.acc H v env
  manifest : c.feeds = false → ∀ v env, l'.manifest H v env = l.manifest H v env
  leafCount : c.feeds = false → ∀ v, l'.leafCount H v = l.leafCount H v

theorem attestation_unfrozen {s' : Option AttestationAccumulator.State}
    {e : AttestationAccumulator.Event} {timestamp : U256} (hc : c.feeds = true)
    (hs' : s' = AttestationAccumulator.foldAt H s e.kind e.attester e.recipient e.uid timestamp
      (H.keccak256 e.data)) (h : s'.map Lane.attestation = some l') :
    Unfrozen H c (.attestation s) l' := by
  obtain ⟨t, ht, rfl⟩ := map_eq_some_iff.mp h
  rw [hs'] at ht
  unfold AttestationAccumulator.foldAt at ht
  dsimp only at ht
  split at ht
  · obtain rfl := Option.some.inj ht
    have hno : c.feeds ≠ false := by rw [hc]; simp
    exact ⟨rfl, fun _ => rfl, (absurd · hno), (absurd · hno), (absurd · hno)⟩
  · exact absurd ht (by simp)

theorem mirror_unfrozen {s : TrustAccumulatorMirror.State}
    (h : (TrustAccumulatorMirror.bindSnapshot env.sender s snapshot).map Lane.mirror = some l') :
    Unfrozen H c (.mirror s) l' := by
  obtain ⟨t, ht, rfl⟩ := map_eq_some_iff.mp h
  unfold TrustAccumulatorMirror.bindSnapshot at ht
  simp only [ite_none_left_eq_some, not_not, Option.some.injEq] at ht
  obtain ⟨-, hunbound, -, rfl⟩ := ht
  exact ⟨rfl, fun hbound => absurd hunbound hbound, fun _ _ _ => rfl, fun _ _ _ => rfl,
    fun _ _ => rfl⟩

theorem empty_unfrozen {s : EmptyLaneAccumulator.State}
    (h : (EmptyLaneAccumulator.bindSnapshot address env.sender s snapshot reads).map Lane.empty =
      some l') : Unfrozen H c (.empty s) l' := by
  obtain ⟨t, ht, rfl⟩ := map_eq_some_iff.mp h
  unfold EmptyLaneAccumulator.bindSnapshot at ht
  simp only [ite_none_left_eq_some, not_not, Option.some.injEq] at ht
  obtain ⟨-, hunbound, -, -, rfl⟩ := ht
  exact ⟨rfl, fun hbound => absurd hunbound hbound, fun _ _ _ => rfl, fun _ _ _ => rfl,
    fun _ _ => rfl⟩

theorem attestation_bind_unfrozen
    (h : (AttestationAccumulator.bindSnapshot (attestationEnv address env) s snapshot reads).map
      Lane.attestation = some l') : Unfrozen H c (.attestation s) l' := by
  obtain ⟨t, ht, rfl⟩ := map_eq_some_iff.mp h
  unfold AttestationAccumulator.bindSnapshot at ht
  simp only [ite_none_left_eq_some, not_not, Option.some.injEq] at ht
  obtain ⟨-, hunbound, -, -, rfl⟩ := ht
  exact ⟨rfl, fun hbound => absurd hunbound hbound, fun _ _ _ => rfl, fun _ _ _ => rfl,
    fun _ _ => rfl⟩

theorem composition_bind_unfrozen {cfg : CompositionSourceAccumulator.Config}
    {s : CompositionSourceAccumulator.State} {controller : Address}
    (h : (CompositionSourceAccumulator.bind cfg address env.toMsg s snapshot controller
      reads).toOption.map (Lane.composition cfg) = some l') : Unfrozen H c (.composition cfg s) l' := by
  obtain ⟨t, ht, rfl⟩ := map_eq_some_iff.mp h
  have hbind := toOption_eq_some.mp ht
  unfold CompositionSourceAccumulator.bind CompositionSourceAccumulator.revert at hbind
  simp only [ite_error_eq_ok, not_or, not_not] at hbind
  obtain ⟨-, ⟨hunbound, -⟩, -, -, hbind⟩ := hbind
  obtain rfl := ok_inj hbind
  exact ⟨rfl, fun hbound => absurd hunbound hbound, fun _ _ _ => rfl, fun _ _ _ => rfl,
    fun _ _ => rfl⟩

theorem composition_install_unfrozen {cfg : CompositionSourceAccumulator.Config}
    {s : CompositionSourceAccumulator.State} {version : UInt64}
    {manifest : WeightedPriorValidator.CalldataBytes} {adapters : List Address}
    (h : (CompositionSourceAccumulator.installPolicy H cfg env.toMsg v.sources s version manifest
      adapters).toOption.map (Lane.composition cfg) = some l') :
    Unfrozen H (.installPolicy version manifest adapters) (.composition cfg s) l' := by
  obtain ⟨t, ht, rfl⟩ := map_eq_some_iff.mp h
  obtain ⟨commitment, hinstalled⟩ := CompositionSourceAccumulator.installPolicy_installed
    (toOption_eq_some.mp ht)
  exact ⟨hinstalled.checkpoints, fun _ => hinstalled.snapshot, fun hno => Bool.noConfusion hno,
    fun hno => Bool.noConfusion hno, fun hno => Bool.noConfusion hno⟩

/-- A call of a lane freezes a checkpoint, asked by the snapshot that it is bound to, or none. -/
theorem call_cases (h : call H v address env l c = some l') :
    (∃ id, c = .checkpoint ∧ Minted H v env l l' id) ∨ Unfrozen H c l l' := by
  by_cases hc : c = .checkpoint
  · subst hc
    have hminted : (checkpoint H v address env l).map Prod.fst = some l' := by cases l <;> exact h
    obtain ⟨⟨l'', id⟩, hcheckpoint, rfl⟩ := map_eq_some_iff.mp hminted
    exact .inl ⟨id, rfl, checkpoint_minted hcheckpoint⟩
  · right
    cases l with
    | attestation s =>
      cases c with
      | fold e => exact attestation_unfrozen rfl rfl h
      | foldAt e timestamp => exact attestation_unfrozen rfl rfl h
      | bindSnapshot snapshot reads => exact attestation_bind_unfrozen h
      | checkpoint => exact absurd rfl hc
      | bind _ _ _ => exact absurd h (by simp [call])
      | installPolicy _ _ _ => exact absurd h (by simp [call])
    | mirror s =>
      cases c with
      | bindSnapshot snapshot reads => exact mirror_unfrozen h
      | checkpoint => exact absurd rfl hc
      | fold _ => exact absurd h (by simp [call])
      | foldAt _ _ => exact absurd h (by simp [call])
      | bind _ _ _ => exact absurd h (by simp [call])
      | installPolicy _ _ _ => exact absurd h (by simp [call])
    | empty s =>
      cases c with
      | bindSnapshot snapshot reads => exact empty_unfrozen h
      | checkpoint => exact absurd rfl hc
      | fold _ => exact absurd h (by simp [call])
      | foldAt _ _ => exact absurd h (by simp [call])
      | bind _ _ _ => exact absurd h (by simp [call])
      | installPolicy _ _ _ => exact absurd h (by simp [call])
    | composition cfg s =>
      cases c with
      | bind snapshot controller reads => exact composition_bind_unfrozen h
      | installPolicy version manifest adapters => exact composition_install_unfrozen h
      | checkpoint => exact absurd rfl hc
      | fold _ => exact absurd h (by simp [call])
      | foldAt _ _ => exact absurd h (by simp [call])
      | bindSnapshot _ _ => exact absurd h (by simp [call])

theorem call_owned {self : Address} (hsender : env.sender ≠ self)
    (h : call H v address env l c = some l') (hbound : l.snapshot = self) (hself : self ≠ 0) :
    l'.snapshot = self ∧ l'.checkpoints = l.checkpoints := by
  rcases call_cases h with ⟨id, -, hminted⟩ | hunfrozen
  · exact absurd (hminted.sender.trans hbound) hsender
  · exact ⟨(hunfrozen.snapshot (hbound ▸ hself)).trans hbound, hunfrozen.checkpoints⟩

/-- A lane that is not bound, or bound to `self`, has no checkpoints. -/
def Unminted (self : Address) (l : Lane) : Prop := l.snapshot = 0 ∨ l.snapshot = self → l.checkpoints = []

theorem call_unminted {self : Address} (hsender : env.sender ≠ self)
    (h : call H v address env l c = some l') (hl : Unminted self l) : Unminted self l' := by
  intro hl'
  rcases call_cases h with ⟨id, -, hminted⟩ | hunfrozen
  · -- the lane is bound to the sender
    rw [hminted.snapshot] at hl'
    rcases hl' with hl' | hl'
    · exact absurd hl' hminted.bound
    · exact absurd (hminted.sender.trans hl') hsender
  · rw [hunfrozen.checkpoints]
    by_cases hbound : l.snapshot = 0
    · exact hl (.inl hbound)
    · rw [hunfrozen.snapshot hbound] at hl'
      exact hl hl'

end Lane

end Trustgraphs

namespace Trustgraphs

open Outcome Option Function

namespace MerkleSnapshot

variable {σ : Type} {L : Accumulator σ} {self : Address} {env : BlockEnv} {anchors : AnchorView}
  {s s' : State} {lane lane' : σ} {id : Nat}

theorem ofAccumulator_eq_ok {α : Type} {x : Option α} {a : α} : ofAccumulator x = .ok a ↔ x = some a := by
  cases x with
  | none => simp [ofAccumulator, revert]
  | some b => simp [ofAccumulator]

def consumed (env : BlockEnv) (s : State) (boundary : UInt64) : UInt64 :=
  if s.epochLength = 0 then UInt64.ofNat env.blockNumber.toNat else boundary

theorem trigger_eq_ok (h : trigger L self env anchors s lane = .ok (s', lane', id)) : ¬ (0 < s.epochLength ∧
      env.blockNumber.toNat < s.lastTriggerBlock.toNat + s.epochLength.toNat) ∧
    requireNewInputs L { env with sender := self } anchors s lane = .ok () ∧
    L.checkpoint { env with sender := self } lane = some (lane', id) ∧ id = s.nextCheckpointId ∧
    ∃ boundary, consumedBoundary env s = .ok boundary ∧
      s' = pin anchors { s with lastTriggerBlock := consumed env s boundary } id := by
  unfold trigger revert at h
  obtain ⟨hschedule, h⟩ := of_guard h
  obtain ⟨boundary, hboundary, h⟩ := of_bind h
  obtain ⟨⟨⟩, hfresh, h⟩ := of_bind h
  obtain ⟨⟨lane₁, id₁⟩, hcheckpoint, h⟩ := of_bind h
  obtain ⟨hid, h⟩ := of_guard h
  obtain ⟨rfl, hrest⟩ := Prod.mk.inj (ok_inj h)
  obtain ⟨rfl, rfl⟩ := Prod.mk.inj hrest
  exact ⟨hschedule, hfresh, ofAccumulator_eq_ok.mp hcheckpoint, not_not.mp hid, boundary, hboundary, rfl⟩

variable {e : Abort Error}

theorem ofAccumulator_eq_error {α : Type} {x : Option α}
    (h : ofAccumulator x = .error e) : e = .error .accumulator := by
  cases x with
  | none => exact (Except.error.inj h).symm
  | some a => exact absurd h (by simp [ofAccumulator])

theorem consumedBoundary_eq_error (h : consumedBoundary env s = .error e) : e = .panic := by
  unfold consumedBoundary at h
  split at h
  · rcases bind_eq_error.mp h with h | ⟨elapsed, -, h⟩
    · exact (ofPanic_eq_error.mp h).2.symm
    rcases bind_eq_error.mp h with h | ⟨offset, -, h⟩
    · exact (ofPanic_eq_error.mp h).2.symm
    rcases bind_eq_error.mp h with h | ⟨boundary, -, h⟩
    · exact (ofPanic_eq_error.mp h).2.symm
    · exact absurd h (by simp)
  · exact absurd h (by simp)

theorem requireNewInputs_eq_error (h : requireNewInputs L env anchors s lane = .error e) :
    e = .panic ∨ e = .error .accumulator ∨ e = .error .noNewInputs := by
  unfold requireNewInputs at h
  split at h
  · rcases bind_eq_error.mp h with h | ⟨prev, -, h⟩
    · exact .inl (ofPanic_eq_error.mp h).2.symm
    rcases bind_eq_error.mp h with h | ⟨acc, -, h⟩
    · exact .inr (.inl (ofAccumulator_eq_error h))
    · split at h
      · exact .inr (.inr (Except.error.inj h).symm)
      · exact absurd h (by simp)
  · exact absurd h (by simp)

theorem trigger_eq_error (h : trigger L self env anchors s lane = .error e) :
    0 < s.epochLength ∧ env.blockNumber.toNat < s.lastTriggerBlock.toNat + s.epochLength.toNat ∧
        e = .error (.epochNotElapsed s.lastTriggerBlock s.epochLength) ∨
      e = .panic ∨ e = .error .accumulator ∨ e = .error .noNewInputs ∨
      ∃ lane' id, L.checkpoint { env with sender := self } lane = some (lane', id) ∧
        id ≠ s.nextCheckpointId ∧ e = .error (.unexpectedCheckpointId s.nextCheckpointId id) := by
  unfold trigger revert at h
  rcases ite_error_eq_error.mp h with ⟨⟨hpos, hlt⟩, rfl⟩ | ⟨-, h⟩
  · exact .inl ⟨hpos, hlt, rfl⟩
  right
  rcases bind_eq_error.mp h with h | ⟨boundary, -, h⟩
  · exact .inl (consumedBoundary_eq_error h)
  rcases bind_eq_error.mp h with h | ⟨⟨⟩, -, h⟩
  · rcases requireNewInputs_eq_error h with rfl | rfl | rfl
    · exact .inl rfl
    · exact .inr (.inl rfl)
    · exact .inr (.inr (.inl rfl))
  rcases bind_eq_error.mp h with h | ⟨⟨lane', id⟩, hcheckpoint, h⟩
  · exact .inr (.inl (ofAccumulator_eq_error h))
  rcases ite_error_eq_error.mp h with ⟨hid, rfl⟩ | ⟨-, h⟩
  · exact .inr (.inr (.inr ⟨lane', id, ofAccumulator_eq_ok.mp hcheckpoint, hid, rfl⟩))
  · exact absurd h (by simp)

/-- What filing a state changes: it is the last one now, and over another one of its block if there is. -/
structure Filed (s s' : Storage) (state : MerkleState) (index : Nat) : Prop where
  blocks : s'.stateBlocks = s.stateBlocks ++ [state.blockNumber] ∧ index = s.stateBlocks.length ∧
      s.stateBlocks.getLast? ≠ some state.blockNumber ∨
    s'.stateBlocks = s.stateBlocks ∧ s.stateBlocks.getLast? = some state.blockNumber ∧
      index = s.blockToStateIndex state.blockNumber
  states : s'.states = update s.states index state
  blockToStateIndex : s'.blockToStateIndex = update s.blockToStateIndex state.blockNumber index

variable {s s' : Storage}

theorem updateStateAtBlock_filed {timestamp : U256} {blockNumber : U256}
    {root ipfsHash : B256} {cid : Bytes} {totalValue : U256} {index : Nat}
    (h : updateStateAtBlock timestamp s blockNumber root ipfsHash cid totalValue = .ok (s', index)) :
    Filed s s' ⟨blockNumber, timestamp, root, ipfsHash, cid, totalValue⟩ index ∧ s' = { s with
        states := s'.states, stateBlocks := s'.stateBlocks, blockToStateIndex := s'.blockToStateIndex } := by
  unfold updateStateAtBlock fail at h
  dsimp only at h
  obtain ⟨-, h⟩ := of_guard h
  by_cases hlast : s.stateBlocks.getLast? = some blockNumber
  · rw [if_neg (not_not.mpr hlast)] at h
    obtain ⟨rfl, rfl⟩ := Prod.mk.inj (ok_inj h)
    exact ⟨⟨.inr ⟨rfl, hlast, rfl⟩, rfl, (update_eq_self ..).symm⟩, rfl⟩
  · rw [if_pos hlast] at h
    obtain ⟨rfl, rfl⟩ := Prod.mk.inj (ok_inj h)
    exact ⟨⟨.inl ⟨rfl, rfl, hlast⟩, rfl, rfl⟩, rfl⟩

theorem updateStateAtBlock_error {timestamp : U256} {blockNumber : U256}
    {root ipfsHash : B256} {cid : Bytes} {totalValue : U256} {e : Abort HistoryError}
    (h : updateStateAtBlock timestamp s blockNumber root ipfsHash cid totalValue = .error e) :
    ∃ last, s.stateBlocks.getLast? = some last ∧ blockNumber < last ∧
      e = .error (.nonMonotonicStateBlock blockNumber last) := by
  unfold updateStateAtBlock fail at h
  dsimp only at h
  rcases ite_error_eq_error.mp h with ⟨hlt, rfl⟩ | ⟨-, h⟩
  · obtain ⟨last, hlast, hlt⟩ := (Option.any_eq_true ..).mp hlt
    rw [hlast]
    exact ⟨last, rfl, of_decide_eq_true hlt, rfl⟩
  · split at h
    · exact absurd h (by simp)
    · exact absurd h (by simp)

def Submission.state (p : Submission) (timestamp : U256) (c : AttestationAccumulator.Checkpoint) :
    MerkleState :=
  ⟨uint256 c.blockNumber, timestamp, p.outputRoot, p.ipfsHash, p.ipfsHashCid, p.totalValue⟩

def provenanceOf (env : BlockEnv) (v : VerifierView) (s : Storage) (checkpointId index : Nat) :
    StateProvenance where
  stateIndex := index
  checkpointId := checkpointId
  acceptedAtBlock := UInt64.ofNat env.blockNumber.toNat
  paramsHash := s.checkpointParamsHash checkpointId
  verifier := s.zkVerifier
  verifierCodehash := v.codehash
  programVKey := programVKey v

structure Submitted (H : Hashes) (address : Address) (env : BlockEnv)
    (checkpoints : List AttestationAccumulator.Checkpoint) (v : VerifierView) (p : Submission)
    (s s' : Storage) (c : AttestationAccumulator.Checkpoint) (index : Nat) : Prop where
  fresh : s.hasAppliedCheckpoint = true → s.lastAppliedCheckpoint < p.checkpointId
  frozen : checkpoints[p.checkpointId]? = some c
  pinned : s.checkpointParamsHash p.checkpointId ≠ 0
  verified : v.verify p.proof (journalDigest H (submissionJournal H address env s c p)) = true
  filed : Filed s s' (p.state env.blockTimestamp c) index
  toState : s'.toState = s.toState
  accumulator : s'.accumulator = s.accumulator
  hasAppliedCheckpoint : s'.hasAppliedCheckpoint = true
  lastAppliedCheckpoint : s'.lastAppliedCheckpoint = p.checkpointId
  recorded : s.provenanceEnabled = true →
    s'.acceptedCheckpoints = update s.acceptedCheckpoints p.checkpointId true ∧
    s'.stateProvenance = update s.stateProvenance index (provenanceOf env v s p.checkpointId index) ∧
    s'.acceptedCheckpointStates =
      update s.acceptedCheckpointStates p.checkpointId (p.state env.blockTimestamp c) ∧
    s'.acceptedCheckpointProvenance = update s.acceptedCheckpointProvenance p.checkpointId
        (provenanceOf env v s p.checkpointId index)
  unrecorded : s.provenanceEnabled = false → s'.acceptedCheckpoints = s.acceptedCheckpoints ∧
    s'.stateProvenance = s.stateProvenance ∧
    s'.acceptedCheckpointStates = s.acceptedCheckpointStates ∧
    s'.acceptedCheckpointProvenance = s.acceptedCheckpointProvenance
  provenanceEnabled : s'.provenanceEnabled = s.provenanceEnabled

theorem submitProof_nonMonotonic {H : Hashes} {checkpoints : List AttestationAccumulator.Checkpoint}
    {v : VerifierView} {p : Submission} {b last : U256}
    (h : submitProof H self env checkpoints v s p = .error (.error (.nonMonotonicStateBlock b last))) :
    ∃ c, checkpoints[p.checkpointId]? = some c ∧ s.stateBlocks.getLast? = some last ∧
      uint256 c.blockNumber < last ∧
      (s.hasAppliedCheckpoint = true → s.lastAppliedCheckpoint < p.checkpointId) := by
  unfold submitProof fail at h
  rcases ite_error_eq_error.mp h with ⟨-, h⟩ | ⟨hfresh, h⟩
  · exact absurd h (by simp)
  rcases bind_eq_error.mp h with h | ⟨c, hc, h⟩
  · exact absurd (ofPanic_eq_error.mp h).2 (by simp)
  rcases ite_error_eq_error.mp h with ⟨-, h⟩ | ⟨-, h⟩
  · exact absurd h (by simp)
  rcases ite_error_eq_error.mp h with ⟨-, h⟩ | ⟨-, h⟩
  · exact absurd h (by simp)
  rcases bind_eq_error.mp h with h | ⟨⟨updated, index⟩, -, h⟩
  · obtain ⟨last', hlast, hlt, he⟩ := updateStateAtBlock_error h
    simp only [Abort.error.injEq, HistoryError.nonMonotonicStateBlock.injEq] at he
    obtain ⟨-, rfl⟩ := he
    exact ⟨c, ofPanic_eq_ok.mp hc, hlast, hlt, fun happlied => not_le.mp fun hle => hfresh ⟨happlied, hle⟩⟩
  · exact absurd h (by simp)

theorem submitProof_submitted {H : Hashes} {checkpoints : List AttestationAccumulator.Checkpoint}
    {v : VerifierView} {p : Submission} {index : Nat}
    (h : submitProof H self env checkpoints v s p = .ok (s', index)) :
    ∃ c, Submitted H self env checkpoints v p s s' c index := by
  unfold submitProof fail at h
  obtain ⟨hfresh, h⟩ := of_guard h
  obtain ⟨c, hc, h⟩ := of_bind h
  obtain ⟨hpinned, h⟩ := of_guard h
  obtain ⟨hverified, h⟩ := of_guard h
  obtain ⟨⟨updated, index'⟩, hupdate, h⟩ := of_bind h
  obtain ⟨rfl, rfl⟩ := Prod.mk.inj (ok_inj h)
  obtain ⟨hfiled, hrest⟩ := updateStateAtBlock_filed hupdate
  have hfresh' : s.hasAppliedCheckpoint = true → s.lastAppliedCheckpoint < p.checkpointId :=
    fun happlied => not_le.mp fun hle => hfresh ⟨happlied, hle⟩
  have hfiled' : Filed s updated (p.state env.blockTimestamp c) index' :=
    ⟨hfiled.blocks, hfiled.states, hfiled.blockToStateIndex⟩
  have hstate : updated.states index' = p.state env.blockTimestamp c := by rw [hfiled'.states, update_self]
  refine ⟨c, ?_⟩
  unfold recordProvenance
  by_cases henabled : updated.provenanceEnabled = true
  · rw [if_pos henabled]
    have henabled' : s.provenanceEnabled = true := by
      rw [hrest] at henabled
      exact henabled
    refine ⟨hfresh', ofPanic_eq_ok.mp hc, hpinned, by simpa using hverified,
      ⟨hfiled'.blocks, hfiled'.states, hfiled'.blockToStateIndex⟩, ?_, ?_, ?_, ?_, fun _ => ?_, ?_, ?_⟩
    · show updated.toState = s.toState
      rw [hrest]
    · show updated.accumulator = s.accumulator
      rw [hrest]
    · show updated.hasAppliedCheckpoint = true
      rw [hrest]
    · show updated.lastAppliedCheckpoint = p.checkpointId
      rw [hrest]
    · have hverifier : updated.zkVerifier = s.zkVerifier := by rw [hrest]
      dsimp only
      rw [hstate, hverifier, hrest]
      exact ⟨rfl, rfl, rfl, rfl⟩
    · intro hdisabled
      exact absurd (henabled'.symm.trans hdisabled) (by simp)
    · show updated.provenanceEnabled = s.provenanceEnabled
      rw [hrest]
  · rw [if_neg henabled]
    have henabled' : s.provenanceEnabled ≠ true := by
      rw [hrest] at henabled
      exact henabled
    refine ⟨hfresh', ofPanic_eq_ok.mp hc, hpinned, by simpa using hverified, hfiled', ?_, ?_, ?_, ?_,
      fun henabled => absurd henabled henabled', fun _ => ?_, ?_⟩
    all_goals rw [hrest]
    exact ⟨rfl, rfl, rfl, rfl⟩

structure Kept (s s' : Storage) : Prop where
  nextCheckpointId : s'.nextCheckpointId = s.nextCheckpointId
  checkpointParamsHash : s'.checkpointParamsHash = s.checkpointParamsHash
  checkpointVerifier : s'.checkpointVerifier = s.checkpointVerifier
  anchorCheckpoints : s'.anchorCheckpoints = s.anchorCheckpoints
  lastAppliedCheckpoint : s'.lastAppliedCheckpoint = s.lastAppliedCheckpoint
  hasAppliedCheckpoint : s'.hasAppliedCheckpoint = s.hasAppliedCheckpoint
  states : s'.states = s.states
  stateProvenance : s'.stateProvenance = s.stateProvenance
  stateBlocks : s'.stateBlocks = s.stateBlocks
  blockToStateIndex : s'.blockToStateIndex = s.blockToStateIndex
  acceptedCheckpoints : s'.acceptedCheckpoints = s.acceptedCheckpoints
  acceptedCheckpointStates : s'.acceptedCheckpointStates = s.acceptedCheckpointStates
  acceptedCheckpointProvenance : s'.acceptedCheckpointProvenance = s.acceptedCheckpointProvenance

structure Schedule where
  epochLength : UInt64
  epochOriginBlock : UInt64
  lastTriggerBlock : UInt64

def State.schedule (s : State) : Schedule := ⟨s.epochLength, s.epochOriginBlock, s.lastTriggerBlock⟩

theorem onlyConstitutional_eq_ok {sender : Address} {next : HistoryResult Storage}
    (h : onlyConstitutional sender s next = .ok s') : next = .ok s' := by
  unfold onlyConstitutional fail at h
  exact (of_guard h).2

end MerkleSnapshot

namespace SnapshotWorld

open MerkleSnapshot

variable {H : Hashes} {self : Address} {i : Input} {w w' : World}

/-- What an accepted trigger does: the lane freezes the checkpoint that the snapshot expects. -/
structure Triggered (H : Hashes) (address : Address) (env : BlockEnv) (anchors : AnchorView)
    (view : LaneView) (w w' : World) : Prop where
  scheduled : ¬ (0 < w.snapshot.epochLength ∧
    env.blockNumber.toNat < w.snapshot.lastTriggerBlock.toNat + w.snapshot.epochLength.toNat)
  minted : ∃ lane, Lane.Minted H view { env with sender := address } w.lane lane w.snapshot.nextCheckpointId ∧
    w'.lanes = update w.lanes w.snapshot.accumulator lane
  pinned : ∃ boundary, consumedBoundary env w.snapshot.toState = .ok boundary ∧ w'.snapshot = { w.snapshot with
      toState := pin anchors
        { w.snapshot.toState with lastTriggerBlock := consumed env w.snapshot.toState boundary }
        w.snapshot.nextCheckpointId }

def Call.governs : Call → Bool
  | .trigger _ _ => false
  | .submitProof _ _ => false
  | .lane _ _ _ => false
  | _ => true

structure Governed (env : BlockEnv) (c : Call) (w w' : World) : Prop where
  governs : c.governs = true
  lanes : w'.lanes = w.lanes
  kept : Kept w.snapshot w'.snapshot
  paramsHash : w'.snapshot.paramsHash = w.snapshot.paramsHash ∨
    ∃ h, c = .setParamsHash h ∧ w'.snapshot.paramsHash = h ∧ h ≠ 0
  zkVerifier : w'.snapshot.zkVerifier = w.snapshot.zkVerifier ∨ ∃ a, c = .setZkVerifier a
  accumulator : w'.snapshot.accumulator = w.snapshot.accumulator ∨
    w.lane.checkpoints = [] ∧ w'.lane.checkpoints = []
  anchorRegistry : 0 < w.snapshot.nextCheckpointId → w'.snapshot.anchorRegistry = w.snapshot.anchorRegistry
  schedule : w'.snapshot.schedule = w.snapshot.schedule ∨ ∃ epochLength, c = .setEpochLength epochLength ∧
    w'.snapshot.schedule = (anchorEpoch env.blockNumber w.snapshot.toState epochLength).schedule

inductive Effect (H : Hashes) (self : Address) (env : BlockEnv) (w w' : World) : Call → Prop
  | triggered (anchors : AnchorView) (view : LaneView) (h : Triggered H self env anchors view w w') :
    Effect H self env w w' (.trigger anchors view)
  | submitted (v : VerifierView) (p : Submission) (c : AttestationAccumulator.Checkpoint) (index : Nat)
    (hlanes : w'.lanes = w.lanes)
    (h : Submitted H self env w.lane.checkpoints v p w.snapshot w'.snapshot c index) :
    Effect H self env w w' (.submitProof v p)
  | governed (c : Call) (h : Governed env c w w') : Effect H self env w w' c
  | lane (address : Address) (view : LaneView) (c : Lane.Call) (l : Lane)
    (hsnapshot : w'.snapshot = w.snapshot) (hlanes : w'.lanes = update w.lanes address l)
    (h : Lane.call H view address env (w.lanes address) c = some l) :
    Effect H self env w w' (.lane address view c)

variable {env : BlockEnv} {a : Address}

theorem trigger_triggered {anchors : AnchorView} {view : LaneView} {id : Nat}
    (h : w.trigger H self env anchors view = .ok (w', id)) :
    Triggered H self env anchors view w w' ∧ id = w.snapshot.nextCheckpointId ∧
      requireNewInputs (Lane.accumulator H view w.snapshot.accumulator) { env with sender := self } anchors
        w.snapshot.toState w.lane = .ok () := by
  obtain ⟨⟨s, lane, id'⟩, htrigger, hpair⟩ := map_eq_ok.mp h
  obtain ⟨rfl, rfl⟩ := Prod.mk.inj hpair
  obtain ⟨hscheduled, hfresh, hcheckpoint, hid, hpinned⟩ := trigger_eq_ok htrigger
  obtain ⟨boundary, hboundary, hs⟩ := hpinned
  refine ⟨⟨hscheduled, ⟨lane, hid ▸ Lane.checkpoint_minted hcheckpoint, rfl⟩, boundary, hboundary, ?_⟩, hid,
    hfresh⟩
  show ({ w.snapshot with toState := s } : Storage) = _
  rw [hs, hid]

theorem governed_of {c : Call} {s' : Storage} (hc : c.governs = true) (hkept : Kept w.snapshot s')
    (hparams : s'.paramsHash = w.snapshot.paramsHash) (hverifier : s'.zkVerifier = w.snapshot.zkVerifier)
    (haccumulator : s'.accumulator = w.snapshot.accumulator)
    (hregistry : s'.anchorRegistry = w.snapshot.anchorRegistry)
    (hschedule : s'.schedule = w.snapshot.schedule) : Governed env c w { w with snapshot := s' } :=
  ⟨hc, rfl, hkept, .inl hparams, .inl hverifier, .inl haccumulator, fun _ => hregistry, .inl hschedule⟩

theorem setZkVerifier_governed (h : w.govern (setZkVerifier env.sender w.snapshot a) = some w') :
    Governed env (.setZkVerifier a) w w' := by
  obtain ⟨s', hs', rfl⟩ := map_eq_some_iff.mp h
  have hset := onlyConstitutional_eq_ok (toOption_eq_some.mp hs')
  unfold fail at hset
  obtain ⟨-, hset⟩ := of_guard hset
  obtain rfl := ok_inj hset
  exact ⟨rfl, rfl, by constructor <;> rfl, .inl rfl, .inr ⟨a, rfl⟩, .inl rfl, fun _ => rfl, .inl rfl⟩

theorem setAccumulator_governed (h : w.govern (setAccumulator env.sender w.snapshot
      (fun address => (w.lanes address).checkpoints.length) a) = some w') :
    Governed env (.setAccumulator a) w w' := by
  obtain ⟨s', hs', rfl⟩ := map_eq_some_iff.mp h
  have hset := onlyConstitutional_eq_ok (toOption_eq_some.mp hs')
  unfold fail at hset
  obtain ⟨-, hset⟩ := of_guard hset
  by_cases hsame : a = w.snapshot.accumulator
  · rw [if_pos hsame] at hset
    obtain rfl := ok_inj hset
    exact governed_of rfl (by constructor <;> rfl) rfl rfl rfl rfl rfl
  · rw [if_neg hsame] at hset
    obtain ⟨hempty, hset⟩ := of_guard hset
    obtain rfl := ok_inj hset
    simp only [ne_eq, not_or, not_not, List.length_eq_zero_iff] at hempty
    exact ⟨rfl, rfl, by constructor <;> rfl, .inl rfl, .inl rfl, .inr hempty, fun _ => rfl, .inl rfl⟩

theorem enableStateProvenance_governed (h : w.govern (enableStateProvenance env.sender w.snapshot) = some w') :
    Governed env .enableStateProvenance w w' := by
  obtain ⟨s', hs', rfl⟩ := map_eq_some_iff.mp h
  have hset := onlyConstitutional_eq_ok (toOption_eq_some.mp hs')
  unfold fail at hset
  split at hset
  · obtain rfl := ok_inj hset
    exact governed_of rfl (by constructor <;> rfl) rfl rfl rfl rfl rfl
  · obtain ⟨-, hset⟩ := of_guard hset
    obtain rfl := ok_inj hset
    exact governed_of rfl (by constructor <;> rfl) rfl rfl rfl rfl rfl

theorem setAnchorRegistry_governed (h : w.govern (setAnchorRegistry env.sender w.snapshot a) = some w') :
    Governed env (.setAnchorRegistry a) w w' := by
  obtain ⟨s', hs', rfl⟩ := map_eq_some_iff.mp h
  have hset := onlyConstitutional_eq_ok (toOption_eq_some.mp hs')
  unfold fail at hset
  by_cases hsame : a = w.snapshot.anchorRegistry
  · rw [if_pos hsame] at hset
    obtain rfl := ok_inj hset
    exact governed_of rfl (by constructor <;> rfl) rfl rfl rfl rfl rfl
  · rw [if_neg hsame] at hset
    obtain ⟨hnone, hset⟩ := of_guard hset
    obtain rfl := ok_inj hset
    refine ⟨rfl, rfl, by constructor <;> rfl, .inl rfl, .inl rfl, .inl rfl, fun hpos => ?_, .inl rfl⟩
    exact absurd (decide_eq_true hpos) hnone

theorem setEpochLength_governed {epochLength : UInt64}
    (h : w.govern (setEpochLength env w.snapshot epochLength) = some w') :
    Governed env (.setEpochLength epochLength) w w' := by
  obtain ⟨s', hs', rfl⟩ := map_eq_some_iff.mp h
  have hset := onlyConstitutional_eq_ok (toOption_eq_some.mp hs')
  obtain rfl := ok_inj hset
  have hsame : ∃ origin last, anchorEpoch env.blockNumber w.snapshot.toState epochLength =
      { w.snapshot.toState with
        epochLength := epochLength, epochOriginBlock := origin, lastTriggerBlock := last } := by
    unfold anchorEpoch
    by_cases hlength : epochLength = w.snapshot.epochLength
    · rw [if_neg (not_not.mpr hlength), hlength]
      exact ⟨_, _, rfl⟩
    · rw [if_pos hlength]
      split
      · exact ⟨_, _, rfl⟩
      · exact ⟨_, _, rfl⟩
  obtain ⟨origin, last, hanchored⟩ := hsame
  refine ⟨rfl, rfl, ?_, ?_, ?_, .inl rfl, fun _ => ?_, .inr ⟨epochLength, rfl, rfl⟩⟩
  · rw [hanchored]
    constructor <;> rfl
  · rw [hanchored]
    exact .inl rfl
  · rw [hanchored]
    exact .inl rfl
  · rw [hanchored]

theorem setParamsHash_governed {paramsHash : B256} {s : State}
    (h : setParamsHash env.sender w.snapshot.toState paramsHash = .ok s) :
    Governed env (.setParamsHash paramsHash) w { w with snapshot := { w.snapshot with toState := s } } := by
  unfold setParamsHash revert at h
  obtain ⟨-, h⟩ := of_guard h
  obtain ⟨hzero, h⟩ := of_guard h
  obtain rfl := ok_inj h
  exact ⟨rfl, rfl, by constructor <;> rfl, .inr ⟨paramsHash, rfl, rfl, hzero⟩, .inl rfl, .inl rfl,
    fun _ => rfl, .inl rfl⟩

/-- The effect of a call. -/
theorem call_cases {c : Call} (h : w.call H self env c = some w') :
    Effect H self env w w' c ∧ w'.block = w.block := by
  cases c with
  | trigger anchors view =>
    obtain ⟨⟨w₁, id⟩, htrigger, rfl⟩ := map_eq_some_iff.mp h
    have htrigger := toOption_eq_some.mp htrigger
    refine ⟨.triggered anchors view (trigger_triggered htrigger).1, ?_⟩
    obtain ⟨⟨s, lane, id'⟩, -, hpair⟩ := map_eq_ok.mp htrigger
    obtain ⟨rfl, -⟩ := Prod.mk.inj hpair
    rfl
  | submitProof v p =>
    obtain ⟨⟨w₁, index⟩, hw₁, rfl⟩ := map_eq_some_iff.mp h
    obtain ⟨⟨s, index'⟩, hsubmit, hpair⟩ := map_eq_ok.mp (toOption_eq_some.mp hw₁)
    obtain ⟨rfl, rfl⟩ := Prod.mk.inj hpair
    obtain ⟨c, hc⟩ := submitProof_submitted hsubmit
    exact ⟨.submitted v p c index' rfl hc, rfl⟩
  | setParamsHash paramsHash =>
    obtain ⟨s, hs, rfl⟩ := map_eq_some_iff.mp h
    exact ⟨.governed _ (setParamsHash_governed (toOption_eq_some.mp hs)), rfl⟩
  | setZkVerifier a =>
    refine ⟨.governed _ (setZkVerifier_governed h), ?_⟩
    obtain ⟨s, -, rfl⟩ := map_eq_some_iff.mp h
    rfl
  | setAccumulator a =>
    refine ⟨.governed _ (setAccumulator_governed h), ?_⟩
    obtain ⟨s, -, rfl⟩ := map_eq_some_iff.mp h
    rfl
  | enableStateProvenance =>
    refine ⟨.governed _ (enableStateProvenance_governed h), ?_⟩
    obtain ⟨s, -, rfl⟩ := map_eq_some_iff.mp h
    rfl
  | setAnchorRegistry a =>
    refine ⟨.governed _ (setAnchorRegistry_governed h), ?_⟩
    obtain ⟨s, -, rfl⟩ := map_eq_some_iff.mp h
    rfl
  | setEpochLength epochLength =>
    refine ⟨.governed _ (setEpochLength_governed h), ?_⟩
    obtain ⟨s, -, rfl⟩ := map_eq_some_iff.mp h
    rfl
  | setRoles operational constitutional =>
    obtain rfl := Option.some.inj h
    exact ⟨.governed _ (governed_of rfl (by constructor <;> rfl) rfl rfl rfl rfl rfl), rfl⟩
  | lane address view c =>
    obtain ⟨l, hl, rfl⟩ := map_eq_some_iff.mp h
    exact ⟨.lane address view c l rfl rfl hl, rfl⟩

theorem step_cases (h : step H self i w = some w') : w.block ≤ i.block ∧ w'.block = i.block ∧ i.sender ≠ self ∧
      Effect H self i.env (w.advance i.block) w' i.call := by
  unfold step at h
  simp only [Option.ite_none_left_eq_some] at h
  obtain ⟨hblock, hsender, h⟩ := h
  obtain ⟨heffect, hw'⟩ := call_cases h
  exact ⟨UInt64.not_lt.mp hblock, hw', hsender, heffect⟩

end SnapshotWorld

end Trustgraphs
