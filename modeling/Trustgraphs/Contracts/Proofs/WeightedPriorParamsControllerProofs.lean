import Trustgraphs.Contracts.WeightedPriorParamsController

/-!
# Rotations of a weighted instance

What an accepted call does (`call_cases`), what it keeps (`Inv`), and from that what a run of calls
does: the copies of the commitment agree, and every change of them installs a proposal that was open to
cancellation for the whole delay.
-/

namespace Trustgraphs.WeightedPriorParamsController

open ParamsControl WeightedPriorParamsCodec Outcome WeightedPriorValidator Option

variable {O : Ownership} {σ : Type} {H : Hashes} {c : Config} {L : Accumulator σ}
  {w w' : World (State O) σ} {i : BlockEnv × Call O σ}

/-- The call is an accepted proposal of the commitment `prior`. -/
def Proposes (H : Hashes) (c : Config) (L : Accumulator σ) (i : BlockEnv × Call O σ)
    (w w' : World (State O) σ) (prior : Commitment) : Prop :=
  call H c L i w = some w' ∧ ∃ manifest metadataDigest, i.2 = .proposePrior manifest metadataDigest ∧
    validateManifest H manifest w.controller.currentParams.chainId = .ok prior

/-- The part of the controller that rotations are about. -/
structure Quiet (c : Config) (w w' : World (State O) σ) : Prop where
  version : w'.controller.version = w.controller.version
  latestVersion : w'.controller.latestVersion = w.controller.latestVersion
  currentParamsHash : w'.controller.currentParamsHash = w.controller.currentParamsHash
  currentParams : w'.controller.currentParams = w.controller.currentParams
  pending : w'.controller.pending = w.controller.pending
  hashes : SameHashes c w w'

structure Proposed (H : Hashes) (c : Config) (msg : Msg) (s s' : State O)
    (prior : Commitment) : Prop where
  idle : s.pending.version = 0
  version : s'.version = s.version
  latestVersion : s'.latestVersion.toNat = s.latestVersion.toNat + 1
  currentParamsHash : s'.currentParamsHash = s.currentParamsHash
  currentParams : s'.currentParams = s.currentParams
  pendingVersion : s'.pending.version = s'.latestVersion
  readyAt : s'.pending.readyAt.toNat = (now48 msg).toNat + c.activationDelay.toNat
  priorRoot : s'.pending.priorRoot = prior.priorRoot
  priorCount : s'.pending.priorCount = prior.priorCount
  manifestSha256 : s'.pending.manifestSha256 = prior.manifestSha256
  paramsHash : s'.pending.paramsHash =
    hash H (withPrior s.currentParams prior.priorRoot prior.priorCount prior.manifestSha256)

theorem ofOverflow_eq_ok {α : Type} {x : Option α} {a : α} : ofOverflow x = .ok a ↔ x = some a := by
  cases x with
  | none => simp [ofOverflow]
  | some b => simp [ofOverflow]

variable {msg : Msg} {s : State O}

theorem proposePrior_proposed {s' : State O} {manifest : CalldataBytes} {metadataDigest : B256}
    (h : proposePrior H c msg s manifest metadataDigest = .ok s') :
    ∃ prior, validateManifest H manifest s.currentParams.chainId = .ok prior ∧ Proposed H c msg s s' prior := by
  unfold proposePrior at h
  obtain ⟨-, -, h⟩ := of_bind h
  obtain ⟨-, h⟩ := of_guard h
  obtain ⟨hidle, h⟩ := of_guard h
  obtain ⟨prior, hprior, h⟩ := of_bind h
  obtain ⟨-, h⟩ := of_guard h
  obtain ⟨-, -, h⟩ := of_bind h
  obtain ⟨pendingVersion, hversion, h⟩ := of_bind h
  obtain ⟨readyAt, hready, h⟩ := of_bind h
  obtain rfl := ok_inj h
  rw [ofOverflow_eq_ok, Checked.add64_eq_some] at hversion
  rw [ofOverflow_eq_ok, Checked.add_eq_some] at hready
  exact ⟨prior, withError_eq_ok.mp hprior, not_not.mp hidle, rfl, hversion, rfl, rfl, rfl,
    hready, rfl, rfl, rfl, rfl⟩

theorem cancelPrior_eq_ok {s' : State O} (h : cancelPrior msg s = .ok s') :
    s.pending.version ≠ 0 ∧ s' = { s with
      pending := 0
      versionCommitments := Function.update s.versionCommitments s.pending.version 0 } := by
  unfold cancelPrior at h
  obtain ⟨-, -, h⟩ := of_bind h
  obtain ⟨hpending, h⟩ := of_guard h
  exact ⟨hpending, (ok_inj h).symm⟩

/-- What an accepted activation does: it installs what is pending, in all places. -/
structure Activated (H : Hashes) (c : Config) (msg : Msg) (w w' : World (State O) σ) : Prop where
  pending : w.controller.pending.version ≠ 0
  ready : w.controller.pending.readyAt.toNat ≤ msg.blockTimestamp.toNat
  version : w'.controller.version = w.controller.pending.version
  latestVersion : w'.controller.latestVersion = w.controller.latestVersion
  currentParams : w'.controller.currentParams = withPrior w.controller.currentParams
    w.controller.pending.priorRoot w.controller.pending.priorCount w.controller.pending.manifestSha256
  currentParamsHash : w'.controller.currentParamsHash = hash H w'.controller.currentParams
  idle : w'.controller.pending = 0
  moved : moveHash c w.snapshot w.registry w'.controller.currentParamsHash = .ok (w'.snapshot, w'.registry)

theorem activatePrior_activated {expectedVersion : UInt64}
    (h : activatePrior H c msg w expectedVersion = .ok w') : Activated H c msg w w' := by
  unfold activatePrior at h
  obtain ⟨hpending, h⟩ := of_guard h
  obtain ⟨-, h⟩ := of_guard h
  obtain ⟨hready, h⟩ := of_guard h
  obtain ⟨-, -, h⟩ := of_bind h
  obtain ⟨-, -, h⟩ := of_bind h
  obtain ⟨-, h⟩ := of_guard h
  obtain ⟨⟨snapshot, registry⟩, hmove, h⟩ := of_bind h
  obtain rfl := ok_inj h
  exact ⟨hpending, not_lt.mp hready, rfl, rfl, rfl, rfl, rfl, withError_eq_ok.mp hmove⟩

theorem fromOutside_eq_some {α : Type} {x : Option α} {a : α} :
    fromOutside c msg x = some a ↔ msg.sender ≠ c.self ∧ x = some a := by
  unfold fromOutside
  by_cases h : msg.sender = c.self
  · simp [h]
  · simp [h]

/-- What an accepted call does: it proposes, cancels, activates, or touches nothing that a rotation is
about. -/
inductive Effect (H : Hashes) (c : Config) (L : Accumulator σ) (i : BlockEnv × Call O σ)
    (w w' : World (State O) σ) : Prop where
  | proposed (prior : Commitment) (proposes : Proposes H c L i w w' prior)
      (effect : Proposed H c i.1.toMsg w.controller w'.controller prior) (hashes : SameHashes c w w')
  | cancelled (call : i.2 = .cancelPrior) (pending : w.controller.pending.version ≠ 0)
      (effect : w' = { w with controller := { w.controller with
        pending := 0
        versionCommitments :=
          Function.update w.controller.versionCommitments w.controller.pending.version 0 } })
  | activated (v : UInt64) (call : i.2 = .activatePrior v) (effect : Activated H c i.1.toMsg w w')
  | quiet (proposes : ∀ manifest digest, i.2 ≠ .proposePrior manifest digest)
      (cancels : i.2 ≠ .cancelPrior) (activates : ∀ v, i.2 ≠ .activatePrior v) (effect : Quiet c w w')

theorem call_effect (hreg : Registered c w) (h : call H c L i w = some w') : Effect H c L i w w' := by
  have hcall := h
  obtain ⟨env, f⟩ := i
  have hsame : Registered c w → Registered c { w with controller := w'.controller } :=
    fun hr => ⟨hr.1, hr.2, hr.3, hr.4, hr.5⟩
  cases f with
  | publishInitialVersion =>
    obtain ⟨s, hs, rfl⟩ := map_eq_some_iff.mp h
    unfold publishInitialVersion at hs
    rw [toOption_eq_some, ite_error_eq_ok, ite_error_eq_ok] at hs
    obtain ⟨-, -, hs⟩ := hs
    obtain rfl := ok_inj hs
    exact .quiet nofun nofun nofun ⟨rfl, rfl, rfl, rfl, rfl, rfl, rfl, hsame⟩
  | proposePrior manifest metadataDigest =>
    obtain ⟨s, hs, rfl⟩ := map_eq_some_iff.mp h
    obtain ⟨prior, hprior, hproposed⟩ := proposePrior_proposed (toOption_eq_some.mp hs)
    exact .proposed prior ⟨hcall, manifest, metadataDigest, rfl, hprior⟩ hproposed ⟨rfl, rfl, hsame⟩
  | cancelPrior =>
    obtain ⟨s, hs, rfl⟩ := map_eq_some_iff.mp h
    obtain ⟨hpending, rfl⟩ := cancelPrior_eq_ok (toOption_eq_some.mp hs)
    exact .cancelled rfl hpending rfl
  | activatePrior v => exact .activated v rfl (activatePrior_activated (toOption_eq_some.mp h))
  | ownership f =>
    obtain ⟨o, -, rfl⟩ := map_eq_some_iff.mp h
    exact .quiet nofun nofun nofun ⟨rfl, rfl, rfl, rfl, rfl, rfl, rfl, hsame⟩
  | trigger anchors =>
    obtain ⟨⟨snapshot, lane, id⟩, ht, rfl⟩ := map_eq_some_iff.mp h
    obtain ⟨hhash, hrole, -, -, -⟩ := trigger_triggered (toOption_eq_some.mp ht)
    exact .quiet nofun nofun nofun ⟨rfl, rfl, rfl, rfl, rfl, hhash, rfl, fun hr =>
      ⟨hr.1, hr.2, hr.3.trans hhash.symm, hr.4, fun a ha => hr.5 a (hrole ▸ ha)⟩⟩
  | setParamsHash paramsHash =>
    obtain ⟨hsender, hs⟩ := fromOutside_eq_some.mp h
    obtain ⟨snapshot, hset, -⟩ := map_eq_some_iff.mp hs
    exact absurd (toOption_eq_some.mp hset) (setParamsHash_refused hreg hsender _ _)
  | updateParamsHash instanceId paramsHash =>
    obtain ⟨hsender, hr⟩ := fromOutside_eq_some.mp h
    obtain ⟨registry, hset, rfl⟩ := map_eq_some_iff.mp hr
    exact .quiet nofun nofun nofun ⟨rfl, rfl, rfl, rfl, rfl,
      updateParamsHash_same hreg hsender (toOption_eq_some.mp hset)⟩
  | lane lane =>
    obtain rfl := Option.some.inj h
    exact .quiet nofun nofun nofun ⟨rfl, rfl, rfl, rfl, rfl, rfl, rfl, fun hr =>
      ⟨hr.1, hr.2, hr.3, hr.4, hr.5⟩⟩

/-- The copies of the commitment in the snapshot, the controller and the registry, and the hash of the
parameters that the controller keeps. -/
def copies (H : Hashes) (c : Config) (w : World (State O) σ) : List B256 :=
  [w.snapshot.paramsHash, w.controller.currentParamsHash, registryHash c w.registry,
    hash H w.controller.currentParams]

def pendingParams (s : State O) : WeightedPrior.Params :=
  withPrior s.currentParams s.pending.priorRoot s.pending.priorCount s.pending.manifestSha256

/-- The copies agree, and what is pending builds on the current parameters. -/
structure Inv (H : Hashes) (c : Config) (w : World (State O) σ) : Prop where
  registered : Registered c w
  currentParamsHash : w.controller.currentParamsHash = w.snapshot.paramsHash
  currentParams : hash H w.controller.currentParams = w.snapshot.paramsHash
  version : w.controller.version.toNat ≤ w.controller.latestVersion.toNat
  pendingVersion : w.controller.pending.version ≠ 0 →
    w.controller.pending.version = w.controller.latestVersion ∧
      w.controller.version.toNat < w.controller.latestVersion.toNat
  pendingHash : w.controller.pending.version ≠ 0 →
    w.controller.pending.paramsHash = hash H (pendingParams w.controller)

theorem Inv.agree (h : Inv H c w) : ∀ x ∈ copies H c w, x = w.snapshot.paramsHash := by
  intro x hx
  simp only [copies, List.mem_cons, List.not_mem_nil, or_false] at hx
  rcases hx with rfl | rfl | rfl | rfl
  · rfl
  · exact h.currentParamsHash
  · exact h.registered.paramsHash
  · exact h.currentParams

theorem Inv.step (h : Inv H c w) (hcall : call H c L i w = some w') : Inv H c w' := by
  cases call_effect h.registered hcall with
  | proposed prior proposes effect hashes =>
    have hversion := h.version
    have hlatest := effect.latestVersion
    have hnext : pendingParams w'.controller = withPrior w.controller.currentParams prior.priorRoot
        prior.priorCount prior.manifestSha256 := by
      rw [pendingParams, effect.currentParams, effect.priorRoot, effect.priorCount, effect.manifestSha256]
    refine ⟨hashes.registered h.registered, ?_, ?_, ?_, fun _ => ⟨effect.pendingVersion, ?_⟩,
      fun _ => ?_⟩
    · rw [effect.currentParamsHash, hashes.snapshot, h.currentParamsHash]
    · rw [effect.currentParams, hashes.snapshot, h.currentParams]
    · rw [effect.version]
      omega
    · rw [effect.version]
      omega
    · rw [effect.paramsHash, hnext]
  | cancelled _ _ effect =>
    subst effect
    exact ⟨⟨h.registered.1, h.registered.2, h.registered.3, h.registered.4, h.registered.5⟩,
      h.currentParamsHash, h.currentParams, h.version, fun hne => absurd rfl hne,
      fun hne => absurd rfl hne⟩
  | activated v _ effect =>
    obtain ⟨hreg, hsnapshot, -, -⟩ := h.registered.move effect.moved
    obtain ⟨hpending, -⟩ := h.pendingVersion effect.pending
    refine ⟨hreg, hsnapshot.symm, ?_, ?_, fun hne => ?_, fun hne => ?_⟩
    · rw [hsnapshot, effect.currentParamsHash]
    · rw [effect.version, effect.latestVersion, hpending]
    · exact absurd (congrArg PendingPrior.version effect.idle) hne
    · exact absurd (congrArg PendingPrior.version effect.idle) hne
  | quiet _ _ _ effect =>
    obtain ⟨hv, hl, hh, hp, hpend, hashes⟩ := effect
    refine ⟨hashes.registered h.registered, ?_, ?_, ?_, ?_, ?_⟩
    · rw [hh, hashes.snapshot, h.currentParamsHash]
    · rw [hp, hashes.snapshot, h.currentParams]
    · rw [hv, hl]
      exact h.version
    · rw [hv, hl, hpend]
      exact h.pendingVersion
    · rw [pendingParams, hp, hpend]
      exact h.pendingHash

theorem Inv.run (h : Inv H c w) (calls : List (BlockEnv × Call O σ)) : Inv H c (run H c L w calls) :=
  Run.run_holds (fun _ _ _ hinv hcall => hinv.step hcall) h calls

theorem Inv.activatePrior_ne_assertion (h : Inv H c w) (msg : Msg) (v : UInt64) :
    activatePrior H c msg w v ≠ .error .assertion := by
  intro hfail
  unfold activatePrior at hfail
  rw [ite_error_eq_error, ite_error_eq_error, ite_error_eq_error] at hfail
  rcases hfail with ⟨-, hfail⟩ | ⟨hpending, ⟨-, hfail⟩ | ⟨-, ⟨-, hfail⟩ | ⟨-, hfail⟩⟩⟩
  · exact absurd hfail (by simp)
  · exact absurd hfail (by simp)
  · exact absurd hfail (by simp)
  · rcases bind_eq_error.mp hfail with hlive | ⟨-, -, hfail⟩
    · obtain ⟨e, -, he⟩ := withError_eq_error.mp hlive
      exact absurd he (by simp)
    rcases bind_eq_error.mp hfail with hparams | ⟨-, -, hfail⟩
    · obtain ⟨e, -, he⟩ := withError_eq_error.mp hparams
      exact absurd he (by simp)
    rcases ite_error_eq_error.mp hfail with ⟨hne, -⟩ | ⟨-, hfail⟩
    · exact hne (h.pendingHash hpending).symm
    rcases bind_eq_error.mp hfail with hmove | ⟨⟨_, _⟩, -, hfail⟩
    · obtain ⟨e, -, he⟩ := withError_eq_error.mp hmove
      exact absurd he (by simp)
    exact absurd hfail (by simp)

/-- The proposal `j`, accepted after `earlier`, was open to cancellation for the whole delay and is what
the call `i` installs, `since` later. -/
structure InstalledBy (H : Hashes) (c : Config) (L : Accumulator σ) (w₀ : World (State O) σ)
    (i : BlockEnv × Call O σ) (earlier : List (BlockEnv × Call O σ)) (j : BlockEnv × Call O σ)
    (since : List (BlockEnv × Call O σ)) (w₁ : World (State O) σ)
    (prior : Commitment) : Prop where
  proposes : Proposes H c L j (run H c L w₀ earlier) w₁ prior
  delay : j.1.blockTimestamp.toNat + c.activationDelay.toNat ≤ i.1.blockTimestamp.toNat
  /-- It stayed pending, and no cancellation was accepted. -/
  undisturbed : Run.Undisturbed (call H c L) (fun w => w.controller.pending)
    (fun k => k.2 = .cancelPrior) w₁ since
  version : (run H c L w₁ (since ++ [i])).controller.version = w₁.controller.latestVersion
  currentParams : (run H c L w₁ (since ++ [i])).controller.currentParams =
    withPrior (run H c L w₁ since).controller.currentParams prior.priorRoot prior.priorCount
      prior.manifestSha256

def isProposal : BlockEnv × Call O σ → Bool
  | (_, .proposePrior ..) => true
  | _ => false

def isActivation : BlockEnv × Call O σ → Bool
  | (_, .activatePrior _) => true
  | _ => false

/-- What a run of calls does to the copies of the commitment. -/
structure Rotation (H : Hashes) (c : Config) (L : Accumulator σ) (w₀ : World (State O) σ)
    (calls : List (BlockEnv × Call O σ)) : Prop where
  /-- In every state all copies are the live commitment. -/
  agree : ∀ before after, calls = before ++ after → ∀ x ∈ copies H c (run H c L w₀ before),
    x = (run H c L w₀ before).snapshot.paramsHash
  /-- A call changes all copies or none. -/
  atomic : ∀ before i after, calls = before ++ i :: after →
    copies H c (run H c L w₀ (before ++ [i])) = copies H c (run H c L w₀ before) ∨
      List.Forall₂ (· ≠ ·) (copies H c (run H c L w₀ (before ++ [i])))
        (copies H c (run H c L w₀ before))
  /-- Every change installs a proposal. -/
  installs : ∀ before i after, calls = before ++ i :: after →
    copies H c (run H c L w₀ (before ++ [i])) ≠ copies H c (run H c L w₀ before) →
      ∃ earlier j since w₁ prior, before = earlier ++ j :: since ∧
        InstalledBy H c L w₀ i earlier j since w₁ prior
  /-- The versions proposed rise from the first one. -/
  proposed : (w₀.controller.version.toNat :: Run.marks (call H c L) isProposal
    (fun w => w.controller.latestVersion.toNat) w₀ calls).Pairwise (· < ·)
  /-- The versions activated rise from the first one. -/
  activated : (w₀.controller.version.toNat :: Run.marks (call H c L) isActivation
    (fun w => w.controller.version.toNat) w₀ calls).Pairwise (· < ·)
  /-- The assertion of an activation does not fail. -/
  assertion : ∀ before after, calls = before ++ after → ∀ msg v,
    activatePrior H c msg (run H c L w₀ before) v ≠ .error .assertion

theorem Effect.copies_eq (heffect : Effect H c L i w w') :
    copies H c w' = copies H c w ∨ Activated H c i.1.toMsg w w' := by
  cases heffect with
  | proposed prior _ effect hashes =>
    left
    rw [copies, copies, hashes.snapshot, hashes.registry, effect.currentParamsHash, effect.currentParams]
  | cancelled _ _ effect =>
    left
    rw [effect]
    rfl
  | activated _ _ effect => exact .inr effect
  | quiet _ _ _ effect =>
    left
    rw [copies, copies, effect.hashes.snapshot, effect.hashes.registry, effect.currentParamsHash,
      effect.currentParams]

theorem Activated.copies_ne (h : Inv H c w) (h' : Inv H c w') (hact : Activated H c i.1.toMsg w w') :
    List.Forall₂ (· ≠ ·) (copies H c w') (copies H c w) := by
  obtain ⟨-, hsnapshot, -, hne⟩ := h.registered.move hact.moved
  have hdiff : w'.snapshot.paramsHash ≠ w.snapshot.paramsHash := hsnapshot ▸ hne
  have hcopies : ∀ {v : World (State O) σ}, Inv H c v →
      copies H c v = List.replicate 4 v.snapshot.paramsHash := by
    intro v hv
    exact List.eq_replicate_iff.mpr ⟨rfl, hv.agree⟩
  rw [hcopies h, hcopies h']
  exact .cons hdiff (.cons hdiff (.cons hdiff (.cons hdiff .nil)))

section

variable {w₀ : World (State O) σ} {before : List (BlockEnv × Call O σ)}

theorem run_append (xs ys : List (BlockEnv × Call O σ)) :
    run H c L w₀ (xs ++ ys) = run H c L (run H c L w₀ xs) ys := Run.run_append ..

theorem run_concat_accepted {w' : World (State O) σ}
    (h : call H c L i (run H c L w₀ before) = some w') : run H c L w₀ (before ++ [i]) = w' := by
  rw [run_append]
  exact Run.apply_accepted h

theorem run_concat_refused (h : call H c L i (run H c L w₀ before) = none) :
    run H c L w₀ (before ++ [i]) = run H c L w₀ before := by
  rw [run_append]
  exact Run.apply_refused h

theorem pending_cases (h : Inv H c w) (hcall : call H c L i w = some w') :
    w'.controller.pending = w.controller.pending ∧ ¬ i.2 = .cancelPrior ∨ w'.controller.pending.version = 0 ∨
      (∃ prior, Proposes H c L i w w' prior ∧
        Proposed H c i.1.toMsg w.controller w'.controller prior) ∧ ¬ i.2 = .cancelPrior := by
  cases call_effect h.registered hcall with
  | proposed prior proposes effect _ =>
    obtain ⟨-, _, _, hproposal, -⟩ := id proposes
    exact .inr (.inr ⟨⟨prior, proposes, effect⟩, fun hc => absurd (hproposal.symm.trans hc) nofun⟩)
  | cancelled _ _ effect =>
    rw [effect]
    exact .inr (.inl rfl)
  | activated _ _ effect => exact .inr (.inl (congrArg PendingPrior.version effect.idle))
  | quiet _ hcancel _ effect => exact .inl ⟨effect.pending, hcancel⟩

theorem installedBy (hinv : Inv H c w₀) (hidle : w₀.controller.pending.version = 0)
    (htime : ∀ j ∈ before, j.1.blockTimestamp.toNat < 2 ^ 48)
    (hcall : call H c L i (run H c L w₀ before) = some w')
    (hact : Activated H c i.1.toMsg (run H c L w₀ before) w') :
    ∃ earlier j since w₁ prior, before = earlier ++ j :: since ∧
      InstalledBy H c L w₀ i earlier j since w₁ prior := by
  obtain ⟨earlier, j, since, w₁, rfl, hj, ⟨prior, proposes, effect⟩, hpending, hsince⟩ :=
    Run.exists_undisturbed (call H c L) (fun w => w.controller.pending) (fun p => p.version = 0)
      (fun j w w' => ∃ prior, Proposes H c L j w w' prior ∧
        Proposed H c j.1.toMsg w.controller w'.controller prior) (fun k => k.2 = .cancelPrior)
      (fun _ _ _ hP hc => Inv.step hP hc) (fun _ _ _ hP hc => pending_cases hP hc) hinv hidle
      hact.pending
  have hrun : run H c L w₀ (earlier ++ j :: since) = run H c L w₁ since := by
    rw [run_append]
    exact congrArg (run H c L · since) (Run.apply_accepted hj)
  rw [hrun] at hcall hact
  have hwaiting : (run H c L w₁ since).controller.pending = w₁.controller.pending := by
    rw [← hrun]
    exact hpending.symm
  have hready := hact.ready
  rw [hwaiting, effect.readyAt] at hready
  have hnow : (now48 j.1.toMsg).toNat = j.1.blockTimestamp.toNat := by
    have hj48 := htime j (by simp)
    rw [now48, BitVec.toNat_setWidth, Nat.mod_eq_of_lt hj48]
  refine ⟨earlier, j, since, w₁, prior, rfl, proposes, hnow ▸ hready, hsince, ?_, ?_⟩
  · rw [run_concat_accepted hcall, hact.version, hwaiting, effect.pendingVersion]
  · rw [run_concat_accepted hcall, hact.currentParams, hwaiting, effect.priorRoot,
      effect.priorCount, effect.manifestSha256]

end

theorem Inv.versions (h : Inv H c w) (hcall : call H c L i w = some w') :
    (w.controller.latestVersion.toNat ≤ w'.controller.latestVersion.toNat ∧ (isProposal i = true →
        w.controller.latestVersion.toNat < w'.controller.latestVersion.toNat)) ∧
    (w.controller.version.toNat ≤ w'.controller.version.toNat ∧
      (isActivation i = true → w.controller.version.toNat < w'.controller.version.toNat)) := by
  obtain ⟨env, f⟩ := i
  cases call_effect h.registered hcall with
  | proposed prior proposes effect hashes =>
    obtain ⟨-, manifest, digest, rfl, -⟩ := proposes
    have hlatest := effect.latestVersion
    rw [effect.version]
    exact ⟨⟨by omega, fun _ => by omega⟩, le_refl _, nofun⟩
  | cancelled hf _ effect =>
    obtain rfl := hf
    rw [effect]
    exact ⟨⟨le_refl _, nofun⟩, le_refl _, nofun⟩
  | activated v hf effect =>
    obtain rfl := hf
    obtain ⟨hpending, hlt⟩ := h.pendingVersion effect.pending
    rw [effect.version, effect.latestVersion, hpending]
    exact ⟨⟨le_refl _, nofun⟩, hlt.le, fun _ => hlt⟩
  | quiet hproposes _ hactivates effect =>
    rw [effect.version, effect.latestVersion]
    refine ⟨⟨le_refl _, fun hp => ?_⟩, le_refl _, fun ha => ?_⟩
    · cases f with
      | proposePrior manifest digest => exact absurd rfl (hproposes manifest digest)
      | _ => exact absurd hp nofun
    · cases f with
      | activatePrior v => exact absurd rfl (hactivates v)
      | _ => exact absurd ha nofun

/-- The rotations of an instance whose copies agree and that has nothing pending. -/
theorem rotation_of_inv {w₀ : World (State O) σ} {calls : List (BlockEnv × Call O σ)}
    (h : Inv H c w₀) (hidle : w₀.controller.pending.version = 0)
    (htime : ∀ j ∈ calls, j.1.blockTimestamp.toNat < 2 ^ 48) : Rotation H c L w₀ calls := by
  have hstep : ∀ before i, copies H c (run H c L w₀ (before ++ [i])) =
      copies H c (run H c L w₀ before) ∨ ∃ w', call H c L i (run H c L w₀ before) = some w' ∧
        run H c L w₀ (before ++ [i]) = w' ∧
        Activated H c i.1.toMsg (run H c L w₀ before) w' := by
    intro before i
    have hbefore : Inv H c (run H c L w₀ before) := h.run before
    cases hcall : call H c L i (run H c L w₀ before) with
    | none => exact .inl (by rw [run_concat_refused hcall])
    | some w' =>
      rw [run_concat_accepted hcall]
      rcases (call_effect hbefore.registered hcall).copies_eq with hsame | hact
      · exact .inl hsame
      · exact .inr ⟨w', rfl, rfl, hact⟩
  have hproposals : ∀ (i : BlockEnv × Call O σ) (w w' : World (State O) σ), Inv H c w →
      call H c L i w = some w' → Inv H c w' ∧
      w.controller.latestVersion.toNat ≤ w'.controller.latestVersion.toNat ∧
      (isProposal i = true → w.controller.latestVersion.toNat < w'.controller.latestVersion.toNat) :=
    fun _ _ _ hinv hcall => ⟨hinv.step hcall, (hinv.versions hcall).1⟩
  have hactivations : ∀ (i : BlockEnv × Call O σ) (w w' : World (State O) σ), Inv H c w →
      call H c L i w = some w' → Inv H c w' ∧
      w.controller.version.toNat ≤ w'.controller.version.toNat ∧
      (isActivation i = true → w.controller.version.toNat < w'.controller.version.toNat) :=
    fun _ _ _ hinv hcall => ⟨hinv.step hcall, (hinv.versions hcall).2⟩
  refine ⟨?_, ?_, ?_, ?_, ?_, ?_⟩
  · intro before _ _
    exact (h.run before).agree
  · intro before i _ _
    rcases hstep before i with hsame | ⟨w', hcall, hrun, hact⟩
    · exact .inl hsame
    · rw [hrun]
      exact .inr (hact.copies_ne (h.run before) ((h.run before).step hcall))
  · rintro before i after rfl hne
    rcases hstep before i with hsame | ⟨w', hcall, -, hact⟩
    · exact absurd hsame hne
    · exact installedBy h hidle (fun j hj => htime j (by simp [hj])) hcall hact
  · exact List.Pairwise.cons
      (fun n hn => lt_of_le_of_lt h.version (Run.lt_of_mem_marks hproposals h hn))
      (Run.marks_pairwise hproposals h calls)
  · exact List.Pairwise.cons (fun n hn => Run.lt_of_mem_marks hactivations h hn)
      (Run.marks_pairwise hactivations h calls)
  · intro before _ _ msg v
    exact (h.run before).activatePrior_ne_assertion msg v

/-- The instance before its first version is published: the controller is as it was deployed on the
commitment of the snapshot, its ownership apart. -/
structure Deployed (H : Hashes) (c : Config) (w : World (State O) σ) : Prop where
  constructed : ∃ (msg : Msg) (initialParams : WeightedPrior.Params) (manifest : MemoryBytes)
    (metadataDigest : B256) (ownership : O.State),
    constructor H c msg w.snapshot.paramsHash initialParams manifest metadataDigest ownership =
      .ok { w.controller with ownership := ownership }
  registered : Registered c w

theorem inv_published (hdeployed : Deployed H c w)
    (hpublish : publishInitialVersion c msg w.controller = .ok s) :
    Inv H c { w with controller := s } ∧ s.pending.version = 0 := by
  obtain ⟨⟨_, initialParams, _, _, _, hconstruct⟩, hregistered⟩ := hdeployed
  unfold constructor at hconstruct
  obtain ⟨-, hconstruct⟩ := of_guard hconstruct
  obtain ⟨-, hconstruct⟩ := of_guard hconstruct
  obtain ⟨-, -, hconstruct⟩ := of_bind hconstruct
  obtain ⟨prior, -, hconstruct⟩ := of_bind hconstruct
  obtain ⟨-, hconstruct⟩ := of_guard hconstruct
  obtain ⟨hlive, hconstruct⟩ := of_guard hconstruct
  have hstate := ok_inj hconstruct
  have hhash : hash H initialParams = w.snapshot.paramsHash := not_not.mp hlive
  have hversion := congrArg State.version hstate
  have hlatest := congrArg State.latestVersion hstate
  have hcurrent := congrArg State.currentParamsHash hstate
  have hparams := congrArg State.currentParams hstate
  have hpending := congrArg State.pending hstate
  dsimp only at hversion hlatest hcurrent hparams hpending
  have hidle : w.controller.pending.version = 0 := (congrArg PendingPrior.version hpending).symm
  unfold publishInitialVersion at hpublish
  obtain ⟨-, hpublish⟩ := of_guard hpublish
  obtain ⟨-, hpublish⟩ := of_guard hpublish
  obtain rfl := ok_inj hpublish
  refine ⟨⟨⟨hregistered.1, hregistered.2, hregistered.3, hregistered.4, hregistered.5⟩, ?_, ?_, ?_,
    fun hne => absurd hidle hne, fun hne => absurd hidle hne⟩, hidle⟩
  · rw [← hcurrent, hhash]
  · rw [← hparams, hhash]
  · rw [← hversion, ← hlatest]

end Trustgraphs.WeightedPriorParamsController
