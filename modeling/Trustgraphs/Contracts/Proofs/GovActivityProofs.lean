import Trustgraphs.Contracts.Proofs.MerkleGovModuleProofs
import Trustgraphs.Contracts.SignerSyncZkModule
import Trustgraphs.PagerankCore.Proofs.SignerProofs

/-!
# The activity log of the governance module

The module keeps a chain of its direct votes, with the accounts that cast them, and checkpoints of
the chain.
-/

namespace Trustgraphs.MerkleGovModule

open Evm Signer Outcome CallStack List

variable {H : Hashes} {env : Env} {w v w' : World}

def activityOf (noted : Noted) : Option SignerActivity :=
  match noted.entry with
  | .voted proposalId _ ballot =>
    if ballot.kind = .delegated then none else some ⟨ballot.caller, proposalId, noted.blockNumber⟩
  | _ => none

def activityLog (w : World) : List SignerActivity := w.history.filterMap activityOf

/-- The chain and its checkpoints are those of the log, whose accounts are possible owners. -/
structure Logged (H : Hashes) (w : World) : Prop where
  acc : w.activityAccumulator = activityChain H (activityLog w)
  count : w.activityCount.toNat = (activityLog w).length
  accounts : ∀ record ∈ activityLog w, OwnerManager.valid record.account
  checkpoints : ∀ c ∈ w.activityCheckpoints, ∃ earlier later, activityLog w = earlier ++ later ∧
    c.acc = activityChain H earlier ∧ c.count.toNat = earlier.length

/-- A turn without activity: only the block may be a later one. -/
structure Untouched (w w' : World) : Prop where
  log : activityLog w' = activityLog w
  acc : w'.activityAccumulator = w.activityAccumulator
  count : w'.activityCount = w.activityCount
  checkpoints : w'.activityCheckpoints = w.activityCheckpoints
  emitted : w'.emitted = w.emitted
  blockNumber : w.blockNumber ≤ w'.blockNumber

theorem Untouched.refl (w : World) : Untouched w w := ⟨rfl, rfl, rfl, rfl, rfl, UInt64.le_refl _⟩

theorem Untouched.trans (h : Untouched w v) (h' : Untouched v w') : Untouched w w' where
  log := h'.log.trans h.log
  acc := h'.acc.trans h.acc
  count := h'.count.trans h.count
  checkpoints := h'.checkpoints.trans h.checkpoints
  emitted := h'.emitted.trans h.emitted
  blockNumber := UInt64.le_trans h.blockNumber h'.blockNumber

theorem activityLog_note {entry : Entry} (h : activityOf ⟨w.blockNumber, entry⟩ = none) :
    activityLog (w.note entry) = activityLog w := by
  show (w.history ++ [_]).filterMap activityOf = _
  rw [filterMap_append, filterMap_cons_none h, filterMap_nil, append_nil]
  rfl

theorem Untouched.note {entry : Entry} (h : activityOf ⟨w.blockNumber, entry⟩ = none) :
    Untouched w (w.note entry) :=
  ⟨activityLog_note h, rfl, rfl, rfl, rfl, UInt64.le_refl _⟩

/-- The sender has voted, and the vote is not yet in the chain. -/
structure Voted (env : Env) (proposalId : U256) (w v : World) : Prop where
  log : activityLog v = activityLog w ++ [⟨env.msgSender, proposalId, v.blockNumber⟩]
  acc : v.activityAccumulator = w.activityAccumulator
  count : v.activityCount = w.activityCount
  checkpoints : v.activityCheckpoints = w.activityCheckpoints
  emitted : v.emitted = w.emitted
  blockNumber : v.blockNumber = w.blockNumber

variable {proposalId : U256} {voteType : VoteType} {votingPower : U256} {c : Call}

theorem Untouched.voted (h : Untouched w v) (hblock : v.blockNumber = w.blockNumber)
    (h' : Voted env proposalId v w') : Voted env proposalId w w' where
  log := by rw [h'.log, h.log]
  acc := h'.acc.trans h.acc
  count := h'.count.trans h.count
  checkpoints := h'.checkpoints.trans h.checkpoints
  emitted := h'.emitted.trans h.emitted
  blockNumber := h'.blockNumber.trans hblock

def Call.VotesOn (proposalId : U256) : Call → Prop
  | .castVote id _ _ _ => id = proposalId
  | .proposeWithVote _ _ => True
  | _ => False

inductive Acts (H : Hashes) (env : Env) (c : Call) (w w' : World) : Prop where
  | untouched (effect : Untouched w w')
  | checkpointed (call : c = .checkpointSignerActivity) (effect : w' = pushCheckpoint w)
  | voted (v : World) (proposalId : U256) (call : c.VotesOn proposalId) (vote : Voted env proposalId w v)
      (effect : recordDirectActivity H v env.msgSender proposalId = .ok w')

def TurnUntouched (w : World) : Turn World Waiting Revert → Prop
  | .returned w' => Untouched w w'
  | .reverted _ => True
  | .waits w' _ => Untouched w w'

/-- What the first turn of a call does to the activity. -/
def TurnActs (H : Hashes) (env : Env) (c : Call) (w : World) : Turn World Waiting Revert → Prop
  | .returned w' => Acts H env c w w'
  | .reverted _ => True
  | .waits w' _ => Untouched w w'

theorem SettingsOnly.untouched (h : SettingsOnly w w') : Untouched w w' where
  log := by rw [activityLog, h.history, activityLog]
  acc := h.acc
  count := h.count
  checkpoints := h.checkpoints
  emitted := h.emitted
  blockNumber := UInt64.le_of_eq h.blockNumber.symm

theorem createProposal_untouched {args : ProposeArgs} (h : createProposal H env w args = .ok (w', proposalId)) :
    Untouched w w' ∧ w'.blockNumber = w.blockNumber := by
  rw [createProposal] at h
  obtain ⟨-, h⟩ := of_guard h
  obtain ⟨-, h⟩ := of_guard h
  obtain ⟨u, -, h⟩ := of_bind h
  cases hrefused : args.actions.find? (refuses w) with
  | some a =>
    rw [hrefused] at h
    cases h
  | none =>
    rw [hrefused] at h
    obtain ⟨id, -, h⟩ := of_bind h
    obtain ⟨startBlock, -, h⟩ := of_bind h
    obtain ⟨endBlock, -, h⟩ := of_bind h
    obtain ⟨executableAt, -, h⟩ := of_bind h
    obtain ⟨deadline, -, h⟩ := of_bind h
    obtain ⟨rfl, rfl⟩ := Prod.mk.inj (ok_inj h)
    exact ⟨⟨activityLog_note rfl, rfl, rfl, rfl, rfl, UInt64.le_refl _⟩, rfl⟩

theorem recordVote_direct {voter : Address} {kind : Kind} (hkind : kind ≠ .delegated)
    (h : recordVote env w proposalId voter kind voteType votingPower = .ok w') :
    Voted env proposalId w w' := by
  obtain ⟨proposal, -, h⟩ := of_bind h
  obtain rfl := ok_inj h
  refine ⟨?_, rfl, rfl, rfl, rfl, rfl⟩
  show (w.history ++ [_]).filterMap activityOf = _
  have hactivity : activityOf ⟨w.blockNumber,
      .voted proposalId voter ⟨kind, env.msgSender, voteType, votingPower⟩⟩ =
      some ⟨env.msgSender, proposalId, w.blockNumber⟩ := if_neg hkind
  rw [filterMap_append, filterMap_cons_some hactivity, filterMap_nil]
  rfl

theorem castDirectVote_eq_ok
    (h : castDirectVote env w proposalId voteType votingPower = .ok w') : Voted env proposalId w w' := by
  rw [castDirectVote] at h
  by_cases hvoted : w.hasVoted proposalId env.msgSender = true
  · rw [if_pos hvoted, overrideDelegateVote] at h
    obtain ⟨-, h⟩ := of_guard h
    obtain ⟨lowered, -, h⟩ := of_bind h
    obtain ⟨proposal, -, h⟩ := of_bind h
    obtain rfl := ok_inj h
    refine ⟨?_, rfl, rfl, rfl, rfl, rfl⟩
    show (w.history ++ [_]).filterMap activityOf = _
    rw [filterMap_append]
    rfl
  · rw [if_neg hvoted] at h
    exact recordVote_direct (by decide) h

theorem begin_untouched (h : begin w proposalId = .ok w') : Untouched w w' := by
  obtain ⟨current, -, h⟩ := of_bind h
  obtain ⟨-, h⟩ := of_guard h
  obtain ⟨executableAt, -, h⟩ := of_bind h
  obtain ⟨-, h⟩ := of_guard h
  obtain rfl := ok_inj h
  exact ⟨activityLog_note rfl, rfl, rfl, rfl, rfl, UInt64.le_refl _⟩

theorem castVoteAsDelegate_untouched {principal : Address} {proof : List B256} {reason : Bytes}
    (h : castVoteAsDelegate H env w principal proposalId voteType votingPower proof reason = .ok w') :
    Untouched w w' := by
  obtain ⟨current, -, h⟩ := of_bind h
  obtain ⟨-, h⟩ := of_guard h
  obtain ⟨-, h⟩ := of_guard h
  obtain ⟨-, h⟩ := of_guard h
  obtain ⟨-, h⟩ := of_guard h
  obtain ⟨u, -, h⟩ := of_bind h
  obtain ⟨v, hvote, h⟩ := of_bind h
  obtain ⟨proposal, -, hvote⟩ := of_bind hvote
  obtain rfl := ok_inj hvote
  obtain rfl := ok_inj h
  exact ⟨activityLog_note rfl, rfl, rfl, rfl, rfl, UInt64.le_refl _⟩

theorem cancel_untouched (h : cancel env w proposalId = .ok w') : Untouched w w' := by
  obtain ⟨-, h⟩ := of_guard h
  obtain ⟨-, h⟩ := of_guard h
  obtain ⟨-, h⟩ := of_guard h
  obtain ⟨-, h⟩ := of_guard h
  obtain rfl := ok_inj h
  exact ⟨activityLog_note rfl, rfl, rfl, rfl, rfl, UInt64.le_refl _⟩

theorem TurnActs.ended {r : Result World} (h : ∀ w', r = .ok w' → Acts H env c w w') :
    TurnActs H env c w (ended r) := by
  cases r with
  | ok w' => exact h w' rfl
  | error e => trivial

theorem TurnUntouched.acts {turn : Turn World Waiting Revert} (h : TurnUntouched w turn) :
    TurnActs H env c w turn := by
  cases turn with
  | returned w' => exact .untouched h
  | reverted e => trivial
  | waits w' k => exact h

theorem perform_untouched (h : Untouched w v) (proposalId : U256) (actions : List ProposalAction) (index : ℕ) :
    TurnUntouched w (perform v proposalId actions index) := by
  rcases perform_spec v proposalId actions index with hturn | ⟨e, hturn⟩ | ⟨-, hturn⟩
  · rw [hturn]
    exact h
  · rw [hturn]
    trivial
  · rw [hturn]
    exact h.trans (.note rfl)

theorem resume_untouched (k : Waiting) (a : Option Bool) (w : World) : TurnUntouched w (resume k a w) := by
  match a with
  | none => trivial
  | some false => trivial
  | some true => exact perform_untouched (.refl w) ..

theorem advance_untouched {b : UInt64} (h : advance b w = some w') : Untouched w w' := by
  rw [advance] at h
  by_cases hb : b < w.blockNumber
  · rw [if_pos hb] at h
    cases h
  · rw [if_neg hb, Option.some_inj] at h
    rw [← h]
    exact ⟨rfl, rfl, rfl, rfl, rfl, UInt64.not_lt.mp hb⟩

/-- What the first turn of a call does. -/
theorem enter_acts (i : Env × Call) (w : World) : TurnActs H i.1 i.2 w (enter H i w) := by
  obtain ⟨env, c⟩ := i
  by_cases hc : c.Sets
  · cases hturn : enter H (env, c) w with
    | returned w' =>
      rcases hc.enter_cases hturn with hsame | ⟨hcall, heffect⟩
      · exact .untouched hsame.untouched
      · exact .checkpointed hcall heffect
    | reverted e => trivial
    | waits w' k =>
      cases c with
      | execute => exact hc.elim
      | setUp => exact hc.elim
      | _ => exact absurd hturn ended_ne_waits
  · cases c with
    | setUp => trivial
    | propose args =>
      refine TurnActs.ended fun w' h => ?_
      obtain ⟨⟨v, proposalId⟩, hcreate, h⟩ := of_bind h
      obtain rfl := ok_inj h
      exact .untouched (createProposal_untouched hcreate).1
    | proposeWithVote args voteType =>
      refine TurnActs.ended fun w' h => ?_
      obtain ⟨⟨v, proposalId⟩, hcreate, h⟩ := of_bind h
      obtain ⟨u, hvote, hrecord⟩ := of_bind h
      obtain ⟨huntouched, hblock⟩ := createProposal_untouched hcreate
      exact .voted u proposalId trivial (huntouched.voted hblock (recordVote_direct (by decide) hvote)) hrecord
    | castVote proposalId voteType votingPower proof =>
      refine TurnActs.ended fun w' h => ?_
      obtain ⟨current, -, h⟩ := of_bind h
      obtain ⟨-, h⟩ := of_guard h
      obtain ⟨-, h⟩ := of_guard h
      obtain ⟨u, -, h⟩ := of_bind h
      obtain ⟨v, hvote, hrecord⟩ := of_bind h
      exact .voted v proposalId rfl (castDirectVote_eq_ok hvote) hrecord
    | castVoteAsDelegate principal proposalId voteType votingPower proof reason =>
      exact TurnActs.ended fun w' h => .untouched (castVoteAsDelegate_untouched h)
    | execute proposalId =>
      show TurnActs H env (.execute proposalId) w (execute w proposalId)
      cases hbegin : begin w proposalId with
      | error e =>
        rw [execute, hbegin]
        trivial
      | ok v =>
        rw [execute, hbegin]
        exact (perform_untouched (begin_untouched hbegin) ..).acts
    | cancel proposalId => exact TurnActs.ended fun w' h => .untouched (cancel_untouched h)
    | _ => exact absurd trivial hc

theorem preserved_of_acts {P : World → Prop} {ok : Event → World → Prop}
    (huntouched : ∀ w w', P w → Untouched w w' → P w')
    (hacts : ∀ i w w', ok (.enter i) w → P w → Acts H i.1 i.2 w w' → P w') :
    Preserved (contract H) ok fun _ => P where
  enter i ks w hok h := by
    have hturn := enter_acts (H := H) i w
    show TurnHolds (fun _ => P) ks (enter H i w)
    cases hresult : enter H i w with
    | returned w' =>
      rw [hresult] at hturn
      exact hacts i w w' hok h hturn
    | reverted e => trivial
    | waits w' k =>
      rw [hresult] at hturn
      exact huntouched w w' h hturn
  resume k ks a w _ h := by
    have hturn := resume_untouched k a w
    show TurnHolds (fun _ => P) ks (resume k a w)
    cases hresult : resume k a w with
    | returned w' =>
      rw [hresult] at hturn
      exact huntouched w w' h hturn
    | reverted e => trivial
    | waits w' k' =>
      rw [hresult] at hturn
      exact huntouched w w' h hturn
  outside o ks w _ h := huntouched w _ h ⟨rfl, rfl, rfl, rfl, rfl, UInt64.le_refl _⟩
  between b w w' _ h hb := huntouched w w' h (advance_untouched hb)

theorem Logged.untouched (h : Logged H w) (hsame : Untouched w w') : Logged H w' := by
  refine ⟨?_, ?_, ?_, ?_⟩
  · rw [hsame.acc, hsame.log, h.acc]
  · rw [hsame.count, hsame.log, h.count]
  · rw [hsame.log]
    exact h.accounts
  · rw [hsame.log, hsame.checkpoints]
    exact h.checkpoints

theorem Logged.pushCheckpoint (h : Logged H w) : Logged H (pushCheckpoint w) := by
  refine ⟨h.acc, h.count, h.accounts, fun c hc => ?_⟩
  rcases mem_append.mp hc with hc | hc
  · exact h.checkpoints c hc
  · rw [mem_singleton.mp hc]
    exact ⟨activityLog w, [], (append_nil _).symm, h.acc, h.count⟩

theorem Logged.recorded (h : Logged H w) (haccount : OwnerManager.valid env.msgSender)
    (hvoted : Voted env proposalId w v) (hrecord : recordDirectActivity H v env.msgSender proposalId = .ok w') :
    Logged H w' := by
  obtain ⟨sequence, hsequence, hrecord⟩ := of_bind hrecord
  obtain rfl := ok_inj hrecord
  have hnumber : sequence.toNat = (activityLog w).length + 1 := by
    rw [← h.count, ← hvoted.count]
    exact Checked.add64_eq_some.mp (arith_eq_ok.mp hsequence)
  refine Logged.pushCheckpoint ⟨?_, ?_, fun record hrecord => ?_, fun c hc => ?_⟩
  · show H.keccak256 _ = activityChain H (activityLog v)
    rw [hvoted.log, activityChain_concat, ← h.acc, ← hvoted.acc, ← hnumber, UInt64.ofNat_toNat]
    rfl
  · show sequence.toNat = (activityLog v).length
    rw [hvoted.log, hnumber, length_append]
    rfl
  · have hmem : record ∈ activityLog v := hrecord
    rw [hvoted.log] at hmem
    rcases mem_append.mp hmem with hmem | hmem
    · exact h.accounts record hmem
    · rw [mem_singleton.mp hmem]
      exact haccount
  · have hc' : c ∈ v.activityCheckpoints := hc
    rw [hvoted.checkpoints] at hc'
    obtain ⟨earlier, later, hsplit, hboth⟩ := h.checkpoints c hc'
    refine ⟨earlier, later ++ [⟨env.msgSender, proposalId, v.blockNumber⟩], ?_, hboth⟩
    show activityLog v = _
    rw [hvoted.log, hsplit, append_assoc]

theorem Logged.acts (h : Logged H w) (hsender : OwnerManager.valid env.msgSender)
    (hacts : Acts H env c w w') : Logged H w' := by
  cases hacts with
  | untouched hsame => exact h.untouched hsame
  | checkpointed _ heffect => exact heffect ▸ h.pushCheckpoint
  | voted v proposalId _ hvoted hrecord => exact h.recorded hsender hvoted hrecord

/-- The sender of a call may be an owner: it is neither the zero address nor the precompiled contract at one. -/
def SenderValid (event : Event) : Prop :=
  match event with
  | .enter i => OwnerManager.valid i.1.msgSender
  | _ => True

theorem logged_preserved (H : Hashes) :
    Preserved (contract H) (fun event _ => SenderValid event) fun _ => Logged H :=
  preserved_of_acts (fun _ _ h hsame => h.untouched hsame) fun _ _ _ hsender h hacts => h.acts hsender hacts

/-- The world before the constructor binds the snapshot. -/
def unbound (blockNumber : UInt64) (owner avatar target : Address) : World :=
  { toStorage := initial owner avatar target, blockNumber, history := [] }

theorem Start.untouched (h : Start w) : ∃ blockNumber owner avatar target,
    Untouched (unbound blockNumber owner avatar target) w := by
  obtain ⟨env, blockNumber, owner, avatar, target, merkleSnapshot, h⟩ := h
  exact ⟨blockNumber, owner, avatar, target, (bindMerkleSnapshotContract_eq_ok h).untouched⟩

theorem Start.logged (h : Start w) : Logged H w := by
  obtain ⟨blockNumber, owner, avatar, target, hsame⟩ := h.untouched
  have hempty : Logged H (unbound blockNumber owner avatar target) :=
    ⟨rfl, rfl, fun _ hr => (nomatch hr), fun _ hc => (nomatch hc)⟩
  exact hempty.untouched hsame

theorem run_logged (H : Hashes) (hstart : Start w) {events : List Event}
    (hsenders : ∀ event ∈ events, SenderValid event) :
    Logged H (run H w events).world :=
  (run_holds (logged_preserved H) hstart.logged fun before event after hsplit =>
    hsenders event (by rw [hsplit]; exact mem_append_right _ mem_cons_self)).world

end Trustgraphs.MerkleGovModule
