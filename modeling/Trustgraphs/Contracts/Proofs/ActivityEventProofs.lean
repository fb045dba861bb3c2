import Trustgraphs.Contracts.Proofs.SignerSyncProofs

/-!
# The events of the activity log

The guest of the signer program folds the direct-activity events that the module has emitted up to a
checkpoint.
-/

namespace Trustgraphs.MerkleGovModule

open Evm Signer CallStack List

variable {H : Hashes} {env : Env} {w v w' : World} {es : List ActivityEvent} {e : ActivityEvent}

namespace ActivityEvent

def record : ActivityEvent → Option SignerActivity
  | directGovernanceActivity _ account proposalId activityBlock _ => some ⟨account, proposalId, activityBlock⟩
  | signerActivityCheckpointed _ _ _ _ => none

def checkpoint : ActivityEvent → Option ActivityCheckpoint
  | directGovernanceActivity _ _ _ _ _ => none
  | signerActivityCheckpointed _ acc count blockNumber => some ⟨acc, count, blockNumber⟩

end ActivityEvent

def records (es : List ActivityEvent) : List SignerActivity := es.filterMap ActivityEvent.record

def checkpointsOf (es : List ActivityEvent) : List ActivityCheckpoint := es.filterMap ActivityEvent.checkpoint

theorem records_append (es es' : List ActivityEvent) : records (es ++ es') = records es ++ records es' :=
  filterMap_append

theorem checkpointsOf_append (es es' : List ActivityEvent) :
    checkpointsOf (es ++ es') = checkpointsOf es ++ checkpointsOf es' :=
  filterMap_append

/-- A checkpoint event repeats the fold of what was emitted before it. -/
def Repeats (H : Hashes) (before : List ActivityEvent) : ActivityEvent → Prop
  | .directGovernanceActivity sequence account proposalId activityBlock acc =>
    acc = foldActivity H (activityChain H (records before)) sequence ⟨account, proposalId, activityBlock⟩ ∧
      sequence.toNat = (records before).length + 1
  | .signerActivityCheckpointed checkpointId acc count blockNumber =>
    checkpointId = (checkpointsOf before).length ∧ acc = activityChain H (records before) ∧
      count.toNat = (records before).length ∧ ∀ r ∈ records before, r.blockNumber ≤ blockNumber

/-- The chain and the checkpoints are those of the events. -/
structure Emitted (H : Hashes) (w : World) : Prop where
  acc : w.activityAccumulator = activityChain H (records w.emitted)
  count : w.activityCount.toNat = (records w.emitted).length
  checkpoints : w.activityCheckpoints = checkpointsOf w.emitted
  log : activityLog w = records w.emitted
  blocks : ∀ r ∈ records w.emitted, r.blockNumber ≤ w.blockNumber
  repeats : ∀ before e after, w.emitted = before ++ e :: after → Repeats H before e

theorem repeats_concat (h : ∀ before e after, es = before ++ e :: after → Repeats H before e)
    (he : Repeats H es e) : ∀ before e' after, es ++ [e] = before ++ e' :: after → Repeats H before e' := by
  intro before e' after hsplit
  rcases eq_nil_or_concat after with rfl | ⟨after', last, rfl⟩
  · obtain ⟨rfl, hlast⟩ := append_inj' hsplit rfl
    obtain rfl := singleton_inj.mp hlast
    exact he
  · rw [concat_eq_append, ← cons_append, ← append_assoc] at hsplit
    exact h before e' after' (append_inj' hsplit rfl).1

theorem Emitted.untouched (h : Emitted H w) (hsame : Untouched w w') : Emitted H w' where
  acc := by rw [hsame.acc, hsame.emitted, h.acc]
  count := by rw [hsame.count, hsame.emitted, h.count]
  checkpoints := by rw [hsame.checkpoints, hsame.emitted, h.checkpoints]
  log := by rw [hsame.log, hsame.emitted, h.log]
  blocks := by
    intro r hr
    rw [hsame.emitted] at hr
    exact UInt64.le_trans (h.blocks r hr) hsame.blockNumber
  repeats := by
    rw [hsame.emitted]
    exact h.repeats

theorem Emitted.pushCheckpoint (h : Emitted H w) : Emitted H (pushCheckpoint w) := by
  obtain ⟨event, hevent⟩ : ∃ event, event = ActivityEvent.signerActivityCheckpointed
      w.activityCheckpoints.length w.activityAccumulator w.activityCount w.blockNumber := ⟨_, rfl⟩
  have hemitted : (MerkleGovModule.pushCheckpoint w).emitted = w.emitted ++ [event] := by rw [hevent]; rfl
  have hrecords : records (w.emitted ++ [event]) = records w.emitted := by
    rw [records_append, hevent]
    exact append_nil _
  refine ⟨?_, ?_, ?_, ?_, ?_, ?_⟩
  · rw [hemitted, hrecords]
    exact h.acc
  · rw [hemitted, hrecords]
    exact h.count
  · rw [hemitted, checkpointsOf_append, ← h.checkpoints, hevent]
    rfl
  · rw [hemitted, hrecords]
    exact h.log
  · rw [hemitted, hrecords]
    exact h.blocks
  · rw [hemitted]
    refine repeats_concat h.repeats ?_
    rw [hevent]
    exact ⟨congrArg List.length h.checkpoints, h.acc, h.count, h.blocks⟩

/-- A direct vote is emitted as it is recorded. -/
theorem Emitted.recorded (h : Emitted H w) {proposalId : U256} (hvoted : Voted env proposalId w v)
    (hrecord : recordDirectActivity H v env.msgSender proposalId = .ok w') : Emitted H w' := by
  obtain ⟨sequence, hsequence, hrecord⟩ := Outcome.of_bind hrecord
  obtain rfl := Except.ok.inj hrecord
  have hnumber : sequence.toNat = (records w.emitted).length + 1 := by
    rw [← h.count, ← hvoted.count]
    exact Checked.add64_eq_some.mp (arith_eq_ok.mp hsequence)
  let record : SignerActivity := ⟨env.msgSender, proposalId, v.blockNumber⟩
  have hchain : foldActivity H v.activityAccumulator sequence record =
      activityChain H (records w.emitted ++ [record]) := by
    rw [activityChain_concat, ← h.acc, ← hvoted.acc, ← hnumber, UInt64.ofNat_toNat]
  have hemitted : ∀ acc,
      v.emitted ++ [.directGovernanceActivity sequence env.msgSender proposalId v.blockNumber acc] =
      w.emitted ++ [.directGovernanceActivity sequence env.msgSender proposalId v.blockNumber acc] := by
    intro acc
    rw [hvoted.emitted]
  have hrecords : ∀ acc, records (v.emitted ++
      [.directGovernanceActivity sequence env.msgSender proposalId v.blockNumber acc]) =
        records w.emitted ++ [record] := by
    intro acc
    rw [hemitted, records_append]
    rfl
  refine Emitted.pushCheckpoint ⟨?_, ?_, ?_, ?_, ?_, ?_⟩
  · show foldActivity H v.activityAccumulator sequence record = activityChain H (records (v.emitted ++ [_]))
    rw [hrecords]
    exact hchain
  · show sequence.toNat = (records (v.emitted ++ [_])).length
    rw [hrecords, hnumber, length_append]
    rfl
  · show v.activityCheckpoints = checkpointsOf (v.emitted ++ [_])
    rw [hemitted, checkpointsOf_append, hvoted.checkpoints, h.checkpoints]
    exact (append_nil _).symm
  · show activityLog v = records (v.emitted ++ [_])
    rw [hrecords, hvoted.log, h.log]
  · intro r hr
    have hmem : r ∈ records (v.emitted ++ [_]) := hr
    rw [hrecords] at hmem
    show r.blockNumber ≤ v.blockNumber
    rcases mem_append.mp hmem with hmem | hmem
    · rw [hvoted.blockNumber]
      exact h.blocks r hmem
    · rw [mem_singleton.mp hmem]
      exact UInt64.le_refl _
  · intro before e after hsplit
    have hsplit' : v.emitted ++ [_] = before ++ e :: after := hsplit
    rw [hemitted] at hsplit'
    refine repeats_concat h.repeats ?_ before e after hsplit'
    refine ⟨?_, hnumber⟩
    rw [← h.acc, ← hvoted.acc]
    rfl

theorem Emitted.acts {c : Call} (h : Emitted H w) (hacts : Acts H env c w w') : Emitted H w' := by
  cases hacts with
  | untouched hsame => exact h.untouched hsame
  | checkpointed _ heffect => exact heffect ▸ h.pushCheckpoint
  | voted v proposalId _ hvoted hrecord => exact h.recorded hvoted hrecord

theorem Start.emitted (h : Start w) : Emitted H w := by
  obtain ⟨blockNumber, owner, avatar, target, hsame⟩ := h.untouched
  have hempty : Emitted H (unbound blockNumber owner avatar target) := by
    refine ⟨rfl, rfl, rfl, rfl, fun r hr => (nomatch hr), fun before e after hsplit => ?_⟩
    exact absurd hsplit.symm (append_ne_nil_of_right_ne_nil _ (cons_ne_nil _ _))
  exact hempty.untouched hsame

/-- Every record is of an account that has called for itself. -/
def Sent (events : List Event) (w : World) : Prop :=
  ∀ r ∈ records w.emitted, ∃ env c, Event.enter (env, c) ∈ events ∧
    c.VotesOn r.proposalId ∧ env.msgSender = r.account

theorem records_pushCheckpoint (w : World) : records (pushCheckpoint w).emitted = records w.emitted := by
  show records (w.emitted ++ [_]) = _
  rw [records_append]
  exact append_nil _

theorem records_recorded {proposalId : U256} (hvoted : Voted env proposalId w v)
    (hrecord : recordDirectActivity H v env.msgSender proposalId = .ok w') :
    records w'.emitted = records w.emitted ++ [⟨env.msgSender, proposalId, v.blockNumber⟩] := by
  obtain ⟨sequence, -, hrecord⟩ := Outcome.of_bind hrecord
  obtain rfl := Except.ok.inj hrecord
  rw [records_pushCheckpoint]
  show records (v.emitted ++ [_]) = _
  rw [records_append, hvoted.emitted]
  rfl

theorem Sent.acts {events : List Event} {c : Call} (h : Sent events w)
    (hevent : Event.enter (env, c) ∈ events) (hacts : Acts H env c w w') : Sent events w' := by
  intro r hr
  cases hacts with
  | untouched hsame =>
    rw [hsame.emitted] at hr
    exact h r hr
  | checkpointed _ heffect =>
    rw [heffect, records_pushCheckpoint] at hr
    exact h r hr
  | voted v proposalId hcall hvoted hrecord =>
    rw [records_recorded hvoted hrecord] at hr
    rcases mem_append.mp hr with hr | hr
    · exact h r hr
    · obtain rfl := mem_singleton.mp hr
      exact ⟨env, c, hevent, hcall, rfl⟩

theorem run_emitted (H : Hashes) (hstart : Start w) (events : List Event) : Emitted H (run H w events).world := by
  have hpreserved : Preserved (contract H) (fun _ _ => True) fun _ => Emitted H :=
    preserved_of_acts (fun _ _ h hsame => h.untouched hsame) fun _ _ _ _ h hacts => h.acts hacts
  exact (run_holds hpreserved hstart.emitted fun _ _ _ _ => trivial).world

theorem run_sent (H : Hashes) (hstart : Start w) (events : List Event) : Sent events (run H w events).world := by
  have hpreserved : Preserved (contract H) (fun event _ => event ∈ events) fun _ => Sent events := by
    refine preserved_of_acts (fun w w' h hsame r hr => ?_) fun i w w' hevent h hacts => h.acts hevent hacts
    rw [hsame.emitted] at hr
    exact h r hr
  have hempty : Sent events w := by
    obtain ⟨blockNumber, owner, avatar, target, hsame⟩ := hstart.untouched
    intro r hr
    rw [hsame.emitted] at hr
    cases hr
  refine (run_holds hpreserved hempty fun before event after hsplit => ?_).world
  rw [hsplit]
  exact mem_append_right _ mem_cons_self

theorem emitted_delegated (H : Hashes) (w : World) (events : List Event) (env : Env) (principal : Address)
    (proposalId : U256) (voteType : VoteType) (votingPower : U256) (proof : List B256) (reason : Bytes) :
    (run H w (events ++ [.enter (env, .castVoteAsDelegate principal proposalId voteType votingPower proof
      reason)])).world.emitted = (run H w events).world.emitted := by
  rw [run, run_append_singleton]
  show (settle _ _ (ended (castVoteAsDelegate H env (run H w events).world principal proposalId voteType
    votingPower proof reason))).world.emitted = _
  cases hcall : castVoteAsDelegate H env (run H w events).world principal proposalId voteType votingPower proof
    reason with
  | error e => rfl
  | ok w' => exact (castVoteAsDelegate_untouched hcall).emitted

theorem replayActivity_chain {checkpointBlock : UInt64} (log : List SignerActivity) {later : List SignerActivity}
    (hblocks : ∀ r ∈ later, r.blockNumber ≤ checkpointBlock) (hlength : (log ++ later).length < 2 ^ 64)
    (latest : BTreeMap Address UInt64) :
    ∃ latest', replayActivity H checkpointBlock later log.length (activityChain H log, latest) =
      some (activityChain H (log ++ later), latest') := by
  induction later generalizing log latest with
  | nil => exact ⟨latest, by rw [append_nil]; rfl⟩
  | cons r later ih =>
    have happend : log ++ r :: later = (log ++ [r]) ++ later := by simp
    rw [happend] at hlength ⊢
    obtain ⟨latest', hreplay⟩ := ih (log ++ [r]) (fun r' hr' => hblocks r' (mem_cons_of_mem r hr'))
      hlength (touch latest r)
    refine ⟨latest', ?_⟩
    have hlt : log.length + 1 < 2 ^ 64 := by
      rw [length_append, length_append, length_singleton] at hlength
      omega
    have hsequence : Checked.u64 (log.length + 1) = some (UInt64.ofNat (log.length + 1)) :=
      Checked.u64_eq_some.mpr (UInt64.toNat_ofNat_of_lt hlt)
    rw [replayActivity, hsequence, Option.bind_eq_bind, Option.bind_some,
      if_neg (UInt64.not_lt.mpr (hblocks r mem_cons_self)), ← activityChain_concat]
    rw [length_append] at hreplay
    exact hreplay

/-- The log that the guest folds is the log that the module committed. -/
theorem activity_log_agrees (H : Hashes) (w : World) (hstart : Start w) (events : List Event) :
    (∀ before checkpointId acc count blockNumber after, (run H w events).world.emitted =
        before ++ .signerActivityCheckpointed checkpointId acc count blockNumber :: after →
      (run H w events).world.activityCheckpoints[checkpointId]? = some ⟨acc, count, blockNumber⟩ ∧
        (∃ latest, replayActivity H blockNumber (records before) 0 (0, ∅) = some (acc, latest)) ∧
        count.toNat = (records before).length ∧ ∀ r ∈ records before, r.blockNumber ≤ blockNumber) ∧
      (run H w events).world.activityCheckpoints = checkpointsOf (run H w events).world.emitted ∧
      (∀ r ∈ records (run H w events).world.emitted, ∃ env c, Event.enter (env, c) ∈ events ∧
        c.VotesOn r.proposalId ∧ env.msgSender = r.account) ∧
      ∀ env principal proposalId voteType votingPower proof reason,
        (run H w (events ++ [.enter (env, .castVoteAsDelegate principal proposalId voteType votingPower proof
          reason)])).world.emitted = (run H w events).world.emitted := by
  have hemitted := run_emitted H hstart events
  refine ⟨?_, hemitted.checkpoints, run_sent H hstart events, emitted_delegated H w events⟩
  intro before checkpointId acc count blockNumber after hsplit
  obtain ⟨hid, hacc, hcount, hblocks⟩ := hemitted.repeats _ _ _ hsplit
  refine ⟨?_, ?_, hcount, hblocks⟩
  · rw [hemitted.checkpoints, hsplit, checkpointsOf_append, hid]
    rw [getElem?_append_right (le_refl _), Nat.sub_self]
    rfl
  · have hlength : (records before).length < 2 ^ 64 := by
      rw [← hcount]
      exact count.toNat_lt
    rw [hacc]
    exact replayActivity_chain [] hblocks hlength ∅

namespace ActivityExample

open SignerSyncZkModule.SelectionExample (hashes head2 votes)

theorem voting_emitted : (GovExample.constructed.toOption.map fun w =>
    let es := (run hashes w GovExample.voting).world.emitted
    (es[3]?, records (es.take 3))) = some (some (.signerActivityCheckpointed 1 head2 2 101), votes) := by
  decide +kernel

end ActivityExample

open SignerSyncZkModule.SelectionExample (hashes head2 votes) in
/-- The guest folds two direct votes to the checkpoint that the module has taken after them. -/
theorem activity_log_agrees_voting : ∃ w, Start w ∧
    (run hashes w GovExample.voting).world.activityCheckpoints[1]? = some ⟨head2, 2, 101⟩ ∧
    ∃ latest, replayActivity hashes 101 votes 0 (0, ∅) = some (head2, latest) := by
  obtain ⟨w, hw, hstart⟩ := GovExample.exists_start
  have h := ActivityExample.voting_emitted
  rw [hw] at h
  obtain ⟨hlast, hvotes⟩ := Prod.mk.inj (Option.some.inj h)
  obtain ⟨hlt, hlast⟩ := List.getElem?_eq_some_iff.mp hlast
  have hsplit := take_append_drop 3 (run hashes w GovExample.voting).world.emitted
  rw [drop_eq_getElem_cons hlt, hlast] at hsplit
  obtain ⟨hcheckpoint, hfold, -, -⟩ := (activity_log_agrees hashes w hstart GovExample.voting).1 _ _ _ _ _ _
    hsplit.symm
  rw [hvotes] at hfold
  exact ⟨w, hstart, hcheckpoint, hfold⟩

end Trustgraphs.MerkleGovModule
