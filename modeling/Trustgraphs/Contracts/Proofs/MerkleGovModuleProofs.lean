import Trustgraphs.Contracts.MerkleGovModule

/-!
# What the calls of the governance module do

A call has a few effects on the proposals and the votes (`Effect`), one after the other, and
`execute` gives the actions of a proposal to the Safe one by one.
-/

namespace Trustgraphs.MerkleGovModule

open Evm Outcome Function

section

variable {H : Hashes} {env : Env} {w w' : World}

namespace Proposal

def tally (proposal : Proposal) : VoteType → U256
  | .no => proposal.noVotes
  | .yes => proposal.yesVotes
  | .abstain => proposal.abstainVotes

def setTally (proposal : Proposal) (voteType : VoteType) (votes : U256) : Proposal :=
  match voteType with
  | .no => { proposal with noVotes := votes }
  | .yes => { proposal with yesVotes := votes }
  | .abstain => { proposal with abstainVotes := votes }

theorem tally_setTally (proposal : Proposal) (voteType other : VoteType) (votes : U256) :
    (proposal.setTally voteType votes).tally other = if other = voteType then votes else proposal.tally other := by
  cases voteType <;> cases other <;> rfl

def untallied (proposal : Proposal) : Proposal :=
  { proposal with yesVotes := 0, noVotes := 0, abstainVotes := 0 }

theorem untallied_setTally (proposal : Proposal) (voteType : VoteType) (votes : U256) :
    (proposal.setTally voteType votes).untallied = proposal.untallied := by
  cases voteType <;> rfl

end Proposal

variable {voteType : VoteType} {votingPower proposalId : U256} {proof : List B256}
  {args : ProposeArgs} {r : Result World}

theorem addToTally_eq_ok {proposal proposal' : Proposal} :
    addToTally proposal voteType votingPower = .ok proposal' ↔
      ∃ votes, votes.toNat = (proposal.tally voteType).toNat + votingPower.toNat ∧
        proposal' = proposal.setTally voteType votes := by
  cases voteType <;>
  · simp only [addToTally, bind_eq_ok, arith_eq_ok, Checked.add_eq_some]
    exact exists_congr fun votes => and_congr_right fun _ => ⟨fun h => (ok_inj h).symm, fun h => h ▸ rfl⟩

theorem subtractFromTally_eq_ok {proposal proposal' : Proposal} :
    subtractFromTally proposal voteType votingPower = .ok proposal' ↔
      ∃ votes, (proposal.tally voteType).toNat = votingPower.toNat + votes.toNat ∧
        proposal' = proposal.setTally voteType votes := by
  cases voteType <;>
  · simp only [subtractFromTally, bind_eq_ok, minus_eq_ok]
    exact exists_congr fun votes => and_congr_right fun _ => ⟨fun h => (ok_inj h).symm, fun h => h ▸ rfl⟩

def Existing (w : World) (proposalId : U256) : Prop :=
  proposalId ≠ 0 ∧ proposalId.toNat ≤ w.proposalCount.toNat

/-- The decisive votes reach the quorum, and most of them are in favour. -/
def Proposal.Carried (proposal : Proposal) : Prop :=
  proposal.totalVotingPower.toNat * proposal.quorumFraction.toNat / QUORUM_RANGE.toNat ≤
      proposal.yesVotes.toNat + proposal.noVotes.toNat ∧
    proposal.noVotes.toNat < proposal.yesVotes.toNat

def Proposal.In (proposal : Proposal) (block : ℕ) : ProposalState → Prop
  | .cancelled => proposal.cancelled = true
  | .executed => proposal.cancelled = false ∧ proposal.executed = true
  | .pending => proposal.cancelled = false ∧ proposal.executed = false ∧ block < proposal.startBlock.toNat
  | .active => proposal.cancelled = false ∧ proposal.executed = false ∧ proposal.startBlock.toNat ≤ block ∧
      block ≤ proposal.endBlock.toNat
  | .passed => proposal.cancelled = false ∧ proposal.executed = false ∧ proposal.startBlock.toNat ≤ block ∧
      proposal.endBlock.toNat < block ∧ proposal.Carried ∧ block ≤ proposal.executionDeadlineBlock.toNat
  | .expired => proposal.cancelled = false ∧ proposal.executed = false ∧ proposal.startBlock.toNat ≤ block ∧
      proposal.endBlock.toNat < block ∧ proposal.Carried ∧ proposal.executionDeadlineBlock.toNat < block
  | .rejected => proposal.cancelled = false ∧ proposal.executed = false ∧ proposal.startBlock.toNat ≤ block ∧
      proposal.endBlock.toNat < block ∧ ¬ proposal.Carried

theorem state_eq_ok {current : ProposalState} (h : state w proposalId = .ok current) :
    Existing w proposalId ∧ (w.proposals proposalId).In w.blockNumber.toNat current := by
  rw [state] at h
  obtain ⟨hexisting, h⟩ := of_guard h
  rw [not_or, BitVec.lt_def, not_lt] at hexisting
  refine ⟨hexisting, ?_⟩
  generalize w.proposals proposalId = proposal at h
  by_cases hcancelled : proposal.cancelled = true
  · rw [if_pos hcancelled] at h
    obtain rfl := ok_inj h
    exact hcancelled
  rw [if_neg hcancelled] at h
  rw [Bool.not_eq_true] at hcancelled
  by_cases hexecuted : proposal.executed = true
  · rw [if_pos hexecuted] at h
    obtain rfl := ok_inj h
    exact ⟨hcancelled, hexecuted⟩
  rw [if_neg hexecuted] at h
  rw [Bool.not_eq_true] at hexecuted
  by_cases hpending : w.blockNumber.toNat < proposal.startBlock.toNat
  · rw [if_pos hpending] at h
    obtain rfl := ok_inj h
    exact ⟨hcancelled, hexecuted, hpending⟩
  rw [if_neg hpending] at h
  rw [not_lt] at hpending
  by_cases hactive : w.blockNumber.toNat ≤ proposal.endBlock.toNat
  · rw [if_pos hactive] at h
    obtain rfl := ok_inj h
    exact ⟨hcancelled, hexecuted, hpending, hactive⟩
  rw [if_neg hactive] at h
  rw [not_le] at hactive
  obtain ⟨decisiveVotes, hvotes, h⟩ := of_bind h
  obtain ⟨quorumThreshold, hquorum, h⟩ := of_bind h
  rw [arith_eq_ok, Checked.add_eq_some] at hvotes
  rw [mulDiv_eq_ok] at hquorum
  have hcarried : (quorumThreshold.toNat ≤ decisiveVotes.toNat ∧ proposal.noVotes.toNat < proposal.yesVotes.toNat) ↔
      proposal.Carried := by
    rw [Proposal.Carried, hvotes, hquorum.2]
  by_cases hc : proposal.Carried
  · rw [if_pos (hcarried.mpr hc)] at h
    by_cases hlate : proposal.executionDeadlineBlock.toNat < w.blockNumber.toNat
    · rw [if_pos hlate] at h
      obtain rfl := ok_inj h
      exact ⟨hcancelled, hexecuted, hpending, hactive, hc, hlate⟩
    · rw [if_neg hlate] at h
      obtain rfl := ok_inj h
      exact ⟨hcancelled, hexecuted, hpending, hactive, hc, not_lt.mp hlate⟩
  · rw [if_neg (mt hcarried.mp hc)] at h
    obtain rfl := ok_inj h
    exact ⟨hcancelled, hexecuted, hpending, hactive, hc⟩

structure Open (w : World) (proposalId : U256) : Prop where
  existing : Existing w proposalId
  cancelled : (w.proposals proposalId).cancelled = false
  executed : (w.proposals proposalId).executed = false
  early : w.blockNumber.toNat ≤ (w.proposals proposalId).endBlock.toNat

/-- A new proposal has the terms of its creation at a block. -/
structure Proposal.Has (proposal : Proposal) (block : ℕ) (terms : Terms) : Prop where
  startBlock : proposal.startBlock.toNat = block + terms.votingDelay.toNat
  endBlock : proposal.endBlock.toNat = proposal.startBlock.toNat + terms.votingPeriod.toNat
  executionDeadlineBlock : proposal.executionDeadlineBlock.toNat =
    proposal.endBlock.toNat + terms.executionDelay.toNat + EXECUTION_WINDOW.toNat
  merkleRoot : proposal.merkleRoot = terms.merkleRoot
  totalVotingPower : proposal.totalVotingPower = terms.totalVotingPower
  quorumFraction : proposal.quorumFraction = terms.quorum

/-- What a part of a call does, where the proofs are among the `presented`. -/
inductive Effect (H : Hashes) (presented : Address → U256 → List B256 → Prop) (w : World) : World → Prop
  /-- The proposals and the votes are as they were. -/
  | configured {v : World} (hregister : v.toRegister = w.toRegister) (hblock : v.blockNumber = w.blockNumber)
      (hhistory : v.history = w.history) : Effect H presented w v
  | created (proposalId : U256) (proposal : Proposal) (actions : List ProposalAction) (terms : Terms)
      (hid : proposalId.toNat = w.proposalCount.toNat + 1) (hterms : proposal.Has w.blockNumber.toNat terms)
      (hyes : proposal.yesVotes = (w.proposals proposalId).yesVotes)
      (hno : proposal.noVotes = (w.proposals proposalId).noVotes)
      (habstain : proposal.abstainVotes = (w.proposals proposalId).abstainVotes)
      (hexecuted : proposal.executed = (w.proposals proposalId).executed)
      (hcancelled : proposal.cancelled = (w.proposals proposalId).cancelled) :
      Effect H presented w ({ w with
        proposalCount := proposalId
        proposals := update w.proposals proposalId proposal
        proposalActions := update w.proposalActions proposalId
          (w.proposalActions proposalId ++ actions) }.note (.created proposalId terms))
  | voted (proposalId : U256) (voter : Address) (voteType : VoteType) (votingPower : U256) (proof : List B256)
      (proposal : Proposal) (hopen : Open w proposalId) (hnew : w.hasVoted proposalId voter = false)
      (hpresented : presented voter votingPower proof)
      (hproof : OzMerkle.verifyProof H (w.proposals proposalId).merkleRoot voter votingPower proof = true)
      (htally : addToTally (w.proposals proposalId) voteType votingPower = .ok proposal) :
      Effect H presented w (w.record proposalId voter ⟨.direct, voter, voteType, votingPower⟩ proposal)
  | delegated (proposalId : U256) (voter delegate : Address) (voteType : VoteType) (votingPower : U256)
      (proof : List B256) (proposal : Proposal) (hopen : Open w proposalId)
      (hnew : w.hasVoted proposalId voter = false) (hdelegate : w.voteDelegate voter = delegate)
      (hpresented : presented voter votingPower proof)
      (hproof : OzMerkle.verifyProof H (w.proposals proposalId).merkleRoot voter votingPower proof = true)
      (htally : addToTally (w.proposals proposalId) voteType votingPower = .ok proposal) :
      Effect H presented w ((w.record proposalId voter ⟨.delegated, delegate, voteType, votingPower⟩
        proposal).markDelegated proposalId voter delegate)
  | replaced (proposalId : U256) (voter : Address) (voteType : VoteType) (lowered proposal : Proposal)
      (hopen : Open w proposalId) (hvoted : w.hasVoted proposalId voter = true)
      (hprovisional : w.votedByDelegate proposalId voter = true)
      (hlowered : subtractFromTally (w.proposals proposalId) (w.votes proposalId voter)
        (w.votePower proposalId voter) = .ok lowered)
      (htally : addToTally lowered voteType (w.votePower proposalId voter) = .ok proposal) :
      Effect H presented w (w.replace proposalId voter
        ⟨.override, voter, voteType, w.votePower proposalId voter⟩ proposal)
  | executed (proposalId : U256) (hstate : state w proposalId = .ok .passed)
      (hlate : (w.proposals proposalId).executionDeadlineBlock.toNat <
        w.blockNumber.toNat + EXECUTION_WINDOW.toNat) :
      Effect H presented w ((w.setProposal proposalId { w.proposals proposalId with executed := true }).note
        (.executed proposalId))
  | cancelled (proposalId : U256) (hexisting : Existing w proposalId)
      (hexecuted : (w.proposals proposalId).executed = false)
      (hcancelled : (w.proposals proposalId).cancelled = false) :
      Effect H presented w ((w.setProposal proposalId { w.proposals proposalId with cancelled := true }).note
        (.cancelled proposalId))

abbrev Effects (H : Hashes) (presented : Address → U256 → List B256 → Prop) : World → World → Prop :=
  Relation.ReflTransGen (Effect H presented)

/-- Nothing is recorded of a proposal that does not exist. -/
def Sound (w : World) : Prop :=
  ∀ proposalId, ¬ Existing w proposalId → w.proposals proposalId = .none ∧
    w.proposalActions proposalId = [] ∧ ∀ voter, w.hasVoted proposalId voter = false

variable {presented : Address → U256 → List B256 → Prop}

theorem Open.of_active (h : state w proposalId = .ok .active) : Open w proposalId := by
  obtain ⟨hexisting, hcancelled, hexecuted, -, hearly⟩ := state_eq_ok h
  exact ⟨hexisting, hcancelled, hexecuted, hearly⟩

theorem Sound.update (h : Sound w) (hexisting : Existing w proposalId)
    (hcount : w'.proposalCount = w.proposalCount) (hactions : w'.proposalActions = w.proposalActions)
    (hproposals : ∀ other, other ≠ proposalId → w'.proposals other = w.proposals other)
    (hvoted : ∀ other, other ≠ proposalId → w'.hasVoted other = w.hasVoted other) : Sound w' := by
  intro other hother
  have hother : ¬ Existing w other := by rwa [Existing, hcount] at hother
  have hne : other ≠ proposalId := by
    rintro rfl
    exact hother hexisting
  obtain ⟨hnone, hempty, hunvoted⟩ := h other hother
  rw [hproposals other hne, hactions, hvoted other hne]
  exact ⟨hnone, hempty, hunvoted⟩

theorem ne_zero_of_toNat {a : U256} {n : ℕ} (h : a.toNat = n + 1) : a ≠ 0 := by
  rintro rfl
  exact nomatch h

theorem put_of_ne {α : Type} {f : U256 → Address → α} {other : U256} {voter : Address} {a : α}
    (h : other ≠ proposalId) : World.put f proposalId voter a other = f other := by
  rw [World.put, update_of_ne h]

theorem Effect.sound (heffect : Effect H presented w w') (h : Sound w) : Sound w' := by
  cases heffect with
  | configured hregister =>
    intro proposalId hnone
    have hproposals : w'.proposals = w.proposals := congrArg Register.proposals hregister
    have hactions : w'.proposalActions = w.proposalActions := congrArg Register.proposalActions hregister
    have hvoted : w'.hasVoted = w.hasVoted := congrArg Register.hasVoted hregister
    rw [Existing, congrArg Register.proposalCount hregister] at hnone
    rw [hproposals, hactions, hvoted]
    exact h proposalId hnone
  | created proposalId proposal actions terms hid =>
    intro other hother
    change ¬ (other ≠ 0 ∧ other.toNat ≤ proposalId.toNat) at hother
    have hne : other ≠ proposalId := by
      rintro rfl
      exact hother ⟨ne_zero_of_toNat hid, le_rfl⟩
    have hbefore : ¬ Existing w other := fun hexisting => hother ⟨hexisting.1, by have := hexisting.2; omega⟩
    obtain ⟨hnone, hempty, hunvoted⟩ := h other hbefore
    refine ⟨?_, ?_, hunvoted⟩
    · show update w.proposals proposalId proposal other = _
      rw [update_of_ne hne, hnone]
    · show update w.proposalActions proposalId _ other = _
      rw [update_of_ne hne, hempty]
  | voted proposalId voter voteType votingPower proof proposal hopen =>
    exact h.update hopen.existing rfl rfl (fun _ hne => update_of_ne hne ..) fun _ hne => put_of_ne hne
  | delegated proposalId voter delegate voteType votingPower proof proposal hopen =>
    exact h.update hopen.existing rfl rfl (fun _ hne => update_of_ne hne ..) fun _ hne => put_of_ne hne
  | replaced proposalId voter voteType lowered proposal hopen =>
    exact h.update hopen.existing rfl rfl (fun _ hne => update_of_ne hne ..) fun _ _ => rfl
  | executed proposalId hstate =>
    exact h.update (state_eq_ok hstate).1 rfl rfl (fun _ hne => update_of_ne hne ..) fun _ _ => rfl
  | cancelled proposalId hexisting =>
    exact h.update hexisting rfl rfl (fun _ hne => update_of_ne hne ..) fun _ _ => rfl

theorem Effects.sound (heffects : Effects H presented w w') (h : Sound w) : Sound w' := by
  induction heffects with
  | refl => exact h
  | tail _ heffect ih => exact heffect.sound ih

theorem verifyMerkleProof_eq_ok {account : Address} {root : B256} {u : Unit}
    (h : verifyMerkleProof H account votingPower root proof = .ok u) :
    OzMerkle.verifyProof H root account votingPower proof = true := by
  by_contra hproof
  rw [verifyMerkleProof, if_neg hproof] at h
  exact nomatch h

theorem createProposal_eq_ok (h : createProposal H env w args = .ok (w', proposalId)) :
    Effect H presented w w' ∧ proposalId.toNat = w.proposalCount.toNat + 1 ∧
      (∃ proposal, w'.proposals = update w.proposals proposalId proposal ∧
        proposal.executed = (w.proposals proposalId).executed ∧
        proposal.cancelled = (w.proposals proposalId).cancelled ∧
        w.blockNumber.toNat ≤ proposal.endBlock.toNat ∧ proposal.merkleRoot = w.currentMerkleRoot) ∧
      w'.proposalCount = proposalId ∧ w'.hasVoted = w.hasVoted ∧ w'.blockNumber = w.blockNumber ∧
      OzMerkle.verifyProof H w.currentMerkleRoot env.msgSender args.votingPower args.proof = true := by
  rw [createProposal] at h
  obtain ⟨-, h⟩ := of_guard h
  obtain ⟨-, h⟩ := of_guard h
  obtain ⟨u, hproof, h⟩ := of_bind h
  have hproof := verifyMerkleProof_eq_ok hproof
  cases hrefused : args.actions.find? (refuses w) with
  | some a =>
    rw [hrefused] at h
    exact nomatch h
  | none =>
    rw [hrefused] at h
    obtain ⟨id, hid, h⟩ := of_bind h
    obtain ⟨startBlock, hstart, h⟩ := of_bind h
    obtain ⟨endBlock, hend, h⟩ := of_bind h
    obtain ⟨executableAt, hat, h⟩ := of_bind h
    obtain ⟨deadline, hdeadline, h⟩ := of_bind h
    rw [arith_eq_ok, Checked.add_eq_some] at hid hstart hend hat hdeadline
    obtain ⟨rfl, rfl⟩ := Prod.mk.inj (ok_inj h)
    rw [toNat_uint256] at hstart
    refine ⟨.created id _ args.actions _ hid ⟨hstart, hend, ?_, rfl, rfl, rfl⟩ rfl rfl rfl rfl rfl, hid,
      ⟨_, rfl, rfl, rfl, ?_, rfl⟩, rfl, rfl, rfl, hproof⟩
    · rw [hdeadline, hat]
    · show w.blockNumber.toNat ≤ endBlock.toNat
      omega

theorem recordDirectActivity_eq_ok {account : Address}
    (h : recordDirectActivity H w account proposalId = .ok w') : Effect H presented w w' := by
  obtain ⟨sequence, -, h⟩ := of_bind h
  obtain rfl := ok_inj h
  exact .configured rfl rfl rfl

theorem propose_eq_ok (h : propose H env w args = .ok w') : Effects H presented w w' := by
  obtain ⟨⟨v, proposalId⟩, hcreate, h⟩ := of_bind h
  obtain rfl := ok_inj h
  exact .single (createProposal_eq_ok hcreate).1

theorem proposeWithVote_eq_ok (hsound : Sound w)
    (hpresented : presented env.msgSender args.votingPower args.proof)
    (h : proposeWithVote H env w args voteType = .ok w') : Effects H presented w w' := by
  obtain ⟨⟨v, proposalId⟩, hcreate, h⟩ := of_bind h
  obtain ⟨u, hrecord, hactivity⟩ := of_bind h
  obtain ⟨heffect, hid, ⟨proposal, hproposals, hexecuted, hcancelled, hearly, hroot⟩, hcount,
      hvoted, hblock, hproof⟩ :
      Effect H presented w v ∧ _ := createProposal_eq_ok hcreate
  have hnew : ¬ Existing w proposalId := fun hexisting => by
    have := hexisting.2
    omega
  obtain ⟨hnone, -, hunvoted⟩ := hsound proposalId hnew
  have hself : v.proposals proposalId = proposal := by rw [hproposals, update_self]
  obtain ⟨proposal', htally, hrecord⟩ := of_bind hrecord
  obtain rfl := ok_inj hrecord
  have hopen : Open v proposalId := by
    refine ⟨⟨ne_zero_of_toNat hid, (congrArg BitVec.toNat hcount).ge⟩, ?_, ?_, ?_⟩
    · rw [hself, hcancelled, hnone]
      rfl
    · rw [hself, hexecuted, hnone]
      rfl
    · rw [hself, hblock]
      exact hearly
  have hnovote : v.hasVoted proposalId env.msgSender = false := by
    rw [hvoted]
    exact hunvoted _
  have hverified : OzMerkle.verifyProof H (v.proposals proposalId).merkleRoot env.msgSender args.votingPower
      args.proof = true := by
    rw [hself, hroot]
    exact hproof
  have hvote : Effect H presented v _ :=
    .voted proposalId env.msgSender voteType args.votingPower args.proof proposal'
    hopen hnovote hpresented hverified htally
  exact ((Relation.ReflTransGen.single heffect).tail hvote).tail (recordDirectActivity_eq_ok hactivity)

theorem castVote_eq_ok (hpresented : presented env.msgSender votingPower proof)
    (h : castVote H env w proposalId voteType votingPower proof = .ok w') : Effects H presented w w' := by
  obtain ⟨current, hstate, h⟩ := of_bind h
  obtain ⟨hactive, h⟩ := of_guard h
  rw [not_not.mp hactive] at hstate
  obtain ⟨hvote, h⟩ := of_guard h
  obtain ⟨u, hproof, h⟩ := of_bind h
  obtain ⟨v, hdirect, hactivity⟩ := of_bind h
  refine Relation.ReflTransGen.tail ?_ (recordDirectActivity_eq_ok hactivity)
  refine .single ?_
  rw [castDirectVote] at hdirect
  by_cases hvoted : w.hasVoted proposalId env.msgSender = true
  · rw [if_pos hvoted, overrideDelegateVote] at hdirect
    obtain ⟨-, hdirect⟩ := of_guard hdirect
    obtain ⟨lowered, hlowered, hdirect⟩ := of_bind hdirect
    obtain ⟨proposal, htally, hdirect⟩ := of_bind hdirect
    obtain rfl := ok_inj hdirect
    refine .replaced proposalId env.msgSender voteType lowered proposal
      (.of_active hstate) hvoted ?_ hlowered htally
    rw [not_and, Bool.not_eq_false] at hvote
    exact hvote hvoted
  · rw [if_neg hvoted] at hdirect
    obtain ⟨proposal, htally, hdirect⟩ := of_bind hdirect
    obtain rfl := ok_inj hdirect
    exact .voted proposalId env.msgSender voteType votingPower proof proposal (.of_active hstate)
      (Bool.not_eq_true _ ▸ hvoted) hpresented (verifyMerkleProof_eq_ok hproof) htally

theorem castVoteAsDelegate_eq_ok {principal : Address} {reason : Bytes}
    (hpresented : presented principal votingPower proof)
    (h : castVoteAsDelegate H env w principal proposalId voteType votingPower proof reason = .ok w') :
    Effects H presented w w' := by
  obtain ⟨current, hstate, h⟩ := of_bind h
  obtain ⟨hactive, h⟩ := of_guard h
  rw [not_not.mp hactive] at hstate
  obtain ⟨hdelegate, h⟩ := of_guard h
  obtain ⟨hvoted, h⟩ := of_guard h
  obtain ⟨-, h⟩ := of_guard h
  obtain ⟨u, hproof, h⟩ := of_bind h
  obtain ⟨v, hrecord, h⟩ := of_bind h
  obtain ⟨proposal, htally, hrecord⟩ := of_bind hrecord
  obtain rfl := ok_inj hrecord
  obtain rfl := ok_inj h
  exact .single (.delegated proposalId principal env.msgSender voteType votingPower proof proposal
    (.of_active hstate) (Bool.not_eq_true _ ▸ hvoted) (not_not.mp hdelegate) hpresented
    (verifyMerkleProof_eq_ok hproof) htally)

theorem begin_eq_ok (h : begin w proposalId = .ok w') :
    Effect H presented w w' ∧ w' = (w.setProposal proposalId { w.proposals proposalId with executed := true }).note
      (.executed proposalId) ∧ state w proposalId = .ok .passed := by
  obtain ⟨current, hstate, h⟩ := of_bind h
  obtain ⟨hpassed, h⟩ := of_guard h
  rw [not_not.mp hpassed] at hstate
  obtain ⟨executableAt, hat, h⟩ := of_bind h
  obtain ⟨hlate, h⟩ := of_guard h
  rw [minus_eq_ok] at hat
  obtain rfl := ok_inj h
  exact ⟨.executed proposalId hstate (by omega), rfl, hstate⟩

theorem cancel_eq_ok (h : cancel env w proposalId = .ok w') : Effect H presented w w' := by
  obtain ⟨hexisting, h⟩ := of_guard h
  rw [not_or, BitVec.lt_def, not_lt] at hexisting
  obtain ⟨-, h⟩ := of_guard h
  obtain ⟨hexecuted, h⟩ := of_guard h
  obtain ⟨hcancelled, h⟩ := of_guard h
  obtain rfl := ok_inj h
  exact .cancelled proposalId hexisting (Bool.not_eq_true _ ▸ hexecuted) (Bool.not_eq_true _ ▸ hcancelled)

/-- Only settings differ: neither the proposals and the votes nor the activity. -/
structure SettingsOnly (w w' : World) : Prop where
  register : w'.toRegister = w.toRegister
  blockNumber : w'.blockNumber = w.blockNumber
  history : w'.history = w.history
  acc : w'.activityAccumulator = w.activityAccumulator
  count : w'.activityCount = w.activityCount
  checkpoints : w'.activityCheckpoints = w.activityCheckpoints
  emitted : w'.emitted = w.emitted

theorem bindMerkleSnapshotContract_eq_ok {newContract : Address}
    (h : bindMerkleSnapshotContract env w newContract = .ok w') :
    SettingsOnly w w' := by
  obtain ⟨-, h⟩ := of_guard h
  cases hstate : env.getLatestState newContract with
  | state s =>
    rw [hstate] at h
    obtain rfl := ok_inj h
    exact ⟨rfl, rfl, rfl, rfl, rfl, rfl, rfl⟩
  | noMerkleStates =>
    rw [hstate] at h
    obtain rfl := ok_inj h
    exact ⟨rfl, rfl, rfl, rfl, rfl, rfl, rfl⟩
  | reverted =>
    rw [hstate] at h
    exact nomatch h

def Call.Sets : Call → Prop
  | .publishInitialSnapshotBinding => True
  | .setVoteDelegate _ => True
  | .checkpointSignerActivity => True
  | .setQuorum _ => True
  | .setVotingDelay _ => True
  | .setVotingPeriod _ => True
  | .setExecutionDelay _ => True
  | .setDelegateCallTarget _ _ => True
  | .setMerkleSnapshotContract _ => True
  | .onMerkleUpdate _ => True
  | _ => False

theorem ended_eq_returned (h : (ended r : CallStack.Turn World Waiting Revert) = .returned w') :
    r = .ok w' := by
  cases r with
  | ok v => exact congrArg Except.ok (CallStack.Turn.returned.inj h)
  | error e => exact nomatch h

theorem ended_ne_waits {k : Waiting} : (ended r : CallStack.Turn World Waiting Revert) ≠ .waits w' k := by
  cases r with
  | ok v => exact fun h => (nomatch h)
  | error e => exact fun h => (nomatch h)

/-- A setter changes settings, or takes a checkpoint of the activity. -/
theorem Call.Sets.enter_cases {c : Call} (hc : c.Sets) (h : enter H (env, c) w = .returned w') :
    SettingsOnly w w' ∨ c = .checkpointSignerActivity ∧ w' = pushCheckpoint w := by
  cases c with
  | publishInitialSnapshotBinding =>
    obtain ⟨-, h⟩ := of_guard (ended_eq_returned h)
    obtain rfl := ok_inj h
    exact .inl ⟨rfl, rfl, rfl, rfl, rfl, rfl, rfl⟩
  | setVoteDelegate delegate =>
    obtain ⟨-, h⟩ := of_guard (ended_eq_returned h)
    obtain rfl := ok_inj h
    exact .inl ⟨rfl, rfl, rfl, rfl, rfl, rfl, rfl⟩
  | checkpointSignerActivity =>
    obtain ⟨-, h⟩ := of_guard (ended_eq_returned h)
    cases hlast : w.activityCheckpoints.getLast? with
    | none =>
      rw [hlast] at h
      exact nomatch h
    | some last =>
      rw [hlast] at h
      obtain ⟨nextBlock, -, h⟩ := of_bind h
      obtain ⟨-, h⟩ := of_guard h
      exact .inr ⟨rfl, (ok_inj h).symm⟩
  | setQuorum newQuorum =>
    obtain ⟨-, h⟩ := of_guard (ended_eq_returned h)
    obtain ⟨-, h⟩ := of_guard h
    obtain rfl := ok_inj h
    exact .inl ⟨rfl, rfl, rfl, rfl, rfl, rfl, rfl⟩
  | setVotingDelay newDelay =>
    obtain ⟨-, h⟩ := of_guard (ended_eq_returned h)
    obtain rfl := ok_inj h
    exact .inl ⟨rfl, rfl, rfl, rfl, rfl, rfl, rfl⟩
  | setVotingPeriod newPeriod =>
    obtain ⟨-, h⟩ := of_guard (ended_eq_returned h)
    obtain ⟨-, h⟩ := of_guard h
    obtain rfl := ok_inj h
    exact .inl ⟨rfl, rfl, rfl, rfl, rfl, rfl, rfl⟩
  | setExecutionDelay newDelay =>
    obtain ⟨-, h⟩ := of_guard (ended_eq_returned h)
    obtain rfl := ok_inj h
    exact .inl ⟨rfl, rfl, rfl, rfl, rfl, rfl, rfl⟩
  | setDelegateCallTarget target allowed =>
    obtain ⟨-, h⟩ := of_guard (ended_eq_returned h)
    obtain ⟨-, h⟩ := of_guard h
    obtain rfl := ok_inj h
    exact .inl ⟨rfl, rfl, rfl, rfl, rfl, rfl, rfl⟩
  | setMerkleSnapshotContract newContract =>
    obtain ⟨-, h⟩ := of_guard (ended_eq_returned h)
    have hbound := bindMerkleSnapshotContract_eq_ok h
    exact .inl ⟨hbound.register, hbound.blockNumber, hbound.history, hbound.acc, hbound.count,
      hbound.checkpoints, hbound.emitted⟩
  | onMerkleUpdate s =>
    obtain ⟨-, h⟩ := of_guard (ended_eq_returned h)
    obtain rfl := ok_inj h
    exact .inl ⟨rfl, rfl, rfl, rfl, rfl, rfl, rfl⟩
  | _ => exact hc.elim

theorem Call.Sets.enter {c : Call} (hc : c.Sets) (h : MerkleGovModule.enter H (env, c) w = .returned w') :
    w'.toRegister = w.toRegister ∧ w'.blockNumber = w.blockNumber ∧ w'.history = w.history := by
  rcases hc.enter_cases h with hsame | ⟨-, rfl⟩
  · exact ⟨hsame.register, hsame.blockNumber, hsame.history⟩
  · exact ⟨rfl, rfl, rfl⟩

theorem perform_spec (w : World) (proposalId : U256) (actions : List ProposalAction) (index : ℕ) :
    perform w proposalId actions index = .returned w ∨ (∃ e, perform w proposalId actions index = .reverted e) ∨
      index < actions.length ∧ perform w proposalId actions index =
        .waits (w.note (.performed proposalId index)) ⟨proposalId, actions, index⟩ := by
  cases ha : actions[index]? with
  | none =>
    refine .inl ?_
    rw [perform, ha]
  | some a =>
    refine .inr ?_
    by_cases hrefused : refuses w a = true
    · refine .inl ⟨.error (.delegateCallNotAllowed a.target), ?_⟩
      simp only [perform, ha, if_pos hrefused]
    · refine .inr ⟨(List.getElem?_eq_some_iff.mp ha).1, ?_⟩
      simp only [perform, ha, if_neg hrefused]

def EnterSpec (H : Hashes) (presented : Address → U256 → List B256 → Prop) (w : World) :
    CallStack.Turn World Waiting Revert → Prop
  | .returned w' => Effects H presented w w'
  | .reverted _ => True
  | .waits w' k => ∃ v, begin w k.proposalId = .ok v ∧ k = ⟨k.proposalId, v.proposalActions k.proposalId, 0⟩ ∧
      0 < k.actions.length ∧ w' = v.note (.performed k.proposalId 0)

theorem EnterSpec.ended (h : ∀ w', r = .ok w' → Effects H presented w w') :
    EnterSpec H presented w (ended r) := by
  cases r with
  | ok w' => exact h w' rfl
  | error e => trivial

theorem execute_spec (w : World) (proposalId : U256) : EnterSpec H presented w (execute w proposalId) := by
  cases hbegin : begin w proposalId with
  | error e =>
    rw [execute, hbegin]
    trivial
  | ok v =>
    rw [execute, hbegin]
    show EnterSpec H presented w (perform v proposalId (v.proposalActions proposalId) 0)
    rcases perform_spec v proposalId (v.proposalActions proposalId) 0 with hturn | ⟨e, hturn⟩ | ⟨hindex, hturn⟩
    · rw [hturn]
      exact .single (begin_eq_ok hbegin).1
    · rw [hturn]
      trivial
    · rw [hturn]
      exact ⟨v, hbegin, rfl, hindex, rfl⟩

theorem enter_spec (hsound : Sound w) (i : Env × Call)
    (hpresented : ∀ a v π, i.2.Presents i.1.msgSender a v π → presented a v π) :
    EnterSpec H presented w (enter H i w) := by
  obtain ⟨env, c⟩ := i
  by_cases hc : c.Sets
  · cases hturn : enter H (env, c) w with
    | returned w' =>
      obtain ⟨hregister, hblock, hhistory⟩ := hc.enter hturn
      exact .single (.configured hregister hblock hhistory)
    | reverted e => trivial
    | waits w' k =>
      cases c with
      | execute => exact hc.elim
      | setUp => exact hc.elim
      | _ => exact absurd hturn ended_ne_waits
  · cases c with
    | setUp => trivial
    | propose args => exact .ended fun w' h => propose_eq_ok h
    | proposeWithVote args voteType =>
      exact .ended fun w' h => proposeWithVote_eq_ok hsound (hpresented _ _ _ ⟨rfl, rfl, rfl⟩) h
    | castVote proposalId voteType votingPower proof =>
      exact .ended fun w' h => castVote_eq_ok (hpresented _ _ _ ⟨rfl, rfl, rfl⟩) h
    | castVoteAsDelegate principal proposalId voteType votingPower proof reason =>
      exact .ended fun w' h => castVoteAsDelegate_eq_ok (hpresented _ _ _ ⟨rfl, rfl, rfl⟩) h
    | execute proposalId => exact execute_spec w proposalId
    | cancel proposalId => exact .ended fun w' h => .single (cancel_eq_ok h)
    | _ => exact absurd trivial hc

def ResumeSpec (k : Waiting) (w : World) : CallStack.Turn World Waiting Revert → Prop
  | .returned w' => w' = w
  | .reverted _ => True
  | .waits w' k' => k' = ⟨k.proposalId, k.actions, k.index + 1⟩ ∧ k.index + 1 < k.actions.length ∧
      w' = w.note (.performed k.proposalId (k.index + 1))

theorem resume_spec (k : Waiting) (a : Option Bool) (w : World) : ResumeSpec k w (resume k a w) := by
  match a with
  | none => trivial
  | some false => trivial
  | some true =>
    show ResumeSpec k w (perform w k.proposalId k.actions (k.index + 1))
    rcases perform_spec w k.proposalId k.actions (k.index + 1) with hturn | ⟨e, hturn⟩ | ⟨hindex, hturn⟩
    · rw [hturn]
      exact rfl
    · rw [hturn]
      trivial
    · rw [hturn]
      exact ⟨rfl, hindex, rfl⟩

/-- The proofs that the calls of a run present are among the `presented`. -/
def Presented (presented : Address → U256 → List B256 → Prop) (events : List Event) : Prop :=
  ∀ env c, CallStack.Event.enter (env, c) ∈ events → ∀ a v π, c.Presents env.msgSender a v π → presented a v π

structure Keeps (H : Hashes) (presented : Address → U256 → List B256 → Prop) (X : World → Prop) : Prop where
  effect : ∀ {w w'}, Sound w → Effect H presented w w' → X w → X w'
  performed : ∀ {w} (proposalId : U256) (index : ℕ), X w → X (w.note (.performed proposalId index))
  between : ∀ {w w'} {blockNumber : UInt64}, advance blockNumber w = some w' → X w → X w'

variable {X : World → Prop}

theorem Keeps.effects (hX : Keeps H presented X) (h : Effects H presented w w') (hsound : Sound w) (hw : X w) :
    Sound w' ∧ X w' := by
  induction h with
  | refl => exact ⟨hsound, hw⟩
  | tail _ heffect ih => exact ⟨heffect.sound ih.1, hX.effect ih.1 heffect ih.2⟩

theorem Sound.advance (h : Sound w) {blockNumber : UInt64} (hb : advance blockNumber w = some w') :
    Sound w' ∧ w.blockNumber.toNat ≤ w'.blockNumber.toNat ∧ w' = { w with blockNumber := w'.blockNumber } := by
  rw [MerkleGovModule.advance, Option.ite_none_left_eq_some] at hb
  obtain ⟨hlate, hb⟩ := hb
  obtain rfl := Option.some.inj hb
  exact ⟨h, UInt64.le_iff_toNat_le.mp (UInt64.not_lt.mp hlate), rfl⟩

theorem Keeps.preserved (hX : Keeps H presented X) : CallStack.Preserved (contract H)
      (fun e _ => ∀ env c, e = .enter (env, c) → ∀ a v π, c.Presents env.msgSender a v π → presented a v π)
      fun _ w => Sound w ∧ X w where
  enter i ks w hok h := by
    have hturn : EnterSpec H presented w (enter H i w) := enter_spec h.1 i (hok i.1 i.2 rfl)
    show CallStack.TurnHolds _ _ (enter H i w)
    cases hresult : enter H i w with
    | returned w' =>
      rw [hresult] at hturn
      exact hX.effects hturn h.1 h.2
    | reverted e => trivial
    | waits w' k =>
      rw [hresult] at hturn
      obtain ⟨v, hbegin, -, -, rfl⟩ := hturn
      have heffect : Effect H presented w v := (begin_eq_ok hbegin).1
      exact ⟨heffect.sound h.1, hX.performed _ _ (hX.effect h.1 heffect h.2)⟩
  resume k ks a w _ h := by
    have hturn := resume_spec k a w
    show CallStack.TurnHolds _ _ (resume k a w)
    cases hresult : resume k a w with
    | returned w' =>
      rw [hresult] at hturn
      obtain rfl : w' = w := hturn
      exact h
    | reverted e => trivial
    | waits w' k' =>
      rw [hresult] at hturn
      obtain ⟨-, -, rfl⟩ := hturn
      exact ⟨h.1, hX.performed _ _ h.2⟩
  outside r ks w _ h := by
    have heffect : Effect H presented w ((contract H).outside r w) := .configured rfl rfl rfl
    exact ⟨heffect.sound h.1, hX.effect h.1 heffect h.2⟩
  between b ks w _ h hb := ⟨(h.1.advance hb).1, hX.between hb h.2⟩

theorem Keeps.run_holds (hX : Keeps H presented X) (hsound : Sound w) (hw : X w) {events : List Event}
    (hpresented : Presented presented events) : Sound (run H w events).world ∧ X (run H w events).world := by
  refine (CallStack.run_holds hX.preserved ⟨hsound, hw⟩ fun before e after hsplit env c he => ?_).world
  exact hpresented env c (by rw [hsplit, he]; simp)

theorem Start.sound (h : Start w) : Sound w ∧ w.history = [] ∧ w.toRegister = (initial 0 0 0).toRegister := by
  obtain ⟨env, blockNumber, owner, avatar, target, merkleSnapshot, hok⟩ := h
  obtain ⟨hregister, -, hhistory, -, -, -, -⟩ := bindMerkleSnapshotContract_eq_ok hok
  have hinitial : w.toRegister = (initial 0 0 0).toRegister := hregister
  refine ⟨fun proposalId _ => ?_, hhistory, hinitial⟩
  have hproposals : w.proposals = fun _ => Proposal.none := congrArg Register.proposals hinitial
  have hactions : w.proposalActions = fun _ => [] := congrArg Register.proposalActions hinitial
  have hvoted : w.hasVoted = fun _ _ => false := congrArg Register.hasVoted hinitial
  rw [hproposals, hactions, hvoted]
  exact ⟨rfl, rfl, fun _ => rfl⟩

end

namespace GovExample

open OzMerkle.Example (addr leaf1 leaf2 rootWord)

def hashes : Hashes := OzMerkle.Example.hashes

def member1 : Address := addr 1

def member2 : Address := addr 2

def delegate : Address := addr 3

def safe : Address := addr 4

def call (sender : Address) (c : Call) : Event :=
  .enter (⟨sender, fun _ => .state ⟨99, 999, rootWord, 0, [], 30⟩⟩, c)

def constructed : Result World :=
  constructor ⟨addr 9, fun _ => .state ⟨99, 999, rootWord, 0, [], 30⟩⟩ 100 (addr 6) safe safe (addr 5)

theorem exists_start : ∃ w, constructed = .ok w ∧ Start w := by
  have hok : constructed.toOption.isSome = true := by decide +kernel
  obtain ⟨w, hw⟩ := Option.isSome_iff_exists.mp hok
  rw [toOption_eq_some] at hw
  exact ⟨w, hw, _, _, _, _, _, _, hw⟩

def args : ProposeArgs := ⟨[], [], [addr 7], [1], [[]], [.call], [[]], 10, [leaf2]⟩

def voting : List Event :=
  [call member1 (.propose args), .between 101, call member2 (.setVoteDelegate delegate),
    call delegate (.castVoteAsDelegate member2 1 .no 20 [leaf1] []), call member2 (.castVote 1 .yes 20 [leaf1]),
    call member1 (.castVote 1 .abstain 10 [leaf2])]

end GovExample

end Trustgraphs.MerkleGovModule
