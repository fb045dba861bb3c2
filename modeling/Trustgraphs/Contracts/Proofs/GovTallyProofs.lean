import Trustgraphs.Contracts.Proofs.MerkleGovModuleProofs
import Trustgraphs.Lib.Ledger

/-!
# The tallies of a proposal

The tallies of a proposal are the sums of the recorded power over the principals that have voted, and what is
recorded of a principal is what the history tells of its ballots: none, its own, that of its delegate, or that
of its delegate and then its own (`run_tally`).
-/

namespace Trustgraphs.MerkleGovModule

open Evm Function Outcome List Finset Option

section

attribute [local instance] FixedBytes.fintype

variable {H : Hashes} {presented : Address → U256 → List B256 → Prop} {w w' : World}

/-- The power that a principal's vote adds to a side. -/
def weight (w : World) (id : U256) (t : VoteType) (a : Address) : ℕ :=
  if w.hasVoted id a = true ∧ w.votes id a = t then (w.votePower id a).toNat else 0

/-- The ballot that an entry records of a principal. -/
def Entry.ballot (id : U256) (a : Address) : Entry → Option Ballot
  | .voted proposalId principal ballot => if proposalId = id ∧ principal = a then some ballot else none
  | _ => none

/-- The ballots of a principal on a proposal, oldest first. -/
def ballots (history : List Noted) (id : U256) (a : Address) : List Ballot :=
  history.filterMap fun n => n.entry.ballot id a

/-- What the mappings hold of the ballots of a principal. -/
inductive Recorded (w : World) (id : U256) (a : Address) : List Ballot → Prop
  | unvoted (hvoted : w.hasVoted id a = false) (hfinal : w.votedByDelegate id a = false) : Recorded w id a []
  | direct (b : Ballot) (hkind : b.kind = .direct) (hcaller : b.caller = a) (hvoted : w.hasVoted id a = true)
      (hfinal : w.votedByDelegate id a = false) (hvote : w.votes id a = b.voteType)
      (hpower : w.votePower id a = b.votingPower) : Recorded w id a [b]
  | delegated (b : Ballot) (hkind : b.kind = .delegated) (hvoted : w.hasVoted id a = true)
      (hprovisional : w.votedByDelegate id a = true) (hdelegate : w.delegateVoter id a = b.caller)
      (hvote : w.votes id a = b.voteType) (hpower : w.votePower id a = b.votingPower) : Recorded w id a [b]
  | replaced (b b' : Ballot) (hkind : b.kind = .delegated) (hkind' : b'.kind = .override)
      (hcaller : b'.caller = a) (hvoted : w.hasVoted id a = true) (hfinal : w.votedByDelegate id a = false)
      (hdelegate : w.delegateVoter id a = b.caller) (hvote : w.votes id a = b'.voteType)
      (hpower : w.votePower id a = b.votingPower) (hpower' : w.votePower id a = b'.votingPower) :
      Recorded w id a [b, b']

/-- The tallies are sums of proved votes, recorded as they were cast. -/
structure Tallied (H : Hashes) (w : World) : Prop where
  tally : ∀ id t, ((w.proposals id).tally t).toNat = ∑ a, weight w id t a
  proved : ∀ id a, w.hasVoted id a = true →
    ∃ proof, OzMerkle.verifyProof H (w.proposals id).merkleRoot a (w.votePower id a) proof = true
  recorded : ∀ id a, Recorded w id a (ballots w.history id a)

variable {α : Type} {id : U256} {a : Address} {bs : List Ballot} {voter : Address}
  {proposal : Proposal} {t : VoteType} {votingPower : U256}

theorem put_apply (f : U256 → Address → α) (id id' : U256) (a a' : Address) (x : α) :
    World.put f id a x id' a' = if id' = id ∧ a' = a then x else f id' a' := by
  rw [World.put]
  by_cases hid : id' = id
  · subst hid
    rw [update_self]
    by_cases ha : a' = a
    · subst ha
      rw [update_self, if_pos ⟨rfl, rfl⟩]
    · rw [update_of_ne ha, if_neg fun h => ha h.2]
  · rw [update_of_ne hid, if_neg fun h => hid h.1]

theorem put_self (f : U256 → Address → α) (id : U256) (a : Address) (x : α) : World.put f id a x id a = x := by
  rw [put_apply, if_pos ⟨rfl, rfl⟩]

theorem put_other (f : U256 → Address → α) {id' : U256} {a' : Address} (x : α)
    (h : ¬ (id' = id ∧ a' = a)) : World.put f id a x id' a' = f id' a' := by
  rw [put_apply, if_neg h]

theorem ballots_append (history : List Noted) (n : Noted) (id : U256) (a : Address) :
    ballots (history ++ [n]) id a = ballots history id a ++ (n.entry.ballot id a).toList := by
  rw [ballots, filterMap_append, filterMap_cons]
  cases n.entry.ballot id a <;> rfl

theorem ballots_other {history : List Noted} {n : Noted}
    (h : n.entry.ballot id a = none) : ballots (history ++ [n]) id a = ballots history id a := by
  rw [ballots_append, h, toList_none, append_nil]

theorem Recorded.congr (h : Recorded w id a bs)
    (hvoted : w'.hasVoted id a = w.hasVoted id a) (hvotes : w'.votes id a = w.votes id a)
    (hdelegated : w'.votedByDelegate id a = w.votedByDelegate id a)
    (hpower : w'.votePower id a = w.votePower id a) (hvoter : w'.delegateVoter id a = w.delegateVoter id a) :
    Recorded w' id a bs := by
  cases h with
  | unvoted h₁ h₂ => exact .unvoted (hvoted.trans h₁) (hdelegated.trans h₂)
  | direct b hkind hcaller h₁ h₂ h₃ h₄ =>
    exact .direct b hkind hcaller (hvoted.trans h₁) (hdelegated.trans h₂) (hvotes.trans h₃) (hpower.trans h₄)
  | delegated b hkind h₁ h₂ h₃ h₄ h₅ =>
    exact .delegated b hkind (hvoted.trans h₁) (hdelegated.trans h₂) (hvoter.trans h₃) (hvotes.trans h₄)
      (hpower.trans h₅)
  | replaced b b' hkind hkind' hcaller h₁ h₂ h₃ h₄ h₅ h₆ =>
    exact .replaced b b' hkind hkind' hcaller (hvoted.trans h₁) (hdelegated.trans h₂) (hvoter.trans h₃)
      (hvotes.trans h₄) (hpower.trans h₅) (hpower.trans h₆)

theorem Tallied.congr (h : Tallied H w) (hvoted : w'.hasVoted = w.hasVoted) (hvotes : w'.votes = w.votes)
    (hdelegated : w'.votedByDelegate = w.votedByDelegate) (hpower : w'.votePower = w.votePower)
    (hvoter : w'.delegateVoter = w.delegateVoter)
    (htally : ∀ id t, (w'.proposals id).tally t = (w.proposals id).tally t)
    (hroot : ∀ id a, w.hasVoted id a = true → (w'.proposals id).merkleRoot = (w.proposals id).merkleRoot)
    (hballots : ∀ id a, ballots w'.history id a = ballots w.history id a) : Tallied H w' where
  tally id t := by
    have hweight : weight w' id t = weight w id t := by
      funext a
      rw [weight, weight, hvoted, hvotes, hpower]
    rw [htally, hweight]
    exact h.tally id t
  proved id a hv := by
    rw [hvoted] at hv
    rw [hroot id a hv, hpower]
    exact h.proved id a hv
  recorded id a := by
    rw [hballots]
    exact (h.recorded id a).congr (by rw [hvoted]) (by rw [hvotes]) (by rw [hdelegated]) (by rw [hpower])
      (by rw [hvoter])

/-- One ballot of a principal is counted in place of what was recorded of it. -/
theorem Tallied.counted (h : Tallied H w) {ballot : Ballot}
    {proof : List B256} (hproposals : w'.proposals = update w.proposals id proposal)
    (hvoted : w'.hasVoted id voter = true) (hvotes : w'.votes id voter = ballot.voteType)
    (hpower : w'.votePower id voter = ballot.votingPower)
    (hothers : ∀ id' a, ¬ (id' = id ∧ a = voter) → w'.hasVoted id' a = w.hasVoted id' a ∧
      w'.votes id' a = w.votes id' a ∧ w'.votePower id' a = w.votePower id' a ∧
      w'.votedByDelegate id' a = w.votedByDelegate id' a ∧ w'.delegateVoter id' a = w.delegateVoter id' a)
    (htally : ∀ t, (proposal.tally t).toNat + weight w id t voter =
      ((w.proposals id).tally t).toNat + weight w' id t voter)
    (hroot : proposal.merkleRoot = (w.proposals id).merkleRoot)
    (hproof : OzMerkle.verifyProof H (w.proposals id).merkleRoot voter ballot.votingPower proof = true)
    (hhistory : w'.history = w.history ++ [⟨w.blockNumber, .voted id voter ballot⟩])
    (hrecorded : Recorded w' id voter (ballots w.history id voter ++ [ballot])) : Tallied H w' where
  tally id' t := by
    rw [hproposals]
    by_cases hid : id' = id
    · subst hid
      rw [update_self]
      have hsum : ∑ a, weight w' id' t a + weight w id' t voter = ∑ a,
          weight w id' t a + weight w' id' t voter := by
        refine Ledger.sum_changed fun a ha => ?_
        obtain ⟨hv, ht, hp, -⟩ := hothers id' a fun hsame => ha hsame.2
        rw [weight, weight, hv, ht, hp]
      have hbefore := h.tally id' t
      have hnow := htally t
      omega
    · rw [update_of_ne hid, h.tally id' t]
      refine sum_congr rfl fun a _ => ?_
      obtain ⟨hv, ht, hp, -⟩ := hothers id' a fun hsame => hid hsame.1
      rw [weight, weight, hv, ht, hp]
  proved id' a hv := by
    rw [hproposals]
    by_cases hsame : id' = id ∧ a = voter
    · obtain ⟨rfl, rfl⟩ := hsame
      rw [update_self, hroot, hpower]
      exact ⟨proof, hproof⟩
    · obtain ⟨hv', -, hp, -⟩ := hothers id' a hsame
      rw [hv'] at hv
      rw [hp]
      by_cases hid : id' = id
      · subst hid
        rw [update_self, hroot]
        exact h.proved id' a hv
      · rw [update_of_ne hid]
        exact h.proved id' a hv
  recorded id' a := by
    rw [hhistory, ballots_append]
    by_cases hsame : id' = id ∧ a = voter
    · obtain ⟨rfl, rfl⟩ := hsame
      rw [Entry.ballot, if_pos ⟨rfl, rfl⟩]
      exact hrecorded
    · rw [Entry.ballot, if_neg fun hs => hsame ⟨hs.1.symm, hs.2.symm⟩, toList_none, append_nil]
      obtain ⟨hv, ht, hp, hd, hdv⟩ := hothers id' a hsame
      exact (h.recorded id' a).congr hv ht hd hp hdv

theorem Recorded.eq_nil (h : Recorded w id a bs)
    (hvoted : w.hasVoted id a = false) : bs = [] ∧ w.votedByDelegate id a = false := by
  cases h with
  | unvoted _ hfinal => exact ⟨rfl, hfinal⟩
  | direct b _ _ h₁ => exact absurd (hvoted.symm.trans h₁) (by simp)
  | delegated b _ h₁ => exact absurd (hvoted.symm.trans h₁) (by simp)
  | replaced b b' _ _ _ h₁ => exact absurd (hvoted.symm.trans h₁) (by simp)

theorem Recorded.eq_delegated (h : Recorded w id a bs)
    (hprovisional : w.votedByDelegate id a = true) : ∃ b, bs = [b] ∧ b.kind = .delegated ∧
      w.delegateVoter id a = b.caller ∧ w.votePower id a = b.votingPower := by
  cases h with
  | unvoted _ h₂ => exact absurd (hprovisional.symm.trans h₂) (by simp)
  | direct b _ _ _ h₂ => exact absurd (hprovisional.symm.trans h₂) (by simp)
  | delegated b hkind _ _ hdelegate _ hpower => exact ⟨b, rfl, hkind, hdelegate, hpower⟩
  | replaced b b' _ _ _ _ h₂ => exact absurd (hprovisional.symm.trans h₂) (by simp)

theorem weight_of_unvoted (h : w.hasVoted id a = false) (t : VoteType) : weight w id t a = 0 := by
  rw [weight, if_neg]
  rw [h]
  exact fun hv => (nomatch hv.1)

theorem tally_first {ballot : Ballot} (hnew : w.hasVoted id voter = false)
    (htally : addToTally (w.proposals id) ballot.voteType ballot.votingPower = .ok proposal)
    (hvoted : w'.hasVoted id voter = true) (hvotes : w'.votes id voter = ballot.voteType)
    (hpower : w'.votePower id voter = ballot.votingPower) (t : VoteType) :
    (proposal.tally t).toNat + weight w id t voter = ((w.proposals id).tally t).toNat + weight w' id t voter := by
  obtain ⟨votes, hsum, rfl⟩ := addToTally_eq_ok.mp htally
  rw [weight_of_unvoted hnew, Proposal.tally_setTally, weight, hvoted, hvotes, hpower]
  by_cases ht : t = ballot.voteType
  · subst ht
    rw [if_pos rfl, if_pos ⟨rfl, rfl⟩, hsum]
    rfl
  · rw [if_neg ht, if_neg fun h => ht h.2.symm]

theorem tally_replaced {voteType : VoteType} {lowered : Proposal} (hold : w.hasVoted id voter = true)
    (hlowered : subtractFromTally (w.proposals id) (w.votes id voter) (w.votePower id voter) = .ok lowered)
    (htally : addToTally lowered voteType (w.votePower id voter) = .ok proposal)
    (hvoted : w'.hasVoted id voter = true) (hvotes : w'.votes id voter = voteType)
    (hpower : w'.votePower id voter = w.votePower id voter) (t : VoteType) :
    (proposal.tally t).toNat + weight w id t voter = ((w.proposals id).tally t).toNat + weight w' id t voter := by
  obtain ⟨less, hless, rfl⟩ := subtractFromTally_eq_ok.mp hlowered
  obtain ⟨more, hmore, rfl⟩ := addToTally_eq_ok.mp htally
  rw [Proposal.tally_setTally] at hmore
  rw [Proposal.tally_setTally, Proposal.tally_setTally, weight, weight, hold, hvoted, hvotes, hpower]
  simp only [true_and]
  by_cases hnew : t = voteType
  · subst hnew
    rw [if_pos rfl, if_pos rfl]
    by_cases hsame : t = w.votes id voter
    · rw [if_pos hsame] at hmore
      rw [if_pos hsame.symm, hsame]
      omega
    · rw [if_neg hsame] at hmore
      rw [if_neg (Ne.symm hsame)]
      omega
  · rw [if_neg hnew, if_neg (Ne.symm hnew)]
    by_cases hsame : t = w.votes id voter
    · subst hsame
      rw [if_pos rfl, if_pos rfl]
      omega
    · rw [if_neg hsame, if_neg (Ne.symm hsame)]

theorem merkleRoot_setTally (proposal : Proposal) (t : VoteType) (votes : U256) :
    (proposal.setTally t votes).merkleRoot = proposal.merkleRoot := by
  cases t <;> rfl

theorem addToTally_merkleRoot {proposal' : Proposal}
    (h : addToTally proposal t votingPower = .ok proposal') : proposal'.merkleRoot = proposal.merkleRoot := by
  obtain ⟨votes, -, rfl⟩ := addToTally_eq_ok.mp h
  exact merkleRoot_setTally ..

theorem subtractFromTally_merkleRoot {proposal' : Proposal}
    (h : subtractFromTally proposal t votingPower = .ok proposal') :
    proposal'.merkleRoot = proposal.merkleRoot := by
  obtain ⟨votes, -, rfl⟩ := subtractFromTally_eq_ok.mp h
  exact merkleRoot_setTally ..

theorem Tallied.flagged (h : Tallied H w) {entry : Entry}
    (htally : ∀ t, proposal.tally t = (w.proposals id).tally t)
    (hroot : proposal.merkleRoot = (w.proposals id).merkleRoot) (hentry : ∀ id' a, entry.ballot id' a = none) :
    Tallied H ((w.setProposal id proposal).note entry) := by
  refine h.congr rfl rfl rfl rfl rfl (fun id' t => ?_) (fun id' a _ => ?_) fun id' a => ?_
  · show (update w.proposals id proposal id').tally t = _
    by_cases hid : id' = id
    · subst hid
      rw [update_self, htally]
    · rw [update_of_ne hid]
  · show (update w.proposals id proposal id').merkleRoot = _
    by_cases hid : id' = id
    · subst hid
      rw [update_self, hroot]
    · rw [update_of_ne hid]
  · exact ballots_other (hentry id' a)

theorem Effect.tallied (heffect : Effect H presented w w') (hsound : Sound w) (h : Tallied H w) : Tallied H w' := by
  cases heffect with
  | configured hregister _ hhistory =>
    have hproposals : w'.proposals = w.proposals := congrArg Register.proposals hregister
    exact h.congr (congrArg Register.hasVoted hregister) (congrArg Register.votes hregister)
      (congrArg Register.votedByDelegate hregister) (congrArg Register.votePower hregister)
      (congrArg Register.delegateVoter hregister) (fun id t => by rw [hproposals])
      (fun id a _ => by rw [hproposals]) fun id a => by rw [hhistory]
  | created id proposal actions terms hid _ hyes hno habstain =>
    have hnew : ¬ Existing w id := fun hexisting => by
      have := hexisting.2
      omega
    obtain ⟨-, -, hunvoted⟩ := hsound id hnew
    refine h.congr rfl rfl rfl rfl rfl (fun id' t => ?_) (fun id' a hvoted => ?_) fun id' a => ?_
    · show (update w.proposals id proposal id').tally t = _
      by_cases hsame : id' = id
      · subst hsame
        rw [update_self]
        cases t with
        | no => exact hno
        | yes => exact hyes
        | abstain => exact habstain
      · rw [update_of_ne hsame]
    · show (update w.proposals id proposal id').merkleRoot = _
      have hsame : id' ≠ id := by
        rintro rfl
        rw [hunvoted a] at hvoted
        exact nomatch hvoted
      rw [update_of_ne hsame]
    · exact ballots_other rfl
  | voted id voter voteType votingPower proof proposal _ hnew _ hproof htally =>
    obtain ⟨hnil, hfinal⟩ := (h.recorded id voter).eq_nil hnew
    refine @Tallied.counted H w _ id voter proposal h ⟨.direct, voter, voteType,
      votingPower⟩ proof rfl (put_self ..) (put_self ..) (put_self ..)
      (fun id' a hother => ?_) (tally_first hnew htally (put_self ..) (put_self ..) (put_self ..))
      (addToTally_merkleRoot htally) hproof rfl ?_
    · exact ⟨put_other _ _ hother, put_other _ _ hother, put_other _ _ hother, rfl, rfl⟩
    · rw [hnil]
      exact .direct _ rfl rfl (put_self ..) hfinal (put_self ..) (put_self ..)
  | delegated id voter delegate voteType votingPower proof proposal _ hnew _ _ hproof htally =>
    obtain ⟨hnil, -⟩ := (h.recorded id voter).eq_nil hnew
    refine @Tallied.counted H w _ id voter proposal h ⟨.delegated, delegate, voteType,
      votingPower⟩ proof rfl (put_self ..) (put_self ..)
      (put_self ..) (fun id' a hother => ?_) (tally_first hnew htally (put_self ..) (put_self ..) (put_self ..))
      (addToTally_merkleRoot htally) hproof rfl ?_
    · exact ⟨put_other _ _ hother, put_other _ _ hother, put_other _ _ hother, put_other _ _ hother,
        put_other _ _ hother⟩
    · rw [hnil]
      exact .delegated _ rfl (put_self ..) (put_self ..) (put_self ..) (put_self ..) (put_self ..)
  | replaced id voter voteType lowered proposal _ hvoted hprovisional hlowered htally =>
    obtain ⟨b, hballots, hkind, hdelegate, hpower⟩ := (h.recorded id voter).eq_delegated hprovisional
    obtain ⟨proof, hproof⟩ := h.proved id voter hvoted
    refine @Tallied.counted H w _ id voter proposal h ⟨.override, voter, voteType,
      w.votePower id voter⟩ proof rfl hvoted (put_self ..) rfl
      (fun id' a hother => ?_) (tally_replaced hvoted hlowered htally hvoted (put_self ..) rfl)
      ((addToTally_merkleRoot htally).trans (subtractFromTally_merkleRoot hlowered)) hproof rfl ?_
    · exact ⟨rfl, put_other _ _ hother, rfl, put_other _ _ hother, rfl⟩
    · rw [hballots]
      exact .replaced b _ hkind rfl rfl hvoted (put_self ..) hdelegate (put_self ..) hpower rfl
  | executed id => exact h.flagged (fun t => by cases t <;> rfl) rfl fun _ _ => rfl
  | cancelled id => exact h.flagged (fun t => by cases t <;> rfl) rfl fun _ _ => rfl

theorem keeps_tallied : Keeps H presented (Tallied H) where
  effect hsound heffect h := heffect.tallied hsound h
  performed proposalId index h := by
    refine h.congr rfl rfl rfl rfl rfl (fun _ _ => rfl) (fun _ _ _ => rfl) fun id a => ?_
    exact ballots_other rfl
  between hb h := by
    rw [Option.some.inj (ite_none_left_eq_some.mp hb).2.symm]
    exact h.congr rfl rfl rfl rfl rfl (fun _ _ => rfl) (fun _ _ _ => rfl) fun _ _ => rfl

theorem Start.tallied (h : Start w) : Tallied H w := by
  obtain ⟨-, hhistory, hregister⟩ := h.sound
  have hproposals : w.proposals = fun _ => Proposal.none := congrArg Register.proposals hregister
  have hvoted : w.hasVoted = fun _ _ => false := congrArg Register.hasVoted hregister
  have hdelegated : w.votedByDelegate = fun _ _ => false := congrArg Register.votedByDelegate hregister
  refine ⟨fun id t => ?_, fun id a hv => ?_, fun id a => ?_⟩
  · rw [hproposals]
    have hnone : ∀ a, weight w id t a = 0 := fun a => weight_of_unvoted (by rw [hvoted]) t
    rw [sum_congr rfl fun a _ => hnone a, sum_const_zero]
    cases t <;> rfl
  · rw [hvoted] at hv
    exact nomatch hv
  · rw [hhistory]
    exact .unvoted (by rw [hvoted]) (by rw [hdelegated])

theorem Tallied.sum (h : Tallied H w) (id : U256) :
    (w.proposals id).yesVotes.toNat + (w.proposals id).noVotes.toNat + (w.proposals id).abstainVotes.toNat =
      ∑ a with w.hasVoted id a = true, (w.votePower id a).toNat := by
  have hyes := h.tally id .yes
  have hno := h.tally id .no
  have habstain := h.tally id .abstain
  change (w.proposals id).yesVotes.toNat = _ at hyes
  change (w.proposals id).noVotes.toNat = _ at hno
  change (w.proposals id).abstainVotes.toNat = _ at habstain
  rw [hyes, hno, habstain, ← sum_add_distrib, ← sum_add_distrib, sum_filter]
  refine sum_congr rfl fun a _ => ?_
  rw [weight, weight, weight]
  cases w.hasVoted id a with
  | false => rfl
  | true => cases w.votes id a <;> simp

theorem arith_ne_underflow {x : Option α} : (arith x : Result α) ≠ .error .underflow := by
  cases x with
  | none => rintro ⟨⟩
  | some a => rintro ⟨⟩

theorem mulDiv_ne_underflow {x y d : U256} : (Evm.mulDiv x y d : Result U256) ≠ .error .underflow := by
  rw [Evm.mulDiv]
  split
  · rintro ⟨⟩
  · exact arith_ne_underflow

theorem addToTally_ne_underflow : addToTally proposal t votingPower ≠ .error .underflow := by
  intro h
  cases t <;>
  · rcases bind_eq_error.mp h with h | ⟨votes, -, h⟩
    · exact arith_ne_underflow h
    · cases h

theorem state_ne_underflow : state w id ≠ .error .underflow := by
  intro h
  rw [state] at h
  split at h
  · cases h
  dsimp only at h
  split at h
  · cases h
  split at h
  · cases h
  split at h
  · cases h
  split at h
  · cases h
  rcases bind_eq_error.mp h with h | ⟨decisiveVotes, -, h⟩
  · exact arith_ne_underflow h
  rcases bind_eq_error.mp h with h | ⟨quorumThreshold, -, h⟩
  · exact mulDiv_ne_underflow h
  split at h
  · split at h <;> cases h
  · cases h

theorem Tallied.overrideDelegateVote_ne_underflow (h : Tallied H w) {env : Env}
    {voteType : VoteType} (hvoted : w.hasVoted id a = true) :
    overrideDelegateVote env w id a voteType votingPower ≠ .error .underflow := by
  intro hu
  rcases ite_error_eq_error.mp hu with ⟨-, he⟩ | ⟨-, hu⟩
  · cases he
  have hle : (w.votePower id a).toNat ≤ ((w.proposals id).tally (w.votes id a)).toNat := by
    have hweight : weight w id (w.votes id a) a = (w.votePower id a).toNat := by
      rw [weight, if_pos ⟨hvoted, rfl⟩]
    rw [h.tally, ← hweight]
    exact Finset.single_le_sum (f := weight w id (w.votes id a)) (fun _ _ => Nat.zero_le _) (mem_univ a)
  obtain ⟨less, hless⟩ := Checked.exists_toNat (w := 256)
    (n := ((w.proposals id).tally (w.votes id a)).toNat - (w.votePower id a).toNat)
    (by have := ((w.proposals id).tally (w.votes id a)).isLt; omega)
  have hok : subtractFromTally (w.proposals id) (w.votes id a) (w.votePower id a) = .ok _ :=
    subtractFromTally_eq_ok.mpr ⟨less, by omega, rfl⟩
  rw [hok] at hu
  rcases bind_eq_error.mp hu with hu | ⟨lowered, -, hu⟩
  · cases hu
  rcases bind_eq_error.mp hu with hu | ⟨proposal, -, hu⟩
  · exact addToTally_ne_underflow hu
  · cases hu

theorem Tallied.castVote_ne_underflow (h : Tallied H w) (env : Env) (id : U256) (voteType : VoteType)
    (votingPower : U256) (proof : List B256) :
    castVote H env w id voteType votingPower proof ≠ .error .underflow := by
  intro hu
  rcases bind_eq_error.mp hu with hu | ⟨current, -, hu⟩
  · exact state_ne_underflow hu
  rcases ite_error_eq_error.mp hu with ⟨-, he⟩ | ⟨-, hu⟩
  · cases he
  rcases ite_error_eq_error.mp hu with ⟨-, he⟩ | ⟨-, hu⟩
  · cases he
  rcases bind_eq_error.mp hu with hu | ⟨u, -, hu⟩
  · rw [verifyMerkleProof] at hu
    split at hu <;> cases hu
  rcases bind_eq_error.mp hu with hu | ⟨v, -, hu⟩
  · rw [castDirectVote] at hu
    by_cases hvoted : w.hasVoted id env.msgSender = true
    · rw [if_pos hvoted] at hu
      exact h.overrideDelegateVote_ne_underflow hvoted hu
    · rw [if_neg hvoted] at hu
      rcases bind_eq_error.mp hu with hu | ⟨proposal, -, hu⟩
      · exact addToTally_ne_underflow hu
      · cases hu
  · rcases bind_eq_error.mp hu with hu | ⟨sequence, -, hu⟩
    · exact arith_ne_underflow hu
    · cases hu

/-- Whoever has voted on a proposal of the root has a leaf with the recorded power. -/
def Leafed (root : B256) (leaves : List (Address × U256)) (w : World) : Prop :=
  ∀ id, (w.proposals id).merkleRoot = root → ∀ a, w.hasVoted id a = true → (a, w.votePower id a) ∈ leaves

variable {root : B256} {leaves : List (Address × U256)}

theorem Leafed.congr (h : Leafed root leaves w) (hvoted : w'.hasVoted = w.hasVoted)
    (hpower : w'.votePower = w.votePower)
    (hroot : ∀ id a, w.hasVoted id a = true → (w'.proposals id).merkleRoot = (w.proposals id).merkleRoot) :
    Leafed root leaves w' := by
  intro id hid a hv
  rw [hvoted] at hv
  rw [hroot id a hv] at hid
  rw [hpower]
  exact h id hid a hv

theorem Leafed.counted (h : Leafed root leaves w) (hproposals : w'.proposals = update w.proposals id proposal)
    (hroot : proposal.merkleRoot = (w.proposals id).merkleRoot)
    (hvoted : w'.hasVoted = World.put w.hasVoted id voter true)
    (hpower : w'.votePower = World.put w.votePower id voter votingPower)
    (hleaf : (w.proposals id).merkleRoot = root → (voter, votingPower) ∈ leaves) : Leafed root leaves w' := by
  intro id' hid a hv
  have hsame : (w'.proposals id').merkleRoot = (w.proposals id').merkleRoot := by
    rw [hproposals]
    by_cases hi : id' = id
    · subst hi
      rw [update_self, hroot]
    · rw [update_of_ne hi]
  rw [hsame] at hid
  rw [hpower, put_apply]
  rw [hvoted, put_apply] at hv
  by_cases hthis : id' = id ∧ a = voter
  · obtain ⟨rfl, rfl⟩ := hthis
    rw [if_pos ⟨rfl, rfl⟩]
    exact hleaf hid
  · rw [if_neg hthis] at hv ⊢
    exact h id' hid a hv

theorem Effect.leafed
    (heffect : Effect H (fun a v π => OzMerkle.verifyProof H root a v π = true → (a, v) ∈ leaves) w w')
    (hsound : Sound w) (h : Leafed root leaves w) : Leafed root leaves w' := by
  cases heffect with
  | configured hregister =>
    have hproposals : w'.proposals = w.proposals := congrArg Register.proposals hregister
    exact h.congr (congrArg Register.hasVoted hregister) (congrArg Register.votePower hregister)
      fun id a _ => by rw [hproposals]
  | created id proposal actions terms hid =>
    refine h.congr rfl rfl fun id' a hvoted => ?_
    have hsame : id' ≠ id := by
      rintro rfl
      have hnew : ¬ Existing w id' := fun hexisting => by
        have := hexisting.2
        omega
      rw [(hsound id' hnew).2.2 a] at hvoted
      exact nomatch hvoted
    show (update w.proposals id proposal id').merkleRoot = _
    rw [update_of_ne hsame]
  | voted id voter voteType votingPower proof proposal _ _ hpresented hproof htally =>
    exact h.counted rfl (addToTally_merkleRoot htally) rfl rfl fun hroot => hpresented (hroot ▸ hproof)
  | delegated id voter delegate voteType votingPower proof proposal _ _ _ hpresented hproof htally =>
    exact h.counted rfl (addToTally_merkleRoot htally) rfl rfl fun hroot => hpresented (hroot ▸ hproof)
  | replaced id voter voteType lowered proposal _ _ _ hlowered htally =>
    refine h.congr rfl rfl fun id' a _ => ?_
    show (update w.proposals id proposal id').merkleRoot = _
    by_cases hi : id' = id
    · subst hi
      rw [update_self, addToTally_merkleRoot htally, subtractFromTally_merkleRoot hlowered]
    · rw [update_of_ne hi]
  | executed id =>
    refine h.congr rfl rfl fun id' a _ => ?_
    show (update w.proposals id _ id').merkleRoot = _
    by_cases hi : id' = id
    · subst hi
      rw [update_self]
    · rw [update_of_ne hi]
  | cancelled id =>
    refine h.congr rfl rfl fun id' a _ => ?_
    show (update w.proposals id _ id').merkleRoot = _
    by_cases hi : id' = id
    · subst hi
      rw [update_self]
    · rw [update_of_ne hi]

theorem keeps_leafed :
    Keeps H (fun a v π => OzMerkle.verifyProof H root a v π = true → (a, v) ∈ leaves) (Leafed root leaves) where
  effect hsound heffect h := heffect.leafed hsound h
  performed _ _ h := h.congr rfl rfl fun _ _ _ => rfl
  between hb h := by
    rw [Option.some.inj (ite_none_left_eq_some.mp hb).2.symm]
    exact h.congr rfl rfl fun _ _ _ => rfl

theorem sum_le_leaves (hunique : (leaves.map Prod.fst).Nodup) (voters : Finset Address) (power : Address → U256)
    (h : ∀ a ∈ voters, (a, power a) ∈ leaves) :
    ∑ a ∈ voters, (power a).toNat ≤ (leaves.map fun l => l.2.toNat).sum := by
  have hnodup : leaves.Nodup := hunique.of_map _
  have hinj : Set.InjOn (fun a => (a, power a)) voters := fun a _ b _ hab => (Prod.mk.inj hab).1
  rw [← sum_toFinset _ hnodup, ← sum_image (f := fun l : Address × U256 => l.2.toNat) hinj]
  refine sum_le_sum_of_subset fun l hl => ?_
  obtain ⟨a, ha, rfl⟩ := mem_image.mp hl
  exact List.mem_toFinset.mpr (h a ha)

open OzMerkle Merkle in
/-- Along a run, for a proposal: the tallies are the sum of the recorded power over those that have voted; what
is recorded was proved under its root; the ballots of a principal are none, its own, that of its delegate, or
that of its delegate and then its own; no tally underflows; and where the root is that of leaves whose power
sums to the total, the tallies do not exceed it. -/
theorem run_tally (H : Hashes) (w : World) (hstart : Start w) (events : List Event) (id : U256) :
    let v := (run H w events).world
    let proposal := v.proposals id
    let total := proposal.yesVotes.toNat + proposal.noVotes.toNat + proposal.abstainVotes.toNat
    total = ∑ a with v.hasVoted id a = true, (v.votePower id a).toNat ∧
    (∀ a, v.hasVoted id a = true →
      ∃ proof, verifyProof H proposal.merkleRoot a (v.votePower id a) proof = true) ∧
    (∀ a, Recorded v id a (ballots v.history id a)) ∧
    (∀ env voteType votingPower proof, castVote H env v id voteType votingPower proof ≠ .error .underflow) ∧
    ∀ leaves : List (Address × U256), (leaves.map Prod.fst).Nodup →
      (leaves.map fun l => l.2.toNat).sum = proposal.totalVotingPower.toNat →
      merkleRoot H (outputLeaves H leaves) = some proposal.merkleRoot →
      Presented (fun a v π => CollisionFree H.keccak256
        (outputHashed H leaves ++ outputPreimages H (a, v) ++ proofHashed H (outputLeaf H a v) π)) events →
      total ≤ proposal.totalVotingPower.toNat := by
  intro v proposal total
  have hpresented : Presented (fun _ _ _ => True) events := fun _ _ _ _ _ _ _ => trivial
  have h : Tallied H v := (keeps_tallied.run_holds hstart.sound.1 hstart.tallied hpresented).2
  refine ⟨h.sum id, h.proved id, h.recorded id, (h.castVote_ne_underflow · id),
    fun leaves hunique hsum hroot hfree => ?_⟩
  have hpresented : Presented (fun a v π => verifyProof H proposal.merkleRoot a v π = true → (a, v) ∈ leaves)
      events := fun env c he a v π hp hverify =>
    (output_root_binding H).1 leaves a v π proposal.merkleRoot (hfree env c he a v π hp) hroot hverify
  have hleafed : Leafed proposal.merkleRoot leaves v := by
    refine (keeps_leafed.run_holds hstart.sound.1 (fun id' _ a hv => ?_) hpresented).2
    rw [congrArg Register.hasVoted hstart.sound.2.2] at hv
    exact nomatch hv
  rw [show total = _ from h.sum id, ← hsum]
  exact sum_le_leaves hunique _ _ fun a ha => hleafed id rfl a (Finset.mem_filter.mp ha).2

end

namespace GovExample

open OzMerkle.Example (scores leaf1 leaf2)

theorem voting_tallies : (constructed.toOption.map fun w =>
    let proposal := (run hashes w voting).world.proposals 1
    (proposal.yesVotes, proposal.noVotes, proposal.abstainVotes, proposal.totalVotingPower, proposal.merkleRoot)) =
    some (20, 0, 10, 30, OzMerkle.Example.rootWord) := by
  decide +kernel

theorem voting_collisionFree : CollisionFree hashes.keccak256
    ((Merkle.outputHashed hashes scores ++ Merkle.outputPreimages hashes (member1, 10) ++
        Merkle.proofHashed hashes (outputLeaf hashes member1 10) [leaf2]) ++
      (Merkle.outputHashed hashes scores ++ Merkle.outputPreimages hashes (member2, 20) ++
        Merkle.proofHashed hashes (outputLeaf hashes member2 20) [leaf1])) := by
  constructor
  · decide +kernel
  · decide +kernel

theorem voting_presented : Presented (fun a v π => CollisionFree hashes.keccak256
    (Merkle.outputHashed hashes scores ++ Merkle.outputPreimages hashes (a, v) ++
      Merkle.proofHashed hashes (outputLeaf hashes a v) π)) voting := by
  have hfree := voting_collisionFree
  have h₁ : CollisionFree hashes.keccak256 (Merkle.outputHashed hashes scores ++
      Merkle.outputPreimages hashes (member1, 10) ++
      Merkle.proofHashed hashes (outputLeaf hashes member1 10) [leaf2]) :=
    hfree.mono fun s hs => mem_append_left _ hs
  have h₂ : CollisionFree hashes.keccak256 (Merkle.outputHashed hashes scores ++
      Merkle.outputPreimages hashes (member2, 20) ++
      Merkle.proofHashed hashes (outputLeaf hashes member2 20) [leaf1]) :=
    hfree.mono fun s hs => mem_append_right _ hs
  intro env c he a v π hp
  simp only [voting, call, List.mem_cons, CallStack.Event.enter.injEq, Prod.mk.injEq, reduceCtorEq, false_or,
    not_mem_nil, or_false] at he
  rcases he with ⟨rfl, rfl⟩ | ⟨rfl, rfl⟩ | ⟨rfl, rfl⟩ | ⟨rfl, rfl⟩ | ⟨rfl, rfl⟩
  · obtain ⟨rfl, rfl, rfl⟩ := hp
    exact h₁
  · exact hp.elim
  · obtain ⟨rfl, rfl, rfl⟩ := hp
    exact h₂
  · obtain ⟨rfl, rfl, rfl⟩ := hp
    exact h₂
  · obtain ⟨rfl, rfl, rfl⟩ := hp
    exact h₁

end GovExample

open GovExample in
/-- Two members vote, one of them after its delegate. -/
theorem run_tally_two_members : ∃ w, Start w ∧ (let proposal := (run hashes w voting).world.proposals 1
    proposal.yesVotes.toNat + proposal.noVotes.toNat + proposal.abstainVotes.toNat ≤
      proposal.totalVotingPower.toNat) := by
  obtain ⟨w, hw, hstart⟩ := exists_start
  have h := voting_tallies
  rw [hw] at h
  obtain ⟨-, h⟩ := Prod.mk.inj (Option.some.inj h)
  obtain ⟨-, h⟩ := Prod.mk.inj h
  obtain ⟨-, h⟩ := Prod.mk.inj h
  obtain ⟨htotal, hroot⟩ := Prod.mk.inj h
  refine ⟨w, hstart, (run_tally hashes w hstart voting 1).2.2.2.2 OzMerkle.Example.scores (by decide) ?_ ?_
    voting_presented⟩
  · rw [htotal]
    decide
  · rw [hroot]
    decide +kernel

end Trustgraphs.MerkleGovModule
