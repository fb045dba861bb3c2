import Trustgraphs.Contracts.Proofs.MerkleGovModuleProofs

/-!
# The life of a proposal

A proposal keeps the terms of its creation, its tallies are final when the voting has ended, and its
state only moves forward (`Later`).
-/

namespace Trustgraphs.MerkleGovModule

open Evm Function

section

variable {H : Hashes} {presented : Address → U256 → List B256 → Prop} {w w' : World}

def Noted.creation (id : U256) (n : Noted) : Option (UInt64 × Terms) :=
  match n.entry with
  | .created proposalId terms => if proposalId = id then some (n.blockNumber, terms) else none
  | _ => none

def Noted.execution (id : U256) (n : Noted) : Option UInt64 :=
  match n.entry with
  | .executed proposalId => if proposalId = id then some n.blockNumber else none
  | _ => none

def Noted.performance (id : U256) (n : Noted) : Option ℕ :=
  match n.entry with
  | .performed proposalId index => if proposalId = id then some index else none
  | _ => none

def creations (history : List Noted) (id : U256) : List (UInt64 × Terms) := history.filterMap (Noted.creation id)

def executions (history : List Noted) (id : U256) : List UInt64 := history.filterMap (Noted.execution id)

/-- The actions of a proposal that were given to the Safe. -/
def performances (history : List Noted) (id : U256) : List ℕ := history.filterMap (Noted.performance id)

variable {α β : Type} {proposal : Proposal} {id : U256} {v : World} {s : ProposalState}

theorem filterMap_append_singleton (f : α → Option β) (l : List α) (a : α) :
    (l ++ [a]).filterMap f = l.filterMap f ++ (f a).toList := by
  rw [List.filterMap_append, List.filterMap_cons]
  cases f a <;> rfl

theorem filterMap_append_none {f : α → Option β} {l : List α} {a : α} (h : f a = none) :
    (l ++ [a]).filterMap f = l.filterMap f := by
  rw [filterMap_append_singleton, h, Option.toList_none, List.append_nil]

theorem filterMap_append_some {f : α → Option β} {l : List α} {a : α} {b : β} (h : f a = some b) :
    (l ++ [a]).filterMap f = l.filterMap f ++ [b] := by
  rw [filterMap_append_singleton, h]
  rfl

namespace Proposal

def unflagged (proposal : Proposal) : Proposal := { proposal with executed := false, cancelled := false }

def fixed (proposal : Proposal) : Proposal := proposal.untallied.unflagged

variable {p p' : Proposal}

theorem fixed_of_untallied (h : p'.untallied = p.untallied) : p'.fixed = p.fixed := congrArg unflagged h

theorem startBlock_of_fixed (h : p'.fixed = p.fixed) : p'.startBlock = p.startBlock :=
  show p'.fixed.startBlock = p.fixed.startBlock from congrArg startBlock h

theorem endBlock_of_fixed (h : p'.fixed = p.fixed) : p'.endBlock = p.endBlock :=
  show p'.fixed.endBlock = p.fixed.endBlock from congrArg endBlock h

theorem deadline_of_fixed (h : p'.fixed = p.fixed) : p'.executionDeadlineBlock = p.executionDeadlineBlock :=
  show p'.fixed.executionDeadlineBlock = p.fixed.executionDeadlineBlock from congrArg executionDeadlineBlock h

theorem Has.of_fixed {block : ℕ} {terms : Terms} (hp : p.Has block terms) (h : p'.fixed = p.fixed) :
    p'.Has block terms := by
  have hfixed : p.fixed.Has block terms := ⟨hp.1, hp.2, hp.3, hp.4, hp.5, hp.6⟩
  rw [← h] at hfixed
  exact ⟨hfixed.1, hfixed.2, hfixed.3, hfixed.4, hfixed.5, hfixed.6⟩

theorem carried_of_unflagged (h : p'.unflagged = p.unflagged) : p'.Carried ↔ p.Carried := by
  show p'.unflagged.Carried ↔ p.unflagged.Carried
  rw [h]

end Proposal

/-- What an effect does to a proposal, and to what the history tells of it. -/
inductive Moved (w w' : World) (id : U256) : Prop
  | same (hproposal : w'.proposals id = w.proposals id) (hexisting : Existing w' id ↔ Existing w id)
      (hcreations : creations w'.history id = creations w.history id)
      (hexecutions : executions w'.history id = executions w.history id)
  | created (hnew : ¬ Existing w id) (hexisting : Existing w' id) (terms : Terms)
      (hterms : (w'.proposals id).Has w.blockNumber.toNat terms) (hexecuted : (w'.proposals id).executed = false)
      (hcreations : creations w'.history id = creations w.history id ++ [(w.blockNumber, terms)])
      (hexecutions : executions w'.history id = executions w.history id)
  | tallied (hopen : Open w id) (hproposal : (w'.proposals id).untallied = (w.proposals id).untallied)
      (hexisting : Existing w' id ↔ Existing w id)
      (hcreations : creations w'.history id = creations w.history id)
      (hexecutions : executions w'.history id = executions w.history id)
  | executed (hpassed : (w.proposals id).In w.blockNumber.toNat .passed)
      (hlate : (w.proposals id).executionDeadlineBlock.toNat < w.blockNumber.toNat + EXECUTION_WINDOW.toNat)
      (hproposal : w'.proposals id = { w.proposals id with executed := true })
      (hexisting : Existing w' id ↔ Existing w id)
      (hcreations : creations w'.history id = creations w.history id)
      (hexecutions : executions w'.history id = executions w.history id ++ [w.blockNumber])
  | cancelled (hexecuted : (w.proposals id).executed = false) (hcancelled : (w.proposals id).cancelled = false)
      (hproposal : w'.proposals id = { w.proposals id with cancelled := true })
      (hexisting : Existing w' id ↔ Existing w id)
      (hcreations : creations w'.history id = creations w.history id)
      (hexecutions : executions w'.history id = executions w.history id)

theorem untallied_of_addToTally {proposal' : Proposal} {t : VoteType} {votingPower : U256}
    (h : addToTally proposal t votingPower = .ok proposal') : proposal'.untallied = proposal.untallied := by
  obtain ⟨votes, -, rfl⟩ := addToTally_eq_ok.mp h
  exact Proposal.untallied_setTally ..

theorem untallied_of_subtractFromTally {proposal' : Proposal} {t : VoteType} {votingPower : U256}
    (h : subtractFromTally proposal t votingPower = .ok proposal') :
    proposal'.untallied = proposal.untallied := by
  obtain ⟨votes, -, rfl⟩ := subtractFromTally_eq_ok.mp h
  exact Proposal.untallied_setTally ..

theorem Moved.of_vote {proposalId : U256} (hopen : Open w proposalId)
    (huntallied : proposal.untallied = (w.proposals proposalId).untallied)
    (hproposals : w'.proposals = update w.proposals proposalId proposal)
    (hcount : w'.proposalCount = w.proposalCount)
    (hhistory : ∃ voter ballot, w'.history = w.history ++ [⟨w.blockNumber, .voted proposalId voter ballot⟩])
    (id : U256) : Moved w w' id := by
  obtain ⟨voter, ballot, hhistory⟩ := hhistory
  have hexisting : Existing w' id ↔ Existing w id := by
    rw [Existing, hcount]
    exact Iff.rfl
  have hcreations : creations w'.history id = creations w.history id := by
    rw [hhistory]
    exact filterMap_append_none rfl
  have hexecutions : executions w'.history id = executions w.history id := by
    rw [hhistory]
    exact filterMap_append_none rfl
  by_cases hid : id = proposalId
  · subst hid
    refine .tallied hopen ?_ hexisting hcreations hexecutions
    rw [hproposals, update_self, huntallied]
  · refine .same ?_ hexisting hcreations hexecutions
    rw [hproposals, update_of_ne hid]

theorem Effect.moved (heffect : Effect H presented w w') (hsound : Sound w) (id : U256) : Moved w w' id := by
  cases heffect with
  | configured hregister _ hhistory =>
    refine .same ?_ ?_ (by rw [hhistory]) (by rw [hhistory])
    · rw [show w'.proposals = w.proposals from congrArg Register.proposals hregister]
    · rw [Existing, show w'.proposalCount = w.proposalCount from congrArg Register.proposalCount hregister]
      exact Iff.rfl
  | created proposalId proposal actions terms hid hterms _ _ _ hexecuted =>
    have hnew : ¬ Existing w proposalId := fun hexisting => by
      have := hexisting.2
      omega
    have hexecutions : executions (w.history ++ [⟨w.blockNumber, .created proposalId terms⟩]) id =
        executions w.history id := filterMap_append_none rfl
    by_cases hsame : id = proposalId
    · subst hsame
      refine .created hnew ⟨ne_zero_of_toNat hid, le_rfl⟩ terms ?_ ?_ ?_ hexecutions
      · show (update w.proposals id proposal id).Has _ _
        rw [update_self]
        exact hterms
      · show (update w.proposals id proposal id).executed = false
        rw [update_self, hexecuted, (hsound id hnew).1]
        rfl
      · exact filterMap_append_some (if_pos rfl)
    · refine .same (update_of_ne hsame ..) (and_congr_right fun _ => ?_) ?_ hexecutions
      · show id.toNat ≤ proposalId.toNat ↔ _
        have hne : id.toNat ≠ proposalId.toNat := fun h => hsame (BitVec.eq_of_toNat_eq h)
        omega
      · exact filterMap_append_none (if_neg (Ne.symm hsame))
  | voted proposalId voter voteType votingPower proof proposal hopen _ _ _ htally =>
    refine .of_vote hopen (untallied_of_addToTally htally) ?_ ?_ ?_ id
    · rfl
    · rfl
    · exact ⟨_, _, rfl⟩
  | delegated proposalId voter delegate voteType votingPower proof proposal hopen _ _ _ _ htally =>
    refine .of_vote hopen (untallied_of_addToTally htally) ?_ ?_ ?_ id
    · rfl
    · rfl
    · exact ⟨_, _, rfl⟩
  | replaced proposalId voter voteType lowered proposal hopen _ _ hlowered htally =>
    refine .of_vote hopen ((untallied_of_addToTally htally).trans (untallied_of_subtractFromTally hlowered)) ?_ ?_
      ?_ id
    · rfl
    · rfl
    · exact ⟨_, _, rfl⟩
  | executed proposalId hstate hlate =>
    have hcreations : creations (w.history ++ [⟨w.blockNumber, .executed proposalId⟩]) id =
        creations w.history id := filterMap_append_none rfl
    by_cases hsame : id = proposalId
    · subst hsame
      exact .executed (state_eq_ok hstate).2 hlate (update_self ..) Iff.rfl hcreations
        (filterMap_append_some (if_pos rfl))
    · exact .same (update_of_ne hsame ..) Iff.rfl hcreations
        (filterMap_append_none (if_neg (Ne.symm hsame)))
  | cancelled proposalId _ hexecuted hcancelled =>
    have hcreations : creations (w.history ++ [⟨w.blockNumber, .cancelled proposalId⟩]) id =
        creations w.history id := filterMap_append_none rfl
    have hexecutions : executions (w.history ++ [⟨w.blockNumber, .cancelled proposalId⟩]) id =
        executions w.history id := filterMap_append_none rfl
    by_cases hsame : id = proposalId
    · subst hsame
      exact .cancelled hexecuted hcancelled (update_self ..) Iff.rfl hcreations hexecutions
    · exact .same (update_of_ne hsame ..) Iff.rfl hcreations hexecutions

theorem Effect.blockNumber (heffect : Effect H presented w w') : w'.blockNumber = w.blockNumber := by
  cases heffect with
  | configured _ hblock => exact hblock
  | created => rfl
  | voted => rfl
  | delegated => rfl
  | replaced => rfl
  | executed => rfl
  | cancelled => rfl

theorem Moved.of_executed (h : Moved w w' id) (hsound : Sound w)
    (hexecuted : (w.proposals id).executed = true) : w'.proposals id = w.proposals id ∧
      executions w'.history id = executions w.history id := by
  cases h with
  | same hproposal _ _ hexecutions => exact ⟨hproposal, hexecutions⟩
  | created hnew =>
    rw [(hsound id hnew).1] at hexecuted
    exact nomatch hexecuted
  | tallied hopen => exact nomatch hexecuted.symm.trans hopen.executed
  | executed hpassed => exact nomatch hexecuted.symm.trans hpassed.2.1
  | cancelled hunexecuted => exact nomatch hexecuted.symm.trans hunexecuted

structure Proposal.Due (proposal : Proposal) (block : ℕ) : Prop where
  carried : proposal.Carried
  ended : proposal.endBlock.toNat < block
  late : proposal.executionDeadlineBlock.toNat < block + EXECUTION_WINDOW.toNat
  early : block ≤ proposal.executionDeadlineBlock.toNat

/-- Every proposal was created once, and executed once at most and in time. -/
structure Lawful (w : World) : Prop where
  created : ∀ id, Existing w id → ∃ block terms, creations w.history id = [(block, terms)] ∧
    (w.proposals id).Has block.toNat terms
  fresh : ∀ id, ¬ Existing w id → creations w.history id = []
  unexecuted : ∀ id, (w.proposals id).executed = false → executions w.history id = []
  executed : ∀ id, (w.proposals id).executed = true →
    ∃ block, executions w.history id = [block] ∧ (w.proposals id).Due block.toNat

theorem Effect.lawful (heffect : Effect H presented w w') (hsound : Sound w) (h : Lawful w) : Lawful w' where
  created id hexisting' := by
    cases heffect.moved hsound id with
    | same hproposal hexisting hcreations =>
      rw [hproposal, hcreations]
      exact h.created id (hexisting.mp hexisting')
    | created hnew _ terms hterms _ hcreations =>
      rw [h.fresh id hnew] at hcreations
      exact ⟨w.blockNumber, terms, hcreations, hterms⟩
    | tallied hopen hproposal _ hcreations =>
      obtain ⟨block, terms, hbefore, hterms⟩ := h.created id hopen.existing
      exact ⟨block, terms, hcreations.trans hbefore, hterms.of_fixed (Proposal.fixed_of_untallied hproposal)⟩
    | executed _ _ hproposal hexisting hcreations =>
      obtain ⟨block, terms, hbefore, hterms⟩ := h.created id (hexisting.mp hexisting')
      refine ⟨block, terms, hcreations.trans hbefore, ?_⟩
      rw [hproposal]
      exact hterms.of_fixed rfl
    | cancelled _ _ hproposal hexisting hcreations =>
      obtain ⟨block, terms, hbefore, hterms⟩ := h.created id (hexisting.mp hexisting')
      refine ⟨block, terms, hcreations.trans hbefore, ?_⟩
      rw [hproposal]
      exact hterms.of_fixed rfl
  fresh id hnew' := by
    cases heffect.moved hsound id with
    | same _ hexisting hcreations =>
      rw [hcreations]
      exact h.fresh id (mt hexisting.mpr hnew')
    | created _ hexisting => exact absurd hexisting hnew'
    | tallied hopen _ hexisting => exact absurd (hexisting.mpr hopen.existing) hnew'
    | executed _ _ _ hexisting hcreations =>
      rw [hcreations]
      exact h.fresh id (mt hexisting.mpr hnew')
    | cancelled _ _ _ hexisting hcreations =>
      rw [hcreations]
      exact h.fresh id (mt hexisting.mpr hnew')
  unexecuted id hunexecuted := by
    cases heffect.moved hsound id with
    | same hproposal _ _ hexecutions =>
      rw [hexecutions]
      exact h.unexecuted id (hproposal ▸ hunexecuted)
    | created hnew _ _ _ _ _ hexecutions =>
      rw [hexecutions]
      exact h.unexecuted id (by rw [(hsound id hnew).1]; rfl)
    | tallied hopen _ _ _ hexecutions =>
      rw [hexecutions]
      exact h.unexecuted id hopen.executed
    | executed _ _ hproposal =>
      rw [hproposal] at hunexecuted
      exact nomatch hunexecuted
    | cancelled hexecuted _ _ _ _ hexecutions =>
      rw [hexecutions]
      exact h.unexecuted id hexecuted
  executed id hexecuted' := by
    cases heffect.moved hsound id with
    | same hproposal _ _ hexecutions =>
      rw [hproposal] at hexecuted' ⊢
      rw [hexecutions]
      exact h.executed id hexecuted'
    | created _ _ _ _ hexecuted => exact nomatch hexecuted'.symm.trans hexecuted
    | tallied hopen hproposal =>
      have hflag : (w'.proposals id).executed = (w.proposals id).executed :=
        show (w'.proposals id).untallied.executed = (w.proposals id).untallied.executed from
          congrArg Proposal.executed hproposal
      exact nomatch (hexecuted'.symm.trans hflag).trans hopen.executed
    | executed hpassed hlate hproposal _ _ hexecutions =>
      obtain ⟨-, hunexecuted, -, hended, hcarried, hearly⟩ := hpassed
      refine ⟨w.blockNumber, ?_, ?_⟩
      · rw [hexecutions, h.unexecuted id hunexecuted, List.nil_append]
      · rw [hproposal]
        exact ⟨hcarried, hended, hlate, hearly⟩
    | cancelled hunexecuted _ hproposal =>
      rw [hproposal] at hexecuted'
      exact nomatch hexecuted'.symm.trans hunexecuted

theorem Lawful.congr (h : Lawful w) (hproposals : w'.proposals = w.proposals)
    (hcount : w'.proposalCount = w.proposalCount)
    (hcreations : ∀ id, creations w'.history id = creations w.history id)
    (hexecutions : ∀ id, executions w'.history id = executions w.history id) : Lawful w' where
  created id hexisting := by
    rw [Existing, hcount] at hexisting
    rw [hproposals, hcreations]
    exact h.created id hexisting
  fresh id hnew := by
    rw [Existing, hcount] at hnew
    rw [hcreations]
    exact h.fresh id hnew
  unexecuted id hunexecuted := by
    rw [hproposals] at hunexecuted
    rw [hexecutions]
    exact h.unexecuted id hunexecuted
  executed id hexecuted := by
    rw [hproposals] at hexecuted ⊢
    rw [hexecutions]
    exact h.executed id hexecuted

theorem keeps_lawful : Keeps H presented Lawful where
  effect hsound heffect h := heffect.lawful hsound h
  performed _ _ h := h.congr rfl rfl (fun _ => filterMap_append_none rfl) fun _ => filterMap_append_none rfl
  between hb h := by
    rw [Option.some.inj (Option.ite_none_left_eq_some.mp hb).2.symm]
    exact h.congr rfl rfl (fun _ => rfl) fun _ => rfl

theorem Start.lawful (h : Start w) : Lawful w := by
  obtain ⟨-, hhistory, hregister⟩ := h.sound
  have hproposals : w.proposals = fun _ => Proposal.none := congrArg Register.proposals hregister
  have hcount : w.proposalCount = 0 := congrArg Register.proposalCount hregister
  refine ⟨fun id hexisting => ?_, fun id _ => ?_, fun id _ => ?_, fun id hexecuted => ?_⟩
  · rw [Existing, hcount] at hexisting
    exact absurd (BitVec.eq_of_toNat_eq (Nat.le_zero.mp hexisting.2)) hexisting.1
  · rw [hhistory]
    rfl
  · rw [hhistory]
    rfl
  · rw [hproposals] at hexecuted
    cases hexecuted

/-- What an earlier world says of its proposals in a later one. -/
structure Later (w w' : World) : Prop where
  blockNumber : w.blockNumber.toNat ≤ w'.blockNumber.toNat
  existing : ∀ id, Existing w id → Existing w' id
  fixed : ∀ id, Existing w id → (w'.proposals id).fixed = (w.proposals id).fixed
  /-- The voting has ended. -/
  ended : ∀ id, Existing w id → (w.proposals id).endBlock.toNat < w.blockNumber.toNat →
    (w'.proposals id).unflagged = (w.proposals id).unflagged
  final : ∀ id, Existing w id → (w.proposals id).executed = true ∨ (w.proposals id).cancelled = true →
    w'.proposals id = w.proposals id
  executed : ∀ id, Existing w id → (w.proposals id).executed = false → (w'.proposals id).executed = true →
    (w'.proposals id).Carried ∧ w.blockNumber.toNat ≤ (w'.proposals id).executionDeadlineBlock.toNat

theorem Later.refl (w : World) : Later w w where
  blockNumber := le_rfl
  existing _ h := h
  fixed _ _ := rfl
  ended _ _ _ := rfl
  final _ _ _ := rfl
  executed _ _ hunexecuted hexecuted := nomatch hunexecuted.symm.trans hexecuted

theorem Effect.later (heffect : Effect H presented w w') (hsound : Sound w) (h : Later v w) : Later v w' where
  blockNumber := by
    rw [heffect.blockNumber]
    exact h.blockNumber
  existing id hv := by
    have hw := h.existing id hv
    cases heffect.moved hsound id with
    | same _ hexisting => exact hexisting.mpr hw
    | created _ hexisting => exact hexisting
    | tallied _ _ hexisting => exact hexisting.mpr hw
    | executed _ _ _ hexisting => exact hexisting.mpr hw
    | cancelled _ _ _ hexisting => exact hexisting.mpr hw
  fixed id hv := by
    refine Eq.trans ?_ (h.fixed id hv)
    cases heffect.moved hsound id with
    | same hproposal => rw [hproposal]
    | created hnew => exact absurd (h.existing id hv) hnew
    | tallied _ hproposal => exact Proposal.fixed_of_untallied hproposal
    | executed _ _ hproposal =>
      rw [hproposal]
      rfl
    | cancelled _ _ hproposal =>
      rw [hproposal]
      rfl
  ended id hv hended := by
    refine Eq.trans ?_ (h.ended id hv hended)
    cases heffect.moved hsound id with
    | same hproposal => rw [hproposal]
    | created hnew => exact absurd (h.existing id hv) hnew
    | tallied hopen =>
      have hend := Proposal.endBlock_of_fixed (h.fixed id hv)
      have hearly := hopen.early
      have hblock := h.blockNumber
      rw [hend] at hearly
      omega
    | executed _ _ hproposal =>
      rw [hproposal]
      rfl
    | cancelled _ _ hproposal =>
      rw [hproposal]
      rfl
  final id hv hflag := by
    have hbefore := h.final id hv hflag
    rw [← hbefore] at hflag ⊢
    cases heffect.moved hsound id with
    | same hproposal => exact hproposal
    | created hnew => exact absurd (h.existing id hv) hnew
    | tallied hopen =>
      rcases hflag with hexecuted | hcancelled
      · exact nomatch hexecuted.symm.trans hopen.executed
      · exact nomatch hcancelled.symm.trans hopen.cancelled
    | executed hpassed =>
      obtain ⟨hcancelled', hexecuted', -⟩ := hpassed
      rcases hflag with hexecuted | hcancelled
      · exact nomatch hexecuted.symm.trans hexecuted'
      · exact nomatch hcancelled.symm.trans hcancelled'
    | cancelled hexecuted' hcancelled' =>
      rcases hflag with hexecuted | hcancelled
      · exact nomatch hexecuted.symm.trans hexecuted'
      · exact nomatch hcancelled.symm.trans hcancelled'
  executed id hv hunexecuted hexecuted := by
    by_cases hbefore : (w.proposals id).executed = true
    · rw [((heffect.moved hsound id).of_executed hsound hbefore).1]
      exact h.executed id hv hunexecuted hbefore
    · rw [Bool.not_eq_true] at hbefore
      cases heffect.moved hsound id with
      | same hproposal =>
        rw [hproposal] at hexecuted
        exact nomatch hbefore.symm.trans hexecuted
      | created hnew => exact absurd (h.existing id hv) hnew
      | tallied hopen hproposal =>
        have hflag : (w'.proposals id).executed = (w.proposals id).executed :=
          show (w'.proposals id).untallied.executed = (w.proposals id).untallied.executed from
            congrArg Proposal.executed hproposal
        exact nomatch (hexecuted.symm.trans hflag).trans hbefore
      | executed hpassed _ hproposal =>
        obtain ⟨-, -, -, -, hcarried, hearly⟩ := hpassed
        rw [hproposal]
        exact ⟨hcarried, h.blockNumber.trans hearly⟩
      | cancelled _ _ hproposal =>
        rw [hproposal] at hexecuted
        exact nomatch hbefore.symm.trans hexecuted

theorem Later.congr (h : Later v w) (hproposals : w'.proposals = w.proposals)
    (hcount : w'.proposalCount = w.proposalCount) (hblock : w.blockNumber.toNat ≤ w'.blockNumber.toNat) :
    Later v w' where
  blockNumber := h.blockNumber.trans hblock
  existing id hv := by
    rw [Existing, hcount]
    exact h.existing id hv
  fixed id hv := by
    rw [hproposals]
    exact h.fixed id hv
  ended id hv hended := by
    rw [hproposals]
    exact h.ended id hv hended
  final id hv hflag := by
    rw [hproposals]
    exact h.final id hv hflag
  executed id hv hunexecuted := by
    rw [hproposals]
    exact h.executed id hv hunexecuted

theorem keeps_later : Keeps H presented (Later v) where
  effect hsound heffect h := heffect.later hsound h
  performed _ _ h := h.congr rfl rfl le_rfl
  between hb h := by
    obtain ⟨hlate, hb⟩ := Option.ite_none_left_eq_some.mp hb
    obtain rfl := Option.some.inj hb
    exact h.congr rfl rfl (UInt64.le_iff_toNat_le.mp (UInt64.not_lt.mp hlate))

def ProposalState.canBecome : ProposalState → ProposalState → Bool
  | .pending, _ => true
  | .active, s => s ≠ .pending
  | .passed, s => s = .passed ∨ s = .executed ∨ s = .cancelled ∨ s = .expired
  | .rejected, s => s = .rejected ∨ s = .cancelled
  | .expired, s => s = .expired ∨ s = .cancelled
  | .executed, s => s = .executed
  | .cancelled, s => s = .cancelled

def ProposalState.Closed (s : ProposalState) : Prop :=
  s = .rejected ∨ s = .expired ∨ s = .cancelled ∨ s = .executed

theorem ProposalState.Closed.not_passed (h : s.Closed) : s.canBecome .passed = false := by
  rcases h with rfl | rfl | rfl | rfl <;> rfl

theorem Later.unexecuted (h : Later w w') (hexisting : Existing w id)
    (hunexecuted : (w.proposals id).executed = false)
    (hended : (w.proposals id).endBlock.toNat < w.blockNumber.toNat) (hclosed : ¬ (w.proposals id).Carried ∨
      (w.proposals id).executionDeadlineBlock.toNat < w.blockNumber.toNat) :
    (w'.proposals id).executed = false := by
  by_contra hexecuted
  rw [Bool.not_eq_false] at hexecuted
  obtain ⟨hcarried, hearly⟩ := h.executed id hexisting hunexecuted hexecuted
  rcases hclosed with hrejected | hexpired
  · exact hrejected ((Proposal.carried_of_unflagged (h.ended id hexisting hended)).mp hcarried)
  · rw [Proposal.deadline_of_fixed (h.fixed id hexisting)] at hearly
    omega

theorem Later.canBecome (h : Later w w') {s' : ProposalState} (hs : state w id = .ok s)
    (hs' : state w' id = .ok s') : s.canBecome s' = true := by
  obtain ⟨hexisting, hin⟩ := state_eq_ok hs
  obtain ⟨-, hin'⟩ := state_eq_ok hs'
  have hblock := h.blockNumber
  have hstart := Proposal.startBlock_of_fixed (h.fixed id hexisting)
  have hend := Proposal.endBlock_of_fixed (h.fixed id hexisting)
  have hdeadline := Proposal.deadline_of_fixed (h.fixed id hexisting)
  cases s with
  | pending => rfl
  | active =>
    obtain ⟨-, -, hstarted, -⟩ := hin
    cases s' with
    | pending =>
      obtain ⟨-, -, hearly⟩ := hin'
      rw [hstart] at hearly
      omega
    | _ => rfl
  | passed =>
    obtain ⟨-, -, hstarted, hended, hcarried, -⟩ := hin
    have hcarried' := (Proposal.carried_of_unflagged (h.ended id hexisting hended)).mpr hcarried
    cases s' with
    | pending =>
      obtain ⟨-, -, hearly⟩ := hin'
      rw [hstart] at hearly
      omega
    | active =>
      obtain ⟨-, -, -, hearly⟩ := hin'
      rw [hend] at hearly
      omega
    | rejected => exact absurd hcarried' hin'.2.2.2.2
    | _ => rfl
  | rejected =>
    obtain ⟨-, hunexecuted, hstarted, hended, hrejected⟩ := hin
    have hrejected' := mt (Proposal.carried_of_unflagged (h.ended id hexisting hended)).mp hrejected
    have hunexecuted' := h.unexecuted hexisting hunexecuted hended (.inl hrejected)
    cases s' with
    | pending =>
      obtain ⟨-, -, hearly⟩ := hin'
      rw [hstart] at hearly
      omega
    | active =>
      obtain ⟨-, -, -, hearly⟩ := hin'
      rw [hend] at hearly
      omega
    | passed => exact absurd hin'.2.2.2.2.1 hrejected'
    | expired => exact absurd hin'.2.2.2.2.1 hrejected'
    | executed => exact nomatch hunexecuted'.symm.trans hin'.2
    | _ => rfl
  | expired =>
    obtain ⟨-, hunexecuted, hstarted, hended, hcarried, hexpired⟩ := hin
    have hcarried' := (Proposal.carried_of_unflagged (h.ended id hexisting hended)).mpr hcarried
    have hunexecuted' := h.unexecuted hexisting hunexecuted hended (.inr hexpired)
    cases s' with
    | pending =>
      obtain ⟨-, -, hearly⟩ := hin'
      rw [hstart] at hearly
      omega
    | active =>
      obtain ⟨-, -, -, hearly⟩ := hin'
      rw [hend] at hearly
      omega
    | passed =>
      obtain ⟨-, -, -, -, -, hearly⟩ := hin'
      rw [hdeadline] at hearly
      omega
    | rejected => exact absurd hcarried' hin'.2.2.2.2
    | executed => exact nomatch hunexecuted'.symm.trans hin'.2
    | _ => rfl
  | executed =>
    have hsame := h.final id hexisting (.inl hin.2)
    obtain ⟨hcancelled, hexecuted⟩ := hin
    rw [hsame] at hin'
    cases s' with
    | executed => rfl
    | cancelled => exact nomatch hcancelled.symm.trans hin'
    | _ => exact nomatch hin'.2.1.symm.trans hexecuted
  | cancelled =>
    have hsame := h.final id hexisting (.inr hin)
    rw [hsame] at hin'
    cases s' with
    | cancelled => rfl
    | _ => exact nomatch hin'.1.symm.trans hin

theorem Later.execute (h : Later w w') (hs : state w id = .ok s) (hclosed : s.Closed) :
    ∃ e, execute w' id = .reverted e := by
  have hbegin : ∃ e, begin w' id = .error e := by
    cases hs' : state w' id with
    | error e =>
      refine ⟨e, ?_⟩
      rw [begin, hs']
      rfl
    | ok s' =>
      have hnot : s' ≠ .passed := by
        rintro rfl
        exact nomatch hclosed.not_passed.symm.trans (h.canBecome hs hs')
      refine ⟨.error .proposalNotPassed, ?_⟩
      rw [begin, hs', Outcome.ok_bind, if_pos hnot]
  obtain ⟨e, he⟩ := hbegin
  refine ⟨e, ?_⟩
  rw [MerkleGovModule.execute, he]

end

end Trustgraphs.MerkleGovModule
