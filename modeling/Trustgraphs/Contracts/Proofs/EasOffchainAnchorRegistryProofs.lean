import Trustgraphs.Contracts.EasOffchainAnchorRegistry
import Trustgraphs.TrustgraphCore.Proofs.RevocationProofs

/-!
# What the registry of off-chain heads has admitted

Every event appends to the log of its node (`Appended`), and the storage is what the events say
(`Reflects`).
-/

namespace Trustgraphs.EasOffchainAnchorRegistry

open Outcome Function List

variable {O : AccessControl} {H : Hashes} {recover : B256 → Bytes → Option Address} {c : Immutables}
    {self : Address}

section Log

variable (events : List HeadAnchored) (nodeId : B256)

def lastOf : Option HeadAnchored := (events.filter fun e => e.nodeId = nodeId).getLast?

def lastCountOf : UInt64 := ((lastOf events nodeId).map HeadAnchored.count).getD 0

def lastHeadOf : B256 := ((lastOf events nodeId).map HeadAnchored.head).getD 0

def nodes : Finset B256 := (events.map HeadAnchored.nodeId).toFinset

end Log

structure Appended (H : Hashes) (recover : B256 → Bytes → Option Address) (c : Immutables)
    (before : List HeadAnchored) (e : HeadAnchored) : Prop where
  foldIndex : e.foldIndex = UInt64.ofNat before.length
  envelopeKind : e.envelopeKind = ENVELOPE_KIND
  schemaUid : e.schemaUid = c.schemaUid
  ascends : lastCountOf before e.nodeId < e.count
  limit : e.count ≤ MAX_ENTRIES_PER_NODE
  previousHead : e.previousHead = lastHeadOf before e.nodeId
  signed : recover (anchorDigest H c e.nodeId e.envelopeKind e.previousHead e.head e.count
    e.dataCommitment) e.headSignature = some e.owner
  node : e.nodeId = H.keccak256 (wordAddr e.owner)

def HeadAnchored.record (e : HeadAnchored) : AnchorRecord where
  nodeId := e.nodeId
  envelopeKind := e.envelopeKind
  head := e.head
  count := e.count
  dataCommitment := e.dataCommitment
  blockTimestamp := UInt64.ofNat e.blockTimestamp.toNat

def HeadAnchored.leaf (H : Hashes) (e : HeadAnchored) : B256 :=
  H.keccak256 (e.nodeId.bytes ++ wordU8 e.envelopeKind ++ e.head.bytes ++ wordU64 e.count ++
    e.dataCommitment.bytes ++ wordU256 e.blockTimestamp)

structure Reflects (H : Hashes) (recover : B256 → Bytes → Option Address) (c : Immutables)
    (l : Log O) : Prop where
  appended : ∀ i e, l.events[i]? = some e → Appended H recover c (l.events.take i) e
  anchorAcc : l.state.anchorAcc = (l.events.map (HeadAnchored.leaf H)).foldl (fold H) 0
  anchorCount : l.state.anchorCount.toNat = l.events.length
  lastCount : ∀ n, l.state.lastCount n = lastCountOf l.events n
  lastHead : ∀ n, l.state.lastHead n = lastHeadOf l.events n
  owners : ∀ e ∈ l.events, l.state.registered e.nodeId = true ∧ l.state.ownerOf e.nodeId = e.owner
  aggregate : l.state.aggregateLatestEnvelope0EntryCount.toNat =
    ∑ n ∈ nodes l.events, (lastCountOf l.events n).toNat

theorem lastOf_append (events : List HeadAnchored) (e : HeadAnchored) (n : B256) :
    lastOf (events ++ [e]) n = if e.nodeId = n then some e else lastOf events n := by
  unfold lastOf
  rw [filter_append, filter_singleton]
  by_cases h : e.nodeId = n
  · rw [if_pos h]
    simp [h]
  · rw [if_neg h]
    simp [h]

theorem lastCountOf_append (events : List HeadAnchored) (e : HeadAnchored) (n : B256) :
    lastCountOf (events ++ [e]) n = if e.nodeId = n then e.count else lastCountOf events n := by
  unfold lastCountOf
  rw [lastOf_append]
  split_ifs
  · rfl
  · rfl

theorem lastHeadOf_append (events : List HeadAnchored) (e : HeadAnchored) (n : B256) :
    lastHeadOf (events ++ [e]) n = if e.nodeId = n then e.head else lastHeadOf events n := by
  unfold lastHeadOf
  rw [lastOf_append]
  split_ifs
  · rfl
  · rfl

theorem lastCountOf_of_notMem {events : List HeadAnchored} {n : B256} (h : n ∉ nodes events) :
    lastCountOf events n = 0 := by
  have hnil : (events.filter fun e => e.nodeId = n) = [] := by
    refine filter_eq_nil_iff.mpr fun e he hn => h ?_
    rw [nodes, mem_toFinset, ← of_decide_eq_true hn]
    exact mem_map_of_mem he
  rw [lastCountOf, lastOf, hnil]
  rfl

theorem sum_lastCountOf_append (events : List HeadAnchored) (e : HeadAnchored) :
    (∑ n ∈ nodes (events ++ [e]), (lastCountOf (events ++ [e]) n).toNat) + (lastCountOf events e.nodeId).toNat =
      (∑ n ∈ nodes events, (lastCountOf events n).toNat) + e.count.toNat := by
  have hnodes : nodes (events ++ [e]) = insert e.nodeId (nodes events) := by
    ext n
    simp [nodes]
  have hmem : e.nodeId ∈ insert e.nodeId (nodes events) := Finset.mem_insert_self ..
  have hold : ∑ n ∈ insert e.nodeId (nodes events), (lastCountOf events n).toNat =
      ∑ n ∈ nodes events, (lastCountOf events n).toNat :=
    (Finset.sum_subset (Finset.subset_insert ..) fun n _ hn => by
      rw [lastCountOf_of_notMem hn]
      rfl).symm
  have hrest : ∑ n ∈ (insert e.nodeId (nodes events)).erase e.nodeId, (lastCountOf (events ++ [e]) n).toNat =
      ∑ n ∈ (insert e.nodeId (nodes events)).erase e.nodeId, (lastCountOf events n).toNat := by
    refine Finset.sum_congr rfl fun n hn => ?_
    rw [lastCountOf_append, if_neg (Finset.ne_of_mem_erase hn).symm]
  rw [hnodes, ← hold, ← Finset.add_sum_erase _ _ hmem, ← Finset.add_sum_erase _ _ hmem, hrest,
    lastCountOf_append, if_pos rfl]
  omega

structure Admitted (H : Hashes) (recover : B256 → Bytes → Option Address) (c : Immutables)
    (blockTimestamp : U256) (s s' : State O) (a : Anchor) (event : HeadAnchored) : Prop where
  envelopeKind : a.envelopeKind = ENVELOPE_KIND
  limit : a.count ≤ MAX_ENTRIES_PER_NODE
  ascends : s.lastCount a.nodeId < a.count
  previousHead : a.previousHead = s.lastHead a.nodeId
  capacity : s.anchorCount.toNat + 1 + (s.aggregateLatestEnvelope0EntryCount.toNat +
    (a.count.toNat - (s.lastCount a.nodeId).toNat)) * 4 < 2 ^ 64
  owner : ∃ owner, recover (anchorDigest H c a.nodeId a.envelopeKind a.previousHead a.head a.count
      a.dataCommitment) a.headSignature = some owner ∧ a.nodeId = H.keccak256 (wordAddr owner) ∧
    (s.registered a.nodeId = true → owner = s.ownerOf a.nodeId) ∧
    (s', event) = append H c blockTimestamp s a owner
      (s.aggregateLatestEnvelope0EntryCount.toNat + (a.count.toNat - (s.lastCount a.nodeId).toNat))

theorem anchor_admitted {msgSender : Address} {blockTimestamp : U256} {lane1Count : UInt64}
    {s s' : State O} {a : Anchor} {event : HeadAnchored}
    (h : anchor H recover c msgSender blockTimestamp lane1Count s a = .ok (s', event)) :
    Admitted H recover c blockTimestamp s s' a event := by
  unfold anchor at h
  simp only [ite_error_eq_ok, not_or, not_not, UInt64.not_lt, not_lt] at h
  obtain ⟨-, -, hkind, -, ⟨-, hlimit⟩, hle, hne, hprevious, hcapacity, h⟩ := h
  have hlt : s.lastCount a.nodeId < a.count := by
    rw [UInt64.lt_iff_toNat_lt]
    rw [UInt64.le_iff_toNat_le] at hle
    have hdiff : (s.lastCount a.nodeId).toNat ≠ a.count.toNat :=
      fun heq => hne (UInt64.toNat_inj.mp heq).symm
    omega
  have hdelta : (a.count - s.lastCount a.nodeId).toNat =
      a.count.toNat - (s.lastCount a.nodeId).toNat := UInt64.toNat_sub_of_le _ _ hle
  rw [hdelta] at hcapacity h
  have hmax := c.maxTotalInputs.toNat_lt
  rw [show E0_ENTRY_WORK_UNITS.toNat = 4 from rfl] at hcapacity
  cases hrecover : recover (anchorDigest H c a.nodeId a.envelopeKind a.previousHead a.head a.count
      a.dataCommitment) a.headSignature with
  | none =>
    rw [hrecover] at h
    exact absurd h (by simp)
  | some owner =>
    rw [hrecover] at h
    simp only [ite_error_eq_ok, not_not] at h
    obtain ⟨hnode, howner, h⟩ := h
    exact ⟨hkind, hlimit, hlt, hprevious, by omega, owner, hrecover, hnode,
      fun hregistered => not_not.mp fun hne => howner ⟨hregistered, hne⟩, (ok_inj h).symm⟩

/-- An anchor appends an event that the storage reflects. -/
theorem Reflects.append {l : Log O} (h : Reflects H recover c l) {blockTimestamp : U256} {s' : State O}
    {a : Anchor} {event : HeadAnchored} (ha : Admitted H recover c blockTimestamp l.state s' a event) :
    Reflects H recover c ⟨s', l.events ++ [event]⟩ := by
  obtain ⟨owner, hsigned, hnode, howner, happend⟩ := ha.owner
  obtain ⟨rfl, rfl⟩ := Prod.mk.inj happend
  have hcapacity := ha.capacity
  have hcount : (l.state.anchorCount + 1).toNat = l.events.length + 1 := by
    rw [UInt64.toNat_add, UInt64.toNat_one, Nat.mod_eq_of_lt (by omega), h.anchorCount]
  refine ⟨fun i e hi => ?_, ?_, ?_, fun n => ?_, fun n => ?_, fun e he => ?_, ?_⟩
  · rcases Nat.lt_trichotomy i l.events.length with hlt | rfl | hgt
    · rw [getElem?_append_left hlt] at hi
      rw [take_append_of_le_length hlt.le]
      exact h.appended i e hi
    · rw [getElem?_concat_length] at hi
      obtain rfl := Option.some.inj hi
      rw [take_left]
      refine ⟨?_, ha.envelopeKind, rfl, ?_, ha.limit, ?_, hsigned, hnode⟩
      · rw [← h.anchorCount, UInt64.ofNat_toNat]
      · rw [← h.lastCount]
        exact ha.ascends
      · rw [← h.lastHead]
        exact ha.previousHead
    · rw [getElem?_eq_none (by rw [length_append, length_singleton]; omega)] at hi
      exact absurd hi (by simp)
  · rw [map_append, foldl_append, ← h.anchorAcc]
    rfl
  · rw [length_append, length_singleton]
    exact hcount
  · rw [lastCountOf_append, ← h.lastCount]
    exact update_apply .. |>.trans (by simp only [eq_comm])
  · rw [lastHeadOf_append, ← h.lastHead]
    exact update_apply .. |>.trans (by simp only [eq_comm])
  · dsimp only [EasOffchainAnchorRegistry.append] at he ⊢
    rcases mem_append.mp he with he | he
    · obtain ⟨hregistered, hof⟩ := h.owners e he
      refine ⟨?_, ?_⟩
      · rw [update_apply]
        split_ifs
        · rfl
        · exact hregistered
      · by_cases hn : l.state.registered a.nodeId = true
        · rw [if_pos hn]
          exact hof
        · rw [if_neg hn, update_of_ne (fun heq : e.nodeId = a.nodeId => hn (heq ▸ hregistered))]
          exact hof
    · rw [mem_singleton.mp he]
      refine ⟨update_self .., ?_⟩
      by_cases hn : l.state.registered a.nodeId = true
      · rw [if_pos hn]
        exact (howner hn).symm
      · rw [if_neg hn]
        exact update_self ..
  · have hsum := sum_lastCountOf_append l.events
      (EasOffchainAnchorRegistry.append H c blockTimestamp l.state a owner 0).2
    have hlt := UInt64.lt_iff_toNat_lt.mp ha.ascends
    have hentries : (UInt64.ofNat (l.state.aggregateLatestEnvelope0EntryCount.toNat +
        (a.count.toNat - (l.state.lastCount a.nodeId).toNat))).toNat =
        l.state.aggregateLatestEnvelope0EntryCount.toNat +
          (a.count.toNat - (l.state.lastCount a.nodeId).toNat) :=
      UInt64.toNat_ofNat_of_lt' (show _ < 2 ^ 64 by omega)
    rw [← h.aggregate] at hsum
    have hold : lastCountOf l.events a.nodeId = l.state.lastCount a.nodeId := (h.lastCount _).symm
    have hsum' : _ + (lastCountOf l.events a.nodeId).toNat = _ + a.count.toNat := hsum
    rw [hold] at hsum'
    exact hentries.trans (by
      have := hsum'
      dsimp only [EasOffchainAnchorRegistry.append] at this ⊢
      omega)

theorem Reflects.of_eq {l : Log O} (h : Reflects H recover c l) {s' : State O}
    (hacc : s'.anchorAcc = l.state.anchorAcc) (hcount : s'.anchorCount = l.state.anchorCount)
    (hlast : s'.lastCount = l.state.lastCount)
    (hhead : s'.lastHead = l.state.lastHead) (hregistered : s'.registered = l.state.registered)
    (howner : s'.ownerOf = l.state.ownerOf)
    (haggregate : s'.aggregateLatestEnvelope0EntryCount = l.state.aggregateLatestEnvelope0EntryCount) :
    Reflects H recover c { l with state := s' } where
  appended := h.appended
  anchorAcc := by rw [← h.anchorAcc, ← hacc]
  anchorCount := by rw [← h.anchorCount, ← hcount]
  lastCount n := by rw [← h.lastCount, ← hlast]
  lastHead n := by rw [← h.lastHead, ← hhead]
  owners := by
    dsimp only
    rw [hregistered, howner]
    exact h.owners
  aggregate := by rw [← h.aggregate, ← haggregate]

theorem call_reflects (i : Env × Call) (l l' : Log O) (h : Reflects H recover c l)
    (hc : call H recover c self i l = some l') : Reflects H recover c l' := by
  obtain ⟨env, f⟩ := i
  unfold call at hc
  cases f with
  | anchor a =>
    obtain ⟨⟨s', event⟩, hanchor, rfl⟩ := Option.map_eq_some_iff.mp hc
    exact h.append (anchor_admitted (toOption_eq_some.mp hanchor))
  | bindSnapshot snapshot anchorRegistry accumulator =>
    obtain ⟨s', hbind, rfl⟩ := Option.map_eq_some_iff.mp hc
    simp only [toOption_eq_some, bindSnapshot, ite_error_eq_ok] at hbind
    obtain ⟨-, -, -, -, -, hbind⟩ := hbind
    obtain rfl := ok_inj hbind
    exact h.of_eq rfl rfl rfl rfl rfl rfl rfl
  | grantRole role account =>
    obtain ⟨s', hgrant, rfl⟩ := Option.map_eq_some_iff.mp hc
    simp only [toOption_eq_some, grantRole, ite_error_eq_ok] at hgrant
    obtain rfl := ok_inj hgrant.2
    exact h.of_eq rfl rfl rfl rfl rfl rfl rfl
  | revokeRole role account =>
    obtain ⟨s', hrevoke, rfl⟩ := Option.map_eq_some_iff.mp hc
    simp only [toOption_eq_some, revokeRole, ite_error_eq_ok] at hrevoke
    obtain rfl := ok_inj hrevoke.2
    exact h.of_eq rfl rfl rfl rfl rfl rfl rfl
  | renounceRole role callerConfirmation =>
    obtain ⟨s', hrenounce, rfl⟩ := Option.map_eq_some_iff.mp hc
    simp only [toOption_eq_some, renounceRole, ite_error_eq_ok] at hrenounce
    obtain rfl := ok_inj hrenounce.2
    exact h.of_eq rfl rfl rfl rfl rfl rfl rfl

theorem constructor_reflects {chainId : U256} {eas : Address} {version : Bytes} {schemaUid : B256}
    {maxTotalInputs : UInt64} {admin binder : Address} {initialRelayers : List Address} {s : State O}
    (h : constructor H chainId self eas version schemaUid maxTotalInputs admin binder initialRelayers =
      .ok (c, s)) : Reflects H recover c ⟨s, []⟩ := by
  unfold constructor at h
  simp only [ite_error_eq_ok] at h
  obtain ⟨-, -, -, -, h⟩ := h
  obtain ⟨rfl, rfl⟩ := Prod.mk.inj (ok_inj h)
  exact ⟨by simp, rfl, rfl, fun _ => rfl, fun _ => rfl, by simp, rfl⟩

theorem run_reflects {l : Log O} (h : Reflects H recover c l) (calls : List (Env × Call)) :
    Reflects H recover c (run H recover c self l calls) :=
  Run.run_holds (P := fun l => Reflects H recover c l)
    (fun i l l' hl hc => call_reflects i l l' hl hc) h calls

section Guest

open EasOffchain Lane2

variable {K : K256} {p : Params}

def authorizations (events : List HeadAnchored) : List Envelope0AnchorAuthorization :=
  events.map fun e => ⟨e.foldIndex, e.headSignature⟩

theorem canonicalSignature_of_recover {digest : B256} {signature : Bytes} {owner : Address}
    (h : recoverAddress H K digest signature = some owner) : canonicalSignature K signature = .ok () := by
  unfold recoverAddress at h
  by_cases hlength : signature.length ≠ 65
  · rw [if_pos hlength] at h
    exact absurd h (by simp)
  · rw [if_neg hlength] at h
    obtain ⟨parity, hparity, h⟩ := Option.bind_eq_some_iff.mp h
    obtain ⟨v, hv, hparity⟩ := Option.bind_eq_some_iff.mp hparity
    have hform : v = 27 ∨ v = 28 := by
      unfold parityOf at hparity
      by_cases h27 : v = 27
      · exact .inl h27
      · rw [if_neg h27] at hparity
        by_cases h28 : v = 28
        · exact .inr h28
        · rw [if_neg h28] at hparity
          exact absurd hparity (by simp)
    by_cases hwell : ¬ K.wellFormed (signature.take 64) = true
    · rw [if_pos hwell] at h
      exact absurd h (by simp)
    · rw [if_neg hwell] at h
      by_cases hhigh : K.highS (signature.take 64) = true
      · rw [if_pos hhigh] at h
        exact absurd h (by simp)
      · refine ite_error_eq_ok.mpr ⟨?_, ite_error_eq_ok.mpr ⟨hwell, ite_error_eq_ok.mpr ⟨hhigh, rfl⟩⟩⟩
        rw [hv, not_or, not_not]
        exact ⟨not_not.mp hlength, not_not.mpr (hform.imp (congrArg some) (congrArg some))⟩

theorem Appended.authorized {before : List HeadAnchored} {e : HeadAnchored}
    (h : Appended H recover c before e) (hschema : p.schemaUid = c.schemaUid)
    (hrecover : ∀ digest signature owner, recover digest signature = some owner →
      recoverAddress H K digest signature = some owner) :
    verifyAnchorAuthorization H K c.headDomainSeparator
      (anchorMessage p e.record (lastHeadOf before e.nodeId)) e.headSignature = .ok e.owner := by
  have hsigned := hrecover _ _ _ h.signed
  have hdigest : anchorDigest H c e.nodeId e.envelopeKind e.previousHead e.head e.count
      e.dataCommitment = eip712Digest H c.headDomainSeparator
        (anchorStructHash H (anchorMessage p e.record (lastHeadOf before e.nodeId))) := by
    rw [← h.previousHead]
    unfold anchorDigest anchorStructHash anchorMessage
    rw [hschema]
    rfl
  rw [hdigest] at hsigned
  unfold verifyAnchorAuthorization
  refine bind_eq_ok.mpr ⟨(), canonicalSignature_of_recover hsigned, ?_⟩
  rw [hsigned]

/-- What is left of the authorizations when the anchors of some nodes have been checked. -/
def Remaining (events : List HeadAnchored) (checked : B256 → Prop)
    (auths : BTreeMap ℕ Envelope0AnchorAuthorization) : Prop :=
  ∀ (j : ℕ) a, auths[j]? = some a ↔ ∃ e : HeadAnchored, events[j]? = some e ∧ ¬ checked e.nodeId ∧
      a = ⟨e.foldIndex, e.headSignature⟩

structure Walked (events : List HeadAnchored) (n : B256)
    (auths : BTreeMap ℕ Envelope0AnchorAuthorization) (st : AnchorScan) : Prop where
  previousCount : st.previousCount = lastCountOf events n
  previousHead : st.previousHead = lastHeadOf events n
  authorizations : ∀ j : ℕ, st.authorizations[j]? =
    if ∃ e, events[j]? = some e ∧ e.nodeId = n then none else auths[j]?

variable {e : Abort Lane2Error} {events : List HeadAnchored}

/-- The walk over the anchors of a node accepts what the registry has admitted. -/
theorem checkAnchors_ok {n : B256}
    {auths : BTreeMap ℕ Envelope0AnchorAuthorization} (hschema : p.schemaUid = c.schemaUid)
    (hrecover : ∀ digest signature owner, recover digest signature = some owner →
      recoverAddress H K digest signature = some owner)
    (happended : ∀ i e, events[i]? = some e → Appended H recover c (events.take i) e)
    (hauths : ∀ (i : ℕ) (e : HeadAnchored), events[i]? = some e → e.nodeId = n →
      auths[i]? = some ⟨e.foldIndex, e.headSignature⟩) (k : UInt64) :
    ∃ st, (groupOf (events.map HeadAnchored.record) n).foldlM
        (checkAnchor H K p c.headDomainSeparator n) ⟨0, 0, auths, k⟩ = .ok st ∧
      Walked events n auths st := by
  induction events using List.reverseRecOn with
  | nil => exact ⟨_, rfl, rfl, rfl, by simp⟩
  | append_singleton events e ih =>
    obtain ⟨st, hst, hwalked⟩ := ih
      (fun i e' hi => by
        have hlt := (List.getElem?_eq_some_iff.mp hi).1
        have h := happended i e' (by rw [getElem?_append_left hlt]; exact hi)
        rwa [take_append_of_le_length hlt.le] at h)
      (fun i e' hi => hauths i e' (by
        rw [getElem?_append_left (List.getElem?_eq_some_iff.mp hi).1]
        exact hi))
    have hlast : (events ++ [e])[events.length]? = some e := getElem?_concat_length
    rw [map_append, map_singleton, groupOf_append, length_map]
    by_cases hn : e.nodeId = n
    · -- one more anchor of the node
      have he := happended _ _ hlast
      rw [take_left] at he
      have hauth := hauths _ _ hlast hn
      have hkept : st.authorizations[events.length]? = some ⟨e.foldIndex, e.headSignature⟩ := by
        rw [hwalked.authorizations, if_neg (fun ⟨e', he', _⟩ => by simp at he'), hauth]
      have hcheck : checkAnchor H K p c.headDomainSeparator n st (events.length, e.record) =
          .ok ⟨e.count, e.head, st.authorizations.erase events.length, saturatingAdd st.signatureChecks 1⟩ := by
        have hlt : st.previousCount < e.count := by
          rw [hwalked.previousCount, ← hn]
          exact he.ascends
        have hlimit : e.count.toNat ≤ 2048 := UInt64.le_iff_toNat_le.mp he.limit
        unfold checkAnchor
        dsimp only
        rw [if_neg (show ¬ e.record.count < st.previousCount from UInt64.lt_asymm hlt),
          if_neg (show ¬ e.record.count = st.previousCount from fun heq => UInt64.ne_of_lt hlt heq.symm),
          if_neg (show ¬ e.record.count.toNat > EasOffchain.MAX_ENTRIES_PER_NODE from not_lt.mpr hlimit),
          hkept]
        refine bind_eq_ok.mpr ⟨e.owner, ?_, ?_⟩
        · rw [ofPayload_eq_ok, hwalked.previousHead, ← hn]
          exact he.authorized hschema hrecover
        · exact if_neg (not_not.mpr (show addressNodeId H e.owner = n by rw [← hn, he.node]; rfl))
      rw [if_pos (show e.record.nodeId = n from hn)]
      refine ⟨⟨e.count, e.head, st.authorizations.erase events.length,
        saturatingAdd st.signatureChecks 1⟩, ?_, ?_, ?_, fun j => ?_⟩
      · rw [foldlM_append]
        refine bind_eq_ok.mpr ⟨st, hst, ?_⟩
        rw [foldlM_cons]
        exact bind_eq_ok.mpr ⟨_, hcheck, rfl⟩
      · rw [lastCountOf_append, if_pos hn]
      · rw [lastHeadOf_append, if_pos hn]
      · dsimp only
        rw [BTreeMap.getElem?_erase, hwalked.authorizations]
        by_cases hj : events.length = j
        · rw [if_pos hj, if_pos ⟨e, by rw [← hj]; exact hlast, hn⟩]
        · rw [if_neg hj]
          refine if_congr ?_ rfl rfl
          rw [getElem?_append]
          by_cases hlt : j < events.length
          · rw [if_pos hlt]
          · rw [if_neg hlt, getElem?_eq_none (not_lt.mp hlt), getElem?_eq_none (by
              rw [length_singleton]
              omega)]
    · -- an anchor of another node
      rw [if_neg (show ¬ e.record.nodeId = n from hn)]
      refine ⟨st, hst, ?_, ?_, fun j => ?_⟩
      · rw [lastCountOf_append, if_neg hn, hwalked.previousCount]
      · rw [lastHeadOf_append, if_neg hn, hwalked.previousHead]
      · rw [hwalked.authorizations]
        refine if_congr ?_ rfl rfl
        by_cases hlt : j < events.length
        · rw [getElem?_append_left hlt]
        · rw [getElem?_eq_none (not_lt.mp hlt)]
          refine iff_of_false (by simp) ?_
          rintro ⟨e', he', hn'⟩
          by_cases hj : j = events.length
          · rw [hj, hlast] at he'
            obtain rfl := Option.some.inj he'
            exact hn hn'
          · rw [getElem?_eq_none (by
              rw [length_append, length_singleton]
              omega)] at he'
            exact absurd he' (by simp)

/-- What processing a node does before it reads the payload of the node. -/
def checkNode (H : Hashes) (K : K256) (p : Params) (headDomain : B256)
    (st : BTreeMap ℕ Envelope0AnchorAuthorization × UInt64) (node : B256 × List (ℕ × AnchorRecord)) :
    Lane (BTreeMap ℕ Envelope0AnchorAuthorization × UInt64) := do
  let scan ← node.2.foldlM (checkAnchor H K p headDomain node.1) ⟨0, 0, st.1, st.2⟩
  .ok (scan.authorizations, scan.signatureChecks)

/-- What the lane can fail on when it reads the payload of a node. -/
def BodyError (e : Abort Lane2Error) : Prop :=
  e = .panic ∨ e = .error .prefixFork ∨ ∃ e', e = .error (.payload e')

theorem ofPayload_bodyError {α : Type} {x : Except PayloadError α}
    (h : ofPayload x = .error e) : BodyError e := by
  cases x with
  | ok a => exact absurd h (by simp [ofPayload])
  | error e' => exact .inr (.inr ⟨e', (Except.error.inj h).symm⟩)

theorem emitEntry_bodyError {owner : Address} {st : Emission} {entry : LogEntry × ℕ}
    (h : emitEntry owner st entry = .error e) : BodyError e := by
  unfold emitEntry at h
  split at h
  · exact .inl (Except.error.inj h).symm
  · exact .inl (Except.error.inj h).symm
  · split at h
    · split at h
      · exact .inr (.inr ⟨_, (Except.error.inj h).symm⟩)
      · rcases ite_error_eq_error.mp h with ⟨-, rfl⟩ | ⟨-, h⟩
        · exact .inr (.inr ⟨_, rfl⟩)
        · exact absurd h (by simp)
    · split at h
      · split at h
        · exact .inr (.inr ⟨_, (Except.error.inj h).symm⟩)
        · exact absurd h (by simp)
      · exact .inr (.inr ⟨_, (Except.error.inj h).symm⟩)

theorem emit_bodyError {anchors : List (ℕ × AnchorRecord)} {payload : PayloadV1}
    (h : emit H anchors payload = .error e) : BodyError e := by
  rcases bind_eq_error.mp h with h | ⟨-, -, h⟩
  · obtain ⟨a, -, h⟩ := exists_of_forM_eq_error h
    unfold checkPrefix at h
    split at h
    · exact .inr (.inr ⟨_, (Except.error.inj h).symm⟩)
    · rcases ite_error_eq_error.mp h with ⟨-, rfl⟩ | ⟨-, h⟩
      · exact .inr (.inl rfl)
      · exact absurd h (by simp)
  · rcases bind_eq_error.mp h with h | ⟨st, -, h⟩
    · obtain ⟨_, -, _, h⟩ := exists_of_foldlM_eq_error h
      exact emitEntry_bodyError h
    · rcases ite_error_eq_error.mp h with ⟨-, rfl⟩ | ⟨-, h⟩
      · exact .inr (.inr ⟨_, rfl⟩)
      · exact absurd h (by simp)

section Walks

variable {events : List HeadAnchored} (hschema : p.schemaUid = c.schemaUid)
  (hrecover : ∀ digest signature owner, recover digest signature = some owner →
    recoverAddress H K digest signature = some owner)
  (happended : ∀ i e, events[i]? = some e → Appended H recover c (events.take i) e)

theorem Remaining.walked {checked : B256 → Prop} {auths : BTreeMap ℕ Envelope0AnchorAuthorization}
    {n : B256} {st : AnchorScan} (h : Remaining events checked auths) (hwalked : Walked events n auths st) :
    Remaining events (fun m => checked m ∨ m = n) st.authorizations := by
  intro j a
  rw [hwalked.authorizations]
  by_cases hj : ∃ e, events[j]? = some e ∧ e.nodeId = n
  · rw [if_pos hj]
    obtain ⟨e, he, hn⟩ := hj
    refine iff_of_false (by simp) ?_
    rintro ⟨e', he', hnot, -⟩
    obtain rfl : e = e' := Option.some.inj (he.symm.trans he')
    exact hnot (.inr hn)
  · rw [if_neg hj, h j a]
    constructor
    · rintro ⟨e, he, hnot, rfl⟩
      exact ⟨e, he, fun hor => hor.elim hnot fun hn => hj ⟨e, he, hn⟩, rfl⟩
    · rintro ⟨e, he, hnot, rfl⟩
      exact ⟨e, he, fun hc => hnot (.inl hc), rfl⟩

include hschema hrecover happended

theorem Remaining.checkAnchors {checked : B256 → Prop}
    {auths : BTreeMap ℕ Envelope0AnchorAuthorization} {n : B256} (h : Remaining events checked auths)
    (hn : ¬ checked n) (k : UInt64) :
    ∃ st, (groupOf (events.map HeadAnchored.record) n).foldlM
        (checkAnchor H K p c.headDomainSeparator n) ⟨0, 0, auths, k⟩ = .ok st ∧
      Remaining events (fun m => checked m ∨ m = n) st.authorizations := by
  obtain ⟨st, hst, hwalked⟩ := checkAnchors_ok hschema hrecover happended
    (fun i e he hen => (h i _).mpr ⟨e, he, hen ▸ hn, rfl⟩) k
  exact ⟨st, hst, h.walked hwalked⟩

theorem checkNodes_ok {nodes : List (B256 × List (ℕ × AnchorRecord))}
    (hnodes : ∀ node ∈ nodes, node.2 = groupOf (events.map HeadAnchored.record) node.1)
    (hnodup : (nodes.map Prod.fst).Nodup) (checked : B256 → Prop) (hnew : ∀ node ∈ nodes, ¬ checked node.1)
    (st : BTreeMap ℕ Envelope0AnchorAuthorization × UInt64) (h : Remaining events checked st.1) :
    ∃ st', nodes.foldlM (checkNode H K p c.headDomainSeparator) st = .ok st' ∧
      Remaining events (fun m => checked m ∨ m ∈ nodes.map Prod.fst) st'.1 := by
  induction nodes generalizing checked st with
  | nil => exact ⟨st, rfl, by simpa using h⟩
  | cons node nodes ih =>
    obtain ⟨hnode, hnodes⟩ := forall_mem_cons.mp hnodes
    obtain ⟨hfirst, hnew⟩ := forall_mem_cons.mp hnew
    obtain ⟨hfresh, hnodup⟩ := nodup_cons.mp hnodup
    obtain ⟨scan, hscan, hremaining⟩ := h.checkAnchors hschema hrecover happended hfirst st.2
    obtain ⟨st', hst', hdone⟩ := ih hnodes hnodup (fun m => checked m ∨ m = node.1)
      (fun node' hnode' hor => hor.elim (hnew node' hnode') fun heq =>
        hfresh (heq ▸ mem_map_of_mem hnode')) (scan.authorizations, scan.signatureChecks)
      hremaining
    refine ⟨st', ?_, ?_⟩
    · rw [foldlM_cons]
      refine bind_eq_ok.mpr ⟨_, ?_, hst'⟩
      rw [checkNode, hnode, hscan]
      rfl
    · intro j a
      rw [hdone j a, map_cons]
      simp only [mem_cons, or_assoc]

/-- Processing a node takes its payload and its authorizations, or fails in the payload. -/
theorem Remaining.processNode {checked : B256 → Prop} {st : NodeScan}
    (h : Remaining events checked st.authorizations) {node : B256 × List (ℕ × AnchorRecord)}
    (hnode : node.2 = groupOf (events.map HeadAnchored.record) node.1) (hne : node.2 ≠ [])
    (hn : ¬ checked node.1) {v : Envelope0PayloadWitness} (hv : st.payloads[node.1]? = some v)
    (easDomain : B256) :
    (∃ st', Lane2.processNode H K p easDomain c.headDomainSeparator (authorizations events) st node =
        .ok st' ∧ st'.payloads = st.payloads.erase node.1 ∧
        Remaining events (fun m => checked m ∨ m = node.1) st'.authorizations) ∨
      ∃ e, Lane2.processNode H K p easDomain c.headDomainSeparator (authorizations events) st node =
        .error e ∧ BodyError e := by
  obtain ⟨scan, hscan, hremaining⟩ := h.checkAnchors hschema hrecover happended hn st.signatureChecks
  rw [← hnode] at hscan
  obtain ⟨latest, hlatest⟩ := Option.isSome_iff_exists.mp (getLast?_isSome.mpr hne)
  -- the authorization of the newest anchor is in the witness
  obtain ⟨auth, hauth⟩ : ∃ auth, (authorizations events).find?
      (fun a => a.foldIndex = UInt64.ofNat latest.1) = some auth := by
    have hmem := mem_of_getLast? hlatest
    rw [hnode, mem_groupOf, List.getElem?_map, Option.map_eq_some_iff] at hmem
    obtain ⟨⟨e, he, -⟩, -⟩ := hmem
    refine Option.isSome_iff_exists.mp (find?_isSome.mpr
      ⟨_, mem_map_of_mem (mem_of_getElem? he), decide_eq_true ?_⟩)
    dsimp only
    rw [(happended _ e he).foldIndex, length_take, Nat.min_eq_left (List.getElem?_eq_some_iff.mp he).1.le]
  have hprocess : Lane2.processNode H K p easDomain c.headDomainSeparator (authorizations events) st node = (do
        let payload ← ofPayload (verify H K v.payload
          (latestContext p easDomain c.headDomainSeparator node.2 latest auth.headSignature))
        if v.nodeId ≠ addressNodeId H payload.owner then fail (.payload .nodeId)
        else
          let mutations ← emit H node.2 payload
          .ok ⟨st.payloads.erase node.1, scan.authorizations, st.mutations ++ mutations,
            saturatingAdd (saturatingAdd scan.signatureChecks 1) payload.attestations.length⟩) := by
    unfold Lane2.processNode
    simp only [hv, hscan, ok_bind, hlatest, hauth]
  rw [hprocess]
  cases hverify : ofPayload (verify H K v.payload
      (latestContext p easDomain c.headDomainSeparator node.2 latest auth.headSignature)) with
  | error e => exact .inr ⟨e, rfl, ofPayload_bodyError hverify⟩
  | ok payload =>
    rw [ok_bind]
    by_cases howner : v.nodeId ≠ addressNodeId H payload.owner
    · rw [if_pos howner]
      exact .inr ⟨_, rfl, .inr (.inr ⟨_, rfl⟩)⟩
    · rw [if_neg howner]
      cases hemit : emit H node.2 payload with
      | error e => exact .inr ⟨e, rfl, emit_bodyError hemit⟩
      | ok mutations => exact .inl ⟨_, rfl, rfl, hremaining⟩

theorem Remaining.processNodes {nodes : List (B256 × List (ℕ × AnchorRecord))}
    (hnodes : ∀ node ∈ nodes, node.2 = groupOf (events.map HeadAnchored.record) node.1 ∧ node.2 ≠ [])
    (hnodup : (nodes.map Prod.fst).Nodup) (checked : B256 → Prop)
    (hnew : ∀ node ∈ nodes, ¬ checked node.1) (st : NodeScan) (h : Remaining events checked st.authorizations)
    (hpayloads : ∀ node ∈ nodes, ∃ v, st.payloads[node.1]? = some v) (easDomain : B256) :
    (∃ st', nodes.foldlM (Lane2.processNode H K p easDomain c.headDomainSeparator
        (authorizations events)) st = .ok st' ∧
        (∀ (k : B256) v, st'.payloads[k]? = some v → st.payloads[k]? = some v ∧ k ∉ nodes.map Prod.fst) ∧
        Remaining events (fun m => checked m ∨ m ∈ nodes.map Prod.fst) st'.authorizations) ∨
      ∃ e, nodes.foldlM (Lane2.processNode H K p easDomain c.headDomainSeparator
        (authorizations events)) st = .error e ∧ BodyError e := by
  induction nodes generalizing checked st with
  | nil => exact .inl ⟨st, rfl, fun k v hv => ⟨hv, not_mem_nil⟩, by simpa using h⟩
  | cons node nodes ih =>
    obtain ⟨⟨hnode, hne⟩, hnodes⟩ := forall_mem_cons.mp hnodes
    obtain ⟨hfirst, hnew⟩ := forall_mem_cons.mp hnew
    obtain ⟨hfresh, hnodup⟩ := nodup_cons.mp hnodup
    obtain ⟨⟨v, hv⟩, hpayloads⟩ := forall_mem_cons.mp hpayloads
    have hdistinct : ∀ node' ∈ nodes, node.1 ≠ node'.1 := fun node' hnode' heq =>
      hfresh (heq ▸ mem_map_of_mem hnode')
    rw [foldlM_cons]
    rcases h.processNode hschema hrecover happended hnode hne hfirst hv easDomain with
      ⟨mid, hmid, hmidPayloads, hremaining⟩ | ⟨e, he, hbody⟩
    · rw [hmid, ok_bind]
      rcases ih hnodes hnodup (fun m => checked m ∨ m = node.1)
          (fun node' hnode' hor => hor.elim (hnew node' hnode') fun heq =>
            hdistinct node' hnode' heq.symm) mid hremaining
          (fun node' hnode' => by
            rw [hmidPayloads, BTreeMap.getElem?_erase, if_neg (hdistinct node' hnode')]
            exact hpayloads node' hnode') with ⟨st', hst', hleft, hdone⟩ | hfails
      · refine .inl ⟨st', hst', fun k w hw => ?_, fun j a => ?_⟩
        · obtain ⟨hmidw, hk⟩ := hleft k w hw
          rw [hmidPayloads, BTreeMap.getElem?_erase] at hmidw
          by_cases hnk : node.1 = k
          · rw [if_pos hnk] at hmidw
            exact absurd hmidw (by simp)
          · rw [if_neg hnk] at hmidw
            exact ⟨hmidw, fun hmem => (mem_cons.mp hmem).elim (fun heq => hnk heq.symm) hk⟩
        · rw [hdone j a, map_cons]
          simp only [mem_cons, or_assoc]
      · exact .inr hfails
    · rw [he]
      exact .inr ⟨e, rfl, hbody⟩

end Walks

/-- The authorizations of the events are all indexed. -/
theorem exists_authorizations (happended : ∀ i e, events[i]? = some e → Appended H recover c (events.take i) e)
    (hlength : events.length < 2 ^ 64) :
    ∃ auths, (authorizations events).foldlM addAuthorization ∅ = .ok auths ∧
      Remaining events (fun _ => False) auths := by
  have hindex : ∀ i (e : HeadAnchored), events[i]? = some e → e.foldIndex.toNat = i := by
    intro i e hi
    have hlt := (List.getElem?_eq_some_iff.mp hi).1
    rw [(happended i e hi).foldIndex, length_take, Nat.min_eq_left hlt.le]
    exact UInt64.toNat_ofNat_of_lt' (hlt.trans hlength)
  have hmap : (authorizations events).map (fun a => a.foldIndex.toNat) = List.range events.length := by
    refine List.ext_getElem? fun i => ?_
    rw [authorizations, map_map, List.getElem?_map]
    by_cases hi : i < events.length
    · rw [getElem?_eq_getElem hi, getElem?_range hi]
      exact congrArg some (hindex i _ (getElem?_eq_getElem hi))
    · rw [getElem?_eq_none (not_lt.mp hi), getElem?_eq_none (by simpa using hi)]
      rfl
  obtain ⟨auths, hauths, hfind⟩ := exists_foldlM_addAuthorization (hmap ▸ nodup_range)
  have hmem : ∀ {j : ℕ} {a}, auths[j]? = some a →
      ∃ e : HeadAnchored, events[j]? = some e ∧ a = ⟨e.foldIndex, e.headSignature⟩ := by
    intro j a ha
    rw [hfind] at ha
    obtain ⟨e, he, rfl⟩ := mem_map.mp (mem_of_find?_eq_some ha)
    obtain ⟨i, hi⟩ := List.mem_iff_getElem?.mp he
    have hj : e.foldIndex.toNat = j := by simpa using find?_some ha
    rw [hindex i e hi] at hj
    exact ⟨e, hj ▸ hi, rfl⟩
  refine ⟨auths, hauths, fun j a => ⟨fun ha => ?_, ?_⟩⟩
  · obtain ⟨e, he, rfl⟩ := hmem ha
    exact ⟨e, he, not_false, rfl⟩
  · rintro ⟨e, he, -, rfl⟩
    obtain ⟨a, ha⟩ : ∃ a, auths[j]? = some a := by
      rw [hfind]
      refine Option.isSome_iff_exists.mp (find?_isSome.mpr
        ⟨_, mem_map_of_mem (mem_of_getElem? he), decide_eq_true ?_⟩)
      exact hindex j e he
    obtain ⟨e', he', rfl⟩ := hmem ha
    obtain rfl : e = e' := Option.some.inj (he.symm.trans he')
    exact ha

theorem Remaining.eq_empty {checked : B256 → Prop}
    {auths : BTreeMap ℕ Envelope0AnchorAuthorization} (h : Remaining events checked auths)
    (hall : ∀ e ∈ events, checked e.nodeId) : auths = ∅ := by
  refine BTreeMap.ext_getElem? fun j => ?_
  rw [Std.ExtTreeMap.getElem?_empty, Option.eq_none_iff_forall_ne_some]
  intro a ha
  obtain ⟨e, he, hnot, -⟩ := (h j a).mp ha
  exact hnot (hall e (mem_of_getElem? he))

/-- A store of payloads that holds one payload for each node with an anchor. -/
structure Covers (events : List HeadAnchored) (payloads : List Envelope0PayloadWitness) : Prop where
  once : (payloads.map Envelope0PayloadWitness.nodeId).Nodup
  nodes : ∀ n, n ∈ payloads.map Envelope0PayloadWitness.nodeId ↔ n ∈ nodes events

/-- The guest accepts the anchor log before it reads a payload: the loops over the anchors and the
authorizations succeed, the walks over the anchors of the nodes use up the authorizations, and all that
`process` may still refuse is a payload. -/
structure AcceptsLog (H : Hashes) (K : K256) (p : Params) (headDomain : B256) (l : Log O)
    (payloads : List Envelope0PayloadWitness) : Prop where
  walks : ∃ acc perNode auths checks,
    (l.events.map HeadAnchored.record).zipIdx.foldlM (foldAnchor H) (0, ∅) = .ok (acc, perNode) ∧
    ((∀ e ∈ l.events, e.blockTimestamp.toNat < 2 ^ 64) → acc = l.state.anchorAcc) ∧
    (authorizations l.events).foldlM addAuthorization ∅ = .ok auths ∧
    perNode.toList.foldlM (checkNode H K p headDomain) (auths, 0) = .ok (∅, checks)
  body : ∀ e, process H K p ⟨l.events.map HeadAnchored.record, payloads, authorizations l.events⟩ =
    .error e → BodyError e

/-- The anchor log that the storage reflects is accepted. -/
theorem Reflects.acceptsLog {l : Log O} (h : Reflects H recover c l)
    {payloads : List Envelope0PayloadWitness} (hpayloads : Covers l.events payloads)
    (hschema : p.schemaUid = c.schemaUid) (hage : p.lane2MaxHeadAge = 0)
    (hdomains : p.envelope0DomainSeparators = [c.easDomainSeparator, c.headDomainSeparator])
    (hrecover : ∀ digest signature owner, recover digest signature = some owner →
      recoverAddress H K digest signature = some owner) :
    AcceptsLog H K p c.headDomainSeparator l payloads := by
  have hlength : l.events.length < 2 ^ 64 := h.anchorCount ▸ l.state.anchorCount.toNat_lt
  have hkinds : ∀ a ∈ (l.events.map HeadAnchored.record).zipIdx, a.1.envelopeKind = ENVELOPE_EAS_OFFCHAIN := by
    intro a ha
    have hget := mem_zipIdx_iff_getElem?.mp ha
    rw [List.getElem?_map, Option.map_eq_some_iff] at hget
    obtain ⟨e, he, hrecord⟩ := hget
    rw [← hrecord]
    exact (h.appended _ e he).envelopeKind
  obtain ⟨⟨acc, perNode⟩, hacc⟩ := exists_foldlM_foldAnchor (H := H) hkinds (0, ∅)
  obtain ⟨hnodes, hnodup, hmem⟩ := toList_perNode hacc
  obtain ⟨auths, hauths, hremaining⟩ := exists_authorizations h.appended hlength
  obtain ⟨index, hindex, hfind⟩ := exists_foldlM_addPayload hpayloads.once
  have hall : ∀ e ∈ l.events, False ∨ e.nodeId ∈ perNode.toList.map Prod.fst := by
    intro e he
    rw [hmem, map_map]
    exact .inr (mem_map_of_mem (f := AnchorRecord.nodeId ∘ HeadAnchored.record) he)
  have hnodesMem : ∀ n, n ∈ perNode.toList.map Prod.fst ↔ n ∈ nodes l.events := by
    intro n
    rw [hmem, nodes, mem_toFinset, map_map]
    rfl
  refine ⟨?_, fun e he => ?_⟩
  · obtain ⟨⟨rest, checks⟩, hchecks, hdone⟩ := checkNodes_ok hschema hrecover h.appended
      (fun node hnode => (hnodes node hnode).1) hnodup _ (fun _ _ => not_false) (auths, 0)
      hremaining
    obtain rfl : rest = ∅ := hdone.eq_empty hall
    refine ⟨acc, perNode, auths, checks, hacc, fun htime => ?_, hauths, hchecks⟩
    have hfold := foldlM_foldAnchor hacc
    dsimp only at hfold
    have hrecords : (l.events.map HeadAnchored.record).zipIdx.map (fun a => leafOf H a.1) =
        l.events.map (HeadAnchored.leaf H) := by
      rw [← Function.comp_def, ← map_map, zipIdx_map_fst, map_map]
      refine map_congr_left fun e he => ?_
      show leafOf H e.record = e.leaf H
      have hword : BitVec.ofNat 256 e.record.blockTimestamp.toNat = e.blockTimestamp := by
        rw [show e.record.blockTimestamp.toNat = e.blockTimestamp.toNat from
          UInt64.toNat_ofNat_of_lt' (htime e he), BitVec.ofNat_toNat, BitVec.setWidth_eq]
      unfold leafOf Trustgraphs.anchorLeaf anchorPreimage
      rw [hword]
      rfl
    rw [hfold, h.anchorAcc, hrecords]
  · have hstored : ∀ node ∈ perNode.toList, ∃ v, index[node.1]? = some v := by
      intro node hnode
      have hn := (hpayloads.nodes node.1).mpr ((hnodesMem node.1).mp (mem_map_of_mem hnode))
      obtain ⟨v, hv, hvn⟩ := mem_map.mp hn
      rw [hfind]
      exact Option.isSome_iff_exists.mp (find?_isSome.mpr ⟨v, hv, decide_eq_true hvn⟩)
    unfold process at he
    simp only [hdomains, hage, ne_eq, not_true_eq_false, if_false, hacc, hindex, hauths, ok_bind] at he
    by_cases hempty : (l.events.map HeadAnchored.record).isEmpty = true
    · -- no anchors, so no payloads and no authorizations
      have hnil : l.events = [] := by simpa using hempty
      have hindexEmpty : index = ∅ := by
        refine BTreeMap.ext_getElem? fun n => ?_
        rw [hfind, Std.ExtTreeMap.getElem?_empty, find?_eq_none]
        intro v hv _
        have := (hpayloads.nodes v.nodeId).mp (mem_map_of_mem hv)
        rw [hnil] at this
        exact absurd this (by simp [nodes])
      have hauthsEmpty : auths = ∅ := hremaining.eq_empty (by rw [hnil]; simp)
      rw [if_pos hempty, hindexEmpty, hauthsEmpty] at he
      exact absurd he (by simp)
    · rw [if_neg hempty] at he
      rcases Remaining.processNodes hschema hrecover h.appended hnodes hnodup _ (fun _ _ => not_false)
          ⟨index, auths, [], 0⟩ hremaining hstored c.easDomainSeparator with
        ⟨st, hst, hleft, hdone⟩ | ⟨e', he', hbody⟩
      · have hauthsEmpty : st.authorizations = ∅ := hdone.eq_empty hall
        have hindexEmpty : st.payloads = ∅ := by
          refine BTreeMap.ext_getElem? fun n => ?_
          rw [Std.ExtTreeMap.getElem?_empty, Option.eq_none_iff_forall_ne_some]
          intro v hv
          obtain ⟨hv, hn⟩ := hleft n v hv
          rw [hfind] at hv
          have hvn : v.nodeId = n := by simpa using find?_some hv
          refine hn ((hnodesMem n).mpr ((hpayloads.nodes n).mp ?_))
          exact hvn ▸ mem_map_of_mem (mem_of_find?_eq_some hv)
        rw [hst, ok_bind, hindexEmpty, hauthsEmpty] at he
        exact absurd he (by simp)
      · rw [he', error_bind] at he
        exact Except.error.inj he ▸ hbody

end Guest

/-- Over every run of the registry, the aggregate is the sum of the last counts of the attesters, every
count exceeds the last one of its attester, every head names the last one, and the guest accepts the
anchor log before it reads a payload. -/
theorem run_acceptsLog {K : K256} (hrecover : ∀ digest signature owner,
      recover digest signature = some owner → EasOffchain.recoverAddress H K digest signature = some owner)
    {chainId : U256} {eas : Address} {version : Bytes} {schemaUid : B256} {maxTotalInputs : UInt64}
    {admin binder : Address} {initialRelayers : List Address} {s : State O}
    (hconstructor : constructor H chainId self eas version schemaUid maxTotalInputs admin binder
      initialRelayers = .ok (c, s)) (calls : List (Env × Call)) :
    let l := run H recover c self ⟨s, []⟩ calls
    l.state.aggregateLatestEnvelope0EntryCount.toNat = ∑ n ∈ nodes l.events, (lastCountOf l.events n).toNat ∧
      (∀ e ∈ l.events, ∀ e' ∈ l.events, e.nodeId = e'.nodeId ↔ e.owner = e'.owner) ∧
      (∀ i e, l.events[i]? = some e → lastCountOf (l.events.take i) e.nodeId < e.count ∧
        e.previousHead = lastHeadOf (l.events.take i) e.nodeId) ∧
      ∀ (p : Params) (payloads : List Envelope0PayloadWitness), p.schemaUid = c.schemaUid →
        p.lane2MaxHeadAge = 0 →
        p.envelope0DomainSeparators = [c.easDomainSeparator, c.headDomainSeparator] →
        Covers l.events payloads → AcceptsLog H K p c.headDomainSeparator l payloads := by
  intro l
  have hreflects : Reflects H recover c l := run_reflects (constructor_reflects hconstructor) calls
  refine ⟨hreflects.aggregate, fun e he e' he' => ⟨fun hn => ?_, fun ho => ?_⟩, fun i e hi => ?_,
    fun p payloads hschema hage hdomains hcovers =>
      hreflects.acceptsLog hcovers hschema hage hdomains hrecover⟩
  · rw [← (hreflects.owners e he).2, ← (hreflects.owners e' he').2, hn]
  · obtain ⟨i, hi⟩ := List.mem_iff_getElem?.mp he
    obtain ⟨j, hj⟩ := List.mem_iff_getElem?.mp he'
    rw [(hreflects.appended i e hi).node, (hreflects.appended j e' hj).node, ho]
  · exact ⟨(hreflects.appended i e hi).ascends, (hreflects.appended i e hi).previousHead⟩

/-! Two owners anchor in turn, the first one twice. Every hash and every signature is a real one. -/

namespace AnchorExample

open TrustgraphCore.RevocationExample (owner1 owner2 node1 node2 anchorType point1 point2)

def eas : Address := .ofNat 20 0xea

def registry : Address := .ofNat 20 0x60

def governance : Address := .ofNat 20 0x91

def relayer : Address := .ofNat 20 0x92

def schemaUid : B256 := .ofNat 32 7

def headDomain : B256 := .ofNat 32 0x70d2e5146b2bc7cc75904b51ad119f1254a43cb7bd4345b04eaf0bf2a2799361

def domainType : B256 := .ofNat 32 0x8b73c3c69bb8fe3d512ecc4cf759cc79239f7b179b0ffacaa9a75d522b39400f

def easName : B256 := .ofNat 32 0x434488b9302b9d5ff4975379b7ba0acaee923ab697b79a559231468b2327e2fd

def easVersion : B256 := .ofNat 32 0x649061b8d3f3b9c5692fcbef47cba88c670a745e17e5297d42ddc0aa82ab1129

def easDomain : B256 := .ofNat 32 0xb5089c712a9a8c2e3150141473ae88cf948616eb172c12e41bfafffa0b078b41

def struct1 : B256 := .ofNat 32 0x74517a25f8f6694fdfd855f6683f9156b6ddbee1c643ad57bb0d8c98ac34b6c4

def digest1 : B256 := .ofNat 32 0x5c7347858ab9bfd41cb90d69695ceff9770d9e48d845ec62ccbd2a9d76a5e4e1

def leaf1 : B256 := .ofNat 32 0xfbba43f0fa9438e1130421e4ca76704877cc0df8090bff6fd474c31f61013ccc

def acc1 : B256 := .ofNat 32 0xbc3da3852a2bb1bdb6d795880730ccd1cd877650b4dd58161813cdf76db7e838

def struct2 : B256 := .ofNat 32 0x97afe193cbaf0b7c31555d6a3bcf9ce68700f2548b835b7b3e0a7307dfe18c9b

def digest2 : B256 := .ofNat 32 0x7f10db01a01924760cf3e4b390190c0f53db6eb50489130224294e78c96bc043

def leaf2 : B256 := .ofNat 32 0x62bfad3d76d8299fc26afd6e98b3b790815681d2f4d43406ad4d7d8e2fc041fd

def acc2 : B256 := .ofNat 32 0x58fd523a86f363f5d19e5803f09ea063cddea773b5735e3689e3c076b542b075

def struct3 : B256 := .ofNat 32 0x84e35ebbd14b42846e7c4b26280394f3e1e7fafc79f9cc8a1a37061b89951db6

def digest3 : B256 := .ofNat 32 0x031d0dcf1e9fcdbf1d1d1b36b13437660b6c3a6c976d4f5300bd0671ae88620b

def leaf3 : B256 := .ofNat 32 0x383efc6a5e02af3c64317fcc92cc6932e84858a98516c7cc96f214994cbd272e

def acc3 : B256 := .ofNat 32 0x516847fc028f63dc5fe389720730e7c8ae395ade92db2654653454392c3de237

def anchor1 : Anchor where
  nodeId := node1
  envelopeKind := 0
  previousHead := .ofNat 32 0
  head := .ofNat 32 0x11
  count := 1
  dataCommitment := .ofNat 32 0xa1
  headSignature :=
    beBytes 65 0x1388065ddd7f69a011dec106b539f7e9e00b5aff075688200e33f9c1018881ed069b152e7b4ce0f67c0c814e430f51e2713dd1e2b64316a9493d18c9b8f2fdb31b

def anchor2 : Anchor where
  nodeId := node2
  envelopeKind := 0
  previousHead := .ofNat 32 0
  head := .ofNat 32 0x22
  count := 1
  dataCommitment := .ofNat 32 0xa2
  headSignature :=
    beBytes 65 0x95d9fcbfcd5d977d9b3822b49b1c63750541999a71f6305d255060e1e2fcf81608c14d54ced0a83169ae15299fdfcaf15f6d1964e0327e44298a0b5f7deda6121c

def anchor3 : Anchor where
  nodeId := node1
  envelopeKind := 0
  previousHead := .ofNat 32 17
  head := .ofNat 32 0x12
  count := 2
  dataCommitment := .ofNat 32 0xa3
  headSignature :=
    beBytes 65 0xe5476b1ea99b6a08837315427a3751b83d685b34acc5201e59e9b623ac4b694126074c41bb7aa6fb8028defe2b60770b90a38c54531974d1c9266b45c1f4e8e91b

def message (a : Anchor) : Bytes :=
  anchorType.bytes ++ a.nodeId.bytes ++ wordU8 a.envelopeKind ++ schemaUid.bytes ++ a.previousHead.bytes ++
    a.head.bytes ++ wordU64 a.count ++ a.dataCommitment.bytes

def leafPreimage (a : Anchor) (timestamp : U256) : Bytes :=
  a.nodeId.bytes ++ wordU8 a.envelopeKind ++ a.head.bytes ++ wordU64 a.count ++ a.dataCommitment.bytes ++
    wordU256 timestamp

def typed (struct : B256) : Bytes := [0x19, 0x01] ++ headDomain.bytes ++ struct.bytes

def anchorerRole : B256 := .ofNat 32 0x4b3e6527f1b0d33beb6c20e3c362af276f03c4526b5f8b6d118672f0d75a60eb

def nameHash : B256 := .ofNat 32 0xadf3d5f73b1a3a092fc62c8a4c8e5a06a453399ff7d2d0c62c538e9d1f7a3a0f

def versionHash : B256 := .ofNat 32 0xad7c5bef027816a800da1736444fb58a807ef4c9603b7848673f7e3a68eb14a5

def keccakTable : List (Bytes × B256) :=
  [(utf8 "EIP712Domain(string name,string version,uint256 chainId,address verifyingContract)", domainType),
    (utf8 "Trustgraphs Offchain Head", nameHash), (utf8 "2", versionHash),
    (domainType.bytes ++ nameHash.bytes ++ versionHash.bytes ++ wordU256 1 ++ wordAddr registry, headDomain),
    (utf8 "Anchor(bytes32 nodeId,uint8 envelopeKind,bytes32 schemaUid,bytes32 previousHead,bytes32 head,uint64 count,bytes32 dataCommitment)", anchorType),
    (utf8 "ANCHORER_ROLE", anchorerRole),
    (utf8 "EAS Attestation", easName), (utf8 "1.4.0", easVersion),
    (domainType.bytes ++ easName.bytes ++ easVersion.bytes ++ wordU256 1 ++ wordAddr eas, easDomain),
    (wordAddr owner1, node1), (wordAddr owner2, node2),
    (message anchor1, struct1), (typed struct1, digest1), (message anchor2, struct2),
    (typed struct2, digest2), (message anchor3, struct3), (typed struct3, digest3),
    (leafPreimage anchor1 100, leaf1), (foldPreimage 0 leaf1, acc1), (leafPreimage anchor2 101, leaf2),
    (foldPreimage acc1 leaf2, acc2), (leafPreimage anchor3 102, leaf3), (foldPreimage acc2 leaf3, acc3),
    (point1.drop 1, .ofNat 32 0xc0a6c424ac7157ae408398df7e5f4552091a69125d5dfcb7b8c2659029395bdf),
    (point2.drop 1, .ofNat 32 0xeedf1a9c68b3f4a8b1a1032b2b5ad5c4795c026514f8317c7a215e218dccd6cf)]

def hashes : Hashes where
  keccak256 s := ((keccakTable.find? fun e => e.1 == s).map Prod.snd).getD 0
  sha256 _ := 0

def recoverTable : List ((B256 × Bytes) × Bytes) :=
  [((digest1, anchor1.headSignature.take 64), point1), ((digest2, anchor2.headSignature.take 64), point2),
    ((digest3, anchor3.headSignature.take 64), point1)]

def scheme : K256 where
  wellFormed _ := true
  highS _ := false
  recover digest rs _ := (recoverTable.find? fun e => e.1 == (digest, rs)).map Prod.snd

def deployed : Result (Immutables × State AccessControl.mappings) :=
  constructor hashes 1 registry eas (utf8 "1.4.0") schemaUid 1000 governance governance [relayer]

def calls : List (Env × Call) :=
  [(⟨governance, 90, 0⟩, .bindSnapshot (.ofNat 20 0x93) registry (.ofNat 20 0x94)),
    (⟨relayer, 100, 5⟩, .anchor anchor1), (⟨relayer, 101, 5⟩, .anchor anchor2),
    (⟨relayer, 102, 6⟩, .anchor anchor3), (⟨relayer, 103, 6⟩, .anchor anchor3)]

def runOf (d : Immutables × State AccessControl.mappings) : Log AccessControl.mappings :=
  run hashes (EasOffchain.recoverAddress hashes scheme) d.1 registry ⟨d.2, []⟩ calls

def params (c : Immutables) : Params :=
  { TrustgraphCore.RevocationExample.params with
    schemaUid := c.schemaUid
    envelope0DomainSeparators := [c.easDomainSeparator, c.headDomainSeparator]
    chainId := 1 }

def payloads : List Envelope0PayloadWitness := [⟨node1, []⟩, ⟨node2, []⟩]

def anchoredNodes : List B256 := [node1, node2, node1]

theorem anchored : (deployed.toOption.map fun d => (runOf d).events.map HeadAnchored.nodeId) =
    some anchoredNodes := by
  decide +kernel

end AnchorExample

open AnchorExample in
theorem run_acceptsLog_three_anchors : ∃ c s, deployed = .ok (c, s) ∧
    (runOf (c, s)).events.map HeadAnchored.nodeId = anchoredNodes ∧
    (runOf (c, s)).state.aggregateLatestEnvelope0EntryCount.toNat =
      ∑ n ∈ nodes (runOf (c, s)).events, (lastCountOf (runOf (c, s)).events n).toNat ∧
    AcceptsLog hashes scheme (params c) c.headDomainSeparator (runOf (c, s)) payloads := by
  obtain ⟨⟨c, s⟩, hdeployed, hnodes⟩ := Option.map_eq_some_iff.mp anchored
  have hconstructor : deployed = .ok (c, s) := toOption_eq_some.mp hdeployed
  have hcovers : Covers (runOf (c, s)).events payloads := by
    refine ⟨by decide +kernel, fun n => ?_⟩
    rw [nodes, hnodes]
    simp [payloads, anchoredNodes, or_comm]
  have hrecover : ∀ digest signature owner,
      EasOffchain.recoverAddress hashes scheme digest signature = some owner →
      EasOffchain.recoverAddress hashes scheme digest signature = some owner := fun _ _ _ h => h
  obtain ⟨haggregate, -, -, haccepts⟩ := run_acceptsLog hrecover hconstructor calls
  exact ⟨c, s, hconstructor, hnodes, haggregate, haccepts (params c) payloads rfl rfl rfl hcovers⟩

end Trustgraphs.EasOffchainAnchorRegistry
