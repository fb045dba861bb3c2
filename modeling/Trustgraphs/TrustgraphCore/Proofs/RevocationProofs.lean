import Trustgraphs.PagerankCore.Proofs.ReplayProofs
import Trustgraphs.TrustgraphCore.Proofs.Lane2Proofs

/-!
# Off-chain revocation is final

Lane 2 emits one mutation for each log entry. A revocation takes the time of the anchor that first
commits to it, and an attestation may not be from after its own anchor; so when the anchors are in
order of time, a revocation comes after the attestation it names, and no event can put that
attestation back.
-/

namespace Trustgraphs.Lane2

open EasOffchain Outcome Option List

variable {H : Hashes} {K : K256} {p : Params} {w : Lane2Witness}

def AttestOnce (a b : LogEntry) : Prop := a.kind = ENTRY_ATTEST → b.kind = ENTRY_ATTEST → a.uid ≠ b.uid

structure Scanned (entries : List LogEntry) (st : LogScan) : Prop where
  once : entries.Pairwise AttestOnce
  seen : ∀ e ∈ entries, e.kind = ENTRY_ATTEST → e.uid ∈ st.seen

variable {entries : List LogEntry} {anchors : List (ℕ × AnchorRecord)} {owner : Address}

theorem scanEntry_scanned {st st' : LogScan} {e : LogEntry}
    (h : Scanned entries st) (hs : scanEntry H st e = .ok st') : Scanned (entries ++ [e]) st' := by
  unfold scanEntry at hs
  by_cases h0 : e.kind = ENTRY_ATTEST
  · rw [if_pos h0] at hs
    cases hrest : st.rest with
    | nil => simp [hrest] at hs
    | cons a rest =>
      rw [hrest] at hs
      obtain ⟨hseen, hs⟩ := of_guard hs
      obtain ⟨-, hs⟩ := of_guard hs
      obtain rfl := ok_inj hs
      rw [Std.ExtTreeSet.contains_iff_mem] at hseen
      refine ⟨pairwise_append.mpr ⟨h.once, pairwise_singleton .., ?_⟩, fun f hf hk => ?_⟩
      · intro f hf g hg hkf _ he
        rw [mem_singleton.mp hg] at he
        exact hseen (he ▸ h.seen f hf hkf)
      · rw [Std.ExtTreeSet.mem_insert, compare_eq_iff_eq]
        rcases mem_append.mp hf with hf | hf
        · exact .inr (h.seen f hf hk)
        · exact .inl (by rw [mem_singleton.mp hf])
  · rw [if_neg h0] at hs
    have hsame : st'.seen = st.seen := by
      by_cases h1 : e.kind = ENTRY_REVOKE
      · rw [if_pos h1] at hs
        obtain ⟨-, hs⟩ := of_guard hs
        obtain ⟨-, hs⟩ := of_guard hs
        rw [← ok_inj hs]
      · rw [if_neg h1] at hs
        exact absurd hs (by simp)
    refine ⟨pairwise_append.mpr ⟨h.once, pairwise_singleton .., ?_⟩, fun f hf hk => ?_⟩
    · intro f _ g hg _ hkg
      rw [mem_singleton.mp hg] at hkg
      exact absurd hkg h0
    · rw [hsame]
      rcases mem_append.mp hf with hf | hf
      · exact h.seen f hf hk
      · rw [mem_singleton.mp hf] at hk
        exact absurd hk h0

theorem foldlM_scanEntry {st st' : LogScan} (h : Scanned [] st)
    (hs : entries.foldlM (scanEntry H) st = .ok st') : Scanned entries st' := by
  induction entries using List.reverseRecOn generalizing st' with
  | nil =>
    obtain rfl : st = st' := ok_inj hs
    exact h
  | append_singleton entries e ih =>
    rw [foldlM_append] at hs
    obtain ⟨mid, hmid, hs⟩ := of_bind hs
    rw [foldlM_cons] at hs
    obtain ⟨last, hlast, hs⟩ := of_bind hs
    obtain rfl : last = st' := ok_inj hs
    exact scanEntry_scanned (ih hmid) hlast

theorem decode_once {bytes : Bytes} {schema : B256} {payload : PayloadV1}
    (h : decode H K bytes schema = .ok payload) : payload.entries.Pairwise AttestOnce := by
  unfold decode at h
  obtain ⟨-, h⟩ := of_guard h
  obtain ⟨⟨magic, buf⟩, -, h⟩ := of_bind h
  obtain ⟨-, h⟩ := of_guard h
  obtain ⟨⟨version, buf⟩, -, h⟩ := of_bind h
  obtain ⟨-, h⟩ := of_guard h
  obtain ⟨⟨owner, buf⟩, -, h⟩ := of_bind h
  obtain ⟨⟨entryCount, buf⟩, -, h⟩ := of_bind h
  obtain ⟨⟨attestationCount, buf⟩, -, h⟩ := of_bind h
  obtain ⟨-, h⟩ := of_guard h
  obtain ⟨-, h⟩ := of_guard h
  obtain ⟨-, h⟩ := of_guard h
  obtain ⟨⟨entries, buf⟩, -, h⟩ := of_bind h
  obtain ⟨⟨attestations, buf⟩, -, h⟩ := of_bind h
  obtain ⟨-, h⟩ := of_guard h
  obtain ⟨st, hst, h⟩ := of_bind h
  obtain ⟨-, h⟩ := of_guard h
  obtain rfl := ok_inj h
  exact (foldlM_scanEntry ⟨.nil, fun _ h => absurd h not_mem_nil⟩ hst).once

/-- The time of a mutation, against the anchor that first commits to it. -/
def Timed (anchor : AnchorRecord) (e : RawEdge) : Prop :=
  e.kind = ENTRY_ATTEST ∧ e.blockTimestamp ≤ anchor.blockTimestamp ∨
    e.kind = ENTRY_REVOKE ∧ e.blockTimestamp = anchor.blockTimestamp

structure Emitted (owner : Address) (anchors : List (ℕ × AnchorRecord)) (entries : List LogEntry)
    (ms : List Mutation) : Prop where
  entries : ms.map (fun m => (⟨m.2.2.kind, m.2.2.uid⟩ : LogEntry)) = entries
  /-- In the order of the log, and so of the anchors. -/
  order : ms.Pairwise fun a b => a.1 ≤ b.1 ∧ a.2.1 < b.2.1
  owner : ∀ m ∈ ms, m.2.2.attester = owner
  timed : ∀ m ∈ ms, ∃ anchor, (m.1, anchor) ∈ anchors ∧ Timed anchor m.2.2
  /-- A revocation is about the recipient of an earlier attestation. -/
  revokes : ∀ m ∈ ms, m.2.2.kind = ENTRY_REVOKE → ∃ a ∈ ms, a.2.2.kind = ENTRY_ATTEST ∧
    a.2.2.uid = m.2.2.uid ∧ a.2.2.recipient = m.2.2.recipient ∧ a.1 ≤ m.1 ∧ a.2.1 < m.2.1

structure Emitting (owner : Address) (anchors : List (ℕ × AnchorRecord)) (entries : List LogEntry)
    (st : Emission) : Prop where
  emitted : Emitted owner anchors entries st.mutations
  suffix : st.anchors <:+ anchors
  folds : ∀ m ∈ st.mutations, ∀ a ∈ st.anchors, m.1 ≤ a.1
  positions : ∀ m ∈ st.mutations, m.2.1 < entries.length
  uids : ∀ (uid : B256) a, st.attestationsByUid[uid]? = some a → ∃ m ∈ st.mutations,
    m.2.2.kind = ENTRY_ATTEST ∧ m.2.2.uid = uid ∧ m.2.2.recipient = a.recipient

theorem advance_suffix {n : UInt64} {rest : List (ℕ × AnchorRecord)}
    (h : advance n anchors = some rest) : rest <:+ anchors := by
  induction anchors with
  | nil => exact absurd h (by simp [advance])
  | cons a anchors ih =>
    rw [advance] at h
    split at h
    · exact (ih h).trans (suffix_cons ..)
    · rw [← Option.some.inj h]

theorem Emitted.concat {ms : List Mutation} (h : Emitted owner anchors entries ms)
    {first : ℕ × AnchorRecord} {e : RawEdge} (hfirst : first ∈ anchors) (he : e.attester = owner)
    (hfold : ∀ m ∈ ms, m.1 ≤ first.1) (hpos : ∀ m ∈ ms, m.2.1 < entries.length) (htimed : Timed first.2 e)
    (hrevokes : e.kind = ENTRY_REVOKE → ∃ m ∈ ms, m.2.2.kind = ENTRY_ATTEST ∧ m.2.2.uid = e.uid ∧
      m.2.2.recipient = e.recipient) :
    Emitted owner anchors (entries ++ [⟨e.kind, e.uid⟩]) (ms ++ [(first.1, entries.length, e)]) where
  entries := by rw [map_append, h.entries]; rfl
  order := by
    refine pairwise_append.mpr ⟨h.order, pairwise_singleton .., fun m hm m' hm' => ?_⟩
    rw [mem_singleton.mp hm']
    exact ⟨hfold m hm, hpos m hm⟩
  owner m hm := by
    rcases mem_append.mp hm with hm | hm
    · exact h.owner m hm
    · rw [mem_singleton.mp hm]
      exact he
  timed m hm := by
    rcases mem_append.mp hm with hm | hm
    · exact h.timed m hm
    · rw [mem_singleton.mp hm]
      exact ⟨first.2, hfirst, htimed⟩
  revokes m hm hk := by
    rcases mem_append.mp hm with hm | hm
    · obtain ⟨a, ha, hrest⟩ := h.revokes m hm hk
      exact ⟨a, mem_append_left _ ha, hrest⟩
    · rw [mem_singleton.mp hm] at hk ⊢
      obtain ⟨a, ha, hka, huid, hrec⟩ := hrevokes hk
      exact ⟨a, mem_append_left _ ha, hka, huid, hrec, hfold a ha, hpos a ha⟩

/-- Emitting one entry. -/
theorem emitEntry_emitting (hanchors : anchors.Pairwise fun a b => a.1 < b.1) {st st' : Emission}
    {e : LogEntry} (h : Emitting owner anchors entries st)
    (hs : emitEntry owner st (e, entries.length) = .ok st') :
    Emitting owner anchors (entries ++ [e]) st' := by
  unfold emitEntry at hs
  cases hadv : advance (UInt64.ofNat (entries.length + 1)) st.anchors with
  | none =>
    simp only [hadv] at hs
    exact absurd hs (by simp)
  | some cursor =>
    cases cursor with
    | nil =>
      simp only [hadv] at hs
      exact absurd hs (by simp)
    | cons first rest =>
      simp only [hadv] at hs
      have hsuffix : first :: rest <:+ anchors := (advance_suffix hadv).trans h.suffix
      have hmem : first ∈ anchors := hsuffix.subset (mem_cons_self ..)
      have hfold : ∀ m ∈ st.mutations, m.1 ≤ first.1 := fun m hm =>
        h.folds m hm first ((advance_suffix hadv).subset (mem_cons_self ..))
      have hafter : ∀ a ∈ first :: rest, first.1 ≤ a.1 := by
        have hsorted := hanchors.sublist hsuffix.sublist
        intro a ha
        rcases mem_cons.mp ha with rfl | ha
        · exact le_rfl
        · exact ((pairwise_cons.mp hsorted).1 a ha).le
      -- what the two branches have in common
      have hnext : ∀ (x : RawEdge) (st'' : Emission), st''.anchors = first :: rest →
          st''.mutations = st.mutations ++ [(first.1, entries.length, x)] →
          Emitted owner anchors (entries ++ [e]) st''.mutations →
          (∀ (uid : B256) a, st''.attestationsByUid[uid]? = some a → ∃ m ∈ st''.mutations,
            m.2.2.kind = ENTRY_ATTEST ∧ m.2.2.uid = uid ∧ m.2.2.recipient = a.recipient) →
          Emitting owner anchors (entries ++ [e]) st'' := by
        intro x st'' hcursor hms hemitted huids
        refine ⟨hemitted, hcursor ▸ hsuffix, fun m hm a ha => ?_, fun m hm => ?_, huids⟩
        · rw [hcursor] at ha
          rw [hms] at hm
          rcases mem_append.mp hm with hm | hm
          · exact (hfold m hm).trans (hafter a ha)
          · rw [mem_singleton.mp hm]
            exact hafter a ha
        · rw [hms] at hm
          rw [length_append, length_singleton]
          rcases mem_append.mp hm with hm | hm
          · exact (h.positions m hm).trans (Nat.lt_succ_self _)
          · rw [mem_singleton.mp hm]
            exact Nat.lt_succ_self _
      by_cases h0 : e.kind = ENTRY_ATTEST
      · rw [if_pos h0] at hs
        cases hatt : st.attestations with
        | nil => simp [hatt, fail] at hs
        | cons a as =>
          rw [hatt] at hs
          obtain ⟨htime, hs⟩ := of_guard hs
          have hst' := (ok_inj hs).symm
          have htime' : a.time ≤ first.2.blockTimestamp := by
            rw [UInt64.le_iff_toNat_le]
            rw [gt_iff_lt, UInt64.lt_iff_toNat_lt] at htime
            omega
          have he : e = ⟨ENTRY_ATTEST, e.uid⟩ := by rw [← h0]
          have hemitted := h.emitted.concat (e := ⟨ENTRY_ATTEST, owner, a.recipient, e.uid, a.time,
            a.data⟩) hmem rfl hfold h.positions (.inl ⟨rfl, htime'⟩) 
            (fun hk => absurd hk (show ENTRY_ATTEST ≠ ENTRY_REVOKE by decide))
          refine hnext _ st' (by rw [hst']) (by rw [hst']) ?_ fun uid b hb => ?_
          · rw [he, hst']
            exact hemitted
          · rw [hst'] at hb ⊢
            change (st.attestationsByUid.insert e.uid a)[uid]? = some b at hb
            rw [BTreeMap.getElem?_insert] at hb
            by_cases hu : e.uid = uid
            · rw [if_pos hu, some_inj] at hb
              exact ⟨_, mem_append_right _ (mem_singleton_self _), rfl, hu, by rw [← hb]⟩
            · rw [if_neg hu] at hb
              obtain ⟨m, hm, hrest⟩ := h.uids uid b hb
              exact ⟨m, mem_append_left _ hm, hrest⟩
      · rw [if_neg h0] at hs
        by_cases h1 : e.kind = ENTRY_REVOKE
        · rw [if_pos h1] at hs
          cases hby : st.attestationsByUid[e.uid]? with
          | none => simp [hby, fail] at hs
          | some a =>
            rw [hby] at hs
            have hst' := (ok_inj hs).symm
            have he : e = ⟨ENTRY_REVOKE, e.uid⟩ := by rw [← h1]
            have hemitted := h.emitted.concat (e := ⟨ENTRY_REVOKE, owner, a.recipient, e.uid,
              first.2.blockTimestamp, a.data⟩) hmem rfl hfold h.positions (.inr ⟨rfl, rfl⟩)
              (fun _ => h.uids e.uid a hby)
            refine hnext _ st' (by rw [hst']) (by rw [hst']) ?_ fun uid b hb => ?_
            · rw [he, hst']
              exact hemitted
            · rw [hst'] at hb ⊢
              obtain ⟨m, hm, hrest⟩ := h.uids uid b hb
              exact ⟨m, mem_append_left _ hm, hrest⟩
        · rw [if_neg h1] at hs
          exact absurd hs fail_ne_ok

theorem emit_emitted {payload : PayloadV1} {ms : List Mutation}
    (hanchors : anchors.Pairwise fun a b => a.1 < b.1) (h : emit H anchors payload = .ok ms) :
    Emitted payload.owner anchors payload.entries ms := by
  obtain ⟨_, -, h⟩ := of_bind h
  obtain ⟨st, hst, h⟩ := of_bind h
  obtain ⟨-, h⟩ := of_guard h
  obtain rfl := ok_inj h
  have hfold : ∀ (entries : List LogEntry) (st : Emission),
      entries.zipIdx.foldlM (emitEntry payload.owner) ⟨anchors, payload.attestations, ∅, []⟩ = .ok st →
      Emitting payload.owner anchors entries st := by
    intro entries
    induction entries using List.reverseRecOn with
    | nil =>
      intro st hst
      obtain rfl := ok_inj hst
      exact ⟨⟨rfl, .nil, by simp, by simp, by simp⟩, suffix_rfl, by simp, by simp, by simp⟩
    | append_singleton entries e ih =>
      intro st hst
      rw [zipIdx_append, foldlM_append] at hst
      obtain ⟨mid, hmid, hst⟩ := of_bind hst
      rw [zipIdx_singleton, Nat.zero_add, foldlM_cons] at hst
      obtain ⟨last, hlast, hst⟩ := of_bind hst
      obtain rfl : last = st := ok_inj hst
      exact emitEntry_emitting hanchors (ih mid hmid) hlast
  exact (hfold payload.entries st hst).emitted

/-- The anchors of the nodes are anchors of the log, each node's in fold order. -/
structure Grouped (anchors : List AnchorRecord) (perNode : PerNode) : Prop where
  sorted : ∀ (k : B256) l, perNode[k]? = some l → l.Pairwise fun a b => a.1 < b.1
  anchor : ∀ (k : B256) l, perNode[k]? = some l → ∀ a ∈ l, anchors[a.1]? = some a.2
  bound : ∀ (k : B256) l, perNode[k]? = some l → ∀ a ∈ l, a.1 < anchors.length

theorem foldAnchor_grouped {anchors : List AnchorRecord} {st st' : B256 × PerNode}
    {anchor : AnchorRecord} (h : Grouped anchors st.2)
    (hs : foldAnchor H st (anchor, anchors.length) = .ok st') :
    Grouped (anchors ++ [anchor]) st'.2 := by
  obtain ⟨-, hs⟩ := of_guard hs
  obtain rfl := ok_inj hs
  have hold : ∀ a ∈ st.2.getD anchor.nodeId [], a.1 < anchors.length ∧ anchors[a.1]? = some a.2 := by
    intro a ha
    rw [Std.ExtTreeMap.getD_eq_getD_getElem?] at ha
    cases hk : st.2[anchor.nodeId]? with
    | none => simp [hk] at ha
    | some l =>
      rw [hk] at ha
      exact ⟨h.bound _ l hk a ha, h.anchor _ l hk a ha⟩
  have hmem : ∀ (k : B256) l, (st.2.insert anchor.nodeId (st.2.getD anchor.nodeId [] ++
      [(anchors.length, anchor)]))[k]? = some l → ∀ a ∈ l, a = (anchors.length, anchor) ∨
        a.1 < anchors.length ∧ anchors[a.1]? = some a.2 := by
    intro k l hl a ha
    rw [BTreeMap.getElem?_insert] at hl
    by_cases hk : anchor.nodeId = k
    · rw [if_pos hk, some_inj] at hl
      rw [← hl] at ha
      rcases mem_append.mp ha with ha | ha
      · exact .inr (hold a ha)
      · exact .inl (mem_singleton.mp ha)
    · rw [if_neg hk] at hl
      exact .inr ⟨h.bound k l hl a ha, h.anchor k l hl a ha⟩
  refine ⟨fun k l hl => ?_, fun k l hl a ha => ?_, fun k l hl a ha => ?_⟩
  · change (st.2.insert anchor.nodeId _)[k]? = some l at hl
    rw [BTreeMap.getElem?_insert] at hl
    by_cases hk : anchor.nodeId = k
    · rw [if_pos hk, some_inj] at hl
      rw [← hl]
      refine pairwise_append.mpr ⟨?_, pairwise_singleton .., fun a ha b hb => ?_⟩
      · rw [Std.ExtTreeMap.getD_eq_getD_getElem?]
        cases hg : st.2[anchor.nodeId]? with
        | none => exact .nil
        | some l => exact h.sorted _ l hg
      · rw [mem_singleton.mp hb]
        exact (hold a ha).1
    · rw [if_neg hk] at hl
      exact h.sorted k l hl
  · rcases hmem k l hl a ha with rfl | ⟨hlt, ha⟩
    · simp
    · rwa [getElem?_append_left hlt]
  · rw [length_append, length_singleton]
    rcases hmem k l hl a ha with rfl | ⟨hlt, -⟩
    · exact Nat.lt_succ_self _
    · exact hlt.trans (Nat.lt_succ_self _)

theorem foldlM_foldAnchor_grouped {anchors : List AnchorRecord} {r : B256 × PerNode}
    (h : anchors.zipIdx.foldlM (foldAnchor H) (0, ∅) = .ok r) : Grouped anchors r.2 := by
  induction anchors using List.reverseRecOn generalizing r with
  | nil =>
    obtain rfl := ok_inj h
    exact ⟨by simp, by simp, by simp⟩
  | append_singleton anchors a ih =>
    rw [zipIdx_append, foldlM_append] at h
    obtain ⟨mid, hmid, h⟩ := of_bind h
    rw [zipIdx_singleton, Nat.zero_add, foldlM_cons] at h
    obtain ⟨last, hlast, h⟩ := of_bind h
    obtain rfl : last = r := ok_inj h
    exact foldAnchor_grouped (ih hmid) hlast

structure Block where
  witness : Envelope0PayloadWitness
  payload : PayloadV1
  anchors : List (ℕ × AnchorRecord)
  mutations : List Mutation

structure Block.Processed (H : Hashes) (K : K256) (p : Params) (anchors : List AnchorRecord)
    (b : Block) : Prop where
  decoded : decode H K b.witness.payload p.schemaUid = .ok b.payload
  node : addressNodeId H b.payload.owner = b.witness.nodeId
  anchor : ∀ a ∈ b.anchors, anchors[a.1]? = some a.2
  emitted : Emitted b.payload.owner b.anchors b.payload.entries b.mutations

theorem processNode_block {easDomain headDomain : B256} {anchors : List AnchorRecord}
    {auths : List Envelope0AnchorAuthorization} {node : B256 × List (ℕ × AnchorRecord)}
    {st st' : NodeScan} (hsorted : node.2.Pairwise fun a b => a.1 < b.1)
    (hanchors : ∀ a ∈ node.2, anchors[a.1]? = some a.2)
    (hs : processNode H K p easDomain headDomain auths st node = .ok st') :
    ∃ b : Block, b.Processed H K p anchors ∧ st.payloads[node.1]? = some b.witness ∧
      st'.payloads = st.payloads.erase node.1 ∧ st'.mutations = st.mutations ++ b.mutations := by
  unfold processNode at hs
  cases hw : st.payloads[node.1]? with
  | none => simp [hw, fail] at hs
  | some pw =>
    rw [hw] at hs
    obtain ⟨scan, -, hs⟩ := of_bind hs
    cases hlatest : node.2.getLast? with
    | none => simp [hlatest] at hs
    | some latest =>
      simp only [hlatest] at hs
      cases hauth : auths.find? fun a => a.foldIndex = UInt64.ofNat latest.1 with
      | none => simp [hauth, fail] at hs
      | some auth =>
        simp only [hauth] at hs
        obtain ⟨payload, hpayload, hs⟩ := of_bind hs
        obtain ⟨hnode, hs⟩ := of_guard hs
        obtain ⟨ms, hms, hs⟩ := of_bind hs
        obtain rfl := ok_inj hs
        obtain ⟨-, hdecoded⟩ := verify_eq_ok (ofPayload_eq_ok.mp hpayload)
        exact ⟨⟨pw, payload, node.2, ms⟩, ⟨hdecoded, (not_not.mp hnode).symm, hanchors,
          emit_emitted hsorted hms⟩, rfl, rfl, rfl⟩

/-- The payloads that are left after some nodes. -/
theorem foldlM_processNode {easDomain headDomain : B256} {anchors : List AnchorRecord}
    {auths : List Envelope0AnchorAuthorization} {nodes : List (B256 × List (ℕ × AnchorRecord))}
    {st st' : NodeScan} (hnd : (nodes.map Prod.fst).Nodup)
    (hsorted : ∀ node ∈ nodes, node.2.Pairwise fun a b => a.1 < b.1)
    (hanchors : ∀ node ∈ nodes, ∀ a ∈ node.2, anchors[a.1]? = some a.2)
    (hs : nodes.foldlM (processNode H K p easDomain headDomain auths) st = .ok st') :
    ∃ blocks : List Block, (∀ b ∈ blocks, b.Processed H K p anchors) ∧
      List.Forall₂ (fun (node : B256 × List (ℕ × AnchorRecord)) (b : Block) =>
        st.payloads[node.1]? = some b.witness) nodes blocks ∧
      st'.mutations = st.mutations ++ blocks.flatMap Block.mutations ∧
      ∀ (k : B256) v, st.payloads[k]? = some v → st'.payloads[k]? = some v ∨ k ∈ nodes.map Prod.fst := by
  induction nodes generalizing st with
  | nil =>
    obtain rfl := ok_inj hs
    exact ⟨[], by simp, .nil, by simp, fun k v h => .inl h⟩
  | cons node nodes ih =>
    rw [foldlM_cons] at hs
    obtain ⟨mid, hmid, hs⟩ := of_bind hs
    obtain ⟨hnot, hnd⟩ := nodup_cons.mp hnd
    obtain ⟨b, hb, hwit, hpayloads, hms⟩ := processNode_block
      (hsorted node (mem_cons_self ..)) (hanchors node (mem_cons_self ..)) hmid
    obtain ⟨blocks, hblocks, hfor, hms', hleft⟩ := ih hnd
      (fun n hn => hsorted n (mem_cons_of_mem _ hn))
      (fun n hn => hanchors n (mem_cons_of_mem _ hn)) hs
    refine ⟨b :: blocks, ?_, .cons hwit ?_, ?_, fun k v hv => ?_⟩
    · intro c hc
      rcases mem_cons.mp hc with rfl | hc
      · exact hb
      · exact hblocks c hc
    · refine hfor.imp fun n c hn => ?_
      rw [hpayloads] at hn
      exact BTreeMap.getElem?_of_erase hn
    · rw [hms', hms, flatMap_cons, append_assoc]
    · by_cases hk : node.1 = k
      · exact .inr (by rw [← hk]; exact mem_cons_self ..)
      · have hmidv : mid.payloads[k]? = some v := by
          rw [hpayloads, BTreeMap.getElem?_erase, if_neg hk]
          exact hv
        rcases hleft k v hmidv with h | h
        · exact .inl h
        · exact .inr (mem_cons_of_mem _ h)

theorem foldlM_addPayload_index {l : List Envelope0PayloadWitness}
    {m m' : BTreeMap B256 Envelope0PayloadWitness} (h : l.foldlM addPayload m = .ok m') :
    (∀ v ∈ l, m'[v.nodeId]? = some v) ∧ (∀ (k : B256) v, m[k]? = some v → m'[k]? = some v) ∧
      ∀ (k : B256) v, m'[k]? = some v → m[k]? = some v ∨ v ∈ l ∧ v.nodeId = k := by
  induction l generalizing m with
  | nil =>
    obtain rfl : m = m' := ok_inj h
    exact ⟨by simp, fun _ _ h => h, fun _ _ h => .inl h⟩
  | cons u l ih =>
    rw [foldlM_cons] at h
    obtain ⟨mid, hmid, h⟩ := of_bind h
    obtain ⟨hnew, hmid⟩ := of_guard hmid
    obtain rfl := ok_inj hmid
    obtain ⟨hin, hkeep, honly⟩ := ih h
    have hu : m[u.nodeId]? = none := by
      rw [BTreeMap.getElem?_of_contains] at hnew
      simpa using hnew
    refine ⟨fun v hv => ?_, fun k v hv => ?_, fun k v hv => ?_⟩
    · rcases mem_cons.mp hv with rfl | hv
      · exact hkeep _ _ (BTreeMap.getElem?_insert_self ..)
      · exact hin v hv
    · refine hkeep k v ?_
      rw [BTreeMap.getElem?_insert_of_ne _ _ ?_]
      · exact hv
      · rintro rfl
        simp [hu] at hv
    · rcases honly k v hv with hv | ⟨hv, hk⟩
      · rw [BTreeMap.getElem?_insert] at hv
        by_cases hk : u.nodeId = k
        · rw [if_pos hk, some_inj] at hv
          exact .inr ⟨by rw [hv]; exact mem_cons_self .., by rw [← hv]; exact hk⟩
        · rw [if_neg hk] at hv
          exact .inl hv
      · exact .inr ⟨mem_cons_of_mem _ hv, hk⟩

/-- The mutation stream is that of the payloads, one block each, put in the order of the anchors. -/
structure Stream (H : Hashes) (K : K256) (p : Params) (w : Lane2Witness) (blocks : List Block) : Prop where
  processed : ∀ b ∈ blocks, b.Processed H K p w.anchors
  witness : ∀ b ∈ blocks, b.witness ∈ w.payloads
  payload : ∀ v ∈ w.payloads, ∃ b ∈ blocks, b.witness = v
  nodes : blocks.Pairwise fun b c => b.payload.owner ≠ c.payload.owner

/-- The mutations in the order in which they are applied. -/
def stream (blocks : List Block) : List Mutation :=
  (blocks.flatMap Block.mutations).insertionSort fun a b => mutationBefore a b

theorem process_stream {r : Lane2Result} (h : process H K p w = .ok r) :
    ∃ blocks, Stream H K p w blocks ∧ r.edges = (stream blocks).map fun m => m.2.2 := by
  unfold process at h
  split at h
  · exact absurd h fail_ne_ok
  · rename_i easDomain headDomain _
    obtain ⟨-, h⟩ := of_guard h
    obtain ⟨⟨acc, perNode⟩, hacc, h⟩ := of_bind h
    obtain ⟨payloads, hpayloads, h⟩ := of_bind h
    obtain ⟨authorizations, -, h⟩ := of_bind h
    obtain ⟨hin, -, honly⟩ := foldlM_addPayload_index hpayloads
    by_cases he : w.anchors.isEmpty
    · rw [if_pos he] at h
      obtain ⟨hempty, h⟩ := of_guard h
      obtain ⟨-, h⟩ := of_guard h
      obtain rfl := ok_inj h
      refine ⟨[], ⟨by simp, by simp, fun v hv => ?_, .nil⟩, rfl⟩
      have hv := hin v hv
      rw [not_not, Std.ExtTreeMap.isEmpty_iff] at hempty
      simp [hempty] at hv
    · rw [if_neg he] at h
      obtain ⟨st, hst, h⟩ := of_bind h
      obtain ⟨hempty, h⟩ := of_guard h
      obtain ⟨-, h⟩ := of_guard h
      obtain rfl := ok_inj h
      have hgrouped := foldlM_foldAnchor_grouped hacc
      have hkeys : (perNode.toList.map Prod.fst).Nodup := by
        rw [Std.ExtTreeMap.map_fst_toList_eq_keys]
        exact BTreeMap.keys_nodup perNode
      obtain ⟨blocks, hblocks, hfor, hms, hleft⟩ := foldlM_processNode hkeys
        (fun n hn => hgrouped.sorted n.1 n.2 (BTreeMap.mem_toList.mp hn))
        (fun n hn => hgrouped.anchor n.1 n.2 (BTreeMap.mem_toList.mp hn)) hst
      have hindex : ∀ (k : B256) v, payloads[k]? = some v → v ∈ w.payloads ∧ v.nodeId = k := by
        intro k v hv
        rcases honly k v hv with hv | hv
        · simp at hv
        · exact hv
      -- the blocks are those of the nodes, one each
      have hids : blocks.map (fun b => b.witness.nodeId) = perNode.toList.map Prod.fst := by
        have hmaps : List.Forall₂ Eq (blocks.map fun b => b.witness.nodeId)
            (perNode.toList.map Prod.fst) := by
          rw [forall₂_map_left_iff, forall₂_map_right_iff]
          refine List.Forall₂.flip (hfor.imp fun n b hb => ?_)
          exact (hindex n.1 b.witness hb).2
        rwa [forall₂_eq_eq_eq] at hmaps
      have hwitness : ∀ b ∈ blocks, b.witness ∈ w.payloads := by
        intro b hb
        obtain ⟨n, -, hn⟩ : ∃ n ∈ perNode.toList, payloads[n.1]? = some b.witness := by
          obtain ⟨i, hi, rfl⟩ := mem_iff_getElem.mp hb
          have hlen := hfor.length_eq
          exact ⟨perNode.toList[i], getElem_mem _, hfor.get (by omega) hi⟩
        exact (hindex n.1 b.witness hn).1
      refine ⟨blocks, ⟨hblocks, hwitness, fun v hv => ?_, ?_⟩, ?_⟩
      · have hk : v.nodeId ∈ perNode.toList.map Prod.fst := by
          rcases hleft v.nodeId v (hin v hv) with h | h
          · rw [not_not, Std.ExtTreeMap.isEmpty_iff] at hempty
            simp [hempty] at h
          · exact h
        rw [← hids] at hk
        obtain ⟨b, hb, hbv⟩ := List.mem_map.mp hk
        refine ⟨b, hb, ?_⟩
        have h1 := hin _ (hwitness b hb)
        rw [hbv, hin v hv, some_inj] at h1
        exact h1.symm
      · have hnd : blocks.Pairwise fun b c => b.witness.nodeId ≠ c.witness.nodeId := by
          rw [← pairwise_map (R := (· ≠ ·)), hids]
          exact hkeys
        refine hnd.imp_of_mem fun {b c} hb hc hne howner => hne ?_
        rw [← (hblocks b hb).node, ← (hblocks c hc).node, howner]
      · show (st.mutations.insertionSort _).map _ = _
        rw [hms]
        rfl
  · exact absurd h fail_ne_ok

theorem mem_stream {blocks : List Block} {m : Mutation} :
    m ∈ stream blocks ↔ ∃ b ∈ blocks, m ∈ b.mutations := by
  rw [stream, (perm_insertionSort ..).mem_iff, mem_flatMap]

theorem mutationBefore_iff {a b : Mutation} :
    mutationBefore a b = true ↔ a.1 < b.1 ∨ a.1 = b.1 ∧ a.2.1 ≤ b.2.1 := by
  simp [mutationBefore]

theorem insertionSort_sorted (ms : List Mutation) :
    (ms.insertionSort fun a b => mutationBefore a b).Pairwise fun a b => mutationBefore a b = true := by
  have htotal : Std.Total fun a b : Mutation => mutationBefore a b = true := ⟨by
    intro a b
    rw [mutationBefore_iff, mutationBefore_iff]
    omega⟩
  have htrans : IsTrans Mutation fun a b => mutationBefore a b = true := ⟨by
    intro a b c
    rw [mutationBefore_iff, mutationBefore_iff, mutationBefore_iff]
    omega⟩
  exact pairwise_insertionSort _ _

theorem stream_sorted (blocks : List Block) : (stream blocks).Pairwise fun a b => mutationBefore a b = true :=
  insertionSort_sorted _

/-- Two mutations do not attest the same uid for the same owner. -/
def Differ (a b : Mutation) : Prop :=
  a.2.2.kind = ENTRY_ATTEST → b.2.2.kind = ENTRY_ATTEST → a.2.2.attester = b.2.2.attester →
    a.2.2.uid ≠ b.2.2.uid

namespace Stream

variable {blocks : List Block} {a m : Mutation} {owner : Address} {uid : B256} {i j : ℕ}

theorem differ (h : Stream H K p w blocks) : (stream blocks).Pairwise Differ := by
  have hsymm : ∀ {a b}, Differ a b → Differ b a := fun hab hb ha ho he => hab ha hb ho.symm he.symm
  rw [stream, (perm_insertionSort ..).pairwise_iff hsymm, pairwise_flatMap]
  refine ⟨fun b hb => ?_, h.nodes.imp_of_mem fun {b c} hb hc hne x hx y hy _ _ ho => ?_⟩
  · have hemitted := (h.processed b hb).emitted
    have honce := decode_once (h.processed b hb).decoded
    rw [← hemitted.entries, pairwise_map] at honce
    exact honce.imp fun h ha hb _ => h ha hb
  · rw [(h.processed b hb).emitted.owner x hx, (h.processed c hc).emitted.owner y hy] at ho
    exact absurd ho hne

theorem attest_unique (h : Stream H K p w blocks) (hi : (stream blocks)[i]? = some a)
    (hj : (stream blocks)[j]? = some m) (ha : a.2.2.kind = ENTRY_ATTEST)
    (hm : m.2.2.kind = ENTRY_ATTEST) (howner : a.2.2.attester = m.2.2.attester)
    (huid : a.2.2.uid = m.2.2.uid) : i = j := by
  obtain ⟨hi', rfl⟩ := List.getElem?_eq_some_iff.mp hi
  obtain ⟨hj', rfl⟩ := List.getElem?_eq_some_iff.mp hj
  have hd := pairwise_iff_getElem.mp h.differ
  rcases lt_trichotomy i j with hlt | heq | hlt
  · exact absurd huid (hd i j hi' hj' hlt ha hm howner)
  · exact heq
  · exact absurd huid.symm (hd j i hj' hi' hlt hm ha howner.symm)

/-- A revocation follows the attestation that it names, in position and in time. -/
theorem revoke_after (h : Stream H K p w blocks)
    (htime : w.anchors.Pairwise fun a b => a.blockTimestamp ≤ b.blockTimestamp)
    (hm : m ∈ stream blocks) (hk : m.2.2.kind = ENTRY_REVOKE) :
    ∃ a ∈ stream blocks, a.2.2.kind = ENTRY_ATTEST ∧ a.2.2.attester = m.2.2.attester ∧
      a.2.2.uid = m.2.2.uid ∧ a.2.2.recipient = m.2.2.recipient ∧
      a.2.2.blockTimestamp ≤ m.2.2.blockTimestamp ∧
      ∀ i j : ℕ, (stream blocks)[i]? = some a → (stream blocks)[j]? = some m → i < j := by
  obtain ⟨b, hb, hmb⟩ := mem_stream.mp hm
  have hproc := h.processed b hb
  have hemitted := hproc.emitted
  obtain ⟨a, hab, hka, huid, hrec, hfold, hpos⟩ := hemitted.revokes m hmb hk
  refine ⟨a, mem_stream.mpr ⟨b, hb, hab⟩, hka, ?_, huid, hrec, ?_, fun i j hi hj => ?_⟩
  · rw [hemitted.owner a hab, hemitted.owner m hmb]
  · -- the anchors of the two are in order of time
    obtain ⟨x, hx, hxt⟩ := hemitted.timed a hab
    obtain ⟨y, hy, hyt⟩ := hemitted.timed m hmb
    have hxy : x.blockTimestamp ≤ y.blockTimestamp := by
      obtain ⟨hi, hxi⟩ := List.getElem?_eq_some_iff.mp (hproc.anchor _ hx)
      obtain ⟨hj, hyj⟩ := List.getElem?_eq_some_iff.mp (hproc.anchor _ hy)
      change w.anchors[a.1] = x at hxi
      change w.anchors[m.1] = y at hyj
      rw [← hxi, ← hyj]
      rcases hfold.lt_or_eq with hlt | heq
      · exact pairwise_iff_getElem.mp htime a.1 m.1 hi hj hlt
      · simp only [heq]
        exact UInt64.le_refl _
    rcases hxt with ⟨-, hxt⟩ | ⟨hka', -⟩
    · rcases hyt with ⟨hkm, -⟩ | ⟨-, hyt⟩
      · rw [hk] at hkm
        exact absurd hkm (by decide)
      · rw [hyt]
        exact UInt64.le_trans hxt hxy
    · rw [hka] at hka'
      exact absurd hka' (by decide)
  · obtain ⟨hi', hia⟩ := List.getElem?_eq_some_iff.mp hi
    obtain ⟨hj', hjm⟩ := List.getElem?_eq_some_iff.mp hj
    by_contra hle
    have hbefore : mutationBefore m a = true := by
      rcases (not_lt.mp hle).lt_or_eq with hlt | heq
      · have hs := pairwise_iff_getElem.mp (stream_sorted blocks) j i hj' hi' hlt
        rwa [hjm, hia] at hs
      · rw [mutationBefore_iff]
        subst heq
        rw [hia] at hjm
        rw [hjm] at hpos
        exact absurd hpos (lt_irrefl _)
    rw [mutationBefore_iff] at hbefore
    omega

end Stream

def Revoked (H : Hashes) (K : K256) (p : Params) (w : Lane2Witness) (owner : Address) (uid : B256) : Prop :=
  ∃ v ∈ w.payloads, ∃ payload, decode H K v.payload p.schemaUid = .ok payload ∧
    payload.owner = owner ∧ (⟨ENTRY_REVOKE, uid⟩ : LogEntry) ∈ payload.entries

theorem Stream.revoked_iff {blocks : List Block} {uid : B256}
    (h : Stream H K p w blocks) : Revoked H K p w owner uid ↔
      ∃ m ∈ stream blocks, m.2.2.kind = ENTRY_REVOKE ∧ m.2.2.attester = owner ∧ m.2.2.uid = uid := by
  constructor
  · rintro ⟨v, hv, payload, hd, rfl, he⟩
    obtain ⟨b, hb, rfl⟩ := h.payload v hv
    have hproc := h.processed b hb
    obtain rfl : b.payload = payload := ok_inj (hproc.decoded.symm.trans hd)
    rw [← hproc.emitted.entries] at he
    obtain ⟨m, hm, hme⟩ := List.mem_map.mp he
    exact ⟨m, mem_stream.mpr ⟨b, hb, hm⟩, congrArg LogEntry.kind hme, hproc.emitted.owner m hm,
      congrArg LogEntry.uid hme⟩
  · rintro ⟨m, hm, hk, rfl, rfl⟩
    obtain ⟨b, hb, hmb⟩ := mem_stream.mp hm
    have hproc := h.processed b hb
    refine ⟨b.witness, h.witness b hb, b.payload, hproc.decoded, (hproc.emitted.owner m hmb).symm, ?_⟩
    rw [← hproc.emitted.entries, ← hk]
    exact List.mem_map.mpr ⟨m, hmb, rfl⟩

end Trustgraphs.Lane2

namespace Trustgraphs.TrustgraphCore

open EasOffchain Lane2 Outcome Reconcile Option List

def uidOf (current : Current) (attester recipient : Address) : Option B256 :=
  (entry current (attester, recipient)).map Prod.fst

theorem uidOf_eq_some {p : Params} {edges : List RawEdge} {current : Current}
    (h : (ordered edges).foldlM (applyEvent p) ∅ = some current) {a r : Address} {uid : B256} :
    uidOf current a r = some uid ↔ ∃ e, events.replay (ordered edges) (a, r) = some e ∧ e.uid = uid := by
  have hb := foldlM_applyEvent_backs h (a, r)
  unfold uidOf
  cases hr : events.replay (ordered edges) (a, r) with
  | none =>
    cases hx : entry current (a, r) with
    | none => simp
    | some x => simp [hr, hx, Backs] at hb
  | some e =>
    cases hx : entry current (a, r) with
    | none => simp [hr, hx, Backs] at hb
    | some x =>
      rw [hr, hx] at hb
      simp [hb.1]

theorem getElem?_lanes {lane1 : List RawEdge} {ms : List Mutation} {i : ℕ} {e : RawEdge} :
    (lane1 ++ ms.map fun m => m.2.2)[i]? = some e ↔ lane1[i]? = some e ∨
      ∃ j m, i = lane1.length + j ∧ ms[j]? = some m ∧ m.2.2 = e := by
  by_cases hi : i < lane1.length
  · rw [getElem?_append_left hi]
    constructor
    · exact .inl
    · rintro (h | ⟨j, m, rfl, -⟩)
      · exact h
      · omega
  · rw [getElem?_append_right (by omega), List.getElem?_map, map_eq_some_iff,
      List.getElem?_eq_none (by omega : lane1.length ≤ i)]
    constructor
    · rintro ⟨m, hm, rfl⟩
      exact .inr ⟨i - lane1.length, m, by omega, hm, rfl⟩
    · rintro (h | ⟨j, m, rfl, hm, rfl⟩)
      · exact absurd h (by simp)
      · exact ⟨m, by rwa [Nat.add_sub_cancel_left], rfl⟩

section

variable {H : Hashes} {K : K256} {p : Params} {lane1 : List RawEdge} {w : Lane2Witness}
  {blocks : List Block} {current : Current}
  (huid : ∀ e ∈ lane1, ∀ m ∈ stream blocks, e.uid ≠ m.2.2.uid)
  (hcurrent : (ordered (lane1 ++ (stream blocks).map fun m => m.2.2)).foldlM (applyEvent p) ∅ = some current)
include huid hcurrent

theorem carried {a r : Address} {m : Mutation} (hm : m ∈ stream blocks)
    (hc : uidOf current a r = some m.2.2.uid) :
    ∃ i x, (stream blocks)[i]? = some x ∧ x.2.2.kind = ENTRY_ATTEST ∧ x.2.2.attester = a ∧
      x.2.2.recipient = r ∧ x.2.2.uid = m.2.2.uid ∧
      ∀ j f, (lane1 ++ (stream blocks).map fun m => m.2.2)[j]? = some f →
        Later (x.2.2, lane1.length + i) (f, j) → ¬ events.Displaces x.2.2 f := by
  obtain ⟨e, he, heu⟩ := (uidOf_eq_some hcurrent).mp hc
  obtain ⟨i, hi, hk, hkey, hlater⟩ := replay_ordered.mp he
  obtain ⟨ha, hr⟩ := Prod.mk.inj hkey
  rcases getElem?_lanes.mp hi with hi | ⟨j, x, rfl, hx, rfl⟩
  · exact absurd heu (huid e (mem_of_getElem? hi) m hm)
  · exact ⟨j, x, hx, hk, ha, hr, heu, hlater⟩

variable (h : Stream H K p w blocks)
include h

theorem uidOf_ne_of_revoked (htime : w.anchors.Pairwise fun a b => a.blockTimestamp ≤ b.blockTimestamp)
    {owner recipient : Address} {uid : B256} (hrev : Revoked H K p w owner uid) :
    uidOf current owner recipient ≠ some uid := by
  intro hc
  obtain ⟨m, hm, hk, rfl, rfl⟩ := h.revoked_iff.mp hrev
  obtain ⟨i, x, hx, hkx, hax, -, hux, hlater⟩ := carried huid hcurrent hm hc
  obtain ⟨a, ha, hka, haa, hua, hra, hta, hpos⟩ := h.revoke_after htime hm hk
  obtain ⟨i', hi'⟩ := getElem?_of_mem ha
  obtain ⟨j, hj⟩ := getElem?_of_mem hm
  obtain rfl := h.attest_unique hx hi' hkx hka (hax.trans haa.symm) (hux.trans hua.symm)
  obtain rfl : x = a := Option.some.inj (hx.symm.trans hi')
  have hij := hpos i j hx hj
  refine hlater (lane1.length + j) m.2.2 (getElem?_lanes.mpr (.inr ⟨j, m, rfl, hj, rfl⟩)) ?_ ?_
  · rw [UInt64.le_iff_toNat_le] at hta
    refine later_iff.mpr ?_
    show x.2.2.blockTimestamp.toNat < m.2.2.blockTimestamp.toNat ∨
      x.2.2.blockTimestamp.toNat = m.2.2.blockTimestamp.toNat ∧ lane1.length + i < lane1.length + j
    omega
  · exact ⟨Prod.ext haa.symm hra.symm, .inr ⟨by simp [events, hk, ENTRY_REVOKE], hua.symm⟩⟩

theorem uidOf_eq_iff_of_not_revoked {i : ℕ} {x : Mutation} (hx : (stream blocks)[i]? = some x)
    (hk : x.2.2.kind = ENTRY_ATTEST) (hrev : ¬ Revoked H K p w x.2.2.attester x.2.2.uid) :
    uidOf current x.2.2.attester x.2.2.recipient = some x.2.2.uid ↔
      ∀ j f, (lane1 ++ (stream blocks).map fun m => m.2.2)[j]? = some f → f.kind = ENTRY_ATTEST →
        f.attester = x.2.2.attester → f.recipient = x.2.2.recipient →
        ¬ Later (x.2.2, lane1.length + i) (f, j) := by
  have hmem : x ∈ stream blocks := mem_of_getElem? hx
  constructor
  · intro hc j f hf hkf haf hrf hl
    obtain ⟨i', y, hy, hky, hay, -, huy, hlater⟩ := carried huid hcurrent hmem hc
    obtain rfl := h.attest_unique hy hx hky hk hay huy
    obtain rfl : y = x := Option.some.inj (hy.symm.trans hx)
    exact hlater j f hf hl ⟨Prod.ext haf hrf, .inl (by simp [events, hkf, ENTRY_ATTEST])⟩
  · intro hlast
    refine (uidOf_eq_some hcurrent).mpr ⟨x.2.2, replay_ordered.mpr ⟨lane1.length + i,
      getElem?_lanes.mpr (.inr ⟨i, x, rfl, hx, rfl⟩), hk, rfl, ?_⟩, rfl⟩
    rintro j f hf hl ⟨hkey, hset | ⟨hclear, hname⟩⟩
    · have hkf : f.kind = ENTRY_ATTEST := by simpa [events, ENTRY_ATTEST] using hset
      exact hlast j f hf hkf (congrArg Prod.fst hkey) (congrArg Prod.snd hkey) hl
    · -- only a revocation in the log of the owner names the uid
      rcases getElem?_lanes.mp hf with hf | ⟨j, m, rfl, hm, rfl⟩
      · exact huid f (mem_of_getElem? hf) x hmem hname
      · refine hrev (h.revoked_iff.mpr ⟨m, mem_of_getElem? hm, ?_, congrArg Prod.fst hkey, hname⟩)
        simpa [events, ENTRY_REVOKE] using hclear

end

/-- Revocation is final across lanes. No pair of an owner carries a uid that the log of the owner
revokes; and an attestation that the log of its owner does not revoke is carried by its pair exactly
when no attestation of the pair comes later. -/
theorem revocation_final (H : Hashes) (K : K256) (p : Params) (lane1 : List RawEdge)
    (w : Lane2Witness) (r : Lane2Result) (graph : Graph) (hr : process H K p w = .ok r)
    (htime : w.anchors.Pairwise fun a b => a.blockTimestamp ≤ b.blockTimestamp)
    (huid : ∀ e ∈ lane1, ∀ f ∈ r.edges, e.uid ≠ f.uid) (hg : buildGraph (lane1 ++ r.edges) p = some graph) :
    ∃ current, (ordered (lane1 ++ r.edges)).foldlM (applyEvent p) ∅ = some current ∧ graph = ofCurrent current ∧
      (∀ owner recipient uid, Revoked H K p w owner uid → uidOf current owner recipient ≠ some uid) ∧
      ∀ (i : ℕ) e, r.edges[i]? = some e → e.kind = ENTRY_ATTEST → ¬ Revoked H K p w e.attester e.uid →
        (uidOf current e.attester e.recipient = some e.uid ↔
          ∀ (j : ℕ) f, (lane1 ++ r.edges)[j]? = some f → f.kind = ENTRY_ATTEST →
            f.attester = e.attester → f.recipient = e.recipient →
            ¬ Later (e, lane1.length + i) (f, j)) := by
  obtain ⟨current, hcurrent, hgraph⟩ := bind_eq_some_iff.mp hg
  obtain ⟨blocks, hstream, hedges⟩ := process_stream hr
  rw [hedges] at hcurrent huid ⊢
  have huid' : ∀ e ∈ lane1, ∀ m ∈ stream blocks, e.uid ≠ m.2.2.uid :=
    fun e he m hm => huid e he _ (List.mem_map_of_mem hm)
  refine ⟨current, hcurrent, (Option.some.inj hgraph).symm, fun owner recipient uid hrev =>
    uidOf_ne_of_revoked huid' hcurrent hstream htime hrev, fun i e he hk hrev => ?_⟩
  rw [List.getElem?_map, map_eq_some_iff] at he
  obtain ⟨x, hx, rfl⟩ := he
  exact uidOf_eq_iff_of_not_revoked huid' hcurrent hstream hx hk hrev

namespace RevocationExample

def owner1 : Address := .ofNat 20 0x7e5f4552091a69125d5dfcb7b8c2659029395bdf

def owner2 : Address := .ofNat 20 0x2b5ad5c4795c026514f8317c7a215e218dccd6cf

def recipient : Address := .replicate 20 9

def uid : B256 := .ofNat 32 0x73c71bdd02160587f150a4c25007a456a6eb5b67138727542495dd342d2aea55

def params : Params where
  dampingFp := 850000000000000000
  toleranceFp := 1000000000000
  maxIterations := 1
  minWeightFp := 0
  maxWeightFp := 100000000000000000000
  trustShareFp := 1000000000000000000
  trustDecayFp := 800000000000000000
  trustedSeeds := []
  totalPool := 1000
  precisionScale := 1000000000000000000
  schemaUid := 0
  weightFieldIndex := 1
  envelope0DomainSeparators := [.ofNat 32 1, .ofNat 32 2]
  lane2MaxHeadAge := 0
  accumulator := 0
  chainId := 10

def data : Bytes := wordU256 64 ++ wordU256 5 ++ wordU256 0

def attestation (signature : Bytes) : OffchainAttestation :=
  ⟨2, 0, recipient, 100, 0, true, 0, data, .ofNat 32 1, signature⟩

def signature1 : Bytes :=
  beBytes 65 0x9d1abaec9f5715a15c7628244170951e0f85e87f68ca5393d3f9fc3fa23a69c869cc27b28bc4d331ccc2d6a84c95fc1e93fb49784401a08540ea7a5f383ca99f1b

def signature2 : Bytes :=
  beBytes 65 0x70b55404702ffa86ecfa4e88e0f354004a0965a5eea5fbbd297436001ae920df5f723657e1461c607f72e11d57e5f079767e59db6482679e8a919456f2a7e7451c

def payload (owner : Address) (entries : List LogEntry) (signature : Bytes) : Bytes :=
  MAGIC ++ beBytes 2 1 ++ owner.bytes ++ beBytes 4 entries.length ++ beBytes 4 1 ++
    entries.flatMap (fun e => e.kind :: e.uid.bytes) ++ beBytes 2 2 ++ (0 : B256).bytes ++
    recipient.bytes ++ beBytes 8 100 ++ beBytes 8 0 ++ [1] ++ (0 : B256).bytes ++ beBytes 4 96 ++ data ++
    (FixedBytes.ofNat 32 1).bytes ++ signature

def log1 : List LogEntry := [⟨ENTRY_ATTEST, uid⟩, ⟨ENTRY_REVOKE, uid⟩]

def log2 : List LogEntry := [⟨ENTRY_ATTEST, uid⟩]

def payload1 : Bytes := payload owner1 log1 signature1

def payload2 : Bytes := payload owner2 log2 signature2

def node1 : B256 := .ofNat 32 0xdfbc88cbeffbe11a8ff3019e22f124ec60caf1907da0ca6bd8f50e4c2222e0ef

def node2 : B256 := .ofNat 32 0x93ff7e7a33eeac9dd9b688cf3e855e514682d54e6ea1fe582408715d19018659

def attested : B256 := .ofNat 32 0x826899adeb93db8bb534f0bfb7cde2185dede158db5c9d339894f43444613d16

def revoked : B256 := .ofNat 32 0x0c93df615a92bcf8fc7836893f6573944be64aded7c73a95a80be31fd4de6bfa

def head1 : B256 := .ofNat 32 0x0aae0ffc307459c453bdf06fbaa098a6f14f3e4f092a476252789a826638e2d1

def head2 : B256 := .ofNat 32 0x0f024f3e6d88a10d4c54406953364ffff471a90923fa1d8e2abb79515a956729

def commitment1 : B256 := .ofNat 32 0x4b0525cfdf400c8550ece47ac7f6f626848ec988e91788df787e3710ff464523

def commitment2 : B256 := .ofNat 32 0x0ece038e23a565189bd55b88d09fba684f8283923f54e4c348306e6867a4c576

def attestType : B256 := .ofNat 32 0x258b757fc37a6699a984f4be01258122f834200374b34b4457b6db0dd0f71132

def anchorType : B256 := .ofNat 32 0x03446aaf9d379be26607212418058cfd7328aa4db2341f4453a6062bcf89c480

def struct : B256 := .ofNat 32 0x531af40c1ceb898d1f0477f17632ad092e72cae4db5649685668fc3718808a50

def digest : B256 := .ofNat 32 0xb39e0beedc0b1ca4fdb07fc848189541f05fea34d394c43d4d34cbb300861fe0

def anchorStruct1 : B256 := .ofNat 32 0x986ece86be526a980c30a18a77b1b47cc20cfcdbfeed6dd4e1a62febf784c126

def anchorStruct2 : B256 := .ofNat 32 0x29d6e5fa4677d8f8f3cc6888ab3fbad95be9605db55975b1a3e3779ab2d2709a

def anchorDigest1 : B256 := .ofNat 32 0xb64127adadf74cd63b07bb7d2fa87857ae94d6d2ca71749723dd07e59c69de32

def anchorDigest2 : B256 := .ofNat 32 0x8c2a89bd1365a7ad0c08d8bacb3d55c42b8d3e4060b3e5ac7362373e40eb0440

def leaf1 : B256 := .ofNat 32 0x74374e13e07752db13190f795597b636b47f04c413e12aa390c36001130808dd

def leaf2 : B256 := .ofNat 32 0xa527009303362f92ffb07d8ec06e851eea03adcd711977ce65196ed272e5c9ea

def acc1 : B256 := .ofNat 32 0x887bbf494a29c6e918b9d1fd990512aafa44f8fad05be4996aaa587c9a5bac6c

def acc2 : B256 := .ofNat 32 0x789495fe717b524df3da27a78d056cba26ff6ad147a09f2a16e99bc917738b8d

def dataHash : B256 := .ofNat 32 0x1691a03fdfa138c503b77820a8055ac31158d5bbd7d9a549371fec28af1ed709

def point1 : Bytes :=
  beBytes 65 0x0479be667ef9dcbbac55a06295ce870b07029bfcdb2dce28d959f2815b16f81798483ada7726a3c4655da4fbfc0e1108a8fd17b448a68554199c47d08ffb10d4b8

def point2 : Bytes :=
  beBytes 65 0x04c6047f9441ed7d6d3045406e95c07cd85c778e4b8cef3ca7abac09b95c709ee51ae168fea63dc339a3c58419466ceaeef7f632653266d0e1236431a950cfe52a

def headSignature1 : Bytes :=
  beBytes 65 0x8d3f06b158ddd609f83b0531466fc2a3da6aa80b433a92ddeeb20435cf33ddae20e9cd9dcae8f3394ca8c7eeb01957ebbfcdd4cef1755aff00c10bd8b6a546e01c

def headSignature2 : Bytes :=
  beBytes 65 0x9cbf013d04ca50ba852816c2802b06ca5ed37b44be9597fc0f95360e209afa977f54dd0877932d8f1b1ebbd8e72aa7b0013fb385d141f6f3ad9234a703b3e3a81b

def anchor1 : AnchorRecord := ⟨node1, 0, head2, 2, commitment1, 200⟩

def anchor2 : AnchorRecord := ⟨node2, 0, head1, 1, commitment2, 300⟩

def message (node head : B256) (count : UInt64) (commitment : B256) : Bytes :=
  anchorType.bytes ++ node.bytes ++ wordU8 0 ++ (0 : B256).bytes ++ (0 : B256).bytes ++ head.bytes ++
    wordU64 count ++ commitment.bytes

def typed (domain struct : B256) : Bytes := [0x19, 0x01] ++ domain.bytes ++ struct.bytes

def keccakTable : List (Bytes × B256) :=
  [(anchorPreimage node1 0 head2 2 commitment1 200, leaf1), (foldPreimage 0 leaf1, acc1),
    (anchorPreimage node2 0 head1 1 commitment2 300, leaf2), (foldPreimage acc1 leaf2, acc2),
    (wordAddr owner1, node1), (wordAddr owner2, node2),
    (wordU8 ENTRY_ATTEST ++ uid.bytes, attested), (wordU8 ENTRY_REVOKE ++ uid.bytes, revoked),
    (foldPreimage 0 attested, head1), (foldPreimage head1 revoked, head2),
    (utf8 "Attest(uint16 version,bytes32 schema,address recipient,uint64 time,uint64 expirationTime,bool revocable,bytes32 refUID,bytes data,bytes32 salt)", attestType),
    (utf8 "Anchor(bytes32 nodeId,uint8 envelopeKind,bytes32 schemaUid,bytes32 previousHead,bytes32 head,uint64 count,bytes32 dataCommitment)", anchorType),
    (data, dataHash),
    (attestType.bytes ++ wordU256 2 ++ (0 : B256).bytes ++ wordAddr recipient ++ wordU64 100 ++
      wordU64 0 ++ wordU8 1 ++ (0 : B256).bytes ++ dataHash.bytes ++ (FixedBytes.ofNat 32 1).bytes,
      struct),
    (typed (.ofNat 32 1) struct, digest),
    (message node1 head2 2 commitment1, anchorStruct1), (typed (.ofNat 32 2) anchorStruct1, anchorDigest1),
    (message node2 head1 1 commitment2, anchorStruct2), (typed (.ofNat 32 2) anchorStruct2, anchorDigest2),
    (beBytes 2 2 ++ utf8 "0x" ++ hexEncode (0 : B256).bytes ++ recipient.bytes ++ (0 : Address).bytes ++
      beBytes 8 100 ++ beBytes 8 0 ++ [1] ++ (0 : B256).bytes ++ data ++ (FixedBytes.ofNat 32 1).bytes ++
      beBytes 4 0, uid),
    (point1.drop 1, .ofNat 32 0xc0a6c424ac7157ae408398df7e5f4552091a69125d5dfcb7b8c2659029395bdf),
    (point2.drop 1, .ofNat 32 0xeedf1a9c68b3f4a8b1a1032b2b5ad5c4795c026514f8317c7a215e218dccd6cf)]

def hashes : Hashes where
  keccak256 s := ((keccakTable.find? fun e => e.1 == s).map Prod.snd).getD 0
  sha256 s := if s = payload1 then commitment1 else if s = payload2 then commitment2 else 0

def recoverTable : List ((B256 × Bytes) × Bytes) :=
  [((digest, signature1), point1), ((digest, signature2), point2),
    ((anchorDigest1, headSignature1), point1), ((anchorDigest2, headSignature2), point2)]

def k256 : K256 where
  wellFormed _ := true
  highS _ := false
  recover prehash rs parity :=
    (recoverTable.find? fun e => e.1 == (prehash, rs ++ [27 + parity])).map Prod.snd

def witness : Lane2Witness where
  anchors := [anchor1, anchor2]
  payloads := [⟨node1, payload1⟩, ⟨node2, payload2⟩]
  authorizations := [⟨0, headSignature1⟩, ⟨1, headSignature2⟩]

def vouch : RawEdge := ⟨0, owner1, recipient, 0, 50, data⟩

def offchain : List RawEdge :=
  [⟨ENTRY_ATTEST, owner1, recipient, uid, 100, data⟩, ⟨ENTRY_REVOKE, owner1, recipient, uid, 200, data⟩,
    ⟨ENTRY_ATTEST, owner2, recipient, uid, 100, data⟩]

theorem process_edges : (process hashes k256 params witness).toOption.map Lane2Result.edges = some offchain ∧
    (decode hashes k256 payload1 0).toOption = some ⟨owner1, log1, [attestation signature1]⟩ ∧
    ((ordered ([vouch] ++ offchain)).foldlM (applyEvent params) ∅).map
      (fun current => (uidOf current owner1 recipient, uidOf current owner2 recipient)) =
        some (none, some uid) := by
  decide +kernel

theorem process_ok : ∃ r, process hashes k256 params witness = .ok r ∧ r.edges = offchain := by
  obtain ⟨r, hr, hedges⟩ := map_eq_some_iff.mp process_edges.1
  exact ⟨r, toOption_eq_some.mp hr, hedges⟩

theorem revoked1 : Revoked hashes k256 params witness owner1 uid := by
  have h := process_edges.2.1
  refine ⟨⟨node1, payload1⟩, by simp [witness], _, toOption_eq_some.mp h, rfl, ?_⟩
  simp [log1]

theorem foldlM_ok : ∃ current, (ordered ([vouch] ++ offchain)).foldlM (applyEvent params) ∅ =
    some current ∧ uidOf current owner1 recipient = none ∧ uidOf current owner2 recipient = some uid := by
  obtain ⟨current, hcurrent, hpairs⟩ := map_eq_some_iff.mp process_edges.2.2
  obtain ⟨h1, h2⟩ := Prod.mk.inj hpairs
  exact ⟨current, hcurrent, h1, h2⟩

theorem anchors_in_time : witness.anchors.Pairwise fun a b => a.blockTimestamp ≤ b.blockTimestamp := by
  decide

theorem uids_differ : ∀ e ∈ [vouch], ∀ f ∈ offchain, e.uid ≠ f.uid := by decide

end RevocationExample

open RevocationExample in
/-- One owner revokes what another one has attested as well. -/
theorem revocation_final_two_owners : ∃ r graph current, process hashes k256 params witness = .ok r ∧
    buildGraph ([vouch] ++ r.edges) params = some graph ∧ graph = ofCurrent current ∧
    uidOf current owner1 recipient ≠ some uid := by
  obtain ⟨r, hr, hedges⟩ := process_ok
  obtain ⟨current, hcurrent, -⟩ := foldlM_ok
  have hg : buildGraph ([vouch] ++ r.edges) params = some (ofCurrent current) := by
    rw [buildGraph, hedges, hcurrent]
    rfl
  obtain ⟨current', -, hgraph, hrevoked, -⟩ := revocation_final hashes k256 params [vouch] witness r
    (ofCurrent current) hr anchors_in_time (by rw [hedges]; exact uids_differ) hg
  exact ⟨r, _, current', hr, hg, hgraph, hrevoked owner1 recipient uid revoked1⟩

open RevocationExample in
/-- The uid of an off-chain attestation says nothing about its owner: a pair of the second owner
carries the uid that the log of the first revokes. -/
theorem revoked_uid_of_other_owner : ∃ r graph current, process hashes k256 params witness = .ok r ∧
    (witness.anchors.Pairwise fun a b => a.blockTimestamp ≤ b.blockTimestamp) ∧
    (∀ e ∈ [vouch], ∀ f ∈ r.edges, e.uid ≠ f.uid) ∧
    buildGraph ([vouch] ++ r.edges) params = some graph ∧ graph = ofCurrent current ∧
    (ordered ([vouch] ++ r.edges)).foldlM (applyEvent params) ∅ = some current ∧
    Revoked hashes k256 params witness owner1 uid ∧
    uidOf current owner2 recipient = some uid ∧
    (graph.edge? (owner2, recipient)).isSome = true := by
  obtain ⟨r, hr, hedges⟩ := process_ok
  obtain ⟨current, hcurrent, -, hcarries⟩ := foldlM_ok
  refine ⟨r, ofCurrent current, current, hr, anchors_in_time, ?_, ?_, rfl, ?_, revoked1, hcarries, ?_⟩
  · rw [hedges]
    exact uids_differ
  · rw [hedges, buildGraph, hcurrent]
    rfl
  · rw [hedges]
    exact hcurrent
  · rw [edge?_ofCurrent, Option.isSome_map]
    obtain ⟨x, hx, -⟩ := map_eq_some_iff.mp hcarries
    rw [hx]
    rfl

end Trustgraphs.TrustgraphCore
