import Trustgraphs.EasOffchain.Proofs.IndexedProofs
import Trustgraphs.EasOffchain.Proofs.PayloadProofs
import Trustgraphs.Lib.Related
import Trustgraphs.TrustgraphCore.Proofs.RevocationProofs

/-!
# The indices of envelope-0 processing are in range

The walk with indices does what the walk over the rest of the lists does (`process_eq`): the counts of
the anchors are positive, the cursors stand where the rest of a list begins, and no slice of a payload
or a signature is out of range.
-/

namespace Trustgraphs.Lane2.Indexed

open EasOffchain Indexing Outcome List

variable {H : Hashes} {K : K256} {p : Params}

theorem renameError_eq {α : Type} {x : Except (Abort PayloadError) α} {y : Except PayloadError α}
    (h : Lifts Eq x y) : renameError Lane2Error.payload x = ofPayload y := by
  match x, y, h with
  | .ok a, .ok b, h => exact congrArg Except.ok h
  | .error _, .error e, h =>
    obtain rfl := h
    rfl

theorem advance_cases (anchors : List (ℕ × AnchorRecord)) (n : UInt64) (cursor : ℕ) :
    (∃ c first rest, advance anchors n cursor = .ok c ∧
        Lane2.advance n (anchors.drop cursor) = some (first :: rest) ∧ anchors.drop c = first :: rest) ∨
      advance anchors n cursor = .error .panic ∧ Lane2.advance n (anchors.drop cursor) = none := by
  induction cursor using advance.induct anchors n with
  | case1 cursor hnone =>
    right
    unfold advance
    rw [hnone, drop_eq_nil_of_le (List.getElem?_eq_none_iff.mp hnone)]
    exact ⟨rfl, rfl⟩
  | case2 cursor a hsome hlt ih =>
    obtain ⟨hi, hget⟩ := List.getElem?_eq_some_iff.mp hsome
    unfold advance
    rw [hsome, drop_eq_getElem_cons hi, hget, Lane2.advance]
    dsimp only
    rw [if_pos hlt, if_pos hlt]
    exact ih
  | case3 cursor a hsome hlt =>
    obtain ⟨hi, hget⟩ := List.getElem?_eq_some_iff.mp hsome
    left
    refine ⟨cursor, a, anchors.drop (cursor + 1), ?_, ?_, ?_⟩
    · unfold advance
      rw [hsome]
      exact if_neg hlt
    · rw [drop_eq_getElem_cons hi, hget, Lane2.advance, if_neg hlt]
    · rw [drop_eq_getElem_cons hi, hget]

/-- The cursors stand where the rests of the lists begin. -/
structure Tracks (anchors : List (ℕ × AnchorRecord)) (payload : PayloadV1) (st : Emission)
    (st' : Lane2.Emission) : Prop where
  anchors : st'.anchors = anchors.drop st.anchorCursor
  attestations : st'.attestations = payload.attestations.drop st.attestationCursor
  cursor : st.attestationCursor ≤ payload.attestations.length
  attestationsByUid : st'.attestationsByUid = st.attestationsByUid
  mutations : st'.mutations = st.mutations

variable {anchors : List (ℕ × AnchorRecord)}

theorem emitEntry_agrees {payload : PayloadV1} {st : Emission}
    {st' : Lane2.Emission} (h : Tracks anchors payload st st') (entry : LogEntry × ℕ) :
    Agrees Eq (Tracks anchors payload) (emitEntry anchors payload st entry)
      (Lane2.emitEntry payload.owner st' entry) := by
  unfold emitEntry Lane2.emitEntry
  rw [h.anchors]
  rcases advance_cases anchors (UInt64.ofNat (entry.2 + 1)) st.anchorCursor with
    ⟨c, first, rest, hc, hrest, hdrop⟩ | ⟨hpanic, hnone⟩
  · have hfirst : anchors[c]? = some first := by
      have hhead : (anchors.drop c)[0]? = some first := by rw [hdrop]; rfl
      rwa [getElem?_drop, Nat.add_zero] at hhead
    rw [hc, ok_bind, index_of_getElem? hfirst, ok_bind, hrest]
    dsimp only
    by_cases h0 : entry.1.kind = ENTRY_ATTEST
    · rw [if_pos h0, if_pos h0, h.attestations]
      cases hatt : payload.attestations[st.attestationCursor]? with
      | none =>
        rw [drop_eq_nil_of_le (List.getElem?_eq_none_iff.mp hatt)]
        exact Agrees.error rfl
      | some attestation =>
        obtain ⟨hi, hget⟩ := List.getElem?_eq_some_iff.mp hatt
        rw [drop_eq_getElem_cons hi, hget]
        refine Agrees.ite_error rfl fun _ => Agrees.ok ⟨hdrop.symm, rfl, hi, ?_, ?_⟩
        · rw [h.attestationsByUid]
        · rw [h.mutations]
    · rw [if_neg h0, if_neg h0]
      by_cases h1 : entry.1.kind = ENTRY_REVOKE
      · rw [if_pos h1, if_pos h1, h.attestationsByUid]
        cases st.attestationsByUid[entry.1.uid]? with
        | none => exact Agrees.error rfl
        | some attestation =>
          exact Agrees.ok ⟨hdrop.symm, h.attestations, h.cursor, rfl, by rw [h.mutations]⟩
      · rw [if_neg h1, if_neg h1]
        exact Agrees.error rfl
  · rw [hpanic, hnone]
    exact Agrees.error rfl

theorem emit_eq (hpositive : ∀ a ∈ anchors, a.2.count.toNat ≠ 0)
    (payload : PayloadV1) : emit H anchors payload = Lane2.emit H anchors payload := by
  unfold emit Lane2.emit
  refine Agrees.eq ?_
  refine Agrees.bind (R := Eq) (Agrees.forM fun a ha => ?_) fun _ _ _ _ => ?_
  · unfold checkPrefix Lane2.checkPrefix
    rw [if_neg (hpositive a ha)]
    cases (prefixHeads H payload.entries)[a.2.count.toNat - 1]? with
    | none => exact Agrees.error rfl
    | some head => exact Agrees.ite_error rfl fun _ => Agrees.ok rfl
  · refine Agrees.bind (R := Tracks anchors payload) (Agrees.foldlM (fun entry _ st st' h =>
      emitEntry_agrees h entry) ⟨rfl, rfl, Nat.zero_le _, rfl, rfl⟩) fun st st' h _ => ?_
    have hdone : st.attestationCursor ≠ payload.attestations.length ↔ st'.attestations ≠ [] := by
      have := h.cursor
      rw [h.attestations, ne_eq, ne_eq, drop_eq_nil_iff]
      omega
    rw [if_congr hdone rfl rfl]
    exact Agrees.ite_error rfl fun _ => Agrees.ok h.mutations.symm

theorem latestPreviousHead_eq (hne : anchors ≠ []) :
    latestPreviousHead anchors = .ok ((anchors.dropLast.getLast?.map fun a => a.2.head).getD 0) := by
  unfold latestPreviousHead
  have hlength : 0 < anchors.length := length_pos_of_ne_nil hne
  by_cases hone : anchors.length = 1
  · have hnil : anchors.dropLast = [] := by
      rw [← length_eq_zero_iff, length_dropLast, hone]
    rw [if_pos hone, hnil]
    rfl
  · rw [if_neg hone, getLast?_eq_getElem?, length_dropLast, getElem?_dropLast,
      if_pos (by omega), show anchors.length - 1 - 1 = anchors.length - 2 by omega]
    obtain ⟨previous, hprevious⟩ : ∃ previous, anchors[anchors.length - 2]? = some previous :=
      ⟨_, List.getElem?_eq_getElem (by omega)⟩
    rw [index_of_getElem? hprevious, hprevious]
    rfl

section Nodes

variable (hK : ∀ prehash rs parity point, K.recover prehash rs parity = some point → point.length = 65)

include hK

theorem checkAnchor_eq (headDomain nodeId : B256) :
    checkAnchor H K p headDomain nodeId = Lane2.checkAnchor H K p headDomain nodeId := by
  funext st anchor
  unfold checkAnchor Lane2.checkAnchor
  simp only [renameError_eq (Indexed.verifyAnchorAuthorization_lifts hK _ _ _)]

theorem processNode_eq (easDomain headDomain : B256) (authorizations : List Envelope0AnchorAuthorization)
    (st : NodeScan) (node : B256 × List (ℕ × AnchorRecord)) :
    processNode H K p easDomain headDomain authorizations st node =
      Lane2.processNode H K p easDomain headDomain authorizations st node := by
  unfold processNode Lane2.processNode
  rw [checkAnchor_eq hK]
  cases st.payloads[node.1]? with
  | none => rfl
  | some payloadWitness =>
    dsimp only
    cases hscan : node.2.foldlM (Lane2.checkAnchor H K p headDomain node.1)
        ⟨0, 0, st.authorizations, st.signatureChecks⟩ with
    | error e => rfl
    | ok scan =>
      have hpositive : ∀ a ∈ node.2, a.2.count.toNat ≠ 0 := by
        intro a ha hzero
        have := UInt64.lt_iff_toNat_lt.mp ((checkAnchors_ascending hscan).2 a ha).1
        omega
      rw [ok_bind, ok_bind]
      cases hlatest : node.2.getLast? with
      | none => rfl
      | some latest =>
        rw [show (ofPanic (some latest) : Lane (ℕ × AnchorRecord)) = .ok latest from rfl, ok_bind]
        dsimp only
        rw [latestPreviousHead_eq (ne_nil_of_mem (mem_of_getLast? hlatest)), ok_bind]
        cases authorizations.find? fun a => a.foldIndex = UInt64.ofNat latest.1 with
        | none => rfl
        | some latestAuthorization =>
          dsimp only
          rw [renameError_eq (Indexed.verify_lifts hK _ _)]
          simp only [emit_eq hpositive]
          rfl

theorem process_eq (w : Lane2Witness) : process H K p w = Lane2.process H K p w := by
  unfold process Lane2.process
  match hdomains : p.envelope0DomainSeparators with
  | [] => rfl
  | [easDomain] => rw [if_neg (by simp), if_pos (by simp)]
  | [easDomain, headDomain] =>
    rw [if_neg (by simp)]
    have hage : ([easDomain, headDomain].length ≠ 2 ∨ p.lane2MaxHeadAge ≠ 0) ↔ p.lane2MaxHeadAge ≠ 0 := by
      simp
    rw [if_congr hage rfl rfl]
    by_cases h0 : p.lane2MaxHeadAge ≠ 0
    · rw [if_pos h0]
      exact (if_pos h0).symm
    · rw [if_neg h0]
      refine Eq.trans ?_ (if_neg h0).symm
      rw [index_of_getElem? (show [easDomain, headDomain][0]? = some easDomain from rfl), ok_bind,
        index_of_getElem? (show [easDomain, headDomain][1]? = some headDomain from rfl), ok_bind]
      have hnode : processNode H K p easDomain headDomain w.authorizations =
          Lane2.processNode H K p easDomain headDomain w.authorizations := by
        funext st node
        exact processNode_eq hK easDomain headDomain w.authorizations st node
      rw [hnode]
  | _ :: _ :: _ :: _ => rw [if_neg (by simp), if_pos (by simp)]

end Nodes

end Trustgraphs.Lane2.Indexed

/-!
# Envelope-0 processing is total and exact

The lane emits one mutation for each entry of the newest log of a node, at the anchor that first commits
to the entry (`MutationOf`), and never panics. The heads of the earlier anchors are those of the prefixes
of the newest log, so earlier logs are prefixes of later ones (`Commits.isPrefix`).
-/

namespace Trustgraphs.Lane2

open EasOffchain Outcome Option List UInt64

variable {H : Hashes} {K : K256} {p : Params} {w : Lane2Witness}

def attests (entries : List LogEntry) : List LogEntry := entries.filter fun e => e.kind = ENTRY_ATTEST

def Names (H : Hashes) (e : LogEntry) (a : OffchainAttestation) : Prop := offchainUidV2 H a = e.uid

variable {entries : List LogEntry} {payload : PayloadV1} {i : ℕ} {anchors : List (ℕ × AnchorRecord)}

theorem foldlM_scanEntry_names {st st' : LogScan} (h : entries.foldlM (scanEntry H) st = .ok st') :
    ∃ used, st.rest = used ++ st'.rest ∧ List.Forall₂ (Names H) (attests entries) used := by
  induction entries generalizing st with
  | nil =>
    obtain rfl : st = st' := ok_inj h
    exact ⟨[], rfl, .nil⟩
  | cons e entries ih =>
    rw [foldlM_cons] at h
    obtain ⟨mid, hmid, h⟩ := of_bind h
    obtain ⟨used, hused, hnames⟩ := ih h
    unfold scanEntry at hmid
    by_cases h0 : e.kind = ENTRY_ATTEST
    · rw [if_pos h0] at hmid
      cases hrest : st.rest with
      | nil => simp [hrest] at hmid
      | cons a rest =>
        rw [hrest] at hmid
        obtain ⟨-, hmid⟩ := of_guard hmid
        obtain ⟨huid, hmid⟩ := of_guard hmid
        obtain rfl := ok_inj hmid
        refine ⟨a :: used, by rw [cons_append, ← hused], ?_⟩
        rw [attests, filter_cons_of_pos (by simpa using h0)]
        exact .cons (not_not.mp huid) hnames
    · rw [if_neg h0] at hmid
      have hsame : mid.rest = st.rest := by
        by_cases h1 : e.kind = ENTRY_REVOKE
        · rw [if_pos h1] at hmid
          obtain ⟨-, hmid⟩ := of_guard hmid
          obtain ⟨-, hmid⟩ := of_guard hmid
          rw [← ok_inj hmid]
        · rw [if_neg h1] at hmid
          exact absurd hmid (by simp)
      refine ⟨used, by rw [← hsame, hused], ?_⟩
      rw [attests, filter_cons_of_neg (by simpa using h0)]
      exact hnames

theorem decode_names {bytes : Bytes} {schema : B256} (h : decode H K bytes schema = .ok payload) :
    List.Forall₂ (Names H) (attests payload.entries) payload.attestations := by
  obtain ⟨st, hst, hrest⟩ := (decode_eq_ok.mp h).1.log
  obtain ⟨used, hused, hnames⟩ := foldlM_scanEntry_names hst
  dsimp only at hused
  rwa [hused, hrest, append_nil]

structure Commits (H : Hashes) (a : AnchorRecord) (entries : List LogEntry) : Prop where
  count : entries.length = a.count.toNat
  head : logHead H entries = a.head

def logHashed (H : Hashes) (entries : List LogEntry) : List Bytes :=
  entries.map (fun e => wordU8 e.kind ++ e.uid.bytes) ++
    (HashChain.steps (fold H) 0 (entries.map fun e => entryLeaf H e.kind e.uid)).map
      fun p => foldPreimage p.1 p.2

theorem logHead_eq (entries : List LogEntry) :
    logHead H entries = (entries.map fun e => entryLeaf H e.kind e.uid).foldl (fold H) 0 := by
  rw [foldl_map]
  rfl

theorem logHead_injective {S : List Bytes} (hS : CollisionFree H.keccak256 S)
    {xs ys : List LogEntry} (hx : ∀ s ∈ logHashed H xs, s ∈ S) (hy : ∀ s ∈ logHashed H ys, s ∈ S)
    (e : logHead H xs = logHead H ys) : xs = ys := by
  have hsteps : ∀ p ∈ HashChain.steps (fold H) 0 (xs.map fun e => entryLeaf H e.kind e.uid) ++
      HashChain.steps (fold H) 0 (ys.map fun e => entryLeaf H e.kind e.uid),
      foldPreimage p.1 p.2 ∈ S := by
    intro p hp
    rcases mem_append.mp hp with hp | hp
    · exact hx _ (mem_append_right _ (List.mem_map_of_mem hp))
    · exact hy _ (mem_append_right _ (List.mem_map_of_mem hp))
  rw [logHead_eq, logHead_eq] at e
  have hleaves := HashChain.foldl_injective _ _ (fold_injective hS _ hsteps) e
  have hmem : ∀ c, c ∈ xs ∨ c ∈ ys → wordU8 c.kind ++ c.uid.bytes ∈ S := by
    rintro c (hc | hc)
    · exact hx _ (mem_append_left _ (List.mem_map_of_mem hc))
    · exact hy _ (mem_append_left _ (List.mem_map_of_mem hc))
  refine HashChain.eq_of_map_eq (fun a ha b hb hab => ?_) hleaves
  obtain ⟨hkind, huid⟩ := append_inj (hS.inj _ (hmem a ha) _ (hmem b hb) hab) (by simp)
  cases a
  cases b
  simp_all

theorem logHashed_take (entries : List LogEntry) (n : ℕ) :
    ∀ s ∈ logHashed H (entries.take n), s ∈ logHashed H entries := by
  intro s hs
  have hsplit : logHashed H entries = logHashed H (entries.take n ++ entries.drop n) := by
    rw [take_append_drop]
  rw [hsplit]
  unfold logHashed at hs ⊢
  rw [map_append, map_append, HashChain.steps_append, map_append]
  rcases mem_append.mp hs with hs | hs
  · exact mem_append_left _ (mem_append_left _ hs)
  · exact mem_append_right _ (mem_append_left _ hs)

theorem prefixHeads_append (entries : List LogEntry) (e : LogEntry) :
    prefixHeads H (entries ++ [e]) = prefixHeads H entries ++ [logHead H (entries ++ [e])] := by
  have hstate : ∀ es : List LogEntry, (es.foldl
      (fun (st : B256 × List B256) entry =>
        let head := fold H st.1 (entryLeaf H entry.kind entry.uid)
        (head, st.2 ++ [head])) (0, [])).1 = logHead H es := by
    intro es
    induction es using List.reverseRecOn with
    | nil => rfl
    | append_singleton es e ih =>
      rw [foldl_append, logHead, foldl_append]
      exact congrArg (fun head => fold H head (entryLeaf H e.kind e.uid)) ih
  unfold prefixHeads
  rw [foldl_append]
  show _ ++ [fold H _ (entryLeaf H e.kind e.uid)] = _
  rw [hstate, logHead, logHead, foldl_append]
  rfl

theorem prefixHeads_eq (entries : List LogEntry) :
    prefixHeads H entries = (List.range entries.length).map fun i => logHead H (entries.take (i + 1)) := by
  induction entries using List.reverseRecOn with
  | nil => rfl
  | append_singleton entries e ih =>
    rw [prefixHeads_append, ih, length_append, length_singleton, range_succ, map_append, map_singleton]
    congr 1
    · refine map_congr_left fun i hi => ?_
      rw [take_append_of_le_length (mem_range.mp hi)]
    · rw [take_of_length_le (by simp)]

theorem commits_of_checkPrefix {a : ℕ × AnchorRecord}
    (hpositive : a.2.count.toNat ≠ 0) (h : checkPrefix (prefixHeads H entries) a = .ok ()) :
    Commits H a.2 (entries.take a.2.count.toNat) := by
  unfold checkPrefix at h
  rw [prefixHeads_eq] at h
  cases hget : ((List.range entries.length).map fun i => logHead H (entries.take (i + 1)))[
      a.2.count.toNat - 1]? with
  | none =>
    rw [hget] at h
    exact absurd h fail_ne_ok
  | some head =>
    rw [hget] at h
    have hhead := not_not.mp (of_guard h).1
    rw [List.getElem?_map, map_eq_some_iff] at hget
    obtain ⟨i, hi, rfl⟩ := hget
    obtain ⟨hlt, hrange⟩ := List.getElem?_eq_some_iff.mp hi
    rw [length_range] at hlt
    rw [getElem_range] at hrange
    have hcount : i + 1 = a.2.count.toNat := by omega
    refine ⟨length_take_of_le (by omega), ?_⟩
    rw [← hcount]
    exact hhead

theorem Commits.isPrefix {earlier later : List LogEntry} {a b : AnchorRecord}
    (ha : Commits H a (entries.take a.count.toNat)) (hb : Commits H b (entries.take b.count.toNat))
    (hle : a.count ≤ b.count) (hearlier : Commits H a earlier) (hlater : Commits H b later)
    (hfree : CollisionFree H.keccak256
      (logHashed H entries ++ logHashed H earlier ++ logHashed H later)) : earlier <+: later := by
  have hleft : ∀ {n}, ∀ s ∈ logHashed H (entries.take n),
      s ∈ logHashed H entries ++ logHashed H earlier ++ logHashed H later := fun s hs =>
    mem_append_left _ (mem_append_left _ (logHashed_take entries _ s hs))
  have hearlier' : earlier = entries.take a.count.toNat := logHead_injective hfree
    (fun s hs => mem_append_left _ (mem_append_right _ hs)) hleft
    (hearlier.head.trans ha.head.symm)
  have hlater' : later = entries.take b.count.toNat := logHead_injective hfree
    (fun s hs => mem_append_right _ hs) hleft (hlater.head.trans hb.head.symm)
  rw [hearlier', hlater']
  exact take_prefix_take_left (le_iff_toNat_le.mp hle)

/-- The anchor that first commits to the entry at a position. -/
def firstCommit (anchors : List (ℕ × AnchorRecord)) (position : ℕ) : Option (ℕ × AnchorRecord) :=
  anchors.find? fun a => position < a.2.count.toNat

/-- The mutation of an entry with its position: at the anchor that first commits to it, with the
attestation that it names. A revocation takes the time of the anchor. -/
def MutationOf (H : Hashes) (anchors : List (ℕ × AnchorRecord)) (payload : PayloadV1)
    (entry : LogEntry × ℕ) (m : Mutation) : Prop :=
  ∃ first attestation, firstCommit anchors entry.2 = some first ∧ attestation ∈ payload.attestations ∧
    Names H entry.1 attestation ∧
    m = (first.1, entry.2, ⟨entry.1.kind, payload.owner, attestation.recipient, entry.1.uid,
      if entry.1.kind = ENTRY_ATTEST then attestation.time else first.2.blockTimestamp,
      attestation.data⟩)

structure Following (H : Hashes) (anchors : List (ℕ × AnchorRecord)) (payload : PayloadV1) (position : ℕ)
    (remaining : List LogEntry) (st : Emission) : Prop where
  anchors : st.anchors = anchors.dropWhile fun a => a.2.count.toNat < position
  attestations : List.Forall₂ (Names H) (attests remaining) st.attestations
  known : ∀ a ∈ st.attestations, a ∈ payload.attestations
  uids : ∀ (uid : B256) a, st.attestationsByUid[uid]? = some a →
    a ∈ payload.attestations ∧ offchainUidV2 H a = uid

theorem dropWhile_lt_lt (anchors : List (ℕ × AnchorRecord)) {j : ℕ} (h : i ≤ j) :
    (anchors.dropWhile fun a => a.2.count.toNat < i).dropWhile (fun a => a.2.count.toNat < j) =
      anchors.dropWhile fun a => a.2.count.toNat < j := by
  induction anchors with
  | nil => rfl
  | cons a anchors ih =>
    by_cases hi : a.2.count.toNat < i
    · rw [dropWhile_cons_of_pos (by simpa using hi), dropWhile_cons_of_pos (by simpa using hi.trans_le h), ih]
    · rw [dropWhile_cons_of_neg (by simpa using hi)]

theorem advance_eq (n : UInt64) (anchors : List (ℕ × AnchorRecord)) :
    advance n anchors = match anchors.dropWhile (fun a => a.2.count.toNat < n.toNat) with
      | [] => none
      | first :: rest => some (first :: rest) := by
  induction anchors with
  | nil => rfl
  | cons a anchors ih =>
    rw [advance]
    by_cases h : a.2.count < n
    · rw [if_pos h, dropWhile_cons_of_pos (by simpa using lt_iff_toNat_lt.mp h), ih]
    · rw [if_neg h, dropWhile_cons_of_neg (by simpa using (lt_iff_toNat_lt.not.mp h))]

theorem firstCommit_eq (anchors : List (ℕ × AnchorRecord)) (position : ℕ) : firstCommit anchors position =
      (anchors.dropWhile fun a => a.2.count.toNat < position + 1).head? := by
  unfold firstCommit
  rw [find?_eq_head?_dropWhile_not]
  have hp : (fun a : ℕ × AnchorRecord => !decide (position < a.2.count.toNat)) =
      fun a => decide (a.2.count.toNat < position + 1) := by
    funext a
    rw [← decide_not]
    exact decide_eq_decide.mpr (by omega)
  rw [hp]

/-- One entry: the lane fails with an error, or emits its mutation. -/
theorem Following.emitEntry {e : LogEntry} {remaining : List LogEntry} {st : Emission}
    (h : Following H anchors payload i (e :: remaining) st) {first : ℕ × AnchorRecord}
    (hfirst : firstCommit anchors i = some first) (hi : i + 1 < 2 ^ 64) :
    (∃ e', Lane2.emitEntry payload.owner st (e, i) = .error (.error e')) ∨
      ∃ st' m, Lane2.emitEntry payload.owner st (e, i) = .ok st' ∧
        Following H anchors payload (i + 1) remaining st' ∧ MutationOf H anchors payload (e, i) m ∧
        st'.mutations = st.mutations ++ [m] := by
  have hcursor : advance (UInt64.ofNat (i + 1)) st.anchors =
      match anchors.dropWhile (fun a => a.2.count.toNat < i + 1) with
      | [] => none
      | first :: rest => some (first :: rest) := by
    rw [advance_eq, h.anchors, toNat_ofNat_of_lt' hi, dropWhile_lt_lt anchors (Nat.le_succ i)]
  rw [firstCommit_eq] at hfirst
  cases hdrop : anchors.dropWhile (fun a => a.2.count.toNat < i + 1) with
  | nil =>
    rw [hdrop] at hfirst
    exact absurd hfirst (by simp)
  | cons head rest =>
    rw [hdrop, head?_cons, some_inj] at hfirst
    rw [hdrop] at hcursor
    have hcommit : firstCommit anchors i = some first := by rw [firstCommit_eq, hdrop, ← hfirst, head?_cons]
    obtain rfl := hfirst
    unfold Lane2.emitEntry
    rw [hcursor]
    dsimp only
    have hattestations := h.attestations
    by_cases h0 : e.kind = ENTRY_ATTEST
    · rw [attests, filter_cons_of_pos (by simpa using h0)] at hattestations
      rw [if_pos h0]
      cases hst : st.attestations with
      | nil => simp [hst] at hattestations
      | cons a as =>
        rw [hst] at hattestations
        obtain ⟨hname, hnames⟩ := forall₂_cons.mp hattestations
        have hknown : a ∈ payload.attestations := h.known a (hst ▸ mem_cons_self ..)
        dsimp only
        by_cases htime : a.time > head.2.blockTimestamp
        · rw [if_pos htime]
          exact .inl ⟨_, rfl⟩
        · rw [if_neg htime]
          refine .inr ⟨_, _, rfl, ⟨hdrop.symm, hnames, fun b hb => ?_, fun uid b hb => ?_⟩,
            ⟨head, a, hcommit, hknown, hname, ?_⟩, rfl⟩
          · exact h.known b (hst ▸ mem_cons_of_mem _ hb)
          · dsimp only at hb
            rw [BTreeMap.getElem?_insert] at hb
            by_cases hu : e.uid = uid
            · rw [if_pos hu, some_inj] at hb
              exact ⟨hb ▸ hknown, by rw [← hb, ← hu]; exact hname⟩
            · rw [if_neg hu] at hb
              exact h.uids uid b hb
          · dsimp only
            rw [if_pos h0, h0]
    · rw [attests, filter_cons_of_neg (by simpa using h0)] at hattestations
      rw [if_neg h0]
      by_cases h1 : e.kind = ENTRY_REVOKE
      · rw [if_pos h1]
        cases hby : st.attestationsByUid[e.uid]? with
        | none => exact .inl ⟨_, rfl⟩
        | some a =>
          obtain ⟨hknown, hname⟩ := h.uids e.uid a hby
          refine .inr ⟨_, _, rfl, ⟨hdrop.symm, hattestations, h.known, h.uids⟩,
            ⟨head, a, hcommit, hknown, hname, ?_⟩, rfl⟩
          dsimp only
          rw [if_neg h0, h1]
      · rw [if_neg h1]
        exact .inl ⟨_, rfl⟩

theorem Following.foldlM
    {remaining : List LogEntry} {st : Emission} (h : Following H anchors payload i remaining st)
    (hcommits : ∀ j < i + remaining.length, ∃ first, firstCommit anchors j = some first)
    (hlength : i + remaining.length < 2 ^ 64) :
    (∃ e, (remaining.zipIdx i).foldlM (Lane2.emitEntry payload.owner) st = .error (.error e)) ∨
      ∃ st' ms, (remaining.zipIdx i).foldlM (Lane2.emitEntry payload.owner) st = .ok st' ∧
        st'.attestations = [] ∧
        List.Forall₂ (MutationOf H anchors payload) (remaining.zipIdx i) ms ∧
        st'.mutations = st.mutations ++ ms := by
  induction remaining generalizing i st with
  | nil =>
    refine .inr ⟨st, [], rfl, ?_, .nil, (append_nil _).symm⟩
    exact forall₂_nil_left_iff.mp h.attestations
  | cons e remaining ih =>
    rw [length_cons] at hcommits hlength
    obtain ⟨first, hfirst⟩ := hcommits i (by omega)
    rw [zipIdx_cons, foldlM_cons]
    rcases h.emitEntry hfirst (by omega) with ⟨e', he'⟩ | ⟨mid, m, hmid, hnext, hm, hms⟩
    · rw [he']
      exact .inl ⟨e', rfl⟩
    · rw [hmid, ok_bind]
      rcases ih hnext (fun j hj => hcommits j (by omega)) (by omega) with
        hfails | ⟨st', ms, hst', hdone, hall, hmutations⟩
      · exact .inl hfails
      · refine .inr ⟨st', m :: ms, hst', hdone, .cons hm hall, ?_⟩
        rw [hmutations, hms, append_assoc, singleton_append]

theorem emit_cases {latest : ℕ × AnchorRecord}
    (hnames : List.Forall₂ (Names H) (attests payload.entries) payload.attestations)
    (hlatest : latest ∈ anchors) (hcount : payload.entries.length = latest.2.count.toNat)
    (hlimit : payload.entries.length ≤ MAX_ENTRIES_PER_NODE) :
    (∃ e, emit H anchors payload = .error (.error e)) ∨ ∃ ms, emit H anchors payload = .ok ms ∧
        (∀ a ∈ anchors, checkPrefix (prefixHeads H payload.entries) a = .ok ()) ∧
        List.Forall₂ (MutationOf H anchors payload) payload.entries.zipIdx ms := by
  have hstart : Following H anchors payload 0 payload.entries ⟨anchors, payload.attestations, ∅, []⟩ :=
    ⟨(dropWhile_eq_self_iff.mpr (by simp)).symm, hnames, fun _ h => h, by simp⟩
  have hcommits : ∀ j < 0 + payload.entries.length, ∃ first, firstCommit anchors j = some first := by
    intro j hj
    refine isSome_iff_exists.mp (find?_isSome.mpr ⟨latest, hlatest, decide_eq_true ?_⟩)
    omega
  have hlength : 0 + payload.entries.length < 2 ^ 64 := by
    have : payload.entries.length ≤ 2048 := hlimit
    omega
  unfold emit
  cases hbeginnings : anchors.forM (checkPrefix (prefixHeads H payload.entries)) with
  | error e =>
    obtain ⟨a, -, ha⟩ := exists_of_forM_eq_error hbeginnings
    left
    unfold checkPrefix at ha
    split at ha
    · exact ⟨_, congrArg Except.error (Except.error.inj ha).symm⟩
    · rcases ite_error_eq_error.mp ha with ⟨-, rfl⟩ | ⟨-, ha⟩
      · exact ⟨_, rfl⟩
      · exact absurd ha (by simp)
  | ok u =>
    rw [ok_bind]
    rcases hstart.foldlM hcommits hlength with ⟨e, he⟩ | ⟨st, ms, hst, hdone, hall, hms⟩
    · rw [he]
      exact .inl ⟨e, rfl⟩
    · rw [hst, ok_bind, if_neg (not_not.mpr hdone)]
      rw [nil_append] at hms
      exact .inr ⟨ms, congrArg Except.ok hms, forM_eq_ok.mp hbeginnings, hall⟩

theorem ofPayload_error {α : Type} {x : Except PayloadError α} {e : Abort Lane2Error}
    (h : ofPayload x = .error e) : ∃ e', e = .error e' := by
  cases x with
  | ok a => exact absurd h (by simp [ofPayload])
  | error e' => exact ⟨_, (Except.error.inj h).symm⟩

theorem checkAnchors_error {headDomain nodeId : B256} {st : AnchorScan}
    {e : Abort Lane2Error} (h : anchors.foldlM (checkAnchor H K p headDomain nodeId) st = .error e) :
    ∃ e', e = .error e' := by
  obtain ⟨a, -, st', h⟩ := exists_of_foldlM_eq_error h
  unfold checkAnchor at h
  rcases ite_error_eq_error.mp h with ⟨-, rfl⟩ | ⟨-, h⟩
  · exact ⟨_, rfl⟩
  rcases ite_error_eq_error.mp h with ⟨-, rfl⟩ | ⟨-, h⟩
  · exact ⟨_, rfl⟩
  rcases ite_error_eq_error.mp h with ⟨-, rfl⟩ | ⟨-, h⟩
  · exact ⟨_, rfl⟩
  cases hauth : st'.authorizations[a.1]? with
  | none =>
    rw [hauth] at h
    exact ⟨_, (Except.error.inj h).symm⟩
  | some auth =>
    rw [hauth] at h
    rcases bind_eq_error.mp h with h | ⟨signer, -, h⟩
    · exact ofPayload_error h
    · rcases ite_error_eq_error.mp h with ⟨-, rfl⟩ | ⟨-, h⟩
      · exact ⟨_, rfl⟩
      · exact absurd h (by simp)

theorem verify_commits {bytes : Bytes} {context : VerificationContext}
    (h : verify H K bytes context = .ok payload) :
    H.sha256 bytes = context.anchor.dataCommitment ∧ decode H K bytes context.expectedSchema = .ok payload ∧
      UInt64.ofNat payload.entries.length = context.anchor.count ∧
      logHead H payload.entries = context.anchor.head := by
  obtain ⟨hcommitment, hdecode⟩ := verify_eq_ok h
  refine ⟨hcommitment, hdecode, ?_⟩
  obtain ⟨-, h⟩ := of_guard h
  obtain ⟨payload', hdecode', h⟩ := of_bind h
  obtain rfl : payload' = payload := ok_inj (hdecode'.symm.trans hdecode)
  obtain ⟨-, h⟩ := of_guard h
  obtain ⟨-, h⟩ := of_guard h
  obtain ⟨-, h⟩ := of_guard h
  obtain ⟨hcount, h⟩ := of_guard h
  obtain ⟨hhead, -⟩ := of_guard h
  exact ⟨not_not.mp hcount, not_not.mp hhead⟩

structure NodeLog where
  nodeId : B256
  payload : PayloadV1
  mutations : List Mutation

/-- The mutations are those of the entries of the last anchored payload, one each, and every anchor of
the node commits to a prefix of its log. -/
structure NodeLog.Exact (H : Hashes) (K : K256) (p : Params) (w : Lane2Witness) (n : NodeLog) : Prop where
  newest : ∃ v ∈ w.payloads, ∃ latest, v.nodeId = n.nodeId ∧
    (groupOf w.anchors n.nodeId).getLast? = some latest ∧ H.sha256 v.payload = latest.2.dataCommitment ∧
    decode H K v.payload p.schemaUid = .ok n.payload ∧ Commits H latest.2 n.payload.entries
  owner : addressNodeId H n.payload.owner = n.nodeId
  ascending : (groupOf w.anchors n.nodeId).Pairwise fun a b => a.2.count < b.2.count
  prefixes : ∀ a ∈ groupOf w.anchors n.nodeId, Commits H a.2 (n.payload.entries.take a.2.count.toNat)
  mutations : List.Forall₂ (MutationOf H (groupOf w.anchors n.nodeId) n.payload)
    n.payload.entries.zipIdx n.mutations

/-- One node: the lane fails with an error, or emits the mutations of its log. -/
theorem processNode_cases (easDomain headDomain : B256) (auths : List Envelope0AnchorAuthorization)
    {st : NodeScan} {node : B256 × List (ℕ × AnchorRecord)} (hgroup : node.2 = groupOf w.anchors node.1)
    (hne : node.2 ≠ []) (hindex : ∀ (k : B256) v, st.payloads[k]? = some v → v ∈ w.payloads ∧ v.nodeId = k) :
    (∃ e, processNode H K p easDomain headDomain auths st node = .error (.error e)) ∨
      ∃ (st' : NodeScan) (n : NodeLog), processNode H K p easDomain headDomain auths st node = .ok st' ∧
        n.Exact H K p w ∧ n.nodeId = node.1 ∧ st'.payloads = st.payloads.erase node.1 ∧
        st'.mutations = st.mutations ++ n.mutations := by
  unfold processNode
  cases hv : st.payloads[node.1]? with
  | none => exact .inl ⟨_, rfl⟩
  | some v =>
    obtain ⟨hmem, hnode⟩ := hindex node.1 v hv
    dsimp only
    cases hscan : node.2.foldlM (checkAnchor H K p headDomain node.1)
        ⟨0, 0, st.authorizations, st.signatureChecks⟩ with
    | error e =>
      obtain ⟨e', rfl⟩ := checkAnchors_error hscan
      exact .inl ⟨e', rfl⟩
    | ok scan =>
      obtain ⟨hascending, hcounts⟩ := checkAnchors_ascending hscan
      obtain ⟨latest, hlatest⟩ := isSome_iff_exists.mp (getLast?_isSome.mpr hne)
      rw [ok_bind, hlatest]
      dsimp only
      cases auths.find? fun a => a.foldIndex = UInt64.ofNat latest.1 with
      | none => exact .inl ⟨_, rfl⟩
      | some auth =>
        dsimp only
        cases hverify : verify H K v.payload
            (latestContext p easDomain headDomain node.2 latest auth.headSignature) with
        | error e => exact .inl ⟨_, rfl⟩
        | ok payload =>
          obtain ⟨hcommitment, hdecode, hcount, hhead⟩ := verify_commits hverify
          have hlimit := (decode_eq_ok.mp hdecode).1.entryLimit
          have hcount' : payload.entries.length = latest.2.count.toNat := by
            have hlt : payload.entries.length < 2 ^ 64 := lt_of_le_of_lt hlimit (by decide)
            rw [← toNat_ofNat_of_lt' hlt, hcount]
            rfl
          rw [show ofPayload (.ok payload) = .ok payload from rfl]
          simp only [ok_bind]
          by_cases howner : v.nodeId ≠ addressNodeId H payload.owner
          · rw [if_pos howner]
            exact .inl ⟨_, rfl⟩
          · rw [if_neg howner]
            rcases emit_cases (decode_names hdecode) (mem_of_getLast? hlatest) hcount' hlimit with
              ⟨e, he⟩ | ⟨ms, hms, hbeginnings, hall⟩
            · rw [he]
              exact .inl ⟨e, rfl⟩
            · have hexact : NodeLog.Exact H K p w ⟨node.1, payload, ms⟩ := {
                newest := ⟨v, hmem, latest, hnode, by rw [← hgroup, hlatest], hcommitment, hdecode,
                  hcount', hhead⟩
                owner := (not_not.mp howner).symm.trans hnode
                ascending := hgroup ▸ hascending
                prefixes := fun a ha => by
                  rw [← hgroup] at ha
                  refine commits_of_checkPrefix (fun hzero => ?_) (hbeginnings a ha)
                  have := lt_iff_toNat_lt.mp (hcounts a ha).1
                  omega
                mutations := hgroup ▸ hall }
              rw [hms]
              exact .inr ⟨_, ⟨node.1, payload, ms⟩, rfl, hexact, rfl, rfl, rfl⟩

theorem foldlM_processNode_cases (easDomain headDomain : B256)
    (auths : List Envelope0AnchorAuthorization) {nodes : List (B256 × List (ℕ × AnchorRecord))}
    (hnodes : ∀ node ∈ nodes, node.2 = groupOf w.anchors node.1 ∧ node.2 ≠ []) (st : NodeScan)
    (hindex : ∀ (k : B256) v, st.payloads[k]? = some v → v ∈ w.payloads ∧ v.nodeId = k) :
    (∃ e, nodes.foldlM (processNode H K p easDomain headDomain auths) st = .error (.error e)) ∨
      ∃ (st' : NodeScan) (logs : List NodeLog),
        nodes.foldlM (processNode H K p easDomain headDomain auths) st = .ok st' ∧
        (∀ n ∈ logs, n.Exact H K p w) ∧ logs.map NodeLog.nodeId = nodes.map Prod.fst ∧
        st'.mutations = st.mutations ++ logs.flatMap NodeLog.mutations := by
  induction nodes generalizing st with
  | nil => exact .inr ⟨st, [], rfl, by simp, rfl, by simp⟩
  | cons node nodes ih =>
    obtain ⟨⟨hgroup, hne⟩, hnodes⟩ := forall_mem_cons.mp hnodes
    rw [foldlM_cons]
    rcases processNode_cases (H := H) (K := K) (p := p) easDomain headDomain auths hgroup hne hindex with
      ⟨e, he⟩ | ⟨mid, n, hmid, hn, hid, hpayloads, hms⟩
    · rw [he]
      exact .inl ⟨e, rfl⟩
    · rw [hmid, ok_bind]
      have hmidIndex : ∀ (k : B256) v, mid.payloads[k]? = some v → v ∈ w.payloads ∧ v.nodeId = k := by
        intro k v hv
        rw [hpayloads] at hv
        exact hindex k v (BTreeMap.getElem?_of_erase hv)
      rcases ih hnodes mid hmidIndex with hfails | ⟨st', logs, hst', hlogs, hids, hmutations⟩
      · exact .inl hfails
      · refine .inr ⟨st', n :: logs, hst', forall_mem_cons.mpr ⟨hn, hlogs⟩, ?_, ?_⟩
        · rw [map_cons, map_cons, hid, hids]
        · rw [hmutations, hms, flatMap_cons, append_assoc]

/-- A mutation comes before another: by its anchor, then by its position in the log. -/
def Before (a b : Mutation) : Prop := a.1 < b.1 ∨ a.1 = b.1 ∧ a.2.1 < b.2.1

/-- The edges are the mutations of the logs, each once and in order, and every node with an anchor has
a log. -/
structure Exact (H : Hashes) (K : K256) (p : Params) (w : Lane2Witness) (logs : List NodeLog)
    (edges : List RawEdge) : Prop where
  exact : ∀ n ∈ logs, n.Exact H K p w
  once : (logs.map NodeLog.nodeId).Nodup
  nodes : ∀ n, n ∈ logs.map NodeLog.nodeId ↔ n ∈ w.anchors.map AnchorRecord.nodeId
  edges : ∃ ms : List Mutation, ms.Perm (logs.flatMap NodeLog.mutations) ∧ ms.Pairwise Before ∧
    edges = ms.map fun m => m.2.2

theorem NodeLog.Exact.mem {n : NodeLog} (h : n.Exact H K p w) {m : Mutation} (hm : m ∈ n.mutations) :
    ∃ anchor, w.anchors[m.1]? = some anchor ∧ anchor.nodeId = n.nodeId := by
  obtain ⟨entry, -, first, -, hfirst, -, -, rfl⟩ := Related.exists_of_forall₂ h.mutations hm
  have hgroup := mem_groupOf.mp (mem_of_find?_eq_some hfirst)
  exact ⟨first.2, hgroup.1, hgroup.2⟩

theorem NodeLog.Exact.positions {n : NodeLog} (h : n.Exact H K p w) :
    n.mutations.Pairwise fun a b => a.2.1 < b.2.1 := by
  have hmap : n.mutations.map (fun m => m.2.1) = n.payload.entries.zipIdx.map Prod.snd :=
    Related.map_eq_map_of_forall₂ h.mutations fun entry _ m ⟨_, _, _, _, _, hm⟩ => by rw [hm]
  have hrange : (n.mutations.map fun m => m.2.1).Pairwise (· < ·) := by
    rw [hmap, zipIdx_map_snd]
    exact pairwise_lt_range'
  exact pairwise_map.mp hrange

theorem insertionSort_before {ms : List Mutation} (h : ms.Pairwise fun a b => a.1 ≠ b.1 ∨ a.2.1 ≠ b.2.1) :
    (ms.insertionSort fun a b => mutationBefore a b).Pairwise Before := by
  have hsymm : ∀ {a b : Mutation}, (a.1 ≠ b.1 ∨ a.2.1 ≠ b.2.1) → (b.1 ≠ a.1 ∨ b.2.1 ≠ a.2.1) :=
    fun hab => hab.imp Ne.symm Ne.symm
  have hne := ((perm_insertionSort (fun a b : Mutation => mutationBefore a b) ms).pairwise_iff
    hsymm).mpr h
  refine (hne.and (insertionSort_sorted ms)).imp fun {a b} ⟨hne, hle⟩ => ?_
  rw [mutationBefore_iff] at hle
  unfold Before
  omega

theorem mutations_differ {logs : List NodeLog} (hlogs : ∀ n ∈ logs, n.Exact H K p w)
    (honce : (logs.map NodeLog.nodeId).Nodup) :
    (logs.flatMap NodeLog.mutations).Pairwise fun a b => a.1 ≠ b.1 ∨ a.2.1 ≠ b.2.1 := by
  rw [pairwise_flatMap]
  refine ⟨fun n hn => (hlogs n hn).positions.imp fun h => .inr h.ne, ?_⟩
  refine (pairwise_map.mp honce).imp_of_mem fun {n n'} hn hn' hne a ha b hb => .inl fun heq => ?_
  obtain ⟨anchor, hget, hnode⟩ := (hlogs n hn).mem ha
  obtain ⟨anchor', hget', hnode'⟩ := (hlogs n' hn').mem hb
  rw [heq, hget', some_inj] at hget
  exact hne (hnode.symm.trans (hget ▸ hnode'))

theorem ite_fail_error {α : Type} {c : Prop} [Decidable c] {e : Lane2Error} {a : α}
    {e' : Abort Lane2Error} (h : (if c then fail e else .ok a : Lane α) = .error e') :
    ∃ e'', e' = .error e'' := by
  rcases ite_error_eq_error.mp h with ⟨-, rfl⟩ | ⟨-, h⟩
  · exact ⟨e, rfl⟩
  · exact absurd h (by simp)

/-- The lane fails with an error, or emits exactly the logs of the nodes. -/
theorem process_cases (H : Hashes) (K : K256) (p : Params) (w : Lane2Witness) :
    (∃ e, process H K p w = .error (.error e)) ∨
      ∃ r logs, process H K p w = .ok r ∧ Exact H K p w logs r.edges := by
  unfold process
  match p.envelope0DomainSeparators with
  | [] => exact .inl ⟨_, rfl⟩
  | [_] => exact .inl ⟨_, rfl⟩
  | _ :: _ :: _ :: _ => exact .inl ⟨_, rfl⟩
  | [easDomain, headDomain] =>
    dsimp only
    by_cases hage : p.lane2MaxHeadAge ≠ 0
    · rw [if_pos hage]
      exact .inl ⟨_, rfl⟩
    rw [if_neg hage]
    cases hacc : w.anchors.zipIdx.foldlM (foldAnchor H) (0, ∅) with
    | error e =>
      obtain ⟨_, -, _, hstep⟩ := exists_of_foldlM_eq_error hacc
      obtain ⟨e', rfl⟩ := ite_fail_error hstep
      exact .inl ⟨e', rfl⟩
    | ok acc =>
    rw [ok_bind]
    cases hpayloads : w.payloads.foldlM addPayload ∅ with
    | error e =>
      obtain ⟨_, -, _, hstep⟩ := exists_of_foldlM_eq_error hpayloads
      obtain ⟨e', rfl⟩ := ite_fail_error hstep
      exact .inl ⟨e', rfl⟩
    | ok payloads =>
    rw [ok_bind]
    cases hauths : w.authorizations.foldlM addAuthorization ∅ with
    | error e =>
      obtain ⟨_, -, _, hstep⟩ := exists_of_foldlM_eq_error hauths
      obtain ⟨e', rfl⟩ := ite_fail_error hstep
      exact .inl ⟨e', rfl⟩
    | ok auths =>
    rw [ok_bind]
    by_cases hempty : w.anchors.isEmpty = true
    · rw [if_pos hempty]
      by_cases h1 : ¬ payloads.isEmpty = true
      · rw [if_pos h1]
        exact .inl ⟨_, rfl⟩
      rw [if_neg h1]
      by_cases h2 : ¬ auths.isEmpty = true
      · rw [if_pos h2]
        exact .inl ⟨_, rfl⟩
      rw [if_neg h2]
      have hnil : w.anchors = [] := List.isEmpty_iff.mp hempty
      exact .inr ⟨_, [], rfl, by simp, .nil, by simp [hnil], [], .nil, .nil, rfl⟩
    · rw [if_neg hempty]
      obtain ⟨hnodes, hnodup, hmem⟩ := toList_perNode hacc
      have hindex : ∀ (k : B256) v, payloads[k]? = some v → v ∈ w.payloads ∧ v.nodeId = k := by
        intro k v hv
        rcases (foldlM_addPayload_index hpayloads).2.2 k v hv with hv | hv
        · simp at hv
        · exact hv
      rcases foldlM_processNode_cases (H := H) (K := K) (p := p) easDomain headDomain w.authorizations
          hnodes ⟨payloads, auths, [], 0⟩ hindex with
        ⟨e, he⟩ | ⟨st, logs, hst, hlogs, hids, hms⟩
      · rw [he]
        exact .inl ⟨e, rfl⟩
      · rw [hst, ok_bind]
        by_cases h1 : ¬ st.payloads.isEmpty = true
        · rw [if_pos h1]
          exact .inl ⟨_, rfl⟩
        rw [if_neg h1]
        by_cases h2 : ¬ st.authorizations.isEmpty = true
        · rw [if_pos h2]
          exact .inl ⟨_, rfl⟩
        rw [if_neg h2]
        rw [nil_append] at hms
        have honce : (logs.map NodeLog.nodeId).Nodup := hids ▸ hnodup
        refine .inr ⟨_, logs, rfl, hlogs, honce, fun n => hids ▸ hmem n, _,
          hms ▸ perm_insertionSort _ _, insertionSort_before ?_, rfl⟩
        rw [hms]
        exact mutations_differ hlogs honce

/-- The walk over a witness never panics, whatever its indices; and when it returns, the edges are the
entries of the newest log of every node, each once, in the order of the anchors that first commit to them
and of the log, and the logs that the anchors of a node commit to extend one another. -/
theorem process_total_exact (hK : ∀ prehash rs parity point,
      K.recover prehash rs parity = some point → point.length = 65) (w : Lane2Witness) :
    Indexed.process H K p w ≠ .error .panic ∧
      ∀ r, Indexed.process H K p w = .ok r → ∃ logs, Exact H K p w logs r.edges ∧
        ∀ n ∈ logs, ∀ a ∈ groupOf w.anchors n.nodeId, ∀ b ∈ groupOf w.anchors n.nodeId, a.1 < b.1 →
          ∀ earlier later, Commits H a.2 earlier → Commits H b.2 later →
            CollisionFree H.keccak256 (logHashed H n.payload.entries ++ logHashed H earlier ++
              logHashed H later) → earlier <+: later := by
  rw [Indexed.process_eq hK]
  rcases process_cases H K p w with ⟨e, he⟩ | ⟨r, logs, hr, hexact⟩
  · rw [he]
    exact ⟨by simp, fun r hr => absurd hr (by simp)⟩
  · rw [hr]
    refine ⟨by simp, fun r' hr' => ?_⟩
    obtain rfl := ok_inj hr'
    refine ⟨logs, hexact, fun n hn a ha b hb hab earlier later hearlier hlater hfree => ?_⟩
    have hlog := hexact.exact n hn
    refine (hlog.prefixes a ha).isPrefix (hlog.prefixes b hb) ?_ hearlier hlater hfree
    -- the counts ascend with the fold indices
    obtain ⟨i, hi, rfl⟩ := mem_iff_getElem.mp ha
    obtain ⟨j, hj, rfl⟩ := mem_iff_getElem.mp hb
    have hsorted := pairwise_iff_getElem.mp (groupOf_sorted w.anchors n.nodeId)
    rcases Nat.lt_trichotomy i j with hlt | rfl | hgt
    · exact UInt64.le_of_lt (pairwise_iff_getElem.mp hlog.ascending i j hi hj hlt)
    · exact absurd hab (Nat.lt_irrefl _)
    · exact absurd (hsorted j i hj hi hgt) (Nat.lt_asymm hab)

open TrustgraphCore.RevocationExample in
theorem process_total_exact_two_owners :
    ∃ r logs, Indexed.process hashes k256 params witness = .ok r ∧ r.edges = offchain ∧
      Exact hashes k256 params witness logs r.edges := by
  have hlength : ∀ e ∈ recoverTable, e.2.length = 65 := by decide +kernel
  have hK : ∀ prehash rs parity point, k256.recover prehash rs parity = some point → point.length = 65 := by
    intro prehash rs parity point h
    obtain ⟨e, he, rfl⟩ := map_eq_some_iff.mp h
    exact hlength e (mem_of_find?_eq_some he)
  obtain ⟨r, hr, hedges⟩ := process_ok
  rw [← Indexed.process_eq hK] at hr
  obtain ⟨logs, hexact, -⟩ := (process_total_exact hK witness).2 r hr
  exact ⟨r, logs, hr, hedges, hexact⟩

end Trustgraphs.Lane2
