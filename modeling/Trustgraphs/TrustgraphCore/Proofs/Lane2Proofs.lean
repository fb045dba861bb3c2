import Trustgraphs.TrustgraphCore.Lane2

/-!
# Lane 2 leaves the prover no choice

The anchor accumulator pins the anchors, every anchor pins the payload of its node, and nothing else
of the witness reaches the edges.
-/

namespace Trustgraphs.Lane2

open EasOffchain Outcome List

variable {H : Hashes} {K : K256}

theorem fail_ne_ok {α : Type} {e : Lane2Error} {a : α} : (fail e : Lane α) ≠ .ok a := by simp [fail]

theorem ofPayload_eq_ok {α : Type} {x : Except PayloadError α} {a : α} : ofPayload x = .ok a ↔ x = .ok a := by
  cases x with
  | ok b => simp [ofPayload]
  | error e => simp [ofPayload, fail]

def anchorAcc (H : Hashes) (anchors : List AnchorRecord) : B256 := (anchors.map (leafOf H)).foldl (fold H) 0

def leafPreimageOf (a : AnchorRecord) : Bytes :=
  anchorPreimage a.nodeId a.envelopeKind a.head a.count a.dataCommitment a.blockTimestamp

def anchorsHashed (H : Hashes) (anchors : List AnchorRecord) : List Bytes :=
  anchors.map leafPreimageOf ++
    (HashChain.steps (fold H) 0 (anchors.map (leafOf H))).map fun p => foldPreimage p.1 p.2

theorem leafPreimageOf_injective {a b : AnchorRecord} (h : leafPreimageOf a = leafPreimageOf b) : a = b := by
  obtain ⟨hn, hk, hh, hc, hd, ht⟩ := anchorPreimage_inj h
  cases a
  cases b
  simp_all

variable {S : List Bytes} {p : Params}

theorem anchorAcc_injective (hS : CollisionFree H.keccak256 S)
    {xs ys : List AnchorRecord} (hx : ∀ s ∈ anchorsHashed H xs, s ∈ S)
    (hy : ∀ s ∈ anchorsHashed H ys, s ∈ S) (e : anchorAcc H xs = anchorAcc H ys) : xs = ys := by
  have hsteps : ∀ p ∈ HashChain.steps (fold H) 0 (xs.map (leafOf H)) ++
      HashChain.steps (fold H) 0 (ys.map (leafOf H)), foldPreimage p.1 p.2 ∈ S := by
    intro p hp
    rcases mem_append.mp hp with hp | hp
    · exact hx _ (mem_append_right _ (mem_map_of_mem hp))
    · exact hy _ (mem_append_right _ (mem_map_of_mem hp))
  have hleaves := HashChain.foldl_injective _ _ (fold_injective hS _ hsteps) e
  refine HashChain.eq_of_map_eq (fun a ha b hb hab => ?_) hleaves
  have hmem : ∀ c, c ∈ xs ∨ c ∈ ys → leafPreimageOf c ∈ S := by
    rintro c (hc | hc)
    · exact hx _ (mem_append_left _ (mem_map_of_mem hc))
    · exact hy _ (mem_append_left _ (mem_map_of_mem hc))
  exact leafPreimageOf_injective (hS.inj _ (hmem a ha) _ (hmem b hb) hab)

theorem foldlM_foldAnchor {anchors : List (AnchorRecord × Nat)} {st r : B256 × PerNode}
    (h : anchors.foldlM (foldAnchor H) st = .ok r) :
    r.1 = (anchors.map fun a => leafOf H a.1).foldl (fold H) st.1 := by
  induction anchors generalizing st with
  | nil =>
    obtain rfl : st = r := ok_inj h
    rfl
  | cons a anchors ih =>
    rw [foldlM_cons] at h
    obtain ⟨st', hst', h⟩ := of_bind h
    have he : st' = _ := (ok_inj (of_guard hst').2).symm
    rw [ih h, he]
    rfl

theorem verify_eq_ok {bytes : Bytes} {context : VerificationContext} {payload : PayloadV1}
    (h : verify H K bytes context = .ok payload) :
    H.sha256 bytes = context.anchor.dataCommitment ∧ decode H K bytes context.expectedSchema = .ok payload := by
  obtain ⟨hc, h⟩ := of_guard h
  obtain ⟨pl, hd, h⟩ := of_bind h
  have hpl : pl = payload := by
    obtain ⟨-, h⟩ := of_guard h
    obtain ⟨-, h⟩ := of_guard h
    obtain ⟨-, h⟩ := of_guard h
    obtain ⟨-, h⟩ := of_guard h
    obtain ⟨-, h⟩ := of_guard h
    obtain ⟨signer, -, h⟩ := of_bind h
    obtain ⟨-, h⟩ := of_guard h
    obtain ⟨u, -, h⟩ := of_bind h
    exact ok_inj h
  exact ⟨not_not.mp hc, hpl ▸ hd⟩

/-- The states of two runs over the nodes: the same mutations so far, and payloads among the bytes
that are hashed. -/
structure SameNodes (S : List Bytes) (st st' : NodeScan) : Prop where
  mutations : st.mutations = st'.mutations
  left : ∀ (k : B256) v, st.payloads[k]? = some v → v.payload ∈ S
  right : ∀ (k : B256) v, st'.payloads[k]? = some v → v.payload ∈ S

theorem processNode_related (hS : CollisionFree H.sha256 S)
    {easDomain headDomain : B256} {auths auths' : List Envelope0AnchorAuthorization}
    {node : B256 × List (Nat × AnchorRecord)} {st st' : NodeScan} (h : SameNodes S st st') :
    Related (SameNodes S) (processNode H K p easDomain headDomain auths st node)
      (processNode H K p easDomain headDomain auths' st' node) := by
  unfold processNode
  cases hw : st.payloads[node.1]? with
  | none => exact Related.left_error
  | some w =>
    cases hw' : st'.payloads[node.1]? with
    | none => exact Related.right_error
    | some w' =>
      dsimp only
      refine Related.bind (R := fun _ _ => True) (fun _ _ _ _ => trivial) fun scan scan' _ _ _ => ?_
      cases node.2.getLast? with
      | none => exact Related.left_error
      | some latest =>
        dsimp only
        cases auths.find? fun a => a.foldIndex = UInt64.ofNat latest.1 with
        | none => exact Related.left_error
        | some auth =>
          cases auths'.find? fun a => a.foldIndex = UInt64.ofNat latest.1 with
          | none => exact Related.right_error
          | some auth' =>
            dsimp only
            -- the data commitment of the newest anchor pins the payload bytes
            have hpayload : Related Eq
                (ofPayload (verify H K w.payload
                  (latestContext p easDomain headDomain node.2 latest auth.headSignature)))
                (ofPayload (verify H K w'.payload
                  (latestContext p easDomain headDomain node.2 latest auth'.headSignature))) := by
              intro pl pl' hpl hpl'
              obtain ⟨hc, hd⟩ := verify_eq_ok (ofPayload_eq_ok.mp hpl)
              obtain ⟨hc', hd'⟩ := verify_eq_ok (ofPayload_eq_ok.mp hpl')
              have hbytes := hS.inj _ (h.left _ _ hw) _ (h.right _ _ hw') (hc.trans hc'.symm)
              rw [hbytes] at hd
              exact ok_inj (hd.symm.trans hd')
            refine Related.bind hpayload fun pl pl' _ _ hpl => ?_
            subst hpl
            refine Related.ite_error fun _ _ => ?_
            refine Related.bind (Related.refl _) fun ms ms' _ _ hms => ?_
            subst hms
            refine Related.pure ⟨by rw [h.mutations], fun k v hv => ?_, fun k v hv => ?_⟩
            · exact h.left k v (BTreeMap.getElem?_of_erase hv)
            · exact h.right k v (BTreeMap.getElem?_of_erase hv)

theorem foldlM_addPayload {l : List Envelope0PayloadWitness}
    {m m' : BTreeMap B256 Envelope0PayloadWitness} {P : Envelope0PayloadWitness → Prop}
    (h : l.foldlM addPayload m = .ok m') (hm : ∀ (k : B256) v, m[k]? = some v → P v)
    (hl : ∀ v ∈ l, P v) : ∀ (k : B256) v, m'[k]? = some v → P v := by
  induction l generalizing m with
  | nil =>
    obtain rfl : m = m' := ok_inj h
    exact hm
  | cons v l ih =>
    rw [foldlM_cons] at h
    obtain ⟨m₁, hm₁, h⟩ := of_bind h
    have he : m.insert v.nodeId v = m₁ := ok_inj (of_guard hm₁).2
    refine ih h (fun k u hu => ?_) fun u hu => hl u (mem_cons_of_mem _ hu)
    rw [← he, BTreeMap.getElem?_insert] at hu
    by_cases hk : v.nodeId = k
    · rw [if_pos hk, Option.some_inj] at hu
      exact hu ▸ hl v (mem_cons_self ..)
    · rw [if_neg hk] at hu
      exact hm k u hu

theorem process_commits {w : Lane2Witness} {r : Lane2Result}
    (h : process H K p w = .ok r) : r.anchorAcc = anchorAcc H w.anchors ∧ r.skips = [] := by
  unfold process at h
  split at h
  · exact absurd h fail_ne_ok
  · obtain ⟨-, h⟩ := of_guard h
    obtain ⟨⟨acc, perNode⟩, hacc, h⟩ := of_bind h
    obtain ⟨payloads, -, h⟩ := of_bind h
    obtain ⟨authorizations, -, h⟩ := of_bind h
    by_cases he : w.anchors.isEmpty
    · rw [if_pos he] at h
      obtain ⟨-, h⟩ := of_guard h
      obtain ⟨-, h⟩ := of_guard h
      obtain rfl := ok_inj h
      rw [List.isEmpty_iff.mp he]
      exact ⟨rfl, rfl⟩
    · rw [if_neg he] at h
      obtain ⟨st, -, h⟩ := of_bind h
      obtain ⟨-, h⟩ := of_guard h
      obtain ⟨-, h⟩ := of_guard h
      obtain rfl := ok_inj h
      refine ⟨(foldlM_foldAnchor hacc).trans ?_, rfl⟩
      have hleaves : (w.anchors.zipIdx.map fun a => leafOf H a.1) = w.anchors.map (leafOf H) := by
        show w.anchors.zipIdx.map (leafOf H ∘ Prod.fst) = _
        rw [← map_map, zipIdx_map_fst]
      rw [hleaves]
      rfl
  · exact absurd h fail_ne_ok

def payloadsHashed (w : Lane2Witness) : List Bytes := w.payloads.map Envelope0PayloadWitness.payload

theorem process_related (hS : CollisionFree H.sha256 S)
    {w w' : Lane2Witness} (hw : ∀ s ∈ payloadsHashed w, s ∈ S) (hw' : ∀ s ∈ payloadsHashed w', s ∈ S)
    (hanchors : w.anchors = w'.anchors) :
    Related (fun r r' => r.edges = r'.edges) (process H K p w) (process H K p w') := by
  unfold process
  rw [← hanchors]
  cases p.envelope0DomainSeparators with
  | nil => exact Related.left_error
  | cons easDomain l =>
    cases l with
    | nil => exact Related.left_error
    | cons headDomain l =>
      cases l with
      | cons => exact Related.left_error
      | nil =>
        dsimp only
        refine Related.ite_error fun _ _ => ?_
        refine Related.bind (Related.refl _) fun acc acc' _ _ hacc => ?_
        subst hacc
        obtain ⟨acc, perNode⟩ := acc
        refine Related.bind (R := fun m m' => (∀ (k : B256) v, m[k]? = some v → v.payload ∈ S) ∧
          ∀ (k : B256) v, m'[k]? = some v → v.payload ∈ S) (fun m m' hm hm' =>
            ⟨foldlM_addPayload hm (by simp) fun v hv => hw _ (mem_map_of_mem hv),
              foldlM_addPayload hm' (by simp) fun v hv => hw' _ (mem_map_of_mem hv)⟩)
          fun payloads payloads' _ _ hpayloads => ?_
        refine Related.bind (R := fun _ _ => True) (fun _ _ _ _ => trivial) fun auths auths' _ _ _ => ?_
        by_cases he : w.anchors.isEmpty
        · rw [if_pos he, if_pos he]
          exact Related.ite_error fun _ _ => Related.ite_error fun _ _ => Related.pure rfl
        · rw [if_neg he, if_neg he]
          refine Related.bind (Related.foldlM (R := SameNodes S)
            (fun node _ st st' hst => processNode_related hS hst)
            ⟨rfl, hpayloads.1, hpayloads.2⟩) fun st st' _ _ hst => ?_
          exact Related.ite_error fun _ _ => Related.ite_error fun _ _ => Related.pure (by
            rw [hst.mutations])

end Trustgraphs.Lane2

/-!
## The anchors and the authorizations of a witness

The first loops of the lane group the anchors by node and index the authorizations. The group of a node
is exactly its anchors with their positions, in fold order (`foldlM_foldAnchor_groups`).
-/

namespace Trustgraphs.Lane2

open EasOffchain Outcome List

variable {H : Hashes} {K : K256} {p : Params}

def groupOf (anchors : List AnchorRecord) (nodeId : B256) : List (ℕ × AnchorRecord) :=
  (anchors.zipIdx.filter fun a => a.1.nodeId = nodeId).map Prod.swap

theorem groupOf_append (anchors : List AnchorRecord) (a : AnchorRecord) (n : B256) :
    groupOf (anchors ++ [a]) n =
      if a.nodeId = n then groupOf anchors n ++ [(anchors.length, a)] else groupOf anchors n := by
  unfold groupOf
  rw [zipIdx_append, zipIdx_singleton, Nat.zero_add, filter_append, filter_singleton]
  by_cases h : a.nodeId = n
  · rw [if_pos h]
    simp [h]
  · rw [if_neg h]
    simp [h]

variable {anchors : List AnchorRecord}

theorem mem_groupOf {n : B256} {a : ℕ × AnchorRecord} :
    a ∈ groupOf anchors n ↔ anchors[a.1]? = some a.2 ∧ a.2.nodeId = n := by
  unfold groupOf
  rw [mem_map]
  constructor
  · rintro ⟨b, hb, rfl⟩
    obtain ⟨hmem, hn⟩ := mem_filter.mp hb
    exact ⟨mem_zipIdx_iff_getElem?.mp hmem, of_decide_eq_true hn⟩
  · rintro ⟨hget, hn⟩
    exact ⟨a.swap, mem_filter.mpr ⟨mem_zipIdx_iff_getElem?.mpr hget, decide_eq_true hn⟩, rfl⟩

theorem groupOf_sorted (anchors : List AnchorRecord) (n : B256) :
    (groupOf anchors n).Pairwise fun a b => a.1 < b.1 := by
  induction anchors using List.reverseRecOn with
  | nil => exact .nil
  | append_singleton anchors a ih =>
    rw [groupOf_append]
    split_ifs
    · refine pairwise_append.mpr ⟨ih, pairwise_singleton .., fun b hb c hc => ?_⟩
      rw [mem_singleton.mp hc]
      exact (List.getElem?_eq_some_iff.mp (mem_groupOf.mp hb).1).1
    · exact ih

theorem foldlM_foldAnchor_groups {r : B256 × PerNode}
    (h : anchors.zipIdx.foldlM (foldAnchor H) (0, ∅) = .ok r) (n : B256) :
    r.2[n]? = if groupOf anchors n = [] then none else some (groupOf anchors n) := by
  induction anchors using List.reverseRecOn generalizing r with
  | nil =>
    obtain rfl := ok_inj h
    simp [groupOf]
  | append_singleton anchors a ih =>
    rw [zipIdx_append, foldlM_append] at h
    obtain ⟨mid, hmid, h⟩ := of_bind h
    rw [zipIdx_singleton, Nat.zero_add, foldlM_cons] at h
    obtain ⟨last, hlast, h⟩ := of_bind h
    obtain rfl : last = r := ok_inj h
    obtain ⟨-, hlast⟩ := of_guard hlast
    obtain rfl := ok_inj hlast
    dsimp only
    rw [groupOf_append, BTreeMap.getElem?_insert]
    by_cases hn : a.nodeId = n
    · have hgroup : mid.2.getD a.nodeId [] = groupOf anchors n := by
        rw [Std.ExtTreeMap.getD_eq_getD_getElem?, hn, ih hmid]
        by_cases hnil : groupOf anchors n = []
        · rw [if_pos hnil, hnil]
          rfl
        · rw [if_neg hnil]
          rfl
      rw [if_pos hn, if_pos hn, if_neg (by simp), hgroup]
    · rw [if_neg hn, if_neg hn]
      exact ih hmid

theorem toList_perNode {r : B256 × PerNode} (h : anchors.zipIdx.foldlM (foldAnchor H) (0, ∅) = .ok r) :
    (∀ node ∈ r.2.toList, node.2 = groupOf anchors node.1 ∧ node.2 ≠ []) ∧ (r.2.toList.map Prod.fst).Nodup ∧
      ∀ n, n ∈ r.2.toList.map Prod.fst ↔ n ∈ anchors.map AnchorRecord.nodeId := by
  have hgroups := foldlM_foldAnchor_groups h
  have hnode : ∀ node ∈ r.2.toList, node.2 = groupOf anchors node.1 ∧ node.2 ≠ [] := by
    intro node hmem
    have hget := (hgroups node.1).symm.trans (BTreeMap.mem_toList.mp hmem)
    by_cases hnil : groupOf anchors node.1 = []
    · rw [if_pos hnil] at hget
      exact absurd hget (by simp)
    · rw [if_neg hnil, Option.some_inj] at hget
      exact ⟨hget.symm, hget ▸ hnil⟩
  refine ⟨hnode, ?_, fun n => ?_⟩
  · rw [Std.ExtTreeMap.map_fst_toList_eq_keys]
    exact BTreeMap.keys_nodup r.2
  · rw [mem_map, mem_map]
    constructor
    · rintro ⟨node, hmem, rfl⟩
      obtain ⟨hgroup, hne⟩ := hnode node hmem
      obtain ⟨a, ha⟩ := exists_mem_of_ne_nil _ hne
      rw [hgroup] at ha
      obtain ⟨hget, hn⟩ := mem_groupOf.mp ha
      exact ⟨a.2, mem_of_getElem? hget, hn⟩
    · rintro ⟨a, ha, hn⟩
      obtain ⟨i, hi, hget⟩ := mem_iff_getElem.mp ha
      have hmem : (i, a) ∈ groupOf anchors n :=
        mem_groupOf.mpr ⟨List.getElem?_eq_some_iff.mpr ⟨hi, hget⟩, hn⟩
      refine ⟨(n, groupOf anchors n), BTreeMap.mem_toList.mpr ?_, rfl⟩
      rw [hgroups, if_neg (ne_nil_of_mem hmem)]

theorem exists_foldlM_foldAnchor {anchors : List (AnchorRecord × ℕ)}
    (h : ∀ a ∈ anchors, a.1.envelopeKind = ENVELOPE_EAS_OFFCHAIN) (st : B256 × PerNode) :
    ∃ r, anchors.foldlM (foldAnchor H) st = .ok r := by
  induction anchors generalizing st with
  | nil => exact ⟨st, rfl⟩
  | cons a anchors ih =>
    obtain ⟨ha, hanchors⟩ := forall_mem_cons.mp h
    obtain ⟨r, hr⟩ := ih hanchors (fold H st.1 (leafOf H a.1),
      st.2.insert a.1.nodeId (st.2.getD a.1.nodeId [] ++ [(a.2, a.1)]))
    refine ⟨r, ?_⟩
    rw [foldlM_cons]
    exact bind_eq_ok.mpr ⟨_, ite_error_eq_ok.mpr ⟨not_not.mpr ha, rfl⟩, hr⟩

theorem exists_foldlM_insertNew {K V : Type} [LinearOrder K] (key : V → K) (e : Lane2Error) {l : List V}
    (h : (l.map key).Nodup) :
    ∃ m : BTreeMap K V, l.foldlM (fun (m : BTreeMap K V) a =>
        (if m.contains (key a) then fail e else .ok (m.insert (key a) a) : Lane (BTreeMap K V))) ∅ = .ok m ∧
      ∀ k : K, m[k]? = l.find? fun a => key a = k := by
  induction l using List.reverseRecOn with
  | nil => exact ⟨∅, rfl, by simp⟩
  | append_singleton l a ih =>
    rw [map_append, nodup_append] at h
    obtain ⟨hl, -, hdisjoint⟩ := h
    obtain ⟨m, hm, hfind⟩ := ih hl
    have hfresh : l.find? (fun b => decide (key b = key a)) = none := by
      refine find?_eq_none.mpr fun b hb heq => ?_
      exact hdisjoint _ (mem_map_of_mem hb) _ (by simp) (of_decide_eq_true heq)
    have hcontains : m.contains (key a) = false := by
      rw [BTreeMap.getElem?_of_contains, hfind, hfresh]
      rfl
    refine ⟨m.insert (key a) a, ?_, fun k => ?_⟩
    · rw [foldlM_append]
      refine bind_eq_ok.mpr ⟨m, hm, ?_⟩
      rw [foldlM_cons]
      refine bind_eq_ok.mpr ⟨_, ?_, rfl⟩
      rw [hcontains]
      rfl
    · rw [BTreeMap.getElem?_insert, find?_append, ← hfind]
      by_cases hk : key a = k
      · rw [if_pos hk, ← hk, hfind, hfresh]
        simp
      · rw [if_neg hk, find?_cons_of_neg (by simpa using hk), find?_nil, Option.or_none]

theorem exists_foldlM_addAuthorization {l : List Envelope0AnchorAuthorization}
    (h : (l.map fun a => a.foldIndex.toNat).Nodup) :
    ∃ m, l.foldlM addAuthorization ∅ = .ok m ∧ ∀ j : ℕ, m[j]? = l.find? fun a => a.foldIndex.toNat = j :=
  exists_foldlM_insertNew (fun a : Envelope0AnchorAuthorization => a.foldIndex.toNat) _ h

theorem exists_foldlM_addPayload {l : List Envelope0PayloadWitness}
    (h : (l.map Envelope0PayloadWitness.nodeId).Nodup) :
    ∃ m, l.foldlM addPayload ∅ = .ok m ∧ ∀ n : B256, m[n]? = l.find? fun v => v.nodeId = n :=
  exists_foldlM_insertNew Envelope0PayloadWitness.nodeId _ h

theorem checkAnchors_ascending {headDomain nodeId : B256} {anchors : List (ℕ × AnchorRecord)}
    {st st' : AnchorScan} (h : anchors.foldlM (checkAnchor H K p headDomain nodeId) st = .ok st') :
    anchors.Pairwise (fun a b => a.2.count < b.2.count) ∧
      ∀ a ∈ anchors, st.previousCount < a.2.count ∧ a.2.count.toNat ≤ MAX_ENTRIES_PER_NODE := by
  induction anchors generalizing st with
  | nil => exact ⟨.nil, by simp⟩
  | cons a anchors ih =>
    rw [foldlM_cons] at h
    obtain ⟨mid, hmid, h⟩ := of_bind h
    obtain ⟨hsorted, hcounts⟩ := ih h
    unfold checkAnchor at hmid
    obtain ⟨hstale, hmid⟩ := of_guard hmid
    obtain ⟨hsame, hmid⟩ := of_guard hmid
    obtain ⟨hlimit, hmid⟩ := of_guard hmid
    have hlt : st.previousCount < a.2.count := by
      have hne : a.2.count.toNat ≠ st.previousCount.toNat := fun heq => hsame (UInt64.toNat_inj.mp heq)
      have hle := UInt64.le_iff_toNat_le.mp (UInt64.not_lt.mp hstale)
      rw [UInt64.lt_iff_toNat_lt]
      omega
    cases hauth : st.authorizations[a.1]? with
    | none =>
      rw [hauth] at hmid
      exact absurd hmid fail_ne_ok
    | some auth =>
      rw [hauth] at hmid
      obtain ⟨signer, -, hmid⟩ := of_bind hmid
      obtain ⟨-, hmid⟩ := of_guard hmid
      obtain rfl := ok_inj hmid
      refine ⟨pairwise_cons.mpr ⟨fun b hb => (hcounts b hb).1, hsorted⟩, fun b hb => ?_⟩
      rcases mem_cons.mp hb with rfl | hb
      · exact ⟨hlt, not_lt.mp hlimit⟩
      · exact ⟨UInt64.lt_trans hlt (hcounts b hb).1, (hcounts b hb).2⟩

end Trustgraphs.Lane2
