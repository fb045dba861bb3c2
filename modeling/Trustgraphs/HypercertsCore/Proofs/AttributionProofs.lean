import Trustgraphs.HypercertsCore.Proofs.SemanticsProofs
import Trustgraphs.Lib.Tally

/-!
# Proofs: attribution

The weight of the edge from an artifact to a contributor in terms of the records of its author and
of the contributor alone.
-/

namespace Trustgraphs.Hypercerts

open Text Outcome Option List
open Atproto (didNodeId)

theorem sum_product_le (s : ℕ) (fs : List U256) (l : List ℕ) :
    (l.map fun x => product s x fs).sum ≤ product s l.sum fs := by
  induction fs generalizing l with
  | nil => simp [product_nil]
  | cons f fs ih =>
    simp only [product_cons]
    have hwhole : (l.map fun x => x * f.toNat / s).sum ≤ l.sum * f.toNat / s := by
      have h := Rounding.sum_floor_le (l.map fun x => x * f.toNat) s
      rwa [List.map_map, sum_map_mul_right, List.map_id'] at h
    have hparts := ih (l.map fun x => x * f.toNat / s)
    rw [List.map_map] at hparts
    exact hparts.trans (product_mono s hwhole fs)

theorem sum_le_of_covered {α κ : Type*} [DecidableEq κ] {f : α → κ} {v : α → ℕ} {keys : List (κ × ℕ)}
    {l : List α} (hk : (keys.map Prod.fst).Nodup) (h : ∀ x ∈ keys, ∃ a ∈ l, f a = x.1 ∧ x.2 ≤ v a) :
    (keys.map Prod.snd).sum ≤ (l.map v).sum := by
  induction keys generalizing l with
  | nil => exact Nat.zero_le _
  | cons x keys ih =>
    obtain ⟨a, ha, hfa, hva⟩ := h x mem_cons_self
    rw [map_cons] at hk
    obtain ⟨hx, hk⟩ := nodup_cons.mp hk
    obtain ⟨l₁, l₂, rfl⟩ := append_of_mem ha
    have hrest : (keys.map Prod.snd).sum ≤ ((l₁ ++ l₂).map v).sum := by
      refine ih hk fun y hy => ?_
      obtain ⟨b, hb, hfb, hvb⟩ := h y (mem_cons_of_mem _ hy)
      have hne : b ≠ a := by
        rintro rfl
        exact hx (List.mem_map.mpr ⟨y, hy, hfb.symm.trans hfa⟩)
      refine ⟨b, ?_, hfb, hvb⟩
      rcases mem_append.mp hb with hb | hb
      · exact mem_append_left _ hb
      · exact mem_append_right _ ((mem_cons.mp hb).resolve_left hne)
    simp only [map_append, map_cons, sum_append, sum_cons] at hrest ⊢
    omega

def recordsOf (D : Dagcbor) (repos : List RepoRecords) (did : Bytes) : List Decoded :=
  (decodeAll D repos).filter fun d => d.did = did

section

variable {D : Dagcbor} {repos repos' : List RepoRecords}

variable {did : Bytes} {d : Decoded}

theorem mem_recordsOf : d ∈ recordsOf D repos did ↔ d ∈ decodeAll D repos ∧ d.did = did := by
  simp [recordsOf]

theorem decoded_did {r : RepoRecords} (h : d ∈ r.records.filterMap (decodeRecord D r)) : d.did = r.did := by
  obtain ⟨e, -, he⟩ := mem_filterMap.mp h
  exact (decodeRecord_eq_some he).1

theorem recordsOf_append (l m : List RepoRecords) (did : Bytes) :
    recordsOf D (l ++ m) did = recordsOf D l did ++ recordsOf D m did := by
  simp [recordsOf, decodeAll]

theorem recordsOf_eq_nil (h : ∀ r ∈ repos, r.did ≠ did) : recordsOf D repos did = [] := by
  refine eq_nil_iff_forall_not_mem.mpr fun d hd => ?_
  obtain ⟨hd, hdid⟩ := mem_recordsOf.mp hd
  obtain ⟨r, hr, e, -, he⟩ := mem_decodeAll.mp hd
  exact h r hr ((decodeRecord_eq_some he).1.symm.trans hdid)

theorem recordsOf_singleton (r : RepoRecords) :
    recordsOf D [r] r.did = r.records.filterMap (decodeRecord D r) := by
  have hall : ∀ d ∈ r.records.filterMap (decodeRecord D r), decide (d.did = r.did) = true :=
    fun d hd => by simpa using decoded_did hd
  rw [recordsOf, decodeAll, flatMap_singleton, filter_eq_self.mpr hall]

theorem Authenticated.recordsOf_eq (hauth : Authenticated repos) {r : RepoRecords} (hr : r ∈ repos) :
    recordsOf D repos r.did = r.records.filterMap (decodeRecord D r) := by
  obtain ⟨l, m, rfl⟩ := append_of_mem hr
  have hd := hauth.dids
  rw [map_append, map_cons, nodup_middle, nodup_cons, mem_append, not_or] at hd
  have hl : recordsOf D l r.did = [] :=
    recordsOf_eq_nil fun q hq heq => hd.1.1 (List.mem_map.mpr ⟨q, hq, heq⟩)
  have hm : recordsOf D m r.did = [] :=
    recordsOf_eq_nil fun q hq heq => hd.1.2 (List.mem_map.mpr ⟨q, hq, heq⟩)
  have hcons : r :: m = [r] ++ m := rfl
  rw [recordsOf_append, hcons, recordsOf_append, hl, hm, recordsOf_singleton, nil_append, append_nil]

theorem recordsOf_congr (hauth : Authenticated repos) (hauth' : Authenticated repos')
    (h : ∀ r, r.did = did → (r ∈ repos ↔ r ∈ repos')) : recordsOf D repos did = recordsOf D repos' did := by
  by_cases hex : ∃ r ∈ repos, r.did = did
  · obtain ⟨r, hr, rfl⟩ := hex
    rw [hauth.recordsOf_eq hr, hauth'.recordsOf_eq ((h r rfl).mp hr)]
  · rw [recordsOf_eq_nil fun r hr heq => hex ⟨r, hr, heq⟩,
      recordsOf_eq_nil fun r hr heq => hex ⟨r, (h r heq).mpr hr, heq⟩]

theorem keys_sublist (r : RepoRecords) (l : List (Bytes × Bytes)) :
    List.Sublist ((l.filterMap (decodeRecord D r)).map fun d => d.coll ++ 47 :: d.rkey) (l.map Prod.fst) := by
  induction l with
  | nil => exact nil_sublist _
  | cons e l ih =>
    cases he : decodeRecord D r e with
    | none =>
      rw [filterMap_cons_none he]
      exact ih.cons _
    | some d =>
      rw [filterMap_cons_some he, map_cons, map_cons, (decodeRecord_eq_some he).2.2.1]
      exact ih.cons_cons _

theorem Authenticated.nodup_recordsOf (hauth : Authenticated repos) (did : Bytes) :
    (recordsOf D repos did).Nodup := by
  by_cases hex : ∃ r ∈ repos, r.did = did
  · obtain ⟨r, hr, rfl⟩ := hex
    rw [hauth.recordsOf_eq hr]
    exact List.Nodup.of_map _ ((hauth.keys r hr).sublist (keys_sublist r r.records))
  · rw [recordsOf_eq_nil fun r hr heq => hex ⟨r, hr, heq⟩]
    exact nodup_nil

theorem Authenticated.key_ne (hauth : Authenticated repos) {l m : List Decoded}
    (h : decodeAll D repos = l ++ d :: m) {d' : Decoded} (hd' : d' ∈ l ∨ d' ∈ m) :
    ¬ (d'.did = d.did ∧ d'.coll = d.coll ∧ d'.rkey = d.rkey) := by
  rintro ⟨hdid, hcoll, hrkey⟩
  have hmem : d' ∈ decodeAll D repos := by
    rw [h]
    rcases hd' with hd' | hd'
    · exact mem_append_left _ hd'
    · exact mem_append_right _ (mem_cons_of_mem _ hd')
  have hd : d ∈ decodeAll D repos := by
    rw [h]
    exact mem_append_right _ mem_cons_self
  obtain rfl := hauth.decoded_unique hmem hd hdid hcoll hrkey
  have hnodup := hauth.nodup_recordsOf (D := D) d'.did
  rw [recordsOf, h, filter_append, filter_cons_of_pos (by simp), nodup_middle, nodup_cons] at hnodup
  refine hnodup.1 ?_
  rcases hd' with hd' | hd'
  · exact mem_append_left _ (mem_filter.mpr ⟨hd', by simp⟩)
  · exact mem_append_right _ (mem_filter.mpr ⟨hd', by simp⟩)

end

def activityAt (coll rkey : Bytes) (l : List Decoded) : Option (List Contributor) :=
  (l.find? fun d => d.coll = coll ∧ d.rkey = rkey).bind fun d =>
    match d.record with
    | .activity contributors _ => some contributors
    | _ => none

def classOf (H : Hashes) (K : K256) (P : Primitives) (p : EdgeParams) (l : List Decoded) : U256 :=
  if l.any (binds H K P) then scale else p.pdsAttestedWeightFp

/-- The weight of one entry among others of a total weight. -/
def entryWeight (p : EdgeParams) (gate cls total : U256) (e : B256 × Bytes × U256) : ℕ :=
  product scale.toNat (e.2.2.toNat * scale.toNat / total.toNat) [p.wAttribFp, gate, cls]

def attributionWeight (p : EdgeParams) (gate cls : U256) (entries : List (B256 × Bytes × U256))
    (did : Bytes) : ℕ :=
  match entries.find? fun e => e.2.1 = did with
  | some e => entryWeight p gate cls (entries.map (·.2.2)).sum e
  | none => 0

/-- The attribution from an artifact of an author to a contributor, of the records of the two. -/
def attribution (H : Hashes) (K : K256) (P : Primitives) (p : EdgeParams)
    (author coll rkey contributor : Bytes) (ofAuthor ofContributor : List Decoded) : ℕ :=
  match activityAt coll rkey ofAuthor with
  | some contributors =>
    attributionWeight p (gateOf p (ackOf contributor (atUri author coll rkey) ofContributor))
      (classOf H K P p ofAuthor) (contributors.filterMap (counted H author)) contributor
  | none => 0

def edgeWeight (g : DerivedGraph) (a b : B256) : U256 := (BTreeMap.cell g.outgoing (a, b)).getD 0

section

variable {H : Hashes} {D : Dagcbor} {K : K256} {P : Primitives} {repos : List RepoRecords}
  {targets : BTreeMap Bytes Bytes} {p : EdgeParams} {g : DerivedGraph}
  {found : List (Decoded × Found)}

theorem ackOf_recordsOf (did uri : Bytes) :
    ackOf did uri (recordsOf D repos did) = ackOf did uri (decodeAll D repos) := by
  simp [ackOf, recordsOf]

variable {d : Decoded} {author coll rkey createdAt did : Bytes}

theorem authClass_recordsOf (hd : d ∈ decodeAll D repos)
    (hfree : CollisionFree H.keccak256 (nodeNames D repos)) :
    (authorOf H p (indexAll H K P (decodeAll D repos)) d.did).authClass =
      classOf H K P p (recordsOf D repos d.did) := by
  have hiff : (indexAll H K P (decodeAll D repos)).bindings.contains (didNodeId H d.did) = true ↔
      (recordsOf D repos d.did).any (binds H K P) = true := by
    rw [Std.ExtTreeMap.contains_iff_mem, mem_bindings_indexAll, List.any_eq_true]
    constructor
    · rintro ⟨d', hd', hnode, hb⟩
      have hdid := hfree.inj _ (recordNames_subset hd' (did_mem_recordNames d')) _
        (recordNames_subset hd (did_mem_recordNames d)) hnode
      exact ⟨d', mem_recordsOf.mpr ⟨hd', hdid⟩, hb⟩
    · rintro ⟨d', hd', hb⟩
      obtain ⟨hmem, hdid⟩ := mem_recordsOf.mp hd'
      exact ⟨d', hmem, congrArg _ hdid, hb⟩
  unfold authorOf classOf
  dsimp only
  by_cases hb : (recordsOf D repos d.did).any (binds H K P) = true
  · rw [if_pos hb, if_pos (hiff.mpr hb)]
  · rw [if_neg hb, if_neg fun h => hb (hiff.mp h)]

theorem source_artifact (hauth : Authenticated repos) (ha : 47 ∉ author) (hcoll : 47 ∉ coll)
    (hfree : CollisionFree H.keccak256 (atUri author coll rkey :: nodeNames D repos))
      {c : Candidate} (hd : d ∈ decodeAll D repos) {f : Found}
    (hf : recordEdges H D targets p (indexAll H K P (decodeAll D repos)) d = .ok f) (hc : c ∈ f.1)
    (hsource : c.source = artifactNodeId H author coll rkey) :
    d.did = author ∧ d.coll = coll ∧ d.rkey = rkey ∧ ∃ contributors createdAt e,
      d.record = .activity contributors createdAt ∧ e ∈ contributors.filterMap (counted H author) ∧
      attributionEdge H p (indexAll H K P (decodeAll D repos))
        (authorOf H p (indexAll H K P (decodeAll D repos)) author) coll rkey createdAt
        ((contributors.filterMap (counted H author)).map (·.2.2)).sum e = .ok c := by
  have hname : ∀ {s : Bytes}, s ∈ recordNames d → s ∈ atUri author coll rkey :: nodeNames D repos := fun hs =>
    mem_cons_of_mem _ (recordNames_subset hd hs)
  -- an actor is not an artifact
  have hactor : ∀ {n : B256}, n = didNodeId H d.did → n = artifactNodeId H author coll rkey → False :=
    fun hn hn' => ne_atUri (hauth.decoded_did_prefix hd)
      (hfree.inj _ (hname (did_mem_recordNames d)) _ mem_cons_self (hn.symm.trans hn'))
  have hgives := recordEdges_gives hf hc
  cases hgives with
  | follow => exact (hactor rfl hsource).elim
  | awardDid => exact (hactor rfl hsource).elim
  | awardRef => exact (hactor rfl hsource).elim
  | evaluation => exact (hactor rfl hsource).elim
  | @attribution contributors createdAt ent _ hrec hent hce =>
    have hnode : artifactNodeId H d.did d.coll d.rkey = artifactNodeId H author coll rkey := by
      obtain ⟨-, _, -, rfl⟩ := attributionEdge_eq_ok hce
      exact hsource
    obtain ⟨rfl, rfl, rfl⟩ := atUri_inj (hauth.decoded_did_slash hd) ha (Authenticated.decoded_coll hd) hcoll
      (hfree.inj _ (hname (uri_mem_recordNames d)) _ mem_cons_self hnode)
    rw [parsed_eq] at hent
    rw [total_eq] at hce
    exact ⟨rfl, rfl, rfl, contributors, createdAt, ent, hrec, hent, hce⟩

theorem writeOf_attribution {author : Author} {total : U256}
    {e : B256 × Bytes × U256} {c : Candidate} {ix : Index}
    (h : attributionEdge H p ix author coll rkey createdAt total e = .ok c) (n : ℕ) :
    ∃ w : U256, w.toNat = entryWeight p
        (gateOf p ix.acks[(toLex (e.2.1, atUri author.did coll rkey) : Bytes ×ₗ Bytes)]?)
        author.authClass total e ∧
      writeOf (n, c) = (toLex (artifactNodeId H author.did coll rkey, toLex (e.1, T_ATTRIB)),
        toLex (n, toLex (createdAt, e.2.1)), w) := by
  obtain ⟨-, w, hw, rfl⟩ := attributionEdge_eq_ok h
  exact ⟨w, hw, rfl⟩

/-- The last write among the edges of one activity: the first entry of the DID. -/
theorem latest_activity {author : Author} {total : U256}
    {entries : List (B256 × Bytes × U256)} {cs : List Candidate} {ix : Index} {n : ℕ}
    (hall : List.Forall₂ (fun e c => attributionEdge H p ix author coll rkey createdAt total e = .ok c)
      entries cs) (hnode : ∀ e ∈ entries, e.1 = didNodeId H did ↔ e.2.1 = did) :
    ((Latest.latest (Latest.writesTo (toLex (artifactNodeId H author.did coll rkey,
      toLex (didNodeId H did, T_ATTRIB))) (cs.map fun c => writeOf (n, c)))).map fun x => x.2.toNat).getD 0 =
      match entries.find? fun e => e.2.1 = did with
      | some e => entryWeight p (gateOf p ix.acks[(toLex (did, atUri author.did coll rkey) : Bytes ×ₗ Bytes)]?)
          author.authClass total e
      | none => 0 := by
  -- the edges of entries with another DID are no writes to the key
  have hother : ∀ {l : List (B256 × Bytes × U256)} {m : List Candidate},
      List.Forall₂ (fun e c => attributionEdge H p ix author coll rkey createdAt total e = .ok c) l m →
      (∀ e ∈ l, e ∈ entries ∧ e.2.1 ≠ did) → Latest.writesTo (toLex (artifactNodeId H author.did coll rkey,
        toLex (didNodeId H did, T_ATTRIB))) (m.map fun c => writeOf (n, c)) = [] := by
    intro l m hlm hl
    refine Latest.writesTo_eq_nil fun x hx hkey => ?_
    obtain ⟨c, hc, rfl⟩ := List.mem_map.mp hx
    obtain ⟨e, he, hec⟩ := Related.exists_of_forall₂ hlm hc
    obtain ⟨w, -, hw⟩ := writeOf_attribution hec n
    rw [hw] at hkey
    obtain ⟨-, hkey⟩ := Prod.mk.inj (toLex.injective hkey)
    obtain ⟨hnode', -⟩ := Prod.mk.inj (toLex.injective hkey)
    exact (hl e he).2 ((hnode e (hl e he).1).mp hnode')
  cases hfind : entries.find? fun e => e.2.1 = did with
  | none =>
    have hnone : ∀ e ∈ entries, e ∈ entries ∧ e.2.1 ≠ did := fun e he =>
      ⟨he, by simpa using find?_eq_none.mp hfind e he⟩
    rw [hother hall hnone]
    rfl
  | some e =>
    obtain ⟨hdid, l, l', rfl, hl⟩ := find?_eq_some_iff_append.mp hfind
    obtain ⟨k, c, k', rfl, hlk, hec, hlk'⟩ := Related.exists_append_of_forall₂ hall
    have hdid : e.2.1 = did := by simpa using hdid
    have hmem : e ∈ l ++ e :: l' := mem_append_right _ mem_cons_self
    obtain ⟨w, hweight, hw⟩ := writeOf_attribution hec n
    rw [(hnode e hmem).mpr hdid] at hw
    rw [hdid] at hweight
    have hbefore : ∀ e' ∈ l, e' ∈ l ++ e :: l' ∧ e'.2.1 ≠ did := fun e' he' =>
      ⟨mem_append_left _ he', by simpa using hl e' he'⟩
    have hhead : Latest.writesTo (toLex (artifactNodeId H author.did coll rkey,
        toLex (didNodeId H did, T_ATTRIB))) ((c :: k').map fun c => writeOf (n, c)) =
        (toLex (n, toLex (createdAt, e.2.1)), w) :: Latest.writesTo (toLex (artifactNodeId H author.did coll
          rkey, toLex (didNodeId H did, T_ATTRIB))) (k'.map fun c => writeOf (n, c)) := by
      rw [map_cons, hw]
      simp [Latest.writesTo]
    rw [map_append, Latest.writesTo_append, hother hlk hbefore, nil_append, hhead, Latest.latest_of_same_stamp]
    · exact hweight
    · intro x hx
      obtain ⟨c', hc', heq⟩ := List.mem_map.mp (Latest.mem_writesTo.mp hx)
      obtain ⟨e', he', hec'⟩ := Related.exists_of_forall₂ hlk' hc'
      obtain ⟨w', -, hw'⟩ := writeOf_attribution hec' n
      rw [hw'] at heq
      obtain ⟨hkey, rfl⟩ := Prod.mk.inj heq
      obtain ⟨-, hkey⟩ := Prod.mk.inj (toLex.injective hkey)
      obtain ⟨hnode', -⟩ := Prod.mk.inj (toLex.injective hkey)
      have hmem' : e' ∈ l ++ e :: l' := mem_append_right _ (mem_cons_of_mem _ he')
      rw [(hnode e' hmem').mp hnode', hdid]

/-- An edge of one type only has the weight of its last write. -/
theorem Derivation.edgeWeight_of_type (h : Derivation H D K P repos targets p g found) {a b : B256}
    {t : UInt8} (hone : ∀ t' w, Derivation.Given found a b t' w → t' = t) :
    edgeWeight g a b =
      ((latestOf found)[(toLex (a, toLex (b, t)) : B256 ×ₗ B256 ×ₗ UInt8)]?.map Prod.snd).getD 0 := by
  have hempty : BTreeMap.cell (∅ : Pagerank.Outgoing B256) (a, b) = none := by simp [BTreeMap.cell]
  have hentry : ∀ e ∈ (latestOf found).toList.filter (between a b),
      e.1 = toLex (a, toLex (b, t)) ∧ (latestOf found)[e.1]? = some e.2 ∧ e.2.2 ≠ 0 := by
    rintro ⟨k, x⟩ he
    obtain ⟨hmem, hbetween⟩ := mem_filter.mp he
    simp only [between, decide_eq_true_eq] at hbetween
    obtain ⟨rfl, rfl, hw⟩ := hbetween
    have hget := BTreeMap.mem_toList.mp hmem
    refine ⟨?_, hget, hw⟩
    have hlast := hget
    rw [latestOf_eq] at hlast
    have ht := hone _ _ (Derivation.given_of_mem_writesTo (t := (ofLex (ofLex k).2).2) (x := x)
      (Latest.mem_of_latest hlast))
    rw [← ht]
    rfl
  rw [edgeWeight, h.outgoing, cell_foldl_addEdge]
  dsimp only
  rw [hempty]
  cases hl : (latestOf found).toList.filter (between a b) with
  | nil =>
    cases hget : (latestOf found)[(toLex (a, toLex (b, t)) : B256 ×ₗ B256 ×ₗ UInt8)]? with
    | none => rfl
    | some x =>
      by_cases hw : x.2 = 0
      · exact hw.symm
      · have hmem : (toLex (a, toLex (b, t)), x) ∈ (latestOf found).toList.filter (between a b) :=
          mem_filter.mpr ⟨BTreeMap.mem_toList.mpr hget, by simpa [between] using hw⟩
        rw [hl] at hmem
        exact absurd hmem not_mem_nil
  | cons e l =>
    obtain ⟨hkey, hget, hw⟩ := hentry e (by rw [hl]; exact mem_cons_self)
    have hl' : l = [] := by
      refine eq_nil_iff_forall_not_mem.mpr fun e' he' => ?_
      obtain ⟨hkey', hget', -⟩ := hentry e' (by rw [hl]; exact mem_cons_of_mem _ he')
      have heq : e' = e := by
        refine Prod.ext (hkey'.trans hkey.symm) ?_
        rw [hkey'] at hget'
        rw [hkey, hget', some_inj] at hget
        exact hget
      have hnodup := (latestOf found).toList_nodup.filter (between a b)
      rw [hl] at hnodup
      exact (nodup_cons.mp hnodup).1 (heq ▸ he')
    rw [hkey] at hget
    rw [hl', hget]
    show (0 : U256) + e.2.2 = e.2.2
    exact BitVec.zero_add _

theorem candidatesOf_append (l m : List (Decoded × Found)) :
    candidatesOf (l ++ m) = candidatesOf l ++ candidatesOf m := by
  simp [candidatesOf]

theorem counted_node {contributors : List Contributor}
    {e : B256 × Bytes × U256} (he : e ∈ contributors.filterMap (counted H author)) :
    e.1 = didNodeId H e.2.1 ∧ e.2.1 ∈ contributors.map Contributor.identity := by
  obtain ⟨c, hc, hcounted⟩ := mem_filterMap.mp he
  obtain ⟨hnode, hident, -⟩ := counted_eq_some hcounted
  rw [hident] at hnode ⊢
  exact ⟨hnode, List.mem_map.mpr ⟨c, hc, rfl⟩⟩

theorem identity_mem_names (hd : d ∈ decodeAll D repos) {contributors : List Contributor}
    (hrec : d.record = .activity contributors createdAt) {s : Bytes}
    (hs : s ∈ contributors.map Contributor.identity) : s ∈ nodeNames D repos := by
  refine recordNames_subset hd ?_
  simp only [recordNames, hrec, mem_cons]
  exact Or.inr (Or.inr hs)

theorem Authenticated.find_recordsOf (hauth : Authenticated repos) (hd : d ∈ decodeAll D repos) :
    (recordsOf D repos d.did).find? (fun d' => d'.coll = d.coll ∧ d'.rkey = d.rkey) = some d := by
  cases hfind : (recordsOf D repos d.did).find? fun d' => d'.coll = d.coll ∧ d'.rkey = d.rkey with
  | none =>
    have hnot := find?_eq_none.mp hfind d (mem_recordsOf.mpr ⟨hd, rfl⟩)
    exact absurd hnot (by simp)
  | some d' =>
    obtain ⟨hmem, hdid⟩ := mem_recordsOf.mp (mem_of_find?_eq_some hfind)
    have hkey := find?_some hfind
    simp only [Bool.decide_and, Bool.and_eq_true, decide_eq_true_eq] at hkey
    rw [hauth.decoded_unique hmem hd hdid hkey.1 hkey.2]

theorem product_zero (s : ℕ) (fs : List U256) : product s 0 fs = 0 := by
  induction fs with
  | nil => rfl
  | cons f fs ih => rw [product_cons, Nat.zero_mul, Nat.zero_div, ih]

theorem attributionWeight_of_zero {gate cls : U256} {entries : List (B256 × Bytes × U256)}
    (h : (entries.map (·.2.2)).sum = 0) :
    attributionWeight p gate cls entries did = 0 := by
  unfold attributionWeight
  split
  · have hzero : (0 : U256).toNat = 0 := rfl
    rw [entryWeight, h, hzero, Nat.div_zero, product_zero]
  · rfl

/-- The weight of an attribution depends on the records of the author and of the contributor. -/
theorem edgeWeight_eq (hauth : Authenticated repos) (h : derive H D K P repos targets p = .ok g)
    (ha : 47 ∉ author) (hcoll : 47 ∉ coll)
    (hfree : CollisionFree H.keccak256 (did :: atUri author coll rkey :: nodeNames D repos)) :
    (edgeWeight g (artifactNodeId H author coll rkey) (didNodeId H did)).toNat =
      attribution H K P p author coll rkey did (recordsOf D repos author) (recordsOf D repos did) := by
  obtain ⟨found, hder⟩ := derive_eq_ok h
  have hfree' : CollisionFree H.keccak256 (atUri author coll rkey :: nodeNames D repos) :=
    hfree.mono fun s hs => mem_cons_of_mem _ hs
  have hone : ∀ t w, Derivation.Given found (artifactNodeId H author coll rkey) (didNodeId H did) t w →
      t = T_ATTRIB := by
    rintro t w ⟨c, hc, hsource, -, rfl, -⟩
    obtain ⟨d, hd, f, hf, -, hcf⟩ := hder.mem_candidates.mp hc
    obtain ⟨-, -, -, _, _, _, -, -, hce⟩ := source_artifact hauth ha hcoll hfree' hd hf hcf hsource
    obtain ⟨-, _, -, hceq⟩ := attributionEdge_eq_ok hce
    rw [hceq]
  have hmap : ∀ o : Option (WriteOrder × U256),
      ((o.map Prod.snd).getD 0).toNat = (o.map fun x => x.2.toNat).getD 0 := by
    intro o
    cases o <;> rfl
  rw [hder.edgeWeight_of_type hone, latestOf_eq, hmap]
  by_cases hex : ∃ d ∈ decodeAll D repos, d.did = author ∧ d.coll = coll ∧ d.rkey = rkey
  · obtain ⟨d, hd, rfl, rfl, rfl⟩ := hex
    obtain ⟨l, m, hlm⟩ := append_of_mem hd
    have hrecords := hder.records
    rw [hlm] at hrecords
    obtain ⟨fl, ⟨d', f⟩, fm, rfl, hfl, ⟨hf, rfl⟩, hfm⟩ := Related.exists_append_of_forall₂ hrecords
    rw [← hlm] at hfl hf hfm
    dsimp only at hf
    -- other records write elsewhere
    have hother : ∀ {l' : List Decoded} {fs : List (Decoded × Found)},
        List.Forall₂ (fun d f => recordEdges H D targets p (indexAll H K P (decodeAll D repos)) d =
          .ok f.2 ∧ f.1 = d) l' fs → (∀ x ∈ l', x ∈ l ∨ x ∈ m) →
        Latest.writesTo (toLex (artifactNodeId H d'.did d'.coll d'.rkey, toLex (didNodeId H did, T_ATTRIB)))
          ((candidatesOf fs).map writeOf) = [] := by
      intro l' fs hall hsub
      refine Latest.writesTo_eq_nil fun x hx hkey => ?_
      obtain ⟨⟨n, c⟩, hc, rfl⟩ := List.mem_map.mp hx
      obtain ⟨⟨d₁, f₁⟩, hf₁, hc⟩ := mem_flatMap.mp hc
      obtain ⟨c', hc', heq⟩ := List.mem_map.mp hc
      obtain ⟨-, rfl⟩ := Prod.mk.inj heq
      obtain ⟨x, hx, hrec, -⟩ := Related.exists_of_forall₂ hall hf₁
      have hmem : x ∈ decodeAll D repos := by
        rw [hlm]
        rcases hsub x hx with hx | hx
        · exact mem_append_left _ hx
        · exact mem_append_right _ (mem_cons_of_mem _ hx)
      obtain ⟨hsource, -⟩ := Prod.mk.inj (toLex.injective hkey)
      obtain ⟨h₁, h₂, h₃, -⟩ := source_artifact hauth ha hcoll hfree' hmem hrec hc' hsource
      exact hauth.key_ne hlm (hsub x hx) ⟨h₁, h₂, h₃⟩
    have hcons : (d', f) :: fm = [(d', f)] ++ fm := rfl
    rw [candidatesOf_append, hcons, candidatesOf_append, map_append, map_append,
      Latest.writesTo_append, Latest.writesTo_append, hother hfl fun x hx => Or.inl hx,
      hother hfm fun x hx => Or.inr hx, nil_append, append_nil]
    have hown : (candidatesOf [(d', f)]).map writeOf = f.1.map fun c => writeOf (d'.anchorFoldIndex, c) := by
      simp [candidatesOf]
    rw [hown, attribution, activityAt, hauth.find_recordsOf hd, bind_some]
    cases hrec : d'.record with
    | activity contributors createdAt =>
      have hrecord := hf
      simp only [recordEdges, hrec] at hrecord
      dsimp only
      rcases activityEdges_eq_ok hrecord with ⟨htotal, hnil⟩ | ⟨-, hall⟩
      · rw [total_eq] at htotal
        rw [hnil]
        exact (attributionWeight_of_zero htotal).symm
      · rw [parsed_eq, total_eq] at hall
        have hnode : ∀ e ∈ contributors.filterMap (counted H d'.did), e.1 = didNodeId H did ↔ e.2.1 = did := by
          intro e he
          obtain ⟨hnode, hident⟩ := counted_node he
          rw [hnode]
          constructor
          · exact fun heq => hfree.inj _ (mem_cons_of_mem _ (mem_cons_of_mem _
              (identity_mem_names hd hrec hident))) _ mem_cons_self heq
          · exact fun heq => congrArg _ heq
        have hlatest := latest_activity (n := d'.anchorFoldIndex) hall hnode
        rw [acks_indexAll, ← ackOf_recordsOf, authClass_recordsOf hd
          (hfree'.mono fun s hs => mem_cons_of_mem _ hs)] at hlatest
        exact hlatest
    | _ =>
      have hnil : Latest.writesTo (toLex (artifactNodeId H d'.did d'.coll d'.rkey,
          toLex (didNodeId H did, T_ATTRIB))) (f.1.map fun c => writeOf (d'.anchorFoldIndex, c)) = [] := by
        refine Latest.writesTo_eq_nil fun x hx hkey => ?_
        obtain ⟨c, hc, rfl⟩ := List.mem_map.mp hx
        obtain ⟨hsource, -⟩ := Prod.mk.inj (toLex.injective hkey)
        obtain ⟨-, -, -, _, _, _, hrec', -⟩ := source_artifact hauth ha hcoll hfree' hd hf hc hsource
        rw [hrec] at hrec'
        exact absurd hrec' (by simp)
      rw [hnil]
      rfl
  · have hnone : (recordsOf D repos author).find? (fun d => d.coll = coll ∧ d.rkey = rkey) = none := by
      refine find?_eq_none.mpr fun d hd hkey => ?_
      obtain ⟨hmem, hdid⟩ := mem_recordsOf.mp hd
      simp only [Bool.decide_and, Bool.and_eq_true, decide_eq_true_eq] at hkey
      exact hex ⟨d, hmem, hdid, hkey.1, hkey.2⟩
    have hnil : Latest.writesTo (toLex (artifactNodeId H author coll rkey, toLex (didNodeId H did, T_ATTRIB)))
        ((candidatesOf found).map writeOf) = [] := by
      refine Latest.writesTo_eq_nil fun x hx hkey => ?_
      obtain ⟨c, hc, rfl⟩ := List.mem_map.mp hx
      obtain ⟨d, hd, f, hf, -, hcf⟩ := hder.mem_candidates.mp hc
      obtain ⟨hsource, -⟩ := Prod.mk.inj (toLex.injective hkey)
      obtain ⟨h₁, h₂, h₃, -⟩ := source_artifact hauth ha hcoll hfree' hd hf hcf hsource
      exact hex ⟨d, hd, h₁, h₂, h₃⟩
    rw [hnil, attribution, activityAt, hnone]
    rfl

end

def Fits (D : Dagcbor) (repos : List RepoRecords) : Prop :=
  ∀ d ∈ decodeAll D repos, ∀ contributors createdAt, d.record = .activity contributors createdAt →
    contributors.length < 2 ^ 64

theorem toNat_sum {l : List U256} (h : (l.map BitVec.toNat).sum < 2 ^ 256) :
    l.sum.toNat = (l.map BitVec.toNat).sum := by
  induction l with
  | nil => rfl
  | cons x l ih =>
    rw [map_cons, sum_cons] at h
    rw [sum_cons, map_cons, sum_cons, BitVec.toNat_add, ih (by omega), Nat.mod_eq_of_lt h]

theorem sum_le_length_mul {l : List ℕ} {b : ℕ} (h : ∀ x ∈ l, x ≤ b) : l.sum ≤ l.length * b := by
  have hle := sum_le_card_nsmul l b h
  rwa [smul_eq_mul] at hle

section

variable {H : Hashes} {author : Bytes} {contributors : List Contributor}

variable (H author) in
theorem toNat_total (hlen : contributors.length < 2 ^ 64) :
    ((contributors.filterMap (counted H author)).map fun e : B256 × Bytes × U256 => e.2.2).sum.toNat =
      ((contributors.filterMap (counted H author)).map (·.2.2.toNat)).sum := by
  have hweight : ∀ x ∈ (contributors.filterMap (counted H author)).map (·.2.2.toNat), x ≤ 10 ^ 39 := by
    intro x hx
    obtain ⟨e, he, rfl⟩ := List.mem_map.mp hx
    obtain ⟨c, -, hc⟩ := mem_filterMap.mp he
    obtain ⟨-, -, -, -, -, hw⟩ := counted_eq_some hc
    obtain ⟨s, -, hs⟩ := bind_eq_some_iff.mp hw
    exact (parseFp_lt hs).le
  have hle := sum_le_length_mul hweight
  have hlength := length_filterMap_le (counted H author) contributors
  rw [length_map] at hle
  have hbound : ((contributors.filterMap (counted H author)).map (·.2.2.toNat)).sum < 2 ^ 256 := by
    calc _ ≤ (contributors.filterMap (counted H author)).length * 10 ^ 39 := hle
      _ ≤ 2 ^ 64 * 10 ^ 39 := Nat.mul_le_mul_right _ (by omega)
      _ < 2 ^ 256 := by norm_num
  have hmap : (contributors.filterMap (counted H author)).map (·.2.2.toNat) =
      ((contributors.filterMap (counted H author)).map (·.2.2)).map BitVec.toNat := by
    rw [List.map_map]
    rfl
  rw [hmap] at hbound ⊢
  exact toNat_sum hbound

theorem weight_le_total {e : B256 × Bytes × U256} (he : e ∈ contributors.filterMap (counted H author)) :
    0 < e.2.2.toNat ∧ e.2.2.toNat ≤ ((contributors.filterMap (counted H author)).map (·.2.2.toNat)).sum := by
  obtain ⟨c, -, hc⟩ := mem_filterMap.mp he
  obtain ⟨-, -, -, -, hne, -⟩ := counted_eq_some hc
  exact ⟨U256.toNat_pos.mpr hne, single_le_sum (by simp) _ (List.mem_map.mpr ⟨e, he, rfl⟩)⟩

theorem sum_shares_le {entries : List (B256 × Bytes × U256)} (s : ℕ) {total : ℕ}
    (h : total = (entries.map (·.2.2.toNat)).sum) :
    (entries.map fun e => e.2.2.toNat * s / total).sum ≤ s := by
  have hle := Rounding.sum_floor_le (entries.map fun e => e.2.2.toNat * s) total
  rw [List.map_map, sum_map_mul_right, ← h] at hle
  refine hle.trans ?_
  exact Nat.div_le_of_le_mul (le_of_eq rfl)

end

theorem product_gate_le (s x : ℕ) (a : U256) {b b' : U256} (c : U256) (h : b.toNat ≤ b'.toNat) :
    product s x [a, b, c] ≤ product s x [a, b', c] := by
  simp only [product_cons, product_nil]
  exact Nat.div_le_div_right (Nat.mul_le_mul_right _ (Nat.div_le_div_right (Nat.mul_le_mul_left _ h)))

theorem entryWeight_le (p : EdgeParams) {gate gate' : U256} (cls total : U256) (h : gate.toNat ≤ gate'.toNat)
    (e : B256 × Bytes × U256) : entryWeight p gate cls total e ≤ entryWeight p gate' cls total e :=
  product_gate_le _ _ _ _ h

theorem product_whole {s : ℕ} (hs : 0 < s) (a b c : U256) :
    product s s [a, b, c] = a.toNat * b.toNat / s * c.toNat / s := by
  rw [product_cons, product_cons, product_cons, product_nil, Nat.mul_div_cancel_left _ hs]

section

variable {H : Hashes} {D : Dagcbor} {K : K256} {P : Primitives} {repos repos' : List RepoRecords}
  {targets targets' : BTreeMap Bytes Bytes} {p : EdgeParams} {g g' : DerivedGraph}

/-- A derivation that goes through on authenticated repositories. -/
structure Run (H : Hashes) (D : Dagcbor) (K : K256) (P : Primitives) (repos : List RepoRecords)
    (targets : BTreeMap Bytes Bytes) (p : EdgeParams) (g : DerivedGraph) : Prop where
  authenticated : Authenticated repos
  fits : Fits D repos
  derived : derive H D K P repos targets p = .ok g

def outgoingWeight (g : DerivedGraph) (a : B256) : ℕ :=
  ((g.outgoing[a]?.getD ∅).toList.map fun e => e.2.toNat).sum

theorem gateOf_le (p : EdgeParams) (ack : Option Bool) :
    (gateOf p ack).toNat ≤ max p.ackBoostFp.toNat p.unackedAttribFp.toNat := by
  unfold gateOf
  split
  · exact le_max_left _ _
  · exact le_max_right _ _

variable {coll rkey : Bytes} {c : Contributor} {l m : List Decoded} {d d' : Decoded}
  {author did : Bytes}

/-- The edges out of an artifact weigh no more than one whole attribution. -/
theorem outgoingWeight_le (hrun : Run H D K P repos targets p g) {r : RepoRecords} (hr : r ∈ repos)
    (hcoll : 47 ∉ coll) (hfree : CollisionFree H.keccak256 (atUri r.did coll rkey :: nodeNames D repos)) :
    outgoingWeight g (artifactNodeId H r.did coll rkey) ≤
      p.wAttribFp.toNat * max p.ackBoostFp.toNat p.unackedAttribFp.toNat / scale.toNat *
        (classOf H K P p (recordsOf D repos r.did)).toNat / scale.toNat := by
  obtain ⟨found, hder⟩ := derive_eq_ok hrun.derived
  have hauth := hrun.authenticated
  have ha := hauth.did_slash r hr
  -- the greater gate
  obtain ⟨gate, hgate⟩ : ∃ gate : U256, gate.toNat = max p.ackBoostFp.toNat p.unackedAttribFp.toNat := by
    rcases le_total p.ackBoostFp.toNat p.unackedAttribFp.toNat with hle | hle
    · exact ⟨_, (max_eq_right hle).symm⟩
    · exact ⟨_, (max_eq_left hle).symm⟩
  have hscale : 0 < scale.toNat := by decide
  rw [← hgate, ← product_whole hscale]
  unfold outgoingWeight
  cases hrow : g.outgoing[artifactNodeId H r.did coll rkey]? with
  | none => exact Nat.zero_le _
  | some row =>
    rw [getD_some]
    by_cases hempty : row.toList = []
    · rw [hempty]
      exact Nat.zero_le _
    -- every edge is given by the one activity
    have hgiven : ∀ x ∈ row.toList, ∃ d ∈ decodeAll D repos, d.did = r.did ∧ d.coll = coll ∧
        d.rkey = rkey ∧ ∃ contributors createdAt e, d.record = .activity contributors createdAt ∧
          e ∈ contributors.filterMap (counted H r.did) ∧ e.1 = x.1 ∧
          BTreeMap.cell g.outgoing (artifactNodeId H r.did coll rkey, x.1) = some x.2 := by
      intro x hx
      have hcell : BTreeMap.cell g.outgoing (artifactNodeId H r.did coll rkey, x.1) = some x.2 := by
        rw [BTreeMap.cell, hrow, bind_some]
        exact BTreeMap.mem_toList.mp hx
      obtain ⟨t, w, ⟨c, hc, hsource, htarget, -, -⟩, -⟩ := hder.given_of_edge (by rw [hcell]; rfl)
      obtain ⟨d, hd, f, hf, -, hcf⟩ := hder.mem_candidates.mp hc
      obtain ⟨h₁, h₂, h₃, contributors, createdAt, e, hrec, he, hce⟩ :=
        source_artifact hauth ha hcoll hfree hd hf hcf hsource
      obtain ⟨-, _, -, hceq⟩ := attributionEdge_eq_ok hce
      refine ⟨d, hd, h₁, h₂, h₃, contributors, createdAt, e, hrec, he, ?_, hcell⟩
      rw [← htarget, hceq]
    obtain ⟨x₀, hx₀⟩ := exists_mem_of_ne_nil _ hempty
    obtain ⟨d, hd, h₁, rfl, rfl, contributors, createdAt, -, hrec, -, -, -⟩ := hgiven x₀ hx₀
    have hactivity : activityAt d.coll d.rkey (recordsOf D repos r.did) = some contributors := by
      rw [activityAt, ← h₁, hauth.find_recordsOf hd, bind_some, hrec]
    have htotal := toNat_total H r.did (hrun.fits d hd _ _ hrec)
    -- the share of an entry, at the greater gate
    let bound : B256 × Bytes × U256 → ℕ := fun e => entryWeight p gate
      (classOf H K P p (recordsOf D repos r.did))
      ((contributors.filterMap (counted H r.did)).map (·.2.2)).sum e
    have hcovered : ((row.toList.map fun x => (x.1, x.2.toNat)).map Prod.snd).sum ≤
        ((contributors.filterMap (counted H r.did)).map bound).sum := by
      refine sum_le_of_covered (f := fun e => e.1) ?_ ?_
      · rw [List.map_map]
        have hkeys : (Prod.fst ∘ fun x : B256 × U256 => (x.1, x.2.toNat)) = Prod.fst := rfl
        rw [hkeys, Std.ExtTreeMap.map_fst_toList_eq_keys]
        exact row.keys_nodup
      · intro y hy
        obtain ⟨x, hx, rfl⟩ := List.mem_map.mp hy
        obtain ⟨d', hd', h₁', h₂', h₃', contributors', createdAt', e, hrec', he, hnode, hcell⟩ := hgiven x hx
        obtain rfl := hauth.decoded_unique hd' hd (h₁'.trans h₁.symm) h₂' h₃'
        rw [hrec, Record.activity.injEq] at hrec'
        obtain ⟨rfl, -⟩ := hrec'
        obtain ⟨hdid, hident⟩ := counted_node he
        have hnames : CollisionFree H.keccak256
            (e.2.1 :: atUri r.did d'.coll d'.rkey :: nodeNames D repos) := hfree.mono
          (forall_mem_cons.mpr ⟨mem_cons_of_mem _ (identity_mem_names hd hrec hident), fun _ hs => hs⟩)
        have hedge := edgeWeight_eq hauth hrun.derived ha hcoll hnames
        rw [← hdid, hnode, edgeWeight, hcell, getD_some, attribution, hactivity] at hedge
        dsimp only at hedge ⊢
        unfold attributionWeight at hedge
        cases hfind : (contributors.filterMap (counted H r.did)).find? fun e' => e'.2.1 = e.2.1 with
        | none => exact absurd (find?_eq_none.mp hfind e he) (by simp)
        | some e' =>
          rw [hfind] at hedge
          have hmem := mem_of_find?_eq_some hfind
          have hsame : e'.2.1 = e.2.1 := by simpa using find?_some hfind
          refine ⟨e', hmem, ?_, ?_⟩
          · rw [(counted_node hmem).1, hsame, ← hdid, hnode]
          · rw [hedge]
            exact entryWeight_le p _ _ (by rw [hgate]; exact gateOf_le p _) e'
    rw [List.map_map] at hcovered
    refine hcovered.trans ?_
    have hsum := sum_product_le scale.toNat [p.wAttribFp, gate, classOf H K P p (recordsOf D repos r.did)]
      ((contributors.filterMap (counted H r.did)).map fun e => e.2.2.toNat * scale.toNat /
        ((contributors.filterMap (counted H r.did)).map fun e : B256 × Bytes × U256 => e.2.2).sum.toNat)
    rw [List.map_map] at hsum
    exact hsum.trans (product_mono _ (sum_shares_le _ htotal) _)

/-- One activity of one repository gets one more contributor; its time may change as well. -/
def AddsContributor (D : Dagcbor) (c : Contributor) (repos repos' : List RepoRecords) : Prop :=
  ∃ before after did foldIndex records records' key coll rkey bytes bytes' left right createdAt createdAt',
    repos = before ++ ⟨did, foldIndex, records ++ (key, bytes) :: records'⟩ :: after ∧
    repos' = before ++ ⟨did, foldIndex, records ++ (key, bytes') :: records'⟩ :: after ∧
    splitOnce 47 key = some (coll, rkey) ∧
    decode D coll bytes = some (.activity (left ++ right) createdAt) ∧
    decode D coll bytes' = some (.activity (left ++ c :: right) createdAt')

theorem AddsContributor.decodeAll (h : AddsContributor D c repos repos') :
    ∃ l m d d' left right createdAt createdAt', decodeAll D repos = l ++ d :: m ∧
      decodeAll D repos' = l ++ d' :: m ∧ d.did = d'.did ∧ d.coll = d'.coll ∧ d.rkey = d'.rkey ∧
      d.record = .activity (left ++ right) createdAt ∧ d'.record = .activity (left ++ c :: right) createdAt' := by
  obtain ⟨before, after, did, foldIndex, records, records', key, coll, rkey, bytes, bytes', left, right,
    createdAt, createdAt', rfl, rfl, hkey, hdec, hdec'⟩ := h
  -- decoding looks at the DID and the fold index of a repository only
  have hsame : ∀ (rs rs' : List (Bytes × Bytes)),
      decodeRecord D ⟨did, foldIndex, rs⟩ = decodeRecord D ⟨did, foldIndex, rs'⟩ := fun _ _ => rfl
  have hrec : ∀ {b : Bytes} {r : Record}, decode D coll b = some r →
      decodeRecord D ⟨did, foldIndex, records⟩ (key, b) = some ⟨did, foldIndex, coll, rkey, r⟩ := by
    intro b r hb
    simp [decodeRecord, hkey, hb]
  refine ⟨Hypercerts.decodeAll D before ++ records.filterMap (decodeRecord D ⟨did, foldIndex, records⟩),
    records'.filterMap (decodeRecord D ⟨did, foldIndex, records⟩) ++ Hypercerts.decodeAll D after,
    ⟨did, foldIndex, coll, rkey, .activity (left ++ right) createdAt⟩,
    ⟨did, foldIndex, coll, rkey, .activity (left ++ c :: right) createdAt'⟩, left, right, createdAt, createdAt',
    ?_, ?_, rfl, rfl, rfl, rfl, rfl⟩
  · simp only [Hypercerts.decodeAll, flatMap_append, flatMap_cons, filterMap_append]
    rw [hsame _ records, filterMap_cons_some (hrec hdec)]
    simp only [append_assoc, cons_append]
  · simp only [Hypercerts.decodeAll, flatMap_append, flatMap_cons, filterMap_append]
    rw [hsame _ records, filterMap_cons_some (hrec hdec')]
    simp only [append_assoc, cons_append]

theorem ackOf_activity {cs cs' : List Contributor}
    {t t' : Bytes} (hd : d.record = .activity cs t) (hd' : d'.record = .activity cs' t')
    (hdid : d.did = d'.did) (did uri : Bytes) :
    ackOf did uri (l ++ d :: m) = ackOf did uri (l ++ d' :: m) := by
  unfold ackOf
  rw [filter_append, filter_append, foldl_append, foldl_append]
  by_cases h : d.did = did
  · rw [filter_cons_of_pos (by simpa using h), filter_cons_of_pos (by simpa using hdid ▸ h),
      foldl_cons, foldl_cons]
    simp only [ackStep, hd, hd']
  · rw [filter_cons_of_neg (by simpa using h), filter_cons_of_neg (by simpa using hdid ▸ h)]

theorem classOf_activity {cs cs' : List Contributor}
    {t t' : Bytes} (hd : d.record = .activity cs t) (hd' : d'.record = .activity cs' t') :
    classOf H K P p (l ++ d :: m) = classOf H K P p (l ++ d' :: m) := by
  have hb : binds H K P d = binds H K P d' := by simp only [binds, hd, hd']
  simp only [classOf, any_append, any_cons, hb]

theorem attributionWeight_anti {left right : List Contributor}
    (hc : c.identity ≠ did) (hlen : (left ++ c :: right).length < 2 ^ 64) (gate cls : U256) :
    attributionWeight p gate cls ((left ++ c :: right).filterMap (counted H author)) did ≤
      attributionWeight p gate cls ((left ++ right).filterMap (counted H author)) did := by
  have htotal := toNat_total H author hlen
  have hlen' : (left ++ right).length < 2 ^ 64 := by
    rw [length_append, length_cons] at hlen
    rw [length_append]
    omega
  have htotal' := toNat_total H author hlen'
  cases hcount : counted H author c with
  | none => rw [filterMap_append, filterMap_append, filterMap_cons_none hcount]
  | some ec =>
    have hne : ¬ ec.2.1 = did := by
      rw [(counted_eq_some hcount).2.1]
      exact hc
    have hfind : ((left ++ c :: right).filterMap (counted H author)).find? (fun e => e.2.1 = did) =
        ((left ++ right).filterMap (counted H author)).find? fun e => e.2.1 = did := by
      rw [filterMap_append, filterMap_append, filterMap_cons_some hcount, find?_append,
        find?_append, find?_cons_of_neg (by simpa using hne)]
    unfold attributionWeight
    rw [hfind]
    cases hget : ((left ++ right).filterMap (counted H author)).find? fun e => e.2.1 = did with
    | none => exact le_refl _
    | some e =>
      obtain ⟨hpos, hle⟩ := weight_le_total (mem_of_find?_eq_some hget)
      refine product_mono _ (Nat.div_le_div_left ?_ ?_) _
      · rw [htotal, htotal']
        simp only [filterMap_append, filterMap_cons_some hcount, map_append, map_cons, sum_append, sum_cons]
        omega
      · rw [htotal']
        omega

theorem activityAt_edit (hcoll : d.coll = d'.coll) (hrkey : d.rkey = d'.rkey) (coll rkey : Bytes) :
    activityAt coll rkey (l ++ d :: m) = activityAt coll rkey (l ++ d' :: m) ∨
      activityAt coll rkey (l ++ d :: m) = activityAt d.coll d.rkey [d] ∧
      activityAt coll rkey (l ++ d' :: m) = activityAt d'.coll d'.rkey [d'] := by
  unfold activityAt
  rw [find?_append, find?_append]
  cases hl : l.find? fun x => x.coll = coll ∧ x.rkey = rkey with
  | some x =>
    left
    rfl
  | none =>
    rw [Option.none_or, Option.none_or]
    by_cases hkey : d.coll = coll ∧ d.rkey = rkey
    · right
      have hkey' : d'.coll = coll ∧ d'.rkey = rkey := ⟨hcoll ▸ hkey.1, hrkey ▸ hkey.2⟩
      rw [find?_cons_of_pos (by simpa using hkey), find?_cons_of_pos (by simp),
        find?_cons_of_pos (by simpa using hkey'), find?_cons_of_pos (by simp)]
      exact ⟨rfl, rfl⟩
    · left
      have hkey' : ¬ (d'.coll = coll ∧ d'.rkey = rkey) := by rwa [hcoll, hrkey] at hkey
      rw [find?_cons_of_neg (by simpa using hkey), find?_cons_of_neg (by simpa using hkey')]

theorem edgeWeight_anti (hrun : Run H D K P repos targets p g)
    (hrun' : Run H D K P repos' targets' p g') (hadds : AddsContributor D c repos repos')
    (ha : 47 ∉ author) (hcoll : 47 ∉ coll) (hc : c.identity ≠ did)
    (hfree : CollisionFree H.keccak256 (did :: atUri author coll rkey :: nodeNames D repos))
    (hfree' : CollisionFree H.keccak256 (did :: atUri author coll rkey :: nodeNames D repos')) :
    (edgeWeight g' (artifactNodeId H author coll rkey) (didNodeId H did)).toNat ≤
      (edgeWeight g (artifactNodeId H author coll rkey) (didNodeId H did)).toNat := by
  rw [edgeWeight_eq hrun.authenticated hrun.derived ha hcoll hfree,
    edgeWeight_eq hrun'.authenticated hrun'.derived ha hcoll hfree']
  obtain ⟨l, m, d, d', left, right, t, t', hl, hl', hdid, hcoll', hrkey', hrec, hrec'⟩ := hadds.decodeAll
  have hlen := hrun'.fits d' (by rw [hl']; exact mem_append_right _ mem_cons_self) _ _ hrec'
  unfold attribution
  rw [ackOf_recordsOf, ackOf_recordsOf, hl, hl', ackOf_activity hrec hrec' hdid]
  unfold recordsOf
  rw [hl, hl', filter_append, filter_append]
  by_cases hauthor : d.did = author
  · have hauthor' : d'.did = author := hdid ▸ hauthor
    rw [filter_cons_of_pos (by simpa using hauthor'),
      filter_cons_of_pos (by simpa using hauthor), classOf_activity hrec hrec']
    rcases activityAt_edit hcoll' hrkey' coll rkey with heq | ⟨h₁, h₂⟩
    · rw [heq]
    · rw [h₁, h₂]
      simp only [activityAt, decide_true, and_self, find?_cons_of_pos, bind_some, hrec, hrec']
      exact attributionWeight_anti hc hlen _ _
  · have hauthor' : ¬ d'.did = author := by rwa [hdid] at hauthor
    rw [filter_cons_of_neg (by simpa using hauthor'), filter_cons_of_neg (by simpa using hauthor)]

theorem edgeWeight_local (hrun : Run H D K P repos targets p g)
    (hrun' : Run H D K P repos' targets' p g') (ha : 47 ∉ author) (hcoll : 47 ∉ coll)
    (hsame : ∀ r, r.did = author ∨ r.did = did → (r ∈ repos ↔ r ∈ repos'))
    (hfree : CollisionFree H.keccak256 (did :: atUri author coll rkey :: nodeNames D repos))
    (hfree' : CollisionFree H.keccak256 (did :: atUri author coll rkey :: nodeNames D repos')) :
    edgeWeight g (artifactNodeId H author coll rkey) (didNodeId H did) =
      edgeWeight g' (artifactNodeId H author coll rkey) (didNodeId H did) := by
  rw [← BitVec.toNat_inj, edgeWeight_eq hrun.authenticated hrun.derived ha hcoll hfree,
    edgeWeight_eq hrun'.authenticated hrun'.derived ha hcoll hfree',
    recordsOf_congr hrun.authenticated hrun'.authenticated fun r hr => hsame r (Or.inl hr),
    recordsOf_congr hrun.authenticated hrun'.authenticated
      fun r (hr : r.did = did) => hsame r (Or.inr hr)]

/-- Attribution cannot be minted, and takes its author and its contributor: the edges out of an artifact
weigh no more than one whole attribution, another contributor never raises the weight of one of another
name, and the repositories of others do not matter. -/
theorem attribution_sound (hrun : Run H D K P repos targets p g) : (∀ r ∈ repos, ∀ coll rkey, 47 ∉ coll →
      CollisionFree H.keccak256 (atUri r.did coll rkey :: nodeNames D repos) →
      outgoingWeight g (artifactNodeId H r.did coll rkey) ≤
        p.wAttribFp.toNat * max p.ackBoostFp.toNat p.unackedAttribFp.toNat / scale.toNat *
          (classOf H K P p (recordsOf D repos r.did)).toNat / scale.toNat) ∧
    (∀ repos' targets' g' c, Run H D K P repos' targets' p g' → AddsContributor D c repos repos' →
      ∀ r ∈ repos, ∀ coll rkey did, 47 ∉ coll → c.identity ≠ did →
      CollisionFree H.keccak256 (did :: atUri r.did coll rkey :: nodeNames D repos) →
      CollisionFree H.keccak256 (did :: atUri r.did coll rkey :: nodeNames D repos') →
      (edgeWeight g' (artifactNodeId H r.did coll rkey) (didNodeId H did)).toNat ≤
        (edgeWeight g (artifactNodeId H r.did coll rkey) (didNodeId H did)).toNat) ∧
    (∀ repos' targets' g', Run H D K P repos' targets' p g' →
      ∀ r ∈ repos, r ∈ repos' → ∀ coll rkey did, 47 ∉ coll →
      (∀ q, q.did = did → (q ∈ repos ↔ q ∈ repos')) →
      CollisionFree H.keccak256 (did :: atUri r.did coll rkey :: nodeNames D repos) →
      CollisionFree H.keccak256 (did :: atUri r.did coll rkey :: nodeNames D repos') →
      edgeWeight g (artifactNodeId H r.did coll rkey) (didNodeId H did) =
        edgeWeight g' (artifactNodeId H r.did coll rkey) (didNodeId H did)) := by
  refine ⟨fun r hr coll rkey hcoll hfree => outgoingWeight_le hrun hr hcoll hfree, ?_, ?_⟩
  · intro repos' targets' g' c hrun' hadds r hr coll rkey did hcoll hc hfree hfree'
    exact edgeWeight_anti hrun hrun' hadds (hrun.authenticated.did_slash r hr) hcoll hc hfree hfree'
  · intro repos' targets' g' hrun' r hr hr' coll rkey did hcoll hsame hfree hfree'
    refine edgeWeight_local hrun hrun' (hrun.authenticated.did_slash r hr) hcoll ?_ hfree hfree'
    rintro q (hq | hq)
    · constructor
      · intro hmem
        rwa [hrun.authenticated.repo_unique hmem hr hq]
      · intro hmem
        rwa [hrun'.authenticated.repo_unique hmem hr' hq]
    · exact hsame q hq

end

namespace AttributionExample

/-! An activity of two contributors, one of whom acknowledges it. -/

open SemanticsExample

@[irreducible]
def activityBytes : Bytes := List.flatten [
  beBytes 32 0xa3652474797065781d6f72672e687970657263657274732e636c61696d2e6163,
  beBytes 32 0x7469766974796963726561746564417474323032362d30312d30315430303a30,
  beBytes 32 0x303a30305a6c636f6e7472696275746f727382a272636f6e747269627574696f,
  beBytes 32 0x6e576569676874613173636f6e7472696275746f724964656e74697479a16869,
  beBytes 32 0x64656e7469747978206469643a706c633a626f62616161616161616161616161,
  beBytes 32 0x616161616161616161a272636f6e747269627574696f6e576569676874613173,
  beBytes 32 0x636f6e7472696275746f724964656e74697479a1686964656e74697479782064,
  beBytes 31 0x69643a706c633a6361726f6c61616161616161616161616161616161616161]

@[irreducible]
def paddedBytes : Bytes := List.flatten [
  beBytes 32 0xa3652474797065781d6f72672e687970657263657274732e636c61696d2e6163,
  beBytes 32 0x7469766974796963726561746564417474323032362d30312d30315430303a30,
  beBytes 32 0x303a30305a6c636f6e7472696275746f727383a272636f6e747269627574696f,
  beBytes 32 0x6e576569676874613173636f6e7472696275746f724964656e74697479a16869,
  beBytes 32 0x64656e7469747978206469643a706c633a626f62616161616161616161616161,
  beBytes 32 0x616161616161616161a272636f6e747269627574696f6e576569676874613173,
  beBytes 32 0x636f6e7472696275746f724964656e74697479a1686964656e74697479782064,
  beBytes 32 0x69643a706c633a6361726f6c61616161616161616161616161616161616161a2,
  beBytes 32 0x72636f6e747269627574696f6e576569676874613273636f6e7472696275746f,
  beBytes 32 0x724964656e74697479a1686964656e7469747978206469643a706c633a706164,
  beBytes 21 0x616161616161616161616161616161616161616161]

@[irreducible]
def acknowledgementBytes : Bytes := List.flatten [
  beBytes 32 0xa465247479706578266f72672e687970657263657274732e636f6e746578742e,
  beBytes 32 0x61636b6e6f776c656467656d656e74677375626a656374a26363696468626166,
  beBytes 32 0x7966616b6563757269784561743a2f2f6469643a706c633a7732663361676264,
  beBytes 32 0x733373646770363470643770367078792f6f72672e687970657263657274732e,
  beBytes 32 0x636c61696d2e61637469766974792f616963726561746564417474323032362d,
  beBytes 29 0x30312d30335430303a30303a30305a6c61636b6e6f776c6564676564f5]

@[irreducible]
def followBytes : Bytes := List.flatten [
  beBytes 32 0xa3652474797065781a6170702e6365727469666965642e67726170682e666f6c,
  beBytes 32 0x6c6f77677375626a65637478206469643a706c633a7732663361676264733373,
  beBytes 32 0x646770363470643770367078796963726561746564417474323032362d30312d,
  beBytes 12 0x30325430303a30303a30305a]

def alice : Bytes := utf8 "did:plc:w2f3agbds3sdgp64pd7p6pxy"

def bob : Bytes := utf8 "did:plc:bobaaaaaaaaaaaaaaaaaaaaa"

def carol : Bytes := utf8 "did:plc:carolaaaaaaaaaaaaaaaaaaa"

def padding : Bytes := utf8 "did:plc:padaaaaaaaaaaaaaaaaaaaaa"

def collection : Bytes := utf8 "org.hypercerts.claim.activity"

def activityUri : Bytes := atUri alice collection (utf8 "a")

def table : List (Bytes × B256) := [
  (alice, .ofNat 32 0x3e69e11cd87c0bc7da11673db75b93ecbe84b5c51323d636bebfafef54c7549e),
  (bob, .ofNat 32 0x05efb59439407de76aea467131cd6c6c4399777ffa29bda90fc6e951191b0e45),
  (carol, .ofNat 32 0xceaba79e45997cf21a9b3e2a0e65561d1d51ff30585ab0003a7084c17170ecfc),
  (padding, .ofNat 32 0x1a6a53b89084c76f25e5f3932de8686e1640029d4c6b3f93d7b4bd6834d9c164),
  (activityUri, .ofNat 32 0x542b3989b270d5b18b0c17e0330fb5d716a55e5923b87eb67c9c5483f99ab752),
  (atUri bob (utf8 "org.hypercerts.context.acknowledgement") (utf8 "k"),
    .ofNat 32 0x779f8612f7db9d177f1668943a59e98471f3d7d51b056d2d7e737ede6f522472),
  (atUri carol (utf8 "app.certified.graph.follow") (utf8 "f"),
    .ofNat 32 0x0e749bb70a5d90e1eae3eddc64f9b634135e7f3cb70a76d5125dfa0a131614dc)]

def hashes : Hashes where
  keccak256 s := ((table.find? fun e => e.1 == s).map Prod.snd).getD 0
  sha256 _ := 0

def contributor (e : Bytes × Bytes) : Ipld :=
  .map [(utf8 "contributionWeight", .string e.2),
    (utf8 "contributorIdentity", .map [(utf8 "identity", .string e.1)])]

def activity (contributors : List (Bytes × Bytes)) : Ipld :=
  .map [(utf8 "$type", .string collection), (utf8 "contributors", .list (contributors.map contributor)),
    (utf8 "createdAt", .string (utf8 "2026-01-01T00:00:00Z"))]

def codec : Dagcbor where
  fromSlice s :=
    if s = activityBytes then some (activity [(bob, utf8 "1"), (carol, utf8 "1")])
    else if s = paddedBytes then some (activity [(bob, utf8 "1"), (carol, utf8 "1"), (padding, utf8 "2")])
    else if s = acknowledgementBytes then
      some (.map [(utf8 "$type", .string (utf8 "org.hypercerts.context.acknowledgement")),
        (utf8 "acknowledged", .bool true), (utf8 "createdAt", .string (utf8 "2026-01-03T00:00:00Z")),
        (utf8 "subject", .map [(utf8 "cid", .string (utf8 "bafyfake")), (utf8 "uri", .string activityUri)])])
    else if s = followBytes then
      some (.map [(utf8 "$type", .string (utf8 "app.certified.graph.follow")),
        (utf8 "createdAt", .string (utf8 "2026-01-02T00:00:00Z")), (utf8 "subject", .string alice)])
    else none
  toVec _ := none

def author (bytes : Bytes) : RepoRecords := ⟨alice, 0, [(utf8 "org.hypercerts.claim.activity/a", bytes)]⟩

def acknowledger : RepoRecords :=
  ⟨bob, 1, [(utf8 "org.hypercerts.context.acknowledgement/k", acknowledgementBytes)]⟩

def follower : RepoRecords := ⟨carol, 2, [(utf8 "app.certified.graph.follow/f", followBytes)]⟩

def plain : List RepoRecords := [author activityBytes, acknowledger]

def padded : List RepoRecords := [author paddedBytes, acknowledger]

def extended : List RepoRecords := [author activityBytes, acknowledger, follower]

def Listed (repos : List RepoRecords) : Prop := ∀ s ∈ nodeNames codec repos, s ∈ table.map Prod.fst

instance (repos : List RepoRecords) : Decidable (Listed repos) := List.decidableBAll _ _

def short (d : Decoded) : Bool :=
  match d.record with
  | .activity contributors _ => contributors.length ≤ 3
  | _ => true

theorem facts :
    (∀ s ∈ table.map Prod.fst, ∀ t ∈ table.map Prod.fst, hashes.keccak256 s = hashes.keccak256 t → s = t) ∧
    (∀ s ∈ table.map Prod.fst, hashes.keccak256 s ≠ 0) ∧
    (Listed plain ∧ Listed padded ∧ Listed extended) ∧
    ([plain, padded, extended].all fun repos => (decodeAll codec repos).all short &&
      (derive hashes codec recovery primitives repos ∅ params).isOk) = true ∧
    [activityBytes, paddedBytes].map (decode codec collection) =
      [some (.activity ([⟨bob, some (utf8 "1")⟩, ⟨carol, some (utf8 "1")⟩] ++ [])
        (utf8 "2026-01-01T00:00:00Z")),
      some (.activity ([⟨bob, some (utf8 "1")⟩, ⟨carol, some (utf8 "1")⟩] ++
        [⟨padding, some (utf8 "2")⟩]) (utf8 "2026-01-01T00:00:00Z"))] := by
  decide +kernel

theorem collisionFree {names : List Bytes} (h : ∀ s ∈ names, s ∈ table.map Prod.fst) :
    CollisionFree hashes.keccak256 names where
  inj s hs t ht := facts.1 s (h s hs) t (h t ht)
  ne_zero s hs := facts.2.1 s (h s hs)

theorem exists_run {repos : List RepoRecords} (h : repos ∈ [plain, padded, extended])
    (hauth : Authenticated repos) : ∃ g, Run hashes codec recovery primitives repos ∅ params g := by
  have hrun := List.all_eq_true.mp facts.2.2.2.1 repos h
  rw [Bool.and_eq_true, List.all_eq_true] at hrun
  obtain ⟨hshort, hok⟩ := hrun
  obtain ⟨g, hg⟩ := isOk_iff.mp hok
  refine ⟨g, hauth, ?_, hg⟩
  intro d hd contributors createdAt hrec
  have hle := hshort d hd
  simp only [short, hrec, decide_eq_true_eq] at hle
  omega

theorem authenticated_plain : Authenticated plain where
  did_prefix := by decide
  did_slash := by decide
  dids := by decide
  keys := by decide

theorem authenticated_padded : Authenticated padded where
  did_prefix := by decide
  did_slash := by decide
  dids := by decide
  keys := by decide

theorem authenticated_extended : Authenticated extended where
  did_prefix := by decide
  did_slash := by decide
  dids := by decide
  keys := by decide

theorem addsContributor : AddsContributor codec ⟨padding, some (utf8 "2")⟩ plain padded := by
  have hdec := facts.2.2.2.2
  simp only [map_cons, map_nil, List.cons.injEq, and_true] at hdec
  exact ⟨[], [acknowledger], alice, 0, [], [], utf8 "org.hypercerts.claim.activity/a", collection, utf8 "a",
    activityBytes, paddedBytes, _, [], _, _, rfl, rfl, by decide, hdec.1, hdec.2⟩

theorem collisionFree_run {repos : List RepoRecords} (h : Listed repos) {did : Bytes}
    (hdid : did ∈ table.map Prod.fst) :
    CollisionFree hashes.keccak256 (did :: activityUri :: nodeNames codec repos) :=
  collisionFree (forall_mem_cons.mpr ⟨hdid, forall_mem_cons.mpr ⟨by simp [table], h⟩⟩)

end AttributionExample

open AttributionExample SemanticsExample in
theorem attribution_sound_padded : ∃ g g' g'', derive hashes codec recovery primitives plain ∅ params = .ok g ∧
      derive hashes codec recovery primitives padded ∅ params = .ok g' ∧
      derive hashes codec recovery primitives extended ∅ params = .ok g'' ∧
      outgoingWeight g (artifactNodeId hashes alice collection (utf8 "a")) ≤
        params.wAttribFp.toNat * max params.ackBoostFp.toNat params.unackedAttribFp.toNat / scale.toNat *
          (classOf hashes recovery primitives params (recordsOf codec plain alice)).toNat / scale.toNat ∧
      (edgeWeight g' (artifactNodeId hashes alice collection (utf8 "a")) (didNodeId hashes bob)).toNat ≤
        (edgeWeight g (artifactNodeId hashes alice collection (utf8 "a")) (didNodeId hashes bob)).toNat ∧
      edgeWeight g (artifactNodeId hashes alice collection (utf8 "a")) (didNodeId hashes bob) =
        edgeWeight g'' (artifactNodeId hashes alice collection (utf8 "a")) (didNodeId hashes bob) := by
  obtain ⟨g, hg⟩ := exists_run (by simp) authenticated_plain
  obtain ⟨g', hg'⟩ := exists_run (by simp) authenticated_padded
  obtain ⟨g'', hg''⟩ := exists_run (by simp) authenticated_extended
  obtain ⟨hplain, hpadded, hextended⟩ := facts.2.2.1
  have hbob : bob ∈ table.map Prod.fst := by simp [table]
  have hmem : author activityBytes ∈ plain := mem_cons_self
  have hcoll : 47 ∉ collection := by decide
  obtain ⟨hbound, hanti, hlocal⟩ := attribution_sound hg
  refine ⟨g, g', g'', hg.derived, hg'.derived, hg''.derived, ?_, ?_, ?_⟩
  · exact hbound _ hmem collection (utf8 "a") hcoll
      ((collisionFree_run hplain hbob).mono fun s hs => mem_cons_of_mem _ hs)
  · exact hanti padded ∅ g' _ hg' addsContributor _ hmem collection (utf8 "a") bob hcoll (by decide)
      (collisionFree_run hplain hbob) (collisionFree_run hpadded hbob)
  · refine hlocal extended ∅ g'' hg'' _ hmem List.mem_cons_self collection (utf8 "a") bob hcoll ?_
      (collisionFree_run hplain hbob) (collisionFree_run hextended hbob)
    intro q hq
    have hne : q ≠ follower := by
      rintro rfl
      exact absurd hq (by decide)
    simp [plain, extended, hne]

end Trustgraphs.Hypercerts
