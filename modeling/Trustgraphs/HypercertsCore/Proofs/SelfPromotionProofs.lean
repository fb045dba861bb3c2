import Trustgraphs.HypercertsCore.Proofs.SemanticsProofs

/-!
# Proofs: self promotion

Which records give an edge between an author and an artifact of the same DID.
-/

namespace Trustgraphs.Hypercerts

open Text Outcome List
open Atproto (didNodeId)

/-- No edge leads from an author to an artifact of its DID, or back. -/
def SelfPromotionFree (H : Hashes) (D : Dagcbor) (repos : List RepoRecords) (g : DerivedGraph) : Prop :=
  ∀ r ∈ repos, ∀ coll rkey, CollisionFree H.keccak256 (atUri r.did coll rkey :: nodeNames D repos) →
    BTreeMap.cell g.outgoing (didNodeId H r.did, artifactNodeId H r.did coll rkey) = none ∧
      BTreeMap.cell g.outgoing (artifactNodeId H r.did coll rkey, didNodeId H r.did) = none

/-- A badge award of an author, under a definition that admits it, to a URI of its own DID. -/
def AwardsItself (D : Dagcbor) (targets : BTreeMap Bytes Bytes) (r : RepoRecords) : Prop :=
  ∃ e ∈ r.records, ∃ d badge subject coll rkey createdAt, decodeRecord D r e = some d ∧
    d.record = .badgeAward badge (.ref subject) createdAt ∧
    parseAtUri subject.uri = some (r.did, coll, rkey) ∧ Admits D targets badge r.did

/-- An author with a record that binds it to an address. -/
def Bound (H : Hashes) (D : Dagcbor) (K : K256) (P : Primitives) (r : RepoRecords) : Prop :=
  ∃ e ∈ r.records, ∃ d, decodeRecord D r e = some d ∧ binds H K P d = true

def BadgesCount (H : Hashes) (D : Dagcbor) (K : K256) (P : Primitives) (p : EdgeParams) (r : RepoRecords) :
    Prop :=
  Bound H D K P r ∧ p.wBadgeFp ≠ 0 ∨
    ¬ Bound H D K P r ∧ scale.toNat ≤ p.wBadgeFp.toNat * p.pdsAttestedWeightFp.toNat

section

variable {H : Hashes} {D : Dagcbor} {K : K256} {P : Primitives} {repos : List RepoRecords}
  {targets : BTreeMap Bytes Bytes} {p : EdgeParams} {g : DerivedGraph}
  {found : List (Decoded × Found)}

theorem did_eq_of_atUri_eq {did did' coll coll' rkey rkey' : Bytes} (hd : 47 ∉ did) (hd' : 47 ∉ did')
    (h : atUri did coll rkey = atUri did' coll' rkey') : did = did' := by
  rw [atUri_eq, atUri_eq, append_cancel_left_eq] at h
  exact (Readable.cut_unique (p := fun b => b = 47) (fun b hb h => hd (h ▸ hb))
    (fun b hb h => hd' (h ▸ hb)) rfl rfl h).1

theorem bound_iff (hauth : Authenticated repos) (hfree : CollisionFree H.keccak256 (nodeNames D repos))
    {r : RepoRecords} (hr : r ∈ repos) :
    didNodeId H r.did ∈ (indexAll H K P (decodeAll D repos)).bindings ↔ Bound H D K P r := by
  rw [mem_bindings_indexAll]
  constructor
  · rintro ⟨d, hd, hnode, hb⟩
    obtain ⟨r', hr', e, he, hdec⟩ := mem_decodeAll.mp hd
    have hdid := hfree.inj _ (recordNames_subset hd (did_mem_recordNames d)) _ (did_mem_names hr) hnode
    rw [(decodeRecord_eq_some hdec).1] at hdid
    obtain rfl := hauth.repo_unique hr' hr hdid
    exact ⟨e, he, d, hdec, hb⟩
  · rintro ⟨e, he, d, hdec, hb⟩
    refine ⟨d, mem_decodeAll.mpr ⟨r, hr, e, he, hdec⟩, ?_, hb⟩
    rw [(decodeRecord_eq_some hdec).1]

open Classical in
theorem authClass_eq (hauth : Authenticated repos)
    (hfree : CollisionFree H.keccak256 (nodeNames D repos)) {r : RepoRecords} (hr : r ∈ repos) :
    (authorOf H p (indexAll H K P (decodeAll D repos)) r.did).authClass =
      if Bound H D K P r then scale else p.pdsAttestedWeightFp := by
  unfold authorOf
  dsimp only
  have hiff := bound_iff (K := K) (P := P) hauth hfree hr
  rw [← Std.ExtTreeMap.contains_iff_mem] at hiff
  by_cases hb : Bound H D K P r
  · rw [if_pos hb, if_pos (hiff.mpr hb)]
  · rw [if_neg hb, if_neg fun h => hb (hiff.mp h)]

theorem product_self {s : ℕ} (hs : 0 < s) {a b c : U256} (hb : b.toNat = s) :
    product s s [a, b, c] = a.toNat * c.toNat / s := by
  rw [product_cons, product_cons, product_cons, product_nil, hb, Nat.mul_div_cancel_left _ hs,
    Nat.mul_div_cancel _ hs]

theorem awardWeight_ne_zero (hauth : Authenticated repos)
    (hfree : CollisionFree H.keccak256 (nodeNames D repos)) {r : RepoRecords} (hr : r ∈ repos) {w : U256}
    (hw : fpProduct scale [p.wBadgeFp, scale,
      (authorOf H p (indexAll H K P (decodeAll D repos)) r.did).authClass] = .ok w) :
    w ≠ 0 ↔ BadgesCount H D K P p r := by
  have hs : 0 < scale.toNat := by decide
  rw [← U256.toNat_pos, fpProduct_eq_ok hw, product_self hs rfl, authClass_eq hauth hfree hr, BadgesCount,
    ← U256.toNat_pos]
  by_cases hb : Bound H D K P r
  · rw [if_pos hb, Nat.mul_div_cancel _ hs]
    simp only [hb, true_and, not_true_eq_false, false_and, or_false]
  · rw [if_neg hb, Nat.div_pos_iff]
    simp only [hb, hs, true_and, not_false_eq_true, false_and, false_or]

namespace Derivation

/-- An edge from an author to an artifact of its DID is a badge award to itself. -/
theorem awardsItself_of_given (h : Derivation H D K P repos targets p g found)
    (hauth : Authenticated repos) {r : RepoRecords} (hr : r ∈ repos) {coll rkey : Bytes}
    (hfree : CollisionFree H.keccak256 (atUri r.did coll rkey :: nodeNames D repos)) {t : UInt8} {w : U256}
    (hgiven : Given found (didNodeId H r.did) (artifactNodeId H r.did coll rkey) t w) :
    AwardsItself D targets r ∧ fpProduct scale [p.wBadgeFp, scale,
      (authorOf H p (indexAll H K P (decodeAll D repos)) r.did).authClass] = .ok w := by
  obtain ⟨⟨n, c⟩, hc, hsource, htarget, -, hweight⟩ := hgiven
  obtain ⟨d, hd, f, hf, -, hcf⟩ := h.mem_candidates.mp hc
  dsimp only at hcf
  obtain ⟨r', hr', e, he, hdec⟩ := mem_decodeAll.mp hd
  have hdid := hauth.decoded_did_slash hd
  have hname : ∀ {s : Bytes}, s ∈ recordNames d → s ∈ atUri r.did coll rkey :: nodeNames D repos := fun hs =>
    mem_cons_of_mem _ (recordNames_subset hd hs)
  have hrname : r.did ∈ atUri r.did coll rkey :: nodeNames D repos := mem_cons_of_mem _ (did_mem_names hr)
  -- the author of the record is the author of the edge
  have hself : ∀ {n : B256}, n = didNodeId H d.did → n = didNodeId H r.did → d.did = r.did :=
    fun hn hn' => hfree.inj _ (hname (did_mem_recordNames d)) _ hrname (hn.symm.trans hn')
  have hgives := recordEdges_gives hf hcf
  cases hgives with
  | @follow subject createdAt _ hrec hpre =>
    have hs : subject ∈ recordNames d := by simp [recordNames, hrec]
    exact absurd (hfree.inj _ (hname hs) _ mem_cons_self htarget) (ne_atUri hpre)
  | @awardDid _ subject createdAt _ hrec hpre =>
    have hs : subject ∈ recordNames d := by simp [recordNames, hrec]
    exact absurd (hfree.inj _ (hname hs) _ mem_cons_self htarget) (ne_atUri hpre)
  | @awardRef badge subject did' coll' rkey' createdAt _ hrec huri hadm hw =>
    obtain ⟨hspell, hslash, -⟩ := parseAtUri_eq_some huri
    have hs : atUri did' coll' rkey' ∈ recordNames d := by simp [recordNames, hrec, hspell]
    have heq := hfree.inj _ (hname hs) _ mem_cons_self htarget
    have hd' := did_eq_of_atUri_eq hslash (hauth.did_slash r hr) heq
    have hauthor := hself rfl hsource
    rw [(decodeRecord_eq_some hdec).1] at hauthor
    obtain rfl := hauth.repo_unique hr' hr hauthor
    rw [(decodeRecord_eq_some hdec).1] at hadm hw
    rw [← hweight]
    exact ⟨⟨e, he, d, badge, subject, coll', rkey', createdAt, hdec, hrec, hd' ▸ huri, hadm⟩, hw⟩
  | @evaluation subject score did' coll' rkey' createdAt _ hrec huri hne =>
    obtain ⟨hspell, hslash, -⟩ := parseAtUri_eq_some huri
    have hs : atUri did' coll' rkey' ∈ recordNames d := by simp [recordNames, hrec, hspell]
    have heq := hfree.inj _ (hname hs) _ mem_cons_self htarget
    have hd' := did_eq_of_atUri_eq hslash (hauth.did_slash r hr) heq
    exact absurd (hd'.trans (hself rfl hsource).symm) hne
  | attribution hrec hent hce =>
    obtain ⟨-, _, -, rfl⟩ := attributionEdge_eq_ok hce
    have heq := hfree.inj _ (hname (uri_mem_recordNames d)) _ hrname hsource
    exact absurd heq.symm (ne_atUri (hauth.did_prefix r hr))

theorem not_given_back (h : Derivation H D K P repos targets p g found)
    (hauth : Authenticated repos) {r : RepoRecords} (hr : r ∈ repos) {coll rkey : Bytes}
    (hfree : CollisionFree H.keccak256 (atUri r.did coll rkey :: nodeNames D repos)) {t : UInt8} {w : U256} :
    ¬ Given found (artifactNodeId H r.did coll rkey) (didNodeId H r.did) t w := by
  rintro ⟨⟨n, c⟩, hc, hsource, htarget, -, -⟩
  obtain ⟨d, hd, f, hf, -, hcf⟩ := h.mem_candidates.mp hc
  dsimp only at hcf
  have hname : ∀ {s : Bytes}, s ∈ recordNames d → s ∈ atUri r.did coll rkey :: nodeNames D repos := fun hs =>
    mem_cons_of_mem _ (recordNames_subset hd hs)
  have hrname : r.did ∈ atUri r.did coll rkey :: nodeNames D repos := mem_cons_of_mem _ (did_mem_names hr)
  -- an actor is not an artifact
  have hactor : ∀ {n : B256}, n = didNodeId H d.did → n = artifactNodeId H r.did coll rkey → False :=
    fun hn hn' => ne_atUri (hauth.decoded_did_prefix hd)
      (hfree.inj _ (hname (did_mem_recordNames d)) _ mem_cons_self (hn.symm.trans hn'))
  have hgives := recordEdges_gives hf hcf
  cases hgives with
  | follow => exact hactor rfl hsource
  | awardDid => exact hactor rfl hsource
  | awardRef => exact hactor rfl hsource
  | evaluation => exact hactor rfl hsource
  | @attribution contributors createdAt ent _ hrec hent hce =>
    obtain ⟨-, _, -, rfl⟩ := attributionEdge_eq_ok hce
    rw [parsed_eq] at hent
    obtain ⟨contributor, hcon, hcounted⟩ := mem_filterMap.mp hent
    obtain ⟨hnode, hident, -, hne, -, -⟩ := counted_eq_some hcounted
    have hs : contributor.identity ∈ recordNames d := by
      simp only [recordNames, hrec, mem_cons, mem_map]
      exact Or.inr (Or.inr ⟨contributor, hcon, rfl⟩)
    have hauthor := did_eq_of_atUri_eq (hauth.decoded_did_slash hd) (hauth.did_slash r hr)
      (hfree.inj _ (hname (uri_mem_recordNames d)) _ mem_cons_self hsource)
    dsimp only at htarget
    rw [hnode, hident] at htarget
    exact hne ((hfree.inj _ (hname hs) _ hrname htarget).trans hauthor.symm)

theorem given_of_awardsItself (h : Derivation H D K P repos targets p g found)
    (hauth : Authenticated repos) (hfree : CollisionFree H.keccak256 (nodeNames D repos)) {r : RepoRecords}
    (hr : r ∈ repos) (haward : AwardsItself D targets r) :
    ∃ coll rkey w, atUri r.did coll rkey ∈ nodeNames D repos ∧
      Given found (didNodeId H r.did) (artifactNodeId H r.did coll rkey) T_BADGE w := by
  obtain ⟨e, he, d, badge, subject, coll, rkey, createdAt, hdec, hrec, huri, hadm⟩ := haward
  have hd : d ∈ decodeAll D repos := mem_decodeAll.mpr ⟨r, hr, e, he, hdec⟩
  have hdid := (decodeRecord_eq_some hdec).1
  obtain ⟨hspell, -, -⟩ := parseAtUri_eq_some huri
  have hname : atUri r.did coll rkey ∈ nodeNames D repos :=
    recordNames_subset hd (by simp [recordNames, hrec, hspell])
  obtain ⟨⟨d', f⟩, hf, hrecord, -⟩ := Related.exists_of_forall₂ h.records.flip hd
  simp only [recordEdges, hrec] at hrecord
  rcases badgeEdges_eq_ok hrecord with ⟨-, hnot⟩ | ⟨-, haward⟩
  · exact absurd (hdid ▸ hadm) hnot
  · rcases awardEdges_ref huri haward with ⟨hnode, -⟩ | ⟨w, -, hfound⟩
    · have heq := hfree.inj _ hname _ (did_mem_names hr) (hdid ▸ hnode)
      exact absurd heq.symm (ne_atUri (hauth.did_prefix r hr))
    · refine ⟨coll, rkey, w, hname, ?_⟩
      have hmem : (⟨didNodeId H d.did, artifactNodeId H r.did coll rkey, T_BADGE, w,
          (createdAt, d.rkey)⟩ : Candidate) ∈ f.1 := by
        rw [hfound]
        exact mem_singleton_self _
      have hrecord' : recordEdges H D targets p (indexAll H K P (decodeAll D repos)) d = .ok f := by
        simp only [recordEdges, hrec]
        exact hrecord
      exact ⟨(d.anchorFoldIndex, _), h.mem_candidates.mpr ⟨d, hd, f, hrecord', rfl, hmem⟩,
        congrArg (didNodeId H) hdid, rfl, rfl, rfl⟩

end Derivation

/-- Self promotion is inert exactly when no author whose badges count awards one to an artifact of its
own. -/
theorem derive_inert_iff (hauth : Authenticated repos) (hfree : CollisionFree H.keccak256 (nodeNames D repos))
    (h : derive H D K P repos targets p = .ok g) :
    SelfPromotionFree H D repos g ↔ ∀ r ∈ repos, AwardsItself D targets r → ¬ BadgesCount H D K P p r := by
  obtain ⟨found, hd⟩ := derive_eq_ok h
  constructor
  · intro hinert r hr haward hcount
    obtain ⟨coll, rkey, w, hname, hgiven⟩ := hd.given_of_awardsItself hauth hfree hr haward
    have hfree' : CollisionFree H.keccak256 (atUri r.did coll rkey :: nodeNames D repos) :=
      hfree.mono (forall_mem_cons.mpr ⟨hname, fun _ hs => hs⟩)
    have hedge := hd.edge_of_given hgiven fun w hw =>
      (awardWeight_ne_zero hauth hfree hr (hd.awardsItself_of_given hauth hr hfree' hw).2).mpr hcount
    rw [(hinert r hr coll rkey hfree').1] at hedge
    exact absurd hedge (by simp)
  · intro hno r hr coll rkey hfree'
    constructor
    · by_contra hedge
      obtain ⟨t, w, hgiven, hw⟩ := hd.given_of_edge (Option.isSome_iff_ne_none.mpr hedge)
      obtain ⟨haward, hweight⟩ := hd.awardsItself_of_given hauth hr hfree' hgiven
      exact hno r hr haward ((awardWeight_ne_zero hauth hfree hr hweight).mp hw)
    · by_contra hedge
      obtain ⟨t, w, hgiven, -⟩ := hd.given_of_edge (Option.isSome_iff_ne_none.mpr hedge)
      exact hd.not_given_back hauth hr hfree' hgiven

end

namespace SelfPromotionExample

open SemanticsExample

/-! An author that publishes a badge definition and awards the badge to an activity of its own. -/

@[irreducible]
def definitionBytes : Bytes := List.flatten [
  beBytes 32 0xa1652474797065781e6170702e6365727469666965642e62616467652e646566,
  beBytes 7 0x696e6974696f6e]

@[irreducible]
def awardBytes : Bytes := List.flatten [
  beBytes 32 0xa465247479706578196170702e6365727469666965642e62616467652e617761,
  beBytes 32 0x7264656261646765a263636964783b6261667972656961626e34746876756668,
  beBytes 32 0x34327468757a7766366a74347568746566677132767279797875357179776832,
  beBytes 32 0x7834646d336f7832646963757269784661743a2f2f6469643a706c633a773266,
  beBytes 32 0x3361676264733373646770363470643770367078792f6170702e636572746966,
  beBytes 32 0x6965642e62616467652e646566696e6974696f6e2f64677375626a656374a263,
  beBytes 32 0x636964686261667966616b6563757269784861743a2f2f6469643a706c633a77,
  beBytes 32 0x32663361676264733373646770363470643770367078792f6f72672e68797065,
  beBytes 32 0x7263657274732e636c61696d2e61637469766974792f61637431696372656174,
  beBytes 25 0x6564417474323032362d30312d30315430303a30303a30305a]

def did : Bytes := utf8 "did:plc:w2f3agbds3sdgp64pd7p6pxy"

def activityUri : Bytes := atUri did (utf8 "org.hypercerts.claim.activity") (utf8 "act1")

def definitionCid : Bytes := utf8 "bafyreiabn4thvufh42thuzwf6jt4uhtefgq2vryyxu5qywh2x4dm3ox2di"

def hashes : Hashes where
  keccak256 s :=
    if s = did then .ofNat 32 0x3e69e11cd87c0bc7da11673db75b93ecbe84b5c51323d636bebfafef54c7549e
    else if s = activityUri then
      .ofNat 32 0xe1a7164c2409769f5d29ea8d3f541cbb915fe0bc98d18bb45ac545e814874fb7
    else if s = atUri did (utf8 "app.certified.badge.award") (utf8 "aw") then
      .ofNat 32 0x80841a9110535e09eb7785c5f91bc7c928309bae6d673b5e96b1eacfbd4e4a2e
    else 0
  sha256 s :=
    if s = definitionBytes then .ofNat 32 0x016f267ad0a7e6a67a66c5f267ca1e6429a1aac718bd3b0c58fabf06cdbafa1a
    else 0

def codec : Dagcbor where
  fromSlice s :=
    if s = definitionBytes then
      some (.map [(utf8 "$type", .string (utf8 "app.certified.badge.definition"))])
    else if s = awardBytes then
      some (.map [
        (utf8 "$type", .string (utf8 "app.certified.badge.award")),
        (utf8 "badge", .map [(utf8 "cid", .string definitionCid),
          (utf8 "uri", .string (atUri did (utf8 "app.certified.badge.definition") (utf8 "d")))]),
        (utf8 "createdAt", .string (utf8 "2026-01-01T00:00:00Z")),
        (utf8 "subject", .map [(utf8 "cid", .string (utf8 "bafyfake")), (utf8 "uri", .string activityUri)])])
    else none
  toVec _ := none

def repos : List RepoRecords := [⟨did, 0, [(utf8 "app.certified.badge.award/aw", awardBytes)]⟩]

def targets : BTreeMap Bytes Bytes := (∅ : BTreeMap Bytes Bytes).insert definitionCid definitionBytes

theorem facts : nodeNames codec repos =
      [did, did, atUri did (utf8 "app.certified.badge.award") (utf8 "aw"), activityUri] ∧
    (∀ s ∈ nodeNames codec repos, ∀ t ∈ nodeNames codec repos,
      hashes.keccak256 s = hashes.keccak256 t → s = t) ∧
    (∀ s ∈ nodeNames codec repos, hashes.keccak256 s ≠ 0) ∧
    (derive hashes codec recovery primitives repos targets params).toOption.map
      (fun g => BTreeMap.cell g.outgoing (hashes.keccak256 did, hashes.keccak256 activityUri)) =
        some (some 250000000000000000) := by
  decide +kernel

theorem authenticated : Authenticated repos where
  did_prefix := by decide
  did_slash := by decide
  dids := by decide
  keys := by decide

theorem collisionFree : CollisionFree hashes.keccak256 (nodeNames codec repos) := ⟨facts.2.1, facts.2.2.1⟩

theorem derive_isOk : ∃ g, derive hashes codec recovery primitives repos targets params = .ok g := by
  obtain ⟨g, hg, -⟩ := Option.map_eq_some_iff.mp facts.2.2.2
  exact ⟨g, toOption_eq_some.mp hg⟩

end SelfPromotionExample

open SemanticsExample SelfPromotionExample in
theorem derive_inert_iff_award : ∃ g, derive hashes codec recovery primitives repos targets params = .ok g ∧
      (SelfPromotionFree hashes codec repos g ↔ ∀ r ∈ repos, AwardsItself codec targets r →
        ¬ BadgesCount hashes codec recovery primitives params r) := by
  obtain ⟨g, hg⟩ := derive_isOk
  exact ⟨g, hg, derive_inert_iff authenticated collisionFree hg⟩

open SemanticsExample SelfPromotionExample in
/-- An author has an edge to an activity of its own. -/
theorem not_derive_inert : ¬ ∀ (H : Hashes) (D : Dagcbor) (K : K256) (P : Primitives) (repos : List RepoRecords)
      (targets : BTreeMap Bytes Bytes) (p : EdgeParams) (g : DerivedGraph),
      Authenticated repos → CollisionFree H.keccak256 (nodeNames D repos) →
      derive H D K P repos targets p = .ok g → SelfPromotionFree H D repos g := by
  intro hall
  obtain ⟨g, hg, hcell⟩ := Option.map_eq_some_iff.mp facts.2.2.2
  have hfree := hall hashes codec recovery primitives repos targets params g authenticated collisionFree
    (toOption_eq_some.mp hg)
  have hname : activityUri ∈ nodeNames codec repos := by
    rw [facts.1]
    simp
  have hnone := (hfree _ (List.mem_singleton_self _) (utf8 "org.hypercerts.claim.activity") (utf8 "act1")
    (collisionFree.mono (forall_mem_cons.mpr ⟨hname, fun _ hs => hs⟩))).1
  exact absurd (hcell.symm.trans hnone) (by simp)

end Trustgraphs.Hypercerts
