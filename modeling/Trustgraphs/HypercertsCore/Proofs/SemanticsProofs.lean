import Trustgraphs.HypercertsCore.Semantics
import Trustgraphs.Lib.LastWrite
import Trustgraphs.Lib.Readable
import Trustgraphs.Lib.Related

/-!
# Proofs: the derived graph

What each record gives, and what becomes of it: the weight of an edge is read off the last writes of
its source and target.
-/

namespace Trustgraphs.Hypercerts

open Text Outcome BTreeMap
open Atproto (didNodeId)

theorem atUri_eq (did coll rkey : Bytes) :
    atUri did coll rkey = utf8 "at://" ++ (did ++ 47 :: (coll ++ 47 :: rkey)) := by
  have hslash : utf8 "/" = [47] := by decide
  simp only [atUri, hslash, List.append_assoc, List.cons_append, List.nil_append]

variable {did coll rkey : Bytes} {D : Dagcbor} {repos : List RepoRecords} {d : Decoded}
  {base w : U256}

theorem atUri_inj {did' coll' rkey' : Bytes} (hd : 47 ∉ did) (hd' : 47 ∉ did')
    (hc : 47 ∉ coll) (hc' : 47 ∉ coll') (h : atUri did coll rkey = atUri did' coll' rkey') :
    did = did' ∧ coll = coll' ∧ rkey = rkey' := by
  have hfree : ∀ {l : Bytes}, 47 ∉ l → ∀ b ∈ l, ¬ b = 47 := by
    rintro l hl b hb rfl
    exact hl hb
  rw [atUri_eq, atUri_eq, List.append_cancel_left_eq] at h
  obtain ⟨rfl, -, h⟩ := Readable.cut_unique (p := fun b => b = 47) (hfree hd) (hfree hd') rfl rfl h
  obtain ⟨rfl, -, rfl⟩ := Readable.cut_unique (p := fun b => b = 47) (hfree hc) (hfree hc') rfl rfl h
  exact ⟨rfl, rfl, rfl⟩

theorem parseAtUri_eq_some {uri : Bytes} (h : parseAtUri uri = some (did, coll, rkey)) :
    uri = atUri did coll rkey ∧ 47 ∉ did ∧ 47 ∉ coll := by
  simp only [parseAtUri, Option.bind_eq_bind, Option.bind_eq_some_iff, Prod.exists] at h
  obtain ⟨rest, hrest, d, rest', hcut, c, k, hcut', h⟩ := h
  obtain rfl := stripPrefix_eq_some.mp hrest
  obtain ⟨rfl, hd⟩ := splitOnce_eq_some.mp hcut
  obtain ⟨rfl, hc⟩ := splitOnce_eq_some.mp hcut'
  split at h
  · exact absurd h (by simp)
  · simp only [Option.some_inj, Prod.mk.injEq] at h
    obtain ⟨rfl, rfl, rfl⟩ := h
    exact ⟨(atUri_eq d c k).symm, hd, hc⟩

theorem ne_atUri {s : Bytes} (h : startsWith (utf8 "did:") s = true) :
    s ≠ atUri did coll rkey := by
  obtain ⟨t, rfl⟩ := List.isPrefixOf_iff_prefix.mp h
  rw [atUri_eq]
  intro heq
  have hd : utf8 "did:" = 100 :: utf8 "id:" := by decide
  have ha : utf8 "at://" = 97 :: utf8 "t://" := by decide
  rw [hd, ha, List.cons_append, List.cons_append] at heq
  exact absurd (List.cons.inj heq).1 (by decide)

/-- What is known of repositories that came out of the envelopes: a DID starts as such and has no
slash, no DID has two repositories, and no key of a tree occurs twice. -/
structure Authenticated (repos : List RepoRecords) : Prop where
  did_prefix : ∀ r ∈ repos, startsWith (utf8 "did:") r.did = true
  did_slash : ∀ r ∈ repos, 47 ∉ r.did
  dids : (repos.map RepoRecords.did).Nodup
  keys : ∀ r ∈ repos, (r.records.map Prod.fst).Nodup

def recordNames (d : Decoded) : List Bytes :=
  d.did :: atUri d.did d.coll d.rkey ::
    match d.record with
    | .follow subjectDid _ => [subjectDid]
    | .badgeAward _ (.did subjectDid) _ => [subjectDid]
    | .badgeAward _ (.ref r) _ => [r.uri]
    | .evaluation (some subject) _ _ => [subject.uri]
    | .activity contributors _ => contributors.map Contributor.identity
    | _ => []

def nodeNames (D : Dagcbor) (repos : List RepoRecords) : List Bytes :=
  repos.map RepoRecords.did ++ (decodeAll D repos).flatMap recordNames

theorem mem_decodeAll : d ∈ decodeAll D repos ↔ ∃ r ∈ repos, ∃ e ∈ r.records, decodeRecord D r e = some d := by
  simp only [decodeAll, List.mem_flatMap, List.mem_filterMap]

theorem decodeRecord_eq_some {r : RepoRecords} {e : Bytes × Bytes} (h : decodeRecord D r e = some d) :
    d.did = r.did ∧ d.anchorFoldIndex = r.anchorFoldIndex ∧ e.1 = d.coll ++ 47 :: d.rkey ∧ 47 ∉ d.coll ∧
      decode D d.coll e.2 = some d.record := by
  simp only [decodeRecord, Option.bind_eq_bind, Option.bind_eq_some_iff, Prod.exists] at h
  obtain ⟨coll, rkey, hkey, record, hrec, h⟩ := h
  obtain ⟨hkey, hcoll⟩ := splitOnce_eq_some.mp hkey
  obtain rfl := Option.some.inj h
  exact ⟨rfl, rfl, hkey, hcoll, hrec⟩

theorem recordNames_subset
    (hd : d ∈ decodeAll D repos) {s : Bytes} (hs : s ∈ recordNames d) : s ∈ nodeNames D repos :=
  List.mem_append_right _ (List.mem_flatMap.mpr ⟨d, hd, hs⟩)

theorem did_mem_names {r : RepoRecords} (hr : r ∈ repos) : r.did ∈ nodeNames D repos :=
  List.mem_append_left _ (List.mem_map.mpr ⟨r, hr, rfl⟩)

theorem did_mem_recordNames (d : Decoded) : d.did ∈ recordNames d := List.mem_cons_self

theorem uri_mem_recordNames (d : Decoded) : atUri d.did d.coll d.rkey ∈ recordNames d :=
  List.mem_cons_of_mem _ List.mem_cons_self

namespace Authenticated

variable {D : Dagcbor} {repos : List RepoRecords}

theorem decoded_did_prefix (h : Authenticated repos) {d : Decoded} (hd : d ∈ decodeAll D repos) :
    startsWith (utf8 "did:") d.did = true := by
  obtain ⟨r, hr, e, -, he⟩ := mem_decodeAll.mp hd
  rw [(decodeRecord_eq_some he).1]
  exact h.did_prefix r hr

theorem decoded_did_slash (h : Authenticated repos) {d : Decoded} (hd : d ∈ decodeAll D repos) :
    47 ∉ d.did := by
  obtain ⟨r, hr, e, -, he⟩ := mem_decodeAll.mp hd
  rw [(decodeRecord_eq_some he).1]
  exact h.did_slash r hr

theorem repo_unique (h : Authenticated repos) {r r' : RepoRecords} (hr : r ∈ repos) (hr' : r' ∈ repos)
    (heq : r.did = r'.did) : r = r' :=
  List.inj_on_of_nodup_map h.dids hr hr' heq

theorem decoded_unique (h : Authenticated repos) {d d' : Decoded} (hd : d ∈ decodeAll D repos)
    (hd' : d' ∈ decodeAll D repos) (hdid : d.did = d'.did) (hcoll : d.coll = d'.coll)
    (hrkey : d.rkey = d'.rkey) : d = d' := by
  obtain ⟨r, hr, e, he, hdec⟩ := mem_decodeAll.mp hd
  obtain ⟨r', hr', e', he', hdec'⟩ := mem_decodeAll.mp hd'
  have hf := decodeRecord_eq_some hdec
  have hf' := decodeRecord_eq_some hdec'
  obtain rfl := h.repo_unique hr hr' (by rw [← hf.1, ← hf'.1, hdid])
  have hkey : e.1 = e'.1 := by rw [hf.2.2.1, hf'.2.2.1, hcoll, hrkey]
  obtain rfl := List.inj_on_of_nodup_map (h.keys r hr) he he' hkey
  rw [hdec, Option.some_inj] at hdec'
  exact hdec'

theorem decoded_coll {d : Decoded} (hd : d ∈ decodeAll D repos) : 47 ∉ d.coll := by
  obtain ⟨r, -, e, -, he⟩ := mem_decodeAll.mp hd
  exact (decodeRecord_eq_some he).2.2.2.1

end Authenticated

theorem fpProduct_nil : fpProduct base [] = .ok w ↔ base = w := by
  show (Except.ok base : SemanticsM U256) = .ok w ↔ base = w
  rw [Except.ok.injEq]

theorem fpProduct_cons {f : U256} {fs : List U256} : fpProduct base (f :: fs) = .ok w ↔
      ∃ v, v.toNat = base.toNat * f.toNat / scale.toNat ∧ fpProduct v fs = .ok w := by
  have hs : scale ≠ 0 := by decide
  simp only [fpProduct, List.foldlM_cons, bind_eq_ok, ofPanic_eq_ok, fpMul_eq_some, ne_eq, hs,
    not_false_eq_true, true_and]

def product (s base : ℕ) (factors : List U256) : ℕ := factors.foldl (fun w f => w * f.toNat / s) base

theorem product_nil (s base : ℕ) : product s base [] = base := rfl

theorem product_cons (s base : ℕ) (f : U256) (fs : List U256) :
    product s base (f :: fs) = product s (base * f.toNat / s) fs := rfl

theorem product_mono (s : ℕ) {m n : ℕ} (h : m ≤ n) (fs : List U256) : product s m fs ≤ product s n fs := by
  induction fs generalizing m n with
  | nil => exact h
  | cons f fs ih => exact ih (Nat.div_le_div_right (Nat.mul_le_mul_right _ h))

theorem fpProduct_eq_ok {fs : List U256} (h : fpProduct base fs = .ok w) :
    w.toNat = product scale.toNat base.toNat fs := by
  induction fs generalizing base with
  | nil => rw [← fpProduct_nil.mp h, product_nil]
  | cons f fs ih =>
    obtain ⟨v, hv, h⟩ := fpProduct_cons.mp h
    rw [ih h, hv, product_cons]

section

variable {H : Hashes} {D : Dagcbor} {targets : BTreeMap Bytes Bytes} {p : EdgeParams}
  {ix : Index}

/-- A badge definition that is supplied and admits an issuer. -/
def Admits (D : Dagcbor) (targets : BTreeMap Bytes Bytes) (badge : StrongRef) (issuer : Bytes) : Prop :=
  ∃ bytes allowed, targets[badge.cid]? = some bytes ∧ decodeAllowedIssuers D bytes = some allowed ∧
    ∀ l, allowed = some l → issuer ∈ l

inductive Gives (H : Hashes) (D : Dagcbor) (targets : BTreeMap Bytes Bytes)
    (p : EdgeParams) (ix : Index) (d : Decoded) : Candidate → Prop
  | follow {subject createdAt : Bytes} {w : U256} (hrec : d.record = .follow subject createdAt)
      (hdid : startsWith (utf8 "did:") subject = true) (hne : didNodeId H subject ≠ didNodeId H d.did) :
      Gives H D targets p ix d ⟨didNodeId H d.did, didNodeId H subject, T_FOLLOW, w, (createdAt, d.rkey)⟩
  | awardDid {badge : StrongRef} {subject createdAt : Bytes} {w : U256}
      (hrec : d.record = .badgeAward badge (.did subject) createdAt)
      (hdid : startsWith (utf8 "did:") subject = true) (hne : didNodeId H subject ≠ didNodeId H d.did) :
      Gives H D targets p ix d ⟨didNodeId H d.did, didNodeId H subject, T_BADGE, w, (createdAt, d.rkey)⟩
  | awardRef {badge r : StrongRef} {did coll rkey createdAt : Bytes} {w : U256}
      (hrec : d.record = .badgeAward badge (.ref r) createdAt)
      (huri : parseAtUri r.uri = some (did, coll, rkey)) (hadm : Admits D targets badge d.did)
      (hw : fpProduct scale [p.wBadgeFp, scale, (authorOf H p ix d.did).authClass] = .ok w) :
      Gives H D targets p ix d
        ⟨didNodeId H d.did, artifactNodeId H did coll rkey, T_BADGE, w, (createdAt, d.rkey)⟩
  | evaluation {subject : StrongRef} {score : Score} {did coll rkey createdAt : Bytes} {w : U256}
      (hrec : d.record = .evaluation (some subject) (some score) createdAt)
      (huri : parseAtUri subject.uri = some (did, coll, rkey)) (hne : did ≠ d.did) :
      Gives H D targets p ix d
        ⟨didNodeId H d.did, artifactNodeId H did coll rkey, T_EVAL, w, (createdAt, d.rkey)⟩
  | attribution {contributors : List Contributor} {createdAt : Bytes} {e : B256 × Bytes × U256}
      {c : Candidate} (hrec : d.record = .activity contributors createdAt)
      (he : e ∈ (contributors.foldl (addContributor H (authorOf H p ix d.did)) ⟨[], 0, []⟩).parsed)
      (hc : attributionEdge H p ix (authorOf H p ix d.did) d.coll d.rkey createdAt
        (contributors.foldl (addContributor H (authorOf H p ix d.did)) ⟨[], 0, []⟩).total e = .ok c) :
      Gives H D targets p ix d c

variable {f : Found} {d : Decoded} {createdAt : Bytes} {c : Candidate} {author : Author}
  {coll rkey : Bytes}

theorem skipped_eq_ok {reason : UInt8} (h : skipped reason = .ok f) : f.1 = [] := by rw [← ok_inj h]

theorem followEdges_gives {subject : Bytes} (hrec : d.record = .follow subject createdAt)
    (h : followEdges H p (authorOf H p ix d.did) d.rkey subject createdAt = .ok f) (hc : c ∈ f.1) :
    Gives H D targets p ix d c := by
  unfold followEdges at h
  split at h
  · rw [skipped_eq_ok h] at hc
    exact absurd hc List.not_mem_nil
  rename_i hdid
  dsimp only at h
  split at h
  · rw [skipped_eq_ok h] at hc
    exact absurd hc List.not_mem_nil
  rename_i hne
  obtain ⟨w, -, h⟩ := of_bind h
  rw [← ok_inj h, List.mem_singleton] at hc
  rw [hc]
  exact .follow hrec (by simpa using hdid) hne

theorem badgeEdges_eq_ok {badge : StrongRef} {subject : BadgeSubject}
    (h : badgeEdges H D targets p ix author coll rkey badge subject createdAt = .ok f) :
    f.1 = [] ∧ ¬ Admits D targets badge author.did ∨ Admits D targets badge author.did ∧
      awardEdges H p ix author coll rkey subject createdAt = .ok f := by
  unfold badgeEdges at h
  cases hget : targets[badge.cid]? with
  | none => simp only [hget, reduceCtorEq] at h
  | some bytes =>
    simp only [hget] at h
    obtain ⟨-, h⟩ := of_guard h
    cases hdef : decodeAllowedIssuers D bytes with
    | none =>
      simp only [hdef] at h
      refine Or.inl ⟨skipped_eq_ok h, ?_⟩
      rintro ⟨bytes', allowed, hb, ha, -⟩
      rw [hget, Option.some_inj] at hb
      rw [← hb, hdef] at ha
      exact absurd ha (by simp)
    | some allowed =>
      simp only [hdef] at h
      split at h
      · rename_i hmiss
        refine Or.inl ⟨skipped_eq_ok h, ?_⟩
        rintro ⟨bytes', allowed', hb, ha, hin⟩
        rw [hget, Option.some_inj] at hb
        rw [← hb, hdef, Option.some_inj] at ha
        subst ha
        cases allowed with
        | none => exact absurd hmiss (by simp)
        | some l => exact absurd (hin l rfl) (by simpa using hmiss)
      · rename_i hmiss
        refine Or.inr ⟨⟨bytes, allowed, hget, hdef, ?_⟩, h⟩
        rintro l rfl
        simpa using hmiss

theorem awardEdges_ref {did coll' rkey' : Bytes} {r : StrongRef}
    (huri : parseAtUri r.uri = some (did, coll', rkey'))
    (h : awardEdges H p ix author coll rkey (.ref r) createdAt = .ok f) :
    artifactNodeId H did coll' rkey' = author.node ∧ f.1 = [] ∨
      ∃ w, fpProduct scale [p.wBadgeFp, scale, author.authClass] = .ok w ∧
        f.1 = [⟨author.node, artifactNodeId H did coll' rkey', T_BADGE, w, (createdAt, rkey)⟩] := by
  unfold awardEdges at h
  simp only [badgeTarget, huri, verdictOf] at h
  split at h
  · rename_i heq
    exact Or.inl ⟨heq, skipped_eq_ok h⟩
  · obtain ⟨w, hw, h⟩ := of_bind h
    exact Or.inr ⟨w, hw, by rw [← ok_inj h]⟩

theorem awardEdges_gives {badge : StrongRef} {subject : BadgeSubject}
    (hrec : d.record = .badgeAward badge subject createdAt) (hadm : Admits D targets badge d.did)
    (h : awardEdges H p ix (authorOf H p ix d.did) d.coll d.rkey subject createdAt = .ok f)
    (hc : c ∈ f.1) : Gives H D targets p ix d c := by
  cases subject with
  | ref r =>
    cases huri : parseAtUri r.uri with
    | none =>
      simp only [awardEdges, badgeTarget, huri] at h
      rw [skipped_eq_ok h] at hc
      exact absurd hc List.not_mem_nil
    | some parts =>
      obtain ⟨did, coll, rkey⟩ := parts
      rcases awardEdges_ref huri h with ⟨-, hf⟩ | ⟨w, hw, hf⟩
      · rw [hf] at hc
        exact absurd hc List.not_mem_nil
      · rw [hf, List.mem_singleton] at hc
        rw [hc]
        exact .awardRef hrec huri hadm hw
  | did subject =>
    unfold awardEdges badgeTarget at h
    by_cases hdid : startsWith (utf8 "did:") subject = true
    · simp only [hdid, if_true] at h
      split at h
      · rw [skipped_eq_ok h] at hc
        exact absurd hc List.not_mem_nil
      rename_i hne
      split at h
      · rw [skipped_eq_ok h] at hc
        exact absurd hc List.not_mem_nil
      · rw [← ok_inj h] at hc
        exact absurd hc List.not_mem_nil
      · obtain ⟨w, -, h⟩ := of_bind h
        rw [← ok_inj h, List.mem_singleton] at hc
        rw [hc]
        exact .awardDid hrec hdid hne
    · simp only [hdid] at h
      rw [skipped_eq_ok h] at hc
      exact absurd hc List.not_mem_nil

theorem evaluationEdges_gives {subject : Option StrongRef} {score : Option Score}
    (hrec : d.record = .evaluation subject score createdAt)
    (h : evaluationEdges H p (authorOf H p ix d.did) d.rkey subject score createdAt = .ok f)
    (hc : c ∈ f.1) : Gives H D targets p ix d c := by
  have hnone : ∀ {reason : UInt8}, skipped reason = .ok f → False := by
    intro reason hskip
    rw [skipped_eq_ok hskip] at hc
    exact List.not_mem_nil hc
  unfold evaluationEdges at h
  split at h
  · split at h
    · exact (hnone h).elim
    rename_i sdid scoll srkey huri
    split at h
    · exact (hnone h).elim
    rename_i hne
    split at h
    · exact (hnone h).elim
    obtain ⟨base, -, h⟩ := of_bind h
    obtain ⟨w, -, h⟩ := of_bind h
    rw [← ok_inj h, List.mem_singleton] at hc
    rw [hc]
    exact .evaluation hrec huri hne
  · exact (hnone h).elim

theorem activityEdges_eq_ok {contributors : List Contributor}
    (h : activityEdges H p ix author coll rkey contributors createdAt = .ok f) :
    (contributors.foldl (addContributor H author) ⟨[], 0, []⟩).total = 0 ∧ f.1 = [] ∨
      (contributors.foldl (addContributor H author) ⟨[], 0, []⟩).total ≠ 0 ∧
      List.Forall₂ (fun e c => attributionEdge H p ix author coll rkey createdAt
          (contributors.foldl (addContributor H author) ⟨[], 0, []⟩).total e = .ok c)
        (contributors.foldl (addContributor H author) ⟨[], 0, []⟩).parsed f.1 := by
  unfold activityEdges at h
  dsimp only at h
  split at h
  · rename_i htotal
    exact Or.inl ⟨htotal, by rw [← ok_inj h]⟩
  · rename_i htotal
    obtain ⟨cs, hcs, h⟩ := of_bind h
    rw [← ok_inj h]
    exact Or.inr ⟨htotal, mapM_eq_ok.mp hcs⟩

theorem recordEdges_gives
    (h : recordEdges H D targets p ix d = .ok f) (hc : c ∈ f.1) : Gives H D targets p ix d c := by
  have hnone : (Except.ok ([], []) : SemanticsM Found) = .ok f → False := by
    intro hskip
    rw [← ok_inj hskip] at hc
    exact List.not_mem_nil hc
  unfold recordEdges at h
  dsimp only at h
  split at h
  · rename_i hrec
    exact followEdges_gives hrec h hc
  · rename_i hrec
    rcases badgeEdges_eq_ok h with ⟨hf, -⟩ | ⟨hadm, h⟩
    · rw [hf] at hc
      exact absurd hc List.not_mem_nil
    · exact awardEdges_gives hrec hadm h hc
  · rename_i hrec
    exact evaluationEdges_gives hrec h hc
  · rename_i hrec
    rcases activityEdges_eq_ok h with ⟨-, hf⟩ | ⟨-, hall⟩
    · rw [hf] at hc
      exact absurd hc List.not_mem_nil
    · obtain ⟨e, he, hce⟩ := Related.exists_of_forall₂ hall hc
      exact .attribution hrec he hce
  · exact (hnone h).elim
  · exact (hnone h).elim
  · exact (hnone h).elim

end

/-- The entry of a contributor that counts: a DID other than the author, with a weight. -/
def counted (H : Hashes) (author : Bytes) (c : Contributor) : Option (B256 × Bytes × U256) :=
  if startsWith (utf8 "did:") c.identity = true ∧ c.identity ≠ author then
    ((c.contributionWeight.bind parseFp).filter (· ≠ 0)).map fun w => (didNodeId H c.identity, c.identity, w)
  else none

theorem counted_eq_some {H : Hashes} {author : Bytes} {c : Contributor} {e : B256 × Bytes × U256}
    (h : counted H author c = some e) :
    e.1 = didNodeId H e.2.1 ∧ e.2.1 = c.identity ∧ startsWith (utf8 "did:") c.identity = true ∧
      c.identity ≠ author ∧ e.2.2 ≠ 0 ∧ c.contributionWeight.bind parseFp = some e.2.2 := by
  unfold counted at h
  split at h
  · rename_i hc
    obtain ⟨w, hw, rfl⟩ := Option.map_eq_some_iff.mp h
    obtain ⟨hw, hne⟩ := Option.filter_eq_some_iff.mp hw
    exact ⟨rfl, rfl, hc.1, hc.2, by simpa using hne, hw⟩
  · exact absurd h (by simp)

theorem addContributor_counted (H : Hashes) (author : Author) (st : Attribution) (c : Contributor) :
    (addContributor H author st c).parsed = st.parsed ++ (counted H author.did c).toList ∧
      (addContributor H author st c).total = st.total + ((counted H author.did c).toList.map (·.2.2)).sum := by
  unfold addContributor counted
  by_cases hdid : startsWith (utf8 "did:") c.identity = true
  · rw [if_neg (not_not.mpr hdid)]
    by_cases hself : c.identity = author.did
    · rw [if_pos hself, if_neg fun h => h.2 hself]
      simp
    · rw [if_neg hself, if_pos ⟨hdid, hself⟩]
      cases hw : c.contributionWeight.bind parseFp with
      | none => simp
      | some w =>
        dsimp only
        by_cases hzero : w = 0
        · rw [if_pos hzero, Option.filter_some_neg (by simpa using hzero)]
          simp
        · rw [if_neg hzero, Option.filter_some_pos (by simpa using hzero)]
          simp
  · rw [if_pos hdid, if_neg fun h => hdid h.1]
    simp

theorem foldl_addContributor (H : Hashes) (author : Author) (cs : List Contributor) (st : Attribution) :
    (cs.foldl (addContributor H author) st).parsed = st.parsed ++ cs.filterMap (counted H author.did) ∧
      (cs.foldl (addContributor H author) st).total =
        st.total + ((cs.filterMap (counted H author.did)).map (·.2.2)).sum := by
  induction cs generalizing st with
  | nil => simp
  | cons c cs ih =>
    obtain ⟨hp, ht⟩ := addContributor_counted H author st c
    rw [List.foldl_cons, (ih _).1, (ih _).2, hp, ht]
    cases hc : counted H author.did c with
    | none => simp [List.filterMap_cons_none hc]
    | some e => simp [List.filterMap_cons_some hc, add_assoc]

theorem parsed_eq (H : Hashes) (author : Author) (cs : List Contributor) :
    (cs.foldl (addContributor H author) ⟨[], 0, []⟩).parsed = cs.filterMap (counted H author.did) := by
  rw [(foldl_addContributor H author cs _).1, List.nil_append]

theorem total_eq (H : Hashes) (author : Author) (cs : List Contributor) :
    (cs.foldl (addContributor H author) ⟨[], 0, []⟩).total =
      ((cs.filterMap (counted H author.did)).map (·.2.2)).sum := by
  rw [(foldl_addContributor H author cs _).2]
  exact zero_add _

section

variable {H : Hashes} {p : EdgeParams} {ix : Index}

def gateOf (p : EdgeParams) (ack : Option Bool) : U256 :=
  match ack with
  | some true => p.ackBoostFp
  | _ => p.unackedAttribFp

theorem attributionEdge_eq_ok {author : Author} {coll rkey createdAt : Bytes} {total : U256}
    {e : B256 × Bytes × U256} {c : Candidate}
    (h : attributionEdge H p ix author coll rkey createdAt total e = .ok c) :
    total ≠ 0 ∧ ∃ w : U256, w.toNat = product scale.toNat (e.2.2.toNat * scale.toNat / total.toNat) [p.wAttribFp,
        gateOf p ix.acks[(toLex (e.2.1, atUri author.did coll rkey) : Bytes ×ₗ Bytes)]?,
        author.authClass] ∧
      c = ⟨artifactNodeId H author.did coll rkey, e.1, T_ATTRIB, w, (createdAt, e.2.1)⟩ := by
  unfold attributionEdge at h
  obtain ⟨share, hshare, h⟩ := of_bind h
  obtain ⟨w, hw, h⟩ := of_bind h
  obtain ⟨htotal, hshare⟩ := fpDiv_eq_some.mp (ofPanic_eq_ok.mp hshare)
  refine ⟨htotal, w, ?_, (ok_inj h).symm⟩
  rw [fpProduct_eq_ok hw, hshare]
  rfl

end

section

variable {H : Hashes} {K : K256} {P : Primitives}

def binds (H : Hashes) (K : K256) (P : Primitives) (d : Decoded) : Bool :=
  match d.record with
  | .linkEvm address message signature _ => (verifyBinding H K P d.did address message signature).isSome
  | _ => false

theorem mem_bindings_indexRecord {ix : Index} {d : Decoded} {n : B256} :
    n ∈ (indexRecord H K P ix d).bindings ↔ n ∈ ix.bindings ∨ didNodeId H d.did = n ∧ binds H K P d = true := by
  unfold indexRecord binds
  cases hrec : d.record with
  | linkEvm address message signature createdAt =>
    dsimp only
    cases verifyBinding H K P d.did address message signature with
    | none => simp
    | some a =>
      dsimp only
      rw [mem_iff_getElem?, BTreeMap.getElem?_insert]
      by_cases hn : didNodeId H d.did = n
      · rw [if_pos hn]
        exact ⟨fun _ => Or.inr ⟨hn, rfl⟩, fun _ => ⟨a, rfl⟩⟩
      · rw [if_neg hn, ← mem_iff_getElem?]
        exact ⟨Or.inl, fun h => h.resolve_right fun hr => hn hr.1⟩
  | follow s t => simp
  | badgeAward b s t => simp
  | badgeResponse b r w t => simp
  | evaluation s c t => simp
  | activity c t => simp
  | acknowledgement s a t => simp

theorem mem_bindings_foldl {l : List Decoded} {ix : Index} {n : B256} :
    n ∈ (l.foldl (indexRecord H K P) ix).bindings ↔
      n ∈ ix.bindings ∨ ∃ d ∈ l, didNodeId H d.did = n ∧ binds H K P d = true := by
  induction l generalizing ix with
  | nil => simp
  | cons d l ih => rw [List.foldl_cons, ih, mem_bindings_indexRecord, List.exists_mem_cons_iff, or_assoc]

theorem mem_bindings_indexAll {l : List Decoded} {n : B256} :
    n ∈ (indexAll H K P l).bindings ↔ ∃ d ∈ l, didNodeId H d.did = n ∧ binds H K P d = true := by
  rw [indexAll, mem_bindings_foldl]
  simp

def ackStep (uri : Bytes) (ack : Option Bool) (d : Decoded) : Option Bool :=
  match d.record with
  | .acknowledgement subject acknowledged _ => if subject.uri = uri then some acknowledged else ack
  | _ => ack

theorem acks_indexRecord (ix : Index) (d : Decoded) (did uri : Bytes) :
    (indexRecord H K P ix d).acks[(toLex (did, uri) : Bytes ×ₗ Bytes)]? =
      if d.did = did then ackStep uri ix.acks[(toLex (did, uri) : Bytes ×ₗ Bytes)]? d
      else ix.acks[(toLex (did, uri) : Bytes ×ₗ Bytes)]? := by
  unfold indexRecord ackStep
  cases hrec : d.record with
  | acknowledgement subject acknowledged createdAt =>
    dsimp only
    rw [BTreeMap.getElem?_insert]
    have hkey : (toLex (d.did, subject.uri) : Bytes ×ₗ Bytes) = toLex (did, uri) ↔
        d.did = did ∧ subject.uri = uri := by
      rw [toLex_inj, Prod.mk.injEq]
    by_cases hdid : d.did = did
    · by_cases huri : subject.uri = uri
      · rw [if_pos (hkey.mpr ⟨hdid, huri⟩), if_pos hdid, if_pos huri]
      · rw [if_neg fun h => huri (hkey.mp h).2, if_pos hdid, if_neg huri]
    · rw [if_neg fun h => hdid (hkey.mp h).1, if_neg hdid]
  | linkEvm address message signature createdAt =>
    dsimp only
    cases verifyBinding H K P d.did address message signature <;> simp
  | follow s t => simp
  | badgeAward b s t => simp
  | badgeResponse b r w t => simp
  | evaluation s c t => simp
  | activity c t => simp

/-- The last acknowledgement of an artifact in the records of one DID. -/
def ackOf (did uri : Bytes) (l : List Decoded) : Option Bool :=
  (l.filter fun d => d.did = did).foldl (ackStep uri) none

theorem acks_foldl (l : List Decoded) (ix : Index) (did uri : Bytes) :
    (l.foldl (indexRecord H K P) ix).acks[(toLex (did, uri) : Bytes ×ₗ Bytes)]? =
      (l.filter fun d => d.did = did).foldl (ackStep uri)
        ix.acks[(toLex (did, uri) : Bytes ×ₗ Bytes)]? := by
  induction l generalizing ix with
  | nil => rfl
  | cons d l ih =>
    rw [List.foldl_cons, ih, acks_indexRecord]
    by_cases hdid : d.did = did
    · rw [if_pos hdid, List.filter_cons_of_pos (by simpa using hdid), List.foldl_cons]
    · rw [if_neg hdid, List.filter_cons_of_neg (by simpa using hdid)]

theorem acks_indexAll (l : List Decoded) (did uri : Bytes) :
    (indexAll H K P l).acks[(toLex (did, uri) : Bytes ×ₗ Bytes)]? = ackOf did uri l := by
  rw [indexAll, acks_foldl, Std.ExtTreeMap.getElem?_empty]
  rfl

end

/-- The key, the time and the weight that a candidate writes. -/
def writeOf (c : ℕ × Candidate) : (B256 ×ₗ B256 ×ₗ UInt8) × WriteOrder × U256 :=
  (toLex (c.2.source, toLex (c.2.target, c.2.typeTag)), toLex (c.1, toLex c.2.order), c.2.weightFp)

theorem addCandidate_eq (latest : BTreeMap (B256 ×ₗ B256 ×ₗ UInt8) (WriteOrder × U256))
    (c : ℕ × Candidate) : addCandidate latest c = Latest.put latest (writeOf c) := by
  unfold addCandidate Latest.put
  dsimp only [writeOf]
  cases latest[(toLex (c.2.source, toLex (c.2.target, c.2.typeTag)) : B256 ×ₗ B256 ×ₗ UInt8)]? with
  | none => rfl
  | some prev => rfl

theorem foldl_addCandidate (l : List (ℕ × Candidate)) :
    l.foldl addCandidate ∅ = (l.map writeOf).foldl Latest.put ∅ := by
  rw [List.foldl_map]
  congr 1
  funext latest c
  exact addCandidate_eq latest c

/-- Whether an entry is an edge of a source and a target. -/
def between (a b : B256) (e : (B256 ×ₗ B256 ×ₗ UInt8) × WriteOrder × U256) : Bool :=
  (ofLex e.1).1 = a ∧ (ofLex (ofLex e.1).2).1 = b ∧ e.2.2 ≠ 0

def addWeight (w : Option U256) (e : (B256 ×ₗ B256 ×ₗ UInt8) × WriteOrder × U256) : Option U256 :=
  some (w.getD 0 + e.2.2)

theorem cell_addEdge (st : BTreeSet B256 × Pagerank.Outgoing B256)
    (e : (B256 ×ₗ B256 ×ₗ UInt8) × WriteOrder × U256) (a b : B256) :
    BTreeMap.cell (addEdge st e).2 (a, b) =
      if between a b e then addWeight (BTreeMap.cell st.2 (a, b)) e else BTreeMap.cell st.2 (a, b) := by
  unfold addEdge
  dsimp only
  by_cases hw : e.2.2 = 0
  · rw [if_pos hw, if_neg (by simp [between, hw])]
  rw [if_neg hw]
  dsimp only
  rw [cell_insert]
  by_cases ha : (ofLex e.1).1 = a
  · rw [if_pos ha]
    subst ha
    rw [BTreeMap.getElem?_insert]
    by_cases hb : (ofLex (ofLex e.1).2).1 = b
    · subst hb
      rw [if_pos rfl, if_pos (by simpa [between] using hw), addWeight, cell_eq,
        Std.ExtTreeMap.getD_eq_getD_getElem?, Std.ExtTreeMap.getD_eq_getD_getElem?]
    · rw [if_neg hb, if_neg (by simp [between, hb]), cell_eq, Std.ExtTreeMap.getD_eq_getD_getElem?]
  · rw [if_neg ha, if_neg (by simp [between, ha])]

theorem cell_foldl_addEdge (l : List ((B256 ×ₗ B256 ×ₗ UInt8) × WriteOrder × U256))
    (st : BTreeSet B256 × Pagerank.Outgoing B256) (a b : B256) :
    BTreeMap.cell (l.foldl addEdge st).2 (a, b) =
      (l.filter (between a b)).foldl addWeight (BTreeMap.cell st.2 (a, b)) := by
  induction l generalizing st with
  | nil => rfl
  | cons e l ih =>
    rw [List.foldl_cons, ih, cell_addEdge]
    by_cases he : between a b e = true
    · rw [if_pos he, List.filter_cons_of_pos he, List.foldl_cons]
    · rw [if_neg he, List.filter_cons_of_neg he]

theorem foldl_addWeight_isSome (l : List ((B256 ×ₗ B256 ×ₗ UInt8) × WriteOrder × U256)) (w : Option U256) :
    (l.foldl addWeight w).isSome = true ↔ w.isSome = true ∨ l ≠ [] := by
  induction l generalizing w with
  | nil => simp
  | cons e l ih =>
    rw [List.foldl_cons, ih]
    simp [addWeight]

/-- The candidates of the records, with their fold index. -/
def candidatesOf (found : List (Decoded × Found)) : List (ℕ × Candidate) :=
  found.flatMap fun f => f.2.1.map fun c => (f.1.anchorFoldIndex, c)

def latestOf (found : List (Decoded × Found)) : BTreeMap (B256 ×ₗ B256 ×ₗ UInt8) (WriteOrder × U256) :=
  (candidatesOf found).foldl addCandidate ∅

theorem latestOf_eq (found : List (Decoded × Found)) (k : B256 ×ₗ B256 ×ₗ UInt8) :
    (latestOf found)[k]? = Latest.latest (Latest.writesTo k ((candidatesOf found).map writeOf)) := by
  rw [latestOf, foldl_addCandidate, Latest.getElem?_foldl_put_empty]

section

variable {H : Hashes} {D : Dagcbor} {K : K256} {P : Primitives} {repos : List RepoRecords}
  {targets : BTreeMap Bytes Bytes} {p : EdgeParams} {g : DerivedGraph}

structure Derivation (H : Hashes) (D : Dagcbor) (K : K256) (P : Primitives) (repos : List RepoRecords)
    (targets : BTreeMap Bytes Bytes) (p : EdgeParams) (g : DerivedGraph)
    (found : List (Decoded × Found)) : Prop where
  /-- Every record went through. -/
  records : List.Forall₂ (fun d f => recordEdges H D targets p (indexAll H K P (decodeAll D repos)) d =
    .ok f.2 ∧ f.1 = d) (decodeAll D repos) found
  outgoing : g.outgoing = ((latestOf found).toList.foldl addEdge (∅, ∅)).2
  bindings : g.bindings = (indexAll H K P (decodeAll D repos)).bindings

theorem derive_eq_ok (h : derive H D K P repos targets p = .ok g) :
    ∃ found, Derivation H D K P repos targets p g found := by
  unfold derive at h
  obtain ⟨found, hfound, h⟩ := of_bind h
  refine ⟨found, ?_, ?_, ?_⟩
  · refine (mapM_eq_ok.mp hfound).imp ?_
    intro d f hf
    obtain ⟨f', hf', heq⟩ := of_bind hf
    rw [← ok_inj heq]
    exact ⟨hf', rfl⟩
  · rw [← ok_inj h]
    rfl
  · rw [← ok_inj h]

namespace Derivation

variable {found : List (Decoded × Found)}

theorem mem_candidates (h : Derivation H D K P repos targets p g found) {c : ℕ × Candidate} :
    c ∈ candidatesOf found ↔ ∃ d ∈ decodeAll D repos, ∃ f,
      recordEdges H D targets p (indexAll H K P (decodeAll D repos)) d = .ok f ∧
        c.1 = d.anchorFoldIndex ∧ c.2 ∈ f.1 := by
  obtain ⟨n, c⟩ := c
  simp only [candidatesOf, List.mem_flatMap, List.mem_map, Prod.mk.injEq]
  constructor
  · rintro ⟨⟨d', f⟩, hf, c', hc, hn, rfl⟩
    obtain ⟨d, hd, hrec, heq⟩ := Related.exists_of_forall₂ h.records hf
    dsimp only at heq hn
    exact ⟨d, hd, f, hrec, by rw [← hn, heq], hc⟩
  · rintro ⟨d, hd, f, hrec, hn, hc⟩
    obtain ⟨⟨d', f'⟩, hf', hrec', heq⟩ := Related.exists_of_forall₂ h.records.flip hd
    rw [hrec, Except.ok.injEq] at hrec'
    dsimp only at heq hrec'
    exact ⟨(d', f'), hf', c, hrec' ▸ hc, by rw [hn, heq], rfl⟩

/-- The candidates between a source and a target of one type. -/
def Given (found : List (Decoded × Found)) (a b : B256) (t : UInt8) (w : U256) : Prop :=
  ∃ c ∈ candidatesOf found, c.2.source = a ∧ c.2.target = b ∧ c.2.typeTag = t ∧ c.2.weightFp = w

variable {a b : B256} {t : UInt8}

theorem given_of_mem_writesTo {x : WriteOrder × U256}
    (h : x ∈ Latest.writesTo (toLex (a, toLex (b, t))) ((candidatesOf found).map writeOf)) :
    Given found a b t x.2 := by
  obtain ⟨c, hc, heq⟩ := List.mem_map.mp (Latest.mem_writesTo.mp h)
  obtain ⟨hkey, rfl⟩ := Prod.mk.inj heq
  obtain ⟨ha, hkey⟩ := Prod.mk.inj (toLex.injective hkey)
  obtain ⟨hb, ht⟩ := Prod.mk.inj (toLex.injective hkey)
  exact ⟨c, hc, ha, hb, ht, rfl⟩

theorem writesTo_ne_nil {w : U256} (h : Given found a b t w) :
    Latest.writesTo (toLex (a, toLex (b, t))) ((candidatesOf found).map writeOf) ≠ [] := by
  obtain ⟨c, hc, rfl, rfl, rfl, -⟩ := h
  exact List.ne_nil_of_mem (Latest.mem_writesTo.mpr (List.mem_map.mpr ⟨c, hc, rfl⟩))

theorem edge_isSome (h : Derivation H D K P repos targets p g found) :
    (BTreeMap.cell g.outgoing (a, b)).isSome = true ↔
      ∃ t o w, (latestOf found)[(toLex (a, toLex (b, t)) : B256 ×ₗ B256 ×ₗ UInt8)]? = some (o, w) ∧ w ≠ 0 := by
  have hempty : BTreeMap.cell (∅ : Pagerank.Outgoing B256) (a, b) = none := by simp [BTreeMap.cell]
  rw [h.outgoing, cell_foldl_addEdge, foldl_addWeight_isSome]
  dsimp only
  rw [hempty]
  simp only [Option.isSome_none, Bool.false_eq_true, false_or]
  constructor
  · intro hne
    obtain ⟨⟨k, o, w⟩, he⟩ := List.exists_mem_of_ne_nil _ hne
    obtain ⟨hmem, hbetween⟩ := List.mem_filter.mp he
    simp only [between, decide_eq_true_eq] at hbetween
    obtain ⟨rfl, rfl, hw⟩ := hbetween
    exact ⟨(ofLex (ofLex k).2).2, o, w, mem_toList.mp hmem, hw⟩
  · rintro ⟨t, o, w, hget, hw⟩
    refine List.ne_nil_of_mem (List.mem_filter.mpr ⟨mem_toList.mpr hget, ?_⟩)
    simpa [between] using hw

theorem given_of_edge (h : Derivation H D K P repos targets p g found)
    (hedge : (BTreeMap.cell g.outgoing (a, b)).isSome = true) : ∃ t w, Given found a b t w ∧ w ≠ 0 := by
  obtain ⟨t, o, w, hget, hw⟩ := h.edge_isSome.mp hedge
  rw [latestOf_eq] at hget
  exact ⟨t, w, given_of_mem_writesTo (Latest.mem_of_latest hget), hw⟩

theorem edge_of_given (h : Derivation H D K P repos targets p g found) {w : U256}
    (hgiven : Given found a b t w) (hall : ∀ w, Given found a b t w → w ≠ 0) :
    (BTreeMap.cell g.outgoing (a, b)).isSome = true := by
  refine h.edge_isSome.mpr ?_
  cases hlast : (latestOf found)[(toLex (a, toLex (b, t)) : B256 ×ₗ B256 ×ₗ UInt8)]? with
  | none =>
    rw [latestOf_eq, Latest.latest_eq_none] at hlast
    exact absurd hlast (writesTo_ne_nil hgiven)
  | some x =>
    refine ⟨t, x.1, x.2, hlast, hall _ ?_⟩
    rw [latestOf_eq] at hlast
    exact given_of_mem_writesTo (Latest.mem_of_latest hlast)

end Derivation

end

namespace SemanticsExample

/-! Launch parameters, with no binding in sight. -/

def recovery : K256 := ⟨fun _ => false, fun _ => false, fun _ _ _ => none⟩

def primitives : Primitives := ⟨fun _ => none, fun _ => none, fun _ => none⟩

def params : EdgeParams where
  wFollowFp := 200000000000000000
  wBadgeFp := 500000000000000000
  wEvalFp := scale
  wAttribFp := 800000000000000000
  ackBoostFp := 2000000000000000000
  unackedAttribFp := 500000000000000000
  pdsAttestedWeightFp := 500000000000000000

end SemanticsExample

end Trustgraphs.Hypercerts
