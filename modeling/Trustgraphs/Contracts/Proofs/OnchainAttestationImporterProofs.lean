import Trustgraphs.Contracts.OnchainAttestationImporter

/-!
# What the importer folds

An attestation is folded at most once. A record that ends one comes after it, is about the same pair
and has no earlier timestamp (`run_imported`).
-/

namespace Trustgraphs.OnchainAttestationImporter

open Outcome List

structure Imported (edges : List RawEdge) : Prop where
  kinds : ∀ e ∈ edges, e.kind = 0 ∨ e.kind = 1
  /-- No attestation is folded twice. -/
  once : ∀ (i j : ℕ) (e f : RawEdge), edges[i]? = some e → edges[j]? = some f → e.kind = 0 → f.kind = 0 →
    e.uid = f.uid → i = j
  /-- What ends an attestation comes after it. -/
  ends : ∀ (j : ℕ) (f : RawEdge), edges[j]? = some f → f.kind = 1 → ∃ (i : ℕ) (e : RawEdge), i < j ∧
    edges[i]? = some e ∧ e.kind = 0 ∧
    e.uid = f.uid ∧ e.attester = f.attester ∧ e.recipient = f.recipient ∧
    e.blockTimestamp ≤ f.blockTimestamp

variable {edges : List RawEdge} {e x : RawEdge} {i : ℕ}

theorem Imported.nil : Imported [] where
  kinds _ h := absurd h not_mem_nil
  once _ _ _ _ h := absurd h (by simp)
  ends _ _ h := absurd h (by simp)

theorem getElem?_concat_eq_some : (edges ++ [e])[i]? = some x ↔
    edges[i]? = some x ∨ i = edges.length ∧ x = e := by
  rw [getElem?_append]
  by_cases hi : i < edges.length
  · rw [if_pos hi]
    constructor
    · exact .inl
    · rintro (h | ⟨h, -⟩)
      · exact h
      · omega
  · rw [if_neg hi, getElem?_singleton, getElem?_eq_none (by omega)]
    by_cases h0 : i - edges.length = 0
    · have hlen : i = edges.length := by omega
      rw [if_pos h0, Option.some_inj]
      constructor
      · rintro rfl
        exact .inr ⟨hlen, rfl⟩
      · rintro (h | ⟨-, rfl⟩)
        · exact absurd h (by simp)
        · rfl
    · rw [if_neg h0]
      constructor
      · exact fun h => absurd h (by simp)
      · rintro (h | ⟨h, -⟩)
        · exact h
        · omega

theorem Imported.attest (h : Imported edges) (h0 : e.kind = 0)
    (hnew : ∀ f ∈ edges, f.kind = 0 → f.uid ≠ e.uid) : Imported (edges ++ [e]) where
  kinds f hf := by
    rcases mem_append.mp hf with hf | hf
    · exact h.kinds f hf
    · exact .inl (mem_singleton.mp hf ▸ h0)
  once i j a b ha hb ha0 hb0 hab := by
    rcases getElem?_concat_eq_some.mp ha with hai | ⟨hi, hae⟩
    · rcases getElem?_concat_eq_some.mp hb with hbj | ⟨-, hbe⟩
      · exact h.once i j a b hai hbj ha0 hb0 hab
      · exact absurd (hbe ▸ hab) (hnew a (mem_of_getElem? hai) ha0)
    · rcases getElem?_concat_eq_some.mp hb with hbj | ⟨hj, -⟩
      · exact absurd (hae ▸ hab).symm (hnew b (mem_of_getElem? hbj) hb0)
      · rw [hi, hj]
  ends j f hf h1 := by
    rcases getElem?_concat_eq_some.mp hf with hf | ⟨-, rfl⟩
    · obtain ⟨i, a, hij, ha, hrest⟩ := h.ends j f hf h1
      exact ⟨i, a, hij, getElem?_concat_eq_some.mpr (.inl ha), hrest⟩
    · rw [h0] at h1
      exact absurd h1 (by decide)

theorem Imported.ended (h : Imported edges) (h1 : e.kind = 1)
    (hback : ∃ a ∈ edges, a.kind = 0 ∧ a.uid = e.uid ∧ a.attester = e.attester ∧
      a.recipient = e.recipient ∧ a.blockTimestamp ≤ e.blockTimestamp) : Imported (edges ++ [e]) where
  kinds f hf := by
    rcases mem_append.mp hf with hf | hf
    · exact h.kinds f hf
    · exact .inr (mem_singleton.mp hf ▸ h1)
  once i j a b ha hb ha0 hb0 hab := by
    have hne : e.kind ≠ 0 := by
      rw [h1]
      decide
    rcases getElem?_concat_eq_some.mp ha with ha | ⟨-, rfl⟩
    · rcases getElem?_concat_eq_some.mp hb with hb | ⟨-, rfl⟩
      · exact h.once i j a b ha hb ha0 hb0 hab
      · exact absurd hb0 hne
    · exact absurd ha0 hne
  ends j f hf h1 := by
    rcases getElem?_concat_eq_some.mp hf with hf | ⟨hj, rfl⟩
    · obtain ⟨i, a, hij, ha, hrest⟩ := h.ends j f hf h1
      exact ⟨i, a, hij, getElem?_concat_eq_some.mpr (.inl ha), hrest⟩
    · obtain ⟨a, ha, hrest⟩ := hback
      obtain ⟨i, hi, hai⟩ := getElem_of_mem ha
      have ha : edges[i]? = some a := by rw [getElem?_eq_getElem hi, hai]
      exact ⟨i, a, hj ▸ hi, getElem?_concat_eq_some.mpr (.inl ha), hrest⟩

/-- The folded edges are those of the stored attestations that are marked as processed. -/
structure Invariant (get : B256 → Attestation) (s : State) (edges : List RawEdge) : Prop where
  imported : Imported edges
  stored : ∀ uid, s.attestationsProcessed uid = true → uid ≠ 0 ∧ (get uid).uid = uid
  record : ∀ e ∈ edges, e.kind = 0 → s.attestationsProcessed e.uid = true ∧
    e.attester = (get e.uid).attester ∧ e.recipient = (get e.uid).recipient ∧
    e.blockTimestamp = (get e.uid).time
  complete : ∀ uid, s.attestationsProcessed uid = true → (get uid).recipient ≠ 0 →
    ∃ e ∈ edges, e.kind = 0 ∧ e.uid = uid

variable {H : Hashes} {schemaUid uid : B256} {env : Env} {op : Operation} {p p' : Progress} {s s' : State}
  {base : List RawEdge} {get get' : B256 → Attestation}

variable {attestation : Attestation}

theorem load_eq_ok : load schemaUid env uid = .ok attestation ↔
    uid ≠ 0 ∧ env.getAttestation uid = attestation ∧ attestation.uid = uid ∧
      attestation.schema = schemaUid := by
  rw [load]
  simp only [ite_error_eq_ok, not_or, ne_eq, not_not, Except.ok.injEq]
  constructor
  · rintro ⟨⟨h0, huid⟩, hschema, rfl⟩
    exact ⟨h0, rfl, huid, hschema⟩
  · rintro ⟨h0, rfl, huid, hschema⟩
    exact ⟨⟨h0, huid⟩, hschema, rfl⟩

theorem importOne_eq_ok (h : importOne H schemaUid env op p uid = .ok p') :
    p'.state = p.state ∧ p'.edges = p.edges ∨
    op.processed p.state uid = false ∧ uid ≠ 0 ∧ (env.getAttestation uid).uid = uid ∧
      op.check env p.state (env.getAttestation uid) = .ok () ∧
      ((env.getAttestation uid).recipient = 0 ∧
          p'.state = op.markZeroRecipient (op.mark p.state uid) uid ∧ p'.edges = p.edges ∨
        (env.getAttestation uid).recipient ≠ 0 ∧
          (∃ accumulator, p'.state = { op.mark p.state uid with accumulator := accumulator }) ∧
          p'.edges = p.edges ++ [op.edge (env.getAttestation uid) uid]) := by
  rw [importOne] at h
  by_cases hprocessed : op.processed p.state uid = true
  · rw [if_pos hprocessed, Except.ok.injEq] at h
    subst h
    exact .inl ⟨rfl, rfl⟩
  · rw [if_neg hprocessed] at h
    obtain ⟨attestation, hload, h⟩ := of_bind h
    obtain ⟨⟨⟩, hcheck, h⟩ := of_bind h
    obtain ⟨h0, rfl, huid, -⟩ := load_eq_ok.mp hload
    refine .inr ⟨by simpa using hprocessed, h0, huid, hcheck, ?_⟩
    by_cases hzero : (env.getAttestation uid).recipient = 0
    · rw [if_pos hzero, Except.ok.injEq] at h
      subst h
      exact .inl ⟨hzero, rfl, rfl⟩
    · rw [if_neg hzero] at h
      obtain ⟨accumulator, -, h⟩ := of_bind h
      rw [Except.ok.injEq] at h
      subst h
      exact .inr ⟨hzero, ⟨accumulator, rfl⟩, rfl⟩

theorem Invariant.congr (h : Invariant get s edges)
    (hs : s'.attestationsProcessed = s.attestationsProcessed) : Invariant get s' edges where
  imported := h.imported
  stored uid hu := h.stored uid (hs ▸ hu)
  record e he h0 := hs ▸ h.record e he h0
  complete uid hu hr := h.complete uid (hs ▸ hu) hr

theorem Invariant.mark (h : Invariant get s edges) (hnot : s.attestationsProcessed uid = false)
    (h0 : uid ≠ 0) (huid : (get uid).uid = uid)
    (hs : s'.attestationsProcessed = Function.update s.attestationsProcessed uid true) {tail : List RawEdge}
    (htail : (get uid).recipient = 0 ∧ tail = [] ∨
      (get uid).recipient ≠ 0 ∧ tail = [importAttestations.edge (get uid) uid]) :
    Invariant get s' (edges ++ tail) := by
  have hmark : ∀ u, s'.attestationsProcessed u = true ↔ u = uid ∨ s.attestationsProcessed u = true := by
    intro u
    rw [hs]
    by_cases hu : u = uid
    · simp [hu]
    · simp [hu]
  have hstored : ∀ u, s'.attestationsProcessed u = true → u ≠ 0 ∧ (get u).uid = u := by
    intro u hu
    rcases (hmark u).mp hu with rfl | hu
    · exact ⟨h0, huid⟩
    · exact h.stored u hu
  rcases htail with ⟨hzero, rfl⟩ | ⟨hrecipient, rfl⟩
  · rw [append_nil]
    refine ⟨h.imported, hstored, fun e he hk => ?_, fun u hu hr => ?_⟩
    · obtain ⟨hp, hrest⟩ := h.record e he hk
      exact ⟨(hmark _).mpr (.inr hp), hrest⟩
    · rcases (hmark u).mp hu with rfl | hu
      · exact absurd hzero hr
      · exact h.complete u hu hr
  · refine ⟨h.imported.attest rfl fun f hf hk hfu => ?_, hstored, fun e he hk => ?_, fun u hu hr => ?_⟩
    · have hp := (h.record f hf hk).1
      rw [hfu] at hp
      exact absurd (hp.symm.trans hnot) (by decide)
    · rcases mem_append.mp he with he | he
      · obtain ⟨hp, hrest⟩ := h.record e he hk
        exact ⟨(hmark _).mpr (.inr hp), hrest⟩
      · rw [mem_singleton.mp he]
        exact ⟨(hmark uid).mpr (.inl rfl), rfl, rfl, rfl⟩
    · rcases (hmark u).mp hu with rfl | hu
      · exact ⟨_, mem_append_right _ (mem_singleton_self _), rfl, rfl⟩
      · obtain ⟨e, he, hrest⟩ := h.complete u hu hr
        exact ⟨e, mem_append_left _ he, hrest⟩

theorem Invariant.ended (h : Invariant get s edges) (hprocessed : s.attestationsProcessed uid = true)
    (hs : s'.attestationsProcessed = s.attestationsProcessed) (hrecipient : (get uid).recipient ≠ 0)
    (hkind : op.kind = 1) (htime : (get uid).time ≤ op.timestamp (get uid)) :
    Invariant get s' (edges ++ [op.edge (get uid) uid]) := by
  have hk0 : ∀ e, e = op.edge (get uid) uid → e.kind ≠ 0 := by
    rintro _ rfl
    show op.kind ≠ 0
    rw [hkind]
    decide
  refine (?_ : Invariant get s (edges ++ [op.edge (get uid) uid])).congr hs
  refine ⟨h.imported.ended hkind ?_, h.stored, fun e he hk => ?_, fun u hu hr => ?_⟩
  · obtain ⟨a, ha, ha0, rfl⟩ := h.complete uid hprocessed hrecipient
    obtain ⟨-, hattester, hrec, hts⟩ := h.record a ha ha0
    exact ⟨a, ha, ha0, rfl, hattester, hrec, hts ▸ htime⟩
  · rcases mem_append.mp he with he | he
    · exact h.record e he hk
    · exact absurd hk (hk0 e (mem_singleton.mp he))
  · obtain ⟨e, he, hrest⟩ := h.complete u hu hr
    exact ⟨e, mem_append_left _ he, hrest⟩

theorem requireProcessed_eq_ok (h : requireProcessed s attestation = .ok ()) :
    s.attestationsProcessed attestation.uid = true := by
  rw [requireProcessed, ite_error_eq_ok] at h
  simpa using h.1

theorem importRevocations_check (h : importRevocations.check env s attestation = .ok ()) :
    s.attestationsProcessed attestation.uid = true ∧ attestation.revocationTime ≠ 0 := by
  obtain ⟨⟨⟩, hprocessed, h⟩ := of_bind h
  exact ⟨requireProcessed_eq_ok hprocessed, (of_guard h).1⟩

theorem importExpirations_check (h : importExpirations.check env s attestation = .ok ()) :
    s.attestationsProcessed attestation.uid = true ∧ attestation.expirationTime ≠ 0 := by
  obtain ⟨⟨⟩, hprocessed, h⟩ := of_bind h
  exact ⟨requireProcessed_eq_ok hprocessed, (of_guard h).1⟩

theorem importOne_attestations (hinv : Invariant env.getAttestation p.state (base ++ p.edges))
    (h : importOne H schemaUid env importAttestations p uid = .ok p') :
    Invariant env.getAttestation p'.state (base ++ p'.edges) := by
  rcases importOne_eq_ok h with ⟨hs, he⟩ | ⟨hnot, h0, huid, -, hrest⟩
  · rw [hs, he]
    exact hinv
  · rcases hrest with ⟨hzero, hs, he⟩ | ⟨hrecipient, ⟨accumulator, hs⟩, he⟩
    · have hmark : Invariant env.getAttestation p'.state (base ++ p.edges ++ []) :=
        hinv.mark hnot h0 huid (by rw [hs]; rfl) (.inl ⟨hzero, rfl⟩)
      rw [append_nil] at hmark
      rw [he]
      exact hmark
    · rw [he, ← append_assoc]
      exact hinv.mark hnot h0 huid (by rw [hs]; rfl) (.inr ⟨hrecipient, rfl⟩)

theorem importOne_ends (hkind : op.kind = 1)
    (hsame : ∀ s u, (op.mark s u).attestationsProcessed = s.attestationsProcessed ∧
      op.markZeroRecipient s u = s) (hcheck : op.check env p.state (env.getAttestation uid) = .ok () →
      (env.getAttestation uid).uid = uid → p.state.attestationsProcessed uid = true ∧
        (env.getAttestation uid).time ≤ op.timestamp (env.getAttestation uid))
    (hinv : Invariant env.getAttestation p.state (base ++ p.edges))
    (h : importOne H schemaUid env op p uid = .ok p') :
    Invariant env.getAttestation p'.state (base ++ p'.edges) := by
  rcases importOne_eq_ok h with ⟨hs, he⟩ | ⟨-, -, huid, hok, hrest⟩
  · rw [hs, he]
    exact hinv
  · obtain ⟨hprocessed, htime⟩ := hcheck hok huid
    rcases hrest with ⟨-, hs, he⟩ | ⟨hrecipient, ⟨accumulator, hs⟩, he⟩
    · rw [he, hs, (hsame _ _).2]
      exact hinv.congr (hsame _ _).1
    · rw [he, ← append_assoc]
      exact hinv.ended hprocessed (by rw [hs]; exact (hsame _ _).1) hrecipient hkind htime

theorem importAll_invariant {uids : List B256}
    (hstep : ∀ p p' uid, Invariant env.getAttestation p.state (base ++ p.edges) →
      importOne H schemaUid env op p uid = .ok p' →
      Invariant env.getAttestation p'.state (base ++ p'.edges))
    (hinv : Invariant env.getAttestation p.state (base ++ p.edges))
    (h : uids.foldlM (importOne H schemaUid env op) p = .ok p') :
    Invariant env.getAttestation p'.state (base ++ p'.edges) := by
  induction uids generalizing p with
  | nil =>
    obtain rfl : p = p' := ok_inj h
    exact hinv
  | cons uid uids ih =>
    rw [foldlM_cons] at h
    obtain ⟨mid, hmid, h⟩ := of_bind h
    exact ih (hstep p mid uid hinv hmid) h

theorem call_invariant {c : Call} (hsound : Sound env.getAttestation)
    (hinv : Invariant env.getAttestation s base) (h : call H schemaUid env s c = .ok p) :
    Invariant env.getAttestation p.state (base ++ p.edges) := by
  have hstart : Invariant env.getAttestation (Progress.mk s 0 0 []).state
      (base ++ (Progress.mk s 0 0 []).edges) := by
    rw [append_nil]
    exact hinv
  cases c with
  | importAttestations uids => exact importAll_invariant (fun _ _ _ => importOne_attestations) hstart h
  | importRevocations uids =>
    refine importAll_invariant (fun p _ uid => ?_) hstart h
    refine importOne_ends rfl (fun _ _ => ⟨rfl, rfl⟩) fun hok huid => ?_
    obtain ⟨hprocessed, hne⟩ := importRevocations_check hok
    exact ⟨huid ▸ hprocessed, hsound.revocation uid huid hne⟩
  | importExpirations uids =>
    refine importAll_invariant (fun p _ uid => ?_) hstart h
    refine importOne_ends rfl (fun _ _ => ⟨rfl, rfl⟩) fun hok huid => ?_
    obtain ⟨hprocessed, hne⟩ := importExpirations_check hok
    have hlt := hsound.expiration uid huid hne
    rw [UInt64.lt_iff_toNat_lt] at hlt
    exact ⟨huid ▸ hprocessed, UInt64.le_iff_toNat_le.mpr hlt.le⟩

theorem Invariant.persist (h : Invariant get s edges) (hp : Persists get get') : Invariant get' s edges where
  imported := h.imported
  stored uid hu := by
    obtain ⟨h0, huid⟩ := h.stored uid hu
    obtain ⟨_, hr⟩ := hp uid h0 huid
    exact ⟨h0, by rw [hr]; exact huid⟩
  record e he hk := by
    obtain ⟨hprocessed, hrest⟩ := h.record e he hk
    obtain ⟨h0, huid⟩ := h.stored _ hprocessed
    obtain ⟨_, hr⟩ := hp _ h0 huid
    rw [hr]
    exact ⟨hprocessed, hrest⟩
  complete uid hu hrecipient := by
    obtain ⟨h0, huid⟩ := h.stored uid hu
    obtain ⟨_, hr⟩ := hp uid h0 huid
    rw [hr] at hrecipient
    exact h.complete uid hu hrecipient

variable {deployer : Address} {calls : List (Env × Call)}

theorem run_invariant (hhistory : EasHistory calls) (hget : ∀ c ∈ calls, Persists c.1.getAttestation get) :
    Invariant get (run H schemaUid deployer calls).1 (run H schemaUid deployer calls).2 := by
  induction calls using List.reverseRecOn generalizing get with
  | nil => exact ⟨.nil, fun _ h => absurd h (by simp [run, constructor]),
      fun _ h => absurd h not_mem_nil, fun _ h => absurd h (by simp [run, constructor])⟩
  | append_singleton calls c ih =>
    obtain ⟨hsound, hpersists⟩ := hhistory
    rw [pairwise_append] at hpersists
    have hbefore : EasHistory calls := ⟨fun d hd => hsound d (by simp [hd]), hpersists.1⟩
    have hrun : run H schemaUid deployer (calls ++ [c]) =
        apply H schemaUid (run H schemaUid deployer calls) c := by
      rw [run, foldl_append]
      rfl
    rw [hrun, apply]
    cases hcall : call H schemaUid c.1 (run H schemaUid deployer calls).1 c.2 with
    | error e => exact ih hbefore fun d hd => hget d (by simp [hd])
    | ok p =>
      have hinv := ih hbefore fun d hd => hpersists.2.2 d hd c (by simp)
      exact (call_invariant (hsound c (by simp)) hinv hcall).persist (hget c (by simp))

theorem run_imported (hhistory : EasHistory calls) : Imported (run H schemaUid deployer calls).2 := by
  rcases eq_nil_or_concat calls with rfl | ⟨calls, c, rfl⟩
  · exact .nil
  · rw [concat_eq_append] at *
    have hpersists := pairwise_append.mp hhistory.persists
    have hlast : ∀ d ∈ calls ++ [c], Persists d.1.getAttestation c.1.getAttestation := by
      intro d hd
      rcases mem_append.mp hd with hd | hd
      · exact hpersists.2.2 d hd c (by simp)
      · rw [mem_singleton.mp hd]
        exact fun uid _ _ => ⟨_, rfl⟩
    exact (run_invariant hhistory hlast).imported

end Trustgraphs.OnchainAttestationImporter
