import Trustgraphs.Contracts.Proofs.OnchainAttestationImporterProofs
import Trustgraphs.PagerankCore.Proofs.ReplayProofs

/-!
# The import order and the graph

What the importer has folded is determined by what it has handled, up to the order (`Log`).
-/

namespace Trustgraphs.OnchainAttestationImporter

open Function List Finset

open Reconcile (Ended EndsFollow LastAttestation buildGraph held weightFp)

section

variable {H : Hashes} {schemaUid uid : B256} {deployer : Address} {env : Env} {op : Operation}
  {s s' : State} {p p' : Progress} {edges base : List RawEdge} {eas : B256 → Attestation}
  {calls : List (Env × Call)}

/-- A revocation or an expiration of the attestation has been handled. -/
def EndHandled (s : State) (uid : B256) : Prop :=
  s.revocationsProcessed uid = true ∨ s.expirationsProcessed uid = true

/-- The folded edges are those of the handled records that have a recipient. -/
structure Log (eas : B256 → Attestation) (s : State) (edges : List RawEdge) : Prop where
  attestations : ∀ e, e ∈ edges ∧ e.kind = 0 ↔ ∃ uid, s.attestationsProcessed uid = true ∧
    (eas uid).recipient ≠ 0 ∧ e = importAttestations.edge (eas uid) uid
  ends : ∀ uid, Ended edges uid ↔ EndHandled s uid ∧ (eas uid).recipient ≠ 0

theorem Log.congr (h : Log eas s edges) (hs : s'.attestationsProcessed = s.attestationsProcessed)
    (hends : ∀ uid, (eas uid).recipient ≠ 0 → (EndHandled s' uid ↔ EndHandled s uid)) :
    Log eas s' edges where
  attestations e := by
    rw [hs]
    exact h.attestations e
  ends uid := by
    rw [h.ends uid]
    exact and_congr_left fun hr => (hends uid hr).symm

/-- An attestation is marked and, when it has a recipient, folded. -/
theorem Log.mark (h : Log eas s edges) (uid : B256)
    (hs : s'.attestationsProcessed = update s.attestationsProcessed uid true)
    (hends : ∀ u, EndHandled s' u ↔ EndHandled s u) {tail : List RawEdge}
    (htail : (eas uid).recipient = 0 ∧ tail = [] ∨
      (eas uid).recipient ≠ 0 ∧ tail = [importAttestations.edge (eas uid) uid]) :
    Log eas s' (edges ++ tail) := by
  have hmark : ∀ u, s'.attestationsProcessed u = true ↔ u = uid ∨ s.attestationsProcessed u = true := by
    intro u
    rw [hs]
    by_cases hu : u = uid
    · simp [hu]
    · simp [hu]
  have hkind : ∀ e ∈ tail, e.kind = 0 := by
    intro e he
    rcases htail with ⟨-, rfl⟩ | ⟨-, rfl⟩
    · exact absurd he not_mem_nil
    · rw [List.mem_singleton.mp he]
      rfl
  refine ⟨fun e => ?_, fun u => ?_⟩
  · have hin : e ∈ edges ++ tail ∧ e.kind = 0 ↔ (e ∈ edges ∧ e.kind = 0) ∨ e ∈ tail := by
      rw [mem_append]
      exact ⟨fun ⟨he, h0⟩ => he.imp (fun he => ⟨he, h0⟩) id,
        fun he => he.elim (fun he => ⟨.inl he.1, he.2⟩) fun he => ⟨.inr he, hkind e he⟩⟩
    rw [hin, h.attestations e]
    constructor
    · rintro (⟨u, hu, hr, he⟩ | he)
      · exact ⟨u, (hmark u).mpr (.inr hu), hr, he⟩
      · rcases htail with ⟨-, rfl⟩ | ⟨hr, rfl⟩
        · exact absurd he not_mem_nil
        · exact ⟨uid, (hmark uid).mpr (.inl rfl), hr, List.mem_singleton.mp he⟩
    · rintro ⟨u, hu, hr, he⟩
      rcases (hmark u).mp hu with rfl | hu
      · rcases htail with ⟨h0, -⟩ | ⟨-, rfl⟩
        · exact absurd h0 hr
        · exact .inr (List.mem_singleton.mpr he)
      · exact .inl ⟨u, hu, hr, he⟩
  · have hended : Ended (edges ++ tail) u ↔ Ended edges u := by
      constructor
      · rintro ⟨f, hf, h1, hu⟩
        rcases mem_append.mp hf with hf | hf
        · exact ⟨f, hf, h1, hu⟩
        · rw [hkind f hf] at h1
          exact absurd h1 (by decide)
      · rintro ⟨f, hf, h1, hu⟩
        exact ⟨f, mem_append_left _ hf, h1, hu⟩
    rw [hended, h.ends u, hends u]

theorem Log.ended (h : Log eas s edges) (uid : B256) (hs : s'.attestationsProcessed = s.attestationsProcessed)
    (hends : ∀ u, EndHandled s' u ↔ u = uid ∨ EndHandled s u) (hr : (eas uid).recipient ≠ 0) {f : RawEdge}
    (h1 : f.kind = 1) (huid : f.uid = uid) : Log eas s' (edges ++ [f]) where
  attestations e := by
    rw [hs, ← h.attestations e, mem_append, List.mem_singleton]
    constructor
    · rintro ⟨he | rfl, h0⟩
      · exact ⟨he, h0⟩
      · rw [h1] at h0
        exact absurd h0 (by decide)
    · rintro ⟨he, h0⟩
      exact ⟨.inl he, h0⟩
  ends u := by
    have hended : Ended (edges ++ [f]) u ↔ Ended edges u ∨ u = uid := by
      constructor
      · rintro ⟨g, hg, hg1, hu⟩
        rcases mem_append.mp hg with hg | hg
        · exact .inl ⟨g, hg, hg1, hu⟩
        · rw [List.mem_singleton.mp hg, huid] at hu
          exact .inr hu.symm
      · rintro (⟨g, hg, hg1, hu⟩ | rfl)
        · exact ⟨g, mem_append_left _ hg, hg1, hu⟩
        · exact ⟨f, by simp, h1, huid⟩
    rw [hended, h.ends u, hends u]
    constructor
    · rintro (⟨hu, hru⟩ | rfl)
      · exact ⟨.inr hu, hru⟩
      · exact ⟨.inl rfl, hr⟩
    · rintro ⟨rfl | hu, hru⟩
      · exact .inr rfl
      · exact .inl ⟨hu, hru⟩

theorem Persists.record (h : Persists env.getAttestation eas) (h0 : uid ≠ 0)
    (huid : (env.getAttestation uid).uid = uid) :
    (eas uid).recipient = (env.getAttestation uid).recipient ∧
      importAttestations.edge (eas uid) uid = importAttestations.edge (env.getAttestation uid) uid := by
  obtain ⟨_, hr⟩ := h uid h0 huid
  rw [hr]
  exact ⟨rfl, rfl⟩

theorem importOne_log_attestations (hp : Persists env.getAttestation eas)
    (hlog : Log eas p.state (base ++ p.edges))
    (h : importOne H schemaUid env importAttestations p uid = .ok p') :
    Log eas p'.state (base ++ p'.edges) := by
  rcases importOne_eq_ok h with ⟨hs, he⟩ | ⟨-, h0, huid, -, hrest⟩
  · rw [hs, he]
    exact hlog
  · obtain ⟨hrecipient, hedge⟩ := hp.record h0 huid
    rcases hrest with ⟨hzero, hs, he⟩ | ⟨hne, ⟨accumulator, hs⟩, he⟩
    · have hmark : Log eas p'.state (base ++ p.edges ++ []) := by
        refine hlog.mark uid ?_ ?_ (.inl ⟨hrecipient.trans hzero, rfl⟩)
        · rw [hs]
          rfl
        · intro u
          rw [hs]
          rfl
      rw [he]
      rwa [append_nil] at hmark
    · rw [he, ← List.append_assoc]
      refine hlog.mark uid ?_ ?_ (.inr ⟨hrecipient ▸ hne, by rw [hedge]⟩)
      · rw [hs]
        rfl
      · intro u
        rw [hs]
        rfl

theorem importOne_log_ends (hkind : op.kind = 1)
    (hsame : ∀ s u, (op.mark s u).attestationsProcessed = s.attestationsProcessed ∧
      op.markZeroRecipient s u = s) (hmark : ∀ s u v, EndHandled (op.mark s u) v ↔ v = u ∨ EndHandled s v)
    (hp : Persists env.getAttestation eas) (hlog : Log eas p.state (base ++ p.edges))
    (h : importOne H schemaUid env op p uid = .ok p') : Log eas p'.state (base ++ p'.edges) := by
  rcases importOne_eq_ok h with ⟨hs, he⟩ | ⟨-, h0, huid, -, hrest⟩
  · rw [hs, he]
    exact hlog
  · obtain ⟨hrecipient, -⟩ := hp.record h0 huid
    rcases hrest with ⟨hzero, hs, he⟩ | ⟨hne, ⟨accumulator, hs⟩, he⟩
    · rw [he, hs, (hsame _ _).2]
      refine hlog.congr (hsame _ _).1 fun u hr => ?_
      rw [hmark]
      refine or_iff_right ?_
      rintro rfl
      exact hr (hrecipient.trans hzero)
    · rw [he, ← List.append_assoc]
      refine hlog.ended uid ?_ (fun u => ?_) (hrecipient ▸ hne) hkind rfl
      · rw [hs]
        exact (hsame _ _).1
      · rw [← hmark p.state uid u, hs]
        rfl

theorem importAll_log {uids : List B256} (hstep : ∀ p p' uid, Log eas p.state (base ++ p.edges) →
      importOne H schemaUid env op p uid = .ok p' → Log eas p'.state (base ++ p'.edges))
    (hlog : Log eas p.state (base ++ p.edges)) (h : uids.foldlM (importOne H schemaUid env op) p = .ok p') :
    Log eas p'.state (base ++ p'.edges) := by
  induction uids generalizing p with
  | nil =>
    obtain rfl : p = p' := Except.ok.inj h
    exact hlog
  | cons uid uids ih =>
    rw [foldlM_cons] at h
    obtain ⟨mid, hmid, h⟩ := Outcome.of_bind h
    exact ih (hstep p mid uid hlog hmid) h

theorem update_true (f : B256 → Bool) (u v : B256) : update f u true v = true ↔ v = u ∨ f v = true := by
  by_cases hv : v = u
  · simp [hv]
  · simp [hv]

theorem call_log {c : Call} (hp : Persists env.getAttestation eas) (hlog : Log eas s base)
    (h : call H schemaUid env s c = .ok p) : Log eas p.state (base ++ p.edges) := by
  have hstart : Log eas (Progress.mk s 0 0 []).state (base ++ (Progress.mk s 0 0 []).edges) := by
    rw [append_nil]
    exact hlog
  cases c with
  | importAttestations uids => exact importAll_log (fun _ _ _ => importOne_log_attestations hp) hstart h
  | importRevocations uids =>
    refine importAll_log (fun p _ uid => ?_) hstart h
    refine importOne_log_ends rfl (fun _ _ => ⟨rfl, rfl⟩) (fun s u v => ?_) hp
    show update s.revocationsProcessed u true v = true ∨ s.expirationsProcessed v = true ↔ _
    rw [update_true, EndHandled, or_assoc]
  | importExpirations uids =>
    refine importAll_log (fun p _ uid => ?_) hstart h
    refine importOne_log_ends rfl (fun _ _ => ⟨rfl, rfl⟩) (fun s u v => ?_) hp
    show s.revocationsProcessed v = true ∨ update s.expirationsProcessed u true v = true ↔ _
    rw [update_true, EndHandled, or_left_comm]

theorem run_log (hp : ∀ c ∈ calls, Persists c.1.getAttestation eas) :
    Log eas (run H schemaUid deployer calls).1 (run H schemaUid deployer calls).2 := by
  induction calls using List.reverseRecOn with
  | nil =>
    refine ⟨fun e => ⟨fun h => absurd h.1 not_mem_nil, ?_⟩, fun u => ⟨?_, ?_⟩⟩
    · rintro ⟨u, hu, -⟩
      exact absurd hu (by simp [run, constructor])
    · rintro ⟨f, hf, -⟩
      exact absurd hf not_mem_nil
    · rintro ⟨hu, -⟩
      exact absurd hu (by simp [EndHandled, run, constructor])
  | append_singleton calls c ih =>
    have hbefore := ih fun d hd => hp d (by simp [hd])
    have hrun : run H schemaUid deployer (calls ++ [c]) =
        apply H schemaUid (run H schemaUid deployer calls) c := by
      rw [run, foldl_append]
      rfl
    rw [hrun, apply]
    cases hcall : call H schemaUid c.1 (run H schemaUid deployer calls).1 c.2 with
    | error e => exact hbefore
    | ok q => exact call_log (hp c (by simp)) hbefore hcall

structure Newest (eas : B256 → Attestation) (R : Records) (uid : B256) : Prop where
  imported : uid ∈ R.attestations
  recipient : (eas uid).recipient ≠ 0
  newest : ∀ v ∈ R.attestations, (eas v).attester = (eas uid).attester →
    (eas v).recipient = (eas uid).recipient → (eas v).time ≤ (eas uid).time

/-- What an imported attestation leaves behind: its weight, unless its end was imported. -/
def standing (params : Params) (eas : B256 → Attestation) (R : Records) (uid : B256) : Option U256 :=
  if uid ∈ R.revocations ∨ uid ∈ R.expirations then none
  else weightFp (importAttestations.edge (eas uid) uid) params

/-- The newest attestations of a pair leave the same behind. -/
def TiesAgree (params : Params) (eas : B256 → Attestation) (R : Records) : Prop :=
  ∀ u v, Newest eas R u → Newest eas R v → (eas u).attester = (eas v).attester →
    (eas u).recipient = (eas v).recipient → standing params eas R u = standing params eas R v

variable {R : Records} {params : Params}

theorem Imported.endsFollow (h : Imported edges) : EndsFollow edges := by
  intro i j e f he hf h0 h1 huid
  obtain ⟨i', e', hlt, he', h0', huid', hattester, hrecipient, htime⟩ := h.ends j f hf h1
  obtain rfl : i' = i := h.once i' i e' e he' he h0' h0 (huid'.trans huid)
  obtain rfl : e' = e := Option.some.inj (he'.symm.trans he)
  refine ⟨by rw [hattester, hrecipient], ?_⟩
  rw [Reconcile.later_iff]
  rw [UInt64.le_iff_toNat_le] at htime
  show e'.blockTimestamp.toNat < f.blockTimestamp.toNat ∨
    e'.blockTimestamp.toNat = f.blockTimestamp.toNat ∧ i' < j
  omega

theorem CompleteImport.attestations (h : CompleteImport H schemaUid deployer eas R calls) {e : RawEdge} :
    e ∈ (run H schemaUid deployer calls).2 ∧ e.kind = 0 ↔
      ∃ uid ∈ R.attestations, (eas uid).recipient ≠ 0 ∧ e = importAttestations.edge (eas uid) uid := by
  rw [(run_log h.persists).attestations e]
  simp only [h.handled.attestations]

theorem CompleteImport.ended (h : CompleteImport H schemaUid deployer eas R calls)
    (hr : (eas uid).recipient ≠ 0) :
    Ended (run H schemaUid deployer calls).2 uid ↔ uid ∈ R.revocations ∨ uid ∈ R.expirations := by
  rw [(run_log h.persists).ends uid, EndHandled, h.handled.revocations, h.handled.expirations]
  exact and_iff_left hr

theorem CompleteImport.held (h : CompleteImport H schemaUid deployer eas R calls) (params : Params)
    (k : Address × Address) :
    (∃ uid, Newest eas R uid ∧ ((eas uid).attester, (eas uid).recipient) = k ∧
      held params (run H schemaUid deployer calls).2 k = standing params eas R uid) ∨
    (∀ uid ∈ R.attestations, (eas uid).recipient ≠ 0 → ((eas uid).attester, (eas uid).recipient) ≠ k) ∧
      held params (run H schemaUid deployer calls).2 k = none := by
  set edges := (run H schemaUid deployer calls).2 with hedges
  by_cases hany : ∃ e ∈ edges, e.kind = 0 ∧ (e.attester, e.recipient) = k
  · obtain ⟨e, he, h0, hk⟩ := hany
    obtain ⟨i, last, hlast⟩ := Reconcile.exists_lastAttestation he h0 hk
    obtain ⟨uid, huid, hr, rfl⟩ := h.attestations.mp ⟨mem_of_getElem? hlast.at_position, hlast.kind⟩
    refine .inl ⟨uid, ⟨huid, hr, fun v hv ha hrec => ?_⟩, hlast.pair, ?_⟩
    · -- the edge of a newer attestation would come later
      have hrv : (eas v).recipient ≠ 0 := hrec ▸ hr
      obtain ⟨hmem, hv0⟩ := h.attestations.mpr ⟨v, hv, hrv, rfl⟩
      obtain ⟨j, hj⟩ := List.mem_iff_getElem?.mp hmem
      have hnot := hlast.last j _ hj hv0 (by rw [← hlast.pair]; exact Prod.ext ha hrec)
      by_contra hlt
      rw [UInt64.not_le] at hlt
      exact hnot (.inl hlt)
    · obtain ⟨hended, hlive⟩ :=
        Reconcile.held_last (p := params) (run_imported h.history).endsFollow hlast
      rw [standing]
      by_cases hend : uid ∈ R.revocations ∨ uid ∈ R.expirations
      · rw [if_pos hend]
        exact hended ((h.ended hr).mpr hend)
      · rw [if_neg hend]
        exact hlive fun he => hend ((h.ended hr).mp he)
  · refine .inr ⟨fun uid huid hr hk => hany ?_, Reconcile.held_eq_none fun e he h0 hk => hany ⟨e, he, h0, hk⟩⟩
    obtain ⟨hmem, h0⟩ := h.attestations.mpr ⟨uid, huid, hr, rfl⟩
    exact ⟨_, hmem, h0, hk⟩

/-- The order of a complete import does not change the graph, unless it decides a tie. -/
theorem buildGraph_import_order (H : Hashes) (schemaUid : B256) (deployer : Address)
    (eas : B256 → Attestation) (R : Records) (params : Params) (calls calls' : List (Env × Call))
    (h : CompleteImport H schemaUid deployer eas R calls)
    (h' : CompleteImport H schemaUid deployer eas R calls') (hties : TiesAgree params eas R) :
    buildGraph (run H schemaUid deployer calls).2 params =
      buildGraph (run H schemaUid deployer calls').2 params := by
  refine Reconcile.buildGraph_congr ?_ fun k => ?_
  · have hsame : ∀ e, e ∈ (run H schemaUid deployer calls).2 ∧ e.kind = 0 ↔
        e ∈ (run H schemaUid deployer calls').2 ∧ e.kind = 0 := by
      intro e
      rw [h.attestations, h'.attestations]
    exact ⟨fun hall e he h0 => hall e ((hsame e).mpr ⟨he, h0⟩).1 h0,
      fun hall e he h0 => hall e ((hsame e).mp ⟨he, h0⟩).1 h0⟩
  · rcases h.held params k with ⟨u, hu, hku, hheld⟩ | ⟨hnone, hheld⟩
    · rcases h'.held params k with ⟨v, hv, hkv, hheld'⟩ | ⟨hnone, -⟩
      · rw [hheld, hheld']
        obtain ⟨ha, hr⟩ := Prod.mk.inj (hku.trans hkv.symm)
        exact hties u v hu hv ha hr
      · exact absurd hku (hnone u hu.imported hu.recipient)
    · rcases h'.held params k with ⟨v, hv, hkv, -⟩ | ⟨-, hheld'⟩
      · exact absurd hkv (hnone v hv.imported hv.recipient)
      · rw [hheld, hheld']

end

namespace ImportOrderExample

open Reconcile.Example (addr uid params)

def schema : B256 := .ofNat 32 0x5c

def vouch (b : UInt8) (time : UInt64) (weight : U256) : Attestation :=
  ⟨uid b, schema, time, 0, 0, addr 2, addr 1, wordU256 weight⟩

def eas (u : B256) : Attestation :=
  if u = uid 7 then vouch 7 100 10
  else if u = uid 8 then vouch 8 100 95
  else if u = uid 9 then vouch 9 200 95
  else ⟨0, 0, 0, 0, 0, 0, 0, []⟩

def word (n : Nat) : B256 := .ofNat 32 n

def dataHash10 : Nat := 0xc65a7bb8d6351c1cf70c95a316cc6a92839c986682d98bc35f958f4883f9d2a8

def dataHash95 : Nat := 0xcc7ee599e5d59fee88c83157bd897847c5911dc7d317b3175e0b085198349973

def leaf (b : UInt8) (time : U256) (dataHash : Nat) : Bytes :=
  AttestationAccumulator.leafPreimage 0 (addr 1) (addr 2) (uid b) time (word dataHash)

def leaf7 : Nat := 0xf1e504413eca4057352a7dd550187cb056a0b450e60c5d9def7589fa1b4edcde

def leaf8 : Nat := 0x6ff289f300247e4aeb6cd22509854b257b9a5c59f1c5fbc4456f16408b2097aa

def leaf9 : Nat := 0xa69dd5e27eb09ee517811cccb703f01f082c6c4fa486fa82fbbf48389021afcd

def acc7 : Nat := 0xc7955c1efa871270479512b0a17d9d0f03bbdc3ff1c3d86bb88043039c1153a7

def acc8 : Nat := 0xad7523de6869fa365a87c52f3d070258586e79cad92f57686ffc5270574a43a4

def acc9 : Nat := 0xd08cbefa0a9c7d7c9fd050f13a2b4c41623859d55abea2beca496149906f3766

def keccak256 (s : Bytes) : B256 :=
  if s = wordU256 10 then word dataHash10
  else if s = wordU256 95 then word dataHash95
  else if s = leaf 7 100 dataHash10 then word leaf7
  else if s = leaf 8 100 dataHash95 then word leaf8
  else if s = leaf 9 200 dataHash95 then word leaf9
  else if s = foldPreimage 0 (word leaf7) then word acc7
  else if s = foldPreimage 0 (word leaf8) then word acc8
  else if s = foldPreimage 0 (word leaf9) then word acc9
  else if s = foldPreimage (word acc7) (word leaf8) then
    word 0xa749fb488387f639f033625d770dba694253d9b2635f802ba59725d6a871d282
  else if s = foldPreimage (word acc8) (word leaf7) then
    word 0xbcc72719e7a4977f1c08d1c8b0dce71a0aca575a8bd92cd9284a7a423918b29f
  else if s = foldPreimage (word acc7) (word leaf9) then
    word 0xa43ce923ca37a7f82154dcdaaaa02ac08f00dac96e656a6e598afe74272619e3
  else if s = foldPreimage (word acc9) (word leaf7) then
    word 0x804a3a558c950f61a64e6dd08567f646b72f8ee037a9c7ed90b297a232dec597
  else 0

def hashes : Hashes := ⟨keccak256, fun _ => 0⟩

def calls (b c : UInt8) : List (Env × Call) := [(⟨eas, 10000⟩, .importAttestations [uid b, uid c])]

def records (b c : UInt8) : Records := ⟨{uid b, uid c}, ∅, ∅⟩

theorem eas_unended (u : B256) : (eas u).revocationTime = 0 ∧ (eas u).expirationTime = 0 := by
  rw [eas]
  split_ifs
  · exact ⟨rfl, rfl⟩
  · exact ⟨rfl, rfl⟩
  · exact ⟨rfl, rfl⟩
  · exact ⟨rfl, rfl⟩

theorem sound : Sound eas where
  revocation u _ hne := absurd (eas_unended u).1 hne
  expiration u _ hne := absurd (eas_unended u).2 hne

theorem complete {b c d e : UInt8} (hset : ({uid d, uid e} : Finset B256) = {uid b, uid c})
    (hattestations : (run hashes schema (addr 9) (calls d e)).1.attestationsProcessed =
      update (update (fun _ => false) (uid d) true) (uid e) true)
    (hrevocations : (run hashes schema (addr 9) (calls d e)).1.revocationsProcessed = fun _ => false)
    (hexpirations : (run hashes schema (addr 9) (calls d e)).1.expirationsProcessed = fun _ => false) :
    CompleteImport hashes schema (addr 9) eas (records b c) (calls d e) where
  history := by
    refine ⟨fun c hc => ?_, pairwise_singleton _ _⟩
    rw [List.mem_singleton.mp hc]
    exact sound
  persists c hc := by
    rw [List.mem_singleton.mp hc]
    exact fun u _ _ => ⟨_, rfl⟩
  handled := by
    refine ⟨fun u => ?_, fun u => ?_, fun u => ?_⟩
    · rw [hattestations, update_true, update_true, records, ← hset, mem_insert, Finset.mem_singleton]
      simp only [Bool.false_eq_true, or_false]
      exact or_comm
    · rw [hrevocations]
      simp [records]
    · rw [hexpirations]
      simp [records]

end ImportOrderExample

open ImportOrderExample Reconcile.Example in
/-- Two vouches of one second for one recipient: the one that is imported last counts. -/
theorem buildGraph_import_order_same_second :
    CompleteImport hashes schema (addr 9) eas (records 7 8) (calls 7 8) ∧
      CompleteImport hashes schema (addr 9) eas (records 7 8) (calls 8 7) ∧
      buildGraph (run hashes schema (addr 9) (calls 7 8)).2 params ≠
        buildGraph (run hashes schema (addr 9) (calls 8 7)).2 params := by
  obtain ⟨hlast, hfirst⟩ : ((buildGraph (run hashes schema (addr 9) (calls 7 8)).2 params).bind
      fun graph => graph.edge? (addr 1, addr 2)) = some 9500 ∧
      ((buildGraph (run hashes schema (addr 9) (calls 8 7)).2 params).bind
        fun graph => graph.edge? (addr 1, addr 2)) = some 1000 := by
    decide +kernel
  refine ⟨complete rfl rfl rfl rfl, complete (pair_comm _ _) rfl rfl rfl, fun h => ?_⟩
  rw [h, hfirst] at hlast
  exact absurd hlast (by decide)

open ImportOrderExample Reconcile.Example in
/-- An old vouch that is imported after a newer one does not displace it. -/
theorem buildGraph_import_order_reversed : buildGraph (run hashes schema (addr 9) (calls 7 9)).2 params =
      buildGraph (run hashes schema (addr 9) (calls 9 7)).2 params := by
  refine buildGraph_import_order hashes schema (addr 9) eas (records 7 9) params (calls 7 9) (calls 9 7)
    (complete rfl rfl rfl rfl) (complete (pair_comm _ _) rfl rfl rfl) fun u v hu hv _ _ => ?_
  have hnewest : ∀ u, Newest eas (records 7 9) u → u = uid 9 := by
    intro u hu
    have himported := hu.imported
    simp only [records, mem_insert, Finset.mem_singleton] at himported
    rcases himported with rfl | rfl
    · have hle := hu.newest (uid 9) (by simp [records]) (by decide) (by decide)
      exact absurd hle (by decide)
    · rfl
  rw [hnewest u hu, hnewest v hv]

end Trustgraphs.OnchainAttestationImporter
