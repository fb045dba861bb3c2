import Trustgraphs.Envelopes.Plc
import Trustgraphs.Lib.Lineage
import Trustgraphs.ZkCore.Proofs.CidProofs

/-!
# Proofs: what an accepted audit log says

The entries that are not flagged as nullified are a lineage from the genesis operation to the tip:
the fork branch of the walk never completes.
-/

namespace Trustgraphs.Atproto

open Outcome Option List

/-- A decoded log: operations with what the directory attests of them. -/
abbrev Log := List (Op × PlcOpWitness)

/-- The entries that the walk follows: the first one, and those that are not flagged. -/
def active : Log → Log
  | [] => []
  | e :: rest => e :: rest.filter fun e => !e.2.nullified

section

variable (H : Hashes) (D : Dagcbor) (V : Ecdsa) (base58Decode : Bytes → Option Bytes)

def SignedBy (keys : List Bytes) (o : Op) : Prop :=
  ∃ sig, b64urlDecode o.sigB64 = .ok sig ∧ sig.length = 64 ∧
    ∃ k ∈ keys, keyVerifies H V base58Decode o.unsignedBytes sig k = true

/-- An operation names another one and is signed by one of its rotation keys. -/
structure Extends (p o : Op) : Prop where
  prev : o.prev = some p.cidStr
  signed : SignedBy H V base58Decode p.rotationKeys o

structure IsGenesis (did : Bytes) (g : Op) : Prop where
  prev : g.prev = none
  suffix : did = utf8 "did:plc:" ++ (base32Lower g.fullHash.bytes).take 24
  signed : SignedBy H V base58Decode g.rotationKeys g

def DecodesTo (ops : List PlcOpWitness) (log : Log) : Prop :=
  log.map Prod.snd = ops ∧ ∀ e ∈ log, decodeOp H D e.2.opBytes = .ok e.1

end

section

variable {H : Hashes} {D : Dagcbor} {V : Ecdsa} {base58Decode : Bytes → Option Bytes}

variable {o : Op} {ops : List PlcOpWitness} {decoded : List Op} {st st' : Chain} {w : PlcOpWitness}
  {i : ℕ} {seen rest : Log} {e : Op × PlcOpWitness} {log : Log} {ident : VerifiedIdentity}

theorem verifyOpSig_signed {keys : List Bytes} {n : ℕ}
    (h : verifyOpSig H V base58Decode keys o.unsignedBytes o.sigB64 = .ok n) :
    SignedBy H V base58Decode keys o := by
  obtain ⟨sig, hsig, h⟩ := of_bind h
  obtain ⟨hlen, h⟩ := of_guard h
  cases hf : keys.findIdx? (keyVerifies H V base58Decode o.unsignedBytes sig) with
  | none => simp [hf, refuse] at h
  | some i =>
    obtain ⟨hi, hk, -⟩ := findIdx?_eq_some_iff_getElem.mp hf
    exact ⟨sig, hsig, not_not.mp hlen, keys[i], getElem_mem hi, hk⟩

theorem stepOp_cases {op : Op} (h : stepOp H V base58Decode ops decoded st ((op, w), i) = .ok st') :
    ∃ prevCid predIdx pred n, op.prev = some prevCid ∧ st.cidToIdx[prevCid]? = some predIdx ∧
      decoded[predIdx]? = some pred ∧
      verifyOpSig H V base58Decode pred.rotationKeys op.unsignedBytes op.sigB64 = .ok n ∧
      ((w.nullified = true ∧ st' = { st with cidToIdx := st.cidToIdx.insert op.cidStr i }) ∨
       (w.nullified = false ∧ predIdx = st.tip ∧ st' = ⟨st.cidToIdx.insert op.cidStr i, i, some st.tip⟩) ∨
       (w.nullified = false ∧ predIdx ≠ st.tip ∧ ∃ first,
          abandoned ops decoded st.cidToIdx i predIdx (decoded.length + 1) st.tip none = .ok first)) := by
  unfold stepOp at h
  cases hprev : op.prev with
  | none => simp [hprev, refuse] at h
  | some prevCid =>
    cases hidx : st.cidToIdx[prevCid]? with
    | none => simp [hprev, hidx, refuse] at h
    | some predIdx =>
      cases hpred : decoded[predIdx]? with
      | none => simp [hprev, hidx, hpred] at h
      | some pred =>
        simp only [hprev, hidx, hpred] at h
        obtain ⟨n, hn, h⟩ := of_bind h
        refine ⟨prevCid, predIdx, pred, n, rfl, hidx, hpred, hn, ?_⟩
        cases hw : w.nullified with
        | true =>
          rw [if_pos hw] at h
          exact .inl ⟨rfl, (ok_inj h).symm⟩
        | false =>
          rw [if_neg (by simp [hw])] at h
          by_cases htip : predIdx = st.tip
          · rw [if_neg (not_not_intro htip)] at h
            exact .inr (.inl ⟨rfl, htip, (ok_inj h).symm⟩)
          · rw [if_pos htip] at h
            obtain ⟨first, hfirst, -⟩ := of_bind h
            exact .inr (.inr ⟨rfl, htip, first, hfirst⟩)

theorem abandoned_ne_ok {cidToIdx : BTreeMap Bytes ℕ} {predIdx tip fuel : ℕ}
    {branchFirst first : Option ℕ} (hne : predIdx ≠ tip) (hw : ops[tip]? = some w)
    (ho : decoded[tip]? = some o) (htip : tip = 0 ∨ w.nullified = false) (hroot : tip = 0 → o.prev = none) :
    abandoned ops decoded cidToIdx i predIdx fuel tip branchFirst ≠ .ok first := by
  intro h
  cases fuel with
  | zero => simp [abandoned] at h
  | succ fuel =>
    rw [abandoned, if_neg (Ne.symm hne)] at h
    simp only [hw, ho] at h
    by_cases h0 : tip = 0
    · rw [if_neg (by simp [h0]), hroot h0] at h
      simp [refuse] at h
    · rcases htip with h0' | hn
      · exact h0 h0'
      · rw [if_pos ⟨by simp [hn], h0⟩] at h
        simp [refuse] at h

theorem active_append (hs : seen ≠ []) (e : Op × PlcOpWitness) :
    active (seen ++ [e]) = active seen ++ if e.2.nullified then [] else [e] := by
  cases seen with
  | nil => exact absurd rfl hs
  | cons g rest =>
    rw [cons_append, active, active, filter_append, cons_append]
    cases hn : e.2.nullified with
    | true => simp [hn]
    | false => simp [hn]

variable (H V base58Decode) in
/-- The walk has taken the entries `seen`, and its state describes them. -/
structure Walked (seen : Log) (st : Chain) : Prop where
  /-- The index knows entries by their names. -/
  cids : ∀ (c : Bytes) (j : ℕ), st.cidToIdx[c]? = some j → ∃ e, seen[j]? = some e ∧ e.1.cidStr = c
  tip : ∃ t, (active seen).getLast? = some t ∧ seen[st.tip]? = some t ∧ (st.tip = 0 ∨ t.2.nullified = false)
  prevTip : ∀ p, st.prevTip = some p → ∃ e l, seen[p]? = some e ∧ (active seen).dropLast = l ++ [e]
  /-- The entries that are not flagged are a lineage. -/
  lineage : Lineage Op.cidStr Op.prev ((active seen).map Prod.fst)
  /-- Its operations are signed by their predecessors. -/
  signed : ((active seen).map Prod.fst).IsChain (Extends H V base58Decode)
  /-- Every entry after the first extends an earlier one. -/
  extended : ∀ l e r, seen = l ++ e :: r → l ≠ [] → ∃ p ∈ l, Extends H V base58Decode p.1 e.1

theorem walked_start {g : Op × PlcOpWitness} (hg : g.1.prev = none) : Walked H V base58Decode [g]
      ⟨(∅ : BTreeMap Bytes ℕ).insert g.1.cidStr 0, 0, none⟩ where
  cids c j h := by
    rw [BTreeMap.getElem?_insert] at h
    split at h
    · rename_i hc
      obtain rfl : 0 = j := Option.some.inj h
      exact ⟨g, rfl, hc⟩
    · simp at h
  tip := ⟨g, rfl, rfl, .inl rfl⟩
  prevTip p h := by simp at h
  lineage := Lineage.singleton hg
  signed := isChain_singleton _
  extended l e r h hl := by
    cases l with
    | nil => exact absurd rfl hl
    | cons a l => simp at h

/-- The fork branch is never completed: the tip is not flagged. -/
theorem Walked.no_fork {predIdx fuel : ℕ} {first : Option ℕ} (hops : ops = (seen ++ rest).map Prod.snd)
    (hdec : decoded = (seen ++ rest).map Prod.fst) (hw : Walked H V base58Decode seen st)
    (hne : predIdx ≠ st.tip) :
    abandoned ops decoded st.cidToIdx i predIdx fuel st.tip none ≠ .ok first := by
  obtain ⟨t, -, htip, hfree⟩ := hw.tip
  have htlen : st.tip < seen.length := (List.getElem?_eq_some_iff.mp htip).1
  refine abandoned_ne_ok hne (w := t.2) (o := t.1) ?_ ?_ hfree ?_
  · rw [hops, List.getElem?_map, getElem?_append_left htlen, htip]
    rfl
  · rw [hdec, List.getElem?_map, getElem?_append_left htlen, htip]
    rfl
  · intro h0
    refine hw.lineage.root t.1 ?_
    rw [h0] at htip
    cases seen with
    | nil => simp at htip
    | cons g rest =>
      obtain rfl : g = t := Option.some.inj htip
      rfl

/-- One entry more. -/
theorem walked_step (hops : ops = (seen ++ e :: rest).map Prod.snd)
    (hdec : decoded = (seen ++ e :: rest).map Prod.fst) (hw : Walked H V base58Decode seen st)
    (h : stepOp H V base58Decode ops decoded st (e, seen.length) = .ok st') :
    Walked H V base58Decode (seen ++ [e]) st' := by
  obtain ⟨prevCid, predIdx, pred, n, hprev, hidx, hpred, hn, hcases⟩ := stepOp_cases
    (show stepOp H V base58Decode ops decoded st ((e.1, e.2), seen.length) = .ok st' from h)
  obtain ⟨p, hp, hpcid⟩ := hw.cids prevCid predIdx hidx
  obtain ⟨t, hlast, htip, hfree⟩ := hw.tip
  have hlen : predIdx < seen.length := (List.getElem?_eq_some_iff.mp hp).1
  have htlen : st.tip < seen.length := (List.getElem?_eq_some_iff.mp htip).1
  have hne : seen ≠ [] := by
    rintro rfl
    simp at hlen
  have hpp : p.1 = pred := by
    rw [hdec, List.getElem?_map, getElem?_append_left hlen, hp] at hpred
    exact Option.some.inj hpred
  have hext : Extends H V base58Decode p.1 e.1 := by
    refine ⟨by rw [hprev, hpcid], ?_⟩
    rw [hpp]
    exact verifyOpSig_signed hn
  have hcids : ∀ (c : Bytes) (j : ℕ), (st.cidToIdx.insert e.1.cidStr seen.length)[c]? = some j →
      ∃ e', (seen ++ [e])[j]? = some e' ∧ e'.1.cidStr = c := by
    intro c j hj
    rw [BTreeMap.getElem?_insert] at hj
    split at hj
    · rename_i hc
      obtain rfl : seen.length = j := Option.some.inj hj
      exact ⟨e, by simp, hc⟩
    · obtain ⟨e', he', hc⟩ := hw.cids c j hj
      exact ⟨e', getElem?_append_left (List.getElem?_eq_some_iff.mp he').1 ▸ he', hc⟩
  have hextended : ∀ l e' r, seen ++ [e] = l ++ e' :: r → l ≠ [] →
      ∃ p ∈ l, Extends H V base58Decode p.1 e'.1 := by
    intro l e' r hsplit hl
    rcases eq_nil_or_concat r with rfl | ⟨r, x, rfl⟩
    · obtain ⟨rfl, heq⟩ := append_inj' hsplit rfl
      obtain rfl : e = e' := (List.cons.inj heq).1
      exact ⟨p, mem_of_getElem? hp, hext⟩
    · refine hw.extended l e' r ?_ hl
      rw [concat_eq_append, ← cons_append, ← append_assoc] at hsplit
      exact (append_inj' hsplit rfl).1
  rcases hcases with ⟨hnull, rfl⟩ | ⟨hnull, htipeq, rfl⟩ | ⟨hnull, htipne, first, hfirst⟩
  · -- a flagged entry is only remembered
    have hact : active (seen ++ [e]) = active seen := by rw [active_append hne, if_pos hnull, append_nil]
    refine ⟨hcids, ⟨t, by rw [hact, hlast], ?_, hfree⟩, ?_, ?_, ?_, hextended⟩
    · exact (getElem?_append_left htlen).trans htip
    · intro q hq
      obtain ⟨e', l, he', hl⟩ := hw.prevTip q hq
      have hq' : q < seen.length := (List.getElem?_eq_some_iff.mp he').1
      exact ⟨e', l, (getElem?_append_left hq').trans he', by rw [hact, hl]⟩
    · rw [hact]
      exact hw.lineage
    · rw [hact]
      exact hw.signed
  · -- the tip moves to its successor
    have hact : active (seen ++ [e]) = active seen ++ [e] := by
      rw [active_append hne, if_neg (by simp [hnull])]
    have hpt : p = t := by
      rw [← htipeq, hp] at htip
      exact Option.some.inj htip
    have hmap : (active (seen ++ [e])).map Prod.fst = (active seen).map Prod.fst ++ [e.1] := by
      rw [hact, map_append, map_singleton]
    have hmaplast : ((active seen).map Prod.fst).getLast? = some t.1 := by
      rw [getLast?_map, hlast]
      rfl
    refine ⟨hcids, ⟨e, ?_, ?_, .inr hnull⟩, ?_, ?_, ?_, hextended⟩
    · rw [hact, getLast?_concat]
    · simp
    · intro q hq
      obtain rfl : st.tip = q := Option.some.inj hq
      have hdl : (active (seen ++ [e])).dropLast = (active seen).dropLast ++ [t] := by
        rw [hact, dropLast_concat]
        exact (dropLast_append_getLast? t hlast).symm
      exact ⟨t, _, (getElem?_append_left htlen).trans htip, hdl⟩
    · rw [hmap]
      refine hw.lineage.append_singleton hmaplast ?_
      rw [hprev, ← hpt, hpcid]
    · rw [hmap]
      refine isChain_append.mpr ⟨hw.signed, isChain_singleton _, ?_⟩
      intro a ha b hb
      obtain rfl : t.1 = a := Option.some.inj (hmaplast.symm.trans ha)
      obtain rfl : e.1 = b := by simpa using hb
      exact hpt ▸ hext
  · exact absurd hfirst (hw.no_fork hops hdec htipne)

theorem walked_foldlM (hops : ops = (seen ++ rest).map Prod.snd) (hdec : decoded = (seen ++ rest).map Prod.fst)
    (hw : Walked H V base58Decode seen st)
    (h : (rest.zipIdx seen.length).foldlM (stepOp H V base58Decode ops decoded) st = .ok st') :
    Walked H V base58Decode (seen ++ rest) st' := by
  induction rest generalizing seen st with
  | nil =>
    rw [append_nil]
    rw [zipIdx_nil, foldlM_nil] at h
    exact ok_inj h ▸ hw
  | cons e rest ih =>
    rw [zipIdx_cons, foldlM_cons] at h
    obtain ⟨st₁, h₁, h⟩ := of_bind h
    have hstep := walked_step hops hdec hw h₁
    have happ : seen ++ e :: rest = (seen ++ [e]) ++ rest := by simp
    rw [happ] at hops hdec ⊢
    exact ih hops hdec hstep (by simpa using h)

theorem decodeOp_hash {bytes : Bytes} (h : decodeOp H D bytes = .ok o) :
    o.cidStr = cidV1Dagcbor (H.sha256 bytes) := by
  unfold decodeOp at h
  cases hv : D.fromSlice bytes with
  | none => simp [hv, refuse] at h
  | some v =>
    rw [hv] at h
    cases v with
    | map m =>
      dsimp only at h
      cases htyp : ipldStr m (utf8 "type") with
      | none => simp [htyp, refuse] at h
      | some typ =>
        simp only [htyp] at h
        obtain ⟨prev, -, h⟩ := of_bind h
        cases hsig : ipldStr m (utf8 "sig") with
        | none => simp [hsig, refuse] at h
        | some sig =>
          simp only [hsig] at h
          obtain ⟨keys, -, h⟩ := of_bind h
          split at h
          · obtain ⟨-, h⟩ := of_guard h
            rw [← ok_inj h]
          · simp [refuse] at h
    | _ => simp [refuse] at h

theorem decodesTo_unique {log' : Log} (h : DecodesTo H D ops log)
    (h' : DecodesTo H D ops log') : log = log' := by
  obtain ⟨hops, hdec⟩ := h
  obtain ⟨hops', hdec'⟩ := h'
  refine List.ext_getElem? fun i => ?_
  have hi : (log[i]?).map Prod.snd = (log'[i]?).map Prod.snd := by
    rw [← List.getElem?_map, ← List.getElem?_map, hops, hops']
  cases he : log[i]? with
  | none =>
    rw [he, map_none] at hi
    exact (Option.map_eq_none_iff.mp hi.symm).symm
  | some e =>
    rw [he, map_some] at hi
    obtain ⟨e', he', hw⟩ := map_eq_some_iff.mp hi.symm
    rw [he']
    have ho := hdec e (mem_of_getElem? he)
    have ho' := hdec' e' (mem_of_getElem? he')
    rw [hw] at ho'
    exact congrArg some (Prod.ext (ok_inj (ho.symm.trans ho')) hw.symm)

theorem decodesTo_cons : DecodesTo H D (w :: ops) log ↔
      ∃ o rest, log = (o, w) :: rest ∧ decodeOp H D w.opBytes = .ok o ∧ DecodesTo H D ops rest := by
  constructor
  · rintro ⟨hops, hdec⟩
    cases log with
    | nil => simp at hops
    | cons e rest =>
      obtain ⟨hw, hops⟩ := List.cons.inj hops
      refine ⟨e.1, rest, by rw [← hw], hw ▸ hdec e (mem_cons_self ..), hops, ?_⟩
      exact fun e' he' => hdec e' (mem_cons_of_mem _ he')
  · rintro ⟨o, rest, rfl, ho, hops, hdec⟩
    refine ⟨by rw [map_cons, hops], fun e he => ?_⟩
    rcases mem_cons.mp he with rfl | he
    · exact ho
    · exact hdec e he

theorem decodesTo_nil : DecodesTo H D [] log ↔ log = [] := by
  constructor
  · rintro ⟨hops, -⟩
    exact map_eq_nil_iff.mp hops
  · rintro rfl
    exact ⟨rfl, by simp⟩

theorem cidStr_injOn
    (hfree : CollisionFree H.sha256 (ops.map PlcOpWitness.opBytes)) (hlog : DecodesTo H D ops log)
    {e' : Op × PlcOpWitness} (he : e ∈ log) (he' : e' ∈ log) (h : e.1.cidStr = e'.1.cidStr) :
    e.1 = e'.1 := by
  have ho := hlog.2 e he
  have ho' := hlog.2 e' he'
  have hmem : ∀ e ∈ log, e.2.opBytes ∈ ops.map PlcOpWitness.opBytes := by
    intro e he
    rw [← hlog.1, List.map_map]
    exact List.mem_map_of_mem he
  have hhash : H.sha256 e.2.opBytes = H.sha256 e'.2.opBytes := by
    rw [decodeOp_hash ho, decodeOp_hash ho'] at h
    exact cidV1Dagcbor_injective h
  have hbytes := hfree.inj _ (hmem e he) _ (hmem e' he') hhash
  rw [hbytes] at ho
  exact ok_inj (ho.symm.trans ho')

variable (base58Decode) in
def keyOf (o : Op) : Option Multikey := o.atprotoKey.bind (parseMultikey base58Decode)

variable (H V base58Decode) in
structure Accepted (did : Bytes) (log : Log) (ident : VerifiedIdentity) : Prop where
  genesis : ∃ g, log.head? = some g ∧ IsGenesis H V base58Decode did g.1
  lineage : Lineage Op.cidStr Op.prev ((active log).map Prod.fst)
  signed : ((active log).map Prod.fst).IsChain (Extends H V base58Decode)
  extended : ∀ l e r, log = l ++ e :: r → l ≠ [] → ∃ p ∈ l, Extends H V base58Decode p.1 e.1
  tip : ∃ t, (active log).getLast? = some t ∧ t.1.typ ≠ utf8 "plc_tombstone" ∧
    keyOf base58Decode t.1 = some ident.atprotoKey ∧ ident.tipCreatedAt = t.2.createdAt
  previous : ∀ k, ident.provisionalPrevKey = some k →
    ∃ e l, (active log).dropLast = l ++ [e] ∧ keyOf base58Decode e.1 = some k

theorem identityAt_eq_ok :
    identityAt base58Decode ops decoded st = .ok ident ↔ ∃ o w mk, decoded[st.tip]? = some o ∧
      ops[st.tip]? = some w ∧ o.typ ≠ utf8 "plc_tombstone" ∧ keyOf base58Decode o = some mk ∧
      ident = ⟨mk, (st.prevTip.bind fun p => decoded[p]?).bind (keyOf base58Decode), w.createdAt⟩ := by
  unfold identityAt
  cases ho : decoded[st.tip]? with
  | none => simp
  | some o =>
    cases hw : ops[st.tip]? with
    | none => simp
    | some w =>
      have hprev : ((st.prevTip.bind fun p => decoded[p]?).bind fun o => o.atprotoKey).bind
          (parseMultikey base58Decode) = (st.prevTip.bind fun p => decoded[p]?).bind (keyOf base58Decode) :=
        Option.bind_assoc ..
      dsimp only
      rw [refuse, ite_error_eq_ok, hprev]
      cases hkey : o.atprotoKey with
      | none => simp [keyOf, hkey, refuse]
      | some key =>
        cases hp : parseMultikey base58Decode key with
        | none => simp [keyOf, hkey, hp, refuse]
        | some mk => simp [keyOf, hkey, hp, eq_comm]

/-- What has to hold for a log to be accepted. -/
theorem verifyChain_eq_ok {did : Bytes} {ws : List PlcOpWitness} : verifyChain H D V base58Decode did (w :: ws) = .ok ident ↔
    ∃ suffix genesis rest n st, Text.stripPrefix (utf8 "did:plc:") did = some suffix ∧
      (w :: ws).mapM (fun w => decodeOp H D w.opBytes) = .ok (genesis :: rest) ∧ genesis.prev = none ∧
      (base32Lower genesis.fullHash.bytes).take 24 = suffix ∧
      verifyOpSig H V base58Decode genesis.rotationKeys genesis.unsignedBytes genesis.sigB64 = .ok n ∧
      ((rest.zip ws).zipIdx 1).foldlM (stepOp H V base58Decode (w :: ws) (genesis :: rest))
        ⟨(∅ : BTreeMap Bytes ℕ).insert genesis.cidStr 0, 0, none⟩ = .ok st ∧
      identityAt base58Decode (w :: ws) (genesis :: rest) st = .ok ident := by
  constructor
  · intro h
    obtain ⟨-, h⟩ := of_guard h
    cases hsuf : Text.stripPrefix (utf8 "did:plc:") did with
    | none => simp [hsuf, refuse] at h
    | some suffix =>
      simp only [hsuf] at h
      obtain ⟨decoded, hdec, h⟩ := of_bind h
      cases decoded with
      | nil => simp at h
      | cons genesis rest =>
        obtain ⟨hprev, h⟩ := of_guard h
        obtain ⟨hhash, h⟩ := of_guard h
        obtain ⟨n, hn, h⟩ := of_bind h
        obtain ⟨st, hst, h⟩ := of_bind h
        exact ⟨suffix, genesis, rest, n, st, rfl, hdec, by simpa using hprev, not_not.mp hhash, hn, hst, h⟩
  · rintro ⟨suffix, genesis, rest, n, st, hsuf, hdec, hprev, hhash, hn, hst, h⟩
    refine ite_error_eq_ok.mpr ⟨by simp, ?_⟩
    simp only [hsuf]
    refine bind_eq_ok.mpr ⟨genesis :: rest, hdec, ite_error_eq_ok.mpr ⟨by simp [hprev],
      ite_error_eq_ok.mpr ⟨not_not_intro hhash, bind_eq_ok.mpr ⟨n, hn, bind_eq_ok.mpr ⟨st, hst, h⟩⟩⟩⟩⟩

theorem verifyChain_accepted {did : Bytes} (h : verifyChain H D V base58Decode did ops = .ok ident) :
    ∃ log, DecodesTo H D ops log ∧ Accepted H V base58Decode did log ident := by
  cases ops with
  | nil => simp [verifyChain, refuse] at h
  | cons w ws =>
    obtain ⟨suffix, genesis, rest, n, st, hsuf, hdec, hprev, rfl, hn, hst, h⟩ := verifyChain_eq_ok.mp h
    have hdec2 := mapM_eq_ok.mp hdec
    have hlen : (genesis :: rest).length = (w :: ws).length := hdec2.length_eq.symm
    have hfst : ((genesis :: rest).zip (w :: ws)).map Prod.fst = genesis :: rest := map_fst_zip (by omega)
    have hsnd : ((genesis :: rest).zip (w :: ws)).map Prod.snd = w :: ws := map_snd_zip (by omega)
    have hdecodes : DecodesTo H D (w :: ws) ((genesis :: rest).zip (w :: ws)) := by
      refine ⟨hsnd, fun e he => ?_⟩
      obtain ⟨i, hi⟩ := List.mem_iff_getElem?.mp he
      obtain ⟨ho, hw⟩ := getElem?_zip_eq_some.mp hi
      exact (forall₂_iff_get.mp hdec2).2 i (List.getElem?_eq_some_iff.mp hw).1
        (List.getElem?_eq_some_iff.mp ho).1 |> fun hf => by
          simpa [List.getElem?_eq_some_iff.mp hw |>.2, List.getElem?_eq_some_iff.mp ho |>.2] using hf
    have hw := @walked_foldlM H V base58Decode _ _ _ st [(genesis, w)] (rest.zip ws) hsnd.symm
      hfst.symm (walked_start hprev) hst
    obtain ⟨t, hlast, htip, -⟩ := hw.tip
    obtain ⟨o, w', mk, ho, hw', htyp, hkey, rfl⟩ := identityAt_eq_ok.mp h
    have ht : ((genesis :: rest).zip (w :: ws))[st.tip]? = some t := htip
    rw [← hfst, List.getElem?_map, ht] at ho
    rw [← hsnd, List.getElem?_map, ht] at hw'
    obtain rfl := Option.some.inj ho
    obtain rfl := Option.some.inj hw'
    refine ⟨_, hdecodes, ⟨(genesis, w), rfl, hprev, Text.stripPrefix_eq_some.mp hsuf, verifyOpSig_signed hn⟩,
      hw.lineage, hw.signed, hw.extended, ⟨t, hlast, htyp, hkey, rfl⟩, fun k hk => ?_⟩
    obtain ⟨o, ho, hok⟩ := bind_eq_some_iff.mp hk
    obtain ⟨p, hp, hpo⟩ := bind_eq_some_iff.mp ho
    obtain ⟨e, l, he, hl⟩ := hw.prevTip p hp
    have hpe : ((genesis :: rest).zip (w :: ws))[p]? = some e := he
    rw [← hfst, List.getElem?_map, hpe] at hpo
    obtain rfl := Option.some.inj hpo
    exact ⟨e, l, hl, hok⟩

theorem active_subset (he : e ∈ active log) : e ∈ log := by
  cases log with
  | nil => exact he
  | cons g rest =>
    rcases mem_cons.mp he with rfl | he
    · exact mem_cons_self ..
    · exact mem_cons_of_mem _ (mem_of_mem_filter he)

theorem head?_active (log : Log) : (active log).head? = log.head? := by
  cases log with
  | nil => rfl
  | cons g rest => rfl

variable (H V base58Decode) in
/-- Operations of a log from its genesis operation on, each authorized by the one before it, none of
them a tombstone. -/
structure AuthorityChain (did : Bytes) (log : Log) (chain : List Op) : Prop where
  logged : ∀ o ∈ chain, ∃ e ∈ log, e.1 = o
  genesis : ∃ g, chain.head? = some g ∧ (log.head?).map Prod.fst = some g ∧ IsGenesis H V base58Decode did g
  links : chain.IsChain (Extends H V base58Decode)
  alive : ∀ o ∈ chain, o.typ ≠ utf8 "plc_tombstone"

variable (H D V base58Decode) in
/-- The keys of an identity have authority: that of the tip, which is the last entry that is not
flagged, and the provisional one. -/
def Authority (did : Bytes) (ops : List PlcOpWitness) (ident : VerifiedIdentity) : Prop :=
  ∃ log, DecodesTo H D ops log ∧ (∃ t chain, (active log).getLast? = some t ∧ chain.getLast? = some t.1 ∧
      AuthorityChain H V base58Decode did log chain ∧ keyOf base58Decode t.1 = some ident.atprotoKey) ∧
    ∀ k, ident.provisionalPrevKey = some k → ∃ o chain, chain.getLast? = some o ∧
      AuthorityChain H V base58Decode did log chain ∧ keyOf base58Decode o = some k

variable (H D) in
def TombstoneFree (ops : List PlcOpWitness) : Prop :=
  ∀ log, DecodesTo H D ops log → ∀ e ∈ active log, e.1.typ ≠ utf8 "plc_tombstone"

theorem Extends.lineage {did : Bytes} {chain : List Op}
    (h : AuthorityChain H V base58Decode did log chain) : Lineage Op.cidStr Op.prev chain where
  root x hx := by
    obtain ⟨g, hg, -, hgen⟩ := h.genesis
    obtain rfl : g = x := Option.some.inj (hg.symm.trans hx)
    exact hgen.prev
  links := h.links.imp fun _ _ hpo => hpo.prev

theorem Accepted.chain_eq {did : Bytes} {t : Op × PlcOpWitness} {chain : List Op}
    (hfree : CollisionFree H.sha256 (ops.map PlcOpWitness.opBytes)) (hlog : DecodesTo H D ops log)
    (h : Accepted H V base58Decode did log ident) (ht : (active log).getLast? = some t)
    (hchain : AuthorityChain H V base58Decode did log chain) (hlast : chain.getLast? = some t.1) :
    chain = (active log).map Prod.fst := by
  refine (Extends.lineage hchain).eq_of_getLast? h.lineage ?_ ?_
  · intro p hp q hq hname
    obtain ⟨e, he, rfl⟩ := hchain.logged p hp
    obtain ⟨e', he', rfl⟩ := List.mem_map.mp hq
    exact cidStr_injOn hfree hlog he (active_subset he') hname
  · rw [hlast, getLast?_map, ht]
    rfl

theorem Accepted.authorityChain {did : Bytes} {l r : Log}
    (h : Accepted H V base58Decode did log ident) (hl : active log = l ++ r) (hne : l ≠ [])
    (halive : ∀ e ∈ active log, e.1.typ ≠ utf8 "plc_tombstone") :
    AuthorityChain H V base58Decode did log (l.map Prod.fst) where
  logged o ho := by
    obtain ⟨e, he, rfl⟩ := List.mem_map.mp ho
    exact ⟨e, active_subset (hl ▸ mem_append_left _ he), rfl⟩
  genesis := by
    obtain ⟨g, hg, hgen⟩ := h.genesis
    have hhead : l.head? = some g := by
      rw [← head?_active, hl, head?_append_of_ne_nil _ hne] at hg
      exact hg
    exact ⟨g.1, by rw [head?_map, hhead]; rfl, by rw [hg]; rfl, hgen⟩
  links := by
    have hs := h.signed
    rw [hl, map_append] at hs
    exact (isChain_append.mp hs).1
  alive o ho := by
    obtain ⟨e, he, rfl⟩ := List.mem_map.mp ho
    exact halive e (hl ▸ mem_append_left _ he)

theorem Accepted.tombstoneFree {did : Bytes} (hfree : CollisionFree H.sha256 (ops.map PlcOpWitness.opBytes))
    (hlog : DecodesTo H D ops log) (h : Accepted H V base58Decode did log ident)
    (hauth : Authority H D V base58Decode did ops ident) :
    ∀ e ∈ active log, e.1.typ ≠ utf8 "plc_tombstone" := by
  obtain ⟨log', hlog', ⟨t, chain, ht, hlast, hchain, -⟩, -⟩ := hauth
  obtain rfl := decodesTo_unique hlog hlog'
  have heq := h.chain_eq hfree hlog ht hchain hlast
  intro e he
  refine hchain.alive e.1 ?_
  rw [heq]
  exact List.mem_map_of_mem he

/-- The keys of an accepted log have authority exactly when no tombstone is on the way to the tip. -/
theorem verifyChain_authority_iff {did : Bytes} {ops : List PlcOpWitness}
    {ident : VerifiedIdentity} (hfree : CollisionFree H.sha256 (ops.map PlcOpWitness.opBytes))
    (h : verifyChain H D V base58Decode did ops = .ok ident) :
    Authority H D V base58Decode did ops ident ↔ TombstoneFree H D ops := by
  obtain ⟨log, hlog, hacc⟩ := verifyChain_accepted h
  constructor
  · intro hauth log' hlog'
    obtain rfl := decodesTo_unique hlog hlog'
    exact hacc.tombstoneFree hfree hlog hauth
  · intro hfreeLog
    have halive := hfreeLog log hlog
    obtain ⟨t, ht, -, hkey, -⟩ := hacc.tip
    have hne : active log ≠ [] := by
      intro h0
      rw [h0] at ht
      simp at ht
    refine ⟨log, hlog, ⟨t, _, ht, ?_, hacc.authorityChain (append_nil _).symm hne halive, hkey⟩, ?_⟩
    · rw [getLast?_map, ht]
      rfl
    · intro k hk
      obtain ⟨e, l, hl, hek⟩ := hacc.previous k hk
      have hsplit : active log = (l ++ [e]) ++ [t] := by
        rw [← hl]
        exact (dropLast_append_getLast? t ht).symm
      refine ⟨e.1, _, ?_, hacc.authorityChain hsplit (by simp) halive, hek⟩
      rw [map_append, map_singleton, getLast?_concat]

end

namespace Example

/-! A log of real operations: the genesis operation with two rotation keys, two successors signed by
either key, a tombstone that brings a rotation key, and its successor. -/

structure SampleKey where
  text : Bytes
  key : Bytes

def rotation0 : SampleKey :=
  ⟨utf8 "Q3shQyLcswad1pofzm2D73SoJPt4oNJhRpajKWajsxPBdysf",
    beBytes 33 0x0234e9ac895c6fdb166f33e9ff99ef9cb4a54deb941fce94e6ef629238dba1841a⟩

def rotation1 : SampleKey :=
  ⟨utf8 "Q3shop8GTxqRUeGPpfs2GCCszwFaAuxdXhDVKYba9tczKx79",
    beBytes 33 0x03884a479385c1ac00d1660603071f64995b59db1cb07c37596c4390b161571c20⟩

def signing0 : SampleKey :=
  ⟨utf8 "Q3shQswMkPsVp41Vsfzd22fsukq6aKQ77uw2rtcPKm3PkKGR",
    beBytes 33 0x023387780225572ce6c51a4c36c93113c0a70bbc7ab9bf4d37a538b59fc116775e⟩

def signing1 : SampleKey :=
  ⟨utf8 "Q3shTYiZgmVGTqhEne7YRGBLRENBCpx6jnRD6EpBRBmHuJkR",
    beBytes 33 0x025b2e071b68d971f8e511934241635821acc1d6e7f8010cfeffef2417ab7e085a⟩

def signing2 : SampleKey :=
  ⟨utf8 "Q3shpsxZBTa5pdAUpTN6Yto1z1Y5Vi8huxiep9mTXf3y7YUj",
    beBytes 33 0x0398214eff8ecbd7ffc4f902003114c77750f49bf75e834b735f27151ce7abe3d4⟩

def signing3 : SampleKey :=
  ⟨utf8 "Q3shazgco8yb8WzZPqYWVByDYghg85SMMC1hBkMEYsiStdPa",
    beBytes 33 0x02c9d6bc8b561f4f5c66191ff09e521ff9ef17a9208e3c16774c9e50c082f56055⟩

def keys : List SampleKey := [rotation0, rotation1, signing0, signing1, signing2, signing3]

def SampleKey.did (k : SampleKey) : Bytes := utf8 "did:key:z" ++ k.text

structure Sample where
  prev : Option Bytes
  fullHash : B256
  unsignedHash : B256
  sigText : Bytes
  signer : SampleKey
  declares : Option SampleKey
  rotation : List SampleKey
  typ : Bytes

def Sample.sig (q : Sample) : Bytes := (b64urlDecode q.sigText).toOption.getD []

def cborText (s : Bytes) : Bytes :=
  (if s.length < 24 then [0x60 + s.length.toUInt8] else [0x78, s.length.toUInt8]) ++ s

def Sample.bytes (q : Sample) (signed : Bool) : Bytes :=
  [0xa3 + (if q.declares.isSome then 3 else 0) + (if signed then 1 else 0)] ++
  (if signed then cborText (utf8 "sig") ++ cborText q.sigText else []) ++
  cborText (utf8 "prev") ++ (q.prev.map cborText).getD [0xf6] ++
  cborText (utf8 "type") ++ cborText q.typ ++
  (if q.declares.isSome then
    cborText (utf8 "services") ++ [0xa0] ++ cborText (utf8 "alsoKnownAs") ++ [0x80] else []) ++
  cborText (utf8 "rotationKeys") ++ [0x80 + q.rotation.length.toUInt8] ++
  (q.rotation.flatMap fun k => cborText k.did) ++
  q.declares.toList.flatMap fun k =>
    cborText (utf8 "verificationMethods") ++ [0xa1] ++ cborText (utf8 "atproto") ++ cborText k.did

def Sample.full (q : Sample) : Bytes := q.bytes true

def Sample.unsigned (q : Sample) : Bytes := q.bytes false

@[irreducible]
def genesis : Sample where
  prev := none
  fullHash := .ofNat 32 0xb68bb0182396e4333fdc78feff3ef80d8326d7d7f48590918b0487514bf9ecf1
  unsignedHash := .ofNat 32 0x69618e25794b4ccd0270b34fe0b04dacf11b0dbdebd93104b41009fc85aa489c
  sigText := utf8 "QoWx8_dpBrdDZDpJuAAIcOmlmxW0j8PQBHh2pIUu-BYeCgG7fU0s6FqCETbrgdtntSHlHijIesQW61hutCPRoQ"
  signer := rotation0
  declares := some signing0
  rotation := [rotation0, rotation1]
  typ := utf8 "plc_operation"

@[irreducible]
def second : Sample where
  prev := some (cidV1Dagcbor genesis.fullHash)
  fullHash := .ofNat 32 0x532ae86cb7ab036b0eeafb64df5213a3b004ff49f2a91969e93a5696bc10062a
  unsignedHash := .ofNat 32 0x659456ca2507862f3c37b242e171a11d0636d54a67c9163ca2696fefcb2eb03e
  sigText := utf8 "HJ9h67O47rZGiyWAgE8EhkCDGyDh2R_gtXZQPxsWATlW7iChVII4R2-wyO1mR9ZcQfvaMazRPLfT-it5cepYSA"
  signer := rotation1
  declares := some signing1
  rotation := [rotation1]
  typ := utf8 "plc_operation"

@[irreducible]
def first : Sample where
  prev := some (cidV1Dagcbor genesis.fullHash)
  fullHash := .ofNat 32 0xb20b205dca69c3e7e904f56427db9a14870c147d3ae0ea7a8a0083dc24efe4b0
  unsignedHash := .ofNat 32 0x9b9fc6dde1f5e63c7b22b28c2d742cc020ae4d7a9abf45d1147311e87fa754ae
  sigText := utf8 "SSxQ_Qc4y30kIdAqD84qOQRA85Z4rEyn3FSznWd6vhFp8XMN5n-LYGMl60Mgk4JdT6Tz9kn89aNL5LNUldxHsQ"
  signer := rotation0
  declares := some signing2
  rotation := [rotation0]
  typ := utf8 "plc_operation"

@[irreducible]
def tombstone : Sample where
  prev := some (cidV1Dagcbor genesis.fullHash)
  fullHash := .ofNat 32 0x3812dee8081054b7827914b554f74362396c7c99e65752b68fc96783841ada2e
  unsignedHash := .ofNat 32 0x9077d572ce97e9a4c1c5c6c279028873edebf7646f829d4d5e310900c8072d3a
  sigText := utf8 "VMJo2-npdN3b1c2OuHbdn7pdOpImD7TlJy8cocyTq8JwRKv94NjYmUi5B2n-nvVcM4rTFgfhA998kxDWJrWRoQ"
  signer := rotation0
  declares := none
  rotation := [rotation1]
  typ := utf8 "plc_tombstone"

@[irreducible]
def after : Sample where
  prev := some (cidV1Dagcbor tombstone.fullHash)
  fullHash := .ofNat 32 0xc71adbef3e0296f97b6e4efb3cc04d4b2450e3f07a655be81413172f5d40628f
  unsignedHash := .ofNat 32 0xb2cac3aa5d4063a16da50587c920302bbeb821af3e4a343ee2a35ae09d077f4a
  sigText := utf8 "2BOW1kO1rEPSwDcaEBTAMYvvNaeFxx4MtRtJmkSEdN5rs_VXmgLDM6MfJK8q9RFpYvjPEjEKPXc0P2LjitZqTg"
  signer := rotation1
  declares := some signing3
  rotation := [rotation1]
  typ := utf8 "plc_operation"

def samples : List Sample := [genesis, second, first, tombstone, after]

def did : Bytes := utf8 "did:plc:w2f3agbds3sdgp64pd7p6pxy"

def hashes : Hashes where
  keccak256 _ := 0
  sha256 s :=
    match samples.find? fun q => q.full == s || q.unsigned == s with
    | some q => if q.full = s then q.fullHash else q.unsignedHash
    | none => 0

def fields (q : Sample) : List (Bytes × Ipld) :=
  (if q.declares.isSome then [(utf8 "alsoKnownAs", .list [])] else []) ++
  [(utf8 "prev", (q.prev.map Ipld.string).getD .null),
    (utf8 "rotationKeys", .list (q.rotation.map fun k => .string k.did))] ++
  (if q.declares.isSome then [(utf8 "services", .map [])] else []) ++
  [(utf8 "sig", .string q.sigText), (utf8 "type", .string q.typ)] ++
  q.declares.toList.map fun k => (utf8 "verificationMethods", .map [(utf8 "atproto", .string k.did)])

def codec : Dagcbor where
  fromSlice s := (samples.find? fun q => q.full == s).map fun q => .map (fields q)
  toVec v :=
    match v with
    | .map m =>
      match ipldStr m (utf8 "sig") with
      | some sig => (samples.find? fun q => q.sigText == sig).map Sample.full
      | none =>
        (samples.find? fun q => q.declares.map SampleKey.did == decodeAtprotoKey m []).map
          Sample.unsigned
    | _ => none

def base58 (s : Bytes) : Option Bytes :=
  (keys.find? fun k => k.text == s).map fun k => [0xe7, 0x01] ++ k.key

def ecdsa : Ecdsa where
  keyOk c key := c == .k256 && keys.any fun k => k.key == key
  sigOk c sig := c == .k256 && samples.any fun q => q.sig == sig
  highS _ _ := false
  verifyPrehash c key sig digest :=
    c == .k256 && samples.any fun q => q.signer.key == key && q.sig == sig && q.unsignedHash == digest

def entry (q : Sample) (createdAt : UInt64) (nullified : Bool) : PlcOpWitness :=
  ⟨q.full, createdAt, nullified⟩

@[irreducible]
def revived : List PlcOpWitness :=
  [entry genesis 100 false, entry tombstone 200 false, entry after 300 false]

@[irreducible]
def rolledBack : List PlcOpWitness := [entry genesis 100 false, entry second 200 true]

@[irreducible]
def rotated : List PlcOpWitness := [entry genesis 100 false, entry first 300 false]

@[irreducible]
def overridden : List PlcOpWitness :=
  [entry genesis 100 false, entry second 200 true, entry first 300 false]

def summary (o : Op) : Bytes × Option Bytes × Bytes := (o.typ, o.prev, o.cidStr)

set_option synthInstance.maxSize 1000 in
theorem sample_facts : ((verifyChain hashes codec ecdsa base58 did revived).isOk = true ∧
      (verifyChain hashes codec ecdsa base58 did rolledBack).isOk = true ∧
      (verifyChain hashes codec ecdsa base58 did overridden).isOk = true ∧
      (verifyChain hashes codec ecdsa base58 did rotated).isOk = true) ∧
    ((decodeOp hashes codec genesis.full).toOption.map summary =
        some (utf8 "plc_operation", none, cidV1Dagcbor genesis.fullHash) ∧
      (decodeOp hashes codec first.full).toOption.map summary =
        some (utf8 "plc_operation", some (cidV1Dagcbor genesis.fullHash), cidV1Dagcbor first.fullHash) ∧
      (decodeOp hashes codec second.full).toOption.map summary =
        some (utf8 "plc_operation", some (cidV1Dagcbor genesis.fullHash), cidV1Dagcbor second.fullHash) ∧
      (decodeOp hashes codec tombstone.full).toOption.map summary =
        some (utf8 "plc_tombstone", some (cidV1Dagcbor genesis.fullHash),
          cidV1Dagcbor tombstone.fullHash)) := by
  decide +kernel

theorem revived_isOk : (verifyChain hashes codec ecdsa base58 did revived).isOk = true := sample_facts.1.1

theorem rolledBack_isOk : (verifyChain hashes codec ecdsa base58 did rolledBack).isOk = true :=
  sample_facts.1.2.1

theorem overridden_isOk : (verifyChain hashes codec ecdsa base58 did overridden).isOk = true :=
  sample_facts.1.2.2.1

theorem genesis_summary : (decodeOp hashes codec genesis.full).toOption.map summary =
    some (utf8 "plc_operation", none, cidV1Dagcbor genesis.fullHash) :=
  sample_facts.2.1

theorem first_summary : (decodeOp hashes codec first.full).toOption.map summary =
    some (utf8 "plc_operation", some (cidV1Dagcbor genesis.fullHash), cidV1Dagcbor first.fullHash) :=
  sample_facts.2.2.1

theorem second_summary : (decodeOp hashes codec second.full).toOption.map summary =
    some (utf8 "plc_operation", some (cidV1Dagcbor genesis.fullHash), cidV1Dagcbor second.fullHash) :=
  sample_facts.2.2.2.1

theorem tombstone_summary : (decodeOp hashes codec tombstone.full).toOption.map summary =
    some (utf8 "plc_tombstone", some (cidV1Dagcbor genesis.fullHash),
      cidV1Dagcbor tombstone.fullHash) :=
  sample_facts.2.2.2.2

theorem sample_collisionFree : (∀ a ∈ (revived ++ overridden).map PlcOpWitness.opBytes,
      ∀ b ∈ (revived ++ overridden).map PlcOpWitness.opBytes, hashes.sha256 a = hashes.sha256 b → a = b) ∧
    ∀ a ∈ (revived ++ overridden).map PlcOpWitness.opBytes, hashes.sha256 a ≠ 0 := by
  decide +kernel

theorem collisionFree_revived : CollisionFree hashes.sha256 (revived.map PlcOpWitness.opBytes) :=
  CollisionFree.mono ⟨sample_collisionFree.1, sample_collisionFree.2⟩ fun _ hs => by
    rw [map_append]
    exact mem_append_left _ hs

theorem collisionFree_overridden : CollisionFree hashes.sha256 (overridden.map PlcOpWitness.opBytes) :=
  CollisionFree.mono ⟨sample_collisionFree.1, sample_collisionFree.2⟩ fun _ hs => by
    rw [map_append]
    exact mem_append_right _ hs

theorem summary_of {q : Sample} {t : UInt64} {b : Bool} {o : Op} {typ cid : Bytes} {prev : Option Bytes}
    (h : (decodeOp hashes codec q.full).toOption.map summary = some (typ, prev, cid))
    (ho : decodeOp hashes codec (entry q t b).opBytes = .ok o) :
    o.typ = typ ∧ o.prev = prev ∧ o.cidStr = cid := by
  have ho' : decodeOp hashes codec q.full = .ok o := ho
  rw [ho'] at h
  simpa [summary, Except.toOption] using h

end Example

open Example in
/-- After a rotation that overrides another one the new key has authority. -/
theorem verifyChain_authority_overridden :
    ∃ ident, verifyChain hashes codec ecdsa base58 did overridden = .ok ident ∧
      Authority hashes codec ecdsa base58 did overridden ident := by
  obtain ⟨ident, h⟩ := isOk_iff.mp overridden_isOk
  refine ⟨ident, h, (verifyChain_authority_iff collisionFree_overridden h).mpr ?_⟩
  intro log hlog e he
  have htyp : e.1.typ = utf8 "plc_operation" := by
    rw [overridden] at hlog
    obtain ⟨o₀, _, rfl, h₀, hlog⟩ := decodesTo_cons.mp hlog
    obtain ⟨o₁, _, rfl, h₁, hlog⟩ := decodesTo_cons.mp hlog
    obtain ⟨o₂, _, rfl, h₂, hlog⟩ := decodesTo_cons.mp hlog
    obtain rfl := decodesTo_nil.mp hlog
    rcases mem_cons.mp (active_subset he) with rfl | he
    · exact (summary_of genesis_summary h₀).1
    rcases mem_cons.mp he with rfl | he
    · exact (summary_of second_summary h₁).1
    · obtain rfl := mem_singleton.mp he
      exact (summary_of first_summary h₂).1
  rw [htyp]
  decide

open Example in
/-- A tombstone that brings a rotation key does not end the log: the key of its successor is
returned. -/
theorem verifyChain_accepts_tombstone : ¬ ∀ (did : Bytes) (ops : List PlcOpWitness) (ident : VerifiedIdentity),
      verifyChain hashes codec ecdsa base58 did ops = .ok ident →
        Authority hashes codec ecdsa base58 did ops ident := by
  intro hall
  obtain ⟨ident, h⟩ := isOk_iff.mp revived_isOk
  obtain ⟨log, hlog, hacc⟩ := verifyChain_accepted h
  have halive := hacc.tombstoneFree collisionFree_revived hlog (hall did revived ident h)
  rw [revived] at hlog
  obtain ⟨o₀, _, rfl, -, hlog⟩ := decodesTo_cons.mp hlog
  obtain ⟨o₁, rest, rfl, h₁, -⟩ := decodesTo_cons.mp hlog
  refine halive (o₁, entry tombstone 200 false) ?_ (summary_of tombstone_summary h₁).1
  exact mem_cons_of_mem _ (mem_filter.mpr ⟨mem_cons_self .., rfl⟩)

section

variable {H : Hashes} {D : Dagcbor} {V : Ecdsa} {base58Decode : Bytes → Option Bytes}

variable (H V base58Decode) in
/-- An operation overrides another one that extends the same operation: its key comes first, and it
came in time. -/
structure Overrides (p : Op) (o b : Op × PlcOpWitness) : Prop where
  priority : ∃ n m, verifyOpSig H V base58Decode p.rotationKeys o.1.unsignedBytes o.1.sigB64 = .ok n ∧
    verifyOpSig H V base58Decode p.rotationKeys b.1.unsignedBytes b.1.sigB64 = .ok m ∧ n < m
  inTime : o.2.createdAt.toNat ≤ b.2.createdAt.toNat + RECOVERY_WINDOW_SECS.toNat

variable (H D V base58Decode) in
/-- Every branch of flagged entries is overridden where it leaves the entries that are not flagged. -/
def NullificationAuthorized (ops : List PlcOpWitness) : Prop :=
  ∀ log, DecodesTo H D ops log → ∀ b ∈ log.tail, b.2.nullified = true →
    ∀ p ∈ active log, b.1.prev = some p.1.cidStr →
      ∃ o ∈ active log, o.1.prev = b.1.prev ∧ Overrides H V base58Decode p.1 o b

variable (H D V base58Decode) in
/-- The log is followed to its last entry, whose key is returned. -/
def FollowedToEnd (ops : List PlcOpWitness) (ident : VerifiedIdentity) : Prop :=
  ∃ log t, DecodesTo H D ops log ∧ (log.map Prod.fst).IsChain (Extends H V base58Decode) ∧
    log.getLast? = some t ∧ keyOf base58Decode t.1 = some ident.atprotoKey

/-- The same operations with the same flags, at other times. -/
def Redated (ops ops' : List PlcOpWitness) : Prop :=
  ops'.map (fun w => (w.opBytes, w.nullified)) = ops.map fun w => (w.opBytes, w.nullified)

/-- Flagged entries are dated first, and the other ones after the window of recovery. -/
def late (w : PlcOpWitness) : PlcOpWitness :=
  { w with createdAt := if w.nullified then 0 else RECOVERY_WINDOW_SECS + 1 }

theorem redated_late (ops : List PlcOpWitness) : Redated ops (ops.map late) := by
  rw [Redated, List.map_map]
  rfl

variable {ops : List PlcOpWitness}

theorem stepOp_late {seen rest : Log} {st st' : Chain} {e : Op × PlcOpWitness}
    {decoded : List Op} (hops : ops = (seen ++ rest).map Prod.snd)
    (hdec : decoded = (seen ++ rest).map Prod.fst) (hw : Walked H V base58Decode seen st) {i : ℕ}
    (h : stepOp H V base58Decode ops decoded st (e, i) = .ok st') :
    stepOp H V base58Decode (ops.map late) decoded st ((e.1, late e.2), i) = .ok st' := by
  obtain ⟨prevCid, predIdx, pred, n, hprev, hidx, hpred, hn, hcases⟩ := stepOp_cases
    (show stepOp H V base58Decode ops decoded st ((e.1, e.2), i) = .ok st' from h)
  unfold stepOp
  simp only [hprev, hidx, hpred]
  rw [hn, ok_bind]
  rcases hcases with ⟨hnull, rfl⟩ | ⟨hnull, rfl, rfl⟩ | ⟨-, hne, first, hfirst⟩
  · exact if_pos hnull
  · rw [if_neg (by simp [late, hnull]), if_neg (not_not_intro rfl)]
  · exact absurd hfirst (hw.no_fork hops hdec hne)

theorem foldlM_late {seen rest : Log} {st st' : Chain} {decoded : List Op}
    (hops : ops = (seen ++ rest).map Prod.snd) (hdec : decoded = (seen ++ rest).map Prod.fst)
    (hw : Walked H V base58Decode seen st)
    (h : (rest.zipIdx seen.length).foldlM (stepOp H V base58Decode ops decoded) st = .ok st') :
    ((rest.map (Prod.map id late)).zipIdx seen.length).foldlM
      (stepOp H V base58Decode (ops.map late) decoded) st = .ok st' := by
  induction rest generalizing seen st with
  | nil => exact h
  | cons e rest ih =>
    rw [zipIdx_cons, foldlM_cons] at h
    obtain ⟨st₁, h₁, h⟩ := of_bind h
    rw [map_cons, zipIdx_cons, foldlM_cons]
    refine bind_eq_ok.mpr ⟨st₁, stepOp_late hops hdec hw h₁, ?_⟩
    have hstep := walked_step hops hdec hw h₁
    have happ : seen ++ e :: rest = (seen ++ [e]) ++ rest := by simp
    rw [happ] at hops hdec
    simpa using ih hops hdec hstep (by simpa using h)

/-- Nothing in the walk looks at a time. -/
theorem verifyChain_late {did : Bytes} {ident : VerifiedIdentity}
    (h : verifyChain H D V base58Decode did ops = .ok ident) :
    ∃ ident', verifyChain H D V base58Decode did (ops.map late) = .ok ident' ∧
      ident'.atprotoKey = ident.atprotoKey := by
  cases ops with
  | nil => simp [verifyChain, refuse] at h
  | cons w ws =>
    obtain ⟨suffix, genesis, rest, n, st, hsuf, hdec, hprev, hhash, hn, hst, h⟩ := verifyChain_eq_ok.mp h
    have hlen : (genesis :: rest).length = (w :: ws).length := (mapM_eq_ok.mp hdec).length_eq.symm
    have hfst : ((genesis :: rest).zip (w :: ws)).map Prod.fst = genesis :: rest := map_fst_zip (by omega)
    have hsnd : ((genesis :: rest).zip (w :: ws)).map Prod.snd = w :: ws := map_snd_zip (by omega)
    have hfold := @foldlM_late H V base58Decode _ [(genesis, w)] (rest.zip ws) _ st _ hsnd.symm
      hfst.symm (walked_start hprev) hst
    rw [← zip_map_right] at hfold
    obtain ⟨o, w', mk, ho, hw', htyp, hkey, rfl⟩ := identityAt_eq_ok.mp h
    refine ⟨_, verifyChain_eq_ok.mpr ⟨suffix, genesis, rest, n, st, hsuf, ?_, hprev, hhash, hn, hfold,
      identityAt_eq_ok.mpr ⟨o, late w', mk, ho, ?_, htyp, hkey, rfl⟩⟩, rfl⟩
    · rw [← map_cons, mapM_map]
      exact hdec
    · rw [← map_cons, List.getElem?_map, hw']
      rfl

theorem DecodesTo.late {log : Log} (h : DecodesTo H D ops log) :
    DecodesTo H D (ops.map late) (log.map (Prod.map id late)) := by
  refine ⟨by rw [← h.1, List.map_map, List.map_map]; rfl, fun e he => ?_⟩
  obtain ⟨e', he', rfl⟩ := List.mem_map.mp he
  exact h.2 e' he'

/-- A log that is accepted with its first flagged entry. -/
theorem Accepted.not_authorized {did : Bytes} {log : Log}
    {ident : VerifiedIdentity} (h : Accepted H V base58Decode did log ident)
    (hlog : DecodesTo H D ops log) {l r : Log} {b : Op × PlcOpWitness} (hb : log = l ++ b :: r)
    (hl : l ≠ []) (hfirst : ∀ e ∈ l.tail, e.2.nullified = false) (hnull : b.2.nullified = true) :
    ¬ NullificationAuthorized H D V base58Decode (ops.map late) := by
  intro hauth
  obtain ⟨p, hp, hext⟩ := h.extended l b r hb hl
  obtain ⟨g, hg, hgen⟩ := h.genesis
  cases l with
  | nil => exact absurd rfl hl
  | cons g' l =>
    obtain rfl : g' = g := by rw [hb] at hg; exact Option.some.inj hg
    have hactive : active (log.map (Prod.map id late)) = (active log).map (Prod.map id late) := by
      rw [hb, cons_append, map_cons, active, active, map_cons, List.filter_map]
      rfl
    have hpactive : p ∈ active log := by
      rw [hb, cons_append, active]
      rcases mem_cons.mp hp with rfl | hp
      · exact mem_cons_self
      · refine mem_cons_of_mem _ (mem_filter.mpr ⟨mem_append_left _ hp, ?_⟩)
        rw [hfirst p hp]
        rfl
    obtain ⟨o, ho, hoprev, hover⟩ := hauth _ hlog.late (b.1, Atproto.late b.2) (by
        rw [hb, ← List.map_tail]
        exact List.mem_map_of_mem (f := Prod.map id Atproto.late) (a := b) (by simp)) hnull
          (Prod.map id Atproto.late p)
      (by rw [hactive]; exact List.mem_map_of_mem hpactive) hext.prev
    rw [hactive] at ho
    obtain ⟨o, ho', rfl⟩ := List.mem_map.mp ho
    have hin : (Atproto.late o.2).createdAt.toNat ≤
        (Atproto.late b.2).createdAt.toNat + RECOVERY_WINDOW_SECS.toNat := hover.inTime
    rw [hb, cons_append, active] at ho'
    rcases mem_cons.mp ho' with rfl | ho'
    · -- the first entry names none
      have hnone : b.1.prev = none := hoprev.symm.trans hgen.prev
      rw [hext.prev] at hnone
      simp at hnone
    · have hfree : o.2.nullified = false := by simpa using (mem_filter.mp ho').2
      have hwindow : (RECOVERY_WINDOW_SECS + 1).toNat = RECOVERY_WINDOW_SECS.toNat + 1 := by decide
      simp only [Atproto.late, hfree, hnull] at hin
      simp [hwindow] at hin

/-- An accepted log with no flag after its first entry is authorized and followed to its end. With a
flag nothing is checked: the same operations at other times are accepted with the same key, and no
entry overrides the first flagged one. -/
theorem verifyChain_nullification_flags {did : Bytes} {ops : List PlcOpWitness}
    {ident : VerifiedIdentity} (h : verifyChain H D V base58Decode did ops = .ok ident) :
    ((∀ w ∈ ops.tail, w.nullified = false) → NullificationAuthorized H D V base58Decode ops ∧
      FollowedToEnd H D V base58Decode ops ident) ∧
    ((∃ w ∈ ops.tail, w.nullified = true) → ∃ ops' ident', Redated ops ops' ∧
      verifyChain H D V base58Decode did ops' = .ok ident' ∧ ident'.atprotoKey = ident.atprotoKey ∧
      ¬ NullificationAuthorized H D V base58Decode ops') := by
  obtain ⟨log, hlog, hacc⟩ := verifyChain_accepted h
  have htail : log.tail.map Prod.snd = ops.tail := by rw [List.map_tail, hlog.1]
  constructor
  · intro hflags
    have hfree : ∀ e ∈ log.tail, e.2.nullified = false := fun e he =>
      hflags e.2 (htail ▸ List.mem_map_of_mem he)
    constructor
    · intro log' hlog' b hb hnull
      obtain rfl := decodesTo_unique hlog hlog'
      rw [hfree b hb] at hnull
      exact absurd hnull (by simp)
    · have hactive : active log = log := by
        cases log with
        | nil => rfl
        | cons g rest => rw [active, filter_eq_self.mpr fun e he => by rw [hfree e he]; rfl]
      obtain ⟨t, ht, -, hkey, -⟩ := hacc.tip
      rw [hactive] at ht
      exact ⟨log, t, hlog, hactive ▸ hacc.signed, ht, hkey⟩
  · rintro ⟨w, hw, hnull⟩
    rw [← htail] at hw
    obtain ⟨e, he, rfl⟩ := List.mem_map.mp hw
    obtain ⟨b, hfind⟩ := Option.isSome_iff_exists.mp (find?_isSome (p := fun e : Op × PlcOpWitness => e.2.nullified)
      |>.mpr ⟨e, he, hnull⟩)
    obtain ⟨hb, l, r, hsplit, hbefore⟩ := find?_eq_some_iff_append.mp hfind
    obtain ⟨ident', hident', hkey⟩ := verifyChain_late h
    refine ⟨_, ident', redated_late ops, hident', hkey, ?_⟩
    cases log with
    | nil => simp at he
    | cons g rest =>
      refine hacc.not_authorized hlog (l := g :: l) (congrArg (g :: ·) hsplit) (by simp) ?_ hb
      exact fun e he => by simpa using hbefore e he

end

open Example in
/-- A rotation without a flag is followed, and one that is flagged is not authorized at other times. -/
theorem verifyChain_nullification_flags_samples :
    (∃ ident, verifyChain hashes codec ecdsa base58 did rotated = .ok ident ∧
      FollowedToEnd hashes codec ecdsa base58 rotated ident) ∧
    ∃ ops ident, Redated overridden ops ∧ verifyChain hashes codec ecdsa base58 did ops = .ok ident ∧
      ¬ NullificationAuthorized hashes codec ecdsa base58 ops := by
  obtain ⟨ident, h⟩ := isOk_iff.mp sample_facts.1.2.2.2
  obtain ⟨ident₂, h₂⟩ := isOk_iff.mp overridden_isOk
  constructor
  · refine ⟨ident, h, ((verifyChain_nullification_flags h).1 fun w hw => ?_).2⟩
    rw [rotated] at hw
    obtain rfl := mem_singleton.mp hw
    rfl
  · obtain ⟨ops, ident', hops, hident', -, hnot⟩ := (verifyChain_nullification_flags h₂).2
      ⟨entry second 200 true, by rw [overridden]; exact mem_cons_self, rfl⟩
    exact ⟨ops, ident', hops, hident', hnot⟩

open Example in
/-- The flag alone rolls a key rotation back. -/
theorem verifyChain_accepts_flag : ¬ ∀ (did : Bytes) (ops : List PlcOpWitness) (ident : VerifiedIdentity),
      verifyChain hashes codec ecdsa base58 did ops = .ok ident →
        NullificationAuthorized hashes codec ecdsa base58 ops := by
  intro hall
  obtain ⟨ident, h⟩ := isOk_iff.mp rolledBack_isOk
  obtain ⟨log, hlog, -⟩ := verifyChain_accepted h
  have hauth := hall did rolledBack ident h log hlog
  rw [rolledBack] at hlog
  obtain ⟨o₀, _, rfl, h₀, hlog⟩ := decodesTo_cons.mp hlog
  obtain ⟨o₁, _, rfl, h₁, hlog⟩ := decodesTo_cons.mp hlog
  obtain rfl := decodesTo_nil.mp hlog
  obtain ⟨o, ho, hoprev, -⟩ := hauth (o₁, entry second 200 true) (mem_singleton_self _) rfl
    (o₀, entry genesis 100 false) (mem_singleton_self _) (by
      rw [(summary_of second_summary h₁).2.1, (summary_of genesis_summary h₀).2.2])
  obtain rfl := mem_singleton.mp ho
  rw [(summary_of genesis_summary h₀).2.1, (summary_of second_summary h₁).2.1] at hoprev
  simp at hoprev

end Trustgraphs.Atproto
