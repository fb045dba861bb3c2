import Trustgraphs.Envelopes.Proofs.CarsetProofs
import Trustgraphs.Envelopes.Proofs.MstProofs
import Trustgraphs.Lib.Readable

/-!
# The shape of an accepted tree

The keys of a node are the entries of its layer, and what lies between two of them is its subtree
there.
-/

namespace Trustgraphs.Mst

open Outcome Option List

/-- The subtree at a slot of a node: the leftmost one first, then those right of the keys. -/
def child (node : RawNode) : ℕ → Option Cid
  | 0 => node.l
  | i + 1 => node.e[i]?.bind RawEntry.t

def content (node : RawNode) : List (ℕ × Bytes × Cid) := node.e.map fun e => (e.p, e.k, e.v)

section

variable (decodeNode : Bytes → Option RawNode) (car : Car)

def nodeAt : Cid → List ℕ → Option RawNode
  | cid, [] => (decode decodeNode car cid).toOption
  | cid, slot :: path => (decode decodeNode car cid).toOption.bind fun node =>
      (child node slot).bind fun c => nodeAt c path

def contentAt (cid : Cid) (path : List ℕ) : Option (List (ℕ × Bytes × Cid)) :=
  (nodeAt decodeNode car cid path).map content

/-- The node at a path holds nothing, neither keys nor a subtree. -/
def Dangling (cid : Cid) (path : List ℕ) : Prop :=
  ∃ node, nodeAt decodeNode car cid path = some node ∧ node.e = [] ∧ node.l = none

end

/-- The entries of a node in order, each key before what lies right of it. -/
def assemble : List (RawEntry × Key) → List (List (Key × Cid)) → List (Key × Cid)
  | (e, key) :: es, right :: rights => (key, e.v) :: (right ++ assemble es rights)
  | _, _ => []

section

variable (H : Hashes) (decodeNode : Bytes → Option RawNode) (car : Car)

/-- A node of a layer whose entries, with what its subtrees hold, are `seg`. -/
def Level (below : Option Cid → List (Key × Cid) → Prop) (layer : ℕ) (cid : Cid)
    (seg : List (Key × Cid)) : Prop :=
  ∃ node keys left rights, decode decodeNode car cid = .ok node ∧ readKeys cid 0 [] node.e = .ok keys ∧
    (∀ key ∈ keys, keyLayer H key = layer) ∧ below node.l left ∧
    List.Forall₂ (fun e right => below e.1.t right) (node.e.zip keys) rights ∧
    seg = left ++ assemble (node.e.zip keys) rights

/-- The subtree at a node lies at a layer and holds `seg`. -/
def Subtree : ℕ → Cid → List (Key × Cid) → Prop
  | 0 => Level H decodeNode car (fun sub seg => sub = none ∧ seg = []) 0
  | n + 1 => Level H decodeNode car (fun sub seg => sub = none ∧ seg = [] ∨
      ∃ c, sub = some c ∧ Subtree n c seg) (n + 1)

def Below (n : ℕ) (sub : Option Cid) (seg : List (Key × Cid)) : Prop :=
  sub = none ∧ seg = [] ∨ ∃ c m, sub = some c ∧ n = m + 1 ∧ Subtree H decodeNode car m c seg

end

section Shape

variable {H : Hashes} {decodeNode : Bytes → Option RawNode} {car : Car}

variable {n : ℕ} {cid : Cid} {seg : List (Key × Cid)} {keys : List Key} {node : RawNode}

theorem subtree_iff : Subtree H decodeNode car n cid seg ↔
      Level H decodeNode car (Below H decodeNode car n) n cid seg := by
  cases n with
  | zero =>
    have hbelow : Below H decodeNode car 0 = fun sub seg => sub = none ∧ seg = [] := by
      funext sub seg
      refine propext ⟨?_, Or.inl⟩
      rintro (h | ⟨c, m, -, hm, -⟩)
      · exact h
      · omega
    rw [hbelow, Subtree]
  | succ n =>
    have hbelow : Below H decodeNode car (n + 1) = fun sub seg => sub = none ∧ seg = [] ∨
        ∃ c, sub = some c ∧ Subtree H decodeNode car n c seg := by
      funext sub seg
      refine propext ⟨?_, ?_⟩
      · rintro (h | ⟨c, m, hc, hm, h⟩)
        · exact Or.inl h
        · obtain rfl : n = m := by omega
          exact Or.inr ⟨c, hc, h⟩
      · rintro (h | ⟨c, hc, h⟩)
        · exact Or.inl h
        · exact Or.inr ⟨c, n, hc, rfl, h⟩
    rw [hbelow, Subtree]

theorem layer_le (h : Subtree H decodeNode car n cid seg) : ∀ e ∈ seg, keyLayer H e.1 ≤ n := by
  induction n using Nat.strong_induction_on generalizing cid seg with
  | _ n ih =>
    obtain ⟨node, keys, left, rights, -, -, hkeys, hleft, hrights, rfl⟩ := subtree_iff.mp h
    have hbelow : ∀ {sub seg}, Below H decodeNode car n sub seg → ∀ e ∈ seg, keyLayer H e.1 ≤ n := by
      rintro sub seg (⟨-, rfl⟩ | ⟨c, m, -, hm, h⟩) e he
      · exact absurd he not_mem_nil
      · have hle := ih m (by omega) h e he
        omega
    have hassemble : ∀ (es : List (RawEntry × Key)) (rights : List (List (Key × Cid))),
        (∀ e ∈ es, keyLayer H e.2 = n) →
        List.Forall₂ (fun e right => Below H decodeNode car n e.1.t right) es rights →
          ∀ e ∈ assemble es rights, keyLayer H e.1 ≤ n := by
      intro es rights hes hrights
      induction hrights with
      | nil => exact fun e he => absurd he not_mem_nil
      | cons hright _ ih =>
        intro e he
        rw [assemble, mem_cons, mem_append] at he
        rcases he with rfl | he | he
        · exact (hes _ mem_cons_self).le
        · exact hbelow hright e he
        · exact ih (fun e he => hes e (mem_cons_of_mem _ he)) e he
    intro e he
    rcases mem_append.mp he with he | he
    · exact hbelow hleft e he
    · exact hassemble _ _ (fun e he => hkeys _ (of_mem_zip he).2) hrights e he

theorem layer_lt_of_below {sub : Option Cid}
    (h : Below H decodeNode car n sub seg) : ∀ e ∈ seg, keyLayer H e.1 < n := by
  rcases h with ⟨-, rfl⟩ | ⟨c, m, -, rfl, h⟩
  · exact fun e he => absurd he not_mem_nil
  · exact fun e he => Nat.lt_succ_of_le (layer_le h e he)

theorem nodeLayer_keys {pl : Option ℕ} {layer : ℕ}
    (h : nodeLayer H cid pl keys = .ok layer) : ∀ key ∈ keys, keyLayer H key = layer := by
  cases keys with
  | nil => exact fun key hkey => absurd hkey not_mem_nil
  | cons k ks =>
    unfold nodeLayer at h
    dsimp only at h
    cases hf : ks.find? (fun k' => keyLayer H k' ≠ keyLayer H k) with
    | some k' =>
      rw [hf] at h
      cases h
    | none =>
      rw [hf] at h
      obtain rfl := ok_inj h
      intro key hkey
      rcases mem_cons.mp hkey with rfl | hkey
      · rfl
      · simpa using find?_eq_none.mp hf key hkey

variable (H decodeNode car) in
/-- A walk that returns takes the entries of a subtree of its layer. -/
def Takes (ev : Descend) : Prop :=
  ∀ c pl w r, ev c (some pl) w = .ok r → r.1 + 1 = pl ∧
    ∃ seg, r.2.out = w.out ++ seg ∧ Subtree H decodeNode car r.1 c seg

section Walk

variable {ev : Descend} (hev : Takes H decodeNode car ev)
include hev

theorem maybeDescend_below {sub : Option Cid} {layer : ℕ} {lk rk : Option Key} {w w' : Walker}
    (h : maybeDescend .full ev sub layer lk rk w = .ok w') :
    ∃ seg, w'.out = w.out ++ seg ∧ Below H decodeNode car layer sub seg := by
  cases sub with
  | none =>
    obtain rfl := ok_inj h
    exact ⟨[], (append_nil _).symm, Or.inl ⟨rfl, rfl⟩⟩
  | some c =>
    obtain ⟨r, hr, rfl⟩ := map_eq_ok.mp (show (ev c (some layer) w).map Prod.snd = .ok w' from h)
    obtain ⟨hlayer, seg, hout, hsub⟩ := hev c layer w r hr
    exact ⟨seg, hout, Or.inr ⟨c, r.1, rfl, hlayer.symm, hsub⟩⟩

theorem walkEntries_rights {layer : ℕ} {es : List (RawEntry × Key)} {w w' : Walker}
    (h : walkEntries .full ev layer es w = .ok w') :
    ∃ rights, List.Forall₂ (fun e right => Below H decodeNode car layer e.1.t right) es rights ∧
      w'.out = w.out ++ assemble es rights := by
  induction es generalizing w with
  | nil =>
    obtain rfl := ok_inj h
    exact ⟨[], .nil, (append_nil _).symm⟩
  | cons e es ih =>
    obtain ⟨e, key⟩ := e
    rw [walkEntries] at h
    obtain ⟨-, h⟩ := of_guard h
    obtain ⟨w₁, hdescend, h⟩ := of_bind h
    obtain ⟨right, hout, hright⟩ := maybeDescend_below hev hdescend
    obtain ⟨rights, hrights, hout'⟩ := ih h
    refine ⟨right :: rights, .cons hright hrights, ?_⟩
    have hemit : (w.emit .full key e.v).out = w.out ++ [(key, e.v)] := rfl
    rw [hout', hout, hemit, assemble, append_assoc, append_assoc]
    rfl

theorem walkNode_subtree {cid : Cid} {pl : Option ℕ} {w : Walker} {r : ℕ × Walker}
    (h : walkNode H decodeNode car .full ev cid pl w = .ok r) :
    ∃ seg, r.2.out = w.out ++ seg ∧ Subtree H decodeNode car r.1 cid seg := by
  obtain ⟨node, keys, hopen, w₁, hleft, hentries⟩ := walkNode_eq_ok.mp h
  obtain ⟨hdecode, hkeys, hlayer, -⟩ := openNode_eq_ok.mp hopen
  obtain ⟨left, hout, hbelow⟩ := maybeDescend_below hev hleft
  obtain ⟨rights, hrights, hout'⟩ := walkEntries_rights hev hentries
  refine ⟨left ++ assemble (node.e.zip keys) rights, ?_, subtree_iff.mpr
    ⟨node, keys, left, rights, hdecode, hkeys, nodeLayer_keys hlayer, hbelow, hrights, rfl⟩⟩
  have hvisit : (w.visit cid).out = w.out := rfl
  rw [hout', hout, hvisit, append_assoc]

end Walk

theorem walk_takes (levels : ℕ) : Takes H decodeNode car (walk H decodeNode car .full levels) := by
  induction levels with
  | zero =>
    intro c pl w r h
    obtain ⟨node, keys, hopen⟩ := walk_opens h
    have hnone : Takes H decodeNode car
        fun _ _ _ => .error .tooDeep := by
      intro c pl w r h
      cases h
    exact ⟨openNode_layer hopen, walkNode_subtree hnone h⟩
  | succ levels ih =>
    intro c pl w r h
    obtain ⟨node, keys, hopen⟩ := walk_opens h
    exact ⟨openNode_layer hopen, walkNode_subtree ih h⟩

/-- An accepted tree holds its entries, at a layer that the entries determine. -/
theorem run_subtree {root : Cid} {out : WalkOut} (h : run H decodeNode car .full root = .ok out) :
    ∃ n, Subtree H decodeNode car n root out.entries ∧
      (out.entries = [] ∧ n = 0 ∨ ∃ e ∈ out.entries, keyLayer H e.1 = n) := by
  obtain ⟨⟨n, w⟩, hwalk, h⟩ := of_bind h
  obtain rfl := ok_inj h
  obtain ⟨seg, hout, hsub⟩ := walkNode_subtree (walk_takes _) hwalk
  rw [show w.out = seg from hout]
  refine ⟨n, hsub, ?_⟩
  obtain ⟨node, keys, hopen⟩ := walk_opens hwalk
  obtain ⟨hdecode, hkeys, hlayer, -⟩ := openNode_eq_ok.mp hopen
  obtain ⟨node', keys', left, rights, hdecode', hkeys', hall, hleft, hrights, hseg⟩ := subtree_iff.mp hsub
  rw [hdecode, Except.ok.injEq] at hdecode'
  subst hdecode'
  rw [hkeys, Except.ok.injEq] at hkeys'
  subst hkeys'
  cases hk : keys with
  | nil =>
    -- a root without keys lies at layer 0, so it has no subtree either
    rw [hk] at hlayer
    have hn : n = 0 := (ok_inj hlayer).symm
    refine Or.inl ⟨?_, hn⟩
    rw [hk, zip_nil_right] at hrights hseg
    cases hrights with
    | nil =>
      rw [hseg]
      rcases hleft with ⟨-, rfl⟩ | ⟨c, m, -, hm, -⟩
      · rfl
      · omega
  | cons key ks =>
    refine Or.inr ?_
    have hlen := readKeys_length hkeys
    cases he : node.e with
    | nil =>
      rw [hk, he] at hlen
      cases hlen
    | cons e es =>
      rw [hk, he, zip_cons_cons] at hrights hseg
      cases hrights with
      | cons hright hrest =>
        refine ⟨(key, e.v), ?_, hall key (by rw [hk]; exact mem_cons_self)⟩
        rw [hseg, assemble]
        exact mem_append_right _ mem_cons_self

theorem readKeys_unique {cid' : Cid} {i : ℕ} {prev : Key} {es es' : List RawEntry}
    (h : readKeys cid i prev es = .ok keys) (h' : readKeys cid' i prev es' = .ok keys) :
    (es.map fun e => (e.p, e.k)) = es'.map fun e => (e.p, e.k) := by
  induction es generalizing i prev es' keys with
  | nil =>
    obtain rfl : [] = keys := ok_inj h
    have hlen := readKeys_length h'
    rw [length_nil, eq_comm, length_eq_zero_iff] at hlen
    rw [hlen]
  | cons e es ih =>
    cases es' with
    | nil =>
      obtain rfl : [] = keys := ok_inj h'
      have hlen := readKeys_length h
      cases hlen
    | cons e' es' =>
      simp only [readKeys, ite_error_eq_ok, bind_eq_ok, Except.ok.injEq] at h h'
      obtain ⟨hfirst, -, hshared, -, ks, hks, rfl⟩ := h
      obtain ⟨hfirst', -, hshared', -, ks', hks', heq⟩ := h'
      obtain ⟨hkey, rfl⟩ := List.cons.inj heq
      have hp : e.p = e'.p := by
        rcases Nat.eq_zero_or_pos i with hi | hi
        · rw [not_not.mp fun hne => hfirst ⟨hi, hne⟩, not_not.mp fun hne => hfirst' ⟨hi, hne⟩]
        · have hlcp := not_not.mp fun hne => hshared ⟨hi, hne⟩
          have hlcp' := not_not.mp fun hne => hshared' ⟨hi, hne⟩
          rw [← hlcp, ← hlcp', hkey]
      have hk : e.k = e'.k := by
        rw [hp] at hkey
        exact (append_cancel_left hkey).symm
      rw [hkey] at hks'
      rw [map_cons, map_cons, ih hks hks', hp, hk]

/-- The entries of a node and what lies between them can be told from the layers of the keys. -/
theorem assemble_unique {below below' : RawEntry × Key → List (Key × Cid) → Prop}
    (hbelow : ∀ e right, below e right → ∀ x ∈ right, keyLayer H x.1 < n)
    (hbelow' : ∀ e right, below' e right → ∀ x ∈ right, keyLayer H x.1 < n)
    {es es' : List (RawEntry × Key)} {left left' : List (Key × Cid)}
    {rights rights' : List (List (Key × Cid))} (hes : ∀ e ∈ es, keyLayer H e.2 = n)
    (hes' : ∀ e ∈ es', keyLayer H e.2 = n) (hleft : ∀ x ∈ left, keyLayer H x.1 < n)
    (hleft' : ∀ x ∈ left', keyLayer H x.1 < n) (hrights : List.Forall₂ below es rights)
    (hrights' : List.Forall₂ below' es' rights')
    (h : left ++ assemble es rights = left' ++ assemble es' rights') :
    left = left' ∧ (es.map fun e => (e.2, e.1.v)) = (es'.map fun e => (e.2, e.1.v)) ∧ rights = rights' := by
  have hnil : assemble [] [] = [] := rfl
  have hnot : ∀ {l : List (Key × Cid)}, (∀ x ∈ l, keyLayer H x.1 < n) →
      ∀ x ∈ l, ¬ keyLayer H x.1 = n := fun hl x hx => (hl x hx).ne
  induction hrights generalizing left left' es' rights' with
  | nil =>
    rw [hnil, append_nil] at h
    cases hrights' with
    | nil =>
      rw [hnil, append_nil] at h
      exact ⟨h, rfl, rfl⟩
    | @cons e' right' es' rights' hright' hrest' =>
      -- a key of the layer is not among the keys below it
      obtain ⟨e', key'⟩ := e'
      rw [assemble] at h
      have hlt := hleft (key', e'.v) (by rw [h]; exact mem_append_right _ mem_cons_self)
      exact absurd (hes' (e', key') mem_cons_self) hlt.ne
  | @cons e right es rights hright hrest ih =>
    obtain ⟨e, key⟩ := e
    rw [assemble] at h
    cases hrights' with
    | nil =>
      rw [hnil, append_nil] at h
      have hlt := hleft' (key, e.v) (by rw [← h]; exact mem_append_right _ mem_cons_self)
      exact absurd (hes (e, key) mem_cons_self) hlt.ne
    | @cons e' right' es' rights' hright' hrest' =>
      obtain ⟨e', key'⟩ := e'
      rw [assemble] at h
      obtain ⟨rfl, hhead, htail⟩ := Readable.cut_unique (p := fun x : Key × Cid => keyLayer H x.1 = n)
        (hnot hleft) (hnot hleft') (hes (e, key) mem_cons_self)
        (hes' (e', key') mem_cons_self) h
      obtain ⟨rfl, hmap, rfl⟩ := ih (fun x hx => hes x (mem_cons_of_mem _ hx))
        (fun x hx => hes' x (mem_cons_of_mem _ hx)) (hbelow _ _ hright) (hbelow' _ _ hright') hrest'
        htail
      refine ⟨rfl, ?_, rfl⟩
      rw [map_cons, map_cons, hmap, hhead]

theorem below_child {left : List (Key × Cid)}
    {rights : List (List (Key × Cid))} (hlen : keys.length = node.e.length)
    (hleft : Below H decodeNode car n node.l left)
    (hrights : List.Forall₂ (fun e right => Below H decodeNode car n e.1.t right) (node.e.zip keys) rights)
    {slot : ℕ} (hslot : (left :: rights)[slot]? = some seg) :
    Below H decodeNode car n (child node slot) seg := by
  cases slot with
  | zero =>
    obtain rfl : left = seg := some_inj.mp hslot
    exact hleft
  | succ i =>
    have hget : rights[i]? = some seg := hslot
    obtain ⟨hi, hright⟩ := List.getElem?_eq_some_iff.mp hget
    have hzip := hrights.length_eq
    rw [length_zip, hlen, Nat.min_self] at hzip
    have hbelow := (forall₂_iff_get.mp hrights).2 i (by rw [length_zip]; omega) hi
    simp only [get_eq_getElem, getElem_zip, hright] at hbelow
    rw [child, getElem?_eq_getElem (by omega)]
    exact hbelow

theorem child_eq_none {slot : ℕ} (h : node.e.length < slot) : child node slot = none := by
  cases slot with
  | zero => omega
  | succ i => rw [child, getElem?_eq_none (by omega), bind_none]

theorem nodeAt_cons (hnode : decode decodeNode car cid = .ok node) (slot : ℕ)
    (path : List ℕ) : nodeAt decodeNode car cid (slot :: path) =
      (child node slot).bind fun c => nodeAt decodeNode car c path := by
  rw [nodeAt, hnode]
  rfl

theorem exists_dangling (h : Subtree H decodeNode car n cid []) : ∃ path, Dangling decodeNode car cid path := by
  induction n using Nat.strong_induction_on generalizing cid with
  | _ n ih =>
    obtain ⟨node, keys, left, rights, hnode, hkeys, -, hleft, hrights, hseg⟩ := subtree_iff.mp h
    obtain ⟨hleftNil, hassemble⟩ := append_eq_nil_iff.mp hseg.symm
    have he : node.e = [] := by
      have hlen := readKeys_length hkeys
      cases hentries : node.e with
      | nil => rfl
      | cons e es =>
        cases hk : keys with
        | nil =>
          rw [hk, hentries] at hlen
          cases hlen
        | cons key ks =>
          rw [hk, hentries, zip_cons_cons] at hrights hassemble
          cases hrights with
          | cons _ _ =>
            rw [assemble] at hassemble
            cases hassemble
    rcases hleft with ⟨hl, -⟩ | ⟨c, m, hl, hm, hsub⟩
    · exact ⟨[], node, by rw [nodeAt, hnode]; rfl, he, hl⟩
    · rw [hleftNil] at hsub
      obtain ⟨path, bottom, hbottom, hempty⟩ := ih m (by omega) hsub
      refine ⟨0 :: path, bottom, ?_, hempty⟩
      rw [nodeAt_cons hnode, child, hl]
      exact hbottom

end Shape

variable {H : Hashes} {n : ℕ} {cid : Cid} {seg : List (Key × Cid)}

/-- Two subtrees of one layer with the same entries: their nodes hold the same, and what lies below a slot
is the same on both sides. -/
theorem entries_unique {decodeNode : Bytes → Option RawNode} {car car' : Car}
    {cid' : Cid} (h : Subtree H decodeNode car n cid seg)
    (h' : Subtree H decodeNode car' n cid' seg) {node node' : RawNode}
    (hnode : decode decodeNode car cid = .ok node) (hnode' : decode decodeNode car' cid' = .ok node') :
    content node = content node' ∧ ∀ slot, ∃ seg, Below H decodeNode car n (child node slot) seg ∧
      Below H decodeNode car' n (child node' slot) seg := by
  obtain ⟨node₁, keys, left, rights, hnode₁, hkeys, hlayer, hleft, hrights, hseg⟩ := subtree_iff.mp h
  obtain ⟨node₂, keys', left', rights', hnode₂, hkeys', hlayer', hleft', hrights', hseg'⟩ :=
    subtree_iff.mp h'
  rw [hnode, Except.ok.injEq] at hnode₁
  rw [hnode', Except.ok.injEq] at hnode₂
  subst hnode₁ hnode₂
  have hlen := readKeys_length hkeys
  have hlen' := readKeys_length hkeys'
  obtain ⟨rfl, hmap, rfl⟩ := assemble_unique (fun _ _ hb => layer_lt_of_below hb)
    (fun _ _ hb => layer_lt_of_below hb) (fun e he => hlayer _ (of_mem_zip he).2)
    (fun e he => hlayer' _ (of_mem_zip he).2) (layer_lt_of_below hleft) (layer_lt_of_below hleft')
    hrights hrights' (hseg.symm.trans hseg')
  -- the keys and the values are the same, and with the keys their compression
  have hzip : ∀ (es : List RawEntry) (ks : List Key), ks.length = es.length →
      (es.zip ks).map Prod.snd = ks ∧ (es.zip ks).map (fun e => e.1.v) = es.map RawEntry.v := by
    intro es ks hl
    refine ⟨map_snd_zip hl.le, ?_⟩
    rw [show (fun e : RawEntry × Key => e.1.v) = RawEntry.v ∘ Prod.fst from rfl, ← List.map_map,
      map_fst_zip hl.ge]
  have hkeysEq : keys = keys' := by
    have hsnd := congrArg (List.map Prod.fst) hmap
    rw [List.map_map, List.map_map] at hsnd
    rw [← (hzip _ _ hlen).1, ← (hzip _ _ hlen').1]
    exact hsnd
  have hvalues : node.e.map RawEntry.v = node'.e.map RawEntry.v := by
    have hfst := congrArg (List.map Prod.snd) hmap
    rw [List.map_map, List.map_map] at hfst
    rw [← (hzip _ _ hlen).2, ← (hzip _ _ hlen').2]
    exact hfst
  subst hkeysEq
  have hcompressed := readKeys_unique hkeys hkeys'
  have hlength : node.e.length = node'.e.length := by rw [← hlen, ← hlen']
  refine ⟨ext_getElem (by simp [content, hlength]) fun i hi hi' => ?_, fun slot => ?_⟩
  · simp only [content, length_map] at hi hi'
    have hpk := congrArg (·[i]?) hcompressed
    have hv := congrArg (·[i]?) hvalues
    simp only [List.getElem?_map, getElem?_eq_getElem hi, getElem?_eq_getElem hi',
      map_some, some_inj, Prod.mk.injEq] at hpk hv
    simp only [content, getElem_map, hpk.1, hpk.2, hv]
  · have hrlen := hrights.length_eq
    rw [length_zip, hlen, Nat.min_self] at hrlen
    by_cases hslot : slot ≤ node.e.length
    · obtain ⟨seg₁, hget⟩ : ∃ seg₁, (left :: rights)[slot]? = some seg₁ :=
        ⟨_, getElem?_eq_getElem (by rw [length_cons]; omega)⟩
      exact ⟨_, below_child hlen hleft hrights hget, below_child hlen' hleft' hrights' hget⟩
    · exact ⟨[], Or.inl ⟨child_eq_none (by omega), rfl⟩, Or.inl ⟨child_eq_none (by omega), rfl⟩⟩

theorem subtree_decode {decodeNode : Bytes → Option RawNode} {car : Car} (h : Subtree H decodeNode car n cid seg) :
    ∃ node, decode decodeNode car cid = .ok node := by
  obtain ⟨node, -, -, -, hnode, -⟩ := subtree_iff.mp h
  exact ⟨node, hnode⟩

/-- Subtrees of one layer with the same entries have the same nodes where they have the same empty
subtrees. -/
theorem contentAt_eq {decodeNode : Bytes → Option RawNode} {car car' : Car}
    {cid' : Cid} (h : Subtree H decodeNode car n cid seg) (h' : Subtree H decodeNode car' n cid' seg)
    (hd : ∀ path, Dangling decodeNode car cid path ↔ Dangling decodeNode car' cid' path) (path : List ℕ) :
    contentAt decodeNode car cid path = contentAt decodeNode car' cid' path := by
  induction path generalizing n cid cid' seg with
  | nil =>
    obtain ⟨node, hnode⟩ := subtree_decode h
    obtain ⟨node', hnode'⟩ := subtree_decode h'
    have hcontent := (entries_unique h h' hnode hnode').1
    rw [contentAt, nodeAt, hnode, contentAt, nodeAt, hnode']
    exact congrArg some hcontent
  | cons slot path ih =>
    obtain ⟨node, hnode⟩ := subtree_decode h
    obtain ⟨node', hnode'⟩ := subtree_decode h'
    have hslot := (entries_unique h h' hnode hnode').2 slot
    have hsub : ∀ c c' : Option Cid, child node slot = c → child node' slot = c' →
        (contentAt decodeNode car cid (slot :: path) =
          (c.bind fun c => nodeAt decodeNode car c path).map content) ∧
        contentAt decodeNode car' cid' (slot :: path) =
          (c'.bind fun c => nodeAt decodeNode car' c path).map content := by
      rintro c c' rfl rfl
      rw [contentAt, nodeAt_cons hnode, contentAt, nodeAt_cons hnode']
      exact ⟨rfl, rfl⟩
    have hdangling : ∀ {c : Cid} (path : List ℕ), child node slot = some c →
        (Dangling decodeNode car cid (slot :: path) ↔ Dangling decodeNode car c path) := by
      intro c path hc
      rw [Dangling, nodeAt_cons hnode, hc]
      exact Iff.rfl
    have hdangling' : ∀ {c : Cid} (path : List ℕ), child node' slot = some c →
        (Dangling decodeNode car' cid' (slot :: path) ↔ Dangling decodeNode car' c path) := by
      intro c path hc
      rw [Dangling, nodeAt_cons hnode', hc]
      exact Iff.rfl
    obtain ⟨seg₁, hbelow, hbelow'⟩ := hslot
    rcases hbelow with ⟨hc, rfl⟩ | ⟨c, m, hc, hm, hin⟩
    · rcases hbelow' with ⟨hc', -⟩ | ⟨c', m', hc', hm', hin'⟩
      · rw [(hsub _ _ hc hc').1, (hsub _ _ hc hc').2]
        rfl
      · -- a subtree without entries on one side only
        obtain ⟨bottom, hbottom⟩ := exists_dangling hin'
        obtain ⟨x, hx, -⟩ := (hd (slot :: bottom)).mpr ((hdangling' bottom hc').mpr hbottom)
        rw [nodeAt_cons hnode, hc] at hx
        cases hx
    · rcases hbelow' with ⟨hc', rfl⟩ | ⟨c', m', hc', hm', hin'⟩
      · obtain ⟨bottom, hbottom⟩ := exists_dangling hin
        obtain ⟨x, hx, -⟩ := (hd (slot :: bottom)).mp ((hdangling bottom hc).mpr hbottom)
        rw [nodeAt_cons hnode', hc'] at hx
        cases hx
      · obtain rfl : m = m' := by omega
        have heq := ih hin hin' fun path => by rw [← hdangling path hc, ← hdangling' path hc', hd]
        rw [(hsub _ _ hc hc').1, (hsub _ _ hc hc').2]
        exact heq

section

variable {H : Hashes} {decodeNode : Bytes → Option RawNode} {car : Car}

theorem nodeAt_concat (cid : Cid) (path : List ℕ) (slot : ℕ) :
    nodeAt decodeNode car cid (path ++ [slot]) = (nodeAt decodeNode car cid path).bind fun node =>
      (child node slot).bind fun c => nodeAt decodeNode car c [] := by
  induction path generalizing cid with
  | nil => rfl
  | cons s path ih =>
    rw [cons_append, nodeAt, nodeAt, bind_assoc]
    refine congrArg _ (funext fun node => ?_)
    rw [bind_assoc]
    exact congrArg _ (funext fun c => ih c)

theorem nodeAt_child {n : ℕ} {cid : Cid} {seg : List (Key × Cid)} (h : Subtree H decodeNode car n cid seg)
    {path : List ℕ} {node : RawNode} (hnode : nodeAt decodeNode car cid path = some node) {slot : ℕ}
    {c : Cid} (hc : child node slot = some c) : ∃ below, nodeAt decodeNode car c [] = some below := by
  induction path generalizing n cid seg with
  | nil =>
    have hdecode := toOption_eq_some.mp hnode
    obtain ⟨seg', hbelow, -⟩ := (entries_unique h h hdecode hdecode).2 slot
    rcases hbelow with ⟨hnone, -⟩ | ⟨c', m, hsome, -, hsub⟩
    · rw [hnone] at hc
      cases hc
    · rw [hsome, some_inj] at hc
      subst hc
      obtain ⟨below, hbelow⟩ := subtree_decode hsub
      exact ⟨below, toOption_eq_some.mpr hbelow⟩
  | cons s path ih =>
    obtain ⟨top, htop⟩ := subtree_decode h
    rw [nodeAt_cons htop] at hnode
    obtain ⟨c', hc', hnode⟩ := bind_eq_some_iff.mp hnode
    obtain ⟨seg', hbelow, -⟩ := (entries_unique h h htop htop).2 s
    rcases hbelow with ⟨hnone, -⟩ | ⟨c'', m, hsome, -, hsub⟩
    · rw [hnone] at hc'
      cases hc'
    · rw [hsome, some_inj] at hc'
      subst hc'
      exact ih hsub hnode

theorem dangling_iff {n : ℕ} {cid : Cid} {seg : List (Key × Cid)} (h : Subtree H decodeNode car n cid seg)
    (path : List ℕ) : Dangling decodeNode car cid path ↔
      contentAt decodeNode car cid path = some [] ∧ contentAt decodeNode car cid (path ++ [0]) = none := by
  constructor
  · rintro ⟨node, hnode, he, hl⟩
    rw [contentAt, contentAt, nodeAt_concat, hnode]
    refine ⟨congrArg some (by rw [content, he]; rfl), ?_⟩
    rw [bind_some, child, hl]
    rfl
  · rintro ⟨hempty, hnone⟩
    obtain ⟨node, hnode, hcontent⟩ := map_eq_some_iff.mp hempty
    refine ⟨node, hnode, map_eq_nil_iff.mp hcontent, ?_⟩
    cases hl : node.l with
    | none => rfl
    | some c =>
      have hchild : child node 0 = some c := hl
      obtain ⟨below, hbelow⟩ := nodeAt_child h hnode hchild
      rw [contentAt, nodeAt_concat, hnode, bind_some, hchild, bind_some, hbelow] at hnone
      cases hnone

end

/-- Accepted trees with the same entries have the same nodes exactly where they have the same empty
subtrees. -/
theorem same_nodes_iff (H : Hashes) (decodeNode : Bytes → Option RawNode) (car car' : Car)
    (root root' : Cid) (out out' : WalkOut) (h : run H decodeNode car .full root = .ok out)
    (h' : run H decodeNode car' .full root' = .ok out') (heq : out.entries = out'.entries) :
    (∀ path, contentAt decodeNode car root path = contentAt decodeNode car' root' path) ↔
      ∀ path, (Dangling decodeNode car root path ↔ Dangling decodeNode car' root' path) := by
  obtain ⟨n, hsub, hn⟩ := run_subtree h
  obtain ⟨n', hsub', hn'⟩ := run_subtree h'
  rw [← heq] at hsub' hn'
  -- the layer of the root is the highest of its keys
  have hlayer : n = n' := by
    rcases hn with ⟨hnil, rfl⟩ | ⟨e, he, hen⟩
    · rcases hn' with ⟨-, rfl⟩ | ⟨e', he', -⟩
      · rfl
      · rw [hnil] at he'
        exact absurd he' not_mem_nil
    · rcases hn' with ⟨hnil, -⟩ | ⟨e', he', hen'⟩
      · rw [hnil] at he
        exact absurd he not_mem_nil
      · have hle := layer_le hsub e' he'
        have hle' := layer_le hsub' e he
        omega
  subst hlayer
  constructor
  · intro hcontent path
    rw [dangling_iff hsub, dangling_iff hsub', hcontent, hcontent]
  · exact fun hd path => contentAt_eq hsub hsub' hd path

namespace ShapeExample

def key : Key := [97, 47, 51]

def keyDigest : B256 := ⟨[
  37, 193, 7, 13, 252, 220, 180, 248, 189, 102, 244, 117, 173, 101, 200, 93, 180, 3, 187, 121, 158,
  219, 37, 204, 102, 191, 190, 223, 26, 133, 65, 5], rfl⟩

def recordDigest : Bytes := [
  203, 131, 85, 147, 228, 250, 54, 51, 204, 151, 31, 203, 209, 235, 8, 12, 163, 34, 37, 130, 32,
  84, 142, 183, 8, 123, 234, 248, 239, 109, 127, 244]

def record : Cid := ⟨1, Carset.DAG_CBOR, Carset.SHA2_256, recordDigest⟩

def emptyBytes : Bytes := [162, 97, 101, 128, 97, 108, 246]

def emptyDigest : B256 := ⟨[
  157, 254, 254, 97, 221, 118, 234, 61, 202, 229, 2, 56, 128, 176, 131, 121, 213, 122, 223, 32, 72,
  45, 111, 219, 226, 117, 146, 137, 246, 71, 103, 123], rfl⟩

def emptyCid : Cid := ⟨1, Carset.DAG_CBOR, Carset.SHA2_256, emptyDigest.bytes⟩

/-- The array of one entry. -/
def entryBytes : Bytes :=
  [129, 164, 97, 107, 67, 97, 47, 51, 97, 112, 0, 97, 116, 246, 97, 118, 216, 42, 88, 37, 0, 1, 113, 18, 32] ++
    recordDigest

def plainBytes : Bytes := [162, 97, 101] ++ entryBytes ++ [97, 108, 246]

def plainDigest : B256 := ⟨[
  191, 36, 22, 84, 189, 49, 244, 111, 158, 195, 186, 157, 125, 232, 104, 77, 234, 104, 120, 203,
  157, 49, 170, 124, 246, 111, 83, 101, 203, 180, 213, 186], rfl⟩

def plainCid : Cid := ⟨1, Carset.DAG_CBOR, Carset.SHA2_256, plainDigest.bytes⟩

def paddedBytes : Bytes :=
  [162, 97, 101] ++ entryBytes ++ [97, 108, 216, 42, 88, 37, 0, 1, 113, 18, 32] ++ emptyDigest.bytes

def paddedDigest : B256 := ⟨[
  234, 19, 41, 214, 88, 247, 128, 182, 64, 192, 44, 114, 167, 98, 127, 246, 204, 181, 104, 1, 1,
  238, 1, 58, 3, 234, 209, 147, 112, 167, 5, 121], rfl⟩

def paddedCid : Cid := ⟨1, Carset.DAG_CBOR, Carset.SHA2_256, paddedDigest.bytes⟩

/-- The field of the leftmost subtree may be left out. -/
def bareBytes : Bytes := [161, 97, 101] ++ entryBytes

def bareDigest : B256 := ⟨[
  38, 81, 29, 75, 133, 184, 152, 34, 8, 118, 96, 157, 229, 119, 94, 101, 240, 39, 85, 47, 95,
  14, 21, 255, 55, 101, 78, 23, 96, 235, 48, 66], rfl⟩

def bareCid : Cid := ⟨1, Carset.DAG_CBOR, Carset.SHA2_256, bareDigest.bytes⟩

def hashes : Hashes where
  keccak256 := fun _ => 0
  sha256 := fun s =>
    if s = key then keyDigest
    else if s = emptyBytes then emptyDigest
    else if s = plainBytes then plainDigest
    else if s = paddedBytes then paddedDigest
    else if s = bareBytes then bareDigest
    else 0

def decodeNode (s : Bytes) : Option RawNode :=
  if s = emptyBytes then some ⟨none, []⟩
  else if s = plainBytes ∨ s = bareBytes then some ⟨none, [⟨0, key, record, none⟩]⟩
  else if s = paddedBytes then some ⟨some emptyCid, [⟨0, key, record, none⟩]⟩
  else none

def blocks : List (Cid × Bytes) :=
  [(emptyCid, emptyBytes), (plainCid, plainBytes), (paddedCid, paddedBytes), (bareCid, bareBytes)]

def car : Car := ⟨[plainCid], .ofEntries blocks, 4⟩

theorem walks : run hashes decodeNode car .full plainCid = .ok ⟨[(key, record)], 1, [plainCid]⟩ ∧
      run hashes decodeNode car .full paddedCid = .ok ⟨[(key, record)], 2, [paddedCid, emptyCid]⟩ ∧
      contentAt decodeNode car plainCid [0] = none ∧ contentAt decodeNode car paddedCid [0] = some [] := by
  decide +kernel

theorem bare_blocks :
    car.get plainCid = some plainBytes ∧ car.get bareCid = some bareBytes ∧ plainBytes ≠ emptyBytes ∧
      bareBytes ≠ emptyBytes ∧
      run hashes decodeNode car .full bareCid = .ok ⟨[(key, record)], 1, [bareCid]⟩ := by
  decide +kernel

theorem decode_bare : decode decodeNode car bareCid = decode decodeNode car plainCid := by
  obtain ⟨hplain, hbare, hne, hne', -⟩ := bare_blocks
  unfold decode
  rw [hplain, hbare]
  dsimp only
  rw [decodeNode, decodeNode, if_neg hne', if_neg hne, if_pos (.inr rfl), if_pos (.inl rfl)]

theorem addressed (cid : Cid) (data : Bytes) (h : car.get cid = some data) :
    Carset.Addressed hashes cid data := by
  have hmem := (BTreeMap.getElem?_ofEntries (l := blocks) (by decide +kernel)).mp h
  have hdigests : hashes.sha256 emptyBytes = emptyDigest ∧ hashes.sha256 plainBytes = plainDigest ∧
      hashes.sha256 paddedBytes = paddedDigest ∧ hashes.sha256 bareBytes = bareDigest := by
    decide +kernel
  simp only [blocks, mem_cons, not_mem_nil, or_false, Prod.mk.injEq] at hmem
  rcases hmem with ⟨rfl, rfl⟩ | ⟨rfl, rfl⟩ | ⟨rfl, rfl⟩ | ⟨rfl, rfl⟩
  · exact ⟨rfl, Or.inl rfl, rfl, by rw [hdigests.1]; rfl⟩
  · exact ⟨rfl, Or.inl rfl, rfl, by rw [hdigests.2.1]; rfl⟩
  · exact ⟨rfl, Or.inl rfl, rfl, by rw [hdigests.2.2.1]; rfl⟩
  · exact ⟨rfl, Or.inl rfl, rfl, by rw [hdigests.2.2.2]; rfl⟩

end ShapeExample

open ShapeExample in
/-- The tree with an empty subtree beside the one without; and that one under two roots. -/
theorem same_nodes_iff_padded :
    ((∀ path, contentAt decodeNode car plainCid path = contentAt decodeNode car paddedCid path) ↔
      ∀ path, (Dangling decodeNode car plainCid path ↔ Dangling decodeNode car paddedCid path)) ∧
    plainCid ≠ bareCid ∧
    ∀ path, contentAt decodeNode car plainCid path = contentAt decodeNode car bareCid path := by
  refine ⟨same_nodes_iff hashes decodeNode car car plainCid paddedCid _ _ walks.1 walks.2.1 rfl, by decide,
    (same_nodes_iff hashes decodeNode car car plainCid bareCid _ _ walks.1 bare_blocks.2.2.2.2 rfl).mpr
      fun path => ?_⟩
  cases path with
  | nil => rw [Dangling, Dangling, nodeAt, nodeAt, decode_bare]
  | cons slot path => rw [Dangling, Dangling, nodeAt, nodeAt, decode_bare]

open ShapeExample in
/-- Over content-addressed blocks two trees with the same entries may have different nodes. -/
theorem not_same_nodes :
    ¬ ∀ (H : Hashes) (decodeNode : Bytes → Option RawNode) (car car' : Car) (root root' : Cid)
      (out out' : WalkOut), (∀ cid data, car.get cid = some data → Carset.Addressed H cid data) →
      (∀ cid data, car'.get cid = some data → Carset.Addressed H cid data) →
      run H decodeNode car .full root = .ok out → run H decodeNode car' .full root' = .ok out' →
      out.entries = out'.entries →
        ∀ path, contentAt decodeNode car root path = contentAt decodeNode car' root' path := by
  intro h
  have hpath := h hashes decodeNode car car plainCid paddedCid _ _ addressed addressed walks.1 walks.2.1
    rfl [0]
  rw [walks.2.2.1, walks.2.2.2] at hpath
  cases hpath

end Trustgraphs.Mst
