import Trustgraphs.Envelopes.Mst

/-!
# Range walks are complete and exact

A full walk that succeeds lists its keys in strictly ascending order. A subtree that the range walk
prunes lies on the far side of a key that is itself out of range, so nothing of the range is in it
(`Simulates`).
-/

namespace Trustgraphs.Mst

open Outcome List Option

section

variable {H : Hashes} {decodeNode : Bytes → Option RawNode} {car : Car} {range : Range}

theorem leadingZeros_le (b : UInt8) : leadingZeros b ≤ 8 := by
  unfold leadingZeros
  split <;> omega

theorem countLeadingZeros_le (l : Bytes) : countLeadingZeros l ≤ 8 * l.length := by
  induction l with
  | nil => simp [countLeadingZeros]
  | cons b bs ih =>
    have hb := leadingZeros_le b
    rw [countLeadingZeros, length_cons]
    split <;> omega

theorem keyLayer_le (key : Key) : keyLayer H key ≤ 128 := by
  have h := countLeadingZeros_le (H.sha256 key).bytes
  rw [FixedBytes.length_bytes] at h
  unfold keyLayer
  omega

variable {cid : Cid} {pl : Option Nat} {node : RawNode} {keys : List Key} {layer : Nat}
  {ev : Descend} {w : Walker} {n : Nat} {r : Nat × Walker} {w₂ : Walker} {key : Key}

theorem openNode_eq_ok : openNode H decodeNode car cid pl = .ok (node, keys, layer) ↔
      decode decodeNode car cid = .ok node ∧ readKeys cid 0 [] node.e = .ok keys ∧
        nodeLayer H cid pl keys = .ok layer ∧ checkLayer cid pl layer = .ok () := by
  simp only [openNode, bind_eq_ok, Except.ok.injEq, Prod.mk.injEq]
  constructor
  · rintro ⟨n, hn, ks, hk, l, hl, u, hc, rfl, rfl, rfl⟩
    exact ⟨hn, hk, hl, hc⟩
  · rintro ⟨hn, hk, hl, hc⟩
    exact ⟨node, hn, keys, hk, layer, hl, (), hc, rfl, rfl, rfl⟩

theorem openNode_layer {pl : Nat}
    (h : openNode H decodeNode car cid (some pl) = .ok (node, keys, layer)) : layer + 1 = pl := by
  obtain ⟨-, -, -, hc⟩ := openNode_eq_ok.mp h
  obtain ⟨hne, -⟩ := of_guard hc
  exact not_not.mp hne

theorem openNode_layer_le (h : openNode H decodeNode car cid none = .ok (node, keys, layer)) : layer ≤ 128 := by
  obtain ⟨-, -, hl, -⟩ := openNode_eq_ok.mp h
  cases keys with
  | nil =>
    simp only [nodeLayer, map_none, getD_none, Except.ok.injEq] at hl
    omega
  | cons k ks =>
    unfold nodeLayer at hl
    dsimp only at hl
    cases hf : ks.find? (fun k' => keyLayer H k' ≠ keyLayer H k) with
    | some k' =>
      rw [hf] at hl
      exact absurd hl (by simp)
    | none =>
      rw [hf] at hl
      exact ok_inj hl ▸ keyLayer_le k

theorem readKeys_ne_tooDeep (cid : Cid) (i : Nat) (prev : Key) (es : List RawEntry) :
    readKeys cid i prev es ≠ .error .tooDeep := by
  induction es generalizing i prev with
  | nil => simp [readKeys]
  | cons e es ih =>
    intro h
    simp only [readKeys, ite_error_eq_error, bind_eq_error, reduceCtorEq, and_false, false_or,
      exists_false, or_false] at h
    exact ih _ _ h.2.2.2.2

theorem nodeLayer_ne_tooDeep (cid : Cid) (pl : Option Nat) (keys : List Key) :
    nodeLayer H cid pl keys ≠ .error .tooDeep := by
  cases keys with
  | nil => simp [nodeLayer]
  | cons k ks =>
    unfold nodeLayer
    dsimp only
    split <;> simp

theorem decode_ne_tooDeep (cid : Cid) : decode decodeNode car cid ≠ .error .tooDeep := by
  unfold decode
  split
  · simp
  · split <;> simp

theorem checkLayer_ne_tooDeep (cid : Cid) (pl : Option Nat) (layer : Nat) :
    checkLayer cid pl layer ≠ .error .tooDeep := by
  unfold checkLayer
  split
  · split <;> simp
  · simp

theorem openNode_ne_tooDeep (cid : Cid) (pl : Option Nat) :
    openNode H decodeNode car cid pl ≠ .error .tooDeep := by
  intro h
  simp only [openNode, bind_eq_error, reduceCtorEq, and_false, exists_false, or_false] at h
  rcases h with h | ⟨node, -, h | ⟨keys, -, h | ⟨layer, -, h⟩⟩⟩
  · exact decode_ne_tooDeep _ h
  · exact readKeys_ne_tooDeep _ _ _ _ h
  · exact nodeLayer_ne_tooDeep _ _ _ h
  · exact checkLayer_ne_tooDeep _ _ _ h

/-- `ev'` agrees below a node of the layer with `ev` wherever `ev` has enough levels. -/
def Agrees (ev' ev : Descend) (layer : Nat) : Prop :=
  ∀ cid w, ev cid (some layer) w ≠ .error .tooDeep → ev' cid (some layer) w = ev cid (some layer) w

section

variable {ev' ev : Descend} {layer : Nat} (hev : Agrees ev' ev layer)
include hev

theorem maybeDescend_agrees {sub : Option Cid} {lk rk : Option Key} {w : Walker}
    (h : maybeDescend range ev sub layer lk rk w ≠ .error .tooDeep) :
    maybeDescend range ev' sub layer lk rk w = maybeDescend range ev sub layer lk rk w := by
  unfold maybeDescend at h ⊢
  cases sub with
  | none => rfl
  | some cid =>
    dsimp only at h ⊢
    by_cases hhi : range.hi.any fun hi => lk.any fun lk => decide (hi ≤ lk)
    · rw [if_pos hhi, if_pos hhi]
    · rw [if_neg hhi] at h ⊢
      rw [if_neg hhi]
      by_cases hlo : range.lo.any fun lo => rk.any fun rk => decide (rk ≤ lo)
      · rw [if_pos hlo, if_pos hlo]
      · rw [if_neg hlo] at h ⊢
        rw [if_neg hlo, hev cid w fun he => h (map_eq_error.mpr he)]

theorem walkEntries_agrees {es : List (RawEntry × Key)} {w : Walker}
    (h : walkEntries range ev layer es w ≠ .error .tooDeep) :
    walkEntries range ev' layer es w = walkEntries range ev layer es w := by
  induction es generalizing w with
  | nil => rfl
  | cons e es ih =>
    obtain ⟨e, key⟩ := e
    unfold walkEntries at h ⊢
    by_cases hk : w.prevKey.any fun pk => decide (key ≤ pk)
    · rw [if_pos hk, if_pos hk]
    · rw [if_neg hk] at h ⊢
      rw [if_neg hk, maybeDescend_agrees hev fun he => h (bind_eq_error.mpr (.inl he))]
      cases hd : maybeDescend range ev e.t layer (some key) (es.head?.map Prod.snd)
          (w.emit range key e.v) with
      | error err => rfl
      | ok w' =>
        rw [hd] at h
        exact ih h

end

theorem walkNode_agrees {ev' : Descend}
    (hev : ∀ node keys layer, openNode H decodeNode car cid pl = .ok (node, keys, layer) →
      Agrees ev' ev layer) (h : walkNode H decodeNode car range ev cid pl w ≠ .error .tooDeep) :
    walkNode H decodeNode car range ev' cid pl w = walkNode H decodeNode car range ev cid pl w := by
  unfold walkNode at h ⊢
  cases ho : openNode H decodeNode car cid pl with
  | error err => rfl
  | ok r =>
    obtain ⟨node, keys, layer⟩ := r
    have hag := hev node keys layer ho
    rw [ho] at h
    simp only [ok_bind] at h ⊢
    rw [maybeDescend_agrees hag fun he => h (bind_eq_error.mpr (.inl he))]
    cases hd : maybeDescend range ev node.l layer none keys.head? (w.visit cid) with
    | error err => rfl
    | ok w' =>
      rw [hd] at h
      simp only [ok_bind] at h ⊢
      rw [walkEntries_agrees hag fun he => h (bind_eq_error.mpr (.inl he))]

theorem walkNode_ne_tooDeep
    (hev : ∀ node keys layer, openNode H decodeNode car cid pl = .ok (node, keys, layer) →
      ∀ c w, ev c (some layer) w ≠ .error .tooDeep) (w : Walker) :
    walkNode H decodeNode car range ev cid pl w ≠ .error .tooDeep := by
  have hdesc : ∀ {layer : Nat}, (∀ c w, ev c (some layer) w ≠ .error .tooDeep) →
      ∀ sub lk rk w, maybeDescend range ev sub layer lk rk w ≠ .error .tooDeep := by
    intro layer hl sub lk rk w he
    unfold maybeDescend at he
    split at he
    · exact absurd he (by simp)
    · split at he
      · exact absurd he (by simp)
      · split at he
        · exact absurd he (by simp)
        · exact hl _ _ (map_eq_error.mp he)
  have hentries : ∀ {layer : Nat}, (∀ c w, ev c (some layer) w ≠ .error .tooDeep) →
      ∀ es w, walkEntries range ev layer es w ≠ .error .tooDeep := by
    intro layer hl es
    induction es with
    | nil => simp [walkEntries]
    | cons e es ih =>
      intro w he
      simp only [walkEntries, ite_error_eq_error, bind_eq_error, reduceCtorEq, and_false, false_or] at he
      rcases he.2 with he | ⟨w', -, he⟩
      · exact hdesc hl _ _ _ _ he
      · exact ih w' he
  intro he
  simp only [walkNode, bind_eq_error, reduceCtorEq, and_false, exists_false, or_false] at he
  rcases he with he | ⟨⟨node, keys, layer⟩, ho, he | ⟨w', -, he⟩⟩
  · exact openNode_ne_tooDeep _ _ he
  · exact hdesc (hev node keys layer ho) _ _ _ _ he
  · exact hentries (hev node keys layer ho) _ _ he

theorem walk_child_ne_tooDeep {pl : Nat} (h : pl ≤ n) (cid : Cid) (w : Walker) :
    walk H decodeNode car range n cid (some pl) w ≠ .error .tooDeep := by
  induction n generalizing pl cid w with
  | zero =>
    refine walkNode_ne_tooDeep (fun node keys layer ho => ?_) w
    have hl := openNode_layer ho
    omega
  | succ n ih =>
    refine walkNode_ne_tooDeep (fun node keys layer ho c w' => ?_) w
    have hl := openNode_layer ho
    exact ih (by omega) c w'

theorem walk_mono {m : Nat} (hmn : m ≤ n) (h : walk H decodeNode car range m cid pl w ≠ .error .tooDeep) :
    walk H decodeNode car range n cid pl w = walk H decodeNode car range m cid pl w := by
  induction m generalizing n cid pl w with
  | zero =>
    cases n with
    | zero => rfl
    | succ n => exact walkNode_agrees (fun _ _ _ _ _ _ hne => absurd rfl hne) h
  | succ m ih =>
    cases n with
    | zero => omega
    | succ n => exact walkNode_agrees (fun _ _ _ _ c w' hne => ih (Nat.le_of_succ_le_succ hmn) hne) h

/-- What succeeds below a node of the layer succeeds alike with `ev'`. -/
def Extends (ev' ev : Descend) (layer : Nat) : Prop :=
  ∀ cid w r, ev cid (some layer) w = .ok r → ev' cid (some layer) w = .ok r

section

variable {ev' ev : Descend} {layer : Nat} (hev : Extends ev' ev layer)
include hev

theorem maybeDescend_extends {sub : Option Cid} {lk rk : Option Key} {w w' : Walker}
    (h : maybeDescend range ev sub layer lk rk w = .ok w') :
    maybeDescend range ev' sub layer lk rk w = .ok w' := by
  unfold maybeDescend at h ⊢
  cases sub with
  | none => exact h
  | some cid =>
    dsimp only at h ⊢
    by_cases hhi : range.hi.any fun hi => lk.any fun lk => decide (hi ≤ lk)
    · rwa [if_pos hhi] at h ⊢
    · rw [if_neg hhi] at h ⊢
      by_cases hlo : range.lo.any fun lo => rk.any fun rk => decide (rk ≤ lo)
      · rwa [if_pos hlo] at h ⊢
      · rw [if_neg hlo] at h ⊢
        obtain ⟨r, hr, rfl⟩ := map_eq_ok.mp h
        exact map_eq_ok.mpr ⟨r, hev _ _ _ hr, rfl⟩

theorem walkEntries_extends {es : List (RawEntry × Key)} {w w' : Walker}
    (h : walkEntries range ev layer es w = .ok w') :
    walkEntries range ev' layer es w = .ok w' := by
  induction es generalizing w with
  | nil => exact h
  | cons e es ih =>
    obtain ⟨e, key⟩ := e
    unfold walkEntries at h ⊢
    obtain ⟨hk, h⟩ := of_guard h
    obtain ⟨w₁, hd, h⟩ := of_bind h
    exact ite_error_eq_ok.mpr ⟨hk, bind_eq_ok.mpr ⟨w₁, maybeDescend_extends hev hd, ih h⟩⟩

end

theorem walkNode_eq_ok : walkNode H decodeNode car range ev cid pl w = .ok r ↔
      ∃ node keys, openNode H decodeNode car cid pl = .ok (node, keys, r.1) ∧
        ∃ w', maybeDescend range ev node.l r.1 none keys.head? (w.visit cid) = .ok w' ∧
          walkEntries range ev r.1 (node.e.zip keys) w' = .ok r.2 := by
  simp only [walkNode, bind_eq_ok, Except.ok.injEq, Prod.exists]
  constructor
  · rintro ⟨node, keys, layer, ho, w', hd, w'', he, rfl⟩
    exact ⟨node, keys, ho, w', hd, he⟩
  · rintro ⟨node, keys, ho, w', hd, he⟩
    exact ⟨node, keys, r.1, ho, w', hd, r.2, he, rfl⟩

theorem walkNode_extends {ev' : Descend} (hev : Extends ev' ev r.1)
    (h : walkNode H decodeNode car range ev cid pl w = .ok r) :
    walkNode H decodeNode car range ev' cid pl w = .ok r := by
  obtain ⟨node, keys, ho, w', hd, he⟩ := walkNode_eq_ok.mp h
  exact walkNode_eq_ok.mpr
    ⟨node, keys, ho, w', maybeDescend_extends hev hd, walkEntries_extends hev he⟩

theorem walk_eq_walkNode (n : Nat) : ∃ ev, walk H decodeNode car range n = walkNode H decodeNode car range ev ∧
      ∀ c pl w r, ev c pl w = .ok r → ∃ m, walk H decodeNode car range m c pl w = .ok r := by
  cases n with
  | zero => exact ⟨_, rfl, fun _ _ _ _ h => absurd h (by simp)⟩
  | succ n => exact ⟨_, rfl, fun _ _ _ _ h => ⟨n, h⟩⟩

theorem walk_opens (h : walk H decodeNode car range n cid pl w = .ok r) :
    ∃ node keys, openNode H decodeNode car cid pl = .ok (node, keys, r.1) := by
  obtain ⟨ev, hev, -⟩ := @walk_eq_walkNode H decodeNode car range n
  rw [hev] at h
  obtain ⟨node, keys, ho, -⟩ := walkNode_eq_ok.mp h
  exact ⟨node, keys, ho⟩

theorem walk_levels {l : Nat} (hl : r.1 = l) (h : walk H decodeNode car range n cid pl w = .ok r) :
    walk H decodeNode car range l cid pl w = .ok r := by
  induction l generalizing n cid pl w r with
  | zero =>
    obtain ⟨ev, hev, hbelow⟩ := @walk_eq_walkNode H decodeNode car range n
    rw [hev] at h
    refine walkNode_extends (fun c w' r' hc => ?_) h
    -- nothing opens below layer 0
    obtain ⟨m, hm⟩ := hbelow _ _ _ _ hc
    obtain ⟨node, keys, ho⟩ := walk_opens hm
    rw [hl] at ho
    exact absurd (openNode_layer ho) (Nat.succ_ne_zero _)
  | succ l ih =>
    obtain ⟨ev, hev, hbelow⟩ := @walk_eq_walkNode H decodeNode car range n
    rw [hev] at h
    refine walkNode_extends (fun c w' r' hc => ?_) h
    obtain ⟨m, hm⟩ := hbelow _ _ _ _ hc
    obtain ⟨node, keys, ho⟩ := walk_opens hm
    rw [hl] at ho
    exact ih (Nat.succ_injective (openNode_layer ho)) hm

def Before (prev : Option Key) (key : Key) : Prop := ∀ p ∈ prev, p < key

/-- `seg` is what a full walk lists between two states: it lies after the first, and what comes after
the second comes after all of it. -/
structure Segment (w w' : Walker) (seg : List (Key × Cid)) : Prop where
  out : w'.out = w.out ++ seg
  after : ∀ e ∈ seg, Before w.prevKey e.1
  before : ∀ key, Before w'.prevKey key → Before w.prevKey key ∧ ∀ e ∈ seg, e.1 < key

theorem Segment.nil (w : Walker) : Segment w w [] := ⟨by simp, by simp, fun key h => ⟨h, by simp⟩⟩

theorem Segment.trans {w₁ w₃ : Walker} {seg seg' : List (Key × Cid)} (h : Segment w₁ w₂ seg)
    (h' : Segment w₂ w₃ seg') : Segment w₁ w₃ (seg ++ seg') where
  out := by rw [h'.out, h.out, append_assoc]
  after e he := by
    rcases mem_append.mp he with he | he
    · exact h.after e he
    · exact (h.before e.1 (h'.after e he)).1
  before key hkey := by
    obtain ⟨h2, hseg'⟩ := h'.before key hkey
    obtain ⟨h1, hseg⟩ := h.before key h2
    refine ⟨h1, fun e he => ?_⟩
    rcases mem_append.mp he with he | he
    · exact hseg e he
    · exact hseg' e he

/-- The range walk may be behind the full walk, never ahead of it. -/
def Behind (w w₂ : Walker) : Prop := ∀ key, Before w.prevKey key → Before w₂.prevKey key

structure Follows (range : Range) (w' w₂ w₂' : Walker) (seg : List (Key × Cid)) : Prop where
  out : w₂'.out = w₂.out ++ seg.filter fun e => range.inRange e.1
  behind : Behind w' w₂'

/-- Where the full walk `ev` of a subtree succeeds, the range walk `evR` succeeds with exactly what
is in range. -/
def Simulates (range : Range) (ev evR : Descend) : Prop :=
  ∀ cid pl w r, ev cid pl w = .ok r → ∃ seg, Segment w r.2 seg ∧
    ∀ w₂, Behind w w₂ → ∃ w₂', evR cid pl w₂ = .ok (r.1, w₂') ∧ Follows range r.2 w₂ w₂' seg

theorem Follows.nil (h : Behind w w₂) : Follows range w w₂ w₂ [] := ⟨by simp, h⟩

theorem Follows.trans {w' w'' w₂' w₂'' : Walker} {seg seg' : List (Key × Cid)}
    (h : Follows range w' w₂ w₂' seg) (h' : Follows range w'' w₂' w₂'' seg') :
    Follows range w'' w₂ w₂'' (seg ++ seg') :=
  ⟨by rw [h'.out, h.out, filter_append, append_assoc], h'.behind⟩

theorem Range.between_inRange (lo hi key : Key) :
    (Range.between lo hi).inRange key = decide (lo ≤ key ∧ key < hi) := by
  simp only [inRange, between, any_some, decide_eq_true_eq]
  by_cases h : key < lo
  · simp [h, not_le.mpr h]
  · by_cases h' : hi ≤ key
    · simp [h, h', not_lt.mpr h']
    · simp [h, h', not_lt.mp h, not_le.mp h']

theorem Range.not_inRange_of_hi {k hi : Key} (hhi : range.hi = some hi) (h : hi ≤ k) (hk : k < key) :
    range.inRange key = false := by
  have hle : hi ≤ key := h.trans hk.le
  unfold Range.inRange
  split
  · rfl
  · rw [if_pos (by simp [hhi, hle])]

theorem Range.not_inRange_of_lo {k lo : Key} (hlo : range.lo = some lo) (h : k ≤ lo) (hk : key < k) :
    range.inRange key = false := by
  have hlt : key < lo := lt_of_lt_of_le hk h
  unfold Range.inRange
  rw [if_pos (by simp [hlo, hlt])]

theorem not_any_le_iff {prev : Option Key} : (¬ prev.any fun pk => key ≤ pk) ↔ Before prev key := by
  cases prev with
  | none => simp [Before]
  | some pk => simp [Before]

theorem emit_segment (v : Cid) (h : Before w.prevKey key) : Segment w (w.emit .full key v) [(key, v)] where
  out := rfl
  after e he := by
    rw [mem_singleton.mp he]
    exact h
  before k hk := by
    have hlt : key < k := hk key rfl
    refine ⟨fun p hp => (h p hp).trans hlt, fun e he => ?_⟩
    rw [mem_singleton.mp he]
    exact hlt

theorem emit_follows (key : Key) (v : Cid) :
    Follows range (w.emit .full key v) w₂ (w₂.emit range key v) [(key, v)] where
  out := by
    simp only [Walker.emit, filter_cons, filter_nil]
    split <;> simp
  behind k hk := hk

theorem readKeys_length {i : Nat} {prev : Key} {es : List RawEntry}
    (h : readKeys cid i prev es = .ok keys) : keys.length = es.length := by
  induction es generalizing i prev keys with
  | nil =>
    obtain rfl : [] = keys := ok_inj h
    rfl
  | cons e es ih =>
    simp only [readKeys, ite_error_eq_ok, bind_eq_ok, Except.ok.injEq] at h
    obtain ⟨-, -, -, -, ks, hks, rfl⟩ := h
    rw [length_cons, length_cons, ih hks]

theorem zip_keys_head {es : List RawEntry}
    (h : readKeys cid 0 [] es = .ok keys) : (es.zip keys).head?.map Prod.snd = keys.head? := by
  have hlen := readKeys_length h
  cases es with
  | nil =>
    rw [length_nil, length_eq_zero_iff] at hlen
    rw [hlen]
    rfl
  | cons e es =>
    cases keys with
    | nil => simp at hlen
    | cons k ks => rfl

theorem walkEntries_head {es : List (RawEntry × Key)} {w' : Walker}
    (h : walkEntries range ev layer es w = .ok w') :
    ∀ k ∈ es.head?.map Prod.snd, Before w.prevKey k := by
  cases es with
  | nil => simp
  | cons e es =>
    intro k hk
    have hk : e.2 = k := some_inj.mp hk
    unfold walkEntries at h
    exact hk ▸ not_any_le_iff.mp (of_guard h).1

section

variable {ev evR : Descend} (hev : Simulates range ev evR)
include hev

theorem maybeDescend_sim {sub : Option Cid} {layer : Nat} {lk rk : Option Key} {w w' : Walker}
    (h : maybeDescend .full ev sub layer lk rk w = .ok w') (hlk : ∀ k ∈ lk, w.prevKey = some k)
    (hrk : ∀ k ∈ rk, Before w'.prevKey k) :
    ∃ seg, Segment w w' seg ∧ ∀ w₂, Behind w w₂ → ∃ w₂',
      maybeDescend range evR sub layer lk rk w₂ = .ok w₂' ∧ Follows range w' w₂ w₂' seg := by
  cases sub with
  | none =>
    obtain rfl : w = w' := ok_inj h
    exact ⟨[], Segment.nil w, fun w₂ hb => ⟨w₂, rfl, Follows.nil hb⟩⟩
  | some cid =>
    have hfull : (ev cid (some layer) w).map Prod.snd = .ok w' := h
    obtain ⟨r, hr, rfl⟩ := map_eq_ok.mp hfull
    obtain ⟨seg, hseg, hsim⟩ := hev _ _ _ _ hr
    refine ⟨seg, hseg, fun w₂ hb => ?_⟩
    have hpruned : (∀ e ∈ seg, range.inRange e.1 = false) → Follows range r.2 w₂ w₂ seg := by
      intro hnone
      have hfilter : (seg.filter fun e => range.inRange e.1) = [] :=
        filter_eq_nil_iff.mpr fun e he => by simp [hnone e he]
      exact ⟨by rw [hfilter, append_nil], fun key hkey => hb key (hseg.before key hkey).1⟩
    unfold maybeDescend
    dsimp only
    by_cases hhi : range.hi.any fun hi => lk.any fun lk => decide (hi ≤ lk)
    · rw [if_pos hhi]
      obtain ⟨hi, hhi', hle⟩ := (Option.any_eq_true _ _).mp hhi
      obtain ⟨k, rfl, hle⟩ := (Option.any_eq_true _ _).mp hle
      refine ⟨w₂, rfl, hpruned fun e he => ?_⟩
      exact Range.not_inRange_of_hi hhi' (of_decide_eq_true hle) (hseg.after e he k (hlk k rfl))
    · rw [if_neg hhi]
      by_cases hlo : range.lo.any fun lo => rk.any fun rk => decide (rk ≤ lo)
      · rw [if_pos hlo]
        obtain ⟨lo, hlo', hle⟩ := (Option.any_eq_true _ _).mp hlo
        obtain ⟨k, rfl, hle⟩ := (Option.any_eq_true _ _).mp hle
        refine ⟨w₂, rfl, hpruned fun e he => ?_⟩
        exact Range.not_inRange_of_lo hlo' (of_decide_eq_true hle)
          ((hseg.before k (hrk k rfl)).2 e he)
      · rw [if_neg hlo]
        obtain ⟨w₂', hw₂', hf⟩ := hsim w₂ hb
        exact ⟨w₂', map_eq_ok.mpr ⟨_, hw₂', rfl⟩, hf⟩

theorem walkEntries_sim {layer : Nat} {es : List (RawEntry × Key)} {w w' : Walker}
    (h : walkEntries .full ev layer es w = .ok w') :
    ∃ seg, Segment w w' seg ∧ ∀ w₂, Behind w w₂ → ∃ w₂',
      walkEntries range evR layer es w₂ = .ok w₂' ∧ Follows range w' w₂ w₂' seg := by
  induction es generalizing w with
  | nil =>
    obtain rfl : w = w' := ok_inj h
    exact ⟨[], Segment.nil w, fun w₂ hb => ⟨w₂, rfl, Follows.nil hb⟩⟩
  | cons e es ih =>
    obtain ⟨e, key⟩ := e
    unfold walkEntries at h
    obtain ⟨hk, h⟩ := of_guard h
    have hbefore : Before w.prevKey key := not_any_le_iff.mp hk
    obtain ⟨w₁, hd, hrest⟩ := of_bind h
    -- the subtree to the right of the key ends before the next key
    obtain ⟨seg₁, hseg₁, hsim₁⟩ := maybeDescend_sim hev hd (fun k hk => by
      rw [mem_some_iff.mp hk]
      rfl) (walkEntries_head hrest)
    obtain ⟨seg₂, hseg₂, hsim₂⟩ := ih hrest
    refine ⟨[(key, e.v)] ++ seg₁ ++ seg₂, ((emit_segment e.v hbefore).trans hseg₁).trans hseg₂,
      fun w₂ hb => ?_⟩
    have hemit : Follows range (w.emit .full key e.v) w₂ (w₂.emit range key e.v) [(key, e.v)] :=
      emit_follows key e.v
    obtain ⟨w₃, hd₃, hf₃⟩ := hsim₁ _ hemit.behind
    obtain ⟨w₄, hd₄, hf₄⟩ := hsim₂ _ hf₃.behind
    refine ⟨w₄, ?_, (hemit.trans hf₃).trans hf₄⟩
    unfold walkEntries
    exact ite_error_eq_ok.mpr ⟨not_any_le_iff.mpr (hb key hbefore), bind_eq_ok.mpr ⟨w₃, hd₃, hd₄⟩⟩

theorem walkNode_sim :
    Simulates range (walkNode H decodeNode car .full ev) (walkNode H decodeNode car range evR) := by
  intro cid pl w r h
  obtain ⟨node, keys, ho, w', hd, he⟩ := walkNode_eq_ok.mp h
  obtain ⟨-, hkeys, -, -⟩ := openNode_eq_ok.mp ho
  have hhead : ∀ k ∈ keys.head?, Before w'.prevKey k := by
    rw [← zip_keys_head hkeys]
    exact walkEntries_head he
  obtain ⟨seg₁, hseg₁, hsim₁⟩ := maybeDescend_sim hev hd (by simp) hhead
  obtain ⟨seg₂, hseg₂, hsim₂⟩ := walkEntries_sim hev he
  -- counting the node changes neither the list nor the last key
  have hvisit : Segment w (w.visit cid) [] := ⟨by simp [Walker.visit], by simp, fun _ hkey => ⟨hkey, by simp⟩⟩
  refine ⟨[] ++ seg₁ ++ seg₂, (hvisit.trans hseg₁).trans hseg₂, fun w₂ hb => ?_⟩
  have hvisit₂ : Follows range (w.visit cid) w₂ (w₂.visit cid) [] := ⟨by simp [Walker.visit], hb⟩
  obtain ⟨w₃, hd₃, hf₃⟩ := hsim₁ _ hvisit₂.behind
  obtain ⟨w₄, hd₄, hf₄⟩ := hsim₂ _ hf₃.behind
  exact ⟨w₄, walkNode_eq_ok.mpr ⟨node, keys, ho, w₃, hd₃, hd₄⟩, (hvisit₂.trans hf₃).trans hf₄⟩

end

theorem walk_sim (n : Nat) :
    Simulates range (walk H decodeNode car .full n) (walk H decodeNode car range n) := by
  induction n with
  | zero => exact walkNode_sim fun _ _ _ _ h => absurd h (by simp)
  | succ n ih => exact walkNode_sim ih

theorem walk_root_ne_tooDeep (root : Cid) (w : Walker) :
    walk H decodeNode car range (rootLayer H decodeNode car root + 1) root none w ≠ .error .tooDeep := by
  refine walkNode_ne_tooDeep (fun node keys layer ho c w' => ?_) w
  have hl : rootLayer H decodeNode car root = layer := by simp [rootLayer, ho]
  exact walk_child_ne_tooDeep hl.ge c w'

theorem rootLayer_eq {root : Cid} (h : walk H decodeNode car range n root none w = .ok r) :
    r.1 = rootLayer H decodeNode car root := by
  obtain ⟨node, keys, ho⟩ := walk_opens h
  simp [rootLayer, ho]

theorem rootLayer_le (root : Cid) : rootLayer H decodeNode car root ≤ 128 := by
  unfold rootLayer
  split
  · rename_i ho
    exact openNode_layer_le ho
  · omega

/-- Range walks are complete and exact, and the recursion is bounded on every block store. Where the
full walk succeeds, the range walk succeeds with exactly the pairs in range, in order. And the walk
never nests more than one level deeper than the layer of the root, so a bound from there on changes
nothing; what lies at that deepest level is refused before it descends, so that a tree that is
accepted is walked within the layer of its root. -/
theorem range_walk_complete (H : Hashes) (decodeNode : Bytes → Option RawNode) (car : Car) (root : Cid) :
    (∀ lo hi full, lo ≤ hi → run H decodeNode car .full root = .ok full →
      ∃ out, run H decodeNode car (.between lo hi) root = .ok out ∧
        out.entries = full.entries.filter fun e => lo ≤ e.1 ∧ e.1 < hi) ∧
    ∀ range, ∀ n ≥ rootLayer H decodeNode car root + 1, ∀ w,
      walk H decodeNode car range n root none w ≠ .error .tooDeep ∧
      walk H decodeNode car range n root none w =
        walk H decodeNode car range (rootLayer H decodeNode car root + 1) root none w ∧
      (∀ r, walk H decodeNode car range n root none w = .ok r →
        walk H decodeNode car range (rootLayer H decodeNode car root) root none w = .ok r) ∧
      rootLayer H decodeNode car root + 1 ≤ maxLevels := by
  constructor
  · intro lo hi full _ h
    obtain ⟨⟨layer, w⟩, hw, hfull⟩ := of_bind h
    obtain ⟨seg, hseg, hsim⟩ := @walk_sim H decodeNode car (.between lo hi) maxLevels root none .init _ hw
    obtain ⟨w₂, hw₂, hf⟩ := hsim .init fun _ hkey => hkey
    refine ⟨⟨w₂.out, w₂.nodes, w₂.nodeCids⟩, bind_eq_ok.mpr ⟨_, hw₂, rfl⟩, ?_⟩
    have hentries : full.entries = seg := by
      rw [← ok_inj hfull]
      exact hseg.out
    have hout : w₂.out = seg.filter fun e => (Range.between lo hi).inRange e.1 := hf.out
    rw [hentries]
    refine hout.trans (filter_congr fun e _ => ?_)
    simp only [Range.between_inRange]
  · intro range n hn w
    have hroot := @walk_root_ne_tooDeep H decodeNode car range root w
    have heq := walk_mono hn hroot
    refine ⟨heq ▸ hroot, heq, fun r hr => walk_levels (rootLayer_eq hr) hr, ?_⟩
    have hle := @rootLayer_le H decodeNode car root
    unfold maxLevels
    omega

end

namespace Example

def cid (digest : Nat) : Cid := ⟨1, Carset.DAG_CBOR, Carset.SHA2_256, beBytes 32 digest⟩

def record : Cid := cid 0xc19a797fa1fd590cd2e5b42d1cf5f246e29b91684e2f87404b81dc345c7a56a0

def left : Cid := cid 0xd386435d0fb605eb91c0fea9f0093755e297f3b26d6822af4f89320ad6b1cbf9

def right : Cid := cid 0x6085c338fbdad5ebfe742a36ea964366007337bf93fabcd0463c436a4466890a

def root : Cid := cid 0xb6dd426fa461ef6fec74e29ebadc0f0e11d4735ff7ba758499c5f1a6cf52ebfd

def leftBytes : Bytes := beBytes 117
  0xa2616582a4616b43612f306170006174f66176d82a58250001711220c19a797fa1fd590cd2e5b42d1cf5f246e29b91684e2f87404b81dc345c7a56a0a4616b41316170026174f66176d82a58250001711220c19a797fa1fd590cd2e5b42d1cf5f246e29b91684e2f87404b81dc345c7a56a0616cf6

def rightBytes : Bytes := beBytes 63
  0xa2616581a4616b43612f346170006174f66176d82a58250001711220c19a797fa1fd590cd2e5b42d1cf5f246e29b91684e2f87404b81dc345c7a56a0616cf6

def rootBytes : Bytes := beBytes 143
  0xa2616581a4616b43612f336170006174d82a582500017112206085c338fbdad5ebfe742a36ea964366007337bf93fabcd0463c436a4466890a6176d82a58250001711220c19a797fa1fd590cd2e5b42d1cf5f246e29b91684e2f87404b81dc345c7a56a0616cd82a58250001711220d386435d0fb605eb91c0fea9f0093755e297f3b26d6822af4f89320ad6b1cbf9

def decodeNode (bytes : Bytes) : Option RawNode :=
  if bytes = leftBytes then some ⟨none, [⟨0, utf8 "a/0", record, none⟩, ⟨2, utf8 "1", record, none⟩]⟩
  else if bytes = rightBytes then some ⟨none, [⟨0, utf8 "a/4", record, none⟩]⟩
  else if bytes = rootBytes then some ⟨some left, [⟨0, utf8 "a/3", record, some right⟩]⟩
  else none

def sha256 (s : Bytes) : B256 :=
  if s = utf8 "a/0" then .ofNat 32 0xd7e98967056f4828cb388a7930d88594b59e4374a7927afdd93890273682c804
  else if s = utf8 "a/1" then .ofNat 32 0x773232abe9343f0e102f8248423fc6ceec7d0ac3f4f0144ab3bd88a0611be529
  else if s = utf8 "a/3" then .ofNat 32 0x25c1070dfcdcb4f8bd66f475ad65c85db403bb799edb25cc66bfbedf1a854105
  else if s = utf8 "a/4" then .ofNat 32 0xd19b02c18c60c6bed1d09fe4813217dbd803bc530f2d4829b5cea8949b31f886
  else 0

def hashes : Hashes := ⟨fun _ => 0, sha256⟩

def car : Car :=
  ⟨[root], ((∅ : BTreeMap Cid Bytes).insert left leftBytes |>.insert right rightBytes
    |>.insert root rootBytes), 3⟩

def full : WalkOut :=
  ⟨[(utf8 "a/0", record), (utf8 "a/1", record), (utf8 "a/3", record), (utf8 "a/4", record)], 3,
    [root, left, right]⟩

end Example

open Example in
/-- A lower bound on a key of the left node, an upper bound on the key of the right one. -/
theorem range_walk_complete_four_keys : run hashes decodeNode car .full root = .ok full ∧
    ∃ out, run hashes decodeNode car (.between (utf8 "a/1") (utf8 "a/4")) root = .ok out ∧
      out.entries = [(utf8 "a/1", record), (utf8 "a/3", record)] := by
  have hfull : run hashes decodeNode car .full root = .ok full := by decide +kernel
  obtain ⟨out, hout, hentries⟩ :=
    (range_walk_complete hashes decodeNode car root).1 (utf8 "a/1") (utf8 "a/4") full
      (by decide) hfull
  refine ⟨hfull, out, hout, hentries.trans ?_⟩
  decide +kernel

end Trustgraphs.Mst
