import Trustgraphs.CompositionCore.Proofs.BlobProofs

/-!
# Reading a canonical blob (`composition-core/src/blob.rs`)

The decoder accepts what the canonical writer writes and nothing else. Of the JSON parser it takes that an
object of plain strings is read back as it was written.
-/

namespace Trustgraphs

namespace Text

open List

theorem decimal_eq (n : ℕ) : decimal n =
    if n < 10 then [UInt8.ofNat (48 + n)] else decimal (n / 10) ++ [UInt8.ofNat (48 + n % 10)] := by
  have hchar : ∀ d < 10, UInt8.ofNat (Nat.digitChar d).toNat = UInt8.ofNat (48 + d) := by decide
  unfold decimal
  rw [Nat.toDigits_eq_if (by decide)]
  split
  · rename_i h
    rw [List.map_singleton, hchar n h]
  · rw [map_append, List.map_singleton, hchar (n % 10) (Nat.mod_lt n (by decide))]

theorem toNat_digit {d : ℕ} (h : d < 10) : (UInt8.ofNat (48 + d)).toNat = 48 + d := by
  rw [UInt8.toNat_ofNat', Nat.mod_eq_of_lt (by omega)]

theorem digitsValue_decimal (n : ℕ) : digitsValue (decimal n) = n := by
  induction n using Nat.strongRecOn with
  | ind n ih =>
    rw [decimal_eq]
    split
    · rename_i h
      show 0 * 10 + ((UInt8.ofNat (48 + n)).toNat - 48) = n
      rw [toNat_digit h]
      omega
    · rename_i h
      rw [digitsValue_append_singleton, ih (n / 10) (by omega), toNat_digit (Nat.mod_lt n (by decide))]
      omega

theorem isDigit_digit {d : ℕ} (h : d < 10) : isDigit (UInt8.ofNat (48 + d)) = true := by
  have hall : ∀ d < 10, isDigit (UInt8.ofNat (48 + d)) = true := by decide
  exact hall d h

theorem decimal_numeral (n : ℕ) : (decimal n).all isDigit = true ∧ decimal n ≠ [] ∧
    (n ≠ 0 → (decimal n).head? ≠ some 48) := by
  induction n using Nat.strongRecOn with
  | ind n ih =>
    rw [decimal_eq]
    split
    · rename_i h
      refine ⟨?_, cons_ne_nil _ _, fun hn hhead => hn ?_⟩
      · rw [all_cons, isDigit_digit h]
        rfl
      · have hdigit := congrArg UInt8.toNat (Option.some.inj hhead)
        rw [toNat_digit h] at hdigit
        have h48 : (48 : UInt8).toNat = 48 := rfl
        omega
    · rename_i h
      obtain ⟨hall, hne, hhead⟩ := ih (n / 10) (by omega)
      refine ⟨?_, by simp, fun _ => ?_⟩
      · rw [all_append, hall, all_cons, isDigit_digit (Nat.mod_lt n (by decide))]
        rfl
      · rw [head?_append_of_ne_nil _ hne]
        exact hhead (by omega)

end Text

namespace Json

/-- A string that is written as it is: printable ASCII without quotes and backslashes. -/
def Plain (s : Bytes) : Prop := ∀ b ∈ s, 32 ≤ b ∧ b < 127 ∧ b ≠ 34 ∧ b ≠ 92

instance (s : Bytes) : Decidable (Plain s) := inferInstanceAs (Decidable (∀ b ∈ s, _))

def memberText (member : Bytes × Bytes) : Bytes :=
  utf8 "\"" ++ member.1 ++ utf8 "\":\"" ++ member.2 ++ utf8 "\""

def objectText (members : List (Bytes × Bytes)) : Bytes :=
  utf8 "\x7b" ++ List.intercalate (utf8 ",") (members.map memberText) ++ utf8 "\x7d"

/-- What the decoder takes of the JSON parser: an object of plain strings under distinct names is read as
the map of its members. -/
def ReadsObjects (fromSlice : Bytes → Option (BTreeMap Bytes Bytes)) : Prop :=
  ∀ members : List (Bytes × Bytes), (members.map Prod.fst).Nodup →
    (∀ member ∈ members, Plain member.1 ∧ Plain member.2) →
    fromSlice (objectText members) = some (BTreeMap.ofEntries members)

end Json

namespace Composition

open Outcome Related

theorem hexEncode_eq (l : Bytes) : hexEncode l = Text.encodeHex l := by
  have hall : ∀ n : Fin 256, [Trustgraphs.hexDigit (UInt8.ofNat n / 16),
      Trustgraphs.hexDigit (UInt8.ofNat n % 16)] =
      [Text.hexDigit (n / 16), Text.hexDigit (n % 16)] := by
    decide +kernel
  unfold hexEncode Text.encodeHex
  refine List.flatMap_congr fun b _ => ?_
  have hb := hall ⟨b.toNat, b.toNat_lt⟩
  rw [UInt8.ofNat_toNat] at hb
  exact hb

def member (e : Address × U128) : Bytes × Bytes :=
  (utf8 "0x" ++ Text.encodeHex e.1.bytes, Text.decimal e.2.toNat)

theorem blobEntry_eq (e : Address × U128) :
    blobEntry e.1.bytes (e.2.setWidth 256) = Json.memberText (member e) := by
  have hquote : utf8 "\"0x" = utf8 "\"" ++ utf8 "0x" := by decide
  have hvalue : (e.2.setWidth 256).toNat = e.2.toNat := by
    rw [BitVec.toNat_setWidth, Nat.mod_eq_of_lt (e.2.isLt.trans (by decide))]
  unfold blobEntry Json.memberText member
  rw [hexEncode_eq, hvalue, hquote]
  simp only [List.append_assoc]
  rfl

theorem canonicalBlob_eq (entries : List (Address × U128)) :
    canonicalBlob (scoresOf entries) = Json.objectText (entries.map member) := by
  have hentries : (scoresOf entries).map (fun e => blobEntry e.1.bytes e.2) =
      (entries.map member).map Json.memberText := by
    unfold scoresOf
    rw [List.map_map, List.map_map]
    exact List.map_congr_left fun e _ => blobEntry_eq e
  unfold canonicalBlob Json.objectText
  rw [hentries]

theorem isLowerHex_hexDigit {n : ℕ} (h : n < 16) : isLowerHex (Text.hexDigit n) = true := by
  have hall : ∀ n < 16, isLowerHex (Text.hexDigit n) = true := by decide
  exact hall n h

theorem all_isLowerHex (l : Bytes) : (Text.encodeHex l).all isLowerHex = true := by
  rw [List.all_eq_true]
  intro b hb
  obtain ⟨a, -, hb⟩ := List.mem_flatMap.mp hb
  have ha := a.toNat_lt
  rcases List.mem_pair.mp hb with rfl | rfl
  · exact isLowerHex_hexDigit (by omega)
  · exact isLowerHex_hexDigit (by omega)

theorem decodeHexPairs_encodeHex (l : Bytes) : decodeHexPairs (Text.encodeHex l) = some l := by
  have hdigit : ∀ n < 16, hexDigitValue (Text.hexDigit n) = some (UInt8.ofNat n) := by decide
  induction l with
  | nil => rfl
  | cons b l ih =>
    have hb := b.toNat_lt
    show decodeHexPairs (Text.hexDigit (b.toNat / 16) :: Text.hexDigit (b.toNat % 16) :: Text.encodeHex l) = _
    have hbyte : UInt8.ofNat (b.toNat / 16) * 16 + UInt8.ofNat (b.toNat % 16) = b := by
      have hall : ∀ n : Fin 256, UInt8.ofNat (n / 16) * 16 + UInt8.ofNat (n % 16) = UInt8.ofNat n := by
        decide +kernel
      have := hall ⟨b.toNat, hb⟩
      rw [UInt8.ofNat_toNat] at this
      exact this
    rw [decodeHexPairs, hdigit (b.toNat / 16) (by omega), hdigit (b.toNat % 16) (by omega), ih]
    exact congrArg (fun b => some (b :: l)) hbyte

theorem accountInvalid_member (e : Address × U128) : accountInvalid (member e).1 = false := by
  have hlength : (member e).1.length = 42 := by
    show (utf8 "0x" ++ Text.encodeHex e.1.bytes).length = 42
    rw [List.length_append, Text.length_encodeHex, e.1.size]
    rfl
  have hstart : Text.startsWith (utf8 "0x") (member e).1 = true :=
    List.isPrefixOf_iff_prefix.mpr (List.prefix_append ..)
  have hdrop : (member e).1.drop 2 = Text.encodeHex e.1.bytes := rfl
  unfold accountInvalid
  rw [hlength, hstart, hdrop, all_isLowerHex]
  rfl

theorem decodeAddress_member (e : Address × U128) : decodeAddress ((member e).1.drop 2) = some e.1 := by
  show (decodeHexPairs (Text.encodeHex e.1.bytes)).bind (FixedBytes.ofSlice 20) = some e.1
  rw [decodeHexPairs_encodeHex, Option.bind_some, FixedBytes.ofSlice_eq_some]

theorem valueInvalid_member {e : Address × U128} (he : e.2 ≠ 0) : valueInvalid (member e).2 = false := by
  obtain ⟨hall, hne, hhead⟩ := Text.decimal_numeral e.2.toNat
  have hhead := hhead fun hzero => he (BitVec.eq_of_toNat_eq hzero)
  have hzeroBytes : utf8 "0" = [48] := by decide
  show valueInvalid (Text.decimal e.2.toNat) = false
  cases hdigits : Text.decimal e.2.toNat with
  | nil => exact absurd hdigits hne
  | cons b l =>
    rw [hdigits] at hall hhead
    have hb : b ≠ 48 := fun hb => hhead (hb ▸ rfl)
    have hstart : Text.startsWith (utf8 "0") (b :: l) = false := by
      rw [hzeroBytes, Text.startsWith, List.isPrefixOf, beq_false_of_ne hb.symm]
      rfl
    have hzero : (b :: l == utf8 "0") = false := by
      rw [hzeroBytes, beq_eq_false_iff_ne]
      exact fun h => hb (List.cons.inj h).1
    unfold valueInvalid
    rw [hall, hstart, hzero, Bool.and_false]
    rfl

theorem parseUnsigned_member (e : Address × U128) :
    Text.parseUnsigned (2 ^ 128 - 1) (member e).2 = some e.2.toNat := by
  obtain ⟨hall, hne, -⟩ := Text.decimal_numeral e.2.toNat
  have hvalue := Text.digitsValue_decimal e.2.toNat
  have hlt := e.2.isLt
  show Text.parseUnsigned (2 ^ 128 - 1) (Text.decimal e.2.toNat) = _
  generalize Text.decimal e.2.toNat = digits at hall hne hvalue
  have hstrip : Text.stripPrefix [43] digits = none := by
    cases hs : Text.stripPrefix [43] digits with
    | none => rfl
    | some r =>
      rw [Text.stripPrefix_eq_some.mp hs, List.all_append, Bool.and_eq_true] at hall
      exact absurd hall.1 (by decide)
  unfold Text.parseUnsigned
  rw [hstrip, Option.getD_none]
  dsimp only
  rw [if_pos ⟨hne, hall, by omega⟩, hvalue]

theorem decodeEntry_member {e : Address × U128} (he : e.2 ≠ 0) : decodeEntry (member e) = .ok e := by
  unfold decodeEntry
  rw [accountInvalid_member, if_neg Bool.false_ne_true, decodeAddress_member]
  dsimp only
  rw [valueInvalid_member he, if_neg Bool.false_ne_true, parseUnsigned_member]
  dsimp only
  rw [BitVec.ofNat_toNat, BitVec.setWidth_eq]

theorem member_lt {e e' : Address × U128} (h : e.1 < e'.1) : (member e).1 < (member e').1 := by
  have hhex : Text.encodeHex e.1.bytes < Text.encodeHex e'.1.bytes := encodeHex_lt h
  have h0x : utf8 "0x" = [48, 120] := by decide
  show utf8 "0x" ++ Text.encodeHex e.1.bytes < utf8 "0x" ++ Text.encodeHex e'.1.bytes
  rw [h0x]
  exact List.cons_lt_cons_iff.mpr (Or.inr ⟨rfl, List.cons_lt_cons_iff.mpr (Or.inr ⟨rfl, hhex⟩)⟩)

theorem plain_member (e : Address × U128) : Json.Plain (member e).1 ∧ Json.Plain (member e).2 := by
  constructor
  · have hprefix : Json.Plain (utf8 "0x") := by decide +kernel
    have hdigit : ∀ n < 16, 32 ≤ Text.hexDigit n ∧ Text.hexDigit n < 127 ∧ Text.hexDigit n ≠ 34 ∧
        Text.hexDigit n ≠ 92 := by
      decide
    intro b hb
    rcases List.mem_append.mp hb with hb | hb
    · exact hprefix b hb
    · obtain ⟨a, -, hb⟩ := List.mem_flatMap.mp hb
      have ha := a.toNat_lt
      rcases List.mem_pair.mp hb with rfl | rfl
      · exact hdigit _ (by omega)
      · exact hdigit _ (by omega)
  · have hall := (Text.decimal_numeral e.2.toNat).1
    intro b hb
    have hdigit := Text.toNat_of_isDigit (List.all_eq_true.mp hall b hb)
    refine ⟨?_, ?_, ?_, ?_⟩
    · rw [UInt8.le_iff_toNat_le]
      exact le_trans (by decide) hdigit.1
    · rw [UInt8.lt_iff_toNat_lt]
      exact lt_of_le_of_lt hdigit.2 (by decide)
    · rintro rfl
      exact absurd hdigit.1 (by decide)
    · rintro rfl
      exact absurd hdigit.2 (by decide)

variable {fromSlice : Bytes → Option (BTreeMap Bytes Bytes)}

theorem decode_canonicalBlob (hjson : Json.ReadsObjects fromSlice) {entries : List (Address × U128)}
    (hne : entries ≠ []) (hsorted : (entries.map Prod.fst).Pairwise (· < ·)) (hpos : ∀ e ∈ entries, e.2 ≠ 0) :
    decodeCanonicalScoreBlob fromSlice (canonicalBlob (scoresOf entries)) = .ok entries := by
  have hkeys : ((entries.map member).map Prod.fst).Pairwise (· < ·) := by
    rw [List.map_map, List.pairwise_map]
    exact (List.pairwise_map.mp hsorted).imp fun h => member_lt h
  have hread : fromSlice (canonicalBlob (scoresOf entries)) = some (BTreeMap.ofEntries (entries.map member)) := by
    rw [canonicalBlob_eq]
    refine hjson _ (hkeys.imp fun h => h.ne) fun m hm => ?_
    obtain ⟨e, -, rfl⟩ := List.mem_map.mp hm
    exact plain_member e
  have hlist := BTreeMap.toList_ofEntries hkeys
  have hempty : (BTreeMap.ofEntries (entries.map member)).isEmpty = false := by
    rw [Std.ExtTreeMap.isEmpty_eq_size_beq_zero, ← Std.ExtTreeMap.length_toList, hlist, List.length_map,
      beq_eq_false_iff_ne]
    exact fun h => hne (List.eq_nil_of_length_eq_zero h)
  have hmapM : (entries.map member).mapM decodeEntry = .ok entries := by
    rw [mapM_eq_ok, List.forall₂_map_left_iff]
    exact List.forall₂_same.mpr fun e he => decodeEntry_member (hpos e he)
  unfold decodeCanonicalScoreBlob
  rw [hread]
  dsimp only
  rw [hempty, if_neg Bool.false_ne_true, hlist, hmapM, ok_bind, if_neg (not_not.mpr rfl)]

/-- Scores that a source may have, in their canonical order. -/
structure Canonical (scores : List (Address × U256)) : Prop where
  ne_nil : scores ≠ []
  sorted : (scores.map Prod.fst).Pairwise (· < ·)
  bounded : ∀ e ∈ scores, 1 ≤ e.2.toNat ∧ e.2.toNat ≤ 2 ^ 128 - 1

theorem canonical_scoresOf {entries : List (Address × U128)} (hne : entries ≠ [])
    (hsorted : (entries.map Prod.fst).Pairwise (· < ·)) (hpos : ∀ e ∈ entries, e.2 ≠ 0) :
    Canonical (scoresOf entries) := by
  refine ⟨fun h => hne (List.map_eq_nil_iff.mp h), ?_, fun s hs => ?_⟩
  · unfold scoresOf
    rw [List.map_map]
    exact hsorted
  · obtain ⟨e, he, rfl⟩ := List.mem_map.mp hs
    have hlt := e.2.isLt
    have hne : e.2.toNat ≠ 0 := fun hzero => hpos e he (BitVec.eq_of_toNat_eq hzero)
    show 1 ≤ (e.2.setWidth 256).toNat ∧ (e.2.setWidth 256).toNat ≤ 2 ^ 128 - 1
    rw [BitVec.toNat_setWidth, Nat.mod_eq_of_lt (hlt.trans (by decide))]
    omega

theorem Canonical.exists_scoresOf {scores : List (Address × U256)} (h : Canonical scores) :
    ∃ entries : List (Address × U128), scoresOf entries = scores ∧ entries ≠ [] ∧
      (entries.map Prod.fst).Pairwise (· < ·) ∧ ∀ e ∈ entries, e.2 ≠ 0 := by
  have hnarrow : ∀ s ∈ scores, (s.2.setWidth 128).toNat = s.2.toNat := by
    intro s hs
    have hs := (h.bounded s hs).2
    rw [BitVec.toNat_setWidth, Nat.mod_eq_of_lt (by omega)]
  refine ⟨scores.map fun s => (s.1, s.2.setWidth 128), ?_, fun hnil =>
    h.ne_nil (List.map_eq_nil_iff.mp hnil), ?_, ?_⟩
  · have hsame : ∀ s ∈ scores, ((s.1, (s.2.setWidth 128).setWidth 256) : Address × U256) = s := by
      intro s hs
      refine Prod.ext rfl (BitVec.eq_of_toNat_eq ?_)
      dsimp only
      rw [BitVec.toNat_setWidth, hnarrow s hs, Nat.mod_eq_of_lt s.2.isLt]
    unfold scoresOf
    rw [List.map_map]
    exact (List.map_congr_left hsame).trans (List.map_id scores)
  · rw [List.map_map]
    exact h.sorted
  · intro e he hzero
    obtain ⟨s, hs, rfl⟩ := List.mem_map.mp he
    have hpos := (h.bounded s hs).1
    have hnat := congrArg BitVec.toNat hzero
    dsimp only at hnat
    rw [hnarrow s hs] at hnat
    have h0 : (0 : U128).toNat = 0 := rfl
    omega

/-- The decoder accepts the canonical blobs and nothing else, and reads the scores that they were written
from. -/
theorem decode_inverse (fromSlice : Bytes → Option (BTreeMap Bytes Bytes))
    (hjson : Json.ReadsObjects fromSlice) (blob : Bytes) :
    ((∃ entries, decodeCanonicalScoreBlob fromSlice blob = .ok entries) ↔
        ∃ scores, Canonical scores ∧ blob = canonicalBlob scores) ∧
      (∀ scores, Canonical scores → blob = canonicalBlob scores →
        ∃ entries, decodeCanonicalScoreBlob fromSlice blob = .ok entries ∧ scoresOf entries = scores) ∧
      ∀ blob' entries, decodeCanonicalScoreBlob fromSlice blob = .ok entries →
        decodeCanonicalScoreBlob fromSlice blob' = .ok entries → blob = blob' := by
  have hread : ∀ scores, Canonical scores → blob = canonicalBlob scores →
      ∃ entries, decodeCanonicalScoreBlob fromSlice blob = .ok entries ∧ scoresOf entries = scores := by
    rintro scores hscores rfl
    obtain ⟨entries, rfl, hne, hsorted, hpos⟩ := hscores.exists_scoresOf
    exact ⟨entries, decode_canonicalBlob hjson hne hsorted hpos, rfl⟩
  refine ⟨⟨?_, ?_⟩, hread, ?_⟩
  · rintro ⟨entries, h⟩
    have hdecoded := decoded_of_decode h
    exact ⟨scoresOf entries, canonical_scoresOf hdecoded.ne_nil hdecoded.sorted hdecoded.pos,
      hdecoded.canonical.symm⟩
  · rintro ⟨scores, hscores, hblob⟩
    obtain ⟨entries, h, -⟩ := hread scores hscores hblob
    exact ⟨entries, h⟩
  · intro blob' entries h h'
    exact (decoded_of_decode h).canonical.symm.trans (decoded_of_decode h').canonical

namespace BlobExample

def readMembers : (fuel : ℕ) → (text : Bytes) → Option (List (Bytes × Bytes))
  | 0, _ => none
  | fuel + 1, text => do
    let text ← Text.stripPrefix (utf8 "\"") text
    let (name, text) ← Text.splitOnce 34 text
    let text ← Text.stripPrefix (utf8 ":\"") text
    let (value, text) ← Text.splitOnce 34 text
    if ¬ (Json.Plain name ∧ Json.Plain value) then none
    else if text = utf8 "\x7d" then some [(name, value)]
    else do
      let text ← Text.stripPrefix (utf8 ",") text
      let members ← readMembers fuel text
      some ((name, value) :: members)

def readObject (text : Bytes) : Option (BTreeMap Bytes Bytes) :=
  if text = utf8 "\x7b\x7d" then some ∅
  else do
    let text ← Text.stripPrefix (utf8 "\x7b") text
    let members ← readMembers text.length text
    some (BTreeMap.ofEntries members)

theorem quote_not_mem {s : Bytes} (h : Json.Plain s) : (34 : UInt8) ∉ s := fun hm => (h 34 hm).2.2.1 rfl

theorem readMembers_member {m : Bytes × Bytes} (hplain : Json.Plain m.1 ∧ Json.Plain m.2) (fuel : ℕ)
    (rest : Bytes) : readMembers (fuel + 1) (Json.memberText m ++ rest) =
      if rest = utf8 "\x7d" then some [m]
      else (Text.stripPrefix (utf8 ",") rest).bind fun text =>
        (readMembers fuel text).bind fun members => some (m :: members) := by
  have hquote : utf8 "\"" = [34] := by decide
  have hcolon : utf8 "\":\"" = 34 :: utf8 ":\"" := by decide
  have hopen : Text.stripPrefix (utf8 "\"") (Json.memberText m ++ rest) =
      some (m.1 ++ 34 :: (utf8 ":\"" ++ (m.2 ++ 34 :: rest))) := by
    rw [Text.stripPrefix_eq_some]
    unfold Json.memberText
    rw [hcolon, hquote]
    simp only [List.append_assoc, List.cons_append, List.nil_append]
  have hname : Text.splitOnce 34 (m.1 ++ 34 :: (utf8 ":\"" ++ (m.2 ++ 34 :: rest))) =
      some (m.1, utf8 ":\"" ++ (m.2 ++ 34 :: rest)) :=
    Text.splitOnce_eq_some.mpr ⟨rfl, quote_not_mem hplain.1⟩
  have hvalue : Text.splitOnce 34 (m.2 ++ 34 :: rest) = some (m.2, rest) :=
    Text.splitOnce_eq_some.mpr ⟨rfl, quote_not_mem hplain.2⟩
  rw [readMembers, hopen]
  simp only [Option.bind_eq_bind, Option.bind_some]
  rw [hname]
  simp only [Option.bind_some]
  rw [Text.stripPrefix_eq_some.mpr rfl, Option.bind_some, hvalue]
  simp only [Option.bind_some]
  rw [if_neg (not_not.mpr hplain)]

theorem readMembers_object {members : List (Bytes × Bytes)} (hne : members ≠ [])
    (hplain : ∀ m ∈ members, Json.Plain m.1 ∧ Json.Plain m.2) {fuel : ℕ} (hfuel : members.length ≤ fuel) :
    readMembers fuel (List.intercalate (utf8 ",") (members.map Json.memberText) ++ utf8 "\x7d") = some members := by
  induction members generalizing fuel with
  | nil => exact absurd rfl hne
  | cons m members ih =>
    obtain ⟨k, rfl⟩ : ∃ k, fuel = k + 1 := Nat.exists_eq_add_one.mpr (by rw [List.length_cons] at hfuel; omega)
    have hm := hplain m List.mem_cons_self
    cases members with
    | nil =>
      have hsingle : List.intercalate (utf8 ",") ([m].map Json.memberText) = Json.memberText m :=
        List.append_nil _
      rw [hsingle, readMembers_member hm, if_pos rfl]
    | cons next members =>
      have hcomma : utf8 "," = [44] := by decide
      have hclose : utf8 "\x7d" = [125] := by decide
      have hcons : List.intercalate (utf8 ",") ((m :: next :: members).map Json.memberText) ++ utf8 "\x7d" =
          Json.memberText m ++ (utf8 "," ++
            (List.intercalate (utf8 ",") ((next :: members).map Json.memberText) ++ utf8 "\x7d")) := by
        rw [List.map_cons, List.map_cons, List.intercalate_cons_cons]
        simp only [List.append_assoc]
      have hmore : utf8 "," ++ (List.intercalate (utf8 ",")
          ((next :: members).map Json.memberText) ++ utf8 "\x7d") ≠
          utf8 "\x7d" := by
        rw [hcomma, hclose]
        exact fun h => absurd (List.cons.inj h).1 (by decide)
      have hk : (next :: members).length ≤ k := by rw [List.length_cons] at hfuel; omega
      have hrest := ih (List.cons_ne_nil _ _) (fun x hx => hplain x (List.mem_cons_of_mem _ hx)) hk
      rw [hcons, readMembers_member hm, if_neg hmore, Text.stripPrefix_eq_some.mpr rfl, Option.bind_some, hrest,
        Option.bind_some]

theorem length_members (members : List (Bytes × Bytes)) :
    members.length ≤ (List.intercalate (utf8 ",") (members.map Json.memberText)).length := by
  induction members with
  | nil => exact Nat.zero_le _
  | cons m members ih =>
    have hquote : (utf8 "\"").length = 1 := by decide
    have hmember : 1 ≤ (Json.memberText m).length := by
      unfold Json.memberText
      simp only [List.length_append]
      omega
    cases members with
    | nil =>
      show 1 ≤ (Json.memberText m ++ []).length
      rw [List.append_nil]
      exact hmember
    | cons next members =>
      rw [List.map_cons, List.map_cons, List.intercalate_cons_cons, List.length_cons]
      rw [List.map_cons] at ih
      simp only [List.length_append]
      omega

theorem readsObjects_readObject : Json.ReadsObjects readObject := by
  intro members hkeys hplain
  have hopen : utf8 "\x7b" = [123] := by decide
  have hclose : utf8 "\x7d" = [125] := by decide
  have hempty : utf8 "\x7b\x7d" = [123, 125] := by decide
  by_cases hne : members = []
  · subst hne
    have htext : Json.objectText [] = utf8 "\x7b\x7d" := by decide
    rw [htext, readObject, if_pos rfl]
    rfl
  · have htext : Json.objectText members = utf8 "\x7b" ++
        (List.intercalate (utf8 ",") (members.map Json.memberText) ++ utf8 "\x7d") := by
      rw [Json.objectText, List.append_assoc]
    have hlength := length_members members
    have hsome : Json.objectText members ≠ utf8 "\x7b\x7d" := by
      intro h
      have hlen := congrArg List.length h
      rw [htext, hopen, hclose, hempty] at hlen
      simp only [List.length_append, List.length_cons, List.length_nil] at hlen
      have hpos := List.length_pos_iff.mpr hne
      omega
    rw [readObject, if_neg hsome, htext, Text.stripPrefix_eq_some.mpr rfl]
    simp only [Option.bind_eq_bind, Option.bind_some]
    rw [readMembers_object hne hplain (by rw [List.length_append]; omega), Option.bind_some]

def entry1 : Address × U128 := (.replicate 20 0xab, 7)

def entry2 : Address × U128 := (.replicate 20 0xcd, 120)

end BlobExample

open BlobExample in
/-- A blob of two scores. -/
theorem decode_inverse_two_scores : Canonical (scoresOf [entry1, entry2]) ∧
    ∃ entries, decodeCanonicalScoreBlob readObject (canonicalBlob (scoresOf [entry1, entry2])) = .ok entries ∧
      scoresOf entries = scoresOf [entry1, entry2] := by
  have hcanonical : Canonical (scoresOf [entry1, entry2]) :=
    canonical_scoresOf (List.cons_ne_nil _ _) (by decide +kernel) (by decide +kernel)
  exact ⟨hcanonical, (decode_inverse readObject readsObjects_readObject _).2.1 _ hcanonical rfl⟩

end Composition

end Trustgraphs
