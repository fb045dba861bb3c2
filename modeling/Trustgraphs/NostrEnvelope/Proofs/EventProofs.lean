import Trustgraphs.Lib.Readable
import Trustgraphs.Lib.JsonText
import Trustgraphs.NostrEnvelope.Event

/-!
# The preimage of an event is read back

The hand-written JSON of an event determines its fields: an escaped string is over at the first quote that
no escape begins, a number at its comma and a list at its bracket.
-/

namespace Trustgraphs.Nostr

open Text List

open Text (Str)
open Readable

def unescape : Bytes → Option (UInt8 × Bytes)
  | [] => none
  | byte :: rest =>
    if byte ≠ 92 then some (byte, rest)
    else match rest with
      | [] => none
      | kind :: rest =>
        if kind = 110 then some (10, rest)
        else if kind = 114 then some (13, rest)
        else if kind = 116 then some (9, rest)
        else if kind = 98 then some (8, rest)
        else if kind = 102 then some (12, rest)
        else if kind ≠ 117 then some (kind, rest)
        else match hexPairs (rest.take 4) with
          | some [_, byte] => some (byte, rest.drop 4)
          | _ => none

theorem hexPairs_control (k : Fin 32) : hexPairs [48, 48, hexDigit (k.val / 16), hexDigit (k.val % 16)] =
      some [0, UInt8.ofNat k.val] := by
  revert k
  decide

theorem unescape_escapeByte (byte : UInt8) (rest : Bytes) :
    unescape (escapeByte byte ++ rest) = some (byte, rest) := by
  unfold escapeByte
  by_cases h10 : byte = 10
  · rw [if_pos h10, h10]
    rfl
  rw [if_neg h10]
  by_cases h34 : byte = 34
  · rw [if_pos h34, h34]
    rfl
  rw [if_neg h34]
  by_cases h92 : byte = 92
  · rw [if_pos h92, h92]
    rfl
  rw [if_neg h92]
  by_cases h13 : byte = 13
  · rw [if_pos h13, h13]
    rfl
  rw [if_neg h13]
  by_cases h9 : byte = 9
  · rw [if_pos h9, h9]
    rfl
  rw [if_neg h9]
  by_cases h8 : byte = 8
  · rw [if_pos h8, h8]
    rfl
  rw [if_neg h8]
  by_cases h12 : byte = 12
  · rw [if_pos h12, h12]
    rfl
  rw [if_neg h12]
  by_cases hcontrol : byte ≤ 0x1f
  · have hlt : byte.toNat < 32 := by
      have h := UInt8.le_iff_toNat_le.mp hcontrol
      exact Nat.lt_succ_of_le h
    rw [if_pos hcontrol]
    show (match hexPairs [48, 48, hexDigit (byte.toNat / 16), hexDigit (byte.toNat % 16)] with
      | some [_, byte] => some (byte, rest)
      | _ => none) = _
    rw [hexPairs_control ⟨byte.toNat, hlt⟩]
    show some (UInt8.ofNat byte.toNat, rest) = _
    rw [UInt8.ofNat_toNat]
  · rw [if_neg hcontrol]
    show (if byte ≠ 92 then some (byte, rest) else _) = _
    rw [if_pos h92]

theorem escapeByte_not_quote (byte : UInt8) (rest : Bytes) : ¬ Begins 34 (escapeByte byte ++ rest) := by
  rintro ⟨t, ht⟩
  have hread := unescape_escapeByte byte rest
  rw [ht] at hread
  obtain ⟨rfl, rfl⟩ := Prod.mk.inj (Option.some.inj hread)
  -- a quote itself is written with a backslash
  exact absurd (List.cons.inj ht).1 (by decide)

theorem readable_escapeJson : Delimited (Begins 34) escapeJson := by
  have hbyte : Delimited Any escapeByte := Delimited.of_decode fun byte rest _ =>
    unescape_escapeByte byte rest
  have h := Delimited.flatMap hbyte escapeByte_not_quote
  intro a b r r' hr hr' heq
  obtain ⟨hbytes, hrest⟩ := h a.bytes b.bytes r r' hr hr' heq
  exact ⟨Str.ext hbytes, hrest⟩

theorem readable_quoted : Delimited Any quoted := readable_escapeJson.bracket (utf8 "\"")

theorem commas_eq_separated (items : List Bytes) : commas items = separated 44 items := by
  induction items with
  | nil => rfl
  | cons item items ih =>
    cases items with
    | nil => rfl
    | cons next items =>
      show item ++ utf8 "," ++ commas (next :: items) = item ++ 44 :: separated 44 (next :: items)
      rw [ih, append_assoc]
      rfl

def tagText (tag : List Str) : Bytes := utf8 "[" ++ commas (tag.map quoted) ++ utf8 "]"

theorem readable_tagText : Delimited Any tagText := by
  have h : Delimited (Begins 93) fun tag : List Str => separated 44 (tag.map quoted) := by
    refine Delimited.list (fun _ _ => trivial) readable_quoted ?_ (by decide)
    rintro value r ⟨t, ht⟩
    exact absurd (List.cons.inj ht).1 (by decide)
  have htext : tagText = fun tag => utf8 "[" ++ separated 44 (tag.map quoted) ++ [93] := by
    funext tag
    rw [tagText, commas_eq_separated]
    rfl
  rw [htext]
  exact h.bracket _

theorem readable_tags : Delimited (Begins 93) fun tags : List (List Str) => commas (tags.map tagText) := by
  simp only [commas_eq_separated]
  refine Delimited.list (fun _ _ => trivial) readable_tagText ?_ (by decide)
  rintro tag r ⟨t, ht⟩
  exact absurd (List.cons.inj ht).1 (by decide)

theorem decimal_injective : Function.Injective decimal := by
  -- the digits are read back as characters
  have hread : ∀ n, (decimal n).map (fun b => Char.ofNat b.toNat) = Nat.toDigits 10 n := by
    intro n
    rw [decimal, map_map]
    refine (map_congr_left fun c hc => ?_).trans (map_id _)
    have hdigit := Nat.isDigit_of_mem_toDigits (by decide) (by decide) hc
    simp only [Char.isDigit, Bool.and_eq_true, decide_eq_true_eq, UInt32.le_iff_toNat_le] at hdigit
    have hlt : c.toNat < 256 := lt_of_le_of_lt hdigit.2 (by decide)
    show Char.ofNat (UInt8.ofNat c.toNat).toNat = c
    rw [UInt8.toNat_ofNat_of_lt' hlt, Char.ofNat_toNat]
  intro m n h
  have hm := hread m
  rw [h, hread n] at hm
  rw [← Nat.ofDigitChars_toDigits (b := 10) (n := m) (by decide) (by decide), ← hm,
    Nat.ofDigitChars_toDigits (by decide) (by decide)]

theorem readable_decimal : Delimited (Begins 44) decimal := by
  refine Delimited.of_not_mem decimal_injective fun n hmem => ?_
  have h := JsonText.toNat_of_mem_decimal hmem
  exact absurd h.1 (by decide)

theorem readable_encodeHex : Delimited Any fun key : B256 => encodeHex key.bytes := by
  refine Delimited.of_length (fun a b h => FixedBytes.ext (encodeHex_injective h)) fun a b => ?_
  rw [length_encodeHex, length_encodeHex, a.size, b.size]

theorem nip01Preimage_eq (event : NostrEvent) : nip01Preimage event =
    utf8 "[0,\"" ++ (encodeHex event.pubkey.bytes ++ (utf8 "\"," ++
      (decimal event.created_at.toNat ++ (utf8 "," ++ (decimal event.kind.toNat ++
        (utf8 ",[" ++ (commas (event.tags.map tagText) ++ (utf8 "]," ++
          (quoted event.content ++ utf8 "]"))))))))) := by
  show utf8 "[0,\"" ++ encodeHex event.pubkey.bytes ++ utf8 "\"," ++
    decimal event.created_at.toNat ++ utf8 "," ++ decimal event.kind.toNat ++ utf8 ",[" ++
    commas (event.tags.map tagText) ++ utf8 "]," ++ quoted event.content ++ utf8 "]" = _
  simp only [append_assoc]

theorem nip01Preimage_inj {a b : NostrEvent} (h : nip01Preimage a = nip01Preimage b) :
    a.pubkey = b.pubkey ∧ a.created_at = b.created_at ∧ a.kind = b.kind ∧ a.tags = b.tags ∧
      a.content = b.content := by
  have hcomma : ∀ r, Begins 44 (utf8 "," ++ r) := fun r => ⟨r, rfl⟩
  have hlist : ∀ r, Begins 44 (utf8 ",[" ++ r) := fun r => ⟨_, rfl⟩
  have hclose : ∀ r, Begins 93 (utf8 "]," ++ r) := fun r => ⟨_, rfl⟩
  rw [nip01Preimage_eq, nip01Preimage_eq] at h
  have h := append_cancel_left h
  obtain ⟨hpubkey, h⟩ := readable_encodeHex _ _ _ _ trivial trivial h
  have h := append_cancel_left h
  obtain ⟨hcreated, h⟩ := readable_decimal _ _ _ _ (hcomma _) (hcomma _) h
  have h := append_cancel_left h
  obtain ⟨hkind, h⟩ := readable_decimal _ _ _ _ (hlist _) (hlist _) h
  have h := append_cancel_left h
  obtain ⟨htags, h⟩ := readable_tags _ _ _ _ (hclose _) (hclose _) h
  have h := append_cancel_left h
  obtain ⟨hcontent, -⟩ := readable_quoted _ _ _ _ trivial trivial h
  exact ⟨hpubkey, UInt64.toNat_inj.mp hcreated, UInt16.toNat_inj.mp hkind, htags, hcontent⟩

theorem id_of_verify {H : Hashes} {S : Schnorr} {event : NostrEvent} (h : verify H S event = .ok ()) :
    H.sha256 (nip01Preimage event) = event.id := by
  unfold verify at h
  by_contra hne
  rw [if_pos hne] at h
  exact absurd h (by simp)

/-- Two events with one preimage agree on what it writes; and verified events with one id agree on
everything but the signature. -/
theorem preimage_injective : (∀ a b : NostrEvent, nip01Preimage a = nip01Preimage b → a.pubkey = b.pubkey ∧
      a.created_at = b.created_at ∧ a.kind = b.kind ∧ a.tags = b.tags ∧ a.content = b.content) ∧
    ∀ (H : Hashes) (S : Schnorr) (a b : NostrEvent),
      Set.InjOn H.sha256 {nip01Preimage a, nip01Preimage b} → verify H S a = .ok () →
        verify H S b = .ok () → a.id = b.id → { a with sig := b.sig } = b := by
  refine ⟨fun a b h => nip01Preimage_inj h, fun H S a b hfree ha hb hid => ?_⟩
  have hhash : H.sha256 (nip01Preimage a) = H.sha256 (nip01Preimage b) := by
    rw [id_of_verify ha, id_of_verify hb, hid]
  have hpreimage := hfree (by simp) (by simp) hhash
  obtain ⟨hpubkey, hcreated, hkind, htags, hcontent⟩ := nip01Preimage_inj hpreimage
  cases a
  cases b
  simp only at hpubkey hcreated hkind htags hcontent hid
  subst hpubkey hcreated hkind htags hcontent hid
  rfl

namespace EventExample

def key : B256 := ⟨[
  249, 48, 138, 1, 146, 88, 195, 16, 73, 52, 79, 133, 248, 157, 82, 41, 181, 49, 200, 69, 131, 111,
  153, 176, 134, 1, 241, 19, 188, 224, 54, 249], rfl⟩

def noteId : B256 := ⟨[
  245, 176, 204, 240, 166, 42, 14, 230, 175, 152, 78, 140, 33, 232, 197, 232, 70, 181, 141, 107,
  143, 152, 160, 14, 255, 102, 77, 152, 123, 235, 182, 147], rfl⟩

def firstSig : Bytes := [
  124, 173, 82, 56, 98, 65, 66, 195, 180, 140, 159, 100, 43, 63, 84, 33, 167, 38, 199, 213, 249,
  14, 255, 44, 47, 167, 206, 125, 25, 26, 94, 253, 12, 255, 34, 94, 140, 8, 134, 45, 30, 49, 212,
  15, 186, 157, 16, 178, 109, 107, 200, 36, 126, 75, 195, 218, 179, 247, 213, 134, 60, 59, 183, 150]

def secondSig : Bytes := [
  228, 208, 60, 20, 168, 228, 61, 159, 201, 98, 198, 93, 19, 168, 239, 251, 233, 9, 41, 74, 102,
  243, 226, 202, 0, 13, 193, 8, 14, 210, 220, 190, 93, 82, 192, 131, 182, 0, 201, 43, 71, 89, 94,
  112, 172, 46, 103, 175, 154, 63, 0, 40, 184, 160, 6, 80, 201, 231, 101, 115, 106, 202, 170, 123]

def note (sig : Bytes) : NostrEvent :=
  ⟨noteId, key, 5, 1, [[⟨utf8 "t", by decide⟩, ⟨utf8 "a\"b", by decide⟩]], ⟨utf8 "hi\n", by decide⟩, sig⟩

def hashes : Hashes := ⟨fun _ => 0, fun s => if s = nip01Preimage (note []) then noteId else 0⟩

def schnorr : Schnorr where
  keyOk k := k = key
  signatureOk sig := sig = firstSig || sig = secondSig
  verifyPrehash k digest sig := k = key && digest = noteId && (sig = firstSig || sig = secondSig)

end EventExample

open EventExample in
/-- One note under two signatures. -/
theorem preimage_injective_note : (note firstSig).content = (note secondSig).content ∧
      { note firstSig with sig := secondSig } = note secondSig := by
  have hpreimage : nip01Preimage (note firstSig) = nip01Preimage (note secondSig) := rfl
  have hfree : Set.InjOn hashes.sha256
      {nip01Preimage (note firstSig), nip01Preimage (note secondSig)} := by
    rw [hpreimage, Set.pair_eq_singleton]
    exact Set.injOn_singleton _ _
  have hverify : verify hashes schnorr (note firstSig) = .ok () ∧
      verify hashes schnorr (note secondSig) = .ok () := by
    decide +kernel
  exact ⟨(preimage_injective.1 _ _ rfl).2.2.2.2,
    preimage_injective.2 hashes schnorr _ _ hfree hverify.1 hverify.2 rfl⟩

end Trustgraphs.Nostr
