import Trustgraphs.ContributionsCore.Proofs.ReconcileProofs

/-!
# Claim records

An encoded claim is decoded again as long as the decoder reads the offset of its shares.
-/

namespace Trustgraphs.Contributions

open List Option

variable {data l r : Bytes}

theorem word_of_append (slot : ℕ) {w : B256} (hdata : data = l ++ (w.bytes ++ r)) (hlen : l.length = slot * 32) :
    word data slot = some w := by
  have hlt : ¬ data.length < slot * 32 + 32 := by
    rw [hdata, length_append, length_append, hlen, w.size]
    omega
  unfold word
  dsimp only
  rw [if_neg hlt, hdata, ← hlen, drop_left, take_append_of_le_length w.size.ge, take_of_length_le w.size.le]
  exact FixedBytes.ofSlice_eq_some.mpr rfl

theorem wordAsUsize_ofNat {n : ℕ} (h : n < 2 ^ 32) : wordAsUsize (.ofNat 32 n) = some n := by
  have hvalue : ofBeBytes (FixedBytes.ofNat 32 n).bytes = n :=
    (ofBeBytes_beBytes 32 n).trans (Nat.mod_eq_of_lt (h.trans (by norm_num)))
  unfold wordAsUsize
  rw [hvalue]
  exact if_neg (by omega)

theorem length_dynBytes (b : Bytes) : (dynBytes b).length = 32 + (b.length + 31) / 32 * 32 := by
  unfold dynBytes
  rw [length_append, length_append, length_beBytes, length_replicate]
  omega

theorem checkDynamicBytes_of_append (offset : ℕ) {b : Bytes} (hdata : data = l ++ (dynBytes b ++ r))
    (hlen : l.length = offset) (halign : offset % 32 = 0) (hb : b.length < 2 ^ 32) :
    checkDynamicBytes data offset = some () := by
  have hword : word data (offset / 32) = some (.ofNat 32 b.length) := by
    refine word_of_append (l := l) _ (r := b ++ (replicate ((32 - b.length % 32) % 32) 0 ++ r)) ?_ (by omega)
    rw [hdata, dynBytes, append_assoc, append_assoc]
    rfl
  have hlt : ¬ data.length < offset + 32 + b.length := by
    rw [hdata, length_append, length_append, hlen, length_dynBytes]
    omega
  unfold checkDynamicBytes
  rw [if_neg (not_not.mpr halign), hword, bind_eq_bind, bind_some, bind_eq_bind, wordAsUsize_ofNat hb, bind_some]
  exact if_neg hlt

/-- The elements of an encoded array are the ones it was made from. -/
theorem elements_of_append {α : Type} {decode : B256 → Option α} {encode : α → B256}
    (hdecode : ∀ x, decode (encode x) = some x) (offset : ℕ) {xs : List α}
    (hdata : data = l ++ ((xs.flatMap fun x => (encode x).bytes) ++ r))
    (hlen : l.length = (offset / 32 + 1) * 32) : elements decode data offset xs.length = some xs := by
  have hfrom : ∀ k, l.length = (offset / 32 + 1 + k) * 32 → (range' k xs.length).mapM (fun i => do
      decode (← word data (offset / 32 + 1 + i))) = some xs := by
    clear hlen
    induction xs generalizing l with
    | nil => exact fun _ _ => rfl
    | cons x xs ih =>
      intro k hk
      rw [flatMap_cons, append_assoc] at hdata
      have hrest := @ih (l ++ (encode x).bytes) (by rw [hdata, append_assoc]) (k + 1) (by
        rw [length_append, hk, (encode x).size]
        ring)
      rw [length_cons, range'_succ, mapM_cons, word_of_append _ hdata hk, hrest]
      simp [hdecode]
  unfold elements
  rw [range_eq_range']
  exact hfrom 0 hlen

def addressWord (a : Address) : B256 := ⟨wordAddr a, by simp [wordAddr]⟩

theorem wordAsAddress_addressWord (a : Address) : wordAsAddress (addressWord a) = some a := by
  unfold wordAsAddress addressWord wordAddr
  rw [if_neg (by simp)]
  exact FixedBytes.ofSlice_eq_some.mpr (by simp)

def u32Word (x : UInt32) : B256 := ⟨wordU32 x, by simp [wordU32]⟩

theorem wordAsU32_u32Word (x : UInt32) : wordAsU32 (u32Word x) = some x := by
  have hvalue : ofBeBytes (beBytes 4 x.toNat) = x.toNat :=
    (ofBeBytes_beBytes 4 x.toNat).trans (Nat.mod_eq_of_lt x.toNat_lt)
  have hdrop : (replicate 28 0 ++ beBytes 4 x.toNat).drop 28 = beBytes 4 x.toNat := rfl
  unfold wordAsU32 u32Word wordU32
  dsimp only
  rw [if_neg (by simp), hdrop, hvalue, UInt32.ofNat_toNat]

variable (title : Bytes) (contentHash : B256) (uri : Bytes) (contributors : List Address)
  (shares : List UInt32)

def uriOff : ℕ := 5 * 32 + (32 + (title.length + 31) / 32 * 32)

def contributorsOff : ℕ := uriOff title + (32 + (uri.length + 31) / 32 * 32)

def sharesOff : ℕ := contributorsOff title uri + (32 + contributors.length * 32)

/-- An encoded claim: its head, the two strings, and the two arrays, each after its length. -/
def claimParts : List Bytes :=
  [beBytes 32 (5 * 32), contentHash.bytes, beBytes 32 (uriOff title), beBytes 32 (contributorsOff title uri),
    beBytes 32 (sharesOff title uri contributors), dynBytes title, dynBytes uri, beBytes 32 contributors.length,
    contributors.flatMap wordAddr, beBytes 32 shares.length, shares.flatMap wordU32]

variable {title contentHash uri contributors shares}

/-- The encoded claim before and after one of its parts. -/
theorem encodeClaim_split {l r : List Bytes} {c : Bytes}
    (hd : data = encodeClaim title contentHash uri contributors shares)
    (h : claimParts title contentHash uri contributors shares = l ++ c :: r) :
    data = l.flatten ++ (c ++ r.flatten) := by
  rw [← flatten_cons, ← flatten_append, ← h, hd]
  simp only [claimParts, flatten_cons, flatten_nil, append_nil, ← append_assoc]
  rfl

/-- A claim with shares that are not all zero is decoded again, when the decoder reads the offset of its
shares. -/
theorem decodeClaim_encodeClaim (hlen : contributors.length = shares.length) (hshares : ∃ s ∈ shares, s ≠ 0)
    (hfits : sharesOff title uri contributors < 2 ^ 32) :
    decodeClaim (encodeClaim title contentHash uri contributors shares) =
      some ⟨contentHash, contributors, shares⟩ := by
  have huri : uriOff title = 5 * 32 + (32 + (title.length + 31) / 32 * 32) := rfl
  have hcontributors : contributorsOff title uri = uriOff title + (32 + (uri.length + 31) / 32 * 32) := rfl
  have hoff : sharesOff title uri contributors =
      contributorsOff title uri + (32 + contributors.length * 32) := rfl
  obtain ⟨s, hs, hpos⟩ := hshares
  have hne : contributors.length ≠ 0 := by
    have := length_pos_of_mem hs
    omega
  have hsome : shares.all (· == 0) = false := all_eq_false.mpr ⟨s, hs, by simpa using hpos⟩
  obtain ⟨data, hd⟩ : ∃ data, data = encodeClaim title contentHash uri contributors shares := ⟨_, rfl⟩
  have hword : ∀ {l r n} (slot), claimParts title contentHash uri contributors shares = l ++ beBytes 32 n :: r →
      l.flatten.length = slot * 32 → word data slot = some (.ofNat 32 n) :=
    fun slot h hl => word_of_append slot (encodeClaim_split hd h) hl
  -- the head
  have h0 := hword (l := []) 0 rfl rfl
  have h1 := word_of_append 1 (encodeClaim_split hd (l := [_]) rfl) (by simp)
  have h2 := hword (l := [_, _]) 2 rfl (by simp)
  have h3 := hword (l := [_, _, _]) 3 rfl (by simp)
  have h4 := hword (l := [_, _, _, _]) 4 rfl (by simp)
  -- the strings
  have htitle := checkDynamicBytes_of_append (5 * 32) (b := title)
    (encodeClaim_split hd (l := [_, _, _, _, _]) rfl) (by simp) (by norm_num) (by omega)
  have huriBytes := checkDynamicBytes_of_append (uriOff title) (b := uri)
    (encodeClaim_split hd (l := [_, _, _, _, _, _]) rfl) (by simp [length_dynBytes]; omega) (by omega) (by omega)
  -- the arrays
  have hn := hword (l := [_, _, _, _, _, _, _]) (contributorsOff title uri / 32) rfl
    (by simp [length_dynBytes]; omega)
  have hm := hword (l := [_, _, _, _, _, _, _, _, _]) (sharesOff title uri contributors / 32) rfl
    (by simp [length_dynBytes]; omega)
  have hxs := elements_of_append wordAsAddress_addressWord (contributorsOff title uri)
    (encodeClaim_split hd (l := [_, _, _, _, _, _, _, _]) rfl) (by simp [length_dynBytes]; omega)
  have hys := elements_of_append wordAsU32_u32Word (sharesOff title uri contributors)
    (encodeClaim_split hd (l := [_, _, _, _, _, _, _, _, _, _]) rfl) (by simp [length_dynBytes]; omega)
  rw [← hd]
  unfold decodeClaim
  rw [← hlen] at hm hys
  simp only [h0, h1, h2, h3, h4, bind_eq_bind, bind_some, htitle, huriBytes, hn, hm, hne, hxs, hys, hsome,
    wordAsUsize_ofNat hfits, wordAsUsize_ofNat (show 5 * 32 < 2 ^ 32 by norm_num),
    wordAsUsize_ofNat (show uriOff title < 2 ^ 32 by omega),
    wordAsUsize_ofNat (show contributorsOff title uri < 2 ^ 32 by omega),
    wordAsUsize_ofNat (show contributors.length < 2 ^ 32 by omega),
    show contributorsOff title uri % 32 = 0 by omega, show sharesOff title uri contributors % 32 = 0 by omega,
    ne_eq, not_true_eq_false, false_or, if_false, Bool.false_eq_true]

/-- Two contributors with different shares. -/
theorem decodeClaim_encodeClaim_two :
    decodeClaim (encodeClaim (utf8 "title") (.ofNat 32 0xa1) (utf8 "uri") [.ofNat 20 7, .ofNat 20 9] [3, 1]) =
      some ⟨.ofNat 32 0xa1, [.ofNat 20 7, .ofNat 20 9], [3, 1]⟩ :=
  decodeClaim_encodeClaim rfl ⟨3, by simp, by decide⟩ (by decide)

end Trustgraphs.Contributions
