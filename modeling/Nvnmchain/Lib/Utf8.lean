import Nvnmchain.Lib.GoBytes

/-!
# UTF-8 text and its repair

A byte string is UTF-8 when it is the encodings of some characters, one after another. A JSON
encoder writes only such text: it goes through a string from the left, copies each character, and
writes U+FFFD for a byte at which no character starts (`toValid`). The characters and their
encodings are the standard library's.

The characters of encoded text are read back (`decode_encode`), and the bytes of a character past ASCII
are past ASCII, so replacing ASCII bytes in encoded text replaces characters (`flatMap_encode`).

`toValid` keeps UTF-8 text and answers UTF-8 text, so it is idempotent. A fixed-width reader of
repaired text, one that keeps as many of the last bytes as the text had before (`crop`), is not: it
can cut a character in two. It settles after two rounds (`cropped_crop_crop`), on UTF-8 text that may
follow the last one or two bytes of a cut U+FFFD, which cropping keeps (`Cropped.crop_eq`).
-/

set_option autoImplicit false

namespace Utf8

open Go (Bytes)

/-- The encodings of some characters, one after another. -/
def encode (cs : List Char) : Bytes := cs.flatMap String.utf8EncodeChar

/-- UTF-8 text. -/
def Valid (b : Bytes) : Prop := ∃ cs, b = encode cs

/-- The character a byte string starts with. -/
def firstChar (b : Bytes) : Option Char := b.toByteArray.utf8DecodeChar? 0

/-- U+FFFD. -/
def replacement : Bytes := [0xEF, 0xBF, 0xBD]

/-- The repair, with the number of bytes of the current character still to copy. -/
def toValidFrom : Nat → Bytes → Bytes
  | _, [] => []
  | n + 1, b :: rest => b :: toValidFrom n rest
  | 0, b :: rest =>
    match firstChar (b :: rest) with
    | some c => b :: toValidFrom (c.utf8Size - 1) rest
    | none => replacement ++ toValidFrom 0 rest

/-- A byte string with U+FFFD for every byte that is not part of a character. -/
def toValid (b : Bytes) : Bytes := toValidFrom 0 b

/-- The characters of a byte string, with the number of bytes of the current one still to skip. -/
def decodeFrom : Nat → Bytes → List Char
  | _, [] => []
  | n + 1, _ :: rest => decodeFrom n rest
  | 0, b :: rest =>
    match firstChar (b :: rest) with
    | some c => c :: decodeFrom (c.utf8Size - 1) rest
    | none => Char.ofNat 0xFFFD :: decodeFrom 0 rest

/-- The characters of a byte string, U+FFFD for every byte that is not part of one. -/
def decode (b : Bytes) : List Char := decodeFrom 0 b

/-- As many of the last bytes of the repaired text as there were before. -/
def crop (b : Bytes) : Bytes := (toValid b).drop ((toValid b).length - b.length)

/-! ## Characters -/

/-- An encoded character is decoded first. -/
theorem firstChar_encode (c : Char) (rest : Bytes) :
    firstChar (String.utf8EncodeChar c ++ rest) = some c := by
  rw [firstChar, List.toByteArray_append]
  exact ByteArray.utf8DecodeChar?_utf8EncodeChar_append

/-- What is decoded as a character is its encoding. -/
theorem exists_of_firstChar {b : Bytes} {c : Char} (h : firstChar b = some c) :
    ∃ rest, b = String.utf8EncodeChar c ++ rest := by
  obtain ⟨l, hl⟩ := ByteArray.exists_of_utf8DecodeChar?_eq_some h
  refine ⟨l.data.toList, ?_⟩
  have hdata := congrArg (fun x => x.data.toList) hl
  simpa using hdata

/-- The bytes of a character, the first of which starts it. -/
theorem exists_encodeChar (c : Char) (rest : Bytes) :
    ∃ b tail, String.utf8EncodeChar c = b :: tail ∧ c.utf8Size - 1 = tail.length ∧
      firstChar (b :: (tail ++ rest)) = some c := by
  have hfirst := firstChar_encode c rest
  have hlength := String.length_utf8EncodeChar c
  cases henc : String.utf8EncodeChar c with
  | nil => exact absurd henc String.utf8EncodeChar_ne_nil
  | cons b tail =>
    rw [henc] at hfirst hlength
    refine ⟨b, tail, rfl, ?_, hfirst⟩
    rw [← hlength, List.length_cons, Nat.add_sub_cancel]

/-- No character starts at a byte that is not a first byte. -/
theorem firstChar_cons_eq_none {b : UInt8} (h : ¬ b.IsUTF8FirstByte) (rest : Bytes) :
    firstChar (b :: rest) = none := by
  cases hc : firstChar (b :: rest) with
  | none => rfl
  | some c =>
    obtain ⟨rest', hrest⟩ := exists_of_firstChar hc
    have hpos : 0 < (String.utf8EncodeChar c).length :=
      List.length_pos_of_ne_nil String.utf8EncodeChar_ne_nil
    have hfirst : (String.utf8EncodeChar c)[0] = b := by
      have hget := congrArg (fun l => l[0]?) hrest
      rw [List.getElem?_append_left hpos, List.getElem?_eq_getElem hpos] at hget
      exact (Option.some.inj hget).symm
    exact absurd (hfirst ▸ UInt8.isUTF8FirstByte_getElem_utf8EncodeChar.mpr rfl) h

/-- A byte string is empty, starts with a character, or starts with a byte that is none. -/
theorem cases_firstChar (b : Bytes) :
    b = [] ∨ (∃ c rest, b = String.utf8EncodeChar c ++ rest) ∨
      ∃ x rest, b = x :: rest ∧ firstChar b = none := by
  cases b with
  | nil => exact .inl rfl
  | cons x rest =>
    cases hc : firstChar (x :: rest) with
    | none => exact .inr (.inr ⟨x, rest, rfl, rfl⟩)
    | some c =>
      obtain ⟨rest', hrest⟩ := exists_of_firstChar hc
      exact .inr (.inl ⟨c, rest', hrest⟩)

/-! ## The repair, byte by byte -/

/-- Bytes that were passed over are kept. -/
theorem toValidFrom_append (cs rest : Bytes) :
    toValidFrom cs.length (cs ++ rest) = cs ++ toValidFrom 0 rest := by
  induction cs with
  | nil => rfl
  | cons b tail ih => exact congrArg (b :: ·) ih

/-- A character is copied. -/
theorem toValid_encodeChar (c : Char) (rest : Bytes) :
    toValid (String.utf8EncodeChar c ++ rest) = String.utf8EncodeChar c ++ toValid rest := by
  obtain ⟨b, tail, henc, htail, hfirst⟩ := exists_encodeChar c rest
  rw [henc, toValid, List.cons_append, toValidFrom, hfirst]
  show b :: toValidFrom (c.utf8Size - 1) (tail ++ rest) = b :: tail ++ toValidFrom 0 rest
  rw [htail, toValidFrom_append, List.cons_append]

/-- A byte at which no character starts is replaced. -/
theorem toValid_cons {b : UInt8} {rest : Bytes} (h : firstChar (b :: rest) = none) :
    toValid (b :: rest) = replacement ++ toValid rest := by
  rw [toValid, toValidFrom, h, toValid]

theorem encode_cons (c : Char) (cs : List Char) :
    encode (c :: cs) = String.utf8EncodeChar c ++ encode cs := List.flatMap_cons

theorem Valid.nil : Valid [] := ⟨[], rfl⟩

theorem Valid.encodeChar_append (c : Char) {b : Bytes} : Valid b → Valid (String.utf8EncodeChar c ++ b)
  | ⟨cs, h⟩ => ⟨c :: cs, h ▸ (encode_cons c cs).symm⟩

theorem Valid.replacement_append {b : Bytes} (h : Valid b) : Valid (replacement ++ b) := by
  have henc : String.utf8EncodeChar (Char.ofNat 0xFFFD) = replacement := by decide +kernel
  exact henc ▸ h.encodeChar_append _

/-- The repaired text is UTF-8 and no shorter. -/
theorem valid_toValid (b : Bytes) : Valid (toValid b) ∧ b.length ≤ (toValid b).length := by
  induction hn : b.length using Nat.strong_induction_on generalizing b with
  | _ n ih =>
    subst hn
    rcases cases_firstChar b with rfl | ⟨c, rest, rfl⟩ | ⟨x, rest, rfl, hnone⟩
    · exact ⟨.nil, Nat.le_refl _⟩
    · have hpos : 0 < (String.utf8EncodeChar c).length :=
        List.length_pos_of_ne_nil String.utf8EncodeChar_ne_nil
      obtain ⟨hvalid, hlen⟩ := ih rest.length (by rw [List.length_append]; omega) rest rfl
      rw [toValid_encodeChar, List.length_append, List.length_append]
      exact ⟨hvalid.encodeChar_append c, by omega⟩
    · obtain ⟨hvalid, hlen⟩ := ih rest.length (Nat.lt_succ_self _) rest rfl
      rw [toValid_cons hnone, List.length_append, List.length_cons]
      exact ⟨hvalid.replacement_append, by simp only [replacement, List.length_cons]; omega⟩

/-- Valid text is left as it is. -/
theorem Valid.toValid_eq {b : Bytes} : Valid b → toValid b = b := by
  rintro ⟨cs, rfl⟩
  induction cs with
  | nil => rfl
  | cons c cs ih => rw [encode_cons, toValid_encodeChar, ih]

/-! ## Reading characters back -/

/-- Bytes that were passed over are not decoded again. -/
theorem decodeFrom_append (cs rest : Bytes) : decodeFrom cs.length (cs ++ rest) = decodeFrom 0 rest := by
  induction cs with
  | nil => rfl
  | cons b tail ih => exact ih

/-- A character is read back. -/
theorem decode_encodeChar (c : Char) (rest : Bytes) :
    decode (String.utf8EncodeChar c ++ rest) = c :: decode rest := by
  obtain ⟨b, tail, henc, htail, hfirst⟩ := exists_encodeChar c rest
  rw [henc, decode, List.cons_append, decodeFrom, hfirst]
  show c :: decodeFrom (c.utf8Size - 1) (tail ++ rest) = c :: decodeFrom 0 rest
  rw [htail, decodeFrom_append]

/-- Characters read back. -/
theorem decode_encode (cs : List Char) : decode (encode cs) = cs := by
  induction cs with
  | nil => rfl
  | cons c cs ih => rw [encode_cons, decode_encodeChar, ih]

theorem encode_injective : Function.Injective encode := Function.LeftInverse.injective decode_encode

theorem encode_append (cs ds : List Char) : encode (cs ++ ds) = encode cs ++ encode ds :=
  List.flatMap_append

/-- A character of ASCII is one byte. -/
theorem encodeChar_of_le {c : Char} (h : c.toNat ≤ 127) :
    String.utf8EncodeChar c = [UInt8.ofNat c.toNat] := if_pos h

/-- The bytes of a character past ASCII are past ASCII. -/
theorem le_of_mem_encodeChar {c : Char} (h : 127 < c.toNat) {b : UInt8}
    (hb : b ∈ String.utf8EncodeChar c) : 128 ≤ b.toNat := by
  have hbyte : ∀ n, 128 ≤ n → n < 256 → 128 ≤ (UInt8.ofNat n).toNat := by
    intro n hlo hhi
    rw [UInt8.toNat_ofNat', Nat.mod_eq_of_lt hhi]
    exact hlo
  have hval : ¬ c.val.toNat ≤ 127 := Nat.not_le.mpr h
  unfold String.utf8EncodeChar at hb
  simp only [if_neg hval] at hb
  split at hb
  · simp only [List.mem_cons, List.not_mem_nil, or_false] at hb
    rcases hb with rfl | rfl <;> exact hbyte _ (by omega) (by omega)
  · split at hb
    · simp only [List.mem_cons, List.not_mem_nil, or_false] at hb
      rcases hb with rfl | rfl | rfl <;> exact hbyte _ (by omega) (by omega)
    · simp only [List.mem_cons, List.not_mem_nil, or_false] at hb
      rcases hb with rfl | rfl | rfl | rfl <;> exact hbyte _ (by omega) (by omega)

/-- A replacement of ASCII bytes is a replacement of characters. -/
theorem flatMap_encode {f : UInt8 → Bytes} {g : Char → List Char}
    (hascii : ∀ n ≤ 127, f (UInt8.ofNat n) = encode (g (Char.ofNat n)))
    (hpast : ∀ b : UInt8, 128 ≤ b.toNat → f b = [b])
    (hkept : ∀ c : Char, 127 < c.toNat → g c = [c]) (cs : List Char) :
    (encode cs).flatMap f = encode (cs.flatMap g) := by
  have hchar : ∀ c, (String.utf8EncodeChar c).flatMap f = encode (g c) := by
    intro c
    by_cases hc : c.toNat ≤ 127
    · rw [encodeChar_of_le hc, List.flatMap_singleton, hascii _ hc, Char.ofNat_toNat]
    · rw [hkept c (Nat.lt_of_not_le hc), encode, List.flatMap_singleton]
      have hsame : ∀ b ∈ String.utf8EncodeChar c, f b = [b] := fun b hb =>
        hpast b (le_of_mem_encodeChar (Nat.lt_of_not_le hc) hb)
      exact (List.flatMap_congr hsame).trans (List.flatMap_singleton' _)
  induction cs with
  | nil => rfl
  | cons c cs ih => rw [encode_cons, List.flatMap_append, hchar, ih, List.flatMap_cons, encode_append]

/-! ## Cut text -/

/-- The end of UTF-8 text: at most three bytes of a cut character, then UTF-8 text. -/
theorem Valid.drop {b : Bytes} (h : Valid b) (n : Nat) :
    ∃ cut u, b.drop n = cut ++ u ∧ cut.length ≤ 3 ∧ (∀ x ∈ cut, ¬ x.IsUTF8FirstByte) ∧ Valid u := by
  obtain ⟨cs, rfl⟩ := h
  induction cs generalizing n with
  | nil => exact ⟨[], [], List.drop_nil, Nat.zero_le _, fun _ hx => absurd hx List.not_mem_nil, .nil⟩
  | cons c cs ih =>
    have hsize := Char.utf8Size_le_four c
    have hlength := String.length_utf8EncodeChar c
    rcases Nat.eq_zero_or_pos n with rfl | hpos
    · exact ⟨[], encode (c :: cs), rfl, Nat.zero_le _, fun _ hx => absurd hx List.not_mem_nil,
        ⟨c :: cs, rfl⟩⟩
    · rw [encode_cons, List.drop_append]
      by_cases hle : (String.utf8EncodeChar c).length ≤ n
      · rw [List.drop_eq_nil_of_le hle, List.nil_append]
        exact ih _
      · refine ⟨(String.utf8EncodeChar c).drop n, encode cs, ?_, ?_, fun x hx => ?_, ⟨cs, rfl⟩⟩
        · rw [Nat.sub_eq_zero_of_le (by omega), List.drop_zero]
        · rw [List.length_drop]
          omega
        · obtain ⟨i, hi, rfl⟩ := List.mem_iff_getElem.mp hx
          rw [List.getElem_drop, UInt8.isUTF8FirstByte_getElem_utf8EncodeChar]
          omega

/-- The repair of the end of UTF-8 text replaces each byte of the cut character. -/
theorem toValid_append {cut u : Bytes} (hcut : ∀ x ∈ cut, ¬ x.IsUTF8FirstByte) (hu : Valid u) :
    toValid (cut ++ u) = (List.replicate cut.length replacement).flatten ++ u := by
  induction cut with
  | nil => exact hu.toValid_eq
  | cons x cut ih =>
    obtain ⟨hx, hcut⟩ := List.forall_mem_cons.mp hcut
    rw [List.cons_append, toValid_cons (firstChar_cons_eq_none hx _), ih hcut, List.length_cons,
      List.replicate_succ, List.flatten_cons, List.append_assoc]

/-- UTF-8 text, possibly after the end of a cut U+FFFD. -/
def Cropped (b : Bytes) : Prop :=
  ∃ cut ∈ [[], [0xBD], [0xBF, 0xBD]], ∃ u, Valid u ∧ b = cut ++ u

/-- Cropping the end of UTF-8 text keeps the end of the replacements. -/
theorem crop_append {cut u : Bytes} (hcut : ∀ x ∈ cut, ¬ x.IsUTF8FirstByte) (hu : Valid u) :
    crop (cut ++ u) = (List.replicate cut.length replacement).flatten.drop (2 * cut.length) ++ u := by
  have hlen : (List.replicate cut.length replacement).flatten.length = 3 * cut.length := by
    rw [List.length_flatten, List.map_replicate, List.sum_replicate, smul_eq_mul, Nat.mul_comm]
    rfl
  rw [crop, toValid_append hcut hu, List.length_append, List.length_append, hlen,
    show 3 * cut.length + u.length - (cut.length + u.length) = 2 * cut.length by omega,
    List.drop_append_of_le_length (by omega)]

/-- A text that needs no cropping is left as it is. -/
theorem Cropped.crop_eq {b : Bytes} : Cropped b → crop b = b := by
  rintro ⟨cut, hmem, u, hu, rfl⟩
  have hcut : ∀ cut ∈ [[], [0xBD], [0xBF, (0xBD : UInt8)]], (∀ x ∈ cut, ¬ x.IsUTF8FirstByte) ∧
      (List.replicate cut.length replacement).flatten.drop (2 * cut.length) = cut := by
    decide +kernel
  rw [crop_append (hcut cut hmem).1 hu, (hcut cut hmem).2]

/-- The end of UTF-8 text is cropped to text that cropping keeps. -/
theorem cropped_crop_drop {b : Bytes} (h : Valid b) (n : Nat) : Cropped (crop (b.drop n)) := by
  obtain ⟨cut, u, hdrop, hlen, hcut, hu⟩ := h.drop n
  rw [hdrop, crop_append hcut hu]
  generalize cut.length = k at hlen
  match k, hlen with
  | 0, _ => exact ⟨[], by decide, u, hu, rfl⟩
  | 1, _ => exact ⟨[0xBD], by decide, u, hu, rfl⟩
  | 2, _ => exact ⟨[0xBF, 0xBD], by decide, u, hu, rfl⟩
  | 3, _ => exact ⟨[], by decide, replacement ++ u, hu.replacement_append, rfl⟩

/-- Cropping settles after two rounds. -/
theorem cropped_crop_crop (b : Bytes) : Cropped (crop (crop b)) :=
  cropped_crop_drop (valid_toValid b).1 _

end Utf8
