import Mathlib

/-!
# Byte strings, and the printf verbs that build names from them

Go's `string` and `[]byte` are both sequences of bytes, so both are `Bytes` here. The two verbs a
name is formatted with are `%d` of an unsigned integer (`fmtUint`) and `%x` of a string (`fmtHex`),
and what a name needs from them is that it can be read back:

- the digits of either verb never contain the separator (`colon_notMem_fmtUint`,
  `colon_notMem_fmtHex`), so the first separator after them ends them (`split_colon`);
- each verb is injective (`fmtUint_injective`, `fmtHex_injective`).
-/

set_option autoImplicit false

namespace Go

/-- Go's `string` and `[]byte`. -/
abbrev Bytes := List UInt8

instance transOrdBytes : Std.TransOrd Bytes := inferInstance

/-- The bytes of a string literal. -/
def str (s : String) : Bytes := s.toList.flatMap String.utf8EncodeChar

/-- The separator of the formatted names, `':'`. -/
def colon : UInt8 := 58

/-! ## `%d` -/

/-- `fmt.Sprintf("%d", n)` for an unsigned `n`. -/
def fmtUint (n : Nat) : Bytes := (Nat.toDigits 10 n).map Char.toUInt8

example : fmtUint 2048 = str "2048" := by decide

/-- A decimal digit's byte lies between `'0'` and `'9'`, and the character is that byte. -/
theorem toUInt8_of_isDigit {c : Char} (h : c.isDigit = true) :
    48 ≤ c.toNat ∧ c.toNat ≤ 57 ∧ c.toUInt8.toNat = c.toNat := by
  simp only [Char.isDigit, Bool.and_eq_true, decide_eq_true_eq] at h
  have h1 : 48 ≤ c.toNat := UInt32.le_iff_toNat_le.mp h.1
  have h2 : c.toNat ≤ 57 := UInt32.le_iff_toNat_le.mp h.2
  refine ⟨h1, h2, ?_⟩
  have h3 : c.toUInt8.toNat = c.toNat % 256 := by
    simp only [Char.toUInt8, UInt32.toNat_toUInt8, Char.toNat]
  omega

/-- A printed number has decimal digits only. -/
theorem notMem_fmtUint {b : UInt8} (h : b.toNat < 48 ∨ 57 < b.toNat) (n : Nat) : b ∉ fmtUint n := by
  intro hb
  obtain ⟨c, hc, he⟩ := List.mem_map.mp hb
  have hd := toUInt8_of_isDigit (Nat.isDigit_of_mem_toDigits (by decide) (by decide) hc)
  rw [he] at hd
  omega

theorem colon_notMem_fmtUint (n : Nat) : colon ∉ fmtUint n := notMem_fmtUint (.inr (by decide)) n

theorem zero_notMem_fmtUint (n : Nat) : (0 : UInt8) ∉ fmtUint n := notMem_fmtUint (.inl (by decide)) n

/-- The digits are read back from their bytes, and the number from its digits. -/
theorem fmtUint_injective : Function.Injective fmtUint := by
  have read : ∀ n, Nat.ofDigitChars 10 ((fmtUint n).map fun b => Char.ofNat b.toNat) 0 = n := by
    intro n
    have hchars : (fmtUint n).map (fun b => Char.ofNat b.toNat) = Nat.toDigits 10 n := by
      rw [fmtUint, List.map_map]
      refine (List.map_congr_left fun c hc => ?_).trans (List.map_id _)
      have hd := toUInt8_of_isDigit (Nat.isDigit_of_mem_toDigits (by decide) (by decide) hc)
      show Char.ofNat c.toUInt8.toNat = c
      rw [hd.2.2, Char.ofNat_toNat]
    rw [hchars, Nat.ofDigitChars_ten_toDigits]
  intro m n h
  rw [← read m, h, read n]

/-! ## `%x` -/

/-- The lower-case hexadecimal digit of a value below 16. -/
def hexDigit (d : Nat) : UInt8 := if d < 10 then UInt8.ofNat (48 + d) else UInt8.ofNat (87 + d)

/-- `fmt.Sprintf("%x", s)` for a string: two digits a byte, the high one first. -/
def fmtHex (s : Bytes) : Bytes :=
  s.flatMap fun b => [hexDigit (b.toNat / 16), hexDigit (b.toNat % 16)]

example : fmtHex [0, 171, 255] = str "00abff" := by decide

theorem hexDigit_injOn {d e : Nat} (hd : d < 16) (he : e < 16) (h : hexDigit d = hexDigit e) :
    d = e := by
  have all : ∀ d : Fin 16, ∀ e : Fin 16, hexDigit d = hexDigit e → d = e := by decide
  exact Fin.mk.inj_iff.mp (all ⟨d, hd⟩ ⟨e, he⟩ h)

theorem colon_ne_hexDigit {d : Nat} (hd : d < 16) : colon ≠ hexDigit d := by
  have all : ∀ d : Fin 16, colon ≠ hexDigit d := by decide
  exact all ⟨d, hd⟩

/-- Printed hex has no colon. -/
theorem colon_notMem_fmtHex (s : Bytes) : colon ∉ fmtHex s := by
  intro h
  obtain ⟨b, -, hb⟩ := List.mem_flatMap.mp h
  have hlt := b.toNat_lt
  rcases List.mem_cons.mp hb with h1 | hb
  · exact colon_ne_hexDigit (by omega) h1
  · exact colon_ne_hexDigit (by omega) (List.mem_singleton.mp hb)

/-- Printed hex tells the bytes apart. -/
theorem fmtHex_injective : Function.Injective fmtHex := by
  intro s
  induction s with
  | nil =>
    intro t h
    cases t with
    | nil => rfl
    | cons b t => cases h
  | cons a s ih =>
    intro t h
    cases t with
    | nil => cases h
    | cons b t =>
      obtain ⟨hhi, hrest⟩ := List.cons.inj h
      obtain ⟨hlo, htail⟩ := List.cons.inj hrest
      have ha := a.toNat_lt
      have hb := b.toNat_lt
      have h1 := hexDigit_injOn (by omega) (by omega) hhi
      have h2 := hexDigit_injOn (by omega) (by omega) hlo
      have hab : a = b := UInt8.toNat_inj.mp (by omega)
      rw [hab, ih htail]

/-! ## Names -/

/-- The first separator of a name ends its first field: two names that agree, whose first fields
are free of the separator, agree on that field and on the rest. -/
theorem split_colon {a b x y : Bytes} (ha : colon ∉ a) (hb : colon ∉ b)
    (h : a ++ colon :: x = b ++ colon :: y) : a = b ∧ x = y := by
  induction a generalizing b with
  | nil =>
    cases b with
    | nil => exact ⟨rfl, (List.cons.inj h).2⟩
    | cons d b => exact absurd (List.cons.inj h).1 (fun e => hb (e ▸ List.mem_cons_self))
  | cons c a ih =>
    cases b with
    | nil => exact absurd (List.cons.inj h).1.symm (fun e => ha (e ▸ List.mem_cons_self))
    | cons d b =>
      obtain ⟨hcd, htail⟩ := List.cons.inj h
      obtain ⟨hab, hxy⟩ := ih (fun m => ha (List.mem_cons_of_mem _ m))
        (fun m => hb (List.mem_cons_of_mem _ m)) htail
      exact ⟨by rw [hcd, hab], hxy⟩

end Go
