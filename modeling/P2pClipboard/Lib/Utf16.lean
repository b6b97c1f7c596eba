import Mathlib.Data.List.Basic
import Mathlib.Tactic.Common

/-!
# Texts as 16-bit units

A character below U+10000 is one unit; any other is two, of which the first is a
high and the second a low surrogate.  Reading replaces a surrogate without its
partner, so it is total, and undoes writing.

## Main definitions

* `Utf16.encodeChar`, `Utf16.encode` — `str::encode_utf16`.
* `Utf16.decodeChars`, `Utf16.fromUtf16Lossy` — `String::from_utf16_lossy`.

## Main results

* `Utf16.fromUtf16Lossy_encode` — **a text is recovered from its units.**
* `Utf16.zero_not_mem_encode` — a text without NUL has no unit that is zero.
-/

namespace Utf16

/-! ### Writing and reading -/

/-- The units of a character. -/
def encodeChar (c : Char) : List UInt16 :=
  if c.toNat < 0x10000 then [UInt16.ofNat c.toNat]
  else
    [UInt16.ofNat (0xD800 + (c.toNat - 0x10000) / 0x400),
      UInt16.ofNat (0xDC00 + (c.toNat - 0x10000) % 0x400)]

/-- `str::encode_utf16`. -/
def encode (s : String) : List UInt16 := s.toList.flatMap encodeChar

/-- The character of two units, if they are a high and a low surrogate. -/
def pairChar (u v : UInt16) : Option Char :=
  if 0xD800 ≤ u.toNat && u.toNat < 0xDC00 && 0xDC00 ≤ v.toNat && v.toNat < 0xE000 then
    some (Char.ofNat (0x10000 + (u.toNat - 0xD800) * 0x400 + (v.toNat - 0xDC00)))
  else none

/-- The character of one unit; a surrogate without its partner is replaced. -/
def unitChar (u : UInt16) : Char :=
  if 0xD800 ≤ u.toNat && u.toNat < 0xE000 then '\uFFFD' else Char.ofNat u.toNat

/-- The characters of a sequence of units. -/
def decodeChars : List UInt16 → List Char
  | u :: v :: rest =>
      match pairChar u v with
      | some c => c :: decodeChars rest
      | none => unitChar u :: decodeChars (v :: rest)
  | [u] => [unitChar u]
  | [] => []

/-- `String::from_utf16_lossy`. -/
def fromUtf16Lossy (units : List UInt16) : String := String.ofList (decodeChars units)

/-! ### The round trip -/

/-- A character is no surrogate, and below U+110000. -/
theorem toNat_valid (c : Char) : c.toNat < 0xD800 ∨ 0xDFFF < c.toNat ∧ c.toNat < 0x110000 :=
  c.valid

theorem toNat_ofNat_unit {n : ℕ} (h : n < 0x10000) : (UInt16.ofNat n).toNat = n := by
  rw [UInt16.toNat_ofNat', Nat.mod_eq_of_lt h]

/-- A unit that is no surrogate is read on its own. -/
theorem decodeChars_unit {u : UInt16} (h : u.toNat < 0xD800 ∨ 0xDFFF < u.toNat)
    (rest : List UInt16) : decodeChars (u :: rest) = Char.ofNat u.toNat :: decodeChars rest := by
  have hunit : unitChar u = Char.ofNat u.toNat := by
    unfold unitChar
    rw [if_neg]
    simp only [Bool.and_eq_true, decide_eq_true_eq]
    omega
  cases rest with
  | nil => rw [decodeChars, hunit]; rfl
  | cons v rest =>
    have hpair : pairChar u v = none := by
      unfold pairChar
      rw [if_neg]
      simp only [Bool.and_eq_true, decide_eq_true_eq]
      omega
    rw [decodeChars, hpair, hunit]

/-- The units of a character are read as that character. -/
theorem decodeChars_encodeChar (c : Char) (rest : List UInt16) :
    decodeChars (encodeChar c ++ rest) = c :: decodeChars rest := by
  have hvalid := toNat_valid c
  unfold encodeChar
  split_ifs with hlow
  · have hval := toNat_ofNat_unit hlow
    rw [List.singleton_append, decodeChars_unit (by omega), hval, Char.ofNat_toNat]
  · -- the two surrogates carry the upper and the lower ten bits
    have hhigh : (UInt16.ofNat (0xD800 + (c.toNat - 0x10000) / 0x400)).toNat =
        0xD800 + (c.toNat - 0x10000) / 0x400 := toNat_ofNat_unit (by omega)
    have hlow' : (UInt16.ofNat (0xDC00 + (c.toNat - 0x10000) % 0x400)).toNat =
        0xDC00 + (c.toNat - 0x10000) % 0x400 := toNat_ofNat_unit (by omega)
    have hsum : 0x10000 + (0xD800 + (c.toNat - 0x10000) / 0x400 - 0xD800) * 0x400 +
        (0xDC00 + (c.toNat - 0x10000) % 0x400 - 0xDC00) = c.toNat := by omega
    have hpair : pairChar (UInt16.ofNat (0xD800 + (c.toNat - 0x10000) / 0x400))
        (UInt16.ofNat (0xDC00 + (c.toNat - 0x10000) % 0x400)) = some c := by
      unfold pairChar
      rw [hhigh, hlow', hsum, Char.ofNat_toNat, if_pos]
      simp only [Bool.and_eq_true, decide_eq_true_eq]
      omega
    rw [List.cons_append, List.singleton_append, decodeChars, hpair]

/-- **A text is recovered from its units.** -/
@[simp] theorem fromUtf16Lossy_encode (s : String) : fromUtf16Lossy (encode s) = s := by
  have hchars : ∀ cs : List Char, decodeChars (cs.flatMap encodeChar) = cs := by
    intro cs
    induction cs with
    | nil => rfl
    | cons c cs ih => rw [List.flatMap_cons, decodeChars_encodeChar, ih]
  rw [fromUtf16Lossy, encode, hchars, String.ofList_toList]

/-- **A text without NUL has no unit that is zero.** -/
theorem zero_not_mem_encode {s : String} (h : '\x00' ∉ s.toList) : 0 ∉ encode s := by
  intro hmem
  obtain ⟨c, hc, hzero⟩ := List.mem_flatMap.mp hmem
  have hvalid := toNat_valid c
  unfold encodeChar at hzero
  split_ifs at hzero with hlow
  · have hval := congrArg UInt16.toNat (List.mem_singleton.mp hzero)
    rw [toNat_ofNat_unit hlow] at hval
    have hnul : c = '\x00' := by
      rw [← Char.ofNat_toNat c, ← hval]
      rfl
    exact h (hnul ▸ hc)
  · simp only [List.mem_cons, List.not_mem_nil, or_false] at hzero
    rcases hzero with hzero | hzero
    · have hval := congrArg UInt16.toNat hzero
      rw [toNat_ofNat_unit (by omega), UInt16.toNat_zero] at hval
      omega
    · have hval := congrArg UInt16.toNat hzero
      rw [toNat_ofNat_unit (by omega), UInt16.toNat_zero] at hval
      omega

theorem encode_ne_nil {s : String} (h : s ≠ "") : encode s ≠ [] := by
  intro hnil
  have := fromUtf16Lossy_encode s
  rw [hnil] at this
  exact h this.symm

end Utf16
