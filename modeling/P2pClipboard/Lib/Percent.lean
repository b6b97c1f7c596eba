import P2pClipboard.Lib.Codec

/-!
# Percent-decoding

An escape is a percent sign with two hexadecimal digits behind it, and stands for
the byte they denote.  Decoding replaces the escapes and keeps every other byte,
a percent sign without its digits included.

Beside it stands what becomes of bytes that are taken for characters: a byte below
128 is its own encoding, any other takes two bytes, of which the first is `C2` or
`C3`.

## Main definitions

* `Percent.hexDigit`, `Percent.hexPair` — digits, and pairs of them.
* `Percent.readByte` — the byte a text starts with, plain or escaped.
* `Percent.percentDecode` — decoding a whole text.
* `Percent.widen` — the encoding of a byte taken for a character.

## Main results

* `Percent.percentDecode_readByte` — decoding goes byte by byte.
* `Percent.percentDecode_swallowed` — what decoding makes of the two bytes behind a
  percent sign that starts no escape.
* `Percent.widen_high` — a byte from 128 on takes two bytes.
-/

namespace Percent

/-! ### Escapes -/

/-- The byte of a percent sign. -/
def percentSign : UInt8 := 0x25

/-- The value of a hexadecimal digit. -/
def hexDigit (b : UInt8) : Option ℕ :=
  if 48 ≤ b.toNat && b.toNat ≤ 57 then some (b.toNat - 48)
  else if 65 ≤ b.toNat && b.toNat ≤ 70 then some (b.toNat - 55)
  else if 97 ≤ b.toNat && b.toNat ≤ 102 then some (b.toNat - 87)
  else none

/-- The byte two hexadecimal digits denote. -/
def hexPair (h l : UInt8) : Option UInt8 :=
  match hexDigit h, hexDigit l with
  | some x, some y => some (UInt8.ofNat (16 * x + y))
  | _, _ => none

/-- The byte at the front of a text, plain or escaped, and the text behind it. -/
def readByte : Bytes → Option (UInt8 × Bytes)
  | [] => none
  | b :: rest =>
      if b = percentSign then
        match rest with
        | h :: l :: rest' => (hexPair h l).map fun v => (v, rest')
        | _ => none
      else some (b, rest)

/-- Percent-decoding. -/
def percentDecode : Bytes → Bytes
  | b :: h :: l :: rest =>
      match (if b = percentSign then hexPair h l else none) with
      | some v => v :: percentDecode rest
      | none => b :: percentDecode (h :: l :: rest)
  | b :: rest => b :: percentDecode rest
  | [] => []

theorem hexDigit_bounds {b : UInt8} {x : ℕ} (h : hexDigit b = some x) :
    x < 16 ∧ 48 ≤ b.toNat ∧ b.toNat ≤ 102 ∧ (x < 10 → b.toNat = 48 + x) ∧
      (10 ≤ x → b.toNat = 55 + x ∨ b.toNat = 87 + x) := by
  unfold hexDigit at h
  simp only [Bool.and_eq_true, decide_eq_true_eq] at h
  split_ifs at h
  all_goals
    obtain rfl := Option.some.inj h
    omega

/-- A percent sign is no digit. -/
theorem ne_percentSign_of_hexDigit {b : UInt8} {x : ℕ} (h : hexDigit b = some x) :
    b ≠ percentSign := by
  rintro rfl
  have := (hexDigit_bounds h).2.1
  simp [percentSign] at this

theorem hexPair_eq_some {h l v : UInt8} (hv : hexPair h l = some v) :
    ∃ x y, hexDigit h = some x ∧ hexDigit l = some y ∧ v = UInt8.ofNat (16 * x + y) := by
  unfold hexPair at hv
  cases hx : hexDigit h with
  | none => simp [hx] at hv
  | some x =>
    cases hy : hexDigit l with
    | none => simp [hx, hy] at hv
    | some y =>
      simp only [hx, hy] at hv
      exact ⟨x, y, rfl, rfl, (Option.some.inj hv).symm⟩

@[simp] theorem hexPair_percentSign_left (l : UInt8) : hexPair percentSign l = none := rfl

@[simp] theorem hexPair_percentSign_right (h : UInt8) : hexPair h percentSign = none := by
  have hsign : hexDigit percentSign = none := by decide
  unfold hexPair
  rw [hsign]
  cases hexDigit h <;> rfl

/-! ### Decoding -/

@[simp] theorem percentDecode_nil : percentDecode [] = [] := rfl

theorem percentDecode_plain {b : UInt8} (hb : b ≠ percentSign) (rest : Bytes) :
    percentDecode (b :: rest) = b :: percentDecode rest := by
  match rest with
  | [] => rfl
  | [_] => rfl
  | h :: l :: rest =>
    rw [percentDecode, if_neg hb]

theorem percentDecode_escape {h l v : UInt8} (hv : hexPair h l = some v) (rest : Bytes) :
    percentDecode (percentSign :: h :: l :: rest) = v :: percentDecode rest := by
  rw [percentDecode, if_pos rfl, hv]

theorem percentDecode_bare {h l : UInt8} (hv : hexPair h l = none) (rest : Bytes) :
    percentDecode (percentSign :: h :: l :: rest) =
      percentSign :: percentDecode (h :: l :: rest) := by
  rw [percentDecode, if_pos rfl, hv]

/-- A text starts with a byte, or has nothing but a percent sign to start with. -/
theorem readByte_cases (bs : Bytes) :
    bs = [] ∨ bs = [percentSign] ∨ (∃ h, bs = [percentSign, h]) ∨
      (∃ v rest, readByte bs = some (v, rest)) ∨
      ∃ h l rest, bs = percentSign :: h :: l :: rest ∧ hexPair h l = none := by
  match bs with
  | [] => exact .inl rfl
  | b :: rest =>
    by_cases hb : b = percentSign
    · subst hb
      match rest with
      | [] => exact .inr (.inl rfl)
      | [h] => exact .inr (.inr (.inl ⟨h, rfl⟩))
      | h :: l :: rest =>
        cases hv : hexPair h l with
        | none => exact .inr (.inr (.inr (.inr ⟨h, l, rest, rfl, hv⟩)))
        | some v => exact .inr (.inr (.inr (.inl ⟨v, rest, by simp [readByte, hv]⟩)))
    · exact .inr (.inr (.inr (.inl ⟨b, rest, by simp [readByte, hb]⟩)))

/-- The byte a text starts with is plain or an escape. -/
theorem readByte_eq_some {bs rest : Bytes} {v : UInt8} (h : readByte bs = some (v, rest)) :
    (v ≠ percentSign ∧ bs = v :: rest) ∨
      ∃ a b, bs = percentSign :: a :: b :: rest ∧ hexPair a b = some v := by
  match bs with
  | [] => simp [readByte] at h
  | c :: tail =>
    by_cases hc : c = percentSign
    · subst hc
      match tail with
      | [] => simp [readByte] at h
      | [_] => simp [readByte] at h
      | a :: b :: tail =>
        simp only [readByte, if_true, Option.map_eq_some_iff, Prod.mk.injEq] at h
        obtain ⟨u, hu, rfl, rfl⟩ := h
        exact .inr ⟨a, b, rfl, hu⟩
    · simp only [readByte, if_neg hc, Option.some.injEq, Prod.mk.injEq] at h
      obtain ⟨rfl, rfl⟩ := h
      exact .inl ⟨hc, rfl⟩

/-- **Decoding goes byte by byte.** -/
theorem percentDecode_readByte {bs rest : Bytes} {v : UInt8}
    (h : readByte bs = some (v, rest)) : percentDecode bs = v :: percentDecode rest := by
  rcases readByte_eq_some h with ⟨hv, rfl⟩ | ⟨a, b, rfl, hab⟩
  · exact percentDecode_plain hv rest
  · exact percentDecode_escape hab rest

theorem length_readByte {bs rest : Bytes} {v : UInt8} (h : readByte bs = some (v, rest)) :
    rest.length < bs.length := by
  rcases readByte_eq_some h with ⟨-, rfl⟩ | ⟨a, b, rfl, -⟩
  · exact Nat.lt_succ_self _
  · simp only [List.length_cons]
    omega

/-- **The two bytes behind a percent sign that starts no escape** are kept, unless
the second of them or the first is a percent sign that starts one further on. -/
theorem percentDecode_swallowed {h l : UInt8} (hhl : hexPair h l = none) (rest : Bytes) :
    (∃ y z v rest', l = percentSign ∧ rest = y :: z :: rest' ∧ hexPair y z = some v ∧
        percentDecode (h :: l :: rest) = h :: v :: percentDecode rest') ∨
      (∃ z v rest', h = percentSign ∧ rest = z :: rest' ∧ hexPair l z = some v ∧
        percentDecode (h :: l :: rest) = v :: percentDecode rest') ∨
      percentDecode (h :: l :: rest) = h :: l :: percentDecode rest := by
  -- the byte `h` itself is kept when it is no percent sign, or `l` is one
  have hkeep : h ≠ percentSign ∨ l = percentSign →
      percentDecode (h :: l :: rest) = h :: percentDecode (l :: rest) := by
    rintro (hh | rfl)
    · exact percentDecode_plain hh _
    · by_cases hh : h = percentSign
      · subst hh
        cases rest with
        | nil => rfl
        | cons z rest => exact percentDecode_bare (hexPair_percentSign_left z) rest
      · exact percentDecode_plain hh _
  by_cases hl : l = percentSign
  · subst hl
    rw [hkeep (.inr rfl)]
    rcases readByte_cases (percentSign :: rest) with
      hnil | hone | ⟨a, htwo⟩ | ⟨v, rest', hv⟩ | ⟨y, z, rest', heq, hyz⟩
    · exact absurd hnil (by simp)
    · obtain rfl : rest = [] := by simpa using hone
      exact .inr (.inr rfl)
    · obtain rfl : rest = [a] := by simpa using htwo
      exact .inr (.inr rfl)
    · rcases readByte_eq_some hv with ⟨hne, heq⟩ | ⟨y, z, heq, hyz⟩
      · exact absurd (List.cons.inj heq).1.symm hne
      · obtain rfl : rest = y :: z :: rest' := by simpa using heq
        exact .inl ⟨y, z, v, rest', rfl, rfl, hyz, by rw [percentDecode_escape hyz]⟩
    · obtain rfl : rest = y :: z :: rest' := by simpa using heq
      exact .inr (.inr (by rw [percentDecode_bare hyz]))
  · by_cases hh : h = percentSign
    · subst hh
      cases rest with
      | nil => exact .inr (.inr rfl)
      | cons z rest' =>
        cases hv : hexPair l z with
        | some v =>
          exact .inr (.inl ⟨z, v, rest', rfl, rfl, hv, percentDecode_escape hv rest'⟩)
        | none => exact .inr (.inr (by rw [percentDecode_bare hv, percentDecode_plain hl]))
    · exact .inr (.inr (by rw [hkeep (.inl hh), percentDecode_plain hl]))

/-! ### Bytes taken for characters -/

/-- The encoding of the character with a byte's number. -/
def widen (b : UInt8) : Bytes := String.utf8EncodeChar (Char.ofNat b.toNat)

theorem toNat_ofNat_byte (b : UInt8) : (Char.ofNat b.toNat).toNat = b.toNat := by
  have hall : ∀ n < 256, (Char.ofNat n).toNat = n := by decide +kernel
  exact hall _ b.toNat_lt

theorem widen_low {b : UInt8} (h : b.toNat < 128) : widen b = [b] := by
  have hlow : ∀ n < 128, String.utf8EncodeChar (Char.ofNat n) = [UInt8.ofNat n] := by
    decide +kernel
  rw [widen, hlow _ h, UInt8.ofNat_toNat]

/-- **A byte from 128 on takes two bytes**, and the first is `C2` or `C3`. -/
theorem widen_high {b : UInt8} (h : 128 ≤ b.toNat) :
    widen b = [UInt8.ofNat (192 + b.toNat / 64), UInt8.ofNat (128 + b.toNat % 64)] := by
  have hhigh : ∀ n < 256, 128 ≤ n → String.utf8EncodeChar (Char.ofNat n) =
      [UInt8.ofNat (192 + n / 64), UInt8.ofNat (128 + n % 64)] := by
    decide +kernel
  exact hhigh _ b.toNat_lt h

end Percent
