import P2pClipboard.Lib.Percent

/-!
# Decoding file URIs

`url_decode` of `src/native_clipboard.rs`.  It reads the bytes of a text and
pushes one character for each byte it keeps or decodes: a byte from 128 on becomes
the character of that number, and its encoding two bytes.  Behind a percent sign
it takes two bytes away before it knows whether they are digits, and what counts
as digits is decided by `from_str_radix`, which lets a plus sign stand before them.

## Main definitions

* `urlDecode` — `url_decode`, through the bytes it pushes.
* `DecodesPercent` — the text is percent-decoded.
* `ReadsRight` — the texts on which the bytes pushed are the right ones.

## Main results

* `readsRight_iff` — `ReadsRight` says exactly when the two readings agree.
* `decodesPercent_iff` — **`url_decode` is percent-decoding exactly on the texts
  that read right**, and on those that decode to no text at all.
-/

namespace P2pClipboard

open Percent

/-! ### The function -/

/-- `char::to_digit` for hexadecimal digits. -/
def toDigit16 (c : Char) : Option ℕ :=
  if 48 ≤ c.toNat && c.toNat ≤ 57 then some (c.toNat - 48)
  else if 65 ≤ c.toNat && c.toNat ≤ 70 then some (c.toNat - 55)
  else if 97 ≤ c.toNat && c.toNat ≤ 102 then some (c.toNat - 87)
  else none

/-- One more digit of a number, unless it does not fit into a byte. -/
def addDigit (val : ℕ) (c : Char) : Option ℕ :=
  (toDigit16 c).bind fun d => if 16 * val + d < 256 then some (16 * val + d) else none

/-- `u8::from_str_radix` for hexadecimal digits: a plus sign may stand before them. -/
def fromStrRadix16 (s : String) : Option UInt8 :=
  let digits := if s.toList.head? = some '+' then s.toList.tail else s.toList
  if digits.isEmpty then none else (digits.foldlM addDigit 0).map UInt8.ofNat

/-- The byte `url_decode` makes of the two bytes behind a percent sign. -/
def decodeEscape (h l : UInt8) : Option UInt8 := (fromUtf8 [h, l]).bind fromStrRadix16

/-- The loop of `url_decode`: the bytes pushed as characters.  The two bytes behind
a percent sign are taken away whatever they are. -/
def urlDecodeBytes : Bytes → Bytes
  | [] => []
  | b :: rest =>
      if b = percentSign then
        match rest with
        | h :: l :: rest' => (decodeEscape h l).getD percentSign :: urlDecodeBytes rest'
        | _ => [percentSign]
      else b :: urlDecodeBytes rest

/-- `url_decode`. -/
def urlDecode (input : String) : String :=
  String.ofList ((urlDecodeBytes (utf8 input)).map fun b => Char.ofNat b.toNat)

/-- The text is percent-decoded: if what its bytes decode to is a text, `url_decode`
returns that. -/
def DecodesPercent (input : String) : Prop :=
  ∀ text, utf8 text = percentDecode (utf8 input) → urlDecode input = text

/-! ### The digits behind a percent sign -/

theorem toDigit16_ofNat (b : UInt8) : toDigit16 (Char.ofNat b.toNat) = hexDigit b := by
  rw [toDigit16, hexDigit, toNat_ofNat_byte]

theorem toDigit16_eq_none {c : Char} (h : 128 ≤ c.toNat) : toDigit16 c = none := by
  unfold toDigit16
  simp only [Bool.and_eq_true, decide_eq_true_eq]
  split_ifs <;> first | omega | rfl

theorem addDigit_ofNat {val : ℕ} (hval : val < 16) (b : UInt8) :
    addDigit val (Char.ofNat b.toNat) = (hexDigit b).map fun d => 16 * val + d := by
  rw [addDigit, toDigit16_ofNat]
  cases hx : hexDigit b with
  | none => rfl
  | some x =>
    have := hexDigit_bounds hx
    rw [Option.bind_some, if_pos (by omega), Option.map_some]

/-- A text with a character that is no digit is no number. -/
theorem foldlM_addDigit_eq_none {cs : List Char} {c : Char} (hc : c ∈ cs)
    (hhigh : 128 ≤ c.toNat) (val : ℕ) : cs.foldlM addDigit val = none := by
  induction cs generalizing val with
  | nil => exact absurd hc List.not_mem_nil
  | cons d cs ih =>
    rw [List.foldlM_cons]
    rcases List.mem_cons.mp hc with rfl | hmem
    · rw [addDigit, toDigit16_eq_none hhigh]
      rfl
    · cases addDigit val d with
      | none => rfl
      | some x => exact ih hmem x

theorem fromStrRadix16_eq_none {s : String} {c : Char} (hc : c ∈ s.toList)
    (hhigh : 128 ≤ c.toNat) : fromStrRadix16 s = none := by
  have hdigits : c ∈ (if s.toList.head? = some '+' then s.toList.tail else s.toList) := by
    split_ifs with hplus
    · cases hs : s.toList with
      | nil => simp [hs] at hc
      | cons d cs =>
        rw [hs] at hc hplus
        rcases List.mem_cons.mp hc with rfl | hmem
        · obtain rfl := Option.some.inj hplus
          exact absurd hhigh (by decide)
        · exact hmem
    · exact hc
  unfold fromStrRadix16
  simp only [foldlM_addDigit_eq_none hdigits hhigh, Option.map_none, ite_self]

/-- Two characters that are no plus sign are a number when both are digits. -/
theorem fromStrRadix16_pair (h l : UInt8) :
    fromStrRadix16 (String.ofList [Char.ofNat h.toNat, Char.ofNat l.toNat]) =
      (hexPair h l).or (if h = 0x2B then (hexDigit l).map UInt8.ofNat else none) := by
  have hplus : Char.ofNat h.toNat = '+' ↔ h = 0x2B := by
    constructor
    · intro heq
      have := congrArg Char.toNat heq
      rw [toNat_ofNat_byte] at this
      exact UInt8.toNat_inj.mp this
    · rintro rfl
      rfl
  unfold fromStrRadix16
  by_cases hh : h = 0x2B
  · subst hh
    have hpair : hexPair 0x2B l = none := rfl
    have hfold : [Char.ofNat l.toNat].foldlM addDigit 0 = hexDigit l := by
      simp [addDigit_ofNat]
    simp [hpair, hfold]
  · have hfold : [Char.ofNat h.toNat, Char.ofNat l.toNat].foldlM addDigit 0 =
        (hexDigit h).bind fun x => (hexDigit l).map fun y => 16 * x + y := by
      simp only [List.foldlM_cons, List.foldlM_nil, bind_pure, addDigit_ofNat (by decide : 0 < 16)]
      cases hx : hexDigit h with
      | none => rfl
      | some x =>
        have hx16 := (hexDigit_bounds hx).1
        simpa using addDigit_ofNat hx16 l
    have hpair : ((hexDigit h).bind fun x => (hexDigit l).map fun y => 16 * x + y).map
        UInt8.ofNat = hexPair h l := by
      unfold hexPair
      cases hexDigit h with
      | none => rfl
      | some x => cases hexDigit l <;> rfl
    simp [hplus, hh, hfold, hpair]

/-- A byte from 128 on is no digit. -/
theorem hexDigit_eq_none_of_high {b : UInt8} (hb : 128 ≤ b.toNat) : hexDigit b = none := by
  cases hx : hexDigit b with
  | none => rfl
  | some x =>
    have := hexDigit_bounds hx
    omega

/-- Two ASCII bytes are a text of two characters. -/
theorem fromUtf8_ascii_pair {h l : UInt8} (hh : h.toNat < 128) (hl : l.toNat < 128) :
    fromUtf8 [h, l] = some (String.ofList [Char.ofNat h.toNat, Char.ofNat l.toNat]) := by
  rw [← fromUtf8_utf8, utf8_of_ascii]
  · simp [toNat_ofNat_byte]
  · intro c hc
    simp only [String.toList_ofList, List.mem_cons, List.not_mem_nil, or_false] at hc
    rcases hc with rfl | rfl
    · rw [toNat_ofNat_byte]
      exact hh
    · rw [toNat_ofNat_byte]
      exact hl

/-- Two bytes that are not both ASCII are no text, or one whose character is no
digit. -/
theorem decodeEscape_eq_none_of_high {h l : UInt8} (hhigh : ¬ (h.toNat < 128 ∧ l.toNat < 128)) :
    decodeEscape h l = none := by
  unfold decodeEscape
  cases hs : fromUtf8 [h, l] with
  | none => rfl
  | some s =>
    have hbytes := utf8_of_fromUtf8 hs
    by_cases hall : ∀ c ∈ s.toList, c.toNat < 128
    · -- the bytes of an ASCII text are below 128
      rw [utf8_of_ascii hall] at hbytes
      have hlow : ∀ b ∈ [h, l], b.toNat < 128 := by
        rw [← hbytes]
        intro b hb
        obtain ⟨c, hc, rfl⟩ := List.mem_map.mp hb
        have := hall c hc
        rw [UInt8.toNat_ofNat']
        omega
      exact absurd ⟨hlow h (by simp), hlow l (by simp)⟩ hhigh
    · push Not at hall
      obtain ⟨c, hc, hchigh⟩ := hall
      exact fromStrRadix16_eq_none hc hchigh

/-- **What `url_decode` takes for an escape**: two digits, or a plus sign and one. -/
theorem decodeEscape_eq (h l : UInt8) :
    decodeEscape h l =
      (hexPair h l).or (if h = 0x2B then (hexDigit l).map UInt8.ofNat else none) := by
  by_cases hascii : h.toNat < 128 ∧ l.toNat < 128
  · rw [decodeEscape, fromUtf8_ascii_pair hascii.1 hascii.2, Option.bind_some, fromStrRadix16_pair]
  · have hpair : hexPair h l = none := by
      unfold hexPair
      rcases not_and_or.mp hascii with hh | hl
      · rw [hexDigit_eq_none_of_high (Nat.le_of_not_lt hh)]
      · rw [hexDigit_eq_none_of_high (Nat.le_of_not_lt hl)]
        cases hexDigit h <;> rfl
    have hplus : (if h = 0x2B then (hexDigit l).map UInt8.ofNat else none) = none := by
      split_ifs with hh
      · subst hh
        have hl : ¬ l.toNat < 128 := fun hl => hascii ⟨by decide, hl⟩
        rw [hexDigit_eq_none_of_high (Nat.le_of_not_lt hl)]
        rfl
      · rfl
    rw [decodeEscape_eq_none_of_high hascii, hpair, hplus]
    rfl

/-! ### The bytes of the result -/

/-- The encoding of what `url_decode` returns for the bytes of a text. -/
def decodedBytes (bs : Bytes) : Bytes := (urlDecodeBytes bs).flatMap widen

theorem utf8_urlDecode (input : String) : utf8 (urlDecode input) = decodedBytes (utf8 input) := by
  rw [utf8_eq_flatMap, urlDecode, String.toList_ofList, List.flatMap_map]
  rfl

@[simp] theorem decodedBytes_nil : decodedBytes [] = [] := rfl

@[simp] theorem decodedBytes_percentSign : decodedBytes [percentSign] = [percentSign] := by
  decide +kernel

@[simp] theorem decodedBytes_truncated (h : UInt8) :
    decodedBytes [percentSign, h] = [percentSign] := decodedBytes_percentSign

/-- A byte, plain or escaped, is pushed as a character. -/
theorem decodedBytes_readByte {bs rest : Bytes} {v : UInt8}
    (h : readByte bs = some (v, rest)) : decodedBytes bs = widen v ++ decodedBytes rest := by
  rcases readByte_eq_some h with ⟨hv, rfl⟩ | ⟨a, b, rfl, hab⟩
  · have hpush : urlDecodeBytes (v :: rest) = v :: urlDecodeBytes rest := by
      rw [urlDecodeBytes.eq_def]
      simp only [if_neg hv]
    rw [decodedBytes, hpush, List.flatMap_cons]
    rfl
  · have hesc : decodeEscape a b = some v := by
      rw [decodeEscape_eq, hab]
      rfl
    simp [decodedBytes, urlDecodeBytes, hesc]

/-- A percent sign without its digits is pushed, and the two bytes behind it are
lost; only a plus sign and a digit behind it make a byte below 16. -/
theorem decodedBytes_bare {h l : UInt8} (hhl : hexPair h l = none) (rest : Bytes) :
    decodedBytes (percentSign :: h :: l :: rest) = percentSign :: decodedBytes rest ∨
      ∃ w, w.toNat < 16 ∧ h = 0x2B ∧
        decodedBytes (percentSign :: h :: l :: rest) = w :: decodedBytes rest := by
  have hstep : decodedBytes (percentSign :: h :: l :: rest) =
      widen ((decodeEscape h l).getD percentSign) ++ decodedBytes rest := by
    simp [decodedBytes, urlDecodeBytes]
  rw [hstep, decodeEscape_eq, hhl, Option.none_or]
  by_cases hplus : h = 0x2B
  · rw [if_pos hplus]
    cases hx : hexDigit l with
    | none =>
      left
      rw [Option.map_none, Option.getD_none, widen_low (by decide)]
      rfl
    | some x =>
      right
      have hx16 := (hexDigit_bounds hx).1
      have hval : (UInt8.ofNat x).toNat = x := by
        rw [UInt8.toNat_ofNat', Nat.mod_eq_of_lt (by omega)]
      refine ⟨UInt8.ofNat x, by omega, hplus, ?_⟩
      rw [Option.map_some, Option.getD_some, widen_low (by omega)]
      rfl
  · left
    rw [if_neg hplus, Option.getD_none, widen_low (by decide)]
    rfl

/-! ### When the two readings agree -/

/-- The texts that `url_decode` reads right: ASCII characters, escapes of such, and
a percent sign at the very end.  Three more forms come out right because the bytes
that are lost come back in another way: `%%3d` and `%3%3d` for a decimal digit `d`,
and `%Â` with a character from U+0080 to U+00BF behind it, plain or escaped. -/
inductive ReadsRight : Bytes → Prop
  | nil : ReadsRight []
  | percent : ReadsRight [percentSign]
  | byte {bs rest : Bytes} {v : UInt8} (hv : readByte bs = some (v, rest))
      (hlow : v.toNat < 128) (hrest : ReadsRight rest) : ReadsRight bs
  | doubled {d : UInt8} {rest : Bytes} (hd : 48 ≤ d.toNat) (hd' : d.toNat ≤ 57)
      (hrest : ReadsRight rest) :
      ReadsRight (percentSign :: percentSign :: 0x33 :: d :: rest)
  | repeated {d : UInt8} {rest : Bytes} (hd : 48 ≤ d.toNat) (hd' : d.toNat ≤ 57)
      (hrest : ReadsRight rest) :
      ReadsRight (percentSign :: 0x33 :: percentSign :: 0x33 :: d :: rest)
  | circumflex {bs mid rest : Bytes} {w : UInt8} (hc2 : readByte bs = some (0xC2, mid))
      (hw : readByte mid = some (w, rest)) (hlow : 128 ≤ w.toNat) (hhigh : w.toNat < 192)
      (hrest : ReadsRight rest) : ReadsRight (percentSign :: 0xC3 :: 0x82 :: bs)

/-- A decimal digit behind a three is the byte the two denote. -/
theorem hexPair_three {d : UInt8} (hd : 48 ≤ d.toNat) (hd' : d.toNat ≤ 57) :
    hexPair 0x33 d = some d := by
  have hthree : hexDigit 0x33 = some 3 := by decide
  have hdigit : hexDigit d = some (d.toNat - 48) := by
    simp [hexDigit, hd, hd']
  have hval : 16 * 3 + (d.toNat - 48) = d.toNat := by omega
  simp only [hexPair, hthree, hdigit, hval, UInt8.ofNat_toNat]

/-- And no other digit is. -/
theorem hexPair_eq_second {h l : UInt8} (hhl : hexPair h l = some l) :
    h = 0x33 ∧ 48 ≤ l.toNat ∧ l.toNat ≤ 57 := by
  obtain ⟨x, y, hx, hy, hl⟩ := hexPair_eq_some hhl
  obtain ⟨hx16, -, -, hhlow, -⟩ := hexDigit_bounds hx
  obtain ⟨hy16, hl48, -, hllow, hlhigh⟩ := hexDigit_bounds hy
  have hval : l.toNat = 16 * x + y := by
    rw [hl, UInt8.toNat_ofNat', Nat.mod_eq_of_lt (by omega)]
  have hy10 : y < 10 := by
    by_contra hge
    have := hlhigh (Nat.le_of_not_lt hge)
    omega
  have hl10 := hllow hy10
  have hh3 : h.toNat = 51 := by
    rw [hhlow (by omega)]
    omega
  exact ⟨UInt8.toNat_inj.mp hh3, hl48, by omega⟩

/-- A digit is pushed as it is. -/
theorem decodedBytes_digit {b : UInt8} {x : ℕ} (hx : hexDigit b = some x) (rest : Bytes) :
    decodedBytes (b :: rest) = b :: decodedBytes rest := by
  have hne := ne_percentSign_of_hexDigit hx
  have := hexDigit_bounds hx
  have hread : readByte (b :: rest) = some (b, rest) := by simp [readByte, hne]
  rw [decodedBytes_readByte hread, widen_low (by omega)]
  rfl

/-- A byte from 128 on comes out only for a byte from 128 on that was read. -/
theorem decodedBytes_eq_cons_high {bs tail : Bytes} {a : UInt8} (ha : 128 ≤ a.toNat)
    (h : decodedBytes bs = a :: tail) :
    ∃ v rest, readByte bs = some (v, rest) ∧ 128 ≤ v.toNat ∧
      a = UInt8.ofNat (192 + v.toNat / 64) ∧
      tail = UInt8.ofNat (128 + v.toNat % 64) :: decodedBytes rest := by
  have hsign : a ≠ percentSign := by
    rintro rfl
    exact absurd ha (by decide)
  rcases readByte_cases bs with
    rfl | rfl | ⟨b, rfl⟩ | ⟨v, rest, hv⟩ | ⟨b, l, rest, rfl, hbl⟩
  · simp at h
  · rw [decodedBytes_percentSign] at h
    exact absurd (List.cons.inj h).1.symm hsign
  · rw [decodedBytes_truncated] at h
    exact absurd (List.cons.inj h).1.symm hsign
  · rw [decodedBytes_readByte hv] at h
    by_cases hlow : v.toNat < 128
    · rw [widen_low hlow] at h
      obtain ⟨rfl, -⟩ := List.cons.inj h
      omega
    · rw [widen_high (Nat.le_of_not_lt hlow)] at h
      obtain ⟨hfirst, htail⟩ := List.cons.inj h
      exact ⟨v, rest, hv, Nat.le_of_not_lt hlow, hfirst.symm, htail.symm⟩
  · rcases decodedBytes_bare hbl rest with heq | ⟨w, hw, -, heq⟩
    · rw [heq] at h
      exact absurd (List.cons.inj h).1.symm hsign
    · rw [heq] at h
      obtain ⟨rfl, -⟩ := List.cons.inj h
      omega

/-- The two bytes of a byte taken for a character are no ASCII. -/
theorem high_of_mem_widen {v b : UInt8} (hv : 128 ≤ v.toNat) (hb : b ∈ widen v) :
    128 ≤ b.toNat := by
  have hbyte := v.toNat_lt
  rw [widen_high hv, List.mem_cons, List.mem_singleton] at hb
  rcases hb with rfl | rfl <;> rw [UInt8.toNat_ofNat', Nat.mod_eq_of_lt (by omega)] <;> omega

/-- The right reading has bytes more than `url_decode`, an ASCII byte among them. -/
structure Behind (pending bs : Bytes) : Prop where
  /-- One of the bytes is ASCII. -/
  ascii : ∃ a ∈ pending, a.toNat < 128
  /-- The bytes are missing in front. -/
  eq : decodedBytes bs = pending ++ percentDecode bs

/-- Reading one byte more does not make up for it: the missing bytes move on by what is
pushed, and grow by the byte. -/
theorem Behind.readByte {pending bs rest : Bytes} {v : UInt8} (h : Behind pending bs)
    (hv : readByte bs = some (v, rest)) : ∃ pending', Behind pending' rest := by
  obtain ⟨⟨a, ha, hlow⟩, heq⟩ := h
  rw [decodedBytes_readByte hv, percentDecode_readByte hv] at heq
  by_cases hv128 : v.toNat < 128
  · obtain ⟨p, ps, rfl⟩ := List.exists_cons_of_ne_nil (List.ne_nil_of_mem ha)
    rw [widen_low hv128] at heq
    obtain ⟨-, hrest⟩ := List.cons.inj heq
    exact ⟨ps ++ [v], ⟨v, by simp, hv128⟩, by simpa using hrest⟩
  · -- neither of the two bytes pushed is the ASCII one
    have hhigh : 128 ≤ v.toNat := Nat.le_of_not_lt hv128
    have hpushed : ∀ b ∈ widen v, a ≠ b := by
      rintro b hb rfl
      have := high_of_mem_widen hhigh hb
      omega
    obtain ⟨p, ps, rfl⟩ := List.exists_cons_of_ne_nil (List.ne_nil_of_mem ha)
    rw [widen_high hhigh] at heq hpushed
    obtain ⟨rfl, htail⟩ := List.cons.inj heq
    have ha := (List.mem_cons.mp ha).resolve_left (hpushed _ (by simp))
    obtain ⟨q, qs, rfl⟩ := List.exists_cons_of_ne_nil (List.ne_nil_of_mem ha)
    obtain ⟨rfl, hrest⟩ := List.cons.inj htail
    have ha := (List.mem_cons.mp ha).resolve_left (hpushed _ (by simp))
    exact ⟨qs ++ [v], ⟨a, List.mem_append_left _ ha, hlow⟩, by simpa using hrest⟩

/-- Nor does a percent sign without its digits, behind which two bytes are lost. -/
theorem Behind.bare {pending rest : Bytes} {h l : UInt8}
    (hbehind : Behind pending (percentSign :: h :: l :: rest)) (hhl : hexPair h l = none) :
    ∃ pending' rest', rest'.length ≤ rest.length ∧ Behind pending' rest' := by
  obtain ⟨⟨a, ha, -⟩, heq⟩ := hbehind
  obtain ⟨p, ps, rfl⟩ := List.exists_cons_of_ne_nil (List.ne_nil_of_mem ha)
  have htail : decodedBytes rest = ps ++ percentSign :: percentDecode (h :: l :: rest) := by
    rw [percentDecode_bare hhl] at heq
    rcases decodedBytes_bare hhl rest with hout | ⟨w, -, -, hout⟩
    · rw [hout] at heq
      exact (List.cons.inj heq).2
    · rw [hout] at heq
      exact (List.cons.inj heq).2
  -- the sign itself is missing from now on
  have hsign : percentSign.toNat < 128 := by decide
  rcases percentDecode_swallowed hhl rest with
    ⟨y, z, v, rest', rfl, rfl, hyz, hpd⟩ | ⟨z, v, rest', rfl, rfl, hlz, hpd⟩ | hpd
  · obtain ⟨x, x', hy, hz, -⟩ := hexPair_eq_some hyz
    rw [hpd, decodedBytes_digit hy, decodedBytes_digit hz] at htail
    rcases ps with _ | ⟨q, _ | ⟨r, rs⟩⟩
    · exact absurd (List.cons.inj htail).1 (ne_percentSign_of_hexDigit hy)
    · exact absurd (List.cons.inj (List.cons.inj htail).2).1 (ne_percentSign_of_hexDigit hz)
    · refine ⟨rs ++ [percentSign, h, v], rest', by simp only [List.length_cons]; omega,
        ⟨percentSign, by simp, hsign⟩, ?_⟩
      simpa using (List.cons.inj (List.cons.inj htail).2).2
  · obtain ⟨x, x', hl, hz, -⟩ := hexPair_eq_some hlz
    rw [hpd, decodedBytes_digit hz] at htail
    rcases ps with _ | ⟨q, rs⟩
    · exact absurd (List.cons.inj htail).1 (ne_percentSign_of_hexDigit hz)
    · refine ⟨rs ++ [percentSign, v], rest', by simp only [List.length_cons]; omega,
        ⟨percentSign, by simp, hsign⟩, ?_⟩
      simpa using (List.cons.inj htail).2
  · refine ⟨ps ++ [percentSign, h, l], rest, le_rfl, ⟨percentSign, by simp, hsign⟩, ?_⟩
    rw [htail, hpd]
    simp

/-- **What falls behind stays behind**: once the right reading has an ASCII byte
more, `url_decode` does not make up for it. -/
theorem not_behind (pending bs : Bytes) : ¬ Behind pending bs := by
  induction hn : bs.length using Nat.strong_induction_on generalizing bs pending with
  | _ n ih =>
  subst hn
  intro hbehind
  obtain ⟨a, ha, -⟩ := hbehind.ascii
  have hpos : 0 < pending.length := List.length_pos_of_mem ha
  have hlen := congrArg List.length hbehind.eq
  rcases readByte_cases bs with
    rfl | rfl | ⟨h, rfl⟩ | ⟨v, rest, hv⟩ | ⟨h, l, rest, rfl, hhl⟩
  · rw [decodedBytes_nil, List.length_append, List.length_nil] at hlen
    omega
  · rw [decodedBytes_percentSign, List.length_append] at hlen
    simp only [percentDecode, List.length_cons, List.length_nil] at hlen
    omega
  · rw [decodedBytes_truncated, List.length_append] at hlen
    simp only [percentDecode, List.length_cons, List.length_nil] at hlen
    omega
  · obtain ⟨pending', hrest⟩ := hbehind.readByte hv
    exact ih _ (length_readByte hv) pending' rest rfl hrest
  · obtain ⟨pending', rest', hlen, hrest⟩ := hbehind.bare hhl
    exact ih _ (by simp only [List.length_cons]; omega) pending' rest' rfl hrest

/-- **What runs ahead stays ahead**: once `url_decode` has pushed a byte from 128 on
too many, it only ever pushes more. -/
theorem decodedBytes_ne_ahead {bs ahead : Bytes} (hne : ahead ≠ [])
    (hhigh : ∀ b ∈ ahead, 128 ≤ b.toNat) : ahead ++ decodedBytes bs ≠ percentDecode bs := by
  induction hn : bs.length using Nat.strong_induction_on generalizing bs ahead with
  | _ n ih =>
  subst hn
  intro heq
  obtain ⟨a, as, rfl⟩ := List.exists_cons_of_ne_nil hne
  have hsign : a ≠ percentSign := by
    rintro rfl
    exact absurd (hhigh _ List.mem_cons_self) (by decide)
  rcases readByte_cases bs with
    rfl | rfl | ⟨h, rfl⟩ | ⟨v, rest, hv⟩ | ⟨h, l, rest, rfl, hhl⟩
  · simp at heq
  · exact hsign (List.cons.inj heq).1
  · exact hsign (List.cons.inj heq).1
  · rw [decodedBytes_readByte hv, percentDecode_readByte hv] at heq
    obtain ⟨rfl, hrest⟩ := List.cons.inj heq
    have hv128 := hhigh a List.mem_cons_self
    have hdead : (as ++ widen a) ++ decodedBytes rest ≠ percentDecode rest := by
      refine ih _ (length_readByte hv) ?_ ?_ rfl
      · simp [widen_high hv128]
      · intro b hb
        rcases List.mem_append.mp hb with hb | hb
        · exact hhigh b (List.mem_cons_of_mem _ hb)
        · exact high_of_mem_widen hv128 hb
    exact hdead (by simpa using hrest)
  · rw [percentDecode_bare hhl] at heq
    exact hsign (List.cons.inj heq).1

/-- A byte that is the second of its own two is below 192, and the first is `C2`. -/
theorem first_of_second_eq {w : UInt8} (hw : 128 ≤ w.toNat)
    (h : w = UInt8.ofNat (128 + w.toNat % 64)) :
    w.toNat < 192 ∧ UInt8.ofNat (192 + w.toNat / 64) = 0xC2 := by
  have hbyte := w.toNat_lt
  have hlt : w.toNat < 192 := by
    have := congrArg UInt8.toNat h
    rw [UInt8.toNat_ofNat', Nat.mod_eq_of_lt (by omega)] at this
    omega
  have hdiv : 192 + w.toNat / 64 = 194 := by omega
  refine ⟨hlt, ?_⟩
  rw [hdiv]
  rfl

/-- The two bytes that are lost come back only as `Â`, through a `C2` and a byte
from 128 to 191. -/
theorem lost_of_decodedBytes_eq {bs : Bytes} {h l : UInt8}
    (heq : decodedBytes bs = h :: l :: percentDecode bs) :
    h = 0xC3 ∧ l = 0x82 ∧ ∃ mid w rest, readByte bs = some (0xC2, mid) ∧
      readByte mid = some (w, rest) ∧ 128 ≤ w.toNat ∧ w.toNat < 192 ∧
      decodedBytes rest = percentDecode rest := by
  have hall : ∀ b ∈ [h, l], 128 ≤ b.toNat := by
    intro b hb
    by_contra hlow
    exact not_behind _ _ ⟨⟨_, hb, Nat.lt_of_not_le hlow⟩, heq⟩
  obtain ⟨v, mid, hv, hv128, hh, htail⟩ :=
    decodedBytes_eq_cons_high (hall h (by simp)) heq
  obtain ⟨hl, hmid⟩ := List.cons.inj htail
  rw [percentDecode_readByte hv] at hmid
  obtain ⟨w, rest, hw, hw128, hv', htail'⟩ := decodedBytes_eq_cons_high hv128 hmid.symm
  rw [percentDecode_readByte hw] at htail'
  obtain ⟨hw', hrest⟩ := List.cons.inj htail'
  obtain ⟨hw192, hc2⟩ := first_of_second_eq hw128 hw'
  obtain rfl : v = 0xC2 := hv'.trans hc2
  exact ⟨hh, hl, mid, w, rest, hv, hw, hw128, hw192, hrest.symm⟩

theorem decodedBytes_lost {h l : UInt8} (hhl : hexPair h l = none) (hplus : h ≠ 0x2B)
    (rest : Bytes) :
    decodedBytes (percentSign :: h :: l :: rest) = percentSign :: decodedBytes rest := by
  rcases decodedBytes_bare hhl rest with hout | ⟨w, -, hh, -⟩
  · exact hout
  · exact absurd hh hplus

/-- The two bytes of `Â` are lost, and come back as those of the `C2` behind them;
that byte comes back as the first of the next. -/
theorem decodedBytes_circumflex {bs mid rest : Bytes} {w : UInt8}
    (hc2 : readByte bs = some (0xC2, mid)) (hw : readByte mid = some (w, rest))
    (hlow : 128 ≤ w.toNat) (hhigh : w.toNat < 192) :
    decodedBytes (percentSign :: 0xC3 :: 0x82 :: bs) =
      percentSign :: 0xC3 :: 0x82 :: 0xC2 :: w :: decodedBytes rest := by
  have hfirst : widen 0xC2 = [0xC3, 0x82] := by decide +kernel
  have hsecond : widen w = [0xC2, w] := by
    have hdiv : 192 + w.toNat / 64 = 194 := by omega
    have hmod : 128 + w.toNat % 64 = w.toNat := by omega
    rw [widen_high hlow, hdiv, hmod, UInt8.ofNat_toNat]
    rfl
  rw [decodedBytes_lost (by decide) (by decide), decodedBytes_readByte hc2,
    decodedBytes_readByte hw, hfirst, hsecond]
  rfl

/-- A text that reads right is decoded as it should be. -/
theorem ReadsRight.decodedBytes_eq {bs : Bytes} (h : ReadsRight bs) :
    decodedBytes bs = percentDecode bs := by
  have hthree : hexDigit 0x33 = some 3 := by decide
  induction h with
  | nil => rfl
  | percent => exact decodedBytes_percentSign
  | byte hv hlow _ ih =>
    rw [decodedBytes_readByte hv, percentDecode_readByte hv, widen_low hlow, ih]
    rfl
  | @doubled d rest hd hd' _ ih =>
    have hdigit : hexDigit d = some (d.toNat - 48) := by simp [hexDigit, hd, hd']
    rw [decodedBytes_lost (hexPair_percentSign_left _) (by decide), decodedBytes_digit hdigit,
      percentDecode_bare (hexPair_percentSign_left _), percentDecode_escape (hexPair_three hd hd'),
      ih]
  | @repeated d rest hd hd' _ ih =>
    have hdigit : hexDigit d = some (d.toNat - 48) := by simp [hexDigit, hd, hd']
    rw [decodedBytes_lost (hexPair_percentSign_right _) (by decide), decodedBytes_digit hthree,
      decodedBytes_digit hdigit, percentDecode_bare (hexPair_percentSign_right _),
      percentDecode_plain (ne_percentSign_of_hexDigit hthree),
      percentDecode_escape (hexPair_three hd hd'), ih]
  | @circumflex bs mid rest w hc2 hw hlow hhigh _ ih =>
    have hlost : hexPair 0xC3 0x82 = none := by decide
    rw [decodedBytes_circumflex hc2 hw hlow hhigh, percentDecode_bare hlost,
      percentDecode_plain (by decide), percentDecode_plain (by decide),
      percentDecode_readByte hc2, percentDecode_readByte hw, ih]

/-- A text that is decoded as it should be reads right. -/
theorem readsRight_of_decodedBytes_eq {bs : Bytes} (heq : decodedBytes bs = percentDecode bs) :
    ReadsRight bs := by
  induction hn : bs.length using Nat.strong_induction_on generalizing bs with
  | _ n ih =>
  subst hn
  rcases readByte_cases bs with
    rfl | rfl | ⟨h, rfl⟩ | ⟨v, rest, hv⟩ | ⟨h, l, rest, rfl, hhl⟩
  · exact .nil
  · exact .percent
  · rw [decodedBytes_truncated] at heq
    exact absurd (congrArg List.length heq) (by simp [percentDecode])
  · rw [decodedBytes_readByte hv, percentDecode_readByte hv] at heq
    by_cases hlow : v.toNat < 128
    · rw [widen_low hlow] at heq
      exact .byte hv hlow (ih _ (length_readByte hv) (List.cons.inj heq).2 rfl)
    · have hv128 := Nat.le_of_not_lt hlow
      have htwo := widen_high hv128
      rw [htwo] at heq
      have hdead : [UInt8.ofNat (128 + v.toNat % 64)] ++ decodedBytes rest ≠
          percentDecode rest := by
        refine decodedBytes_ne_ahead (by simp) ?_
        intro b hb
        exact high_of_mem_widen hv128 (by rw [htwo]; exact List.mem_cons_of_mem _ hb)
      exact absurd (List.cons.inj heq).2 hdead
  · rw [percentDecode_bare hhl] at heq
    have htail : decodedBytes rest = percentDecode (h :: l :: rest) := by
      rcases decodedBytes_bare hhl rest with hout | ⟨w, hw, -, hout⟩
      · rw [hout] at heq
        exact (List.cons.inj heq).2
      · rw [hout] at heq
        rw [(List.cons.inj heq).1] at hw
        exact absurd hw (by decide)
    have hshorter : ∀ {rest' : Bytes}, rest'.length ≤ rest.length →
        rest'.length < (percentSign :: h :: l :: rest).length := by
      intro rest' hle
      simp only [List.length_cons]
      omega
    rcases percentDecode_swallowed hhl rest with
      ⟨y, z, v, rest', rfl, rfl, hyz, hpd⟩ | ⟨z, v, rest', rfl, rfl, hlz, hpd⟩ | hpd
    · obtain ⟨x, x', hy, hz, -⟩ := hexPair_eq_some hyz
      rw [hpd, decodedBytes_digit hy, decodedBytes_digit hz] at htail
      obtain ⟨rfl, htail'⟩ := List.cons.inj htail
      obtain ⟨rfl, hrest⟩ := List.cons.inj htail'
      obtain ⟨rfl, hd, hd'⟩ := hexPair_eq_second hyz
      exact .repeated hd hd' (ih _ (hshorter (by simp only [List.length_cons]; omega)) hrest rfl)
    · obtain ⟨x, x', hl, hz, -⟩ := hexPair_eq_some hlz
      rw [hpd, decodedBytes_digit hz] at htail
      obtain ⟨rfl, hrest⟩ := List.cons.inj htail
      obtain ⟨rfl, hd, hd'⟩ := hexPair_eq_second hlz
      exact .doubled hd hd' (ih _ (hshorter (by simp only [List.length_cons]; omega)) hrest rfl)
    · rw [hpd] at htail
      obtain ⟨rfl, rfl, mid, w, rest', hc2, hw, hw128, hw192, hrest⟩ :=
        lost_of_decodedBytes_eq htail
      have hle := (length_readByte hw).trans (length_readByte hc2)
      exact .circumflex hc2 hw hw128 hw192 (ih _ (hshorter hle.le) hrest rfl)

/-- **The two readings agree exactly on the texts that read right.** -/
theorem readsRight_iff (bs : Bytes) : ReadsRight bs ↔ decodedBytes bs = percentDecode bs :=
  ⟨ReadsRight.decodedBytes_eq, readsRight_of_decodedBytes_eq⟩

/-- **`url_decode` is percent-decoding exactly on the texts that read right**, and on
those that decode to no text at all. -/
theorem decodesPercent_iff (input : String) :
    DecodesPercent input ↔
      fromUtf8 (percentDecode (utf8 input)) = none ∨ ReadsRight (utf8 input) := by
  rw [readsRight_iff, ← utf8_urlDecode]
  constructor
  · intro h
    cases htext : fromUtf8 (percentDecode (utf8 input)) with
    | none => exact .inl rfl
    | some text =>
      have hbytes := utf8_of_fromUtf8 htext
      exact .inr (by rw [h text hbytes, hbytes])
  · rintro (hnone | heq) text htext
    · rw [← htext, fromUtf8_utf8] at hnone
      exact absurd hnone (by simp)
    · exact utf8_injective (heq.trans htext.symm)

/-- The escapes of `é` come out as the two characters `Ã©`. -/
theorem not_decodesPercent_accent : ¬ DecodesPercent "/tmp/%C3%A9" := by
  intro h
  have hbytes : utf8 "/tmp/é" = percentDecode (utf8 "/tmp/%C3%A9") := by decide +kernel
  have hwrong : utf8 (urlDecode "/tmp/%C3%A9") = utf8 "/tmp/Ã©" := by
    rw [utf8_urlDecode]
    decide +kernel
  have hsame : utf8 "/tmp/é" = utf8 "/tmp/Ã©" := by rw [← hwrong, h _ hbytes]
  exact absurd hsame (by decide +kernel)

end P2pClipboard
