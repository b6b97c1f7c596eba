import P2pClipboard.Lib.Lines
import P2pClipboard.UrlDecode

/-!
# The file list on the clipboard

`set_clipboard_file_list_linux` writes each path as it is behind `file://`, one on
a line.  `parse_uri_list` takes the lines apart again, trims them, decodes them
with `url_decode` and keeps the paths that exist.  Nothing is escaped on the way
out, so a path comes back when nothing in it is taken for an escape, a line break
or white space at its end, and when it is ASCII.

## Main definitions

* `uriList`, `parseUriList` — the text written, and what is read from it.
* `ReadsVerbatim` — the byte strings that `url_decode` leaves alone.
* `ReadsBack` — a path that comes back.

## Main results

* `readsVerbatim_or_of_decodedBytes` — what `url_decode` may add to a text it
  otherwise leaves alone.
* `parseUriList_uriList_iff` — **a list of paths is read back exactly when each of
  them is.**
-/

namespace P2pClipboard

open Percent Lines

/-! ### The functions -/

/-- The `text/uri-list` text `set_clipboard_file_list_linux` writes. -/
def uriList (paths : List String) : String :=
  "\n".intercalate (paths.map fun p => "file://" ++ p)

/-- The path in a line of `parse_uri_list` that has been trimmed, unless it is a
comment or does not exist. -/
def parseTrimmed (pathExists : String → Bool) (trimmed : List Char) : Option String :=
  if trimmed.head? == some '#' || trimmed.isEmpty then none
  else if "file://".toList.isPrefixOf trimmed then
    let decoded := urlDecode (String.ofList (trimmed.drop "file://".toList.length))
    if pathExists decoded then some decoded else none
  else none

/-- One line of `parse_uri_list`. -/
def parseUriLine (pathExists : String → Bool) (line : List Char) : Option String :=
  parseTrimmed pathExists (trim line)

/-- `parse_uri_list`, for the paths that exist. -/
def parseUriList (pathExists : String → Bool) (text : String) : Option (List String) :=
  let files := (lines text.toList).filterMap (parseUriLine pathExists)
  if files.isEmpty then none else some files

/-! ### Counting ASCII characters -/

/-- An ASCII character. -/
def isAsciiChar (c : Char) : Bool := c.toNat < 128

/-- An ASCII byte. -/
def isAsciiByte (b : UInt8) : Bool := b.toNat < 128

/-- A text has as many ASCII bytes as ASCII characters. -/
theorem countP_utf8 (s : String) :
    (utf8 s).countP isAsciiByte = s.toList.countP isAsciiChar := by
  rw [utf8_eq_flatMap]
  induction s.toList with
  | nil => rfl
  | cons c cs ih =>
    rw [List.flatMap_cons, List.countP_append, ih, List.countP_cons]
    by_cases hc : c.toNat < 128
    · have hbyte : (UInt8.ofNat c.toNat).toNat < 128 := by
        rw [UInt8.toNat_ofNat', Nat.mod_eq_of_lt (by omega)]
        exact hc
      rw [utf8EncodeChar_of_ascii hc, List.countP_singleton]
      simp only [isAsciiByte, isAsciiChar, hc, hbyte, decide_true, if_true]
      omega
    · have hnone : (String.utf8EncodeChar c).countP isAsciiByte = 0 := by
        rw [List.countP_eq_zero]
        intro b hb
        have := high_of_mem_utf8EncodeChar (Nat.le_of_not_lt hc) hb
        simp only [isAsciiByte, decide_eq_true_eq]
        omega
      simp only [hnone, isAsciiChar, hc, decide_false]
      simp

/-- **No ASCII comes out that did not go in.** -/
theorem countP_urlDecodeBytes_le (bs : Bytes) :
    (urlDecodeBytes bs).countP isAsciiByte ≤ bs.countP isAsciiByte := by
  have hsign : isAsciiByte percentSign = true := by decide
  fun_induction urlDecodeBytes bs with
  | case1 => exact le_rfl
  | case2 h l rest' ih =>
    -- at most one byte for the percent sign, and two are gone
    have hone : ∀ b : UInt8, (if isAsciiByte b = true then 1 else 0) ≤ 1 := fun b => by
      split <;> decide
    rw [List.countP_cons, List.countP_cons, List.countP_cons, List.countP_cons, hsign, if_pos rfl]
    apply (Nat.add_le_add ih (hone _)).trans
    apply Nat.add_le_add_right
    rw [Nat.add_assoc]
    exact Nat.le_add_right _ _
  | case3 rest => exact ((List.nil_sublist _).cons_cons _).countP_le
  | case4 b rest hb ih =>
    rw [List.countP_cons, List.countP_cons]
    omega

theorem countP_decodedBytes_le (bs : Bytes) :
    (decodedBytes bs).countP isAsciiByte ≤ bs.countP isAsciiByte := by
  refine le_trans (le_of_eq ?_) (countP_urlDecodeBytes_le bs)
  unfold decodedBytes
  induction urlDecodeBytes bs with
  | nil => rfl
  | cons b rest ih =>
    rw [List.flatMap_cons, List.countP_append, ih, List.countP_cons]
    by_cases hb : b.toNat < 128
    · rw [widen_low hb, List.countP_singleton]
      omega
    · have hnone : (widen b).countP isAsciiByte = 0 := by
        rw [List.countP_eq_zero]
        intro d hd
        have := high_of_mem_widen (Nat.le_of_not_lt hb) hd
        simp only [isAsciiByte, decide_eq_true_eq]
        omega
      simp only [hnone, isAsciiByte, hb, decide_false]
      simp

/-- And so at the level of texts. -/
theorem countP_urlDecode_le (s : String) :
    (urlDecode s).toList.countP isAsciiChar ≤ s.toList.countP isAsciiChar := by
  rw [← countP_utf8, ← countP_utf8, utf8_urlDecode]
  exact countP_decodedBytes_le _

/-! ### Texts that are left alone -/

/-- The byte strings that `url_decode` leaves alone: ASCII without percent signs,
but for one at the very end.  One more form is left alone because the bytes that
are lost come back: `%Â` with a character from U+0080 to U+00BF behind it. -/
inductive ReadsVerbatim : Bytes → Prop
  | nil : ReadsVerbatim []
  | percent : ReadsVerbatim [percentSign]
  | ascii {b : UInt8} {rest : Bytes} (hb : b ≠ percentSign) (hlow : b.toNat < 128)
      (hrest : ReadsVerbatim rest) : ReadsVerbatim (b :: rest)
  | circumflex {w : UInt8} {rest : Bytes} (hlow : 128 ≤ w.toNat) (hhigh : w.toNat < 192)
      (hrest : ReadsVerbatim rest) :
      ReadsVerbatim (percentSign :: 0xC3 :: 0x82 :: 0xC2 :: w :: rest)

/-- The bytes that `url_decode` makes out of `C3` alone. -/
def accentBytes : Bytes := [0xC2, 0xC3, 0x82, 0x83]

/-- An ASCII byte that is lost does not come back. -/
theorem decodedBytes_ne_append {bs lost extra : Bytes} {a : UInt8} (ha : a ∈ lost)
    (hlow : a.toNat < 128) : decodedBytes bs ≠ lost ++ bs ++ extra := by
  intro heq
  have hcount := countP_decodedBytes_le bs
  have hlost : 0 < lost.countP isAsciiByte :=
    List.countP_pos_iff.mpr ⟨a, ha, by simp [isAsciiByte, hlow]⟩
  rw [heq, List.countP_append, List.countP_append] at hcount
  omega

/-- **What runs ahead is made of accents**: bytes that come out too many and are all
made out of `C3` stay too many, and stay of that kind. -/
theorem accent_of_ahead {bs ahead extra : Bytes} (hne : ahead ≠ [])
    (hall : ∀ b ∈ ahead, b ∈ accentBytes) (heq : ahead ++ decodedBytes bs = bs ++ extra) :
    extra ≠ [] ∧ ∀ b ∈ extra, b ∈ accentBytes := by
  induction bs generalizing ahead with
  | nil =>
    rw [decodedBytes_nil, List.append_nil, List.nil_append] at heq
    exact heq ▸ ⟨hne, hall⟩
  | cons b bs ih =>
    obtain ⟨a, as, rfl⟩ := List.exists_cons_of_ne_nil hne
    rw [List.cons_append, List.cons_append] at heq
    obtain ⟨rfl, htail⟩ := List.cons.inj heq
    have hread : readByte (a :: bs) = some (a, bs) ∧ widen a ≠ [] ∧
        ∀ d ∈ widen a, d ∈ accentBytes := by
      have hmem := hall a List.mem_cons_self
      have hplain : a ≠ percentSign := by
        rintro rfl
        exact absurd hmem (by decide)
      refine ⟨by simp [readByte, hplain], ?_⟩
      simp only [accentBytes, List.mem_cons, List.not_mem_nil, or_false] at hmem
      rcases hmem with rfl | rfl | rfl | rfl <;> decide +kernel
    obtain ⟨hread, hwne, hwall⟩ := hread
    rw [decodedBytes_readByte hread, ← List.append_assoc] at htail
    refine ih (by simp [hwne]) ?_ htail
    intro d hd
    rcases List.mem_append.mp hd with hd | hd
    · exact hall d (List.mem_cons_of_mem _ hd)
    · exact hwall d hd

/-- The two bytes that are lost come back only as `Â`, through a plain `C2` and a
plain byte from 128 to 191. -/
theorem lost_of_decodedBytes_append {bs extra : Bytes} {h l : UInt8}
    (heq : decodedBytes bs = h :: l :: bs ++ extra) :
    h = 0xC3 ∧ l = 0x82 ∧ ∃ w rest, bs = 0xC2 :: w :: rest ∧
      128 ≤ w.toNat ∧ w.toNat < 192 ∧ decodedBytes rest = rest ++ extra := by
  have hall : ∀ b ∈ [h, l], 128 ≤ b.toNat := by
    intro b hb
    by_contra hlow
    exact decodedBytes_ne_append hb (Nat.lt_of_not_le hlow) heq
  obtain ⟨v, mid, hv, hv128, hh, htail⟩ :=
    decodedBytes_eq_cons_high (hall h (by simp)) heq
  obtain ⟨hl, hmid⟩ := List.cons.inj htail
  -- an escape would lose its digits
  have hplain : bs = v :: mid := by
    rcases readByte_eq_some hv with ⟨-, hbs⟩ | ⟨a, b, hbs, -⟩
    · exact hbs
    · have hlost : decodedBytes mid = [percentSign, a, b] ++ mid ++ extra := by
        rw [← hmid, hbs]
        rfl
      exact absurd hlost (decodedBytes_ne_append (a := percentSign) (by simp) (by decide))
  rw [hplain] at hmid
  obtain ⟨w, rest, hw, hw128, hv', htail'⟩ := decodedBytes_eq_cons_high hv128 hmid.symm
  have hwbyte := w.toNat_lt
  have hsecond : (UInt8.ofNat (128 + w.toNat % 64)).toNat = 128 + w.toNat % 64 := by
    rw [UInt8.toNat_ofNat', Nat.mod_eq_of_lt (by omega)]
  rcases readByte_eq_some hw with ⟨-, hmidw⟩ | ⟨a, b, hmidw, -⟩
  · rw [hmidw] at htail'
    obtain ⟨hw', hrest⟩ := List.cons.inj htail'
    obtain ⟨hw192, hc2⟩ := first_of_second_eq hw128 hw'
    obtain rfl : v = 0xC2 := hv'.trans hc2
    exact ⟨hh, hl, w, rest, by rw [hplain, hmidw], hw128, hw192, hrest.symm⟩
  · rw [hmidw] at htail'
    have := congrArg UInt8.toNat (List.cons.inj htail').1
    rw [hsecond] at this
    have hsign : percentSign.toNat = 37 := rfl
    omega

/-- **A text that is left alone reads verbatim**; what may be added behind it is made
of accents. -/
theorem readsVerbatim_or_of_decodedBytes {bs extra : Bytes}
    (heq : decodedBytes bs = bs ++ extra) :
    (extra = [] ∧ ReadsVerbatim bs) ∨ (extra ≠ [] ∧ ∀ b ∈ extra, b ∈ accentBytes) := by
  induction hn : bs.length using Nat.strong_induction_on generalizing bs with
  | _ n ih =>
  subst hn
  rcases readByte_cases bs with
    rfl | rfl | ⟨h, rfl⟩ | ⟨v, rest, hv⟩ | ⟨h, l, rest, rfl, hhl⟩
  · exact .inl ⟨by simpa using heq.symm, .nil⟩
  · rw [decodedBytes_percentSign] at heq
    exact .inl ⟨by simpa using heq.symm, .percent⟩
  · rw [decodedBytes_truncated] at heq
    simp at heq
  · rw [decodedBytes_readByte hv] at heq
    rcases readByte_eq_some hv with ⟨hplain, rfl⟩ | ⟨a, b, rfl, hab⟩
    · by_cases hlow : v.toNat < 128
      · rw [widen_low hlow] at heq
        rcases ih _ (length_readByte hv) (List.cons.inj heq).2 rfl with ⟨hnil, hrest⟩ | hextra
        · exact .inl ⟨hnil, .ascii hplain hlow hrest⟩
        · exact .inr hextra
      · -- the byte is `C3`, and its second byte runs ahead
        have hvbyte := v.toNat_lt
        rw [widen_high (Nat.le_of_not_lt hlow)] at heq
        obtain ⟨hfirst, htail⟩ := List.cons.inj heq
        have hc3 : v.toNat = 195 := by
          have := congrArg UInt8.toNat hfirst
          rw [UInt8.toNat_ofNat', Nat.mod_eq_of_lt (by omega)] at this
          omega
        rw [hc3] at htail
        exact .inr (accent_of_ahead (by simp) (List.forall_mem_singleton.mpr (by decide)) htail)
    · -- an escape of a percent sign would lose its digits
      by_cases hlow : v.toNat < 128
      · rw [widen_low hlow] at heq
        have hlost : decodedBytes rest = [a, b] ++ rest ++ extra := (List.cons.inj heq).2
        obtain ⟨x, -, hx, -⟩ := hexPair_eq_some hab
        have := hexDigit_bounds hx
        exact absurd hlost (decodedBytes_ne_append (a := a) (by simp) (by omega))
      · have hfirst : percentSign ∈ widen v := by
          rw [widen_high (Nat.le_of_not_lt hlow)] at heq ⊢
          rw [← (List.cons.inj heq).1]
          exact List.mem_cons_self
        exact absurd (high_of_mem_widen (Nat.le_of_not_lt hlow) hfirst) (by decide)
  · have hrest : decodedBytes rest = h :: l :: rest ++ extra := by
      rcases decodedBytes_bare hhl rest with hout | ⟨w, hw, -, hout⟩ <;> rw [hout] at heq
      · exact (List.cons.inj heq).2
      · rw [(List.cons.inj heq).1] at hw
        exact absurd hw (by decide)
    obtain ⟨rfl, rfl, w, rest', rfl, hw128, hw192, hagain⟩ := lost_of_decodedBytes_append hrest
    have hshorter : rest'.length <
        (percentSign :: 0xC3 :: 0x82 :: 0xC2 :: w :: rest').length := by
      simp only [List.length_cons]
      omega
    rcases ih _ hshorter hagain rfl with ⟨hnil, hverb⟩ | hextra
    · exact .inl ⟨hnil, .circumflex hw128 hw192 hverb⟩
    · exact .inr hextra

/-- And what reads verbatim is left alone. -/
theorem ReadsVerbatim.decodedBytes_eq {bs : Bytes} (h : ReadsVerbatim bs) :
    decodedBytes bs = bs := by
  induction h with
  | nil => rfl
  | percent => exact decodedBytes_percentSign
  | @ascii b rest hb hlow _ ih =>
    have hread : readByte (b :: rest) = some (b, rest) := by simp [readByte, hb]
    rw [decodedBytes_readByte hread, widen_low hlow, ih]
    rfl
  | @circumflex w rest hlow hhigh _ ih =>
    have hplain : w ≠ percentSign := by
      rintro rfl
      exact absurd hlow (by decide)
    have hc2 : readByte (0xC2 :: w :: rest) = some (0xC2, w :: rest) := rfl
    have hw : readByte (w :: rest) = some (w, rest) := by simp [readByte, hplain]
    rw [decodedBytes_circumflex hc2 hw hlow hhigh, ih]

/-- In particular plain ASCII is. -/
theorem readsVerbatim_of_ascii {bs : Bytes}
    (h : ∀ b ∈ bs, (isAsciiByte b && b != percentSign) = true) : ReadsVerbatim bs := by
  induction bs with
  | nil => exact .nil
  | cons b rest ih =>
    obtain ⟨hlow, hplain⟩ := Bool.and_eq_true_iff.mp (h b List.mem_cons_self)
    exact .ascii (by simpa using hplain) (by simpa [isAsciiByte] using hlow)
      (ih fun d hd => h d (List.mem_cons_of_mem _ hd))

/-! ### Paths that come back -/

/-- A path that comes back: no line break, no white space at its end, and nothing
that `url_decode` changes. -/
def ReadsBack (path : String) : Prop :=
  '\n' ∉ path.toList ∧ path.toList.getLast?.any isWhitespace = false ∧ ReadsVerbatim (utf8 path)

/-- White space is not made of accents. -/
theorem exists_not_accent_of_isWhitespace {c : Char} (h : isWhitespace c = true) :
    ∃ b ∈ String.utf8EncodeChar c, b ∉ accentBytes := by
  have hspaces : ∀ n ∈ [9, 10, 11, 12, 13, 0x20, 0x85, 0xA0, 0x1680, 0x2000, 0x2001, 0x2002,
      0x2003, 0x2004, 0x2005, 0x2006, 0x2007, 0x2008, 0x2009, 0x200A, 0x2028, 0x2029, 0x202F,
      0x205F, 0x3000], ∃ b ∈ String.utf8EncodeChar (Char.ofNat n), b ∉ accentBytes := by
    decide +kernel
  have hmem := hspaces c.toNat (by
    simp only [isWhitespace, Bool.or_eq_true, Bool.and_eq_true, decide_eq_true_eq,
      beq_iff_eq] at h
    simp only [List.mem_cons, List.not_mem_nil, or_false]
    omega)
  rwa [Char.ofNat_toNat] at hmem

/-- **A path comes back through trimming and decoding exactly when it reads back**,
line breaks aside. -/
theorem urlDecode_trimEnd_eq_iff (path : String) :
    urlDecode (String.ofList (trimEnd path.toList)) = path ↔
      path.toList.getLast?.any isWhitespace = false ∧ ReadsVerbatim (utf8 path) := by
  rw [← trimEnd_eq_self_iff]
  constructor
  · intro heq
    have hsplit : trimEnd path.toList ++ path.toList.rtakeWhile isWhitespace = path.toList :=
      List.rdropWhile_append_rtakeWhile
    have hbytes : decodedBytes (utf8 (String.ofList (trimEnd path.toList))) =
        utf8 (String.ofList (trimEnd path.toList)) ++
          utf8 (String.ofList (path.toList.rtakeWhile isWhitespace)) := by
      rw [← utf8_urlDecode, heq, ← utf8_append, ← String.ofList_append, hsplit,
        String.ofList_toList]
    rcases readsVerbatim_or_of_decodedBytes hbytes with ⟨hnil, hverb⟩ | ⟨hne, hall⟩
    · have hspace : path.toList.rtakeWhile isWhitespace = [] := by
        have := utf8_injective (t := "") hnil
        simpa using congrArg String.toList this
      rw [hspace, List.append_nil] at hsplit
      rw [hsplit, String.ofList_toList] at hverb
      exact ⟨hsplit, hverb⟩
    · -- what was trimmed would have to be made of accents
      cases hspace : path.toList.rtakeWhile isWhitespace with
      | nil =>
        rw [hspace] at hne
        exact absurd rfl hne
      | cons c cs =>
        have hc : isWhitespace c = true :=
          List.mem_rtakeWhile_imp (l := path.toList) (by rw [hspace]; exact List.mem_cons_self)
        obtain ⟨b, hb, hnot⟩ := exists_not_accent_of_isWhitespace hc
        refine absurd (hall b ?_) hnot
        rw [hspace, utf8_eq_flatMap, String.toList_ofList]
        exact List.mem_flatMap.mpr ⟨c, List.mem_cons_self, hb⟩
  · rintro ⟨htrim, hverb⟩
    apply utf8_injective
    rw [htrim, String.ofList_toList, utf8_urlDecode, hverb.decodedBytes_eq]

/-- What is read from the line of a path. -/
theorem parseUriLine_eq (pathExists : String → Bool) (path : String) :
    parseUriLine pathExists ("file://" ++ path).toList =
      let decoded := urlDecode (String.ofList (trimEnd path.toList))
      if pathExists decoded then some decoded else none := by
  have htrim : trim ("file://" ++ path).toList = "file://".toList ++ trimEnd path.toList := by
    have hend : trimEnd ("file://" ++ path).toList = "file://".toList ++ trimEnd path.toList := by
      rw [String.toList_append]
      exact trimEnd_append "file:/".toList path.toList (c := '/') (by decide)
    rw [trim, hend]
    rfl
  rw [parseUriLine, htrim]
  rfl

/-- **A line has the ASCII characters of what is read from it**, and those of
`file://`. -/
theorem countP_of_parseUriLine {pathExists : String → Bool} {line : List Char} {path : String}
    (h : parseUriLine pathExists line = some path) :
    path.toList.countP isAsciiChar + 7 ≤ line.countP isAsciiChar := by
  unfold parseUriLine parseTrimmed at h
  simp only at h
  split_ifs at h with hskip hscheme hex
  obtain rfl := Option.some.inj h
  obtain ⟨rest, hrest⟩ := List.isPrefixOf_iff_prefix.mp hscheme
  have htrimmed := (trim_sublist line).countP_le (p := isAsciiChar)
  rw [← hrest, List.countP_append] at htrimmed
  have hseven : "file://".toList.countP isAsciiChar = 7 := by decide
  have hdecoded := countP_urlDecode_le (String.ofList rest)
  rw [String.toList_ofList] at hdecoded
  rw [← hrest, List.drop_left]
  omega

/-! ### The whole list -/

/-- The lines written, one for each path. -/
def uriLines (paths : List String) : List (List Char) :=
  paths.map fun p => ("file://" ++ p).toList

theorem toList_uriList (paths : List String) :
    (uriList paths).toList = ['\n'].intercalate (uriLines paths) := by
  rw [uriList, String.toList_intercalate, List.map_map]
  rfl

/-- Together the paths read have no more ASCII characters than the lines. -/
theorem sum_countP_filterMap_le (pathExists : String → Bool) (ls : List (List Char)) :
    ((ls.filterMap (parseUriLine pathExists)).map fun p =>
        p.toList.countP isAsciiChar + 7).sum ≤ (ls.map (List.countP isAsciiChar)).sum := by
  induction ls with
  | nil => exact le_rfl
  | cons line ls ih =>
    rw [List.filterMap_cons, List.map_cons, List.sum_cons]
    cases hline : parseUriLine pathExists line with
    | none => exact le_trans ih (Nat.le_add_left _ _)
    | some path =>
      have := countP_of_parseUriLine hline
      simp only [List.map_cons, List.sum_cons]
      omega

/-- **No path that comes back has a line break**: it would be read as two lines, with
an ASCII character less. -/
theorem newline_not_mem_of_filterMap_eq {pathExists : String → Bool} {paths : List String}
    (hne : paths ≠ [])
    (h : (lines (uriList paths).toList).filterMap (parseUriLine pathExists) = paths) :
    ∀ p ∈ paths, '\n' ∉ p.toList := by
  have hlines : uriLines paths ≠ [] := by simpa [uriLines] using hne
  have hread := sum_countP_filterMap_le pathExists (lines (uriList paths).toList)
  have htext := countP_lines_le isAsciiChar (by decide) (uriList paths).toList
  have hbreaks := length_splitOn (uriList paths).toList
  have hwritten := countP_intercalate isAsciiChar (by decide : isAsciiChar '\n' = true) hlines
  have hjoined := countP_intercalate (· == '\n') (beq_self_eq_true '\n') hlines
  have hlength : (uriLines paths).length = paths.length := by simp [uriLines]
  have hascii : ((uriLines paths).map (List.countP isAsciiChar)).sum =
      (paths.map fun p => p.toList.countP isAsciiChar + 7).sum := by
    have hseven : "file://".toList.countP isAsciiChar = 7 := by decide
    rw [uriLines, List.map_map]
    refine congrArg List.sum (List.map_congr_left fun p _ => ?_)
    rw [Function.comp, String.toList_append, List.countP_append, hseven, Nat.add_comm]
  rw [h] at hread
  rw [toList_uriList] at hread htext hbreaks
  -- as many lines as paths, so there is no line break but those between the lines
  have hnone : ((uriLines paths).map (List.countP (· == '\n'))).sum = 0 := by omega
  intro p hp hmem
  have hpos : 0 < ("file://" ++ p).toList.countP (· == '\n') :=
    List.countP_pos_iff.mpr ⟨'\n', by simp [hmem], beq_self_eq_true _⟩
  have hle : ("file://" ++ p).toList.countP (· == '\n') ≤
      ((uriLines paths).map (List.countP (· == '\n'))).sum :=
    List.single_le_sum (by simp) _
      (List.mem_map_of_mem (List.mem_map.mpr ⟨p, hp, rfl⟩))
  omega

/-- Without line breaks each path is read from its own line. -/
theorem filterMap_lines_uriList (pathExists : String → Bool) {paths : List String}
    (hne : paths ≠ []) (h : ∀ p ∈ paths, '\n' ∉ p.toList) :
    (lines (uriList paths).toList).filterMap (parseUriLine pathExists) =
      paths.filterMap fun p => parseUriLine pathExists ("file://" ++ p).toList := by
  have htrim : ∀ ls : List (List Char), ls.filterMap (parseUriLine pathExists) =
      (ls.map trim).filterMap (parseTrimmed pathExists) := by
    intro ls
    rw [List.filterMap_map]
    rfl
  have hlines : (lines (uriList paths).toList).map trim = (uriLines paths).map trim := by
    rw [toList_uriList]
    refine map_trim_lines_intercalate (by simpa [uriLines] using hne) ?_
    intro piece hpiece
    obtain ⟨p, hp, rfl⟩ := List.mem_map.mp hpiece
    exact ⟨by simp, by simpa using h p hp⟩
  rw [htrim, hlines, ← htrim, uriLines, List.filterMap_map]
  rfl

/-- What is read from the line of a path that exists is that path exactly when it
reads back, line breaks aside. -/
theorem parseUriLine_eq_some_iff {pathExists : String → Bool} {path : String}
    (h : pathExists path = true) :
    parseUriLine pathExists ("file://" ++ path).toList = some path ↔
      path.toList.getLast?.any isWhitespace = false ∧ ReadsVerbatim (utf8 path) := by
  rw [← urlDecode_trimEnd_eq_iff, parseUriLine_eq]
  constructor
  · intro heq
    simp only at heq
    split_ifs at heq
    exact Option.some.inj heq
  · intro heq
    simp only [heq, h, if_true]

/-- **A list of paths is read back exactly when each of its paths reads back.** -/
theorem parseUriList_uriList_iff (pathExists : String → Bool) {paths : List String}
    (hne : paths ≠ []) (hexists : ∀ p ∈ paths, pathExists p = true) :
    parseUriList pathExists (uriList paths) = some paths ↔ ∀ p ∈ paths, ReadsBack p := by
  have hparse : parseUriList pathExists (uriList paths) = some paths ↔
      (lines (uriList paths).toList).filterMap (parseUriLine pathExists) = paths := by
    unfold parseUriList
    constructor
    · intro h
      simp only at h
      split_ifs at h
      exact Option.some.inj h
    · intro h
      simp [h, hne]
  have hself : ∀ f : String → Option String,
      paths.filterMap f = paths ↔ ∀ p ∈ paths, f p = some p := by
    intro f
    simpa using List.filterMap_eq_map_iff_forall_eq_some (f := f) (g := id) (l := paths)
  rw [hparse]
  constructor
  · intro h
    have hbreaks := newline_not_mem_of_filterMap_eq hne h
    rw [filterMap_lines_uriList pathExists hne hbreaks, hself] at h
    intro p hp
    exact ⟨hbreaks p hp, (parseUriLine_eq_some_iff (hexists p hp)).mp (h p hp)⟩
  · intro h
    rw [filterMap_lines_uriList pathExists hne fun p hp => (h p hp).1, hself]
    intro p hp
    exact (parseUriLine_eq_some_iff (hexists p hp)).mpr (h p hp).2

/-- Two plain paths come back. -/
theorem parseUriList_uriList_plain :
    parseUriList (fun _ => true) (uriList ["/tmp/a.txt", "/tmp/b c"]) =
      some ["/tmp/a.txt", "/tmp/b c"] := by
  refine (parseUriList_uriList_iff (fun _ => true) (by decide) (by decide)).mpr ?_
  intro p hp
  simp only [List.mem_cons, List.not_mem_nil, or_false] at hp
  rcases hp with rfl | rfl
  · exact ⟨by decide, by decide, readsVerbatim_of_ascii (List.all_eq_true.mp (by decide +kernel))⟩
  · exact ⟨by decide, by decide, readsVerbatim_of_ascii (List.all_eq_true.mp (by decide +kernel))⟩

/-- A path with an accent is lost: what it is decoded to does not exist. -/
theorem parseUriList_uriList_accent :
    ¬ ∀ (pathExists : String → Bool) (paths : List String), paths ≠ [] →
      (∀ p ∈ paths, UnixPath.IsAbsolute p ∧ pathExists p = true) →
      parseUriList pathExists (uriList paths) = some paths := by
  intro h
  have hsome := h (fun p => p == "/tmp/é.txt") ["/tmp/é.txt"] (by decide) (by decide +kernel)
  have hnone : parseUriList (fun p => p == "/tmp/é.txt") (uriList ["/tmp/é.txt"]) = none := by
    decide +kernel
  rw [hnone] at hsome
  exact absurd hsome (by simp)

end P2pClipboard
