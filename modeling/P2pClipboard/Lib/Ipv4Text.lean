import Mathlib.Data.List.Basic
import Mathlib.Data.List.TakeWhile
import Mathlib.Tactic.Common
import P2pClipboard.Lib.Codec

/-!
# IPv4 addresses as text

The text forms of an IPv4 address and of one with a port, and their readers.  A reader takes
a value off the head of a text and hands back the rest.  Numbers are read as far as the
digits go, so each reader is described by what it takes off a text in which no digit follows.

A group of an address is written without leading zeros and is read only in this form: zeros
in front would make it octal elsewhere.  A port may have any number of them.

## Main definitions

* `Ipv4Addr`, `Ipv4Addr.display` — addresses, and their text.
* `readNumber`, `readIpv4Addr`, `readSocketAddr` — the readers.
* `Ipv4Addr.parse`, `parseSocketAddr` — reading a whole text.
* `Numeral` — the texts of a number.

## Main results

* `Ipv4Addr.parse_eq_some_iff` — **an address is read from its text only.**
* `parseSocketAddr_eq_some_iff` — **and one with a port from its text and a numeral.**
-/

/-- An IPv4 address. -/
structure Ipv4Addr where
  a : UInt8
  b : UInt8
  c : UInt8
  d : UInt8
  deriving DecidableEq, Repr

namespace Ipv4Text

/-! ### Numbers -/

/-- The text is a number in decimal, possibly with zeros in front. -/
def Numeral (ds : List Char) (n : ℕ) : Prop :=
  ds ≠ [] ∧ (∀ c ∈ ds, c.isDigit = true) ∧ Nat.ofDigitChars 10 ds 0 = n

/-- No digit follows. -/
def NoDigit (rest : List Char) : Prop := ∀ c ∈ rest.head?, c.isDigit = false

/-- A number below `bound`, in at most `maxDigits` digits if that is given, and without
zeros in front unless they are allowed. -/
def readNumber (bound : ℕ) (maxDigits : Option ℕ) (allowZeroPrefix : Bool) (cs : List Char) :
    Option (ℕ × List Char) :=
  let digits := cs.takeWhile Char.isDigit
  if digits.isEmpty then none
  else if maxDigits.any (· < digits.length) then none
  else if !allowZeroPrefix && digits.head? == some '0' && decide (1 < digits.length) then none
  else if Nat.ofDigitChars 10 digits 0 < bound then
    some (Nat.ofDigitChars 10 digits 0, cs.dropWhile Char.isDigit)
  else none

/-- A given character. -/
def readGivenChar (target : Char) : List Char → Option (List Char)
  | [] => none
  | c :: rest => if c = target then some rest else none

/-- The digits at the head of a text end where no digit follows. -/
theorem takeWhile_isDigit_append {ds rest : List Char} (hds : ∀ c ∈ ds, c.isDigit = true)
    (hrest : NoDigit rest) :
    (ds ++ rest).takeWhile Char.isDigit = ds ∧ (ds ++ rest).dropWhile Char.isDigit = rest := by
  rw [List.takeWhile_append_of_pos hds, List.dropWhile_append_of_pos hds]
  cases rest with
  | nil => exact ⟨List.append_nil ds, rfl⟩
  | cons c rest =>
    have hc : c.isDigit = false := hrest c rfl
    simp [hc]

/-- **What a number is read from.** -/
theorem readNumber_eq_some_iff {bound : ℕ} {maxDigits : Option ℕ} {allowZeroPrefix : Bool}
    {cs : List Char} {n : ℕ} {rest : List Char} :
    readNumber bound maxDigits allowZeroPrefix cs = some (n, rest) ↔
      ∃ ds, cs = ds ++ rest ∧ Numeral ds n ∧ NoDigit rest ∧ n < bound ∧
        (∀ m ∈ maxDigits, ds.length ≤ m) ∧
        (allowZeroPrefix = false → ds.head? = some '0' → ds.length = 1) := by
  constructor
  · intro h
    unfold readNumber at h
    simp only at h
    split_ifs at h with hempty hlong hzero hbound
    obtain ⟨rfl, rfl⟩ := Prod.mk.inj (Option.some.inj h)
    refine ⟨cs.takeWhile Char.isDigit, List.takeWhile_append_dropWhile.symm,
      ⟨by simpa using hempty, fun c hc => List.mem_takeWhile_imp hc, rfl⟩, ?_, hbound, ?_, ?_⟩
    · intro c hc
      have hhead := List.head?_dropWhile_not Char.isDigit cs
      rw [Option.mem_def.mp hc] at hhead
      simpa using hhead
    · intro m hm
      rw [Option.mem_def.mp hm] at hlong
      simpa using hlong
    · intro hallow hhead
      have hpos : cs.takeWhile Char.isDigit ≠ [] := by simpa using hempty
      have := List.length_pos_iff.mpr hpos
      simp only [hallow, hhead, Bool.not_false, beq_self_eq_true, Bool.true_and,
        decide_eq_true_eq] at hzero
      omega
  · rintro ⟨ds, rfl, ⟨hne, hdigits, rfl⟩, hrest, hbound, hlong, hzero⟩
    obtain ⟨htake, hdrop⟩ := takeWhile_isDigit_append hdigits hrest
    unfold readNumber
    simp only [htake, hdrop]
    rw [if_neg (by simpa using hne), if_neg, if_neg, if_pos hbound]
    · intro h
      simp only [Bool.and_eq_true, Bool.not_eq_true', beq_iff_eq, decide_eq_true_eq] at h
      have := hzero h.1.1 h.1.2
      omega
    · cases maxDigits with
      | none => simp
      | some m => simpa using hlong m rfl

/-! ### Numerals without zeros in front -/

theorem numeral_toDigits (n : ℕ) : Numeral (Nat.toDigits 10 n) n :=
  ⟨Nat.toDigits_ne_nil, fun _ hc => Nat.isDigit_of_mem_toDigits (by decide) (by decide) hc,
    Nat.ofDigitChars_ten_toDigits⟩

/-- A digit is the one of its value. -/
theorem digitChar_of_isDigit {c : Char} (h : c.isDigit = true) :
    c.toNat - '0'.toNat < 10 ∧ Nat.digitChar (c.toNat - '0'.toNat) = c := by
  have hc := Char.isDigit_iff_toNat.mp h
  have hzero : '0'.toNat = 48 := rfl
  have hnine : '9'.toNat = 57 := rfl
  refine ⟨by omega, Char.toNat_inj.mp ?_⟩
  rw [Nat.toNat_digitChar_of_lt_ten (by omega)]
  omega

/-- Digits behind a number that is not zero are the digits of the longer number. -/
theorem toDigits_append {acc : ℕ} (hacc : 0 < acc) {ds : List Char}
    (hds : ∀ c ∈ ds, c.isDigit = true) :
    Nat.toDigits 10 acc ++ ds = Nat.toDigits 10 (Nat.ofDigitChars 10 ds acc) := by
  induction ds generalizing acc with
  | nil => rw [List.append_nil, Nat.ofDigitChars_nil]
  | cons c ds ih =>
    obtain ⟨hlt, hc⟩ := digitChar_of_isDigit (hds c List.mem_cons_self)
    have hone := Nat.toDigits_append_toDigits (b := 10) (by decide) hacc hlt
    rw [Nat.toDigits_of_lt_base hlt, hc] at hone
    rw [Nat.ofDigitChars_cons, ← ih (by omega) fun d hd => hds d (List.mem_cons_of_mem c hd),
      ← hone, List.append_assoc]
    rfl

/-- **Without zeros in front a number has one numeral.** -/
theorem Numeral.eq_toDigits {ds : List Char} {n : ℕ} (h : Numeral ds n)
    (hzero : ds.head? = some '0' → ds.length = 1) : ds = Nat.toDigits 10 n := by
  obtain ⟨hne, hdigits, rfl⟩ := h
  obtain ⟨c, ds, rfl⟩ := List.exists_cons_of_ne_nil hne
  obtain ⟨hlt, hc⟩ := digitChar_of_isDigit (hdigits c List.mem_cons_self)
  rw [Nat.ofDigitChars_cons, Nat.mul_zero, Nat.zero_add]
  by_cases hpos : 0 < c.toNat - '0'.toNat
  · rw [← toDigits_append hpos fun d hd => hdigits d (List.mem_cons_of_mem c hd),
      Nat.toDigits_of_lt_base hlt, hc]
    rfl
  · -- the first digit is zero, and the only one
    have hvalue : c.toNat - '0'.toNat = 0 := Nat.eq_zero_of_not_pos hpos
    rw [hvalue] at hc ⊢
    have hlength := hzero (congrArg some hc.symm)
    obtain rfl : ds = [] := List.length_eq_zero_iff.mp (Nat.succ.inj hlength)
    rw [Nat.ofDigitChars_nil, ← hc]
    rfl

/-- Only zero is written with a zero in front. -/
theorem eq_zero_of_head_toDigits {n : ℕ} (h : (Nat.toDigits 10 n).head? = some '0') : n = 0 := by
  induction n using Nat.strong_induction_on with
  | _ n ih =>
  by_cases hlt : n < 10
  · rw [Nat.toDigits_of_lt_base hlt] at h
    have hdigit := congrArg Char.toNat (Option.some.inj h)
    rw [Nat.toNat_digitChar_of_lt_ten hlt] at hdigit
    have hzero : '0'.toNat = 48 := rfl
    omega
  · rw [Nat.toDigits_of_base_le (by decide) (by omega),
      List.head?_append_of_ne_nil _ Nat.toDigits_ne_nil] at h
    have := ih (n / 10) (by omega) h
    omega

/-! ### Addresses -/

/-- A group of an address. -/
def readGroup (cs : List Char) : Option (UInt8 × List Char) :=
  (readNumber 256 (some 3) false cs).map fun p => (UInt8.ofNat p.1, p.2)

/-- The four groups of an address. -/
def readIpv4Addr (cs : List Char) : Option (Ipv4Addr × List Char) :=
  (readGroup cs).bind fun a =>
    (readGivenChar '.' a.2).bind readGroup |>.bind fun b =>
      (readGivenChar '.' b.2).bind readGroup |>.bind fun c =>
        (readGivenChar '.' c.2).bind readGroup |>.map fun d => (⟨a.1, b.1, c.1, d.1⟩, d.2)

/-- A port behind its colon. -/
def readPort (cs : List Char) : Option (UInt16 × List Char) :=
  (readGivenChar ':' cs).bind fun cs =>
    (readNumber 65536 none true cs).map fun p => (UInt16.ofNat p.1, p.2)

/-- An address with a port. -/
def readSocketAddr (cs : List Char) : Option ((Ipv4Addr × UInt16) × List Char) :=
  (readIpv4Addr cs).bind fun ip => (readPort ip.2).map fun port => ((ip.1, port.1), port.2)

theorem readGivenChar_eq_some_iff {target : Char} {cs rest : List Char} :
    readGivenChar target cs = some rest ↔ cs = target :: rest := by
  cases cs with
  | nil => simp [readGivenChar]
  | cons c cs =>
    rw [readGivenChar, Option.ite_none_right_eq_some, List.cons.injEq, Option.some.injEq]

/-- **A group has one text.** -/
theorem readGroup_eq_some_iff {cs : List Char} {g : UInt8} {rest : List Char} :
    readGroup cs = some (g, rest) ↔ cs = Nat.toDigits 10 g.toNat ++ rest ∧ NoDigit rest := by
  constructor
  · intro h
    obtain ⟨⟨n, rest'⟩, hread, heq⟩ := Option.map_eq_some_iff.mp h
    obtain ⟨rfl, rfl⟩ := Prod.mk.inj heq
    obtain ⟨ds, rfl, hds, hrest, hlt, -, hzero⟩ := readNumber_eq_some_iff.mp hread
    refine ⟨?_, hrest⟩
    rw [hds.eq_toDigits (hzero rfl), UInt8.toNat_ofNat', Nat.mod_eq_of_lt hlt]
  · rintro ⟨rfl, hrest⟩
    have hlt := g.toNat_lt
    have hread : readNumber 256 (some 3) false (Nat.toDigits 10 g.toNat ++ rest) =
        some (g.toNat, rest) := by
      refine readNumber_eq_some_iff.mpr ⟨_, rfl, numeral_toDigits _, hrest, hlt, ?_, ?_⟩
      · intro m hm
        obtain rfl := Option.some.inj hm
        exact (Nat.length_toDigits_le_iff (by decide) (by decide)).mpr (by omega)
      · intro _ hhead
        rw [eq_zero_of_head_toDigits hhead]
        rfl
    rw [readGroup, hread]
    simp

/-- A group behind the dot that separates it from the one before. -/
theorem readGroup_separated_iff {cs : List Char} {g : UInt8} {rest : List Char} :
    (readGivenChar '.' cs).bind readGroup = some (g, rest) ↔
      cs = '.' :: Nat.toDigits 10 g.toNat ++ rest ∧ NoDigit rest := by
  rw [Option.bind_eq_some_iff]
  constructor
  · rintro ⟨cs', hdot, hgroup⟩
    obtain rfl := readGivenChar_eq_some_iff.mp hdot
    obtain ⟨rfl, hrest⟩ := readGroup_eq_some_iff.mp hgroup
    exact ⟨rfl, hrest⟩
  · rintro ⟨rfl, hrest⟩
    exact ⟨_, readGivenChar_eq_some_iff.mpr rfl, readGroup_eq_some_iff.mpr ⟨rfl, hrest⟩⟩

theorem noDigit_dot (rest : List Char) : NoDigit ('.' :: rest) := by
  intro c hc
  obtain rfl := Option.some.inj hc
  rfl

/-- The characters of an address. -/
def addrChars (ip : Ipv4Addr) : List Char :=
  Nat.toDigits 10 ip.a.toNat ++ '.' :: Nat.toDigits 10 ip.b.toNat ++
    '.' :: Nat.toDigits 10 ip.c.toNat ++ '.' :: Nat.toDigits 10 ip.d.toNat

/-- **An address has one text.** -/
theorem readIpv4Addr_eq_some_iff {cs : List Char} {ip : Ipv4Addr} {rest : List Char} :
    readIpv4Addr cs = some (ip, rest) ↔ cs = addrChars ip ++ rest ∧ NoDigit rest := by
  constructor
  · intro h
    obtain ⟨⟨a, cs₁⟩, ha, h⟩ := Option.bind_eq_some_iff.mp h
    obtain ⟨⟨b, cs₂⟩, hb, h⟩ := Option.bind_eq_some_iff.mp h
    obtain ⟨⟨c, cs₃⟩, hc, h⟩ := Option.bind_eq_some_iff.mp h
    obtain ⟨⟨d, cs₄⟩, hd, heq⟩ := Option.map_eq_some_iff.mp h
    obtain ⟨rfl, rfl⟩ := Prod.mk.inj heq
    obtain ⟨rfl, -⟩ := readGroup_eq_some_iff.mp ha
    obtain ⟨rfl, -⟩ := readGroup_separated_iff.mp hb
    obtain ⟨rfl, -⟩ := readGroup_separated_iff.mp hc
    obtain ⟨rfl, hrest⟩ := readGroup_separated_iff.mp hd
    refine ⟨?_, hrest⟩
    simp only [addrChars, List.append_assoc, List.cons_append]
  · rintro ⟨rfl, hrest⟩
    have hgroup : ∀ (g : UInt8) (rest : List Char), NoDigit rest →
        readGroup (Nat.toDigits 10 g.toNat ++ rest) = some (g, rest) :=
      fun _ _ h => readGroup_eq_some_iff.mpr ⟨rfl, h⟩
    have hnext : ∀ (g : UInt8) (rest : List Char), NoDigit rest →
        (readGivenChar '.' ('.' :: (Nat.toDigits 10 g.toNat ++ rest))).bind readGroup =
          some (g, rest) :=
      fun _ _ h => readGroup_separated_iff.mpr ⟨rfl, h⟩
    simp only [readIpv4Addr, addrChars, List.append_assoc, List.cons_append,
      hgroup _ _ (noDigit_dot _), hnext _ _ (noDigit_dot _), hnext _ _ hrest, Option.bind_some,
      Option.map_some]

end Ipv4Text

open Ipv4Text

/-- The text of an address. -/
def Ipv4Addr.display (ip : Ipv4Addr) : String :=
  ip.a.toNat.repr ++ "." ++ ip.b.toNat.repr ++ "." ++ ip.c.toNat.repr ++ "." ++ ip.d.toNat.repr

/-- Reading an address from a whole text; a text of more than 15 bytes is none. -/
def Ipv4Addr.parse (s : String) : Option Ipv4Addr :=
  if 15 < s.utf8ByteSize then none
  else (readIpv4Addr s.toList).bind fun p => if p.2.isEmpty then some p.1 else none

/-- Reading an address with a port from a whole text. -/
def parseSocketAddr (s : String) : Option (Ipv4Addr × UInt16) :=
  (readSocketAddr s.toList).bind fun p => if p.2.isEmpty then some p.1 else none

theorem Ipv4Addr.toList_display (ip : Ipv4Addr) : ip.display.toList = addrChars ip := by
  simp [display, addrChars]

/-- What an address is written with. -/
theorem isDigit_or_eq_of_mem_addrChars {ip : Ipv4Addr} {c : Char} (h : c ∈ addrChars ip) :
    c.isDigit = true ∨ c = '.' := by
  have hdigits : ∀ g : UInt8, c ∈ Nat.toDigits 10 g.toNat → c.isDigit = true :=
    fun g hc => Nat.isDigit_of_mem_toDigits (by decide) (by decide) hc
  simp only [addrChars, List.mem_append, List.mem_cons] at h
  rcases h with ((ha | rfl | hb) | rfl | hc) | rfl | hd
  · exact .inl (hdigits _ ha)
  · exact .inr rfl
  · exact .inl (hdigits _ hb)
  · exact .inr rfl
  · exact .inl (hdigits _ hc)
  · exact .inr rfl
  · exact .inl (hdigits _ hd)

/-- An address takes 15 bytes at most. -/
theorem Ipv4Addr.utf8ByteSize_display (ip : Ipv4Addr) : ip.display.utf8ByteSize ≤ 15 := by
  have hgroup : ∀ g : UInt8, (Nat.toDigits 10 g.toNat).length ≤ 3 := fun g =>
    (Nat.length_toDigits_le_iff (by decide) (by decide)).mpr (by have := g.toNat_lt; omega)
  have hascii : ∀ c ∈ ip.display.toList, c.toNat < 128 := by
    intro c hc
    rw [ip.toList_display] at hc
    rcases isDigit_or_eq_of_mem_addrChars hc with hdigit | rfl
    · have := (Char.isDigit_iff_toNat.mp hdigit).2
      have hnine : '9'.toNat = 57 := rfl
      omega
    · decide
  rw [← length_utf8, utf8_of_ascii hascii, List.length_map, ip.toList_display]
  have ha := hgroup ip.a
  have hb := hgroup ip.b
  have hc := hgroup ip.c
  have hd := hgroup ip.d
  simp only [addrChars, List.length_append, List.length_cons]
  omega

/-- **An address is read from its text**, and from nothing else. -/
theorem Ipv4Addr.parse_eq_some_iff {s : String} {ip : Ipv4Addr} :
    Ipv4Addr.parse s = some ip ↔ s = ip.display := by
  constructor
  · intro h
    rw [parse] at h
    obtain ⟨-, h⟩ := Option.ite_none_left_eq_some.mp h
    obtain ⟨⟨ip', rest⟩, hread, h⟩ := Option.bind_eq_some_iff.mp h
    obtain ⟨hempty, heq⟩ := Option.ite_none_right_eq_some.mp h
    obtain rfl := Option.some.inj heq
    obtain rfl : rest = [] := List.isEmpty_iff.mp hempty
    obtain ⟨hchars, -⟩ := readIpv4Addr_eq_some_iff.mp hread
    apply String.toList_inj.mp
    rw [ip'.toList_display, hchars, List.append_nil]
  · rintro rfl
    have hread : readIpv4Addr ip.display.toList = some (ip, []) :=
      readIpv4Addr_eq_some_iff.mpr ⟨by rw [ip.toList_display, List.append_nil], nofun⟩
    rw [parse, if_neg (Nat.not_lt.mpr ip.utf8ByteSize_display), hread]
    rfl

/-- **An address with a port is read from its text, a colon and a numeral of the port**, and
from nothing else. -/
theorem parseSocketAddr_eq_some_iff {s : String} {ip : Ipv4Addr} {port : UInt16} :
    parseSocketAddr s = some (ip, port) ↔
      ∃ ds, s = ip.display ++ ":" ++ String.ofList ds ∧ Numeral ds port.toNat := by
  constructor
  · intro h
    obtain ⟨⟨p, rest⟩, hread, h⟩ := Option.bind_eq_some_iff.mp h
    obtain ⟨hempty, heq⟩ := Option.ite_none_right_eq_some.mp h
    obtain rfl := Option.some.inj heq
    obtain rfl : rest = [] := List.isEmpty_iff.mp hempty
    obtain ⟨⟨ip', cs⟩, hip, h⟩ := Option.bind_eq_some_iff.mp hread
    obtain ⟨⟨port', cs'⟩, hport, heq⟩ := Option.map_eq_some_iff.mp h
    obtain ⟨hpair, rfl⟩ := Prod.mk.inj heq
    obtain ⟨rfl, rfl⟩ := Prod.mk.inj hpair
    obtain ⟨behind, hcolon, hmap⟩ := Option.bind_eq_some_iff.mp hport
    obtain rfl := readGivenChar_eq_some_iff.mp hcolon
    obtain ⟨⟨n, cs''⟩, hnumber, heq⟩ := Option.map_eq_some_iff.mp hmap
    obtain ⟨rfl, rfl⟩ := Prod.mk.inj heq
    obtain ⟨hchars, -⟩ := readIpv4Addr_eq_some_iff.mp hip
    obtain ⟨ds, rfl, hds, -, hlt, -⟩ := readNumber_eq_some_iff.mp hnumber
    refine ⟨ds, String.toList_inj.mp ?_, ?_⟩
    · simp [hchars, Ipv4Addr.toList_display]
    · rwa [UInt16.toNat_ofNat', Nat.mod_eq_of_lt hlt]
  · rintro ⟨ds, rfl, hds⟩
    have hcolon : NoDigit (':' :: ds) := by
      intro c hc
      obtain rfl := Option.some.inj hc
      rfl
    have hip : readIpv4Addr (ip.display ++ ":" ++ String.ofList ds).toList =
        some (ip, ':' :: ds) :=
      readIpv4Addr_eq_some_iff.mpr ⟨by simp [Ipv4Addr.toList_display], hcolon⟩
    have hnumber : readNumber 65536 none true ds = some (port.toNat, []) :=
      readNumber_eq_some_iff.mpr ⟨ds, (List.append_nil ds).symm, hds, nofun, port.toNat_lt,
        nofun, nofun⟩
    have hport : readPort (':' :: ds) = some (port, []) := by
      rw [readPort, readGivenChar_eq_some_iff.mpr rfl, Option.bind_some, hnumber, Option.map_some,
        UInt16.ofNat_toNat]
    rw [parseSocketAddr, readSocketAddr, hip, Option.bind_some, hport]
    rfl
