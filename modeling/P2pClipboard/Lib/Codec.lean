import Mathlib.Data.List.Basic
import Mathlib.Tactic.Common
import Mathlib.Tactic.Ring

/-!
# Byte codecs

A codec is an encoder into byte strings together with a decoder that consumes a
prefix of its input and hands back the rest.  Decoding a value therefore never
looks at the bytes behind it, and codecs compose: the round trip of a record is
the round trip of its fields, one after the other.

The format is the fixed-width little-endian one: an integer takes a fixed number
of bytes, a byte string, a text or a sequence is preceded by its length in eight
bytes, and bytes behind a decoded value are left alone.

## Main definitions

* `Codec`, `Codec.RoundTrips` — codecs, and the values they carry faithfully.
* `Codec.Exact` — codecs that decode nothing but what was encoded; one that is also faithful
  accepts the encodings (`Codec.decode_eq_some_iff`), none of which begins with another
  (`Codec.decode_take_encode`).
* `encodeLE`, `decodeLE` — little-endian naturals.
* `Codec.u32`, `Codec.u64`, `Codec.bytes`, `Codec.text`, `Codec.vec` — the
  building blocks of a record format.
* `Codec.u16BE`, `Codec.u32BE` — integers in network order.
* `utf8`, `fromUtf8`, `fromUtf8Lossy` — texts as byte strings, and back.
-/

/-- A byte string. -/
abbrev Bytes := List UInt8

/-! ### Texts as byte strings -/

/-- The UTF-8 encoding of a text. -/
def utf8 (s : String) : Bytes := s.toByteArray.data.toList

/-- The text a byte string encodes, or `none` when it is not valid UTF-8. -/
def fromUtf8 (bs : Bytes) : Option String := String.fromUTF8? ⟨bs.toArray⟩

@[simp] theorem length_utf8 (s : String) : (utf8 s).length = s.utf8ByteSize := by
  rw [utf8, Array.length_toList]
  rfl

/-- A text is recovered from its encoding. -/
@[simp] theorem fromUtf8_utf8 (s : String) : fromUtf8 (utf8 s) = some s := by
  have hs : (⟨(utf8 s).toArray⟩ : ByteArray) = s.toByteArray := by simp [utf8]
  unfold fromUtf8 String.fromUTF8?
  rw [hs, dif_pos s.isValidUTF8]
  rfl

/-- A text is encoded character by character. -/
theorem utf8_eq_flatMap (s : String) : utf8 s = s.toList.flatMap String.utf8EncodeChar := by
  rw [utf8, ← String.utf8Encode_toList, List.utf8Encode]
  simp

@[simp] theorem utf8_append (s t : String) : utf8 (s ++ t) = utf8 s ++ utf8 t := by
  simp [utf8_eq_flatMap]

theorem utf8_injective {s t : String} (h : utf8 s = utf8 t) : s = t := by
  have hsome : some s = some t := by rw [← fromUtf8_utf8 s, h, fromUtf8_utf8]
  exact Option.some.inj hsome

/-- A byte string that is read as a text is its encoding. -/
theorem utf8_of_fromUtf8 {bs : Bytes} {s : String} (h : fromUtf8 bs = some s) : utf8 s = bs := by
  unfold fromUtf8 String.fromUTF8? at h
  split at h
  · obtain rfl := Option.some.inj h
    rfl
  · exact absurd h (by simp)

/-- An ASCII character takes one byte. -/
theorem utf8EncodeChar_of_ascii {c : Char} (h : c.toNat < 128) :
    String.utf8EncodeChar c = [UInt8.ofNat c.toNat] := by
  unfold String.utf8EncodeChar
  rw [if_pos]
  · rfl
  · exact Nat.le_of_lt_succ h

/-- The bytes of any other character are all from 128 on. -/
theorem high_of_mem_utf8EncodeChar {c : Char} {b : UInt8} (h : 128 ≤ c.toNat)
    (hb : b ∈ String.utf8EncodeChar c) : 128 ≤ b.toNat := by
  have hval : ¬ c.val.toNat ≤ 127 := by
    change ¬ c.toNat ≤ 127
    omega
  have hbyte : ∀ n, 128 ≤ n → n < 256 → 128 ≤ (UInt8.ofNat n).toNat := by
    intro n hlow hhigh
    rw [UInt8.toNat_ofNat', Nat.mod_eq_of_lt (by omega)]
    exact hlow
  unfold String.utf8EncodeChar at hb
  rw [if_neg hval] at hb
  split_ifs at hb <;> simp only [List.mem_cons, List.not_mem_nil, or_false] at hb
  · rcases hb with rfl | rfl <;> exact hbyte _ (by omega) (by omega)
  · rcases hb with rfl | rfl | rfl <;> exact hbyte _ (by omega) (by omega)
  · rcases hb with rfl | rfl | rfl | rfl <;> exact hbyte _ (by omega) (by omega)

/-- An ASCII text takes one byte for each character. -/
theorem utf8_of_ascii {s : String} (h : ∀ c ∈ s.toList, c.toNat < 128) :
    utf8 s = s.toList.map fun c => UInt8.ofNat c.toNat := by
  rw [utf8_eq_flatMap, List.map_eq_flatMap]
  apply List.flatMap_congr
  intro c hc
  exact utf8EncodeChar_of_ascii (h c hc)

/-- Only NUL has a byte that is zero. -/
theorem zero_not_mem_utf8 {s : String} (h : '\x00' ∉ s.toList) : 0 ∉ utf8 s := by
  rw [utf8_eq_flatMap, List.mem_flatMap]
  rintro ⟨c, hc, hzero⟩
  by_cases hlow : c.toNat < 128
  · rw [utf8EncodeChar_of_ascii hlow, List.mem_singleton] at hzero
    have hval := congrArg UInt8.toNat hzero
    rw [UInt8.toNat_ofNat', Nat.mod_eq_of_lt (by omega)] at hval
    have hnul : c = '\x00' := by
      rw [← Char.ofNat_toNat c, ← hval]
      rfl
    exact h (hnul ▸ hc)
  · exact absurd (high_of_mem_utf8EncodeChar (Nat.le_of_not_lt hlow) hzero) (by decide)

/-- The characters of an ASCII text are its bytes. -/
theorem map_ofNat_utf8 {s : String} (h : ∀ c ∈ s.toList, c.toNat < 128) :
    ((utf8 s).map fun b => Char.ofNat b.toNat) = s.toList := by
  rw [utf8_of_ascii h, List.map_map]
  conv_rhs => rw [← List.map_id s.toList]
  apply List.map_congr_left
  intro c hc
  have := h c hc
  rw [Function.comp, UInt8.toNat_ofNat', Nat.mod_eq_of_lt (by omega), Char.ofNat_toNat, id]

/-- The byte `0xff` occurs in no encoded text. -/
theorem not_mem_utf8 (s : String) : (0xff : UInt8) ∉ utf8 s := by
  rw [utf8_eq_flatMap, List.mem_flatMap]
  rintro ⟨c, -, hmem⟩
  have hbyte : ∀ n, n < 255 → (0xff : UInt8) ≠ UInt8.ofNat n := by
    intro n hn heq
    have := congrArg UInt8.toNat heq
    simp at this
    omega
  simp only [String.utf8EncodeChar] at hmem
  split at hmem
  · rw [List.mem_singleton] at hmem
    exact hbyte _ (by omega) hmem
  · split at hmem
    · simp only [List.mem_cons, List.not_mem_nil, or_false] at hmem
      rcases hmem with h | h <;> exact hbyte _ (by omega) h
    · split at hmem
      · simp only [List.mem_cons, List.not_mem_nil, or_false] at hmem
        rcases hmem with h | h | h <;> exact hbyte _ (by omega) h
      · simp only [List.mem_cons, List.not_mem_nil, or_false] at hmem
        rcases hmem with h | h | h | h <;> exact hbyte _ (by omega) h

/-- What stands before the first separator, and what stands behind it. -/
theorem append_separator_inj {α : Type*} {sep : α} {xs ys rest rest' : List α} (hx : sep ∉ xs)
    (hy : sep ∉ ys) (h : xs ++ sep :: rest = ys ++ sep :: rest') : xs = ys ∧ rest = rest' := by
  induction xs generalizing ys with
  | nil =>
    cases ys with
    | nil => exact ⟨rfl, (List.cons.inj h).2⟩
    | cons y ys => exact absurd ((List.cons.inj h).1 ▸ List.mem_cons_self) hy
  | cons x xs ih =>
    cases ys with
    | nil => exact absurd ((List.cons.inj h).1 ▸ List.mem_cons_self) hx
    | cons y ys =>
      obtain ⟨rfl, htail⟩ := List.cons.inj h
      obtain ⟨rfl, hrest⟩ := ih (fun hmem => hx (List.mem_cons_of_mem _ hmem))
        (fun hmem => hy (List.mem_cons_of_mem _ hmem)) htail
      exact ⟨rfl, hrest⟩

/-- Texts, each followed by a byte that occurs in none, are recovered. -/
theorem flatMap_utf8_injective {ss ts : List String}
    (h : (ss.flatMap fun s => utf8 s ++ [0xff]) = ts.flatMap fun t => utf8 t ++ [0xff]) :
    ss = ts := by
  induction ss generalizing ts with
  | nil =>
    cases ts with
    | nil => rfl
    | cons t ts => simp at h
  | cons s ss ih =>
    cases ts with
    | nil => simp at h
    | cons t ts =>
      simp only [List.flatMap_cons, List.append_assoc, List.singleton_append] at h
      obtain ⟨hst, hrest⟩ := append_separator_inj (not_mem_utf8 s) (not_mem_utf8 t) h
      rw [utf8_injective hst, ih hrest]

/-- How many bytes of an ill-formed sequence are replaced together: the longest
prefix that could still have started a character. -/
def invalidLength : Bytes → ℕ
  | [] => 0
  | [_] => 1
  | b₀ :: b₁ :: rest =>
      let second :=
        (b₀ == 0xE0 && 0xA0 ≤ b₁ && b₁ ≤ 0xBF) ||
        (0xE1 ≤ b₀ && b₀ ≤ 0xEC && 0x80 ≤ b₁ && b₁ ≤ 0xBF) ||
        (b₀ == 0xED && 0x80 ≤ b₁ && b₁ ≤ 0x9F) ||
        (0xEE ≤ b₀ && b₀ ≤ 0xEF && 0x80 ≤ b₁ && b₁ ≤ 0xBF)
      let second₄ :=
        (b₀ == 0xF0 && 0x90 ≤ b₁ && b₁ ≤ 0xBF) ||
        (0xF1 ≤ b₀ && b₀ ≤ 0xF3 && 0x80 ≤ b₁ && b₁ ≤ 0xBF) ||
        (b₀ == 0xF4 && 0x80 ≤ b₁ && b₁ ≤ 0x8F)
      if second then 2
      else if second₄ then
        match rest with
        | b₂ :: _ => if 0x80 ≤ b₂ && b₂ ≤ 0xBF then 3 else 2
        | [] => 2
      else 1

/-- The characters of a byte string, each ill-formed sequence replaced by
U+FFFD; the first argument bounds the number of characters. -/
def lossyChars : ℕ → Bytes → List Char
  | 0, _ => []
  | _ + 1, [] => []
  | n + 1, bs =>
      match ByteArray.utf8DecodeChar? ⟨bs.toArray⟩ 0 with
      | some c => c :: lossyChars n (bs.drop c.utf8Size)
      | none => '\uFFFD' :: lossyChars n (bs.drop (invalidLength bs))

/-- The text of a byte string, each ill-formed sequence replaced by U+FFFD. -/
def fromUtf8Lossy (bs : Bytes) : String := String.ofList (lossyChars bs.length bs)

/-- **What is valid is read as it is**, without replacements. -/
@[simp] theorem fromUtf8Lossy_utf8 (s : String) : fromUtf8Lossy (utf8 s) = s := by
  have hchars : ∀ (cs : List Char) (n : ℕ), (cs.flatMap String.utf8EncodeChar).length ≤ n →
      lossyChars n (cs.flatMap String.utf8EncodeChar) = cs := by
    intro cs
    induction cs with
    | nil =>
      intro n _
      cases n <;> rfl
    | cons c cs ih =>
      intro n hn
      rw [List.flatMap_cons] at hn ⊢
      have hpos := c.utf8Size_pos
      rw [List.length_append, String.length_utf8EncodeChar] at hn
      obtain ⟨n, rfl⟩ : ∃ k, n = k + 1 := Nat.exists_eq_add_one_of_ne_zero (by omega)
      have hdecode : ByteArray.utf8DecodeChar?
          ⟨(String.utf8EncodeChar c ++ cs.flatMap String.utf8EncodeChar).toArray⟩ 0 = some c := by
        have harray : (⟨(String.utf8EncodeChar c ++ cs.flatMap String.utf8EncodeChar).toArray⟩ :
            ByteArray) = (String.utf8EncodeChar c).toByteArray ++
              (cs.flatMap String.utf8EncodeChar).toByteArray := by
          apply ByteArray.ext
          simp
        rw [harray, ByteArray.utf8DecodeChar?_utf8EncodeChar_append]
      have hrest := ih n (by omega)
      have hdrop : (String.utf8EncodeChar c ++ cs.flatMap String.utf8EncodeChar).drop c.utf8Size =
          cs.flatMap String.utf8EncodeChar := by
        rw [← String.length_utf8EncodeChar, List.drop_left]
      rw [lossyChars, hdecode]
      · simp only [hdrop, hrest]
      · intro hnil
        have hlen := congrArg List.length hnil
        rw [List.length_append, String.length_utf8EncodeChar, List.length_nil] at hlen
        omega
  rw [fromUtf8Lossy, utf8_eq_flatMap, hchars _ _ le_rfl, String.ofList_toList]

/-- A character read off bytes is encoded by the first of them. -/
theorem mem_of_utf8DecodeChar {bs : Bytes} {c : Char} {b : UInt8}
    (h : ByteArray.utf8DecodeChar? ⟨bs.toArray⟩ 0 = some c)
    (hb : b ∈ String.utf8EncodeChar c) : b ∈ bs := by
  have hencode := String.toByteArray_utf8EncodeChar_of_utf8DecodeChar?_eq_some h
  have htake : String.utf8EncodeChar c = bs.take c.utf8Size := by
    have hdata := congrArg (fun a : ByteArray => a.data.toList) hencode
    simpa using hdata
  rw [htake] at hb
  exact List.mem_of_mem_take hb

/-- **An ASCII character of a text is one of its bytes**, whatever was replaced. -/
theorem mem_of_mem_fromUtf8Lossy {bs : Bytes} {c : Char} (hc : c.toNat < 128)
    (h : c ∈ (fromUtf8Lossy bs).toList) : UInt8.ofNat c.toNat ∈ bs := by
  have hchars : ∀ (n : ℕ) (bs : Bytes), c ∈ lossyChars n bs → UInt8.ofNat c.toNat ∈ bs := by
    intro n
    induction n with
    | zero =>
      intro bs h
      exact absurd h (by simp [lossyChars])
    | succ n ih =>
      intro bs h
      cases bs with
      | nil => exact absurd h (by simp [lossyChars])
      | cons b bs =>
        simp only [lossyChars] at h
        cases hdecode : ByteArray.utf8DecodeChar? ⟨(b :: bs).toArray⟩ 0 with
        | some d =>
          rw [hdecode] at h
          rcases List.mem_cons.mp h with rfl | h
          · refine mem_of_utf8DecodeChar hdecode ?_
            rw [utf8EncodeChar_of_ascii hc]
            exact List.mem_singleton_self _
          · exact List.mem_of_mem_drop (ih _ h)
        | none =>
          rw [hdecode] at h
          rcases List.mem_cons.mp h with rfl | h
          · exact absurd hc (by decide)
          · exact List.mem_of_mem_drop (ih _ h)
  rw [fromUtf8Lossy, String.toList_ofList] at h
  exact hchars _ _ h

/-! ### Little-endian naturals -/

/-- The `w` low bytes of a natural, least significant first. -/
def encodeLE : ℕ → ℕ → Bytes
  | 0, _ => []
  | w + 1, n => UInt8.ofNat n :: encodeLE w (n / 256)

/-- The natural a little-endian byte string stands for. -/
def decodeLE : Bytes → ℕ
  | [] => 0
  | b :: bs => b.toNat + 256 * decodeLE bs

@[simp] theorem length_encodeLE (w n : ℕ) : (encodeLE w n).length = w := by
  induction w generalizing n with
  | zero => rfl
  | succ w ih => simp [encodeLE, ih]

@[simp] theorem decodeLE_encodeLE (w n : ℕ) : decodeLE (encodeLE w n) = n % 256 ^ w := by
  induction w generalizing n with
  | zero => simp [encodeLE, decodeLE, Nat.mod_one]
  | succ w ih =>
    have hmod : n % 256 ^ (w + 1) = n % 256 + 256 * (n / 256 % 256 ^ w) := by
      rw [Nat.pow_succ', Nat.mod_mul]
    rw [encodeLE, decodeLE, ih, hmod, UInt8.toNat_ofNat']

theorem decodeLE_append (bs cs : Bytes) :
    decodeLE (bs ++ cs) = decodeLE bs + 256 ^ bs.length * decodeLE cs := by
  induction bs with
  | nil => simp [decodeLE]
  | cons b bs ih =>
    rw [List.cons_append, decodeLE, decodeLE, ih, List.length_cons, Nat.pow_succ']
    ring

/-- The bytes of a wide natural are the bytes of its low part, then of the rest. -/
theorem encodeLE_add (v w n : ℕ) :
    encodeLE (v + w) n = encodeLE v n ++ encodeLE w (n / 256 ^ v) := by
  induction v generalizing n with
  | zero => simp [encodeLE]
  | succ v ih =>
    rw [Nat.succ_add, encodeLE, encodeLE, ih, List.cons_append, Nat.div_div_eq_div_mul,
      Nat.pow_succ']

theorem decodeLE_eq_zero_iff (bs : Bytes) : decodeLE bs = 0 ↔ ∀ b ∈ bs, b = 0 := by
  induction bs with
  | nil => simp [decodeLE]
  | cons b bs ih =>
    have hb : b.toNat = 0 ↔ b = 0 := by rw [← UInt8.toNat_inj]; rfl
    rw [decodeLE, List.forall_mem_cons, ← ih, ← hb]
    omega

/-! ### Codecs -/

/-- Split off exactly `n` bytes; fails at the end of the input. -/
def takeExact (n : ℕ) (bs : Bytes) : Option (Bytes × Bytes) :=
  if n ≤ bs.length then some (bs.take n, bs.drop n) else none

theorem takeExact_append (bs rest : Bytes) :
    takeExact bs.length (bs ++ rest) = some (bs, rest) := by
  simp [takeExact]

theorem takeExact_eq_none {n : ℕ} {bs : Bytes} (h : bs.length < n) :
    takeExact n bs = none := by
  simp [takeExact, h]

/-- An encoder, and a decoder that consumes a prefix of its input. -/
structure Codec (α : Type*) where
  /-- The bytes of a value. -/
  encode : α → Bytes
  /-- The value at the head of a byte string, with the bytes behind it. -/
  decode : Bytes → Option (α × Bytes)

namespace Codec

variable {α : Type*}

/-- `c` carries `a` faithfully, whatever follows it on the wire. -/
def RoundTrips (c : Codec α) (a : α) : Prop :=
  ∀ rest, c.decode (c.encode a ++ rest) = some (a, rest)

/-- A natural in `w` little-endian bytes. -/
def nat (w : ℕ) : Codec ℕ where
  encode n := encodeLE w n
  decode bs := (takeExact w bs).map fun p => (decodeLE p.1, p.2)

theorem nat_roundTrips {w n : ℕ} (h : n < 256 ^ w) : (nat w).RoundTrips n := by
  intro rest
  have ht : takeExact w (encodeLE w n ++ rest) = some (encodeLE w n, rest) := by
    simpa using takeExact_append (encodeLE w n) rest
  simp [nat, ht, Nat.mod_eq_of_lt h]

theorem nat_decode_eq_none {w : ℕ} {bs : Bytes} (h : bs.length < w) :
    (nat w).decode bs = none := by
  simp [nat, takeExact_eq_none h]

theorem nat_decode_append {w : ℕ} (bs rest : Bytes) (h : bs.length = w) :
    (nat w).decode (bs ++ rest) = some (decodeLE bs, rest) := by
  subst h
  simp [nat, takeExact_append]

/-- A 32-bit unsigned integer. -/
def u32 : Codec UInt32 where
  encode x := (nat 4).encode x.toNat
  decode bs := ((nat 4).decode bs).map fun p => (UInt32.ofNat p.1, p.2)

theorem u32_roundTrips (x : UInt32) : u32.RoundTrips x := by
  intro rest
  have h := nat_roundTrips (w := 4) (n := x.toNat) x.toNat_lt rest
  simp [u32, h]

/-- A 64-bit unsigned integer. -/
def u64 : Codec UInt64 where
  encode x := (nat 8).encode x.toNat
  decode bs := ((nat 8).decode bs).map fun p => (UInt64.ofNat p.1, p.2)

theorem u64_roundTrips (x : UInt64) : u64.RoundTrips x := by
  intro rest
  have h := nat_roundTrips (w := 8) (n := x.toNat) x.toNat_lt rest
  simp [u64, h]

/-- A natural in `w` big-endian bytes. -/
def natBE (w : ℕ) : Codec ℕ where
  encode n := (encodeLE w n).reverse
  decode bs := (takeExact w bs).map fun p => (decodeLE p.1.reverse, p.2)

theorem natBE_roundTrips {w n : ℕ} (h : n < 256 ^ w) : (natBE w).RoundTrips n := by
  intro rest
  have ht := takeExact_append (encodeLE w n).reverse rest
  rw [List.length_reverse, length_encodeLE] at ht
  simp [natBE, ht, Nat.mod_eq_of_lt h]

/-- A 16-bit unsigned integer in network order. -/
def u16BE : Codec UInt16 where
  encode x := (natBE 2).encode x.toNat
  decode bs := ((natBE 2).decode bs).map fun p => (UInt16.ofNat p.1, p.2)

theorem u16BE_roundTrips (x : UInt16) : u16BE.RoundTrips x := by
  intro rest
  have h := natBE_roundTrips (w := 2) (n := x.toNat) x.toNat_lt rest
  simp [u16BE, h]

/-- A 32-bit unsigned integer in network order. -/
def u32BE : Codec UInt32 where
  encode x := (natBE 4).encode x.toNat
  decode bs := ((natBE 4).decode bs).map fun p => (UInt32.ofNat p.1, p.2)

theorem u32BE_roundTrips (x : UInt32) : u32BE.RoundTrips x := by
  intro rest
  have h := natBE_roundTrips (w := 4) (n := x.toNat) x.toNat_lt rest
  simp [u32BE, h]

/-- A byte string behind its length. -/
def bytes : Codec Bytes where
  encode b := (nat 8).encode b.length ++ b
  decode bs := ((nat 8).decode bs).bind fun p => takeExact p.1 p.2

theorem bytes_roundTrips {b : Bytes} (h : b.length < 2 ^ 64) : bytes.RoundTrips b := by
  intro rest
  have hn := nat_roundTrips (w := 8) (n := b.length) h (b ++ rest)
  simp only [bytes, List.append_assoc, hn, Option.bind_some]
  exact takeExact_append b rest

/-- A text behind its length in bytes. -/
def text : Codec String where
  encode s := bytes.encode (utf8 s)
  decode bs := (bytes.decode bs).bind fun p => (fromUtf8 p.1).map fun s => (s, p.2)

theorem text_roundTrips {s : String} (h : s.utf8ByteSize < 2 ^ 64) : text.RoundTrips s := by
  intro rest
  have hb := bytes_roundTrips (b := utf8 s) (by simpa using h) rest
  simp [text, hb]

/-- Decode a fixed number of values in a row. -/
def decodeTimes (c : Codec α) : ℕ → Bytes → Option (List α × Bytes)
  | 0, bs => some ([], bs)
  | n + 1, bs =>
      (c.decode bs).bind fun p => (decodeTimes c n p.2).map fun q => (p.1 :: q.1, q.2)

theorem decodeTimes_encode {c : Codec α} {l : List α} (h : ∀ a ∈ l, c.RoundTrips a)
    (rest : Bytes) :
    c.decodeTimes l.length (l.flatMap c.encode ++ rest) = some (l, rest) := by
  induction l with
  | nil => rfl
  | cons a l ih =>
    have ha := h a List.mem_cons_self (l.flatMap c.encode ++ rest)
    have hl := ih fun x hx => h x (List.mem_cons_of_mem a hx)
    simp [decodeTimes, ha, hl]

/-- A sequence behind the number of its elements. -/
def vec (c : Codec α) : Codec (List α) where
  encode l := (nat 8).encode l.length ++ l.flatMap c.encode
  decode bs := ((nat 8).decode bs).bind fun p => c.decodeTimes p.1 p.2

theorem vec_roundTrips {c : Codec α} {l : List α} (hlen : l.length < 2 ^ 64)
    (h : ∀ a ∈ l, c.RoundTrips a) : c.vec.RoundTrips l := by
  intro rest
  have hn := nat_roundTrips (w := 8) (n := l.length) hlen (l.flatMap c.encode ++ rest)
  simp only [vec, List.append_assoc, hn, Option.bind_some]
  exact decodeTimes_encode h rest

/-! ### What a decoder accepts -/

/-- Whatever is decoded was encoded, as a value that can be. -/
def Exact (c : Codec α) (Fits : α → Prop) : Prop :=
  ∀ bs a rest, c.decode bs = some (a, rest) → Fits a ∧ bs = c.encode a ++ rest

/-- **A decoder that is faithful and exact** accepts the encodings, and nothing else. -/
theorem decode_eq_some_iff {c : Codec α} {Fits : α → Prop} (hexact : c.Exact Fits)
    (htrip : ∀ a, Fits a → c.RoundTrips a) (bs : Bytes) (a : α) (rest : Bytes) :
    c.decode bs = some (a, rest) ↔ Fits a ∧ bs = c.encode a ++ rest := by
  constructor
  · exact hexact bs a rest
  · rintro ⟨hfits, rfl⟩
    exact htrip a hfits rest

/-- The value at the head of a byte string, whatever stands behind it. -/
theorem decode_fst_eq_some_iff {c : Codec α} {Fits : α → Prop} (hexact : c.Exact Fits)
    (htrip : ∀ a, Fits a → c.RoundTrips a) (bs : Bytes) (a : α) :
    (c.decode bs).map Prod.fst = some a ↔ Fits a ∧ c.encode a <+: bs := by
  constructor
  · intro h
    obtain ⟨⟨a', rest⟩, hdecode, rfl⟩ := Option.map_eq_some_iff.mp h
    obtain ⟨hfits, rfl⟩ := (decode_eq_some_iff hexact htrip bs a' rest).mp hdecode
    exact ⟨hfits, List.prefix_append _ _⟩
  · rintro ⟨hfits, rest, rfl⟩
    rw [(decode_eq_some_iff hexact htrip _ a rest).mpr ⟨hfits, rfl⟩, Option.map_some]

/-- **No encoding begins with another**: one that is cut off is none. -/
theorem decode_take_encode {c : Codec α} {Fits : α → Prop} (hexact : c.Exact Fits)
    (htrip : ∀ a, Fits a → c.RoundTrips a) {a : α} (hfits : Fits a) {n : ℕ}
    (hn : n < (c.encode a).length) : c.decode ((c.encode a).take n) = none := by
  cases hdecode : c.decode ((c.encode a).take n) with
  | none => rfl
  | some p =>
    obtain ⟨a', rest⟩ := p
    obtain ⟨hfits', hcut⟩ := hexact _ a' rest hdecode
    -- with the bytes that were cut off behind it, both values are decoded
    have hwhole : c.encode a ++ [] = c.encode a' ++ (rest ++ (c.encode a).drop n) := by
      rw [List.append_nil, ← List.append_assoc, ← hcut, List.take_append_drop]
    have hboth := htrip a hfits []
    rw [hwhole, htrip a' hfits'] at hboth
    obtain ⟨rfl, hnil⟩ := Prod.mk.inj (Option.some.inj hboth)
    have hlen := congrArg List.length (List.append_eq_nil_iff.mp hnil).2
    rw [List.length_drop, List.length_nil] at hlen
    omega

theorem takeExact_eq_some {n : ℕ} {bs xs rest : Bytes} (h : takeExact n bs = some (xs, rest)) :
    xs.length = n ∧ bs = xs ++ rest := by
  rw [takeExact] at h
  obtain ⟨hle, h⟩ := Option.ite_none_right_eq_some.mp h
  obtain ⟨rfl, rfl⟩ := Prod.mk.inj (Option.some.inj h)
  exact ⟨List.length_take_of_le hle, (List.take_append_drop n bs).symm⟩

/-- A byte string is the little-endian form of what it stands for. -/
theorem encodeLE_decodeLE (bs : Bytes) : encodeLE bs.length (decodeLE bs) = bs := by
  induction bs with
  | nil => rfl
  | cons b bs ih =>
    have hbyte : UInt8.ofNat (b.toNat + 256 * decodeLE bs) = b := by
      apply UInt8.toNat_inj.mp
      have := b.toNat_lt
      rw [UInt8.toNat_ofNat']
      omega
    have hrest : (b.toNat + 256 * decodeLE bs) / 256 = decodeLE bs := by
      have := b.toNat_lt
      omega
    rw [decodeLE, List.length_cons, encodeLE, hbyte, hrest, ih]

theorem decodeLE_lt (bs : Bytes) : decodeLE bs < 256 ^ bs.length := by
  rw [← encodeLE_decodeLE bs, decodeLE_encodeLE, length_encodeLE]
  exact Nat.mod_lt _ (Nat.pow_pos (by decide))

theorem nat_exact (w : ℕ) : (nat w).Exact (· < 256 ^ w) := by
  intro bs n rest h
  obtain ⟨⟨xs, rest'⟩, htake, heq⟩ := Option.map_eq_some_iff.mp h
  obtain ⟨rfl, rfl⟩ := Prod.mk.inj heq
  obtain ⟨rfl, rfl⟩ := takeExact_eq_some htake
  refine ⟨decodeLE_lt xs, ?_⟩
  show xs ++ rest' = encodeLE xs.length (decodeLE xs) ++ rest'
  rw [encodeLE_decodeLE]

theorem u32_exact : u32.Exact fun _ => True := by
  intro bs x rest h
  obtain ⟨⟨n, rest'⟩, hnat, heq⟩ := Option.map_eq_some_iff.mp h
  obtain ⟨rfl, rfl⟩ := Prod.mk.inj heq
  obtain ⟨hlt, rfl⟩ := nat_exact 4 bs n rest' hnat
  refine ⟨trivial, ?_⟩
  show (nat 4).encode n ++ rest' = (nat 4).encode (UInt32.ofNat n).toNat ++ rest'
  rw [UInt32.toNat_ofNat', Nat.mod_eq_of_lt (by omega)]

theorem u64_exact : u64.Exact fun _ => True := by
  intro bs x rest h
  obtain ⟨⟨n, rest'⟩, hnat, heq⟩ := Option.map_eq_some_iff.mp h
  obtain ⟨rfl, rfl⟩ := Prod.mk.inj heq
  obtain ⟨hlt, rfl⟩ := nat_exact 8 bs n rest' hnat
  refine ⟨trivial, ?_⟩
  show (nat 8).encode n ++ rest' = (nat 8).encode (UInt64.ofNat n).toNat ++ rest'
  rw [UInt64.toNat_ofNat', Nat.mod_eq_of_lt (by omega)]

theorem bytes_exact : bytes.Exact (·.length < 2 ^ 64) := by
  intro bs b rest h
  obtain ⟨⟨n, rest'⟩, hnat, htake⟩ := Option.bind_eq_some_iff.mp h
  obtain ⟨hlt, rfl⟩ := nat_exact 8 bs n rest' hnat
  obtain ⟨rfl, rfl⟩ := takeExact_eq_some htake
  refine ⟨by omega, ?_⟩
  rw [bytes, List.append_assoc]

theorem text_exact : text.Exact (·.utf8ByteSize < 2 ^ 64) := by
  intro bs s rest h
  obtain ⟨⟨b, rest'⟩, hbytes, hutf8⟩ := Option.bind_eq_some_iff.mp h
  obtain ⟨s', hs', heq⟩ := Option.map_eq_some_iff.mp hutf8
  obtain ⟨rfl, rfl⟩ := Prod.mk.inj heq
  obtain ⟨hlt, rfl⟩ := bytes_exact bs b rest' hbytes
  obtain rfl := utf8_of_fromUtf8 hs'
  exact ⟨by rwa [length_utf8] at hlt, rfl⟩

/-- The values of a sequence are decoded one after the other. -/
theorem decodeTimes_exact {c : Codec α} {Fits : α → Prop} (h : c.Exact Fits) (n : ℕ) (bs : Bytes)
    (l : List α) (rest : Bytes) (hdecode : c.decodeTimes n bs = some (l, rest)) :
    l.length = n ∧ (∀ a ∈ l, Fits a) ∧ bs = l.flatMap c.encode ++ rest := by
  induction n generalizing bs l with
  | zero =>
    obtain ⟨rfl, rfl⟩ := Prod.mk.inj (Option.some.inj hdecode)
    exact ⟨rfl, List.forall_mem_nil _, rfl⟩
  | succ n ih =>
    obtain ⟨⟨a, rest'⟩, hfirst, hrest⟩ := Option.bind_eq_some_iff.mp hdecode
    obtain ⟨⟨l', rest''⟩, hlater, heq⟩ := Option.map_eq_some_iff.mp hrest
    obtain ⟨rfl, rfl⟩ := Prod.mk.inj heq
    obtain ⟨hfits, rfl⟩ := h bs a rest' hfirst
    obtain ⟨rfl, hall, rfl⟩ := ih rest' l' hlater
    refine ⟨rfl, List.forall_mem_cons.mpr ⟨hfits, hall⟩, ?_⟩
    rw [List.flatMap_cons, List.append_assoc]

theorem vec_exact {c : Codec α} {Fits : α → Prop} (h : c.Exact Fits) :
    c.vec.Exact fun l => l.length < 2 ^ 64 ∧ ∀ a ∈ l, Fits a := by
  intro bs l rest hdecode
  obtain ⟨⟨n, rest'⟩, hnat, htimes⟩ := Option.bind_eq_some_iff.mp hdecode
  obtain ⟨hlt, rfl⟩ := nat_exact 8 bs n rest' hnat
  obtain ⟨rfl, hall, rfl⟩ := decodeTimes_exact h n rest' l rest htimes
  refine ⟨⟨by omega, hall⟩, ?_⟩
  rw [vec, List.append_assoc]

end Codec
