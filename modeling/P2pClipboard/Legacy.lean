import P2pClipboard.Receive

/-!
# Contents from older peers

Older peers send a bare `ClipboardContent`, and the oldest a bare text.  The
receiver first tries to read any bytes as a `NetworkMessage`, then as a content, and
takes them for a text only when both fail.  Both enums
number their variants from zero and bincode tolerates trailing bytes, so some
contents are also messages: the receiver then handles the message, and the
content is lost.

This file decides, for each variant, which contents are mistaken.  A text is
never one, because its length would have to be a tag and the bytes run out; nor
is an image, because nothing is left for the fields after its bytes.  A file is a
chunk when its bytes start with four zeros, and a list of files is a `chunkEnd`
whenever the bytes of its entries start with as many bytes of UTF-8 as there are
entries.  A plain text without NUL is none of all this, because no variant has a tag
of four bytes that are not zero.

## Main definitions

* `Mistaken` — the contents whose serialisation is also a message.

## Main results

* `fromBytes_encode_text`, `fromBytes_encode_image`, `fromBytes_encode_file`,
  `fromBytes_encode_files` — each variant read as a message.
* `legacy_understood_iff` — **a bare content is understood exactly when it is not
  mistaken.**
* `raw_text_understood` — **the plain text of the oldest peers is never mistaken.**
-/

namespace P2pClipboard

/-- The contents whose serialisation is also the serialisation of a message. -/
def Mistaken : ClipboardContent → Prop
  | .text _ => False
  | .image _ => False
  | .file _ bytes => [0, 0, 0, 0] <+: bytes
  | .files entries =>
      (fromUtf8 ((entries.flatMap FileEntry.codec.encode).take entries.length)).isSome = true

instance : (c : ClipboardContent) → Decidable (Mistaken c)
  | .text _ => inferInstanceAs (Decidable False)
  | .image _ => inferInstanceAs (Decidable False)
  | .file _ _ => inferInstanceAs (Decidable (_ <+: _))
  | .files _ => inferInstanceAs (Decidable (_ = true))

/-! ### Reading a content as a message -/

/-- Eight bytes of length are four bytes of length and four zeros. -/
theorem encodeLE_eight {n : ℕ} (h : n < 2 ^ 32) :
    encodeLE 8 n = encodeLE 4 n ++ [0, 0, 0, 0] := by
  rw [encodeLE_add 4 4, Nat.div_eq_of_lt (by omega)]
  rfl

theorem decode_u32_encodeLE {n : ℕ} (h : n < 2 ^ 32) (rest : Bytes) :
    Codec.u32.decode (encodeLE 4 n ++ rest) = some (UInt32.ofNat n, rest) := by
  have hn : (Codec.nat 4).decode (encodeLE 4 n ++ rest) = some (n, rest) :=
    Codec.nat_roundTrips h rest
  simp [Codec.u32, hn]

/-- A length-prefixed value needs eight bytes. -/
theorem decode_bytes_eq_none {bs : Bytes} (h : bs.length < 8) : Codec.bytes.decode bs = none := by
  simp [Codec.bytes, Codec.nat_decode_eq_none h]

/-- Bytes behind their length, with nothing after them. -/
theorem decode_bytes_encode {bs : Bytes} (h : bs.length < 2 ^ 64) :
    Codec.bytes.decode (Codec.bytes.encode bs) = some (bs, []) := by
  have hbs := Codec.bytes_roundTrips h []
  rwa [List.append_nil] at hbs

section Tags

variable (rest : Bytes)

theorem NetworkMessage.decode_tag_zero :
    NetworkMessage.codec.decode ((Codec.nat 4).encode 0 ++ rest) =
      (ClipboardContent.codec.decode rest).map fun p => (.direct p.1, p.2) := by
  have htag := Codec.nat_roundTrips (w := 4) (n := 0) (by decide) rest
  simp only [NetworkMessage.codec, htag, Option.bind_some]

theorem NetworkMessage.decode_tag_one :
    NetworkMessage.codec.decode ((Codec.nat 4).encode 1 ++ rest) =
      (Codec.text.decode rest).bind fun p =>
        (Codec.u32.decode p.2).bind fun q =>
          (Codec.text.decode q.2).bind fun r =>
            (Codec.u64.decode r.2).map fun s => (.chunkStart p.1 q.1 r.1 s.1, s.2) := by
  have htag := Codec.nat_roundTrips (w := 4) (n := 1) (by decide) rest
  simp only [NetworkMessage.codec, htag, Option.bind_some]

theorem NetworkMessage.decode_tag_two :
    NetworkMessage.codec.decode ((Codec.nat 4).encode 2 ++ rest) =
      (Codec.text.decode rest).bind fun p =>
        (Codec.u32.decode p.2).bind fun q =>
          (Codec.bytes.decode q.2).map fun r => (.chunk p.1 q.1 r.1, r.2) := by
  have htag := Codec.nat_roundTrips (w := 4) (n := 2) (by decide) rest
  simp only [NetworkMessage.codec, htag, Option.bind_some]

theorem NetworkMessage.decode_tag_three :
    NetworkMessage.codec.decode ((Codec.nat 4).encode 3 ++ rest) =
      (Codec.text.decode rest).map fun p => (.chunkEnd p.1, p.2) := by
  have htag := Codec.nat_roundTrips (w := 4) (n := 3) (by decide) rest
  simp only [NetworkMessage.codec, htag, Option.bind_some]

end Tags

/-- A content needs eight bytes behind a tag that exists. -/
theorem ClipboardContent.decode_eq_none {n : ℕ} {rest : Bytes} (hn : n < 2 ^ 32)
    (hrest : n < 4 → rest.length < 8) :
    ClipboardContent.codec.decode (encodeLE 4 n ++ rest) = none := by
  have htag : (Codec.nat 4).decode (encodeLE 4 n ++ rest) = some (n, rest) :=
    Codec.nat_roundTrips (w := 4) hn rest
  simp only [ClipboardContent.codec, htag, Option.bind_some]
  by_cases hshort : n < 4
  · have hbytes : Codec.bytes.decode rest = none := decode_bytes_eq_none (hrest hshort)
    have hnat : (Codec.nat 8).decode rest = none := Codec.nat_decode_eq_none (hrest hshort)
    split <;> simp [Codec.text, Codec.vec, hbytes, hnat]
  · -- no variant has this tag
    split <;> first | omega | rfl

/-- A text read as a message would be a direct content whose tag is the text's
length, and the bytes end before its fields do. -/
theorem fromBytes_encode_text {s : String} (h : s.utf8ByteSize < 2 ^ 32) :
    NetworkMessage.fromBytes (ClipboardContent.codec.encode (.text s)) = none := by
  have henc : ClipboardContent.codec.encode (.text s) =
      (Codec.nat 4).encode 0 ++ (encodeLE 4 s.utf8ByteSize ++ ([0, 0, 0, 0] ++ utf8 s)) := by
    rw [← List.append_assoc (encodeLE 4 _), ← encodeLE_eight h, ← length_utf8]
    rfl
  have hcontent : ClipboardContent.codec.decode
      (encodeLE 4 s.utf8ByteSize ++ ([0, 0, 0, 0] ++ utf8 s)) = none := by
    refine ClipboardContent.decode_eq_none h ?_
    intro hshort
    rw [List.length_append, length_utf8]
    simp only [List.length_cons, List.length_nil]
    omega
  rw [NetworkMessage.fromBytes, henc, NetworkMessage.decode_tag_zero, hcontent]
  rfl

/-- An image read as a message would be an announcement whose id takes all the
bytes. -/
theorem fromBytes_encode_image {png : Bytes} (h : png.length < 2 ^ 32) :
    NetworkMessage.fromBytes (ClipboardContent.codec.encode (.image png)) = none := by
  have htext : Codec.text.decode (Codec.bytes.encode png) =
      (fromUtf8 png).map fun s => (s, []) := by
    simp only [Codec.text, decode_bytes_encode (show png.length < 2 ^ 64 by omega),
      Option.bind_some]
  have hend : Codec.u32.decode [] = none := rfl
  have henc : ClipboardContent.codec.encode (.image png) =
      (Codec.nat 4).encode 1 ++ Codec.bytes.encode png := rfl
  rw [NetworkMessage.fromBytes, henc, NetworkMessage.decode_tag_one, htext]
  cases fromUtf8 png with
  | none => rfl
  | some s => rw [Option.map_some, Option.bind_some, hend, Option.bind_none, Option.map_none]

/-- Behind four zeros a byte string decodes only if four more zeros follow: any
other length is at least `2 ^ 32`. -/
theorem decode_bytes_zeros {bs : Bytes} (h : bs.length < 2 ^ 32) :
    Codec.bytes.decode ([0, 0, 0, 0] ++ bs) =
      if [0, 0, 0, 0] <+: bs then some ([], bs.drop 4) else none := by
  by_cases hshort : bs.length < 4
  · have hnot : ¬ [0, 0, 0, 0] <+: bs := by
      intro hpre
      have := hpre.length_le
      simp only [List.length_cons, List.length_nil] at this
      omega
    rw [if_neg hnot]
    refine decode_bytes_eq_none ?_
    rw [List.length_append]
    simp only [List.length_cons, List.length_nil]
    omega
  · obtain ⟨low, rest, rfl, hlow⟩ : ∃ low rest, bs = low ++ rest ∧ low.length = 4 :=
      ⟨bs.take 4, bs.drop 4, (List.take_append_drop 4 bs).symm, by
        rw [List.length_take]; omega⟩
    -- the eight bytes of the length are the four zeros and the next four bytes
    have hval : decodeLE ([0, 0, 0, 0] ++ low) = 2 ^ 32 * decodeLE low := by
      rw [decodeLE_append]
      simp [decodeLE]
    have hnat : (Codec.nat 8).decode ([0, 0, 0, 0] ++ (low ++ rest)) =
        some (2 ^ 32 * decodeLE low, rest) := by
      rw [← List.append_assoc, Codec.nat_decode_append _ _ (by simp [hlow]), hval]
    have hpre : [0, 0, 0, 0] <+: low ++ rest ↔ decodeLE low = 0 := by
      have htake : (low ++ rest).take 4 = low := by rw [← hlow, List.take_left]
      have hrep : low = List.replicate 4 0 ↔ ∀ b ∈ low, b = 0 := by
        rw [List.eq_replicate_iff]
        exact and_iff_right hlow
      rw [decodeLE_eq_zero_iff, ← hrep, List.prefix_iff_eq_take]
      exact (congrArg (_ = ·) htake).to_iff.trans eq_comm
    have hdec : Codec.bytes.decode ([0, 0, 0, 0] ++ (low ++ rest)) =
        takeExact (2 ^ 32 * decodeLE low) rest := by
      simp only [Codec.bytes, hnat, Option.bind_some]
    rw [hdec]
    by_cases hzero : decodeLE low = 0
    · rw [if_pos (hpre.mpr hzero), hzero]
      simp [takeExact, ← hlow]
    · rw [if_neg (mt hpre.mp hzero)]
      refine takeExact_eq_none ?_
      rw [List.length_append] at h
      have : 2 ^ 32 * 1 ≤ 2 ^ 32 * decodeLE low := Nat.mul_le_mul_left _ (by omega)
      omega

/-- A file read as a message is a chunk without data, if it is one. -/
theorem fromBytes_encode_file {name : String} {bytes : Bytes} (hname : name.utf8ByteSize < 2 ^ 32)
    (hbytes : bytes.length < 2 ^ 32) :
    NetworkMessage.fromBytes (ClipboardContent.codec.encode (.file name bytes)) =
      if [0, 0, 0, 0] <+: bytes then some (.chunk name (UInt32.ofNat bytes.length) [])
      else none := by
  have henc : ClipboardContent.codec.encode (.file name bytes) =
      (Codec.nat 4).encode 2 ++ (Codec.text.encode name ++ Codec.bytes.encode bytes) := rfl
  have hid := Codec.text_roundTrips (s := name) (by omega) (Codec.bytes.encode bytes)
  have hindex : Codec.u32.decode (Codec.bytes.encode bytes) =
      some (UInt32.ofNat bytes.length, [0, 0, 0, 0] ++ bytes) := by
    have hlen : Codec.bytes.encode bytes =
        encodeLE 4 bytes.length ++ ([0, 0, 0, 0] ++ bytes) := by
      rw [← List.append_assoc, ← encodeLE_eight hbytes]
      rfl
    rw [hlen, decode_u32_encodeLE hbytes]
  rw [NetworkMessage.fromBytes, henc, NetworkMessage.decode_tag_two, hid, Option.bind_some,
    hindex, Option.bind_some, decode_bytes_zeros hbytes]
  by_cases hpre : [0, 0, 0, 0] <+: bytes
  · rw [if_pos hpre, if_pos hpre]
    rfl
  · rw [if_neg hpre, if_neg hpre]
    rfl

/-- A list of files read as a message is a `chunkEnd` whose id is as many bytes
of the entries as there are entries, if these are a text. -/
theorem fromBytes_encode_files {entries : List FileEntry} (h : entries.length < 2 ^ 32) :
    NetworkMessage.fromBytes (ClipboardContent.codec.encode (.files entries)) =
      (fromUtf8 ((entries.flatMap FileEntry.codec.encode).take entries.length)).map .chunkEnd := by
  have henc : ClipboardContent.codec.encode (.files entries) =
      (Codec.nat 4).encode 3 ++
        ((Codec.nat 8).encode entries.length ++ entries.flatMap FileEntry.codec.encode) := rfl
  have hlen := Codec.nat_roundTrips (w := 8) (n := entries.length) (by omega)
    (entries.flatMap FileEntry.codec.encode)
  have hle := (FileEntry.length_flatMap_encode entries).1
  rw [NetworkMessage.fromBytes, henc, NetworkMessage.decode_tag_three]
  simp only [Codec.text, Codec.bytes, hlen, Option.bind_some, takeExact, if_pos hle]
  cases fromUtf8 ((entries.flatMap FileEntry.codec.encode).take entries.length) <;> rfl

/-- **A content is mistaken exactly when it decodes as a message**, and the
message is then a chunk or a `chunkEnd`. -/
theorem fromBytes_encode_content {c : ClipboardContent} (h : c.Fits (2 ^ 32)) :
    (¬ Mistaken c ∧ NetworkMessage.fromBytes (ClipboardContent.codec.encode c) = none) ∨
    (Mistaken c ∧ ∃ m, NetworkMessage.fromBytes (ClipboardContent.codec.encode c) = some m ∧
      ((∃ tid index, m = .chunk tid index []) ∨ ∃ tid, m = .chunkEnd tid)) := by
  cases c with
  | text s => exact .inl ⟨not_false, fromBytes_encode_text h⟩
  | image png => exact .inl ⟨not_false, fromBytes_encode_image h⟩
  | file name bytes =>
    have hmsg := fromBytes_encode_file h.1 h.2
    by_cases hpre : [0, 0, 0, 0] <+: bytes
    · rw [if_pos hpre] at hmsg
      exact .inr ⟨hpre, _, hmsg, .inl ⟨_, _, rfl⟩⟩
    · rw [if_neg hpre] at hmsg
      exact .inl ⟨hpre, hmsg⟩
  | files entries =>
    have hmsg := fromBytes_encode_files h.1
    cases hid : fromUtf8 ((entries.flatMap FileEntry.codec.encode).take entries.length) with
    | none =>
      rw [hid] at hmsg
      exact .inl ⟨by simp [Mistaken, hid], hmsg⟩
    | some tid =>
      rw [hid] at hmsg
      exact .inr ⟨by simp [Mistaken, hid], _, hmsg, .inr ⟨tid, rfl⟩⟩

/-! ### What the receiver makes of a bare content -/

section Understood

variable {build : Build} {sha : Sha256} {now : ℕ} {states : ChunkStates}

/-- A chunk returns no content, and a `chunkEnd` that returns one forgets its
transfer: neither returns a content and leaves the transfers as they are. -/
theorem handleNetworkMessage_ne_some {m : NetworkMessage} {c : ClipboardContent}
    (hm : (∃ tid index, m = .chunk tid index []) ∨ ∃ tid, m = .chunkEnd tid) :
    handleNetworkMessage build sha now states m ≠ .ok (some c, states) := by
  intro h
  by_cases htrips : Trips build states m
  · obtain ⟨p, hp⟩ : ∃ p, handleNetworkMessage build sha now states m = .error p :=
      handleNetworkMessage_eq_error htrips
    rw [hp] at h
    exact absurd h (by simp)
  · rw [handleNetworkMessage_eq_ok htrips] at h
    obtain ⟨hcontent, hstates⟩ := Prod.ext_iff.mp (Except.ok.inj h)
    rcases hm with ⟨tid, index, rfl⟩ | ⟨tid, rfl⟩
    · exact absurd hcontent (by simp [receive])
    · -- the transfer was open, and is not open afterwards
      have hopen : states tid ≠ none := by
        intro hnone
        simp [receive, hnone] at hcontent
      have hclosed : (receive sha now states (.chunkEnd tid)).2 tid = none := by
        simp [receive]
      exact hopen (by rw [← hclosed, hstates])

/-- **A bare content is understood exactly when it is not mistaken**: then the
receiver returns it and leaves the transfers in progress as they are, because its
bytes are no message. -/
theorem legacy_understood_iff (build : Build) (sha : Sha256) (now : ℕ) (states : ChunkStates)
    {c : ClipboardContent} {data : Bytes} (hfits : c.Fits (2 ^ 32))
    (hdata : c.toBytes = some data) :
    (handleIncomingMessage build sha now data states = .ok (some c, states) ↔ ¬ Mistaken c) ∧
      (NetworkMessage.fromBytes data = none ↔ ¬ Mistaken c) := by
  obtain rfl := Option.some.inj hdata
  rcases fromBytes_encode_content hfits with ⟨hnot, hnone⟩ | ⟨hmis, m, hm, hshape⟩
  · have hcontent : ClipboardContent.fromBytes (ClipboardContent.codec.encode c) = some c :=
      ClipboardContent.fromBytes_encode (hfits.mono (by decide))
    rw [handleIncomingMessage_of_none hnone, hcontent]
    exact ⟨iff_of_true rfl hnot, iff_of_true hnone hnot⟩
  · rw [handleIncomingMessage_of_message hm, hm]
    refine ⟨iff_of_false (handleNetworkMessage_ne_some hshape) (not_not.mpr hmis), ?_⟩
    exact iff_of_false (by simp) (not_not.mpr hmis)

/-- A file that does not start with zeros is understood, also while a transfer
with its name as id is open. -/
theorem legacy_file_understood :
    (ClipboardContent.file "a" [1, 2]).Fits (2 ^ 32) ∧
      ¬ Mistaken (.file "a" [1, 2]) ∧
      handleIncomingMessage Build.checked default 0
          (ClipboardContent.codec.encode (.file "a" [1, 2]))
          (Function.update ChunkStates.empty "a" (some ⟨1, "", 2, ∅, 0⟩)) =
        .ok (some (.file "a" [1, 2]),
          Function.update ChunkStates.empty "a" (some ⟨1, "", 2, ∅, 0⟩)) :=
  ⟨by decide, by decide,
    (legacy_understood_iff Build.checked default 0 _ (by decide) rfl).1.mpr (by decide)⟩

/-- Two files with one-letter names are read as the end of a transfer, whose id
is the first two bytes of the first name's length. -/
theorem legacy_two_files_lost :
    ¬ ∀ (build : Build) (sha : Sha256) (now : ℕ) (states : ChunkStates) (c : ClipboardContent)
      (data : Bytes), c.Fits (2 ^ 32) → c.toBytes = some data →
        handleIncomingMessage build sha now data states = .ok (some c, states) := by
  intro h
  have hlost : handleIncomingMessage Build.checked default 0
      (ClipboardContent.codec.encode (.files [⟨"a", [1]⟩, ⟨"b", [2]⟩])) ChunkStates.empty =
        .ok (none, ChunkStates.empty) := rfl
  have hkept := h Build.checked default 0 ChunkStates.empty
    (.files [⟨"a", [1]⟩, ⟨"b", [2]⟩]) _ (by decide) rfl
  rw [hlost] at hkept
  exact absurd (Except.ok.inj hkept) (by simp)

/-! ### The text of the oldest peers -/

/-- A tag of four bytes that are not zero belongs to no variant of either enum. -/
theorem decode_tag_large {low : Bytes} (hlow : low.length = 4) (htag : 4 ≤ decodeLE low)
    (rest : Bytes) :
    NetworkMessage.codec.decode (low ++ rest) = none ∧
      ClipboardContent.codec.decode (low ++ rest) = none := by
  have hnat := Codec.nat_decode_append low rest hlow
  constructor
  · simp only [NetworkMessage.codec, hnat, Option.bind_some]
    split <;> first | omega | rfl
  · simp only [ClipboardContent.codec, hnat, Option.bind_some]
    split <;> first | omega | rfl

/-- **Bytes without a zero are no message and no content**: either there are too few
for a tag, or the tag is too large. -/
theorem fromBytes_eq_none_of_no_zero {data : Bytes} (h : 0 ∉ data) :
    NetworkMessage.fromBytes data = none ∧ ClipboardContent.fromBytes data = none := by
  by_cases hshort : data.length < 4
  · have hnat : (Codec.nat 4).decode data = none := Codec.nat_decode_eq_none hshort
    constructor
    · simp only [NetworkMessage.fromBytes, NetworkMessage.codec, hnat, Option.bind_none,
        Option.map_none]
    · simp only [ClipboardContent.fromBytes, ClipboardContent.codec, hnat, Option.bind_none,
        Option.map_none]
  · obtain ⟨low, rest, rfl, hlow⟩ : ∃ low rest, data = low ++ rest ∧ low.length = 4 :=
      ⟨data.take 4, data.drop 4, (List.take_append_drop 4 data).symm, by
        rw [List.length_take]; omega⟩
    have htag : 4 ≤ decodeLE low := by
      obtain ⟨a, b, tail, rfl⟩ : ∃ a b tail, low = a :: b :: tail := by
        rcases low with _ | ⟨a, _ | ⟨b, tail⟩⟩
        · simp at hlow
        · simp at hlow
        · exact ⟨a, b, tail, rfl⟩
      -- the second byte alone counts 256
      have hb : b.toNat ≠ 0 := by
        intro hzero
        have hb0 : b = 0 := UInt8.toNat_inj.mp hzero
        exact h (by simp [hb0])
      rw [decodeLE, decodeLE]
      omega
    obtain ⟨hmessage, hcontent⟩ := decode_tag_large hlow htag rest
    simp only [NetworkMessage.fromBytes, ClipboardContent.fromBytes, hmessage, hcontent,
      Option.map_none, and_self]

/-- **The text of the oldest peers is never mistaken**: a text without NUL is read as
that text, and the transfers in progress stay as they are. -/
theorem raw_text_understood (build : Build) (sha : Sha256) (now : ℕ) (states : ChunkStates)
    {s : String} (h : '\x00' ∉ s.toList) :
    NetworkMessage.fromBytes (utf8 s) = none ∧ ClipboardContent.fromBytes (utf8 s) = none ∧
      handleIncomingMessage build sha now (utf8 s) states = .ok (some (.text s), states) := by
  obtain ⟨hmessage, hcontent⟩ := fromBytes_eq_none_of_no_zero (zero_not_mem_utf8 h)
  refine ⟨hmessage, hcontent, ?_⟩
  rw [handleIncomingMessage_of_none hmessage, hcontent, fromUtf8Lossy_utf8]
  rfl

/-- A short text with an accent is understood while a transfer is open. -/
theorem raw_text_understood_accent :
    '\x00' ∉ "é!".toList ∧
      handleIncomingMessage Build.checked default 0 (utf8 "é!")
          (Function.update ChunkStates.empty "a" (some ⟨1, "", 2, ∅, 0⟩)) =
        .ok (some (.text "é!"), Function.update ChunkStates.empty "a" (some ⟨1, "", 2, ∅, 0⟩)) :=
  ⟨by decide, (raw_text_understood Build.checked default 0 _ (by decide)).2.2⟩

end Understood

end P2pClipboard
