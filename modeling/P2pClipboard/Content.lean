import P2pClipboard.Lib.Codec
import P2pClipboard.Lib.Chunks

/-!
# Clipboard contents and the messages that carry them

The data types of `src/clipboard_content.rs` with their wire format.  Both enums
are serialised by bincode 1 in its default configuration: a variant is a
four-byte tag followed by its fields in order, lengths take eight bytes, and
bytes behind a decoded value are tolerated.

A content whose serialisation is short travels in one `direct` message; a longer
one is announced by a `chunkStart`, cut into numbered `chunk`s and closed by a
`chunkEnd`.

## Main definitions

* `ClipboardContent`, `NetworkMessage` — the two enums, with `toBytes` and
  `fromBytes`.
* `splitToNetworkMessages` — the messages of one content.
* `ClipboardContent.Fits`, `NetworkMessage.Fits` — every length in the value is
  below a bound.

## Main results

* `ClipboardContent.fromBytes_encode`, `NetworkMessage.fromBytes_encode` — the
  wire format round-trips.
* `ClipboardContent.fits_of_length_encode` — a short serialisation has short
  parts.
-/

namespace P2pClipboard

/-- The largest number of content bytes in one chunk. -/
def chunkDataSize : ℕ := 1500000

theorem chunkDataSize_pos : 0 < chunkDataSize := by decide

/-! ### The data types -/

/-- One file of a file list. -/
structure FileEntry where
  /-- The file name, with `/` between directories. -/
  name : String
  /-- The file's bytes. -/
  bytes : Bytes
  deriving DecidableEq, Repr

/-- What a clipboard can hold. -/
inductive ClipboardContent
  /-- Plain text. -/
  | text (s : String)
  /-- An image, as the bytes of a PNG file. -/
  | image (pngBytes : Bytes)
  /-- One file. -/
  | file (name : String) (bytes : Bytes)
  /-- Several files. -/
  | files (entries : List FileEntry)
  deriving DecidableEq, Repr

/-- What is sent over the network. -/
inductive NetworkMessage
  /-- A small content, whole. -/
  | direct (content : ClipboardContent)
  /-- The announcement of a chunked transfer. -/
  | chunkStart (transferId : String) (totalChunks : UInt32) (dataHash : String)
      (totalSize : UInt64)
  /-- One piece of a chunked transfer. -/
  | chunk (transferId : String) (index : UInt32) (data : Bytes)
  /-- The end of a chunked transfer. -/
  | chunkEnd (transferId : String)
  deriving DecidableEq, Repr

/-! ### The wire format -/

/-- The wire format of a file entry. -/
def FileEntry.codec : Codec FileEntry where
  encode e := Codec.text.encode e.name ++ Codec.bytes.encode e.bytes
  decode bs :=
    (Codec.text.decode bs).bind fun p =>
      (Codec.bytes.decode p.2).map fun q => (⟨p.1, q.1⟩, q.2)

namespace ClipboardContent

/-- The wire format of a content: the variant's tag, then its fields. -/
def codec : Codec ClipboardContent where
  encode
    | .text s => (Codec.nat 4).encode 0 ++ Codec.text.encode s
    | .image png => (Codec.nat 4).encode 1 ++ Codec.bytes.encode png
    | .file name bytes =>
        (Codec.nat 4).encode 2 ++ (Codec.text.encode name ++ Codec.bytes.encode bytes)
    | .files entries => (Codec.nat 4).encode 3 ++ FileEntry.codec.vec.encode entries
  decode bs :=
    ((Codec.nat 4).decode bs).bind fun t =>
      match t.1 with
      | 0 => (Codec.text.decode t.2).map fun p => (.text p.1, p.2)
      | 1 => (Codec.bytes.decode t.2).map fun p => (.image p.1, p.2)
      | 2 =>
          (Codec.text.decode t.2).bind fun p =>
            (Codec.bytes.decode p.2).map fun q => (.file p.1 q.1, q.2)
      | 3 => (FileEntry.codec.vec.decode t.2).map fun p => (.files p.1, p.2)
      | _ => none

/-- Serialise a content; bincode has no failing case for these types. -/
def toBytes (c : ClipboardContent) : Option Bytes := some (codec.encode c)

/-- Deserialise a content, ignoring trailing bytes. -/
def fromBytes (data : Bytes) : Option ClipboardContent := (codec.decode data).map Prod.fst

/-- Every length occurring in the content is below `bound`. -/
def Fits (bound : ℕ) : ClipboardContent → Prop
  | .text s => s.utf8ByteSize < bound
  | .image png => png.length < bound
  | .file name bytes => name.utf8ByteSize < bound ∧ bytes.length < bound
  | .files entries => entries.length < bound ∧
      ∀ e ∈ entries, e.name.utf8ByteSize < bound ∧ e.bytes.length < bound

instance decidableFits (bound : ℕ) : (c : ClipboardContent) → Decidable (c.Fits bound)
  | .text _ => inferInstanceAs (Decidable (_ < _))
  | .image _ => inferInstanceAs (Decidable (_ < _))
  | .file _ _ => inferInstanceAs (Decidable (_ ∧ _))
  | .files _ => inferInstanceAs (Decidable (_ ∧ ∀ e ∈ _, _))

theorem Fits.mono {bound bound' : ℕ} (hle : bound ≤ bound') {c : ClipboardContent}
    (h : c.Fits bound) : c.Fits bound' := by
  cases c with
  | text s => exact Nat.lt_of_lt_of_le h hle
  | image png => exact Nat.lt_of_lt_of_le h hle
  | file name bytes => exact ⟨h.1.trans_le hle, h.2.trans_le hle⟩
  | files entries =>
    exact ⟨h.1.trans_le hle, fun e he => ⟨(h.2 e he).1.trans_le hle, (h.2 e he).2.trans_le hle⟩⟩

end ClipboardContent

namespace NetworkMessage

/-- The wire format of a message: the variant's tag, then its fields. -/
def codec : Codec NetworkMessage where
  encode
    | .direct c => (Codec.nat 4).encode 0 ++ ClipboardContent.codec.encode c
    | .chunkStart tid total hash size =>
        (Codec.nat 4).encode 1 ++ (Codec.text.encode tid ++ (Codec.u32.encode total ++
          (Codec.text.encode hash ++ Codec.u64.encode size)))
    | .chunk tid index data =>
        (Codec.nat 4).encode 2 ++ (Codec.text.encode tid ++ (Codec.u32.encode index ++
          Codec.bytes.encode data))
    | .chunkEnd tid => (Codec.nat 4).encode 3 ++ Codec.text.encode tid
  decode bs :=
    ((Codec.nat 4).decode bs).bind fun t =>
      match t.1 with
      | 0 => (ClipboardContent.codec.decode t.2).map fun p => (.direct p.1, p.2)
      | 1 =>
          (Codec.text.decode t.2).bind fun p =>
            (Codec.u32.decode p.2).bind fun q =>
              (Codec.text.decode q.2).bind fun r =>
                (Codec.u64.decode r.2).map fun s => (.chunkStart p.1 q.1 r.1 s.1, s.2)
      | 2 =>
          (Codec.text.decode t.2).bind fun p =>
            (Codec.u32.decode p.2).bind fun q =>
              (Codec.bytes.decode q.2).map fun r => (.chunk p.1 q.1 r.1, r.2)
      | 3 => (Codec.text.decode t.2).map fun p => (.chunkEnd p.1, p.2)
      | _ => none

/-- Serialise a message; bincode has no failing case for these types. -/
def toBytes (m : NetworkMessage) : Option Bytes := some (codec.encode m)

/-- Deserialise a message, ignoring trailing bytes. -/
def fromBytes (data : Bytes) : Option NetworkMessage := (codec.decode data).map Prod.fst

/-- Every length occurring in the message is below `bound`. -/
def Fits (bound : ℕ) : NetworkMessage → Prop
  | .direct c => c.Fits bound
  | .chunkStart tid _ hash _ => tid.utf8ByteSize < bound ∧ hash.utf8ByteSize < bound
  | .chunk tid _ data => tid.utf8ByteSize < bound ∧ data.length < bound
  | .chunkEnd tid => tid.utf8ByteSize < bound

instance decidableFits (bound : ℕ) : (m : NetworkMessage) → Decidable (m.Fits bound)
  | .direct c => inferInstanceAs (Decidable (c.Fits bound))
  | .chunkStart _ _ _ _ => inferInstanceAs (Decidable (_ ∧ _))
  | .chunk _ _ _ => inferInstanceAs (Decidable (_ ∧ _))
  | .chunkEnd _ => inferInstanceAs (Decidable (_ < _))

end NetworkMessage

/-! ### Round trips -/

theorem FileEntry.codec_roundTrips {e : FileEntry} (hname : e.name.utf8ByteSize < 2 ^ 64)
    (hbytes : e.bytes.length < 2 ^ 64) : FileEntry.codec.RoundTrips e := by
  intro rest
  have hn := Codec.text_roundTrips hname (Codec.bytes.encode e.bytes ++ rest)
  have hb := Codec.bytes_roundTrips hbytes rest
  simp [FileEntry.codec, hn, hb]

/-- A variant's tag is read back. -/
private theorem decode_tag {n : ℕ} (hn : n < 256 ^ 4) (rest : Bytes) :
    (Codec.nat 4).decode ((Codec.nat 4).encode n ++ rest) = some (n, rest) :=
  Codec.nat_roundTrips hn rest

/-- **The wire format of contents round-trips**, whatever follows the content. -/
theorem ClipboardContent.codec_roundTrips {c : ClipboardContent} (h : c.Fits (2 ^ 64)) :
    ClipboardContent.codec.RoundTrips c := by
  intro rest
  cases c with
  | text s =>
    have hs := Codec.text_roundTrips h rest
    simp [codec, decode_tag, hs]
  | image png =>
    have hp := Codec.bytes_roundTrips h rest
    simp [codec, decode_tag, hp]
  | file name bytes =>
    have hn := Codec.text_roundTrips h.1 (Codec.bytes.encode bytes ++ rest)
    have hb := Codec.bytes_roundTrips h.2 rest
    simp [codec, decode_tag, hn, hb]
  | files entries =>
    have he := Codec.vec_roundTrips h.1
      (fun e he => FileEntry.codec_roundTrips (h.2 e he).1 (h.2 e he).2) rest
    simp [codec, decode_tag, he]

/-- **The wire format of messages round-trips**, whatever follows the message. -/
theorem NetworkMessage.codec_roundTrips {m : NetworkMessage} (h : m.Fits (2 ^ 64)) :
    NetworkMessage.codec.RoundTrips m := by
  intro rest
  cases m with
  | direct c =>
    have hc := ClipboardContent.codec_roundTrips h rest
    simp [codec, decode_tag, hc]
  | chunkStart tid total hash size =>
    have ht := Codec.text_roundTrips h.1 (Codec.u32.encode total ++
      (Codec.text.encode hash ++ (Codec.u64.encode size ++ rest)))
    have hn := Codec.u32_roundTrips total (Codec.text.encode hash ++
      (Codec.u64.encode size ++ rest))
    have hh := Codec.text_roundTrips h.2 (Codec.u64.encode size ++ rest)
    have hs := Codec.u64_roundTrips size rest
    simp [codec, decode_tag, ht, hn, hh, hs]
  | chunk tid index data =>
    have ht := Codec.text_roundTrips h.1 (Codec.u32.encode index ++
      (Codec.bytes.encode data ++ rest))
    have hn := Codec.u32_roundTrips index (Codec.bytes.encode data ++ rest)
    have hd := Codec.bytes_roundTrips h.2 rest
    simp [codec, decode_tag, ht, hn, hd]
  | chunkEnd tid =>
    have ht := Codec.text_roundTrips h rest
    simp [codec, decode_tag, ht]

theorem ClipboardContent.fromBytes_encode {c : ClipboardContent} (h : c.Fits (2 ^ 64)) :
    ClipboardContent.fromBytes (codec.encode c) = some c := by
  have hc := codec_roundTrips h []
  rw [List.append_nil] at hc
  simp [fromBytes, hc]

theorem NetworkMessage.fromBytes_encode {m : NetworkMessage} (h : m.Fits (2 ^ 64)) :
    NetworkMessage.fromBytes (codec.encode m) = some m := by
  have hm := codec_roundTrips h []
  rw [List.append_nil] at hm
  simp [fromBytes, hm]

/-! ### Sizes -/

theorem FileEntry.length_encode (e : FileEntry) :
    (codec.encode e).length = 16 + e.name.utf8ByteSize + e.bytes.length := by
  simp [codec, Codec.text, Codec.bytes, Codec.nat]
  omega

theorem FileEntry.length_flatMap_encode (es : List FileEntry) :
    es.length ≤ (es.flatMap codec.encode).length ∧
      ∀ e ∈ es, (codec.encode e).length ≤ (es.flatMap codec.encode).length := by
  induction es with
  | nil => simp
  | cons e es ih =>
    obtain ⟨hlen, hmem⟩ := ih
    rw [List.flatMap_cons, List.length_append, List.length_cons]
    have he := FileEntry.length_encode e
    refine ⟨by omega, ?_⟩
    intro x hx
    rcases List.mem_cons.mp hx with rfl | hx
    · omega
    · have := hmem x hx
      omega

/-- No length in a content exceeds the length of its serialisation. -/
theorem ClipboardContent.fits_of_length_encode {c : ClipboardContent} {bound : ℕ}
    (h : (codec.encode c).length < bound) : c.Fits bound := by
  cases c with
  | text s =>
    simp [codec, Codec.text, Codec.bytes, Codec.nat] at h
    simp only [Fits]
    omega
  | image png =>
    simp [codec, Codec.bytes, Codec.nat] at h
    simp only [Fits]
    omega
  | file name bytes =>
    simp [codec, Codec.text, Codec.bytes, Codec.nat] at h
    simp only [Fits]
    omega
  | files entries =>
    obtain ⟨hlen, hmem⟩ := FileEntry.length_flatMap_encode entries
    have hlt : (entries.flatMap FileEntry.codec.encode).length < bound := by
      simp only [codec, Codec.vec, List.length_append] at h
      omega
    refine ⟨by omega, ?_⟩
    intro e he
    have := hmem e he
    have := FileEntry.length_encode e
    omega

/-! ### Splitting a content into messages -/

/-- SHA-256 as the code uses it: a text of 64 hexadecimal digits. -/
structure Sha256 where
  /-- `sha256_hex`. -/
  hex : Bytes → String
  /-- A digest is written with 64 digits. -/
  utf8ByteSize_hex : ∀ data, (hex data).utf8ByteSize = 64

instance : Inhabited Sha256 :=
  ⟨⟨fun _ => "0000000000000000000000000000000000000000000000000000000000000000", fun _ => by
    decide⟩⟩

/-- A transfer id: the hyphenated text of a random UUID. -/
structure Uuid where
  /-- The text. -/
  text : String
  /-- A hyphenated UUID has 36 characters. -/
  utf8ByteSize_text : text.utf8ByteSize = 36

/-- The numbered chunk messages of a serialised content. -/
def chunkMessages (transferId : String) (raw : Bytes) : List NetworkMessage :=
  (chunks chunkDataSize raw).mapIdx fun i chunk =>
    .chunk transferId (UInt32.ofNat i) chunk

/-- The number of chunks announced for `n` bytes. -/
def totalChunks (n : ℕ) : ℕ := (n + chunkDataSize - 1) / chunkDataSize

/-- The messages of a content.  The source draws the transfer id inside the
function; here it is the argument `uuid`. -/
def splitToNetworkMessages (sha : Sha256) (uuid : Uuid) (content : ClipboardContent) :
    Option (List NetworkMessage) :=
  content.toBytes.map fun raw =>
    if raw.length ≤ chunkDataSize then
      [.direct content]
    else
      .chunkStart uuid.text (UInt32.ofNat (totalChunks raw.length)) (sha.hex raw)
          (UInt64.ofNat raw.length) ::
        (chunkMessages uuid.text raw ++ [.chunkEnd uuid.text])

section Split

variable {sha : Sha256} {uuid : Uuid} {content : ClipboardContent}

theorem splitToNetworkMessages_small
    (h : (ClipboardContent.codec.encode content).length ≤ chunkDataSize) :
    splitToNetworkMessages sha uuid content = some [.direct content] := by
  simp [splitToNetworkMessages, ClipboardContent.toBytes, h]

theorem splitToNetworkMessages_large {raw : Bytes}
    (hraw : ClipboardContent.codec.encode content = raw) (h : chunkDataSize < raw.length) :
    splitToNetworkMessages sha uuid content =
      some (.chunkStart uuid.text (UInt32.ofNat (totalChunks raw.length)) (sha.hex raw)
          (UInt64.ofNat raw.length) ::
        (chunkMessages uuid.text raw ++ [.chunkEnd uuid.text])) := by
  simp [splitToNetworkMessages, ClipboardContent.toBytes, hraw, Nat.not_le.mpr h]

theorem mem_chunkMessages {tid : String} {raw : Bytes} {m : NetworkMessage} :
    m ∈ chunkMessages tid raw ↔
      ∃ i chunk, (chunks chunkDataSize raw)[i]? = some chunk ∧
        m = .chunk tid (UInt32.ofNat i) chunk := by
  rw [chunkMessages, List.mem_iff_getElem?]
  simp only [List.getElem?_mapIdx, Option.map_eq_some_iff]
  constructor
  · rintro ⟨i, chunk, hchunk, rfl⟩
    exact ⟨i, chunk, hchunk, rfl⟩
  · rintro ⟨i, chunk, hchunk, rfl⟩
    exact ⟨i, chunk, hchunk, rfl⟩

end Split

end P2pClipboard
