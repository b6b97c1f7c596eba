import P2pClipboard.Content

/-!
# What is handed to the network

A content is split by the length of its own serialisation, but what is sent is the
serialisation of a message around it, compressed and then signed.  The messages
are at most sixty bytes longer than a chunk, and what the compressor and the
signed envelope can add stays below the limit of the network.

## Main definitions

* `maxTransmitSize`, `outboundTransform` — the limit, and the compression of
  `CompressionTransform`.

## Main results

* `length_encode_of_mem_split` — every message of a content is at most sixty bytes
  longer than a chunk.
* `split_transmittable` — **every message of every content can be transmitted.**
-/

namespace P2pClipboard

/-- `MAX_TRANSMIT_SIZE`. -/
def maxTransmitSize : ℕ := 2 * 1024 * 1024

/-- `CompressionTransform::outbound_transform`, for the compressor `encodeAll`. -/
def outboundTransform (encodeAll : Bytes → Option Bytes) (data : Bytes) : Option Bytes :=
  encodeAll data

/-! ### The messages of a content -/

theorem length_encode_direct (content : ClipboardContent) :
    (NetworkMessage.codec.encode (.direct content)).length =
      4 + (ClipboardContent.codec.encode content).length := by
  simp [NetworkMessage.codec, Codec.nat]

theorem length_encode_chunkStart (tid hash : String) (total : UInt32) (size : UInt64) :
    (NetworkMessage.codec.encode (.chunkStart tid total hash size)).length =
      32 + tid.utf8ByteSize + hash.utf8ByteSize := by
  simp [NetworkMessage.codec, Codec.text, Codec.bytes, Codec.u32, Codec.u64, Codec.nat]
  omega

theorem length_encode_chunk (tid : String) (index : UInt32) (data : Bytes) :
    (NetworkMessage.codec.encode (.chunk tid index data)).length =
      24 + tid.utf8ByteSize + data.length := by
  simp [NetworkMessage.codec, Codec.text, Codec.bytes, Codec.u32, Codec.nat]
  omega

theorem length_encode_chunkEnd (tid : String) :
    (NetworkMessage.codec.encode (.chunkEnd tid)).length = 12 + tid.utf8ByteSize := by
  simp [NetworkMessage.codec, Codec.text, Codec.bytes, Codec.nat]
  omega

/-- **A message of a content is at most sixty bytes longer than a chunk.** -/
theorem length_encode_of_mem_split {sha : Sha256} {uuid : Uuid} {content : ClipboardContent}
    {messages : List NetworkMessage} (h : splitToNetworkMessages sha uuid content = some messages)
    {m : NetworkMessage} (hm : m ∈ messages) :
    (NetworkMessage.codec.encode m).length ≤ chunkDataSize + 60 := by
  have huuid := uuid.utf8ByteSize_text
  by_cases hsmall : (ClipboardContent.codec.encode content).length ≤ chunkDataSize
  · rw [splitToNetworkMessages_small hsmall] at h
    obtain rfl := Option.some.inj h
    obtain rfl := List.mem_singleton.mp hm
    rw [length_encode_direct]
    omega
  · rw [splitToNetworkMessages_large rfl (Nat.lt_of_not_le hsmall)] at h
    obtain rfl := Option.some.inj h
    have hsize : chunkDataSize = 1500000 := rfl
    rcases List.mem_cons.mp hm with rfl | hm
    · have hhash := sha.utf8ByteSize_hex (ClipboardContent.codec.encode content)
      rw [length_encode_chunkStart]
      omega
    · rcases List.mem_append.mp hm with hm | hm
      · obtain ⟨i, chunk, hchunk, rfl⟩ := mem_chunkMessages.mp hm
        have hlen : chunk.length ≤ chunkDataSize :=
          length_le_of_mem_chunks (List.mem_of_getElem? hchunk)
        rw [length_encode_chunk]
        omega
      · obtain rfl := List.mem_singleton.mp hm
        rw [length_encode_chunkEnd]
        omega

/-! ### The limit of the network -/

/-- **Every message of every content can be transmitted**: it is at most sixty bytes
longer than a chunk, so with what the compressor and the signed envelope may add it
stays within the limit. -/
theorem split_transmittable (sha : Sha256) (uuid : Uuid) (content : ClipboardContent)
    {encodeAll : Bytes → Option Bytes} {envelope : Bytes → Bytes}
    (hencode : ∀ input output, encodeAll input = some output →
      output.length ≤ input.length + input.length / 256 + 65536)
    (henvelope : ∀ payload, (envelope payload).length ≤ payload.length + 1024) :
    ∃ messages, splitToNetworkMessages sha uuid content = some messages ∧
      ∀ m ∈ messages, ∃ data, m.toBytes = some data ∧ data.length ≤ chunkDataSize + 60 ∧
        ∀ compressed, outboundTransform encodeAll data = some compressed →
          (envelope compressed).length ≤ maxTransmitSize := by
  obtain ⟨messages, hsplit⟩ : ∃ messages, splitToNetworkMessages sha uuid content = some messages :=
    ⟨_, rfl⟩
  refine ⟨messages, hsplit, fun m hm => ⟨_, rfl, length_encode_of_mem_split hsplit hm, ?_⟩⟩
  intro compressed hcompressed
  have hsize := length_encode_of_mem_split hsplit hm
  have hzstd := hencode _ _ hcompressed
  have hsigned := henvelope compressed
  have hchunk : chunkDataSize = 1500000 := rfl
  have hlimit : maxTransmitSize = 2097152 := rfl
  omega

/-- The direct message of the text `hi`. -/
private def hiMessage : Bytes := [0, 0, 0, 0, 0, 0, 0, 0, 2, 0, 0, 0, 0, 0, 0, 0, 0x68, 0x69]

/-- The frame zstd makes of it. -/
private def hiFrame : Bytes :=
  [0x28, 0xb5, 0x2f, 0xfd, 0x00, 0x58, 0x75, 0x00, 0x00, 0x30, 0x00, 0x00, 0x02, 0x00, 0x68, 0x69,
    0x02, 0x00, 0x60, 0xe0, 0x01, 0x60, 0x01]

/-- A compressor that knows this one input. -/
private def hiCompressor (data : Bytes) : Option Bytes :=
  if data = hiMessage then some hiFrame else none

/-- An id of the right form. -/
private def hiUuid : Uuid := ⟨"936da01f-9abd-4d9d-80c7-02af85c822a8", by decide⟩

/-- An envelope with a sender in front, and a sequence number, a topic and a
signature behind. -/
private def hiEnvelope (payload : Bytes) : Bytes :=
  List.replicate 40 0 ++ payload ++ List.replicate 120 0

/-- The text `hi` is sent compressed in one message. -/
theorem split_transmittable_hi :
    outboundTransform hiCompressor hiMessage = some hiFrame ∧
      ∃ messages, splitToNetworkMessages default hiUuid (.text "hi") = some messages ∧
        ∀ m ∈ messages, ∃ data, m.toBytes = some data ∧ data.length ≤ chunkDataSize + 60 ∧
          ∀ compressed, outboundTransform hiCompressor data = some compressed →
            (hiEnvelope compressed).length ≤ maxTransmitSize := by
  refine ⟨rfl, split_transmittable default hiUuid (.text "hi") ?_ ?_⟩
  · intro input output houtput
    unfold hiCompressor at houtput
    split_ifs at houtput
    obtain rfl := Option.some.inj houtput
    have hlen : hiFrame.length = 23 := rfl
    omega
  · intro payload
    simp only [hiEnvelope, List.length_append, List.length_replicate]
    omega

end P2pClipboard
