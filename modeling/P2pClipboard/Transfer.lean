import Mathlib.Data.Fin.VecNotation
import P2pClipboard.History

/-!
# The round trip of a transfer

What the splitter sends, the receiver puts together again.  The messages of many
transfers may arrive interleaved in any way, and the chunks of one transfer in
any order and more than once; only the announcement has to come first and the
end last.

The proof follows the deliveries that are still to come.  `Progress` relates the
rest of one transfer's deliveries to the receiver's state for it: the transfer is
waiting for its announcement, collecting chunks, or done.  One delivery moves one
transfer along (`progress_receive`) and leaves the others where they are.

## Main definitions

* `Admissible` — an order in which one transfer may be delivered.
* `Delivery`, `runDeliveries` — deliveries to one receiver, and what they return.
* `Progress` — how far a transfer has come.

## Main results

* `content_of_collected` — a transfer with all its chunks yields the content.
* `deliveries_roundTrip` — **every content arrives exactly once, under every
  interleaving.**
-/

namespace P2pClipboard

/-! ### Deliveries -/

/-- `ds` delivers the messages `msgs` of one transfer in an admissible order: a
single message once; else the first, then the middle ones permuted and repeated
at will, then the last. -/
def Admissible (msgs ds : List NetworkMessage) : Prop :=
  (∃ m, msgs = [m] ∧ ds = [m]) ∨
    ∃ first middle last delivered, msgs = first :: (middle ++ [last]) ∧
      ds = first :: (delivered ++ [last]) ∧ ∀ m, m ∈ delivered ↔ m ∈ middle

/-- One of the messages of a family of transfers, delivered at a time. -/
structure Delivery (k : ℕ) where
  /-- When the message is handled. -/
  now : ℕ
  /-- The transfer the message belongs to. -/
  transfer : Fin k
  /-- The message. -/
  message : NetworkMessage
  /-- The bytes that arrive. -/
  bytes : Bytes
  /-- They are the message's. -/
  toBytes_message : message.toBytes = some bytes

/-- The deliveries of one transfer. -/
def deliveriesOf {k : ℕ} (i : Fin k) (ds : List (Delivery k)) : List NetworkMessage :=
  (ds.filter fun d => d.transfer = i).map Delivery.message

/-- The messages a content is handed over at. -/
def NetworkMessage.completes : NetworkMessage → Bool
  | .direct _ => true
  | .chunkStart _ _ _ _ => false
  | .chunk _ _ _ => false
  | .chunkEnd _ => true

/-- Hand the deliveries to the receiver, collecting what it returns. -/
def runDeliveries {k : ℕ} (build : Build) (sha : Sha256) (states : ChunkStates) :
    List (Delivery k) → Except Panic (List (Option ClipboardContent) × ChunkStates)
  | [] => .ok ([], states)
  | d :: ds =>
      (handleIncomingMessage build sha d.now d.bytes states).bind fun r =>
        (runDeliveries build sha r.2 ds).map fun q => (r.1 :: q.1, q.2)

/-! ### Collecting the chunks -/

/-- The serialised content, as the sender sees it. -/
def rawOf (c : ClipboardContent) : Bytes := ClipboardContent.codec.encode c

/-- The content needs a chunked transfer. -/
def Chunked (c : ClipboardContent) : Prop := chunkDataSize < (rawOf c).length

/-- The announcement of a content, as a state without chunks. -/
def announced (sha : Sha256) (c : ClipboardContent) (received : ReceivedChunks) (now : ℕ) :
    ChunkReceiveState :=
  ⟨UInt32.ofNat (totalChunks (rawOf c).length), sha.hex (rawOf c),
    UInt64.ofNat (rawOf c).length, received, now⟩

/-- The received chunks are chunks of `raw`. -/
def Sound (raw : Bytes) (received : ReceivedChunks) : Prop :=
  ∀ index data, received.lookup index = some data →
    ∃ i, index = UInt32.ofNat i ∧ (chunks chunkDataSize raw)[i]? = some data

variable {sha : Sha256} {c : ClipboardContent} {uuid : Uuid}

theorem length_lt_of_totalChunks {n : ℕ} (h : totalChunks n < 2 ^ 32) :
    n < 2 ^ 32 * chunkDataSize := by
  unfold totalChunks chunkDataSize at h
  unfold chunkDataSize
  omega

theorem length_chunks_raw (raw : Bytes) :
    (chunks chunkDataSize raw).length = totalChunks raw.length :=
  length_chunks chunkDataSize_pos raw

/-- Chunk indices below `2 ^ 32` are told apart by their 32-bit form. -/
theorem ofNat_inj_of_lt {i j : ℕ} (hi : i < 2 ^ 32) (hj : j < 2 ^ 32)
    (h : UInt32.ofNat i = UInt32.ofNat j) : i = j := by
  have := congrArg UInt32.toNat h
  rwa [UInt32.toNat_ofNat', UInt32.toNat_ofNat', Nat.mod_eq_of_lt hi,
    Nat.mod_eq_of_lt hj] at this

/-- A complete and sound collection has as many keys as there are chunks. -/
theorem length_keys_of_complete {raw : Bytes} {received : ReceivedChunks}
    (hsize : totalChunks raw.length < 2 ^ 32) (hsound : Sound raw received)
    (hall : ∀ i chunk, (chunks chunkDataSize raw)[i]? = some chunk →
      received.lookup (UInt32.ofNat i) = some chunk) :
    received.keys.length = totalChunks raw.length := by
  have hlt : ∀ i chunk, (chunks chunkDataSize raw)[i]? = some chunk →
      i < totalChunks raw.length := by
    intro i chunk hi
    rw [← length_chunks_raw]
    exact (List.getElem?_eq_some_iff.mp hi).1
  -- the keys are the indices below the number of chunks, as 32-bit numbers
  have hkeys : received.keys.toFinset =
      (Finset.range (totalChunks raw.length)).image UInt32.ofNat := by
    ext index
    rw [List.mem_toFinset, ← AList.mem_keys, ← AList.lookup_isSome, Finset.mem_image,
      Option.isSome_iff_exists]
    constructor
    · rintro ⟨data, hdata⟩
      obtain ⟨i, rfl, hi⟩ := hsound index data hdata
      exact ⟨i, Finset.mem_range.mpr (hlt i data hi), rfl⟩
    · rintro ⟨i, hi, rfl⟩
      have hi' : i < (chunks chunkDataSize raw).length := by
        rw [length_chunks_raw]
        exact Finset.mem_range.mp hi
      exact ⟨_, hall i _ (List.getElem?_eq_getElem hi')⟩
  have hinj : Set.InjOn UInt32.ofNat (Finset.range (totalChunks raw.length) : Set ℕ) := by
    intro i hi j hj heq
    have hi' := Finset.mem_range.mp hi
    have hj' := Finset.mem_range.mp hj
    exact ofNat_inj_of_lt (by omega) (by omega) heq
  rw [← List.toFinset_card_of_nodup (AList.keys_nodup received), hkeys,
    Finset.card_image_of_injOn hinj, Finset.card_range]

/-- **A transfer with all its chunks yields the content.** -/
theorem content_of_collected {received : ReceivedChunks} {now : ℕ}
    (hsize : totalChunks (rawOf c).length < 2 ^ 32) (hsound : Sound (rawOf c) received)
    (hall : ∀ i chunk, (chunks chunkDataSize (rawOf c))[i]? = some chunk →
      received.lookup (UInt32.ofNat i) = some chunk) :
    (announced sha c received now).content sha = some c := by
  have hcount := length_keys_of_complete hsize hsound hall
  have htotal : (UInt32.ofNat (totalChunks (rawOf c).length)).toNat =
      (chunks chunkDataSize (rawOf c)).length := by
    rw [UInt32.toNat_ofNat', Nat.mod_eq_of_lt hsize, length_chunks_raw]
  have hraw : assemble received (chunks chunkDataSize (rawOf c)).length = some (rawOf c) := by
    refine assemble_eq_some_iff.mpr
      ⟨fun i => (chunks chunkDataSize (rawOf c)).getD i [], fun i hi => ?_, ?_⟩
    · have hchunk := hall i _ (List.getElem?_eq_getElem hi)
      simpa [hi] using hchunk
    · have hrange : (List.range (chunks chunkDataSize (rawOf c)).length).map
          (fun i => (chunks chunkDataSize (rawOf c)).getD i []) =
          chunks chunkDataSize (rawOf c) := by
        refine List.ext_getElem (by simp) fun i h₁ h₂ => ?_
        simp [h₂]
      rw [List.flatMap_def, hrange, flatten_chunks chunkDataSize_pos]
  have hfits : c.Fits (2 ^ 64) := by
    refine ClipboardContent.fits_of_length_encode ?_
    have := length_lt_of_totalChunks hsize
    unfold rawOf chunkDataSize at this
    omega
  unfold ChunkReceiveState.content announced
  rw [if_pos (by rw [hcount]), htotal, hraw, Option.bind_some, if_pos rfl]
  exact ClipboardContent.fromBytes_encode hfits

/-! ### How far a transfer has come -/

/-- The rest of the deliveries of one transfer, against the receiver's state for
it.  A small content does not use the table at all. -/
inductive Progress (sha : Sha256) (c : ClipboardContent) (uuid : Uuid) (states : ChunkStates) :
    List NetworkMessage → Prop
  /-- A small content still to come. -/
  | direct (hsmall : ¬ Chunked c) : Progress sha c uuid states [.direct c]
  /-- A small content that has arrived. -/
  | directDone (hsmall : ¬ Chunked c) : Progress sha c uuid states []
  /-- A chunked transfer still to be announced. -/
  | waiting (mid : List NetworkMessage) (hlarge : Chunked c) (hnone : states uuid.text = none)
      (hmid : ∀ m, m ∈ mid ↔ m ∈ chunkMessages uuid.text (rawOf c)) :
      Progress sha c uuid states
        (.chunkStart uuid.text (UInt32.ofNat (totalChunks (rawOf c).length))
            (sha.hex (rawOf c)) (UInt64.ofNat (rawOf c).length) ::
          (mid ++ [.chunkEnd uuid.text]))
  /-- A chunked transfer under way: what is not yet received is still to come. -/
  | receiving (mid : List NetworkMessage) (received : ReceivedChunks) (since : ℕ)
      (hlarge : Chunked c) (hstate : states uuid.text = some (announced sha c received since))
      (hmid : ∀ m ∈ mid, m ∈ chunkMessages uuid.text (rawOf c))
      (hsound : Sound (rawOf c) received)
      (hrest : ∀ i chunk, (chunks chunkDataSize (rawOf c))[i]? = some chunk →
        received.lookup (UInt32.ofNat i) = some chunk ∨
          .chunk uuid.text (UInt32.ofNat i) chunk ∈ mid) :
      Progress sha c uuid states (mid ++ [.chunkEnd uuid.text])
  /-- A chunked transfer that has been closed. -/
  | done (hlarge : Chunked c) (hnone : states uuid.text = none) : Progress sha c uuid states []

/-- Progress is a matter of the transfer's own entry. -/
theorem Progress.congr {states states' : ChunkStates} {rest : List NetworkMessage}
    (h : Progress sha c uuid states rest)
    (hsame : Chunked c → states' uuid.text = states uuid.text) :
    Progress sha c uuid states' rest := by
  cases h with
  | direct hsmall => exact .direct hsmall
  | directDone hsmall => exact .directDone hsmall
  | waiting mid hlarge hnone hmid => exact .waiting mid hlarge (hsame hlarge ▸ hnone) hmid
  | receiving mid received since hlarge hstate hmid hsound hrest =>
    exact .receiving mid received since hlarge (hsame hlarge ▸ hstate) hmid hsound hrest
  | done hlarge hnone => exact .done hlarge (hsame hlarge ▸ hnone)

/-- A transfer whose deliveries have all come has left the table. -/
theorem Progress.eq_none {states : ChunkStates} (h : Progress sha c uuid states [])
    (hlarge : Chunked c) : states uuid.text = none := by
  generalize hrest : ([] : List NetworkMessage) = rest at h
  cases h with
  | direct hsmall => exact absurd hlarge hsmall
  | directDone hsmall => exact absurd hlarge hsmall
  | waiting mid _ _ _ => simp at hrest
  | receiving mid received since _ _ _ _ _ => simp at hrest
  | done _ hnone => exact hnone

/-- What an admissible delivery starts from. -/
theorem Progress.of_admissible {states : ChunkStates} {msgs ds : List NetworkMessage}
    (hsplit : splitToNetworkMessages sha uuid c = some msgs)
    (hfresh : Chunked c → states uuid.text = none) (hadm : Admissible msgs ds) :
    Progress sha c uuid states ds := by
  by_cases hlarge : Chunked c
  · rw [splitToNetworkMessages_large rfl hlarge] at hsplit
    obtain rfl := Option.some.inj hsplit
    rcases hadm with ⟨m, hm, -⟩ | ⟨first, middle, last, delivered, hmsgs, rfl, hmid⟩
    · simp at hm
    · obtain ⟨rfl, hrest⟩ := List.cons.inj hmsgs
      obtain ⟨rfl, hlast⟩ := List.append_inj' hrest rfl
      obtain rfl := List.singleton_injective hlast
      exact .waiting delivered hlarge (hfresh hlarge) hmid
  · rw [splitToNetworkMessages_small (Nat.not_lt.mp hlarge)] at hsplit
    obtain rfl := Option.some.inj hsplit
    rcases hadm with ⟨m, hm, rfl⟩ | ⟨first, middle, last, delivered, hmsgs, -, -⟩
    · obtain rfl := List.singleton_injective hm
      exact .direct hlarge
    · simp at hmsgs

/-- Inserting a chunk of `raw` keeps the collection sound. -/
theorem Sound.insert {raw : Bytes} {received : ReceivedChunks} (h : Sound raw received) {i : ℕ}
    {chunk : Bytes} (hi : (chunks chunkDataSize raw)[i]? = some chunk) :
    Sound raw (received.insert (UInt32.ofNat i) chunk) := by
  intro index data hdata
  by_cases hindex : index = UInt32.ofNat i
  · subst hindex
    rw [AList.lookup_insert] at hdata
    exact ⟨i, rfl, hdata ▸ hi⟩
  · rw [AList.lookup_insert_ne hindex] at hdata
    exact h index data hdata

/-- The end of a transfer of an ordinary size does not panic. -/
theorem not_trips_chunkEnd (build : Build) {states : ChunkStates} {received : ReceivedChunks}
    {since : ℕ} (hsize : totalChunks (rawOf c).length < 2 ^ 32)
    (hstate : states uuid.text = some (announced sha c received since)) :
    ¬ Trips build states (.chunkEnd uuid.text) := by
  rintro ⟨-, state, hs, -, hbig⟩
  obtain rfl := Option.some.inj (hstate.symm.trans hs)
  have hlen := length_lt_of_totalChunks hsize
  have hcap : (UInt64.ofNat (rawOf c).length).toNat ≤ (rawOf c).length := by
    rw [UInt64.toNat_ofNat']
    exact Nat.mod_le _ _
  have hbig' : isizeMax < (UInt64.ofNat (rawOf c).length).toNat := hbig
  unfold isizeMax at hbig'
  unfold chunkDataSize at hlen
  omega

theorem lt_totalChunks {i : ℕ} {chunk : Bytes}
    (hi : (chunks chunkDataSize (rawOf c))[i]? = some chunk) :
    i < totalChunks (rawOf c).length := by
  rw [← length_chunks_raw]
  exact (List.getElem?_eq_some_iff.mp hi).1

/-- When a chunk is collected, new or repeated, the chunks that are not yet received are
still to come. -/
theorem rest_insert {received : ReceivedChunks} {mid : List NetworkMessage} {tid : String} {i : ℕ}
    {chunk : Bytes} (hsize : totalChunks (rawOf c).length < 2 ^ 32)
    (hi : (chunks chunkDataSize (rawOf c))[i]? = some chunk)
    (hopen : ∀ j chunk', (chunks chunkDataSize (rawOf c))[j]? = some chunk' →
      received.lookup (UInt32.ofNat j) = some chunk' ∨
        .chunk tid (UInt32.ofNat j) chunk' ∈ .chunk tid (UInt32.ofNat i) chunk :: mid)
    {j : ℕ} {chunk' : Bytes} (hj : (chunks chunkDataSize (rawOf c))[j]? = some chunk') :
    (received.insert (UInt32.ofNat i) chunk).lookup (UInt32.ofNat j) = some chunk' ∨
      .chunk tid (UInt32.ofNat j) chunk' ∈ mid := by
  by_cases hij : j = i
  · subst hij
    rw [hi] at hj
    obtain rfl := Option.some.inj hj
    exact Or.inl (AList.lookup_insert _)
  · have hilt := lt_totalChunks hi
    have hjlt := lt_totalChunks hj
    have hne : UInt32.ofNat j ≠ UInt32.ofNat i := fun heq =>
      hij (ofNat_inj_of_lt (by omega) (by omega) heq)
    rw [AList.lookup_insert_ne hne]
    rcases hopen j chunk' hj with hin | hin
    · exact Or.inl hin
    · rcases List.mem_cons.mp hin with heq | hin
      · exact absurd (NetworkMessage.chunk.inj heq).2.1 hne
      · exact Or.inr hin

/-- **One delivery moves its transfer along**: it does not panic, it returns the
content exactly at the completing message, and the transfer has made progress. -/
theorem progress_receive (build : Build) (now : ℕ) {states : ChunkStates} {m : NetworkMessage}
    {rest : List NetworkMessage} (hsize : totalChunks (rawOf c).length < 2 ^ 32)
    (h : Progress sha c uuid states (m :: rest)) :
    ¬ Trips build states m ∧
      (receive sha now states m).1 = (if m.completes then some c else none) ∧
      Progress sha c uuid (receive sha now states m).2 rest := by
  generalize hrest : m :: rest = ds at h
  cases h with
  | direct hsmall =>
    obtain ⟨rfl, rfl⟩ := List.cons.inj hrest
    exact ⟨not_false, rfl, .directDone hsmall⟩
  | directDone hsmall => exact absurd hrest (by simp)
  | done _ _ => exact absurd hrest (by simp)
  | waiting mid hlarge hnone hmid =>
    obtain ⟨rfl, rfl⟩ := List.cons.inj hrest
    refine ⟨not_false, rfl, ?_⟩
    refine .receiving mid ∅ now hlarge ?_ (fun x hx => (hmid x).mp hx) ?_ ?_
    · simp [receive, announced]
    · intro index data hdata
      simp at hdata
    · intro i chunk hi
      exact Or.inr ((hmid _).mpr (mem_chunkMessages.mpr ⟨i, chunk, hi, rfl⟩))
  | receiving mid received since hlarge hstate hmid hsound hopen =>
    cases mid with
    | nil =>
      -- the end of the transfer: everything has been received
      obtain ⟨rfl, rfl⟩ := List.cons.inj hrest
      have hall : ∀ i chunk, (chunks chunkDataSize (rawOf c))[i]? = some chunk →
          received.lookup (UInt32.ofNat i) = some chunk := by
        intro i chunk hi
        rcases hopen i chunk hi with hin | hin
        · exact hin
        · exact absurd hin (List.not_mem_nil)
      refine ⟨not_trips_chunkEnd build hsize hstate, ?_, .done hlarge ?_⟩
      · simpa [receive, hstate, NetworkMessage.completes] using
          content_of_collected hsize hsound hall
      · simp [receive]
    | cons m' mid =>
      -- a chunk: it is collected, whether new or repeated
      obtain ⟨rfl, rfl⟩ := List.cons.inj hrest
      obtain ⟨i, chunk, hi, rfl⟩ := mem_chunkMessages.mp (hmid m List.mem_cons_self)
      refine ⟨?_, rfl, ?_⟩
      · rintro ⟨-, -, hbig⟩
        have hilt := lt_totalChunks hi
        rw [UInt32.toNat_ofNat', Nat.mod_eq_of_lt (by omega)] at hbig
        omega
      · refine .receiving mid (received.insert (UInt32.ofNat i) chunk) since hlarge ?_
          (fun x hx => hmid x (List.mem_cons_of_mem _ hx)) (hsound.insert hi) ?_
        · simp [receive, hstate, announced]
        · intro j chunk' hj
          exact rest_insert hsize hi hopen hj

/-- The next delivery of a transfer carries its id, or none at all. -/
theorem Progress.transferId {states : ChunkStates} {m : NetworkMessage}
    {rest : List NetworkMessage} (h : Progress sha c uuid states (m :: rest)) :
    m.transferId? = none ∨ (Chunked c ∧ m.transferId? = some uuid.text) := by
  generalize hrest : m :: rest = ds at h
  cases h with
  | direct hsmall =>
    obtain ⟨rfl, -⟩ := List.cons.inj hrest
    exact Or.inl rfl
  | directDone hsmall => exact absurd hrest (by simp)
  | done _ _ => exact absurd hrest (by simp)
  | waiting mid hlarge _ _ =>
    obtain ⟨rfl, -⟩ := List.cons.inj hrest
    exact Or.inr ⟨hlarge, rfl⟩
  | receiving mid received since hlarge _ hmid _ _ =>
    refine Or.inr ⟨hlarge, ?_⟩
    cases mid with
    | nil =>
      obtain ⟨rfl, -⟩ := List.cons.inj hrest
      rfl
    | cons m' mid =>
      obtain ⟨rfl, -⟩ := List.cons.inj hrest
      obtain ⟨i, chunk, -, rfl⟩ := mem_chunkMessages.mp (hmid m List.mem_cons_self)
      rfl

/-- Every delivery of a transfer survives the wire. -/
theorem Progress.fits {states : ChunkStates} {m : NetworkMessage} {rest : List NetworkMessage}
    (hsize : totalChunks (rawOf c).length < 2 ^ 32)
    (h : Progress sha c uuid states (m :: rest)) : m.Fits (2 ^ 64) := by
  have hlen := length_lt_of_totalChunks hsize
  have hid : uuid.text.utf8ByteSize < 2 ^ 64 := by
    rw [uuid.utf8ByteSize_text]
    decide
  unfold chunkDataSize at hlen
  generalize hrest : m :: rest = ds at h
  cases h with
  | direct hsmall =>
    obtain ⟨rfl, -⟩ := List.cons.inj hrest
    refine ClipboardContent.fits_of_length_encode ?_
    unfold rawOf at hlen
    omega
  | directDone hsmall => exact absurd hrest (by simp)
  | done _ _ => exact absurd hrest (by simp)
  | waiting mid hlarge _ _ =>
    obtain ⟨rfl, -⟩ := List.cons.inj hrest
    refine ⟨hid, ?_⟩
    rw [sha.utf8ByteSize_hex]
    decide
  | receiving mid received since hlarge _ hmid _ _ =>
    cases mid with
    | nil =>
      obtain ⟨rfl, -⟩ := List.cons.inj hrest
      exact hid
    | cons m' mid =>
      obtain ⟨rfl, -⟩ := List.cons.inj hrest
      obtain ⟨i, chunk, hi, rfl⟩ := mem_chunkMessages.mp (hmid m List.mem_cons_self)
      have hle : chunk.length ≤ (rawOf c).length := by
        have hsub := List.sublist_flatten_of_mem (List.mem_of_getElem? hi)
        rw [flatten_chunks chunkDataSize_pos] at hsub
        exact hsub.length_le
      exact ⟨hid, by omega⟩

/-- A delivery still under way completes exactly once. -/
theorem Progress.countP_completes {states : ChunkStates} {rest : List NetworkMessage}
    (h : Progress sha c uuid states rest) (hne : rest ≠ []) :
    rest.countP NetworkMessage.completes = 1 := by
  have hchunks : ∀ mid : List NetworkMessage,
      (∀ m ∈ mid, m ∈ chunkMessages uuid.text (rawOf c)) →
        mid.countP NetworkMessage.completes = 0 := by
    intro mid hmid
    refine List.countP_eq_zero.mpr fun m hm => ?_
    obtain ⟨i, chunk, -, rfl⟩ := mem_chunkMessages.mp (hmid m hm)
    simp [NetworkMessage.completes]
  cases h with
  | direct hsmall => rfl
  | directDone hsmall => exact absurd rfl hne
  | done _ _ => exact absurd rfl hne
  | waiting mid _ _ hmid =>
    have := hchunks mid fun m hm => (hmid m).mp hm
    simp [this, NetworkMessage.completes]
  | receiving mid received since _ _ hmid _ _ =>
    have := hchunks mid hmid
    simp [this, NetworkMessage.completes]

/-! ### Many transfers at once -/

/-- A family of contents with the messages they are split into.  The ids of the
chunked ones are distinct, and each needs fewer than `2 ^ 32` chunks. -/
structure Transfers (sha : Sha256) (k : ℕ) where
  /-- The contents. -/
  content : Fin k → ClipboardContent
  /-- The transfer ids. -/
  uuid : Fin k → Uuid
  /-- The messages. -/
  messages : Fin k → List NetworkMessage
  /-- The messages are those of the splitter. -/
  split_content : ∀ i, splitToNetworkMessages sha (uuid i) (content i) = some (messages i)
  /-- Chunk numbers fit 32 bits. -/
  totalChunks_lt : ∀ i, totalChunks (rawOf (content i)).length < 2 ^ 32
  /-- The ids of chunked transfers are distinct. -/
  uuid_inj : ∀ i j, Chunked (content i) → Chunked (content j) →
    (uuid i).text = (uuid j).text → i = j

/-- What the receiver returns for a delivery: the content at the completing
message of its transfer, and nothing otherwise. -/
def Transfers.returns {k : ℕ} (T : Transfers sha k) (d : Delivery k) :
    Option ClipboardContent :=
  if d.message.completes then some (T.content d.transfer) else none

theorem deliveriesOf_cons_self {k : ℕ} (d : Delivery k) (ds : List (Delivery k)) :
    deliveriesOf d.transfer (d :: ds) = d.message :: deliveriesOf d.transfer ds := by
  simp [deliveriesOf]

theorem deliveriesOf_cons_of_ne {k : ℕ} {i : Fin k} {d : Delivery k} (h : d.transfer ≠ i)
    (ds : List (Delivery k)) : deliveriesOf i (d :: ds) = deliveriesOf i ds := by
  simp [deliveriesOf, h]

/-- **A run of deliveries**: from any state in which every transfer is as far as
its remaining deliveries say, all of them are delivered, each returns what it
should, and only the transfers' own entries change. -/
theorem runDeliveries_of_progress {k : ℕ} (build : Build) (T : Transfers sha k)
    (ds : List (Delivery k)) (states : ChunkStates)
    (h : ∀ i, Progress sha (T.content i) (T.uuid i) states (deliveriesOf i ds)) :
    ∃ final, runDeliveries build sha states ds = .ok (ds.map T.returns, final) ∧
      (∀ i, Progress sha (T.content i) (T.uuid i) final []) ∧
      ∀ id, (∀ i, Chunked (T.content i) → (T.uuid i).text ≠ id) → final id = states id := by
  induction ds generalizing states with
  | nil => exact ⟨states, rfl, h, fun _ _ => rfl⟩
  | cons d ds ih =>
    have hd := h d.transfer
    rw [deliveriesOf_cons_self] at hd
    have hsize := T.totalChunks_lt d.transfer
    obtain ⟨hsafe, hout, hnext⟩ := progress_receive build d.now hsize hd
    set states' := (receive sha d.now states d.message).2 with hstates'
    -- the bytes are handled as the message
    have hbytes : d.bytes = NetworkMessage.codec.encode d.message :=
      (Option.some.inj d.toBytes_message).symm
    have hstep : handleIncomingMessage build sha d.now d.bytes states =
        .ok (T.returns d, states') := by
      rw [hbytes, handleIncomingMessage_of_message (NetworkMessage.fromBytes_encode
        (hd.fits hsize)), handleNetworkMessage_eq_ok hsafe, Transfers.returns, ← hout]
    -- the other transfers are where they were
    have hothers : ∀ id, (Chunked (T.content d.transfer) → (T.uuid d.transfer).text ≠ id) →
        states' id = states id := by
      intro id hid
      refine receive_of_ne fun heq => ?_
      rcases hd.transferId with hnone | ⟨hlarge, hsome⟩
      · rw [hnone] at heq
        exact absurd heq (by simp)
      · rw [hsome] at heq
        exact hid hlarge (Option.some.inj heq)
    have hprogress : ∀ i, Progress sha (T.content i) (T.uuid i) states' (deliveriesOf i ds) := by
      intro i
      by_cases hi : d.transfer = i
      · exact hi ▸ hnext
      · have hi' := h i
        rw [deliveriesOf_cons_of_ne hi] at hi'
        refine hi'.congr fun hlarge => hothers _ fun hlarge' heq => hi ?_
        exact T.uuid_inj _ _ hlarge' hlarge heq
    obtain ⟨final, hrun, hdone, hframe⟩ := ih states' hprogress
    refine ⟨final, ?_, hdone, fun id hid => ?_⟩
    · simp [runDeliveries, hstep, Except.bind, hrun, Except.map]
    · rw [hframe id hid, hothers id (hid d.transfer)]

/-- **The round trip of chunked transfers under any interleaving.**  Split a
family of contents, and hand the messages to one receiver in any order that is
admissible for each transfer.  Then the receiver does not panic, returns each
content at the one delivery that completes it and nothing at the others, and is
left as it was. -/
theorem deliveries_roundTrip {k : ℕ} (build : Build) (sha : Sha256) (T : Transfers sha k)
    (states : ChunkStates) (ds : List (Delivery k))
    (hfresh : ∀ i, Chunked (T.content i) → states (T.uuid i).text = none)
    (hadm : ∀ i, Admissible (T.messages i) (deliveriesOf i ds)) :
    runDeliveries build sha states ds = .ok (ds.map T.returns, states) ∧
      ∀ i, (ds.filter fun d => d.transfer = i).countP
        (fun d => T.returns d = some (T.content i)) = 1 ∧
        (ds.filter fun d => d.transfer = i).countP (fun d => T.returns d ≠ none) = 1 := by
  have hstart : ∀ i, Progress sha (T.content i) (T.uuid i) states (deliveriesOf i ds) :=
    fun i => .of_admissible (T.split_content i) (hfresh i) (hadm i)
  obtain ⟨final, hrun, hdone, hframe⟩ := runDeliveries_of_progress build T ds states hstart
  -- closed transfers have left the table, and nothing else was touched
  have hfinal : final = states := by
    funext id
    by_cases hid : ∃ i, Chunked (T.content i) ∧ (T.uuid i).text = id
    · obtain ⟨i, hlarge, rfl⟩ := hid
      rw [(hdone i).eq_none hlarge, hfresh i hlarge]
    · exact hframe id fun i hlarge heq => hid ⟨i, hlarge, heq⟩
  refine ⟨hfinal ▸ hrun, fun i => ?_⟩
  have hne : deliveriesOf i ds ≠ [] := by
    rcases hadm i with ⟨m, -, hds⟩ | ⟨_, _, _, _, -, hds, -⟩ <;> simp [hds]
  -- exactly one of its deliveries completes a transfer
  have hone := (hstart i).countP_completes hne
  rw [deliveriesOf, List.countP_map] at hone
  constructor
  · rw [← hone]
    refine List.countP_congr fun d hd => ?_
    have hi : d.transfer = i := by simpa using (List.mem_filter.mp hd).2
    simp [Transfers.returns, hi]
  · rw [← hone]
    refine List.countP_congr fun d _ => ?_
    simp [Transfers.returns]

/-! ### A concrete family -/

/-- An image of three chunks. -/
@[irreducible] private def sampleImage : ClipboardContent := .image (List.replicate 3000000 0)

private theorem length_rawOf_sampleImage : (rawOf sampleImage).length = 3000012 := by
  have hlen : ∀ png : Bytes, (rawOf (.image png)).length = 12 + png.length := by
    intro png
    simp [rawOf, ClipboardContent.codec, Codec.bytes, Codec.nat]
    omega
  unfold sampleImage
  rw [hlen, List.length_replicate]

private def sampleUuid : Uuid := ⟨"00000000-0000-4000-8000-000000000000", by decide⟩

/-- The digest of the serialised image. -/
private def sampleDigest : String :=
  "0a412df59bc89d26f3124b22fca0fcd3cfdf25231bdc144d099794f14a0e0324"

private theorem sampleDigest_size : sampleDigest.utf8ByteSize = 64 := by decide

/-- Nothing else is hashed. -/
private def sampleSha : Sha256 := ⟨fun _ => sampleDigest, fun _ => sampleDigest_size⟩

/-- The announcement of the image. -/
private def sampleStart : NetworkMessage :=
  .chunkStart sampleUuid.text (UInt32.ofNat (totalChunks (rawOf sampleImage).length))
    (sampleSha.hex (rawOf sampleImage)) (UInt64.ofNat (rawOf sampleImage).length)

private theorem chunked_sampleImage : Chunked sampleImage := by
  rw [Chunked, length_rawOf_sampleImage]
  decide

private theorem not_chunked_sampleText : ¬ Chunked (.text "hi") := by
  unfold Chunked
  decide

/-- A short text and the image. -/
private def sampleTransfers : Transfers sampleSha 2 where
  content := ![.text "hi", sampleImage]
  uuid := fun _ => sampleUuid
  messages := ![[.direct (.text "hi")], sampleStart ::
    (chunkMessages sampleUuid.text (rawOf sampleImage) ++ [.chunkEnd sampleUuid.text])]
  split_content := Fin.forall_fin_two.mpr
    ⟨splitToNetworkMessages_small (Nat.not_lt.mp not_chunked_sampleText),
      splitToNetworkMessages_large rfl chunked_sampleImage⟩
  totalChunks_lt := Fin.forall_fin_two.mpr
    ⟨by decide, (congrArg totalChunks length_rawOf_sampleImage).trans_lt (by decide)⟩
  uuid_inj := by
    intro i j hi hj _
    have hone : ∀ i : Fin 2, Chunked (![.text "hi", sampleImage] i) → i = 1 :=
      Fin.forall_fin_two.mpr ⟨fun h => absurd h not_chunked_sampleText, fun _ => rfl⟩
    rw [hone i hi, hone j hj]

/-- The delivery of a message at time zero. -/
private def deliver (i : Fin 2) (m : NetworkMessage) : Delivery 2 :=
  ⟨0, i, m, NetworkMessage.codec.encode m, rfl⟩

/-- The text arrives between the announcement of the image and its chunks, which
arrive in reverse order and then once more. -/
private def sampleDeliveries : List (Delivery 2) :=
  deliver 1 sampleStart :: deliver 0 (.direct (.text "hi")) ::
    (((chunkMessages sampleUuid.text (rawOf sampleImage)).reverse ++
      chunkMessages sampleUuid.text (rawOf sampleImage) ++
      [NetworkMessage.chunkEnd sampleUuid.text]).map (deliver 1))

/-- The image and the text both arrive. -/
theorem sampleDeliveries_roundTrip :
    (∀ i, Chunked (sampleTransfers.content i) →
      ChunkStates.empty (sampleTransfers.uuid i).text = none) ∧
    (∀ i, Admissible (sampleTransfers.messages i) (deliveriesOf i sampleDeliveries)) ∧
    runDeliveries .checked sampleSha ChunkStates.empty sampleDeliveries =
      .ok (sampleDeliveries.map sampleTransfers.returns, ChunkStates.empty) := by
  have hmap : ∀ (i j : Fin 2) (l : List NetworkMessage),
      deliveriesOf i (l.map (deliver j)) = if j = i then l else [] := by
    intro i j l
    by_cases h : j = i <;> simp [deliveriesOf, List.filter_map, Function.comp_def, deliver, h]
  have hadm : ∀ i, Admissible (sampleTransfers.messages i) (deliveriesOf i sampleDeliveries) := by
    refine Fin.forall_fin_two.mpr ⟨?_, ?_⟩
    · refine Or.inl ⟨.direct (.text "hi"), rfl, ?_⟩
      rw [sampleDeliveries, deliveriesOf_cons_of_ne (by decide)]
      exact (deliveriesOf_cons_self (deliver 0 _) _).trans (by rw [hmap]; rfl)
    · refine Or.inr ⟨sampleStart, _, .chunkEnd sampleUuid.text,
        (chunkMessages sampleUuid.text (rawOf sampleImage)).reverse ++
          chunkMessages sampleUuid.text (rawOf sampleImage), rfl, ?_, fun m => ?_⟩
      · refine (deliveriesOf_cons_self (deliver 1 _) _).trans ?_
        rw [deliveriesOf_cons_of_ne (by decide), hmap]
        rfl
      · rw [List.mem_append, List.mem_reverse, or_self]
  exact ⟨fun _ _ => rfl, hadm,
    (deliveries_roundTrip .checked sampleSha sampleTransfers ChunkStates.empty
      sampleDeliveries (fun _ _ => rfl) hadm).1⟩

end P2pClipboard
