import P2pClipboard.Receive

/-!
# What is accepted from the network

`from_bytes` of `src/clipboard_content.rs` on byte strings that may come from anyone.  The
decoders accept the serialisations of values, with any bytes behind them, and nothing else,
so that no two values share one and the bytes before the rest say what is read.

`handle_incoming_message` tries three readings of a byte string, one after the other: a
message, a bare content and a text.

## Main definitions

* `Serialises`, `SerialisesContent` — a byte string begins with a value.
* `Reading`, `Reads` — the three readings of a byte string, and when each is due.

## Main results

* `ClipboardContent.codec_exact`, `NetworkMessage.codec_exact` — what is decoded was encoded.
* `fromBytes_iff_serialises` — **what is accepted**, and that it stands for one value only.
* `handleIncomingMessage_reading` — **what any byte string is taken for.**
-/

namespace P2pClipboard

/-- The lengths of a file entry can be written down. -/
def FileEntry.Fits (bound : ℕ) (e : FileEntry) : Prop :=
  e.name.utf8ByteSize < bound ∧ e.bytes.length < bound

theorem FileEntry.codec_exact : FileEntry.codec.Exact (FileEntry.Fits (2 ^ 64)) := by
  intro bs e rest h
  obtain ⟨⟨name, rest₁⟩, hname, h⟩ := Option.bind_eq_some_iff.mp h
  obtain ⟨⟨bytes, rest₂⟩, hbytes, heq⟩ := Option.map_eq_some_iff.mp h
  obtain ⟨rfl, rfl⟩ := Prod.mk.inj heq
  obtain ⟨hnameFits, rfl⟩ := Codec.text_exact bs name rest₁ hname
  obtain ⟨hbytesFits, rfl⟩ := Codec.bytes_exact rest₁ bytes rest₂ hbytes
  refine ⟨⟨hnameFits, hbytesFits⟩, ?_⟩
  rw [codec, List.append_assoc]

/-- **A content that is decoded was encoded.** -/
theorem ClipboardContent.codec_exact :
    ClipboardContent.codec.Exact (ClipboardContent.Fits (2 ^ 64)) := by
  intro bs c rest h
  obtain ⟨⟨tag, rest₀⟩, htag, hbody⟩ := Option.bind_eq_some_iff.mp h
  obtain ⟨-, rfl⟩ := Codec.nat_exact 4 bs tag rest₀ htag
  match tag with
  | 0 =>
    obtain ⟨⟨s, rest₁⟩, htext, heq⟩ := Option.map_eq_some_iff.mp hbody
    obtain ⟨rfl, rfl⟩ := Prod.mk.inj heq
    obtain ⟨hfits, rfl⟩ := Codec.text_exact rest₀ s rest₁ htext
    exact ⟨hfits, (List.append_assoc _ _ _).symm⟩
  | 1 =>
    obtain ⟨⟨png, rest₁⟩, hbytes, heq⟩ := Option.map_eq_some_iff.mp hbody
    obtain ⟨rfl, rfl⟩ := Prod.mk.inj heq
    obtain ⟨hfits, rfl⟩ := Codec.bytes_exact rest₀ png rest₁ hbytes
    exact ⟨hfits, (List.append_assoc _ _ _).symm⟩
  | 2 =>
    obtain ⟨⟨name, rest₁⟩, hname, hbody⟩ := Option.bind_eq_some_iff.mp hbody
    obtain ⟨⟨bytes, rest₂⟩, hbytes, heq⟩ := Option.map_eq_some_iff.mp hbody
    obtain ⟨rfl, rfl⟩ := Prod.mk.inj heq
    obtain ⟨hnameFits, rfl⟩ := Codec.text_exact rest₀ name rest₁ hname
    obtain ⟨hbytesFits, rfl⟩ := Codec.bytes_exact rest₁ bytes rest₂ hbytes
    refine ⟨⟨hnameFits, hbytesFits⟩, ?_⟩
    simp only [codec, List.append_assoc]
  | 3 =>
    obtain ⟨⟨entries, rest₁⟩, hvec, heq⟩ := Option.map_eq_some_iff.mp hbody
    obtain ⟨rfl, rfl⟩ := Prod.mk.inj heq
    obtain ⟨hfits, rfl⟩ := Codec.vec_exact FileEntry.codec_exact rest₀ entries rest₁ hvec
    exact ⟨hfits, (List.append_assoc _ _ _).symm⟩
  | _ + 4 => cases hbody

/-- **A message that is decoded was encoded.** -/
theorem NetworkMessage.codec_exact :
    NetworkMessage.codec.Exact (NetworkMessage.Fits (2 ^ 64)) := by
  intro bs m rest h
  obtain ⟨⟨tag, rest₀⟩, htag, hbody⟩ := Option.bind_eq_some_iff.mp h
  obtain ⟨-, rfl⟩ := Codec.nat_exact 4 bs tag rest₀ htag
  match tag with
  | 0 =>
    obtain ⟨⟨c, rest₁⟩, hcontent, heq⟩ := Option.map_eq_some_iff.mp hbody
    obtain ⟨rfl, rfl⟩ := Prod.mk.inj heq
    obtain ⟨hfits, rfl⟩ := ClipboardContent.codec_exact rest₀ c rest₁ hcontent
    exact ⟨hfits, (List.append_assoc _ _ _).symm⟩
  | 1 =>
    obtain ⟨⟨tid, rest₁⟩, htid, hbody⟩ := Option.bind_eq_some_iff.mp hbody
    obtain ⟨⟨total, rest₂⟩, htotal, hbody⟩ := Option.bind_eq_some_iff.mp hbody
    obtain ⟨⟨hash, rest₃⟩, hhash, hbody⟩ := Option.bind_eq_some_iff.mp hbody
    obtain ⟨⟨size, rest₄⟩, hsize, heq⟩ := Option.map_eq_some_iff.mp hbody
    obtain ⟨rfl, rfl⟩ := Prod.mk.inj heq
    obtain ⟨htidFits, rfl⟩ := Codec.text_exact rest₀ tid rest₁ htid
    obtain ⟨-, rfl⟩ := Codec.u32_exact rest₁ total rest₂ htotal
    obtain ⟨hhashFits, rfl⟩ := Codec.text_exact rest₂ hash rest₃ hhash
    obtain ⟨-, rfl⟩ := Codec.u64_exact rest₃ size rest₄ hsize
    refine ⟨⟨htidFits, hhashFits⟩, ?_⟩
    simp only [codec, List.append_assoc]
  | 2 =>
    obtain ⟨⟨tid, rest₁⟩, htid, hbody⟩ := Option.bind_eq_some_iff.mp hbody
    obtain ⟨⟨index, rest₂⟩, hindex, hbody⟩ := Option.bind_eq_some_iff.mp hbody
    obtain ⟨⟨data, rest₃⟩, hdata, heq⟩ := Option.map_eq_some_iff.mp hbody
    obtain ⟨rfl, rfl⟩ := Prod.mk.inj heq
    obtain ⟨htidFits, rfl⟩ := Codec.text_exact rest₀ tid rest₁ htid
    obtain ⟨-, rfl⟩ := Codec.u32_exact rest₁ index rest₂ hindex
    obtain ⟨hdataFits, rfl⟩ := Codec.bytes_exact rest₂ data rest₃ hdata
    refine ⟨⟨htidFits, hdataFits⟩, ?_⟩
    simp only [codec, List.append_assoc]
  | 3 =>
    obtain ⟨⟨tid, rest₁⟩, htid, heq⟩ := Option.map_eq_some_iff.mp hbody
    obtain ⟨rfl, rfl⟩ := Prod.mk.inj heq
    obtain ⟨hfits, rfl⟩ := Codec.text_exact rest₀ tid rest₁ htid
    exact ⟨hfits, (List.append_assoc _ _ _).symm⟩
  | _ + 4 => cases hbody

/-! ### What `from_bytes` accepts -/

/-- The byte string begins with a message. -/
def Serialises (data : Bytes) (m : NetworkMessage) : Prop :=
  m.Fits (2 ^ 64) ∧ NetworkMessage.codec.encode m <+: data

/-- The byte string begins with a content. -/
def SerialisesContent (data : Bytes) (c : ClipboardContent) : Prop :=
  c.Fits (2 ^ 64) ∧ ClipboardContent.codec.encode c <+: data

theorem NetworkMessage.fromBytes_eq_some_iff (data : Bytes) (m : NetworkMessage) :
    NetworkMessage.fromBytes data = some m ↔ Serialises data m :=
  Codec.decode_fst_eq_some_iff NetworkMessage.codec_exact
    (fun _ h => NetworkMessage.codec_roundTrips h) data m

theorem ClipboardContent.fromBytes_eq_some_iff (data : Bytes) (c : ClipboardContent) :
    ClipboardContent.fromBytes data = some c ↔ SerialisesContent data c :=
  Codec.decode_fst_eq_some_iff ClipboardContent.codec_exact
    (fun _ h => ClipboardContent.codec_roundTrips h) data c

theorem NetworkMessage.fromBytes_eq_none_iff (data : Bytes) :
    NetworkMessage.fromBytes data = none ↔ ∀ m, ¬ Serialises data m := by
  rw [Option.eq_none_iff_forall_ne_some]
  exact forall_congr' fun m => not_congr (fromBytes_eq_some_iff data m)

theorem ClipboardContent.fromBytes_eq_none_iff (data : Bytes) :
    ClipboardContent.fromBytes data = none ↔ ∀ c, ¬ SerialisesContent data c := by
  rw [Option.eq_none_iff_forall_ne_some]
  exact forall_congr' fun c => not_congr (fromBytes_eq_some_iff data c)

/-- A byte string begins with one message at most. -/
theorem Serialises.unique {data : Bytes} {m m' : NetworkMessage} (h : Serialises data m)
    (h' : Serialises data m') : m = m' := by
  rw [← NetworkMessage.fromBytes_eq_some_iff] at h h'
  exact Option.some.inj (h.symm.trans h')

/-- A byte string begins with one content at most. -/
theorem SerialisesContent.unique {data : Bytes} {c c' : ClipboardContent}
    (h : SerialisesContent data c) (h' : SerialisesContent data c') : c = c' := by
  rw [← ClipboardContent.fromBytes_eq_some_iff] at h h'
  exact Option.some.inj (h.symm.trans h')

/-! ### The three readings -/

/-- What a byte string is taken for. -/
inductive Reading
  /-- A message of the current protocol. -/
  | message (m : NetworkMessage)
  /-- A bare content of an older peer. -/
  | legacy (c : ClipboardContent)
  /-- A text of the oldest ones. -/
  | raw
  deriving DecidableEq, Repr

/-- When each of the readings is due; an earlier one goes before a later one. -/
def Reads (data : Bytes) : Reading → Prop
  | .message m => Serialises data m
  | .legacy c => (∀ m, ¬ Serialises data m) ∧ SerialisesContent data c
  | .raw => (∀ m, ¬ Serialises data m) ∧ ∀ c, ¬ SerialisesContent data c

/-- What the receiver does under a reading. -/
def Reading.outcome (build : Build) (sha : Sha256) (now : ℕ) (data : Bytes) (states : ChunkStates) :
    Reading → Except Panic (Option ClipboardContent × ChunkStates)
  | .message m => handleNetworkMessage build sha now states m
  | .legacy c => .ok (some c, states)
  | .raw => .ok (some (.text (fromUtf8Lossy data)), states)

/-- No byte string has two readings. -/
theorem Reads.unique {data : Bytes} {r r' : Reading} (h : Reads data r) (h' : Reads data r') :
    r = r' := by
  cases r with
  | message m =>
    cases r' with
    | message m' => rw [Serialises.unique h h']
    | legacy c' => exact absurd h (h'.1 m)
    | raw => exact absurd h (h'.1 m)
  | legacy c =>
    cases r' with
    | message m' => exact absurd h' (h.1 m')
    | legacy c' => rw [SerialisesContent.unique h.2 h'.2]
    | raw => exact absurd h.2 (h'.2 c)
  | raw =>
    cases r' with
    | message m' => exact absurd h' (h.1 m')
    | legacy c' => exact absurd h'.2 (h.2 c')
    | raw => rfl

/-- `handle_incoming_message` follows the reading that is due. -/
theorem handleIncomingMessage_of_reads {data : Bytes} {r : Reading} (h : Reads data r)
    (build : Build) (sha : Sha256) (now : ℕ) (states : ChunkStates) :
    handleIncomingMessage build sha now data states = r.outcome build sha now data states := by
  unfold handleIncomingMessage
  cases r with
  | message m =>
    rw [(NetworkMessage.fromBytes_eq_some_iff data m).mpr h]
    rfl
  | legacy c =>
    rw [(NetworkMessage.fromBytes_eq_none_iff data).mpr h.1,
      (ClipboardContent.fromBytes_eq_some_iff data c).mpr h.2]
    rfl
  | raw =>
    rw [(NetworkMessage.fromBytes_eq_none_iff data).mpr h.1,
      (ClipboardContent.fromBytes_eq_none_iff data).mpr h.2]
    rfl

/-- Every byte string has a reading. -/
theorem exists_reads (data : Bytes) : ∃ r, Reads data r := by
  cases hmessage : NetworkMessage.fromBytes data with
  | some m => exact ⟨.message m, (NetworkMessage.fromBytes_eq_some_iff data m).mp hmessage⟩
  | none =>
    have hnone := (NetworkMessage.fromBytes_eq_none_iff data).mp hmessage
    cases hcontent : ClipboardContent.fromBytes data with
    | some c =>
      exact ⟨.legacy c, hnone, (ClipboardContent.fromBytes_eq_some_iff data c).mp hcontent⟩
    | none =>
      exact ⟨.raw, hnone, (ClipboardContent.fromBytes_eq_none_iff data).mp hcontent⟩

/-! ### What is accepted, and what it is taken for -/

/-- **The decoders accept what begins with a serialisation**, of one value only, whatever
stands behind it. -/
theorem fromBytes_iff_serialises (data : Bytes) :
    (∀ m, NetworkMessage.fromBytes data = some m ↔ Serialises data m) ∧
      (∀ c, ClipboardContent.fromBytes data = some c ↔ SerialisesContent data c) ∧
      (∀ m m', Serialises data m → Serialises data m' → m = m') ∧
      ∀ c c', SerialisesContent data c → SerialisesContent data c' → c = c' :=
  ⟨NetworkMessage.fromBytes_eq_some_iff data, ClipboardContent.fromBytes_eq_some_iff data,
    fun _ _ => Serialises.unique, fun _ _ => SerialisesContent.unique⟩

/-- **Every byte string has exactly one reading**, and `handle_incoming_message` follows it. -/
theorem handleIncomingMessage_reading (data : Bytes) :
    ∃ r, Reads data r ∧ (∀ r', Reads data r' → r' = r) ∧ ∀ build sha now states,
      handleIncomingMessage build sha now data states = r.outcome build sha now data states := by
  obtain ⟨r, hr⟩ := exists_reads data
  exact ⟨r, hr, fun r' hr' => hr'.unique hr, handleIncomingMessage_of_reads hr⟩

/-- **A message that is cut off** touches no transfer, and always puts something on the
clipboard: a content it happens to begin with, or its bytes as a text. -/
theorem handleIncomingMessage_cut {m : NetworkMessage} (hfits : m.Fits (2 ^ 64)) {n : ℕ}
    (hn : n < (NetworkMessage.codec.encode m).length) (build : Build) (sha : Sha256) (now : ℕ)
    (states : ChunkStates) :
    ∃ c, handleIncomingMessage build sha now ((NetworkMessage.codec.encode m).take n) states =
        .ok (some c, states) ∧
      (SerialisesContent ((NetworkMessage.codec.encode m).take n) c ∨
        c = .text (fromUtf8Lossy ((NetworkMessage.codec.encode m).take n))) := by
  have hcut : NetworkMessage.codec.decode ((NetworkMessage.codec.encode m).take n) = none :=
    Codec.decode_take_encode NetworkMessage.codec_exact
      (fun _ h => NetworkMessage.codec_roundTrips h) hfits hn
  have hnone : ∀ m', ¬ Serialises ((NetworkMessage.codec.encode m).take n) m' := by
    rw [← NetworkMessage.fromBytes_eq_none_iff, NetworkMessage.fromBytes, hcut, Option.map_none]
  obtain ⟨r, hr⟩ := exists_reads ((NetworkMessage.codec.encode m).take n)
  have houtcome := handleIncomingMessage_of_reads hr build sha now states
  cases r with
  | message m' => exact absurd hr (hnone m')
  | legacy c => exact ⟨c, houtcome, .inl hr.2⟩
  | raw => exact ⟨_, houtcome, .inr rfl⟩

/-- The end of a transfer without its last byte, whatever transfers there are. -/
theorem handleIncomingMessage_cut_sample :
    ∃ c, handleIncomingMessage Build.checked default 0
        ((NetworkMessage.codec.encode (.chunkEnd "t")).take 12) ChunkStates.empty =
        .ok (some c, ChunkStates.empty) ∧
      (SerialisesContent ((NetworkMessage.codec.encode (.chunkEnd "t")).take 12) c ∨
        c = .text (fromUtf8Lossy ((NetworkMessage.codec.encode (.chunkEnd "t")).take 12))) :=
  handleIncomingMessage_cut (by decide) (by decide) Build.checked default 0
    ChunkStates.empty

end P2pClipboard
