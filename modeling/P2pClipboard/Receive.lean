import Mathlib.Data.List.AList
import Mathlib.Data.UInt
import P2pClipboard.Content

/-!
# The chunk receiver

`handle_incoming_message` and `cleanup_stale_chunk_states` of `src/network.rs`.
The receiver keeps one `ChunkReceiveState` per transfer id.  A `chunkStart` opens
a transfer, its chunks are collected by index, and the `chunkEnd` closes it:
the pieces are put together in index order, checked against the announced hash
and decoded.  Bytes that are no message are tried as a bare content, then read
as text.

Two operations on this path can panic: the index of a chunk is incremented for a
log line, and the announced size is requested as a capacity.  A `Build` says
which of the two are checked, so that the protocol can be studied on its own
(`Build.unchecked`) and with its failures (`Build.checked`).

## Main definitions

* `ChunkReceiveState`, `ChunkStates` — the receiver's state.
* `handleIncomingMessage`, `cleanupStaleChunkStates` — the two functions.
* `receive` — the outcome of a message that does not panic.
* `Trips` — the messages that panic.
* `Input`, `runInputs` — whole runs of the receiver.

## Main results

* `handleNetworkMessage_eq_ok`, `handleNetworkMessage_eq_error` — a message
  panics exactly when it trips, and otherwise has the outcome `receive`.
* `receive_of_ne`, `receive_congr` — a message leaves the other transfers alone.
-/

namespace P2pClipboard

/-- The pieces of a transfer received so far, by index. -/
abbrev ReceivedChunks := AList (fun _ : UInt32 => Bytes)

/-- A chunked transfer in progress. -/
structure ChunkReceiveState where
  /-- The announced number of chunks. -/
  totalChunks : UInt32
  /-- The announced hash of the content. -/
  dataHash : String
  /-- The announced size of the content. -/
  totalSize : UInt64
  /-- The chunks received so far. -/
  received : ReceivedChunks
  /-- When the transfer was announced, in nanoseconds. -/
  startedAt : ℕ

/-- The transfers in progress, by transfer id. -/
abbrev ChunkStates := String → Option ChunkReceiveState

/-- A receiver with no transfer in progress. -/
def ChunkStates.empty : ChunkStates := fun _ => none

/-- The ways the event loop can panic. -/
inductive Panic
  /-- Integer overflow in a build with overflow checks. -/
  | arithmeticOverflow
  /-- A capacity above `isize::MAX` was requested. -/
  | capacityOverflow
  /-- The first component of an empty address was asked for. -/
  | indexOutOfBounds
  deriving DecidableEq, Repr

/-- Which of the panics a build has. -/
structure Build where
  /-- Integer overflow panics. -/
  overflowChecks : Bool
  /-- An excessive capacity panics. -/
  capacityChecks : Bool
  deriving DecidableEq, Repr

/-- A build with overflow checks. -/
def Build.checked : Build := ⟨true, true⟩

/-- The protocol without its panics. -/
def Build.unchecked : Build := ⟨false, false⟩

/-- `isize::MAX` on a 64-bit target. -/
def isizeMax : ℕ := 2 ^ 63 - 1

/-- The timeout of a chunked transfer, in nanoseconds. -/
def chunkTransferTimeout : ℕ := 120 * 10 ^ 9

/-! ### The two functions -/

/-- The reassembly loop: the chunks `0, …, n - 1` in order, or `none` at the
first one missing. -/
def assemble (received : ReceivedChunks) (n : ℕ) : Option Bytes :=
  (List.range n).foldlM
    (fun fullData i => (received.lookup (UInt32.ofNat i)).map (fullData ++ ·)) []

section Handle

variable (build : Build) (sha : Sha256)

/-- The `ChunkEnd` arm, for a transfer in progress: count, reserve, reassemble,
check the hash, decode. -/
def finishTransfer (state : ChunkReceiveState) : Except Panic (Option ClipboardContent) :=
  if UInt32.ofNat state.received.keys.length = state.totalChunks then
    if build.capacityChecks && decide (isizeMax < state.totalSize.toNat) then
      .error .capacityOverflow
    else
      match assemble state.received state.totalChunks.toNat with
      | none => .ok none
      | some fullData =>
          if sha.hex fullData ≠ state.dataHash then .ok none
          else .ok (ClipboardContent.fromBytes fullData)
  else .ok none

/-- The arms of `handle_incoming_message` for a decoded message, at time `now`. -/
def handleNetworkMessage (now : ℕ) (states : ChunkStates) :
    NetworkMessage → Except Panic (Option ClipboardContent × ChunkStates)
  | .direct content => .ok (some content, states)
  | .chunkStart transferId totalChunks dataHash totalSize =>
      .ok (none, Function.update states transferId
        (some ⟨totalChunks, dataHash, totalSize, ∅, now⟩))
  | .chunk transferId index data =>
      match states transferId with
      | some state =>
          -- `index + 1` is computed for the log line
          if build.overflowChecks && decide (2 ^ 32 ≤ index.toNat + 1) then
            .error .arithmeticOverflow
          else
            .ok (none, Function.update states transferId
              (some { state with received := state.received.insert index data }))
      | none => .ok (none, states)
  | .chunkEnd transferId =>
      match states transferId with
      | some state =>
          (finishTransfer build sha state).map fun content =>
            (content, Function.update states transferId none)
      | none => .ok (none, states)

/-- `handle_incoming_message`: a message, else a bare content of an older peer,
else the text of the oldest ones. -/
def handleIncomingMessage (now : ℕ) (data : Bytes) (states : ChunkStates) :
    Except Panic (Option ClipboardContent × ChunkStates) :=
  match NetworkMessage.fromBytes data with
  | some m => handleNetworkMessage build sha now states m
  | none =>
      match ClipboardContent.fromBytes data with
      | some content => .ok (some content, states)
      | none => .ok (some (.text (fromUtf8Lossy data)), states)

end Handle

/-- A transfer is stale when it was announced too long ago. -/
def ChunkReceiveState.Stale (now : ℕ) (state : ChunkReceiveState) : Prop :=
  chunkTransferTimeout < now - state.startedAt

instance (now : ℕ) (state : ChunkReceiveState) : Decidable (state.Stale now) :=
  inferInstanceAs (Decidable (_ < _))

/-- `cleanup_stale_chunk_states`: forget the stale transfers. -/
def cleanupStaleChunkStates (now : ℕ) (states : ChunkStates) : ChunkStates := fun id =>
  (states id).filter fun state => ¬ state.Stale now

/-! ### Whole runs -/

/-- What the event loop feeds to the receiver. -/
inductive Input
  /-- A byte string arriving at time `now`. -/
  | data (now : ℕ) (bytes : Bytes)
  /-- The cleanup at the head of the event loop. -/
  | cleanup (now : ℕ)
  deriving DecidableEq, Repr

/-- One input: what it returns, and the state after it. -/
def stepInput (build : Build) (sha : Sha256) (states : ChunkStates) :
    Input → Except Panic (Option ClipboardContent × ChunkStates)
  | .data now bytes => handleIncomingMessage build sha now bytes states
  | .cleanup now => .ok (none, cleanupStaleChunkStates now states)

/-- A run of the receiver: the state after all inputs, or the first panic. -/
def runInputs (build : Build) (sha : Sha256) (states : ChunkStates) (inputs : List Input) :
    Except Panic ChunkStates :=
  inputs.foldlM (fun states i => (stepInput build sha states i).map Prod.snd) states

/-! ### What one message does -/

section Receive

variable (sha : Sha256)

/-- The content a transfer yields when it is closed, if it does not panic. -/
def ChunkReceiveState.content (state : ChunkReceiveState) : Option ClipboardContent :=
  if UInt32.ofNat state.received.keys.length = state.totalChunks then
    (assemble state.received state.totalChunks.toNat).bind fun fullData =>
      if sha.hex fullData = state.dataHash then ClipboardContent.fromBytes fullData else none
  else none

/-- The outcome of a message that does not panic. -/
def receive (now : ℕ) (states : ChunkStates) :
    NetworkMessage → Option ClipboardContent × ChunkStates
  | .direct content => (some content, states)
  | .chunkStart tid total hash size =>
      (none, Function.update states tid (some ⟨total, hash, size, ∅, now⟩))
  | .chunk tid index data =>
      (none, Function.update states tid
        ((states tid).map fun state =>
          { state with received := state.received.insert index data }))
  | .chunkEnd tid =>
      ((states tid).bind (ChunkReceiveState.content sha), Function.update states tid none)

/-- The messages that panic: the last possible index for an open transfer, or
the end of a complete transfer whose announced size no allocation can have. -/
def Trips (build : Build) (states : ChunkStates) : NetworkMessage → Prop
  | .direct _ => False
  | .chunkStart _ _ _ _ => False
  | .chunk tid index _ =>
      build.overflowChecks = true ∧ (states tid).isSome = true ∧ 2 ^ 32 ≤ index.toNat + 1
  | .chunkEnd tid =>
      build.capacityChecks = true ∧ ∃ state, states tid = some state ∧
        UInt32.ofNat state.received.keys.length = state.totalChunks ∧
        isizeMax < state.totalSize.toNat

variable {sha}

theorem finishTransfer_eq_ok {build : Build} {state : ChunkReceiveState}
    (h : ¬ (build.capacityChecks = true ∧
      UInt32.ofNat state.received.keys.length = state.totalChunks ∧
      isizeMax < state.totalSize.toNat)) :
    finishTransfer build sha state = .ok (state.content sha) := by
  unfold finishTransfer ChunkReceiveState.content
  by_cases hlen : UInt32.ofNat state.received.keys.length = state.totalChunks
  · rw [if_pos hlen, if_pos hlen, if_neg (by simpa [hlen] using h)]
    cases assemble state.received state.totalChunks.toNat with
    | none => rfl
    | some fullData =>
      by_cases hhash : sha.hex fullData = state.dataHash <;> simp [hhash]
  · rw [if_neg hlen, if_neg hlen]

theorem finishTransfer_eq_error {build : Build} {state : ChunkReceiveState}
    (hcap : build.capacityChecks = true)
    (hlen : UInt32.ofNat state.received.keys.length = state.totalChunks)
    (hsize : isizeMax < state.totalSize.toNat) :
    finishTransfer build sha state = .error .capacityOverflow := by
  simp [finishTransfer, hcap, hlen, hsize]

/-- There is nothing to forget of a transfer that was not begun. -/
theorem update_none_eq_self {states : ChunkStates} {tid : String} (h : states tid = none) :
    Function.update states tid none = states := by
  rw [← h, Function.update_eq_self]

/-- **A message that does not trip has the outcome `receive`.** -/
theorem handleNetworkMessage_eq_ok {build : Build} {now : ℕ} {states : ChunkStates}
    {m : NetworkMessage} (h : ¬ Trips build states m) :
    handleNetworkMessage build sha now states m = .ok (receive sha now states m) := by
  cases m with
  | direct content => rfl
  | chunkStart tid total hash size => rfl
  | chunk tid index data =>
    cases hs : states tid with
    | none =>
      simp [handleNetworkMessage, receive, hs, update_none_eq_self hs]
    | some state =>
      have hguard : ¬ (build.overflowChecks = true ∧ 2 ^ 32 ≤ index.toNat + 1) := by
        rintro ⟨hb, hi⟩
        exact h ⟨hb, by rw [hs]; rfl, hi⟩
      simp only [handleNetworkMessage, receive, hs, Option.map_some]
      rw [if_neg (by simpa using hguard)]
  | chunkEnd tid =>
    cases hs : states tid with
    | none =>
      simp [handleNetworkMessage, receive, hs, update_none_eq_self hs]
    | some state =>
      have hok : finishTransfer build sha state = .ok (state.content sha) :=
        finishTransfer_eq_ok fun ⟨hb, hlen, hsize⟩ => h ⟨hb, state, hs, hlen, hsize⟩
      simp [handleNetworkMessage, receive, hs, hok, Except.map]

/-- A message that trips panics. -/
theorem handleNetworkMessage_eq_error {build : Build} {now : ℕ} {states : ChunkStates}
    {m : NetworkMessage} (h : Trips build states m) :
    ∃ p, handleNetworkMessage build sha now states m = .error p := by
  cases m with
  | direct content => exact h.elim
  | chunkStart tid total hash size => exact h.elim
  | chunk tid index data =>
    obtain ⟨hb, hsome, hi⟩ := h
    obtain ⟨state, hs⟩ := Option.isSome_iff_exists.mp hsome
    refine ⟨.arithmeticOverflow, ?_⟩
    simp only [handleNetworkMessage, hs]
    rw [if_pos (by simpa [hb] using hi)]
  | chunkEnd tid =>
    obtain ⟨hb, state, hs, hlen, hsize⟩ := h
    refine ⟨.capacityOverflow, ?_⟩
    simp [handleNetworkMessage, hs, finishTransfer_eq_error hb hlen hsize, Except.map]

/-- Bytes that decode to a message are handled as that message. -/
theorem handleIncomingMessage_of_message {build : Build} {now : ℕ} {data : Bytes}
    {states : ChunkStates} {m : NetworkMessage} (hm : NetworkMessage.fromBytes data = some m) :
    handleIncomingMessage build sha now data states =
      handleNetworkMessage build sha now states m := by
  simp [handleIncomingMessage, hm]

/-- Bytes that are no message leave the transfers alone. -/
theorem handleIncomingMessage_of_none {build : Build} {now : ℕ} {data : Bytes}
    {states : ChunkStates} (hm : NetworkMessage.fromBytes data = none) :
    handleIncomingMessage build sha now data states =
      .ok (some ((ClipboardContent.fromBytes data).getD (.text (fromUtf8Lossy data))),
        states) := by
  cases hc : ClipboardContent.fromBytes data <;> simp [handleIncomingMessage, hm, hc]

/-- Nothing trips in a build without checks. -/
theorem not_trips_unchecked (states : ChunkStates) (m : NetworkMessage) :
    ¬ Trips Build.unchecked states m := by
  cases m <;> simp [Trips, Build.unchecked]

/-! ### What one message leaves alone -/

/-- The transfer a message is about. -/
def NetworkMessage.transferId? : NetworkMessage → Option String
  | .direct _ => none
  | .chunkStart tid _ _ _ => some tid
  | .chunk tid _ _ => some tid
  | .chunkEnd tid => some tid

/-- **A message leaves the other transfers alone.** -/
theorem receive_of_ne {now : ℕ} {states : ChunkStates} {m : NetworkMessage} {id : String}
    (h : m.transferId? ≠ some id) : (receive sha now states m).2 id = states id := by
  have hne : ∀ tid, m.transferId? = some tid → id ≠ tid := by
    rintro tid htid rfl
    exact h htid
  cases m with
  | direct content => rfl
  | chunkStart tid total hash size => exact Function.update_of_ne (hne tid rfl) _ _
  | chunk tid index data => exact Function.update_of_ne (hne tid rfl) _ _
  | chunkEnd tid => exact Function.update_of_ne (hne tid rfl) _ _

/-- What a message does to a transfer depends on that transfer only. -/
theorem receive_congr {now : ℕ} {states states' : ChunkStates} {m : NetworkMessage}
    {id : String} (h : states id = states' id) :
    (receive sha now states m).2 id = (receive sha now states' m).2 id := by
  by_cases hid : m.transferId? = some id
  · cases m with
    | direct content => exact h
    | chunkStart tid total hash size =>
      obtain rfl := Option.some.inj hid
      simp [receive]
    | chunk tid index data =>
      obtain rfl := Option.some.inj hid
      simp [receive, h]
    | chunkEnd tid =>
      obtain rfl := Option.some.inj hid
      simp [receive]
  · rw [receive_of_ne hid, receive_of_ne hid, h]

/-- A cleanup that finds nothing stale changes nothing. -/
theorem cleanupStaleChunkStates_eq_self {now : ℕ} {states : ChunkStates}
    (h : ∀ id state, states id = some state → ¬ state.Stale now) :
    cleanupStaleChunkStates now states = states := by
  funext id
  cases hid : states id with
  | none => simp [cleanupStaleChunkStates, hid]
  | some state => simp [cleanupStaleChunkStates, hid, h id state hid]

end Receive

end P2pClipboard
