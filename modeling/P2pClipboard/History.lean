import P2pClipboard.Lib.Assoc
import P2pClipboard.Receive

/-!
# What the receiver accepts, read off the message history

The receiver is a mutable table of partial transfers.  This file gives its
meaning without the table: whether a `chunkEnd` yields a content depends on the
messages that arrived since the last `chunkStart` of its transfer, and on
nothing else.

The state of one transfer after a history is determined by its `Opening`, the
last announcement that nothing has closed since, and by the chunks that arrived
after it (`history_eq_some_iff`).  Everything said about whole histories is read
off that one lemma.

## Main definitions

* `Event`, `runEvents` — messages and cleanups, in the order they are handled.
* `Closes` — the events that end an open transfer.
* `Opening` — the announcement a transfer is open under, with the events since.
* `Accepts` — the declarative acceptance condition of a `chunkEnd`.

## Main results

* `history_eq_some_iff` — the table refines the history.
* `chunkEnd_accepts_iff` — **the acceptance condition is exact.**
-/

namespace P2pClipboard

/-- What happens to the receiver: a message handled at a time, or a cleanup. -/
inductive Event
  /-- A message handled at time `now`. -/
  | message (now : ℕ) (m : NetworkMessage)
  /-- A cleanup at time `now`. -/
  | cleanup (now : ℕ)
  deriving DecidableEq, Repr

/-- One event: what it returns, and the state after it. -/
def stepEvent (build : Build) (sha : Sha256) (states : ChunkStates) :
    Event → Except Panic (Option ClipboardContent × ChunkStates)
  | .message now m => handleNetworkMessage build sha now states m
  | .cleanup now => .ok (none, cleanupStaleChunkStates now states)

/-- The state after a sequence of events, or the first panic. -/
def runEvents (build : Build) (sha : Sha256) (states : ChunkStates) (events : List Event) :
    Except Panic ChunkStates :=
  events.foldlM (fun states e => (stepEvent build sha states e).map Prod.snd) states

/-! ### The declarative side -/

/-- The events that end the transfer `t` announced at time `since`. -/
def Closes (t : String) (since : ℕ) : Event → Prop
  | .message _ (.direct _) => False
  | .message _ (.chunkStart tid _ _ _) => tid = t
  | .message _ (.chunk _ _ _) => False
  | .message _ (.chunkEnd tid) => tid = t
  | .cleanup now => chunkTransferTimeout < now - since

/-- The index and data of an event that is a chunk of `t`. -/
def chunkOf (t : String) : Event → Option (UInt32 × Bytes)
  | .message _ (.direct _) => none
  | .message _ (.chunkStart _ _ _ _) => none
  | .message _ (.chunk tid index data) => if tid = t then some (index, data) else none
  | .message _ (.chunkEnd _) => none
  | .cleanup _ => none

/-- The chunks of `t` among `events`, in order. -/
def chunksOf (t : String) (events : List Event) : List (UInt32 × Bytes) :=
  events.filterMap (chunkOf t)

/-- The announcement of a transfer: when it came and what it said. -/
structure Announcement where
  /-- When the `chunkStart` was handled. -/
  now : ℕ
  /-- The announced number of chunks. -/
  totalChunks : UInt32
  /-- The announced hash. -/
  dataHash : String
  /-- The announced size. -/
  totalSize : UInt64

/-- The event an announcement of `t` is. -/
def Announcement.event (t : String) (a : Announcement) : Event :=
  .message a.now (.chunkStart t a.totalChunks a.dataHash a.totalSize)

/-- The transfer `t` is open after `events` under the announcement `a`, with
`post` the events since. -/
def Opening (t : String) (events : List Event) (a : Announcement) (post : List Event) : Prop :=
  (∃ pre, events = pre ++ a.event t :: post) ∧ ∀ e ∈ post, ¬ Closes t a.now e

/-- The acceptance condition of `chunkEnd t` after `events`: the transfer is
open, the number of distinct indices agrees with the announcement in 32 bits,
every index below it has a chunk, and the latest ones put together have the
announced hash and decode to `c`. -/
def Accepts (sha : Sha256) (events : List Event) (t : String) (c : ClipboardContent) : Prop :=
  ∃ (a : Announcement) (post : List Event), Opening t events a post ∧
    ((chunksOf t post).map Prod.fst).toFinset.card % 2 ^ 32 = a.totalChunks.toNat ∧
    ∃ d : ℕ → Bytes,
      (∀ i < a.totalChunks.toNat,
        (Assoc.valuesAt (UInt32.ofNat i) (chunksOf t post)).getLast? = some (d i)) ∧
      sha.hex ((List.range a.totalChunks.toNat).flatMap d) = a.dataHash ∧
      ClipboardContent.fromBytes ((List.range a.totalChunks.toNat).flatMap d) = some c

/-- The events about `t`: the messages carrying its id, and the cleanups. -/
def concerns (t : String) : Event → Bool
  | .message _ m => m.transferId? == some t
  | .cleanup _ => true

/-! ### One event -/

/-- The state after an event, when nothing panics. -/
def after (sha : Sha256) (states : ChunkStates) : Event → ChunkStates
  | .message now m => (receive sha now states m).2
  | .cleanup now => cleanupStaleChunkStates now states

/-- The state after a history from the empty table. -/
def history (sha : Sha256) (events : List Event) : ChunkStates :=
  events.foldl (after sha) ChunkStates.empty

/-- A transfer that has received the chunks `cs` as well. -/
def ChunkReceiveState.collect (state : ChunkReceiveState) (cs : List (UInt32 × Bytes)) :
    ChunkReceiveState :=
  { state with received := Assoc.insertAll cs state.received }

/-- The state an announcement opens. -/
def Announcement.state (a : Announcement) : ChunkReceiveState :=
  ⟨a.totalChunks, a.dataHash, a.totalSize, ∅, a.now⟩

variable {sha : Sha256} {t : String}

@[simp] theorem chunksOf_nil : chunksOf t [] = [] := rfl

@[simp] theorem chunksOf_singleton (e : Event) : chunksOf t [e] = (chunkOf t e).toList := by
  cases h : chunkOf t e <;> simp [chunksOf, h]

@[simp] theorem chunksOf_append (es es' : List Event) :
    chunksOf t (es ++ es') = chunksOf t es ++ chunksOf t es' := by
  simp [chunksOf]

theorem collect_nil (state : ChunkReceiveState) : state.collect [] = state := rfl

/-- **An open transfer stays open until something closes it**, and collects the
chunks of its own. -/
theorem after_of_not_closes {states : ChunkStates} {state : ChunkReceiveState} {e : Event}
    (hstate : states t = some state) (h : ¬ Closes t state.startedAt e) :
    after sha states e t = some (state.collect (chunksOf t [e])) := by
  cases e with
  | cleanup now =>
    have hstale : ¬ state.Stale now := h
    simp [after, cleanupStaleChunkStates, hstate, chunkOf, collect_nil, hstale]
  | message now m =>
    cases m with
    | direct content => simpa [after, receive, chunkOf, collect_nil] using hstate
    | chunkStart tid total hash size =>
      have hne : t ≠ tid := fun heq => h heq.symm
      simpa [after, receive, hne, chunkOf, collect_nil] using hstate
    | chunk tid index data =>
      by_cases heq : tid = t
      · subst heq
        simp [after, receive, hstate, chunkOf, ChunkReceiveState.collect]
      · simpa [after, receive, heq, Ne.symm heq, chunkOf, collect_nil] using hstate
    | chunkEnd tid =>
      have hne : t ≠ tid := fun heq => h heq.symm
      simpa [after, receive, hne, chunkOf, collect_nil] using hstate

/-- **A transfer is open after an event for one of two reasons**: the event
announced it, or it was open before and the event does not close it. -/
theorem after_eq_some {states : ChunkStates} {state' : ChunkReceiveState} {e : Event}
    (h : after sha states e t = some state') :
    (∃ a : Announcement, e = a.event t ∧ state' = a.state) ∨
      ∃ state, states t = some state ∧ ¬ Closes t state.startedAt e ∧
        state' = state.collect (chunksOf t [e]) := by
  -- an event that does not close the transfer keeps it
  have hkeep : ∀ state, states t = some state → ¬ Closes t state.startedAt e →
      ∃ state, states t = some state ∧ ¬ Closes t state.startedAt e ∧
        state' = state.collect (chunksOf t [e]) := by
    intro state hs hc
    rw [after_of_not_closes hs hc] at h
    exact ⟨state, hs, hc, (Option.some.inj h).symm⟩
  cases e with
  | cleanup now =>
    simp only [after, cleanupStaleChunkStates, Option.filter_eq_some_iff] at h
    obtain ⟨hs, hstale⟩ := h
    have hfresh : ¬ state'.Stale now := by simpa using hstale
    exact Or.inr (hkeep state' hs hfresh)
  | message now m =>
    by_cases hid : m.transferId? = some t
    · cases m with
      | direct content => exact absurd hid (by simp [NetworkMessage.transferId?])
      | chunkStart tid total hash size =>
        obtain rfl := Option.some.inj hid
        simp only [after, receive, Function.update_self, Option.some.injEq] at h
        exact Or.inl ⟨⟨now, total, hash, size⟩, rfl, h.symm⟩
      | chunk tid index data =>
        obtain rfl := Option.some.inj hid
        rcases hs : states tid with _ | state
        · simp [after, receive, hs] at h
        · exact Or.inr (hs ▸ hkeep state hs not_false)
      | chunkEnd tid =>
        obtain rfl := Option.some.inj hid
        simp [after, receive] at h
    · have hs : states t = some state' := by
        rw [← h]
        exact (receive_of_ne hid).symm
      refine Or.inr (hkeep state' hs ?_)
      cases m with
      | direct content => exact not_false
      | chunkStart tid total hash size => exact fun heq => hid (congrArg some heq)
      | chunk tid index data => exact not_false
      | chunkEnd tid => exact fun heq => hid (congrArg some heq)

/-! ### Whole histories -/

theorem history_concat (events : List Event) (e : Event) :
    history sha (events ++ [e]) = after sha (history sha events) e := by
  simp [history]

/-- The announced state, carried over the events since. -/
theorem foldl_after_of_open {states : ChunkStates} {state : ChunkReceiveState}
    {post : List Event} (hstate : states t = some state)
    (h : ∀ e ∈ post, ¬ Closes t state.startedAt e) :
    post.foldl (after sha) states t = some (state.collect (chunksOf t post)) := by
  induction post generalizing states state with
  | nil => simpa [ChunkReceiveState.collect] using hstate
  | cons e post ih =>
    have he : after sha states e t = some (state.collect (chunksOf t [e])) :=
      after_of_not_closes hstate (h e List.mem_cons_self)
    have hrest := ih he fun e' he' => h e' (List.mem_cons_of_mem e he')
    rw [List.foldl_cons, hrest, ← List.singleton_append (l := post), chunksOf_append]
    simp [ChunkReceiveState.collect, Assoc.insertAll_append]

/-- **The table refines the history**: a transfer's state is its announcement
with the chunks since. -/
theorem history_eq_some_iff {events : List Event} {state : ChunkReceiveState} :
    history sha events t = some state ↔
      ∃ a post, Opening t events a post ∧ state = a.state.collect (chunksOf t post) := by
  constructor
  · -- from the table to the history: induction from the last event
    intro h
    induction events using List.reverseRecOn generalizing state with
    | nil => simp [history, ChunkStates.empty] at h
    | append_singleton events e ih =>
      rw [history_concat] at h
      rcases after_eq_some h with ⟨a, rfl, rfl⟩ | ⟨state₀, hs, hc, rfl⟩
      · exact ⟨a, [], ⟨⟨events, rfl⟩, by simp⟩, rfl⟩
      · obtain ⟨a, post, ⟨⟨pre, rfl⟩, hpost⟩, rfl⟩ := ih hs
        refine ⟨a, post ++ [e], ⟨⟨pre, by simp⟩, ?_⟩, ?_⟩
        · intro e' he'
          rcases List.mem_append.mp he' with he' | he'
          · exact hpost e' he'
          · rw [List.mem_singleton.mp he']
            exact hc
        · rw [chunksOf_append]
          simp [ChunkReceiveState.collect, Assoc.insertAll_append]
  · rintro ⟨a, post, ⟨⟨pre, rfl⟩, hpost⟩, rfl⟩
    -- from the history to the table: the announcement opens, nothing after it closes
    have hstart : after sha (history sha pre) (a.event t) t = some a.state := by
      simp [after, Announcement.event, receive, Announcement.state]
    simp only [history, List.foldl_append, List.foldl_cons]
    exact foldl_after_of_open hstart hpost

/-- Events about other transfers do not change this one. -/
theorem history_filter_concerns (events : List Event) :
    history sha (events.filter (concerns t)) t = history sha events t := by
  induction events using List.reverseRecOn with
  | nil => rfl
  | append_singleton events e ih =>
    rw [List.filter_append, history_concat]
    cases e with
    | cleanup now =>
      have hone : [Event.cleanup now].filter (concerns t) = [Event.cleanup now] := rfl
      rw [hone, history_concat]
      simp only [after, cleanupStaleChunkStates, ih]
    | message now m =>
      by_cases hid : m.transferId? = some t
      · have hone : [Event.message now m].filter (concerns t) = [Event.message now m] := by
          simp [concerns, hid]
        rw [hone, history_concat]
        exact receive_congr ih
      · have hone : [Event.message now m].filter (concerns t) = [] := by
          simp [concerns, hid]
        rw [hone, List.append_nil, ih]
        exact (receive_of_ne hid).symm

/-! ### Closing a transfer -/

/-- The reassembly loop succeeds exactly when every chunk is there, and yields
them in order. -/
theorem assemble_eq_some_iff {received : ReceivedChunks} {n : ℕ} {full : Bytes} :
    assemble received n = some full ↔
      ∃ d : ℕ → Bytes, (∀ i < n, received.lookup (UInt32.ofNat i) = some (d i)) ∧
        full = (List.range n).flatMap d := by
  induction n generalizing full with
  | zero =>
    constructor
    · intro h
      exact ⟨fun _ => [], by simp, by simpa [assemble] using h.symm⟩
    · rintro ⟨d, -, rfl⟩
      rfl
  | succ n ih =>
    have hstep : assemble received (n + 1) =
        (assemble received n).bind fun full =>
          (received.lookup (UInt32.ofNat n)).map (full ++ ·) := by
      simp [assemble, List.range_succ, List.foldlM_append]
    rw [hstep, Option.bind_eq_some_iff]
    constructor
    · rintro ⟨front, hfront, hlast⟩
      obtain ⟨d, hd, rfl⟩ := ih.mp hfront
      obtain ⟨chunk, hchunk, rfl⟩ := Option.map_eq_some_iff.mp hlast
      refine ⟨fun i => if i = n then chunk else d i, ?_, ?_⟩
      · intro i hi
        by_cases hin : i = n
        · subst hin
          simpa using hchunk
        · simpa [hin] using hd i (by omega)
      · have hmap : (List.range n).flatMap (fun i => if i = n then chunk else d i) =
            (List.range n).flatMap d := by
          refine List.flatMap_congr fun i hi => if_neg ?_
          have := List.mem_range.mp hi
          omega
        simp [List.range_succ, hmap]
    · rintro ⟨d, hd, rfl⟩
      refine ⟨(List.range n).flatMap d, ih.mpr ⟨d, fun i hi => hd i (by omega), rfl⟩, ?_⟩
      rw [hd n (Nat.lt_succ_self n)]
      simp [List.range_succ]

/-- The 32-bit count of a collected transfer is the number of distinct indices. -/
theorem ofNat_length_keys_collect {a : Announcement} {cs : List (UInt32 × Bytes)} :
    UInt32.ofNat (a.state.collect cs).received.keys.length = a.totalChunks ↔
      (cs.map Prod.fst).toFinset.card % 2 ^ 32 = a.totalChunks.toNat := by
  rw [← UInt32.toNat_inj, UInt32.toNat_ofNat']
  exact Eq.congr_left (congrArg (· % 2 ^ 32) (Assoc.length_keys_insertAll cs))

/-- A collected transfer yields a content exactly under the counting, presence,
hash and decoding conditions on its chunks. -/
theorem content_collect_eq_some_iff {a : Announcement} {cs : List (UInt32 × Bytes)}
    {c : ClipboardContent} :
    (a.state.collect cs).content sha = some c ↔
      (cs.map Prod.fst).toFinset.card % 2 ^ 32 = a.totalChunks.toNat ∧
      ∃ d : ℕ → Bytes,
        (∀ i < a.totalChunks.toNat,
          (Assoc.valuesAt (UInt32.ofNat i) cs).getLast? = some (d i)) ∧
        sha.hex ((List.range a.totalChunks.toNat).flatMap d) = a.dataHash ∧
        ClipboardContent.fromBytes ((List.range a.totalChunks.toNat).flatMap d) = some c := by
  -- a chunk that comes again replaces the one before
  have hlookup : ∀ i, (a.state.collect cs).received.lookup i =
      (Assoc.valuesAt i cs).getLast? := by
    intro i
    rw [ChunkReceiveState.collect, Assoc.lookup_insertAll]
    simp [Announcement.state]
  have htotal : (a.state.collect cs).totalChunks = a.totalChunks := rfl
  have hhash : (a.state.collect cs).dataHash = a.dataHash := rfl
  unfold ChunkReceiveState.content
  rw [htotal, hhash, Option.ite_none_right_eq_some, ofNat_length_keys_collect]
  refine and_congr_right fun _ => ?_
  rw [Option.bind_eq_some_iff]
  constructor
  · rintro ⟨full, hfull, hc⟩
    obtain ⟨d, hd, rfl⟩ := assemble_eq_some_iff.mp hfull
    rw [Option.ite_none_right_eq_some] at hc
    refine ⟨d, fun i hi => ?_, hc.1, hc.2⟩
    rw [← hlookup]
    exact hd i hi
  · rintro ⟨d, hd, hsum, hc⟩
    refine ⟨(List.range a.totalChunks.toNat).flatMap d, ?_, ?_⟩
    · refine assemble_eq_some_iff.mpr ⟨d, fun i hi => ?_, rfl⟩
      rw [hlookup]
      exact hd i hi
    · rw [if_pos hsum, hc]

/-- Closing a transfer yields a content exactly under the acceptance condition. -/
theorem history_content_iff {events : List Event} {c : ClipboardContent} :
    (history sha events t).bind (ChunkReceiveState.content sha) = some c ↔
      Accepts sha events t c := by
  rw [Option.bind_eq_some_iff]
  constructor
  · rintro ⟨state, hstate, hc⟩
    obtain ⟨a, post, hopen, rfl⟩ := history_eq_some_iff.mp hstate
    exact ⟨a, post, hopen, content_collect_eq_some_iff.mp hc⟩
  · rintro ⟨a, post, hopen, hc⟩
    exact ⟨_, history_eq_some_iff.mpr ⟨a, post, hopen, rfl⟩,
      content_collect_eq_some_iff.mpr hc⟩

/-! ### The exact acceptance condition -/

/-- Without its panics the receiver never fails, and its state is the history. -/
theorem runEvents_unchecked (events : List Event) :
    runEvents .unchecked sha ChunkStates.empty events = .ok (history sha events) := by
  induction events using List.reverseRecOn with
  | nil => rfl
  | append_singleton events e ih =>
    have hstep : ∀ states, (stepEvent .unchecked sha states e).map Prod.snd =
        .ok (after sha states e) := by
      intro states
      cases e with
      | cleanup now => rfl
      | message now m =>
        rw [stepEvent, handleNetworkMessage_eq_ok (not_trips_unchecked states m)]
        rfl
    rw [runEvents] at ih
    simp [runEvents, List.foldlM_append, ih, history_concat, hstep, bind, Except.bind, pure,
      Except.pure]

/-- **The exact acceptance condition of the receiver, over whole histories.**
After any sequence of messages and cleanups from the empty table, a `chunkEnd`
returns a content exactly when the history accepts it; the transfer is forgotten
either way; and the same answer is given when every message with another
transfer id is left out. -/
theorem chunkEnd_accepts_iff (sha : Sha256) (events : List Event) (t : String) (now : ℕ) :
    ∃ states out states',
      runEvents .unchecked sha ChunkStates.empty events = .ok states ∧
      handleNetworkMessage .unchecked sha now states (.chunkEnd t) = .ok (out, states') ∧
      (∀ c, out = some c ↔ Accepts sha events t c) ∧
      states' t = none ∧
      ∃ other other',
        runEvents .unchecked sha ChunkStates.empty (events.filter (concerns t)) = .ok other ∧
        handleNetworkMessage .unchecked sha now other (.chunkEnd t) = .ok (out, other') := by
  have hclose : ∀ states, handleNetworkMessage .unchecked sha now states (.chunkEnd t) =
      .ok (receive sha now states (.chunkEnd t)) := fun states =>
    handleNetworkMessage_eq_ok (not_trips_unchecked states _)
  refine ⟨_, _, _, runEvents_unchecked events, hclose _, fun c => history_content_iff, ?_,
    _, Function.update (history sha (events.filter (concerns t))) t none,
    runEvents_unchecked _, ?_⟩
  · simp
  · rw [hclose, receive, history_filter_concerns]

end P2pClipboard
