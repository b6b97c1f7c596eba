import P2pClipboard.Swarm

/-!
# The event loop

The loop of `run` in `src/network.rs`.  Each iteration forgets the stale
transfers, then either takes the next message off the queue of pending chunks or
waits for one of four things: a local content, an event of the swarm, a retry
callback, thirty seconds of silence.  A local content is split; its first message
is published in this iteration and the others join the queue.  An iteration that
took more than a minute ends the loop before it publishes anything.

## Main definitions

* `LoopState`, `Turn`, `iteration` — one iteration.
* `runLoop` — a run from the start of the loop.
* `receivedOf`, `publishedOf`, `handedOver` — the contents read from the channel, the
  byte strings handed to gossipsub and the contents handed to the clipboard in the
  course of a run.

## Main results

* `handleWakeup_cases`, `iteration_cases` — what one iteration can do.
* `iteration_queue` — what one iteration does to the queue.
* `iteration_inbound` — what one iteration does to the transfers and the clipboard.
* `runLoop_sender_queue` — **what was published, followed by what is pending, is
  exactly the messages of the contents received, in order.**
-/

namespace P2pClipboard

/-! ### One iteration -/

/-- The variables of `run`. -/
structure LoopState where
  /-- What is known about other peers. -/
  endpoints : Endpoints
  /-- The transfers in progress. -/
  chunkStates : ChunkStates
  /-- The messages waiting to be published. -/
  pendingChunks : List Bytes
  /-- The wall clock at the end of the last iteration, in nanoseconds. -/
  t : ℕ

/-- The variables before the loop, entered at wall-clock time `t`. -/
def LoopState.initial (t : ℕ) : LoopState := ⟨{}, ChunkStates.empty, [], t⟩

/-- What an iteration with an empty queue wakes up for. -/
inductive Wakeup
  /-- A content from the local clipboard; `uuid` is drawn when it is split. -/
  | received (message : ClipboardContent) (uuid : Uuid)
  /-- An event of the swarm. -/
  | swarm (event : SwarmEvent)
  /-- A retry whose delay has passed. -/
  | retryCallback (failingConnection : PeerEndpointCache)
  /-- Thirty seconds without any of these. -/
  | idle

/-- The environment of one iteration. -/
structure Turn where
  /-- The monotonic clock at the cleanup. -/
  cleanupTime : ℕ
  /-- The monotonic clock when a message is handled. -/
  arrivalTime : ℕ
  /-- The wall clock when the iteration is measured. -/
  wallTime : ℕ
  /-- The wall clock when it is stored for the next iteration. -/
  storedTime : ℕ
  /-- What the swarm answers. -/
  view : SwarmView
  /-- What happens first, looked at only when nothing is pending. -/
  wakeup : Wakeup

/-- What an iteration does to its surroundings. -/
inductive Effect
  /-- `rx.recv` yields a content. -/
  | recv (message : ClipboardContent) (uuid : Uuid)
  /-- `gossipsub.publish`. -/
  | publish (data : Bytes)
  /-- Anything else. -/
  | call (c : Call)

/-- The local content branch: what to publish now, and the queue. -/
def handleLocalContent (sha : Sha256) (uuid : Uuid) (message : ClipboardContent)
    (pendingChunks : List Bytes) : Option Bytes × List Bytes :=
  match splitToNetworkMessages sha uuid message with
  | none => (none, pendingChunks)
  | some [netMsg] => (netMsg.toBytes, pendingChunks)
  | some netMsgs =>
      netMsgs.foldl
        (fun acc msg =>
          match msg.toBytes with
          | none => acc
          | some bytes =>
              if acc.1.isNone then (some bytes, acc.2) else (acc.1, acc.2 ++ [bytes]))
        (none, pendingChunks)

/-- What one wakeup leads to: the bytes to publish, the new variables and the
effects so far. -/
def handleWakeup (cfg : Config) (turn : Turn) (s : LoopState) :
    Except Panic (Option Bytes × LoopState × List Effect) :=
  match turn.wakeup with
  | .received message uuid =>
      let (toPublish, pendingChunks) :=
        handleLocalContent cfg.sha uuid message s.pendingChunks
      .ok (toPublish, { s with pendingChunks }, [.recv message uuid])
  | .swarm (.gossipMessage data) => do
      let (content, chunkStates) ←
        handleIncomingMessage cfg.build cfg.sha turn.arrivalTime data s.chunkStates
      return (none, { s with chunkStates }, content.toList.map fun c => .call (.toClipboard c))
  | .swarm event => do
      let (endpoints, calls) ← handleEndpointEvent cfg turn.view s.endpoints event
      return (none, { s with endpoints }, calls.map .call)
  | .retryCallback failingConnection => do
      let (endpoints, calls) ← handleRetryCallback turn.view failingConnection s.endpoints
      return (none, { s with endpoints }, calls.map .call)
  | .idle => .ok (none, s, (handleIdle cfg turn.view).map .call)

/-- How an iteration ends. -/
structure Outcome where
  /-- The variables. -/
  state : LoopState
  /-- The effects, in order. -/
  effects : List Effect
  /-- The loop has returned. -/
  returned : Bool

/-- How long an iteration may take, in nanoseconds. -/
def restartLimit : ℕ := 60 * 10 ^ 9

/-- The end of an iteration: return after too long a time, else publish. -/
def finishIteration (turn : Turn) (toPublish : Option Bytes) (s : LoopState)
    (effects : List Effect) : Outcome :=
  -- a clock that was set back counts as no time at all
  let d := turn.wallTime - s.t
  let s := { s with t := turn.storedTime }
  if restartLimit < d then ⟨s, effects, true⟩
  else ⟨s, effects ++ toPublish.toList.map .publish, false⟩

/-- One iteration of the loop. -/
def iteration (cfg : Config) (s : LoopState) (turn : Turn) : Except Panic Outcome :=
  let s := { s with chunkStates := cleanupStaleChunkStates turn.cleanupTime s.chunkStates }
  match s.pendingChunks with
  | chunkData :: rest =>
      .ok (finishIteration turn (some chunkData) { s with pendingChunks := rest } [])
  | [] => do
      let (toPublish, s, effects) ← handleWakeup cfg turn s
      return finishIteration turn toPublish s effects

/-- A run of the loop: it ends with a panic, with the loop returning, or at the
loop head after the last turn. -/
def runLoop (cfg : Config) (s : LoopState) : List Turn → Except Panic Outcome
  | [] => .ok ⟨s, [], false⟩
  | turn :: turns => do
      let o ← iteration cfg s turn
      if o.returned then return o
      else
        let o' ← runLoop cfg o.state turns
        return { o' with effects := o.effects ++ o'.effects }

/-- The contents read from the channel, with the ids drawn for them. -/
def receivedOf (effects : List Effect) : List (ClipboardContent × Uuid) :=
  effects.filterMap fun
    | .recv message uuid => some (message, uuid)
    | _ => none

/-- The byte strings handed to gossipsub. -/
def publishedOf (effects : List Effect) : List Bytes :=
  effects.filterMap fun
    | .publish data => some data
    | _ => none

/-- The contents handed to the clipboard in the course of a run. -/
def handedOver (effects : List Effect) : List ClipboardContent :=
  effects.filterMap fun
    | .call (.toClipboard content) => some content
    | _ => none

/-! ### The queue of messages to publish -/

/-- The byte strings a received content is published as. -/
def wireMessages (sha : Sha256) (r : ClipboardContent × Uuid) : Option (List Bytes) :=
  (splitToNetworkMessages sha r.2 r.1).bind fun netMsgs => netMsgs.mapM NetworkMessage.toBytes

/-- What was published, followed by what is pending, is the messages of the
contents received, in order. -/
def Queued (sha : Sha256) (effects : List Effect) (pendingChunks : List Bytes) : Prop :=
  ((receivedOf effects).mapM (wireMessages sha)).map List.flatten =
    some (publishedOf effects ++ pendingChunks)

theorem receivedOf_append (l₁ l₂ : List Effect) :
    receivedOf (l₁ ++ l₂) = receivedOf l₁ ++ receivedOf l₂ := List.filterMap_append

theorem publishedOf_append (l₁ l₂ : List Effect) :
    publishedOf (l₁ ++ l₂) = publishedOf l₁ ++ publishedOf l₂ := List.filterMap_append

@[simp] theorem receivedOf_calls (calls : List Call) : receivedOf (calls.map .call) = [] := by
  simp [receivedOf, List.filterMap_map]

@[simp] theorem publishedOf_calls (calls : List Call) : publishedOf (calls.map .call) = [] := by
  simp [publishedOf, List.filterMap_map]

@[simp] theorem receivedOf_publish (data : List Bytes) :
    receivedOf (data.map .publish) = [] := by
  simp [receivedOf, List.filterMap_map]

@[simp] theorem publishedOf_publish (data : List Bytes) :
    publishedOf (data.map .publish) = data := by
  simp [publishedOf, List.filterMap_map]

theorem handedOver_append (l₁ l₂ : List Effect) :
    handedOver (l₁ ++ l₂) = handedOver l₁ ++ handedOver l₂ := List.filterMap_append

@[simp] theorem handedOver_calls (calls : List Call) :
    handedOver (calls.map .call) = toClipboardCalls calls := by
  rw [handedOver, List.filterMap_map]
  refine List.filterMap_congr fun c _ => ?_
  cases c <;> rfl

@[simp] theorem handedOver_publish (data : List Bytes) : handedOver (data.map .publish) = [] := by
  simp [handedOver, List.filterMap_map]

/-- Serialisation has no failing case, and keeps at least one message. -/
theorem wireMessages_eq_some (sha : Sha256) (r : ClipboardContent × Uuid) :
    ∃ netMsgs, splitToNetworkMessages sha r.2 r.1 = some netMsgs ∧
      wireMessages sha r = some (netMsgs.map NetworkMessage.codec.encode) := by
  obtain ⟨netMsgs, hsplit⟩ :
      ∃ netMsgs, splitToNetworkMessages sha r.2 r.1 = some netMsgs := ⟨_, rfl⟩
  refine ⟨netMsgs, hsplit, ?_⟩
  have hmap : ∀ ms : List NetworkMessage, ms.mapM NetworkMessage.toBytes =
      some (ms.map NetworkMessage.codec.encode) := by
    intro ms
    induction ms with
    | nil => rfl
    | cons m ms ih => simp [List.mapM_cons, NetworkMessage.toBytes, ih]
  rw [wireMessages, hsplit, Option.bind_some, hmap]

/-- Once a first message is found, the loop queues all the others. -/
theorem foldl_queue (netMsgs : List NetworkMessage) (first : Bytes) (pending : List Bytes) :
    netMsgs.foldl
        (fun acc msg =>
          match msg.toBytes with
          | none => acc
          | some bytes =>
              if acc.1.isNone then (some bytes, acc.2) else (acc.1, acc.2 ++ [bytes]))
        (some first, pending) =
      (some first, pending ++ netMsgs.map NetworkMessage.codec.encode) := by
  induction netMsgs generalizing pending with
  | nil => simp
  | cons m ms ih =>
    rw [List.foldl_cons, List.map_cons]
    simp only [NetworkMessage.toBytes, Option.isNone_some, Bool.false_eq_true, if_false] at ih ⊢
    rw [ih, List.append_assoc, List.singleton_append]

/-- **A local content publishes its first message and queues the others.** -/
theorem handleLocalContent_eq {sha : Sha256} {uuid : Uuid} {message : ClipboardContent}
    {wire : List Bytes} (h : wireMessages sha (message, uuid) = some wire)
    (pendingChunks : List Bytes) :
    handleLocalContent sha uuid message pendingChunks =
      (wire.head?, pendingChunks ++ wire.tail) := by
  obtain ⟨netMsgs, hsplit, hwire⟩ := wireMessages_eq_some sha (message, uuid)
  obtain rfl := Option.some.inj (h.symm.trans hwire)
  unfold handleLocalContent
  match netMsgs, hsplit with
  | [], hsplit => simp [hsplit]
  | [m], hsplit => simp [hsplit, NetworkMessage.toBytes]
  | m :: m' :: ms, hsplit =>
    simp only [hsplit]
    rw [List.foldl_cons]
    exact foldl_queue (m' :: ms) _ pendingChunks

/-- A content that is chunked is published as its chunks between two other messages. -/
theorem length_wireMessages_large {sha : Sha256} {uuid : Uuid} {message : ClipboardContent}
    (hlarge : chunkDataSize < (ClipboardContent.codec.encode message).length) :
    ∃ wire, wireMessages sha (message, uuid) = some wire ∧
      wire.length = totalChunks (ClipboardContent.codec.encode message).length + 2 := by
  obtain ⟨netMsgs, hsplit, hwire⟩ := wireMessages_eq_some sha (message, uuid)
  rw [splitToNetworkMessages_large rfl hlarge] at hsplit
  obtain rfl := Option.some.inj hsplit
  refine ⟨_, hwire, ?_⟩
  have hpos : 0 < chunkDataSize := by decide
  simp [chunkMessages, length_chunks hpos, totalChunks]

section Iteration

variable {cfg : Config} {turn : Turn} {s s' : LoopState} {effects : List Effect}

/-- **What one wakeup can do**: split a local content, handle a message, or neither. -/
theorem handleWakeup_cases {toPublish : Option Bytes}
    (h : handleWakeup cfg turn s = .ok (toPublish, s', effects)) :
    (∃ message uuid wire, turn.wakeup = .received message uuid ∧
        wireMessages cfg.sha (message, uuid) = some wire ∧ toPublish = wire.head? ∧
        s' = { s with pendingChunks := s.pendingChunks ++ wire.tail } ∧
        effects = [.recv message uuid]) ∨
      (∃ data content chunkStates, turn.wakeup = .swarm (.gossipMessage data) ∧
        handleIncomingMessage cfg.build cfg.sha turn.arrivalTime data s.chunkStates =
          .ok (content, chunkStates) ∧ toPublish = none ∧ s' = { s with chunkStates } ∧
        effects = (content.toList.map Call.toClipboard).map .call) ∨
      ∃ endpoints calls, (∀ message uuid, turn.wakeup ≠ .received message uuid) ∧
        (∀ data, turn.wakeup ≠ .swarm (.gossipMessage data)) ∧ toClipboardCalls calls = [] ∧
        toPublish = none ∧ s' = { s with endpoints } ∧ effects = calls.map .call := by
  unfold handleWakeup at h
  split at h
  · case h_1 message uuid hwake =>
    obtain ⟨netMsgs, -, hwire⟩ := wireMessages_eq_some cfg.sha (message, uuid)
    rw [handleLocalContent_eq hwire] at h
    simp only [Except.ok.injEq, Prod.mk.injEq] at h
    obtain ⟨rfl, rfl, rfl⟩ := h
    exact .inl ⟨message, uuid, _, hwake, hwire, rfl, rfl, rfl⟩
  · case h_2 data hwake =>
    obtain ⟨⟨content, chunkStates⟩, hcontent, hret⟩ := bind_eq_ok h
    obtain ⟨rfl, rfl, rfl⟩ := by simpa [pure, Except.pure] using hret
    refine .inr (.inl ⟨data, content, chunkStates, hwake, hcontent, rfl, rfl, ?_⟩)
    rw [List.map_map]
    rfl
  · case h_3 event hmsg hwake =>
    obtain ⟨⟨endpoints, calls⟩, hcalls, hret⟩ := bind_eq_ok h
    obtain ⟨rfl, rfl, rfl⟩ := by simpa [pure, Except.pure] using hret
    refine .inr (.inr ⟨endpoints, calls, by simp [hwake], ?_,
      handleEndpointEvent_toClipboard hcalls, rfl, rfl, rfl⟩)
    intro data heq
    rw [hwake] at heq
    exact hmsg data (Wakeup.swarm.inj heq)
  · case h_4 target hwake =>
    obtain ⟨⟨endpoints, calls⟩, hcalls, hret⟩ := bind_eq_ok h
    obtain ⟨rfl, rfl, rfl⟩ := by simpa [pure, Except.pure] using hret
    exact .inr (.inr ⟨endpoints, calls, by simp [hwake], by simp [hwake],
      handleRetryCallback_toClipboard hcalls, rfl, rfl, rfl⟩)
  · case h_5 hwake =>
    obtain ⟨rfl, rfl, rfl⟩ := by simpa using h
    exact .inr (.inr ⟨s.endpoints, _, by simp [hwake], by simp [hwake],
      handleIdle_toClipboard cfg turn.view, rfl, rfl, rfl⟩)

/-- **What one iteration can do**: forget the stale transfers, then publish the head of
the queue, or wake up for something. -/
theorem iteration_cases {o : Outcome} (h : iteration cfg s turn = .ok o) :
    (∃ data rest, s.pendingChunks = data :: rest ∧
        o = finishIteration turn (some data)
          { s with
            chunkStates := cleanupStaleChunkStates turn.cleanupTime s.chunkStates
            pendingChunks := rest } []) ∨
      (s.pendingChunks = [] ∧ ∃ toPublish s' effects,
        handleWakeup cfg turn
          { s with chunkStates := cleanupStaleChunkStates turn.cleanupTime s.chunkStates } =
            .ok (toPublish, s', effects) ∧ o = finishIteration turn toPublish s' effects) := by
  unfold iteration at h
  cases hp : s.pendingChunks with
  | cons data rest =>
    simp only [hp] at h
    exact .inl ⟨data, rest, rfl, (Except.ok.inj h).symm⟩
  | nil =>
    simp only [hp] at h
    obtain ⟨⟨toPublish, s', effects⟩, hwake, hret⟩ := bind_eq_ok h
    exact .inr ⟨rfl, toPublish, s', effects, hwake, (Except.ok.inj hret).symm⟩

@[simp] theorem finishIteration_pendingChunks (toPublish : Option Bytes) :
    (finishIteration turn toPublish s effects).state.pendingChunks = s.pendingChunks := by
  by_cases hd : restartLimit < turn.wallTime - s.t <;> simp [finishIteration, hd]

@[simp] theorem finishIteration_chunkStates (toPublish : Option Bytes) :
    (finishIteration turn toPublish s effects).state.chunkStates = s.chunkStates := by
  by_cases hd : restartLimit < turn.wallTime - s.t <;> simp [finishIteration, hd]

@[simp] theorem receivedOf_finishIteration (toPublish : Option Bytes) :
    receivedOf (finishIteration turn toPublish s effects).effects = receivedOf effects := by
  by_cases hd : restartLimit < turn.wallTime - s.t
  · simp [finishIteration, hd]
  · simp only [finishIteration, hd, if_false]
    rw [receivedOf_append, receivedOf_publish, List.append_nil]

@[simp] theorem handedOver_finishIteration (toPublish : Option Bytes) :
    handedOver (finishIteration turn toPublish s effects).effects = handedOver effects := by
  by_cases hd : restartLimit < turn.wallTime - s.t
  · simp [finishIteration, hd]
  · simp only [finishIteration, hd, if_false]
    rw [handedOver_append, handedOver_publish, List.append_nil]

/-- An iteration that does not return publishes. -/
theorem publishedOf_finishIteration {toPublish : Option Bytes}
    (hr : (finishIteration turn toPublish s effects).returned = false) :
    publishedOf (finishIteration turn toPublish s effects).effects =
      publishedOf effects ++ toPublish.toList := by
  by_cases hd : restartLimit < turn.wallTime - s.t
  · exact absurd hr (by simp [finishIteration, hd])
  · simp only [finishIteration, hd, if_false]
    rw [publishedOf_append, publishedOf_publish]

/-- **What one iteration does to the queue**: it publishes the head of the queue,
or finds the queue empty and has at most one content to split. -/
theorem iteration_queue {o : Outcome} (h : iteration cfg s turn = .ok o)
    (hr : o.returned = false) :
    (∃ data, s.pendingChunks = data :: o.state.pendingChunks ∧
        receivedOf o.effects = [] ∧ publishedOf o.effects = [data]) ∨
      (s.pendingChunks = [] ∧ receivedOf o.effects = [] ∧ publishedOf o.effects = [] ∧
        o.state.pendingChunks = []) ∨
      (s.pendingChunks = [] ∧ ∃ r wire, receivedOf o.effects = [r] ∧
        wireMessages cfg.sha r = some wire ∧ publishedOf o.effects = wire.head?.toList ∧
        o.state.pendingChunks = wire.tail) := by
  rcases iteration_cases h with ⟨data, rest, hp, rfl⟩ | ⟨hp, toPublish, s', effects, hwake, rfl⟩
  · exact .inl ⟨data, by simp [hp], receivedOf_finishIteration _, publishedOf_finishIteration hr⟩
  · rw [publishedOf_finishIteration hr, receivedOf_finishIteration, finishIteration_pendingChunks]
    rcases handleWakeup_cases hwake with ⟨message, uuid, wire, -, hwire, rfl, rfl, rfl⟩ |
        ⟨data, content, chunkStates, -, -, rfl, rfl, rfl⟩ |
        ⟨endpoints, calls, -, -, -, rfl, rfl, rfl⟩
    · exact .inr (.inr ⟨hp, (message, uuid), wire, rfl, hwire, rfl, by simp [hp]⟩)
    · exact .inr (.inl ⟨hp, receivedOf_calls _, by rw [publishedOf_calls]; rfl, hp⟩)
    · exact .inr (.inl ⟨hp, receivedOf_calls _, by rw [publishedOf_calls]; rfl, hp⟩)

/-- The message an iteration publishes: the head of the queue, or the first message of
the content it wakes up for. -/
def LoopState.nextMessage (sha : Sha256) (s : LoopState) (turn : Turn) : Option Bytes :=
  match s.pendingChunks, turn.wakeup with
  | data :: _, _ => some data
  | [], .received message uuid => (wireMessages sha (message, uuid)).bind List.head?
  | [], _ => none

/-- **What one iteration publishes.** -/
theorem publishedOf_iteration {o : Outcome} (h : iteration cfg s turn = .ok o)
    (hr : o.returned = false) :
    publishedOf o.effects = (s.nextMessage cfg.sha turn).toList := by
  rcases iteration_cases h with ⟨data, rest, hp, rfl⟩ | ⟨hp, toPublish, s', effects, hwake, rfl⟩
  · rw [publishedOf_finishIteration hr, LoopState.nextMessage, hp]
    rfl
  · rw [publishedOf_finishIteration hr, LoopState.nextMessage, hp]
    rcases handleWakeup_cases hwake with ⟨message, uuid, wire, hw, hwire, rfl, -, rfl⟩ |
        ⟨data, content, chunkStates, hw, -, rfl, -, rfl⟩ | ⟨endpoints, calls, hw, -, -, rfl, -, rfl⟩
    · simp [hw, hwire, publishedOf]
    · rw [publishedOf_calls, hw]
      rfl
    · rw [publishedOf_calls, List.nil_append]
      split
      · case h_1 heq => cases heq
      · case h_2 message uuid _ heq => exact absurd heq (hw message uuid)
      · rfl

/-- One iteration keeps the queue in step with the contents received. -/
theorem iteration_queued {o : Outcome} (h : iteration cfg s turn = .ok o)
    (hr : o.returned = false) (hq : Queued cfg.sha effects s.pendingChunks) :
    Queued cfg.sha (effects ++ o.effects) o.state.pendingChunks := by
  unfold Queued at hq ⊢
  rw [receivedOf_append, publishedOf_append]
  rcases iteration_queue h hr with ⟨data, hp, hrecv, hpub⟩ | ⟨hp, hrecv, hpub, hp'⟩ |
      ⟨hp, r, wire, hrecv, hwire, hpub, hp'⟩
  · rw [hrecv, hpub, List.append_nil, hq, hp, List.append_assoc, List.singleton_append]
  · rw [hrecv, hpub, List.append_nil, List.append_nil, hq, hp, hp']
  · obtain ⟨wires, hwires, hflat⟩ := Option.map_eq_some_iff.mp hq
    have hsplit : wire.head?.toList ++ wire.tail = wire := by cases wire <;> rfl
    rw [hp, List.append_nil] at hflat
    rw [hrecv, hpub, hp', List.append_assoc, hsplit, List.mapM_append, hwires]
    simp [hwire, hflat]

/-- An iteration reads the channel only when nothing is pending, also when it is
the last. -/
theorem pendingChunks_eq_nil_of_recv {o : Outcome} (h : iteration cfg s turn = .ok o)
    (hrecv : receivedOf o.effects ≠ []) : s.pendingChunks = [] := by
  rcases iteration_cases h with ⟨data, rest, -, rfl⟩ | ⟨hp, -⟩
  · exact absurd (receivedOf_finishIteration _) hrecv
  · exact hp

/-! ### The messages of other nodes -/

/-- The message of another node that an iteration takes. -/
def LoopState.takes (s : LoopState) (turn : Turn) : Option Bytes :=
  match s.pendingChunks, turn.wakeup with
  | [], .swarm (.gossipMessage data) => some data
  | _, _ => none

/-- **What one iteration does to the transfers and the clipboard**: the stale transfers
are forgotten, and the message it takes, if any, is handled. -/
theorem iteration_inbound {o : Outcome} (h : iteration cfg s turn = .ok o) :
    (∃ data content, s.takes turn = some data ∧
        handleIncomingMessage cfg.build cfg.sha turn.arrivalTime data
          (cleanupStaleChunkStates turn.cleanupTime s.chunkStates) =
            .ok (content, o.state.chunkStates) ∧ handedOver o.effects = content.toList) ∨
      (s.takes turn = none ∧
        o.state.chunkStates = cleanupStaleChunkStates turn.cleanupTime s.chunkStates ∧
        handedOver o.effects = []) := by
  rcases iteration_cases h with ⟨data, rest, hp, rfl⟩ | ⟨hp, toPublish, s', effects, hwake, rfl⟩
  · refine .inr ⟨by simp [LoopState.takes, hp], ?_, handedOver_finishIteration _⟩
    exact finishIteration_chunkStates _
  · rw [finishIteration_chunkStates, handedOver_finishIteration]
    rcases handleWakeup_cases hwake with ⟨message, uuid, wire, hw, -, -, rfl, rfl⟩ |
        ⟨data, content, chunkStates, hw, hcontent, -, rfl, rfl⟩ |
        ⟨endpoints, calls, -, hw, hcalls, -, rfl, rfl⟩
    · exact .inr ⟨by simp [LoopState.takes, hp, hw], rfl, rfl⟩
    · refine .inl ⟨data, content, by simp [LoopState.takes, hp, hw], hcontent, ?_⟩
      rw [handedOver_calls]
      cases content <;> rfl
    · refine .inr ⟨?_, rfl, by rw [handedOver_calls, hcalls]⟩
      unfold LoopState.takes
      split
      · case h_1 data _ heq => exact absurd heq (hw data)
      · rfl

/-- An iteration that finds the queue empty and reads a content from the channel. -/
theorem iteration_received {message : ClipboardContent} {uuid : Uuid} {wire : List Bytes}
    (hp : s.pendingChunks = []) (hw : turn.wakeup = .received message uuid)
    (hwire : wireMessages cfg.sha (message, uuid) = some wire) :
    iteration cfg s turn = .ok (finishIteration turn wire.head?
      ⟨s.endpoints, cleanupStaleChunkStates turn.cleanupTime s.chunkStates, wire.tail, s.t⟩
      [.recv message uuid]) := by
  simp only [iteration, hp, handleWakeup, hw, handleLocalContent_eq hwire, bind, Except.bind,
    List.nil_append]
  rfl

/-- An iteration that takes a message panics only if handling the message does. -/
theorem iteration_of_takes {data : Bytes} {content : Option ClipboardContent}
    {chunkStates : ChunkStates} (htakes : s.takes turn = some data)
    (h : handleIncomingMessage cfg.build cfg.sha turn.arrivalTime data
      (cleanupStaleChunkStates turn.cleanupTime s.chunkStates) = .ok (content, chunkStates)) :
    ∃ o, iteration cfg s turn = .ok o := by
  unfold LoopState.takes at htakes
  split at htakes
  · case h_1 data' hp hwake =>
    obtain rfl := Option.some.inj htakes
    simp only [iteration, hp, handleWakeup, hwake, h, bind, Except.bind, pure, Except.pure]
    exact ⟨_, rfl⟩
  · cases htakes

end Iteration

/-! ### Runs -/

/-- A run keeps the queue in step with the contents received. -/
theorem runLoop_queued {cfg : Config} {turns : List Turn} {s : LoopState} {o : Outcome}
    {effects : List Effect} (h : runLoop cfg s turns = .ok o) (hr : o.returned = false)
    (hq : Queued cfg.sha effects s.pendingChunks) :
    Queued cfg.sha (effects ++ o.effects) o.state.pendingChunks := by
  induction turns generalizing s o effects with
  | nil =>
    obtain rfl := Except.ok.inj h
    simpa using hq
  | cons turn turns ih =>
    obtain ⟨o₁, hiter, hrest⟩ := bind_eq_ok h
    by_cases hret : o₁.returned = true
    · -- the loop has returned: this is the run's own outcome
      rw [if_pos hret] at hrest
      obtain rfl := Except.ok.inj hrest
      exact absurd hret (by simp [hr])
    · rw [if_neg hret] at hrest
      obtain ⟨o₂, hrun, hout⟩ := bind_eq_ok hrest
      obtain rfl := Except.ok.inj hout
      have hstep := iteration_queued hiter (by simpa using hret) hq
      have := ih hrun hr hstep
      rwa [List.append_assoc] at this

/-- **The sender's queue.**  At every loop head, what was handed to gossipsub
followed by what is pending is exactly the messages of the contents received, in
order; and the channel is read only when nothing is pending. -/
theorem runLoop_sender_queue (cfg : Config) (start : ℕ) (turns : List Turn) {s : LoopState}
    {effects : List Effect}
    (h : runLoop cfg (LoopState.initial start) turns = .ok ⟨s, effects, false⟩) :
    Queued cfg.sha effects s.pendingChunks ∧
      ∀ turn o, iteration cfg s turn = .ok o → receivedOf o.effects ≠ [] →
        s.pendingChunks = [] := by
  refine ⟨?_, fun turn o => pendingChunks_eq_nil_of_recv⟩
  have hstart : Queued cfg.sha [] (LoopState.initial start).pendingChunks := rfl
  simpa using runLoop_queued h rfl hstart

/-! ### A text and an image -/

/-- An image of two chunks. -/
@[irreducible] private def queuedImage : ClipboardContent := .image (List.replicate 2000000 0)

private theorem length_encode_queuedImage :
    (ClipboardContent.codec.encode queuedImage).length = 2000012 := by
  have hlen : ∀ png : Bytes, (ClipboardContent.codec.encode (.image png)).length =
      12 + png.length := by
    intro png
    simp [ClipboardContent.codec, Codec.bytes, Codec.nat]
    omega
  unfold queuedImage
  rw [hlen, List.length_replicate]

private theorem queueUuid_length :
    "00000000-0000-4000-8000-00000000000c".utf8ByteSize = 36 := by decide

private def queueUuid : Uuid := ⟨"00000000-0000-4000-8000-00000000000c", queueUuid_length⟩

private def queueCfg : Config := ⟨.checked, default, ⟨[]⟩, none⟩

/-- A text, and then a content that is half on its way. -/
private def queueTurns (message : ClipboardContent) : List Turn :=
  [⟨0, 0, 1, 1, {}, .received (.text "hi") queueUuid⟩,
    ⟨1, 1, 2, 2, {}, .received message queueUuid⟩, ⟨2, 2, 3, 3, {}, .idle⟩]

private theorem runLoop_queueTurns {message : ClipboardContent} {first second : Bytes}
    {rest : List Bytes}
    (hwire : wireMessages queueCfg.sha (message, queueUuid) = some (first :: second :: rest)) :
    ∃ s effects,
      runLoop queueCfg (LoopState.initial 0) (queueTurns message) = .ok ⟨s, effects, false⟩ ∧
        (receivedOf effects).map Prod.fst = [.text "hi", message] ∧
        (publishedOf effects).length = 3 ∧ s.pendingChunks = rest := by
  obtain ⟨s₁, effects₁, hfirst, hpending, hrecv, hpub, ht⟩ : ∃ s₁ effects₁,
      iteration queueCfg (LoopState.initial 0)
          ⟨0, 0, 1, 1, {}, .received (.text "hi") queueUuid⟩ = .ok ⟨s₁, effects₁, false⟩ ∧
        s₁.pendingChunks = [] ∧ receivedOf effects₁ = [(.text "hi", queueUuid)] ∧
        (publishedOf effects₁).length = 1 ∧ s₁.t = 1 := ⟨_, _, rfl, rfl, rfl, rfl, rfl⟩
  let turn : Turn := ⟨1, 1, 2, 2, {}, .received message queueUuid⟩
  have hsecond : iteration queueCfg s₁ turn = .ok (finishIteration turn (some first)
      ⟨s₁.endpoints, cleanupStaleChunkStates 1 s₁.chunkStates, second :: rest, s₁.t⟩
      [.recv message queueUuid]) := iteration_received hpending rfl hwire
  refine ⟨⟨s₁.endpoints, cleanupStaleChunkStates 2 (cleanupStaleChunkStates 1 s₁.chunkStates),
    rest, 3⟩, effects₁ ++ [.recv message queueUuid, .publish first, .publish second],
    ?_, ?_, ?_, rfl⟩
  · simp only [queueTurns, runLoop, hfirst, hsecond, turn, bind, Except.bind, finishIteration, ht,
      restartLimit]
    rfl
  · rw [receivedOf_append, hrecv]
    rfl
  · rw [publishedOf_append, List.length_append, hpub]
    rfl

/-- A text and an image are read from the channel, and two messages of the image are pending. -/
theorem runLoop_sender_queue_text :
    ∃ s effects,
      runLoop queueCfg (LoopState.initial 0) (queueTurns queuedImage) = .ok ⟨s, effects, false⟩ ∧
      (receivedOf effects).map Prod.fst = [.text "hi", queuedImage] ∧
      (publishedOf effects).length = 3 ∧ s.pendingChunks.length = 2 ∧
      Queued queueCfg.sha effects s.pendingChunks := by
  have hlarge : chunkDataSize < (ClipboardContent.codec.encode queuedImage).length := by
    rw [length_encode_queuedImage]
    decide
  obtain ⟨wire, hwire, hlength⟩ : ∃ wire,
      wireMessages queueCfg.sha (queuedImage, queueUuid) = some wire ∧
        wire.length = totalChunks (ClipboardContent.codec.encode queuedImage).length + 2 :=
    length_wireMessages_large hlarge
  rw [length_encode_queuedImage] at hlength
  match wire, hlength with
  | first :: second :: rest, hlength =>
    obtain ⟨s, effects, hrun, hrecv, hpub, hpending⟩ := runLoop_queueTurns hwire
    refine ⟨s, effects, hrun, hrecv, hpub, ?_, (runLoop_sender_queue queueCfg 0 _ hrun).1⟩
    rw [hpending]
    exact Nat.succ.inj (Nat.succ.inj hlength)

end P2pClipboard
