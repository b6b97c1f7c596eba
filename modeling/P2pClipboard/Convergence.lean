import P2pClipboard.Echo
import P2pClipboard.EventLoop
import P2pClipboard.Transfer

/-!
# Two connected nodes

A user copies texts on one node, the writer, and another node, the receiver, is
connected to it.  The writer's monitor reads each text and enqueues it, the
writer's loop splits and publishes it, gossipsub delivers what it accepted, and the
receiver's loop and proxy put it on the receiver's clipboard.  Both nodes run the
same program, each step of each of them may come at any time.

Gossipsub names a message by a hash of its data and refuses one whose name is in its
duplicate cache; the loop ignores the refusal.  A text that is copied again before
its name has left the cache is therefore lost, and the receiver keeps the one copied
in between.  When no message is refused, the last text copied wins.

## Main definitions

* `Node`, `Pair`, `Move`, `Pair.step` — the two nodes and what can happen.
* `Pair.Undisturbed` — the circumstances that are taken for granted.
* `Pair.Accepted` — the move publishes nothing that is in the duplicate cache.
* `Wired` — what the messages on their way will amount to.
* `Synced` — the invariant.

## Main results

* `Wired.deliver` — delivering a message does not panic and yields its content.
* `Synced.step` — one move keeps the pipeline in step with what was copied.
* `receiver_converges` — **the receiver ends up with the text copied last**, in every
  run in which every message is accepted.
-/

namespace P2pClipboard

/-! ### One node -/

/-- The names gossipsub gives to messages. -/
abbrev MessageId := Bytes

/-- `message_id_fn`: the decimal text of a hash of the data. -/
def messageId (env : Env) (data : Bytes) : MessageId :=
  utf8 (toString (hashBytes env data).toNat)

/-- The capacity of the channel from the monitor to the loop. -/
def channelCapacity : ℕ := 32

/-- A node of a network of two.  The channel from the monitor to the loop is the
list of contents its desktop has enqueued. -/
structure Node where
  /-- The clipboard side. -/
  desktop : Desktop
  /-- The network side. -/
  loop : LoopState
  /-- The received contents the proxy has still to apply. -/
  toClipboard : List ClipboardContent
  /-- The names of the messages published lately. -/
  duplicateCache : List MessageId
  /-- The messages the other node's gossipsub accepted, still to be delivered. -/
  inbox : List Bytes

namespace Node

/-- The channel has room. -/
def room (n : Node) : Bool := decide (n.desktop.enqueued.length < channelCapacity)

/-- The user copies a text and the monitor reads it. -/
def copy (env : Env) (n : Node) (text : String) (view : FsView) (fuel : ℕ) : Option Node :=
  (n.desktop.step env (.copy (.text text))).bind fun d =>
    (d.step env (.notice view fuel n.room true)).map fun d => { n with desktop := d }

/-- The monitor reads what the proxy wrote. -/
def notice (env : Env) (n : Node) (view : FsView) (fuel : ℕ) (opens : Bool) : Option Node :=
  if n.desktop.fromNetwork then
    (n.desktop.step env (.notice view fuel n.room opens)).map fun d => { n with desktop := d }
  else none

/-- The proxy applies the next content. -/
def apply (env : Env) (n : Node) (calls : ClipboardCalls) : Option Node :=
  match n.toClipboard with
  | [] => none
  | c :: rest =>
      (n.desktop.step env (.apply calls c)).map fun d =>
        { n with desktop := d, toClipboard := rest }

/-- A name leaves the duplicate cache. -/
def expire (n : Node) (id : MessageId) : Node :=
  { n with duplicateCache := n.duplicateCache.filter fun x => x ≠ id }

/-- `publish`: what is accepted.  The error for a duplicate is ignored. -/
def publish (env : Env) (n : Node) (data : Bytes) : Node × List Bytes :=
  if messageId env data ∈ n.duplicateCache then (n, [])
  else ({ n with duplicateCache := messageId env data :: n.duplicateCache }, [data])

/-- Publish one message after the other. -/
def publishAll (env : Env) (n : Node) (messages : List Bytes) : Node × List Bytes :=
  messages.foldl
    (fun acc data =>
      let (n, accepted) := acc.1.publish env data
      (n, acc.2 ++ accepted))
    (n, [])

/-- The node after an iteration, before anything is published. -/
def advance (n : Node) (t : Turn) (o : Outcome) : Node :=
  { n with
    desktop := { n.desktop with
      enqueued := n.desktop.enqueued.drop (receivedOf o.effects).length }
    loop := o.state
    toClipboard := n.toClipboard ++ handedOver o.effects
    inbox := n.inbox.drop (n.loop.takes t).toList.length }

/-- One iteration of the loop, with the messages gossipsub accepts.  It reads from the
channel and from the inbox, which must have what it reads.  There is no next state
after a panic or a restart. -/
def turn (env : Env) (cfg : Config) (n : Node) (t : Turn) : Option (Node × List Bytes) :=
  match iteration cfg n.loop t with
  | .error _ => none
  | .ok o =>
      if o.returned = false ∧
          (receivedOf o.effects).map Prod.fst <+: n.desktop.enqueued.map Prod.fst ∧
          (n.loop.takes t).toList <+: n.inbox then
        some ((n.advance t o).publishAll env (publishedOf o.effects))
      else none

/-- The other node's messages join the inbox. -/
def deliver (n : Node) (messages : List Bytes) : Node := { n with inbox := n.inbox ++ messages }

/-- A node with nothing to do that has not yet done anything. -/
structure Idle (n : Node) : Prop where
  dedup : n.desktop.dedup = {}
  fromNetwork : n.desktop.fromNetwork = false
  enqueued : n.desktop.enqueued = []
  chunkStates : n.loop.chunkStates = ChunkStates.empty
  pendingChunks : n.loop.pendingChunks = []
  toClipboard : n.toClipboard = []
  inbox : n.inbox = []

end Node

/-! ### Two nodes -/

/-- What the two nodes rest on. -/
structure World where
  /-- The libraries. -/
  env : Env
  /-- What the writer was started with. -/
  writer : Config
  /-- What the receiver was started with. -/
  receiver : Config
  /-- Both use the same hash function. -/
  sha_eq : receiver.sha = writer.sha

/-- The two nodes. -/
structure Pair where
  /-- The node on which texts are copied. -/
  writer : Node
  /-- The other node. -/
  receiver : Node

/-- One of the two nodes. -/
inductive Side
  | writer
  | receiver
  deriving DecidableEq, Repr

/-- A content that can be sent: its chunks can be numbered. -/
def Sendable (c : ClipboardContent) : Prop := totalChunks (rawOf c).length < 2 ^ 32

/-- What can happen next. -/
inductive Move
  /-- A text is copied on the writer. -/
  | copy (text : String) (view : FsView) (fuel : ℕ)
  /-- A loop makes an iteration. -/
  | turn (side : Side) (t : Turn)
  /-- A proxy applies a content. -/
  | apply (side : Side) (calls : ClipboardCalls)
  /-- A monitor reads what the proxy wrote. -/
  | notice (side : Side) (view : FsView) (fuel : ℕ) (opens : Bool)
  /-- A name leaves a duplicate cache. -/
  | expire (side : Side) (id : MessageId)

/-- The text a move copies. -/
def Move.text : Move → Option String
  | .copy text _ _ => some text
  | _ => none

/-- The text copied last. -/
def lastCopied (moves : List Move) : Option String := (moves.filterMap Move.text).getLast?

namespace Pair

/-- One move. -/
def step (w : World) (p : Pair) : Move → Option Pair
  | .copy text view fuel =>
      (p.writer.copy w.env text view fuel).map fun n => { p with writer := n }
  | .turn .writer t =>
      (p.writer.turn w.env w.writer t).map fun r => ⟨r.1, p.receiver.deliver r.2⟩
  | .turn .receiver t =>
      (p.receiver.turn w.env w.receiver t).map fun r => ⟨p.writer.deliver r.2, r.1⟩
  | .apply .writer calls => (p.writer.apply w.env calls).map fun n => { p with writer := n }
  | .apply .receiver calls =>
      (p.receiver.apply w.env calls).map fun n => { p with receiver := n }
  | .notice .writer view fuel opens =>
      (p.writer.notice w.env view fuel opens).map fun n => { p with writer := n }
  | .notice .receiver view fuel opens =>
      (p.receiver.notice w.env view fuel opens).map fun n => { p with receiver := n }
  | .expire .writer id => some { p with writer := p.writer.expire id }
  | .expire .receiver id => some { p with receiver := p.receiver.expire id }

/-- A sequence of moves. -/
def run (w : World) (p : Pair) (moves : List Move) : Option Pair := Runs.run (step w) p moves

/-- Both nodes are idle. -/
def Idle (p : Pair) : Prop := p.writer.Idle ∧ p.receiver.Idle

/-- Everything copied was published, every accepted message was delivered and every
received content was applied. -/
structure Drained (p : Pair) : Prop where
  enqueued : p.writer.desktop.enqueued = []
  pendingChunks : p.writer.loop.pendingChunks = []
  inbox : p.receiver.inbox = []
  toClipboard : p.receiver.toClipboard = []

/-- The circumstances that are taken for granted: a copied text finds room in the
channel and needs fewer than `2 ^ 32` chunks, the receiver does not give up a transfer
in progress, and clipboards take texts. -/
def Undisturbed (p : Pair) : Move → Prop
  | .copy text _ _ => p.writer.room = true ∧ Sendable (.text text)
  | .turn .receiver t =>
      ∀ id state, p.receiver.loop.chunkStates id = some state → ¬ state.Stale t.cleanupTime
  | .apply _ calls => calls.opens = true ∧ ∀ text, calls.setText text = true
  | _ => True

/-- What the move publishes is not in the duplicate cache. -/
def Accepted (w : World) (p : Pair) : Move → Prop
  | .turn .writer t => ∀ data ∈ p.writer.loop.nextMessage w.writer.sha t,
      messageId w.env data ∉ p.writer.duplicateCache
  | _ => True

instance decidableAccepted (w : World) (p : Pair) : (m : Move) → Decidable (p.Accepted w m)
  | .turn .writer t =>
      inferInstanceAs (Decidable (∀ data ∈ p.writer.loop.nextMessage w.writer.sha t, _))
  | .turn .receiver _ => .isTrue trivial
  | .copy _ _ _ => .isTrue trivial
  | .apply _ _ => .isTrue trivial
  | .notice _ _ _ _ => .isTrue trivial
  | .expire _ _ => .isTrue trivial

end Pair

/-! ### Messages on their way -/

/-- The messages a content is published as. -/
def wireOf (sha : Sha256) (r : ClipboardContent × Uuid) : List Bytes :=
  (wireMessages sha r).getD []

/-- The names of the messages of the texts copied tell them apart. -/
def Collisionless (w : World) (moves : List Move) : Prop :=
  Set.InjOn (messageId w.env) {data | ∃ text uuid, text ∈ moves.filterMap Move.text ∧
    data ∈ wireOf w.writer.sha (.text text, uuid)}

/-- The messages on their way to a receiver, and the contents they will amount to.  At
most one transfer has begun; all the others are still to come as a whole. -/
inductive Wired (sha : Sha256) (states : ChunkStates) :
    List Bytes → List ClipboardContent → Prop
  /-- No transfer has begun. -/
  | between (later : List (ClipboardContent × Uuid)) (hnone : ∀ id, states id = none)
      (hsizes : ∀ r ∈ later, Sendable r.1) :
      Wired sha states (later.flatMap (wireOf sha)) (later.map Prod.fst)
  /-- One transfer has to be completed first. -/
  | within (c : ClipboardContent) (uuid : Uuid) (m : NetworkMessage)
      (rest : List NetworkMessage) (later : List (ClipboardContent × Uuid))
      (hprogress : Progress sha c uuid states (m :: rest)) (hsize : Sendable c)
      (hothers : ∀ id, (Chunked c → uuid.text ≠ id) → states id = none)
      (hsizes : ∀ r ∈ later, Sendable r.1) :
      Wired sha states
        ((m :: rest).map NetworkMessage.codec.encode ++ later.flatMap (wireOf sha))
        (c :: later.map Prod.fst)

section Wired

variable {sha : Sha256} {states : ChunkStates} {wire : List Bytes}
  {contents : List ClipboardContent}

/-- A content that is sent joins the others. -/
theorem Wired.send (h : Wired sha states wire contents) (r : ClipboardContent × Uuid)
    (hr : Sendable r.1) : Wired sha states (wire ++ wireOf sha r) (contents ++ [r.1]) := by
  have hmem : ∀ later : List (ClipboardContent × Uuid), (∀ x ∈ later, Sendable x.1) →
      ∀ x ∈ later ++ [r], Sendable x.1 := by
    intro later hlater x hx
    rcases List.mem_append.mp hx with hx | hx
    · exact hlater x hx
    · obtain rfl := List.mem_singleton.mp hx
      exact hr
  cases h with
  | between later hnone hsizes =>
    have hnext : Wired sha states ((later ++ [r]).flatMap (wireOf sha))
        ((later ++ [r]).map Prod.fst) := .between _ hnone (hmem later hsizes)
    simpa using hnext
  | within c uuid m rest later hprogress hsize hothers hsizes =>
    simpa using Wired.within c uuid m rest (later ++ [r]) hprogress hsize hothers
      (hmem later hsizes)

/-- A split content is delivered in its own order. -/
theorem admissible_split {uuid : Uuid} {c : ClipboardContent} {msgs : List NetworkMessage}
    (hsplit : splitToNetworkMessages sha uuid c = some msgs) : Admissible msgs msgs := by
  by_cases hlarge : Chunked c
  · rw [splitToNetworkMessages_large rfl hlarge] at hsplit
    obtain rfl := Option.some.inj hsplit
    exact .inr ⟨_, _, _, _, rfl, rfl, fun _ => Iff.rfl⟩
  · rw [splitToNetworkMessages_small (Nat.not_lt.mp hlarge)] at hsplit
    obtain rfl := Option.some.inj hsplit
    exact .inl ⟨_, rfl, rfl⟩

/-- Every content has a first message. -/
theorem wireOf_eq_cons (sha : Sha256) (r : ClipboardContent × Uuid) :
    ∃ m rest, splitToNetworkMessages sha r.2 r.1 = some (m :: rest) ∧
      wireOf sha r = (m :: rest).map NetworkMessage.codec.encode := by
  obtain ⟨msgs, hsplit, hwire⟩ := wireMessages_eq_some sha r
  have hof : wireOf sha r = msgs.map NetworkMessage.codec.encode := by
    rw [wireOf, hwire, Option.getD_some]
  rcases admissible_split hsplit with ⟨m, rfl, -⟩ | ⟨first, middle, last, -, rfl, -, -⟩
  · exact ⟨m, [], hsplit, hof⟩
  · exact ⟨first, middle ++ [last], hsplit, hof⟩

/-- Nothing on its way amounts to nothing. -/
theorem Wired.contents_eq_nil (h : Wired sha states [] contents) : contents = [] := by
  generalize hwire : ([] : List Bytes) = wire at h
  cases h with
  | between later hnone hsizes =>
    cases later with
    | nil => rfl
    | cons r later =>
      obtain ⟨m, rest, -, hof⟩ := wireOf_eq_cons sha r
      rw [List.flatMap_cons, hof] at hwire
      exact absurd hwire (by simp)
  | within c uuid m rest later => exact absurd hwire (by simp)

/-- The next message belongs to a transfer that has begun, or begins one. -/
theorem Wired.next {data : Bytes} (h : Wired sha states (data :: wire) contents) :
    ∃ (c : ClipboardContent) (uuid : Uuid) (m : NetworkMessage) (rest : List NetworkMessage)
      (later : List (ClipboardContent × Uuid)), data = NetworkMessage.codec.encode m ∧
      wire = rest.map NetworkMessage.codec.encode ++ later.flatMap (wireOf sha) ∧
      contents = c :: later.map Prod.fst ∧ Progress sha c uuid states (m :: rest) ∧
      Sendable c ∧ (∀ id, (Chunked c → uuid.text ≠ id) → states id = none) ∧
      ∀ r ∈ later, Sendable r.1 := by
  generalize hwire : data :: wire = all at h
  cases h with
  | between later hnone hsizes =>
    cases later with
    | nil => exact absurd hwire (by simp)
    | cons r later =>
      obtain ⟨m, rest, hsplit, hof⟩ := wireOf_eq_cons sha r
      rw [List.flatMap_cons, hof, List.map_cons, List.cons_append] at hwire
      obtain ⟨hdata, hrest⟩ := List.cons.inj hwire
      exact ⟨r.1, r.2, m, rest, later, hdata, hrest, rfl,
        .of_admissible hsplit (fun _ => hnone _) (admissible_split hsplit),
        hsizes r List.mem_cons_self, fun id _ => hnone id,
        fun x hx => hsizes x (List.mem_cons_of_mem _ hx)⟩
  | within c uuid m rest later hprogress hsize hothers hsizes =>
    obtain ⟨hdata, hrest⟩ := List.cons.inj hwire
    exact ⟨c, uuid, m, rest, later, hdata, hrest, rfl, hprogress, hsize, hothers, hsizes⟩

/-- **Delivering the next message does not panic**, and the content it completes, if
any, is the next one. -/
theorem Wired.deliver {data : Bytes} (h : Wired sha states (data :: wire) contents)
    (build : Build) (now : ℕ) :
    ∃ out states' contents', handleIncomingMessage build sha now data states =
        .ok (out, states') ∧ contents = out.toList ++ contents' ∧
      Wired sha states' wire contents' := by
  obtain ⟨c, uuid, m, rest, later, rfl, rfl, rfl, hprogress, hsize, hothers, hsizes⟩ := h.next
  obtain ⟨hsafe, hout, hnext⟩ := progress_receive build now hsize hprogress
  set states' := (receive sha now states m).2 with hstates'
  have hstep : handleIncomingMessage build sha now (NetworkMessage.codec.encode m) states =
      .ok (if m.completes then some c else none, states') := by
    rw [handleIncomingMessage_of_message (NetworkMessage.fromBytes_encode
      (hprogress.fits hsize)), handleNetworkMessage_eq_ok hsafe, ← hout]
  -- entries of other transfers stay empty
  have hothers' : ∀ id, (Chunked c → uuid.text ≠ id) → states' id = none := by
    intro id hid
    rw [← hothers id hid]
    refine receive_of_ne fun heq => ?_
    rcases hprogress.transferId with hnone | ⟨hlarge, hsome⟩
    · rw [hnone] at heq
      exact absurd heq (by simp)
    · rw [hsome] at heq
      exact hid hlarge (Option.some.inj heq)
  have hcount := hprogress.countP_completes (by simp)
  rw [List.countP_cons] at hcount
  cases rest with
  | nil =>
    -- the last message of its transfer
    have hcompletes : m.completes = true := by
      by_contra hnot
      simp [hnot] at hcount
    refine ⟨_, states', later.map Prod.fst, hstep, by simp [hcompletes], ?_⟩
    refine .between later (fun id => ?_) hsizes
    by_cases hid : Chunked c → uuid.text ≠ id
    · exact hothers' id hid
    · push Not at hid
      obtain ⟨hlarge, rfl⟩ := hid
      exact hnext.eq_none hlarge
  | cons m' rest =>
    have hcompletes : m.completes = false := by
      have hrest := hnext.countP_completes (by simp)
      by_contra hnot
      rw [Bool.not_eq_false] at hnot
      simp [hrest, hnot] at hcount
    refine ⟨_, states', c :: later.map Prod.fst, hstep, by simp [hcompletes], ?_⟩
    exact .within c uuid m' rest later hnext hsize hothers' hsizes

end Wired

/-! ### The invariant -/

/-- What a clipboard holds after some texts were put on it. -/
def heldAfter (v : ClipboardValue) (texts : List String) : ClipboardValue :=
  texts.foldl (fun _ t => .text t) v

@[simp] theorem heldAfter_concat (v : ClipboardValue) (texts : List String) (t : String) :
    heldAfter v (texts ++ [t]) = .text t := by
  rw [heldAfter, List.foldl_append]
  rfl

/-- The texts that have still to reach the receiver's clipboard, the oldest first: those
waiting for the proxy, those on their way, and those waiting for the writer's loop. -/
structure Pipeline (w : World) (p : Pair) (waiting sent queued : List String) : Prop where
  toClipboard : p.receiver.toClipboard = waiting.map .text
  wired : Wired w.writer.sha p.receiver.loop.chunkStates
    (p.receiver.inbox ++ p.writer.loop.pendingChunks) (sent.map .text)
  enqueued : p.writer.desktop.enqueued.map Prod.fst = queued.map .text
  sendable : ∀ t ∈ queued, Sendable (.text t)

/-- **The invariant.**  The receiver will hold the text copied last, which is the one
the writer's monitor knows; and nothing goes the other way. -/
structure Synced (w : World) (p : Pair) (last : Option String) : Prop where
  writer_inbox : p.writer.inbox = []
  writer_toClipboard : p.writer.toClipboard = []
  writer_fromNetwork : p.writer.desktop.fromNetwork = false
  receiver_enqueued : p.receiver.desktop.enqueued = []
  receiver_pendingChunks : p.receiver.loop.pendingChunks = []
  /-- The receiver's monitor knows what the proxy wrote. -/
  receiver_noted : p.receiver.desktop.fromNetwork = true →
    Noted w.env p.receiver.desktop.dedup p.receiver.desktop.clipboard
  writer_lastText : p.writer.desktop.dedup.lastText = last
  /-- The last of the texts on their way is the last one copied. -/
  pipeline : ∃ waiting sent queued, Pipeline w p waiting sent queued ∧
    ∀ t, last = some t →
      heldAfter p.receiver.desktop.clipboard (waiting ++ (sent ++ queued)) = .text t

/-- Two idle nodes are in step. -/
theorem Synced.of_idle {w : World} {p : Pair} (h : p.Idle) : Synced w p none where
  writer_inbox := h.1.inbox
  writer_toClipboard := h.1.toClipboard
  writer_fromNetwork := h.1.fromNetwork
  receiver_enqueued := h.2.enqueued
  receiver_pendingChunks := h.2.pendingChunks
  receiver_noted := by simp [h.2.fromNetwork]
  writer_lastText := by rw [h.1.dedup]
  pipeline := by
    refine ⟨[], [], [], ⟨h.2.toClipboard, ?_, by simp [h.1.enqueued], by simp⟩, by simp⟩
    rw [h.2.inbox, h.1.pendingChunks]
    exact .between [] (fun _ => by rw [h.2.chunkStates]; rfl) (by simp)

/-- When everything has arrived, the receiver holds the text copied last. -/
theorem Synced.clipboard_eq {w : World} {p : Pair} {t : String} (h : Synced w p (some t))
    (hd : p.Drained) : p.receiver.desktop.clipboard = .text t := by
  obtain ⟨waiting, sent, queued, hp, hheld⟩ := h.pipeline
  have hwired := hp.wired
  rw [hd.inbox, hd.pendingChunks] at hwired
  obtain rfl : sent = [] := List.map_eq_nil_iff.mp hwired.contents_eq_nil
  obtain rfl : waiting = [] := List.map_eq_nil_iff.mp (hp.toClipboard.symm.trans hd.toClipboard)
  obtain rfl : queued = [] := by
    have henq := hp.enqueued
    rw [hd.enqueued] at henq
    exact List.map_eq_nil_iff.mp henq.symm
  exact hheld t rfl

/-! ### What each move does -/

namespace Node

variable {env : Env} {cfg : Config} {n : Node}

/-- **What an iteration does to a node.** -/
theorem turn_eq_some {t : Turn} {r : Node × List Bytes} (h : n.turn env cfg t = some r) :
    ∃ o, iteration cfg n.loop t = .ok o ∧ o.returned = false ∧
      (receivedOf o.effects).map Prod.fst <+: n.desktop.enqueued.map Prod.fst ∧
      (n.loop.takes t).toList <+: n.inbox ∧
      r = (n.advance t o).publishAll env (publishedOf o.effects) := by
  unfold turn at h
  cases ho : iteration cfg n.loop t with
  | error e => simp [ho] at h
  | ok o =>
    simp only [ho] at h
    split at h
    · case isTrue hcond => exact ⟨o, rfl, hcond.1, hcond.2.1, hcond.2.2, (Option.some.inj h).symm⟩
    · cases h

/-- A message that is not in the cache is accepted; of the node only the cache changes. -/
theorem publishAll_of_fresh {message : Option Bytes}
    (h : ∀ data ∈ message, messageId env data ∉ n.duplicateCache) :
    ∃ cache, n.publishAll env message.toList =
      ({ n with duplicateCache := cache }, message.toList) := by
  cases message with
  | none => exact ⟨n.duplicateCache, rfl⟩
  | some data =>
    have hdata := h data rfl
    exact ⟨messageId env data :: n.duplicateCache, by simp [publishAll, publish, hdata]⟩

/-- **What copying a text does to a node**: it is enqueued, unless the monitor knows it. -/
theorem copy_eq (env : Env) (n : Node) (text : String) (view : FsView) (fuel : ℕ) :
    n.copy env text view fuel =
      some (if n.desktop.dedup.lastText = some text then
        { n with desktop := { n.desktop with clipboard := .text text, fromNetwork := false } }
      else
        { n with desktop := { n.desktop with
          clipboard := .text text
          fromNetwork := false
          dedup := ⟨some text, none, none⟩
          enqueued := n.desktop.enqueued ++
            (trySend n.room (some (.text text))).toList.map fun c => (c, false) } }) := by
  by_cases hknown : n.desktop.dedup.lastText = some text <;>
    simp [copy, Desktop.step, getClipboardContent, ClipboardValue.observe, hknown]

end Node

section Step

variable {w : World} {p p' : Pair} {last : Option String}

/-- A copied text goes to the end of the queue, or is already on its way. -/
theorem Synced.copy (h : Synced w p last) {text : String} {view : FsView} {fuel : ℕ}
    (hroom : p.writer.room = true) (hsize : Sendable (.text text))
    (hstep : p.step w (.copy text view fuel) = some p') : Synced w p' (some text) := by
  simp only [Pair.step, Node.copy_eq, Option.map_some] at hstep
  obtain rfl := Option.some.inj hstep
  by_cases hknown : p.writer.desktop.dedup.lastText = some text
  · -- the monitor skips the text, which was the last one copied already
    rw [if_pos hknown]
    obtain rfl : some text = last := hknown.symm.trans h.writer_lastText
    exact { h with
      writer_fromNetwork := rfl
      pipeline := by
        obtain ⟨waiting, sent, queued, hp, hheld⟩ := h.pipeline
        exact ⟨waiting, sent, queued, ⟨hp.toClipboard, hp.wired, hp.enqueued, hp.sendable⟩,
          hheld⟩ }
  · rw [if_neg hknown]
    refine { h with writer_fromNetwork := rfl, writer_lastText := rfl, pipeline := ?_ }
    obtain ⟨waiting, sent, queued, hp, -⟩ := h.pipeline
    refine ⟨waiting, sent, queued ++ [text], ⟨hp.toClipboard, hp.wired, ?_, ?_⟩, ?_⟩
    · simp [trySend, hroom, hp.enqueued]
    · intro t ht
      rcases List.mem_append.mp ht with ht | ht
      · exact hp.sendable t ht
      · obtain rfl := List.mem_singleton.mp ht
        exact hsize
    · rintro t ht
      obtain rfl := Option.some.inj ht
      rw [← List.append_assoc, ← List.append_assoc, heldAfter_concat]

/-- An iteration of the writer moves a message, or the messages of the next text, on. -/
theorem Synced.writerTurn (h : Synced w p last) {t : Turn}
    (hacc : p.Accepted w (.turn .writer t)) (hstep : p.step w (.turn .writer t) = some p') :
    Synced w p' last := by
  obtain ⟨r, hturn, rfl⟩ := Option.map_eq_some_iff.mp hstep
  obtain ⟨o, ho, hret, hrecv, htakes, rfl⟩ := Node.turn_eq_some hturn
  obtain ⟨cache, hpublish⟩ := Node.publishAll_of_fresh (n := p.writer.advance t o) hacc
  rw [publishedOf_iteration ho hret, hpublish, ← publishedOf_iteration ho hret]
  -- nothing is delivered to the writer
  have htakes' : p.writer.loop.takes t = none := by
    rw [h.writer_inbox, List.prefix_nil] at htakes
    exact Option.toList_eq_nil_iff.mp htakes
  have hover : handedOver o.effects = [] := by
    rcases iteration_inbound ho with ⟨data, content, hsome, -⟩ | ⟨-, -, hover⟩
    · rw [htakes'] at hsome
      cases hsome
    · exact hover
  refine { h with
    writer_inbox := by simp [Node.advance, h.writer_inbox]
    writer_toClipboard := by simp [Node.advance, h.writer_toClipboard, hover]
    pipeline := ?_ }
  obtain ⟨waiting, sent, queued, hp, hheld⟩ := h.pipeline
  have hwired := hp.wired
  rcases iteration_queue ho hret with ⟨data, hpend, hnone, hpub⟩ |
      ⟨hpend, hnone, hpub, hpend'⟩ | ⟨hpend, r, wire, hsome, hwire, hpub, hpend'⟩
  · -- a pending message goes out
    refine ⟨waiting, sent, queued, ⟨hp.toClipboard, ?_, ?_, hp.sendable⟩, hheld⟩
    · simpa [Node.deliver, Node.advance, hpub, hpend] using hwired
    · simpa [Node.advance, hnone] using hp.enqueued
  · -- nothing is published
    refine ⟨waiting, sent, queued, ⟨hp.toClipboard, ?_, ?_, hp.sendable⟩, hheld⟩
    · simpa [Node.deliver, Node.advance, hpub, hpend, hpend'] using hwired
    · simpa [Node.advance, hnone] using hp.enqueued
  · -- the next text is split, and its first message goes out
    have henq := hp.enqueued
    rw [hsome] at hrecv
    cases queued with
    | nil =>
      rw [henq] at hrecv
      exact absurd hrecv (by simp)
    | cons text queued =>
      obtain ⟨rest, hrest⟩ := hrecv
      rw [henq, List.map_cons] at hrest
      obtain ⟨htext, -⟩ := List.cons.inj hrest
      have hsize : Sendable r.1 := htext ▸ hp.sendable text List.mem_cons_self
      have hof : wireOf w.writer.sha r = wire := by rw [wireOf, hwire, Option.getD_some]
      have hsplit : wire.head?.toList ++ wire.tail = wire := by cases wire <;> rfl
      refine ⟨waiting, sent ++ [text], queued, ⟨hp.toClipboard, ?_, ?_, ?_⟩, ?_⟩
      · have hnext := hwired.send r hsize
        rw [hpend, List.append_nil, hof, htext] at hnext
        simpa [Node.deliver, Node.advance, hpub, hpend', hsplit] using hnext
      · simp [Node.advance, hsome, henq]
      · exact fun t ht => hp.sendable t (List.mem_cons_of_mem _ ht)
      · simpa [Node.deliver] using hheld

/-- An iteration of the receiver moves at most one message on, and sends none. -/
theorem Synced.receiverTurn (h : Synced w p last) {t : Turn}
    (hstale : p.Undisturbed (.turn .receiver t))
    (hstep : p.step w (.turn .receiver t) = some p') : Synced w p' last := by
  obtain ⟨r, hturn, rfl⟩ := Option.map_eq_some_iff.mp hstep
  obtain ⟨o, ho, hret, hrecv, htakes, rfl⟩ := Node.turn_eq_some hturn
  -- the receiver has nothing to send
  have hnone : receivedOf o.effects = [] := by
    rw [h.receiver_enqueued, List.map_nil, List.prefix_nil] at hrecv
    exact List.map_eq_nil_iff.mp hrecv
  obtain ⟨hpub, hpend⟩ : publishedOf o.effects = [] ∧ o.state.pendingChunks = [] := by
    rcases iteration_queue ho hret with ⟨data, hcons, -⟩ | ⟨-, -, hpub, hpend⟩ |
        ⟨-, r, wire, hsome, -⟩
    · rw [h.receiver_pendingChunks] at hcons
      cases hcons
    · exact ⟨hpub, hpend⟩
    · rw [hnone] at hsome
      cases hsome
  rw [hpub]
  refine { h with
    writer_inbox := by simp [Node.deliver, Node.publishAll, h.writer_inbox]
    receiver_enqueued := by simp [Node.publishAll, Node.advance, h.receiver_enqueued]
    receiver_pendingChunks := hpend
    pipeline := ?_ }
  obtain ⟨waiting, sent, queued, hp, hheld⟩ := h.pipeline
  have hclean := cleanupStaleChunkStates_eq_self hstale
  rcases iteration_inbound ho with ⟨data, content, hsome, hcontent, hover⟩ |
      ⟨htakes', hstates, hover⟩
  · -- a message is delivered
    rw [hsome] at htakes
    obtain ⟨inbox, hinbox⟩ := htakes
    have hwired := hp.wired
    rw [← hinbox, Option.toList_some, List.singleton_append, List.cons_append] at hwired
    obtain ⟨out, states', contents', hout, hcontents, hwired'⟩ :=
      hwired.deliver w.receiver.build t.arrivalTime
    rw [hclean, w.sha_eq, hout] at hcontent
    obtain ⟨rfl, rfl⟩ := Prod.mk.inj (Except.ok.inj hcontent)
    -- the content it completes, if any, is the next text
    obtain ⟨done, left, rfl, hdone, rfl⟩ : ∃ done left, sent = done ++ left ∧
        out.toList = done.map ClipboardContent.text ∧ contents' = left.map .text := by
      obtain ⟨done, left, rfl, hdone, hleft⟩ := List.map_eq_append_iff.mp hcontents
      exact ⟨done, left, rfl, hdone.symm, hleft.symm⟩
    refine ⟨waiting ++ done, left, queued, ⟨?_, ?_, hp.enqueued, hp.sendable⟩, ?_⟩
    · simp [Node.publishAll, Node.advance, hover, hp.toClipboard, hdone]
    · simpa [Node.publishAll, Node.advance, Node.deliver, hsome, ← hinbox] using hwired'
    · simpa [Node.publishAll, Node.advance] using hheld
  · refine ⟨waiting, sent, queued, ⟨?_, ?_, hp.enqueued, hp.sendable⟩, hheld⟩
    · simp [Node.publishAll, Node.advance, hover, hp.toClipboard]
    · simpa [Node.publishAll, Node.advance, Node.deliver, htakes', hstates, hclean]
        using hp.wired

/-- The proxy puts the next text on the receiver's clipboard. -/
theorem Synced.apply (h : Synced w p last) {calls : ClipboardCalls}
    (hcalls : calls.opens = true ∧ ∀ text, calls.setText text = true)
    (hstep : p.step w (.apply .receiver calls) = some p') : Synced w p' last := by
  obtain ⟨n, happly, rfl⟩ := Option.map_eq_some_iff.mp hstep
  obtain ⟨waiting, sent, queued, hp, hheld⟩ := h.pipeline
  have hto := hp.toClipboard
  cases waiting with
  | nil => simp [Node.apply, hto] at happly
  | cons text waiting =>
    simp only [Node.apply, hto, List.map_cons, Desktop.step, setClipboardContent, hcalls,
      Option.map_some, Option.some_inj, Bool.true_eq_false, if_false, if_true] at happly
    obtain rfl := happly
    exact { h with
      receiver_noted := fun _ => rfl
      pipeline := ⟨waiting, sent, queued, ⟨rfl, hp.wired, hp.enqueued, hp.sendable⟩, hheld⟩ }

/-- The receiver's monitor knows the text and enqueues nothing. -/
theorem Synced.notice (h : Synced w p last) {view : FsView} {fuel : ℕ} {opens : Bool}
    (hstep : p.step w (.notice .receiver view fuel opens) = some p') : Synced w p' last := by
  obtain ⟨n, hnotice, rfl⟩ := Option.map_eq_some_iff.mp hstep
  unfold Node.notice at hnotice
  split at hnotice
  · case isTrue hnet =>
    have hskip : getClipboardContent w.env view fuel p.receiver.room
        (p.receiver.desktop.clipboard.observe opens) p.receiver.desktop.dedup =
          some (none, p.receiver.desktop.dedup) :=
      getClipboardContent_of_noted (h.receiver_noted hnet)
    simp only [Desktop.step, hskip, Option.map_some, Option.some_inj, Option.toList_none,
      List.map_nil, List.append_nil] at hnotice
    obtain rfl := hnotice
    exact h
  · cases hnotice

/-- The invariant does not mention the caches. -/
theorem Synced.expire (h : Synced w p last) {side : Side} {id : MessageId}
    (hstep : p.step w (.expire side id) = some p') : Synced w p' last := by
  obtain ⟨waiting, sent, queued, hp, hheld⟩ := h.pipeline
  cases side with
  | writer =>
    obtain rfl := Option.some.inj hstep
    exact { h with pipeline := ⟨waiting, sent, queued, { hp with }, hheld⟩ }
  | receiver =>
    obtain rfl := Option.some.inj hstep
    exact { h with pipeline := ⟨waiting, sent, queued, { hp with }, hheld⟩ }

/-- **One move keeps the pipeline in step with what was copied.** -/
theorem Synced.step (h : Synced w p last) {m : Move} (hm : p.Undisturbed m)
    (hacc : p.Accepted w m) (hstep : p.step w m = some p') :
    Synced w p' (m.text.or last) := by
  cases m with
  | copy text view fuel => exact h.copy hm.1 hm.2 hstep
  | turn side t =>
    cases side with
    | writer => exact h.writerTurn hacc hstep
    | receiver => exact h.receiverTurn hm hstep
  | apply side calls =>
    cases side with
    | writer => simp [Pair.step, Node.apply, h.writer_toClipboard] at hstep
    | receiver => exact h.apply hm hstep
  | notice side view fuel opens =>
    cases side with
    | writer => simp [Pair.step, Node.notice, h.writer_fromNetwork] at hstep
    | receiver => exact h.notice hstep
  | expire side id => exact h.expire hstep

/-- The receiver does not panic on the next message. -/
theorem Synced.iteration_ok (h : Synced w p last) {t : Turn} {data : Bytes}
    (hstale : p.Undisturbed (.turn .receiver t)) (htakes : p.receiver.loop.takes t = some data)
    (hinbox : p.receiver.inbox.head? = some data) :
    ∃ o, iteration w.receiver p.receiver.loop t = .ok o := by
  obtain ⟨waiting, sent, queued, hp, -⟩ := h.pipeline
  obtain ⟨rest, hrest⟩ := List.head?_eq_some_iff.mp hinbox
  have hwired := hp.wired
  rw [hrest, List.cons_append] at hwired
  obtain ⟨out, states', -, hout, -, -⟩ := hwired.deliver w.receiver.build t.arrivalTime
  rw [← cleanupStaleChunkStates_eq_self hstale, ← w.sha_eq] at hout
  exact iteration_of_takes htakes hout

/-! ### Runs -/

theorem foldl_text_or (moves : List Move) (last : Option String) :
    moves.foldl (fun last m => m.text.or last) last = (lastCopied moves).or last := by
  induction moves generalizing last with
  | nil => rfl
  | cons m moves ih =>
    rw [List.foldl_cons, ih]
    cases hm : m.text with
    | none => simp [lastCopied, hm]
    | some t =>
      cases hl : (moves.filterMap Move.text).getLast? <;>
        simp [lastCopied, hm, hl, List.getLast?_cons]

/-- **A run keeps the pipeline in step with what was copied.** -/
theorem Synced.run {moves : List Move} (h : Synced w p last)
    (hcond : Runs.Along (Pair.step w) (fun p m => p.Undisturbed m ∧ p.Accepted w m) p moves)
    (hrun : p.run w moves = some p') : Synced w p' ((lastCopied moves).or last) := by
  rw [← foldl_text_or]
  refine Runs.run_recorded (I := fun last p => Synced w p last) _ ?_ h hcond hrun
  intro last p m p' hsynced hm hstep
  exact hsynced.step hm.1 hm.2 hstep

end Step

/-- **The receiver ends up with the text copied last.**  Take any run of two idle nodes
in which nothing disturbs them and every message is accepted.  When everything has
arrived, the text copied last is on the receiver's clipboard; and as long as something
has not, the receiver does not panic on it. -/
theorem receiver_converges (w : World) (p₀ p : Pair) (moves : List Move) (hidle : p₀.Idle)
    (hcond : Runs.Along (Pair.step w) (fun p m => p.Undisturbed m ∧ p.Accepted w m) p₀ moves)
    (hrun : p₀.run w moves = some p) :
    (p.Drained → ∀ text, lastCopied moves = some text →
      p.receiver.desktop.clipboard = .text text) ∧
    ∀ t data, p.Undisturbed (.turn .receiver t) → p.receiver.loop.takes t = some data →
      p.receiver.inbox.head? = some data →
        ∃ o, iteration w.receiver p.receiver.loop t = .ok o := by
  have hsynced : Synced w p (lastCopied moves) := by
    simpa using (Synced.of_idle hidle).run hcond hrun
  refine ⟨?_, fun t data hstale htakes hinbox => hsynced.iteration_ok hstale htakes hinbox⟩
  intro hdrained text htext
  rw [htext] at hsynced
  exact hsynced.clipboard_eq hdrained

/-! ### Copying a text again -/

private theorem decode_encode_none {rgba png : Bytes} {width height : UInt32}
    (h : (none : Option Bytes) = some png) :
    (none : Option (ℕ × ℕ × Bytes)) = some (width.toNat, height.toNat, rgba) :=
  absurd h (by simp)

/-- Libraries that know no image, with a hash that adds up the bytes. -/
private def textEnv : Env where
  finish bs := bs.foldl (fun h b => 31 * h + b.toUInt64) 7
  png := ⟨fun _ _ _ => none, fun _ => none, decode_encode_none⟩

private def textWorld : World :=
  ⟨textEnv, ⟨.checked, default, ⟨[1]⟩, none⟩, ⟨.checked, default, ⟨[2]⟩, none⟩, rfl⟩

private def idleNode : Node :=
  ⟨⟨.empty, false, {}, FileSystem.ofDirs [], []⟩, LoopState.initial 0, [], [], []⟩

private theorem idleNode_idle : idleNode.Idle := ⟨rfl, rfl, rfl, rfl, rfl, rfl, rfl⟩

private def textUuid : Uuid := ⟨"00000000-0000-4000-8000-000000000001", by decide⟩

private def noFiles : FsView := ⟨fun _ => false, fun _ => false, fun _ => none, fun _ => none⟩

/-- An iteration at time zero. -/
private def turnFor (wakeup : Wakeup) : Turn := ⟨0, 0, 0, 0, {}, wakeup⟩

/-- A text is copied and published. -/
private def sendMoves (text : String) : List Move :=
  [.copy text noFiles 0, .turn .writer (turnFor (.received (.text text) textUuid))]

/-- A short text is delivered and applied. -/
private def receiveMoves (text : String) : List Move :=
  [.turn .receiver (turnFor (.swarm (.gossipMessage
      (NetworkMessage.codec.encode (.direct (.text text)))))),
    .apply .receiver {}]

/-- A run ends with everything arrived and a text on the receiver's clipboard. -/
private theorem exists_drained (moves : List Move) (text : String)
    (h : (Pair.run textWorld ⟨idleNode, idleNode⟩ moves).any (fun p =>
        p.receiver.desktop.clipboard = .text text && p.writer.desktop.enqueued.isEmpty &&
          p.writer.loop.pendingChunks.isEmpty && p.receiver.inbox.isEmpty &&
          p.receiver.toClipboard.isEmpty) = true) :
    ∃ p, Pair.run textWorld ⟨idleNode, idleNode⟩ moves = some p ∧ p.Drained ∧
      p.receiver.desktop.clipboard = .text text := by
  obtain ⟨p, hrun, hp⟩ := (Option.any_eq_true _ _).mp h
  simp only [Bool.and_eq_true, decide_eq_true_eq, List.isEmpty_iff] at hp
  obtain ⟨⟨⟨⟨hclip, henq⟩, hpend⟩, hinbox⟩, hto⟩ := hp
  exact ⟨p, hrun, ⟨henq, hpend, hinbox, hto⟩, hclip⟩

/-- Every move of these is undisturbed if there is room in the channel. -/
private theorem undisturbed_of_room {text : String} (hsize : Sendable (.text text)) {p : Pair}
    (hroom : p.writer.room = true) {m : Move} (hm : m ∈ sendMoves text ++ receiveMoves text) :
    p.Undisturbed m := by
  simp only [sendMoves, receiveMoves, List.cons_append, List.nil_append, List.mem_cons,
    List.not_mem_nil, or_false] at hm
  rcases hm with rfl | rfl | rfl | rfl
  · exact ⟨hroom, hsize⟩
  · exact trivial
  · intro id state _
    simp [ChunkReceiveState.Stale, turnFor]
  · exact ⟨rfl, fun _ => rfl⟩

private theorem sendable_sample : ∀ text ∈ ["a", "b"], Sendable (.text text) := by
  unfold Sendable
  decide +kernel

/-- Two texts are copied before either arrives. -/
private def twoMoves : List Move :=
  sendMoves "a" ++ (sendMoves "b" ++ (receiveMoves "a" ++ receiveMoves "b"))

private theorem mem_twoMoves {m : Move} (hm : m ∈ twoMoves) :
    ∃ text ∈ ["a", "b"], m ∈ sendMoves text ++ receiveMoves text := by
  simp only [twoMoves, List.mem_append] at hm
  rcases hm with hm | hm | hm | hm
  · exact ⟨"a", by simp, List.mem_append_left _ hm⟩
  · exact ⟨"b", by simp, List.mem_append_left _ hm⟩
  · exact ⟨"a", by simp, List.mem_append_right _ hm⟩
  · exact ⟨"b", by simp, List.mem_append_right _ hm⟩

/-- Two texts that are copied one after the other arrive, and the second is the last. -/
theorem receiver_converges_text :
    ∃ p, Pair.run textWorld ⟨idleNode, idleNode⟩ twoMoves = some p ∧
      p.Drained ∧ p.receiver.desktop.clipboard = .text "b" := by
  have hcond : Runs.Along (Pair.step textWorld)
      (fun p m => p.Undisturbed m ∧ p.Accepted textWorld m) ⟨idleNode, idleNode⟩ twoMoves := by
    have hdec : Runs.Along (Pair.step textWorld)
        (fun p m => p.writer.room = true ∧ p.Accepted textWorld m) ⟨idleNode, idleNode⟩
        twoMoves := by decide +kernel
    refine hdec.imp fun p m hm hc => ⟨?_, hc.2⟩
    obtain ⟨text, htext, hm⟩ := mem_twoMoves hm
    exact undisturbed_of_room (sendable_sample text htext) hc.1 hm
  obtain ⟨p, hrun, hdrained, -⟩ := exists_drained twoMoves "b" (by decide +kernel)
  exact ⟨p, hrun, hdrained, (receiver_converges textWorld _ p _
    ⟨idleNode_idle, idleNode_idle⟩ hcond hrun).1 hdrained "b" rfl⟩

/-- The first text is copied again right after the second. -/
private def againMoves : List Move :=
  sendMoves "a" ++ (sendMoves "b" ++ (sendMoves "a" ++ (receiveMoves "a" ++ receiveMoves "b")))

private theorem mem_againMoves {m : Move} (hm : m ∈ againMoves) :
    ∃ text ∈ ["a", "b"], m ∈ sendMoves text ++ receiveMoves text := by
  simp only [againMoves, List.mem_append] at hm
  rcases hm with hm | hm | hm | hm | hm
  · exact ⟨"a", by simp, List.mem_append_left _ hm⟩
  · exact ⟨"b", by simp, List.mem_append_left _ hm⟩
  · exact ⟨"a", by simp, List.mem_append_left _ hm⟩
  · exact ⟨"a", by simp, List.mem_append_right _ hm⟩
  · exact ⟨"b", by simp, List.mem_append_right _ hm⟩

private theorem collisionless_againMoves : Collisionless textWorld againMoves := by
  have hwire : ∀ text ∈ ["a", "b", "a"], ∀ uuid, wireOf textWorld.writer.sha (.text text, uuid) =
      [NetworkMessage.codec.encode (.direct (.text text))] := by
    intro text htext uuid
    have hsmall : (ClipboardContent.codec.encode (.text text)).length ≤ chunkDataSize := by
      revert text
      decide +kernel
    have hsplit : splitToNetworkMessages textWorld.writer.sha uuid (.text text) =
        some [.direct (.text text)] := splitToNetworkMessages_small hsmall
    simp [wireOf, wireMessages, hsplit, NetworkMessage.toBytes]
  have hid : ∀ t ∈ ["a", "b", "a"], ∀ u ∈ ["a", "b", "a"],
      messageId textEnv (NetworkMessage.codec.encode (.direct (.text t))) =
        messageId textEnv (NetworkMessage.codec.encode (.direct (.text u))) → t = u := by
    decide +kernel
  rintro data ⟨t, uuid, ht, hdata⟩ data' ⟨u, uuid', hu, hdata'⟩ heq
  rw [hwire t ht, List.mem_singleton] at hdata
  rw [hwire u hu, List.mem_singleton] at hdata'
  subst hdata hdata'
  rw [hid t ht u hu heq]

/-- **A text that is copied again is lost**: its message is still in the duplicate cache,
and the receiver keeps the text copied in between. -/
theorem copied_again_is_lost :
    ¬ ∀ (w : World) (p₀ p : Pair) (moves : List Move) (text : String), p₀.Idle →
      Collisionless w moves → (moves.filterMap Move.text).IsChain (· ≠ ·) →
      Runs.Along (Pair.step w) (fun p m => p.Undisturbed m) p₀ moves → p₀.run w moves = some p →
      p.Drained → lastCopied moves = some text → p.receiver.desktop.clipboard = .text text := by
  intro hall
  have hcond : Runs.Along (Pair.step textWorld) (fun p m => p.Undisturbed m) ⟨idleNode, idleNode⟩
      againMoves := by
    have hdec : Runs.Along (Pair.step textWorld) (fun p _ => p.writer.room = true)
        ⟨idleNode, idleNode⟩ againMoves := by decide +kernel
    refine hdec.imp fun p m hm hroom => ?_
    obtain ⟨text, htext, hm⟩ := mem_againMoves hm
    exact undisturbed_of_room (sendable_sample text htext) hroom hm
  obtain ⟨p, hrun, hdrained, hclip⟩ := exists_drained againMoves "b" (by decide +kernel)
  have hlast := hall textWorld _ p againMoves "a" ⟨idleNode_idle, idleNode_idle⟩
    collisionless_againMoves (by decide) hcond hrun hdrained rfl
  rw [hclip] at hlast
  exact absurd hlast (by decide)

end P2pClipboard
