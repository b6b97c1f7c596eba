import P2pClipboard.Convergence
import P2pClipboard.Suppression
import P2pClipboard.Transmit

/-!
# Any number of nodes

Nodes share their clipboards over gossipsub.  Each has a monitor, a proxy and a loop, and
their steps come in any order.  A read of the clipboard by the monitor is a single step, and
so is the application of a content by the proxy: the two calls of a node do not overlap
(`Interleaving` is about those that do).  Gossipsub may refuse a message, and may deliver
one that it accepted to any other node, at any time, again and again, or never.  A node may
be started again at any time; it then keeps its clipboard and its files, and nothing else.

A chunked transfer can be put together from the pieces of several, in any order, but what
comes out of it has the hash that was announced.  So as long as nobody finds two byte
strings with one hash, a node gets what another one sent, or nothing.

## Main definitions

* `MeshNode`, `Mesh`, `MeshAction`, `Mesh.step` — the nodes and what can happen.
* `Mesh.Unbroken` — no two byte strings with one hash are met.
* `Mesh.Calm` — no images, no restarts, and clipboards that take texts.
* `Mesh.Sound`, `Mesh.Silent` — the invariants.

## Main results

* `mesh_delivers_sent` — **what a node is handed was sent by another one.**
* `mesh_no_storm` — **a node sends what its user has copied, each copy once at most**, and
  nothing that came from the network.
-/

namespace P2pClipboard

/-! ### The nodes -/

/-- A node.  The channel from its monitor to its loop is the list of contents its desktop
has enqueued. -/
structure MeshNode where
  /-- The clipboard side. -/
  desktop : Desktop
  /-- The network side. -/
  loop : LoopState
  /-- The channel from the loop to the proxy. -/
  toClipboard : List ClipboardContent := []
  /-- For the record only: the contents the loop has read from its channel. -/
  sent : List ClipboardContent := []
  /-- For the record only: the contents the loop has handed to the proxy. -/
  delivered : List ClipboardContent := []
  /-- For the record only: what the user has copied, with what was on the clipboard at the
  start. -/
  copied : List ClipboardValue := []

namespace MeshNode

/-- The channel to the loop has room. -/
def room (n : MeshNode) : Bool := decide (n.desktop.enqueued.length < channelCapacity)

/-- A node that was just started, with what it finds on the clipboard and on the disk. -/
def start (clipboard : ClipboardValue) (fs : FileSystem Bytes) (t : ℕ) : MeshNode :=
  ⟨⟨clipboard, false, {}, fs, []⟩, .initial t, [], [], [],
    if clipboard = .empty then [] else [clipboard]⟩

/-- A node that is started again, by the loop of `main` or by its user. -/
def restart (n : MeshNode) (t : ℕ) : MeshNode :=
  { n with
    desktop := { n.desktop with dedup := {}, enqueued := [] }
    loop := .initial t
    toClipboard := [] }

/-- The node after an iteration that goes on. -/
def advance (n : MeshNode) (o : Outcome) : MeshNode :=
  { n with
    desktop := { n.desktop with
      enqueued := n.desktop.enqueued.drop (receivedOf o.effects).length }
    loop := o.state
    toClipboard := n.toClipboard ++ handedOver o.effects
    sent := n.sent ++ (receivedOf o.effects).map Prod.fst
    delivered := n.delivered ++ handedOver o.effects }

end MeshNode

/-- The nodes, and every message that gossipsub accepted from one of them. -/
structure Mesh (ι : Type) where
  nodes : ι → MeshNode
  air : List (ι × Bytes) := []

/-- What the nodes are started with. -/
structure MeshSetup (ι : Type) where
  /-- The libraries. -/
  env : Env
  /-- The hash function of the transfers. -/
  sha : Sha256
  config : ι → Config
  /-- It is the same everywhere. -/
  sha_eq : ∀ i, (config i).sha = sha

/-- What can happen next. -/
inductive MeshAction (ι : Type)
  /-- A user copies something. -/
  | copy (i : ι) (v : ClipboardValue)
  /-- A monitor reads the clipboard. -/
  | notice (i : ι) (view : FsView) (fuel : ℕ) (opens : Bool)
  /-- A loop makes an iteration, and gossipsub accepts some of what it publishes. -/
  | turn (i : ι) (t : Turn) (accepted : Bytes → Bool)
  /-- A proxy applies a content. -/
  | apply (i : ι) (calls : ClipboardCalls)
  /-- A node is started again. -/
  | restart (i : ι) (t : ℕ)

namespace Mesh

variable {ι : Type} [DecidableEq ι]

/-- The messages other nodes have published. -/
def inbox (m : Mesh ι) (i : ι) : List Bytes := (m.air.filter fun p => p.1 ≠ i).map Prod.snd

/-- One node changes. -/
def set (m : Mesh ι) (i : ι) (n : MeshNode) : Mesh ι :=
  { m with nodes := Function.update m.nodes i n }

/-- An iteration.  It reads from its channel and from the messages of others, and waits for
room in the channel to the proxy.  There is no next state after a panic: the process is
gone.  When the loop returns, `main` starts the node again. -/
def turn (w : MeshSetup ι) (m : Mesh ι) (i : ι) (t : Turn) (accepted : Bytes → Bool) :
    Option (Mesh ι) :=
  let n := m.nodes i
  match iteration (w.config i) n.loop t with
  | .error _ => none
  | .ok o =>
      if (receivedOf o.effects).map Prod.fst <+: n.desktop.enqueued.map Prod.fst ∧
          (n.loop.takes t).toList ⊆ m.inbox i ∧
          (handedOver o.effects = [] ∨ n.toClipboard.length < channelCapacity) then
        if o.returned then some (m.set i (n.restart t.storedTime))
        else
          some { m.set i (n.advance o) with
            air := m.air ++ ((publishedOf o.effects).filter accepted).map fun data => (i, data) }
      else none

/-- One step.  A call of `get_clipboard_content` or of `set_clipboard_content` is made as a
whole. -/
def step (w : MeshSetup ι) (m : Mesh ι) : MeshAction ι → Option (Mesh ι)
  | .copy i v =>
      let n := m.nodes i
      (n.desktop.step w.env (.copy v)).map fun d =>
        m.set i { n with desktop := d, copied := n.copied ++ [v] }
  | .notice i view fuel opens =>
      let n := m.nodes i
      (n.desktop.step w.env (.notice view fuel n.room opens)).map fun d =>
        m.set i { n with desktop := d }
  | .turn i t accepted => m.turn w i t accepted
  | .apply i calls =>
      let n := m.nodes i
      match n.toClipboard with
      | [] => none
      | c :: rest =>
          (n.desktop.step w.env (.apply calls c)).map fun d =>
            m.set i { n with desktop := d, toClipboard := rest }
  | .restart i t => some (m.set i ((m.nodes i).restart t))

/-- Nodes that were just started. -/
def start (clipboards : ι → ClipboardValue) (disks : ι → FileSystem Bytes) (times : ι → ℕ) :
    Mesh ι :=
  ⟨fun i => .start (clipboards i) (disks i) (times i), []⟩

@[simp] theorem set_nodes_self (m : Mesh ι) (i : ι) (n : MeshNode) : (m.set i n).nodes i = n := by
  simp [set]

theorem set_nodes_of_ne (m : Mesh ι) {i j : ι} (n : MeshNode) (h : j ≠ i) :
    (m.set i n).nodes j = m.nodes j := by
  simp [set, h]

@[simp] theorem set_air (m : Mesh ι) (i : ι) (n : MeshNode) : (m.set i n).air = m.air := rfl

theorem mem_inbox {m : Mesh ι} {i : ι} {data : Bytes} :
    data ∈ m.inbox i ↔ ∃ j ≠ i, (j, data) ∈ m.air := by
  simp only [inbox, List.mem_map, List.mem_filter, decide_eq_true_eq, Prod.exists]
  constructor
  · rintro ⟨j, _, ⟨hmem, hne⟩, rfl⟩
    exact ⟨j, hne, hmem⟩
  · rintro ⟨j, hne, hmem⟩
    exact ⟨j, data, ⟨hmem, hne⟩, rfl⟩

end Mesh

/-! ### What a message says -/

/-- A message that announces nothing but a given content. -/
def NetworkMessage.Announces (sha : Sha256) (c : ClipboardContent) : NetworkMessage → Prop
  | .direct content => content = c
  | .chunkStart _ _ dataHash _ => dataHash = sha.hex (rawOf c)
  | .chunk _ _ _ => True
  | .chunkEnd _ => True

/-- A message that is short has short parts. -/
theorem NetworkMessage.fits_of_length_encode {m : NetworkMessage} {bound : ℕ}
    (h : (codec.encode m).length < bound) : m.Fits bound := by
  cases m with
  | direct content =>
    rw [length_encode_direct] at h
    exact ClipboardContent.fits_of_length_encode (by omega)
  | chunkStart transferId totalChunks dataHash totalSize =>
    rw [length_encode_chunkStart] at h
    constructor <;> omega
  | chunk transferId index data =>
    rw [length_encode_chunk] at h
    constructor <;> omega
  | chunkEnd transferId =>
    rw [length_encode_chunkEnd] at h
    show transferId.utf8ByteSize < bound
    omega

section Messages

variable {sha : Sha256} {c : ClipboardContent} {uuid : Uuid} {data : Bytes}

/-- **Every message of a content is understood**, and announces that content. -/
theorem exists_message_of_mem_wireOf (h : data ∈ wireOf sha (c, uuid)) :
    ∃ msg, NetworkMessage.fromBytes data = some msg ∧ msg.Announces sha c := by
  obtain ⟨messages, hsplit, hwire⟩ := wireMessages_eq_some sha (c, uuid)
  rw [wireOf, hwire, Option.getD_some] at h
  obtain ⟨msg, hmsg, rfl⟩ := List.mem_map.mp h
  have hlength := length_encode_of_mem_split hsplit hmsg
  have hsize : chunkDataSize = 1500000 := rfl
  refine ⟨msg, NetworkMessage.fromBytes_encode (NetworkMessage.fits_of_length_encode ?_), ?_⟩
  · omega
  · by_cases hlarge : Chunked c
    · rw [splitToNetworkMessages_large rfl hlarge] at hsplit
      obtain rfl := Option.some.inj hsplit
      rcases List.mem_cons.mp hmsg with rfl | hmsg
      · exact rfl
      · rcases List.mem_append.mp hmsg with hmsg | hmsg
        · obtain ⟨i, chunk, -, rfl⟩ := mem_chunkMessages.mp hmsg
          exact trivial
        · obtain rfl := List.mem_singleton.mp hmsg
          exact trivial
    · rw [splitToNetworkMessages_small (Nat.not_lt.mp hlarge)] at hsplit
      obtain rfl := Option.some.inj hsplit
      obtain rfl := List.mem_singleton.mp hmsg
      exact rfl

variable {build : Build} {now : ℕ} {states states' : ChunkStates}
  {content : Option ClipboardContent} {msg : NetworkMessage}

/-- A message that is handled does not trip. -/
theorem receive_of_handleNetworkMessage {r : Option ClipboardContent × ChunkStates}
    (h : handleNetworkMessage build sha now states msg = .ok r) :
    receive sha now states msg = r := by
  by_cases htrips : Trips build states msg
  · obtain ⟨p, hp⟩ : ∃ p, handleNetworkMessage build sha now states msg = .error p :=
      handleNetworkMessage_eq_error htrips
    rw [hp] at h
    cases h
  · exact Except.ok.inj ((handleNetworkMessage_eq_ok htrips).symm.trans h)

/-- The transfers after a message were announced before, or by the message. -/
theorem announced_of_handleNetworkMessage (hannounces : msg.Announces sha c)
    (h : handleNetworkMessage build sha now states msg = .ok (content, states')) {id : String}
    {state : ChunkReceiveState} (hstate : states' id = some state) :
    state.dataHash = sha.hex (rawOf c) ∨
      ∃ before, states id = some before ∧ before.dataHash = state.dataHash := by
  obtain rfl : (receive sha now states msg).2 = states' :=
    congrArg Prod.snd (receive_of_handleNetworkMessage h)
  by_cases hid : msg.transferId? = some id
  · cases msg with
    | direct content => cases hid
    | chunkStart transferId totalChunks dataHash totalSize =>
      obtain rfl := Option.some.inj hid
      have hnew : some ⟨totalChunks, dataHash, totalSize, ∅, now⟩ = some state := by
        simpa [receive] using hstate
      obtain rfl := Option.some.inj hnew
      exact .inl hannounces
    | chunk transferId index data =>
      obtain rfl := Option.some.inj hid
      have hmap : (states transferId).map (fun state : ChunkReceiveState =>
          { state with received := state.received.insert index data }) = some state := by
        simpa [receive] using hstate
      obtain ⟨before, hbefore, rfl⟩ := Option.map_eq_some_iff.mp hmap
      exact .inr ⟨before, hbefore, rfl⟩
    | chunkEnd transferId =>
      obtain rfl := Option.some.inj hid
      simp [receive] at hstate
  · rw [receive_of_ne hid] at hstate
    exact .inr ⟨state, hstate, rfl⟩

/-- **What a message yields** is the content it announces, or has the hash announced for a
transfer in progress. -/
theorem yielded_of_handleNetworkMessage (hannounces : msg.Announces sha c)
    {content : ClipboardContent}
    (h : handleNetworkMessage build sha now states msg = .ok (some content, states')) :
    content = c ∨ ∃ id state fullData, states id = some state ∧
      assemble state.received state.totalChunks.toNat = some fullData ∧
      sha.hex fullData = state.dataHash ∧
      ClipboardContent.fromBytes fullData = some content := by
  have hyield : (receive sha now states msg).1 = some content :=
    congrArg Prod.fst (receive_of_handleNetworkMessage h)
  cases msg with
  | direct content' =>
    obtain rfl := Option.some.inj hyield
    exact .inl hannounces
  | chunkStart transferId totalChunks dataHash totalSize => cases hyield
  | chunk transferId index data => cases hyield
  | chunkEnd transferId =>
    obtain ⟨state, hstate, hcontent⟩ := Option.bind_eq_some_iff.mp hyield
    rw [ChunkReceiveState.content] at hcontent
    split at hcontent
    · obtain ⟨fullData, hfull, hbytes⟩ := Option.bind_eq_some_iff.mp hcontent
      split at hbytes
      · case isTrue hhash => exact .inr ⟨transferId, state, fullData, hstate, hfull, hhash, hbytes⟩
      · cases hbytes
    · cases hcontent

end Messages

/-! ### What a node is handed -/

namespace Mesh

variable {ι : Type}

/-- A content was sent by another node. -/
def SentByOther (m : Mesh ι) (i : ι) (c : ClipboardContent) : Prop :=
  ∃ j ≠ i, c ∈ (m.nodes j).sent

/-- A byte string is a message of a content a node has sent. -/
def Carries (sha : Sha256) (m : Mesh ι) (j : ι) (data : Bytes) : Prop :=
  ∃ c ∈ (m.nodes j).sent, ∃ uuid, data ∈ wireOf sha (c, uuid)

/-- No two byte strings with one hash are met: what a transfer in progress amounts to is what
was sent with this hash, if anything was.  And a content fits in memory. -/
def Unbroken (w : MeshSetup ι) (m : Mesh ι) : MeshAction ι → Prop
  | .turn i t _ =>
      (∀ id state fullData, (m.nodes i).loop.chunkStates id = some state →
        assemble state.received state.totalChunks.toNat = some fullData →
          ∀ j, ∀ c ∈ (m.nodes j).sent, w.sha.hex fullData = w.sha.hex (rawOf c) →
            fullData = rawOf c) ∧
        ∀ message uuid, t.wakeup = .received message uuid → (rawOf message).length < 2 ^ 64
  | _ => True

/-- What holds after any run. -/
structure Sound (w : MeshSetup ι) (m : Mesh ι) : Prop where
  /-- Contents fit in memory. -/
  small : ∀ j, ∀ c ∈ (m.nodes j).sent, (rawOf c).length < 2 ^ 64
  /-- What is published, or will be, is a message of a content that was sent. -/
  pending : ∀ j, ∀ data ∈ (m.nodes j).loop.pendingChunks, m.Carries w.sha j data
  air : ∀ p ∈ m.air, m.Carries w.sha p.1 p.2
  /-- A transfer was announced with the hash of a content that was sent. -/
  announced : ∀ i id state, (m.nodes i).loop.chunkStates id = some state →
    ∃ c, m.SentByOther i c ∧ state.dataHash = w.sha.hex (rawOf c)
  /-- What was handed over was sent. -/
  delivered : ∀ i, ∀ c ∈ (m.nodes i).delivered, m.SentByOther i c
  /-- What the proxy has still to apply was handed over. -/
  toClipboard : ∀ i, (m.nodes i).toClipboard ⊆ (m.nodes i).delivered

variable [DecidableEq ι] {w : MeshSetup ι} {m m' : Mesh ι} {i : ι} {n : MeshNode}

/-- What holds of the node that changes, and of all others, holds of all. -/
theorem forall_set {P : ι → MeshNode → Prop} (hnode : P i n) (hothers : ∀ j, P j (m.nodes j)) :
    ∀ j, P j ((m.set i n).nodes j) := by
  intro j
  by_cases hj : j = i
  · subst hj
    rwa [set_nodes_self]
  · rw [set_nodes_of_ne m n hj]
    exact hothers j

/-- What was sent stays sent. -/
theorem sent_subset_set (h : (m.nodes i).sent ⊆ n.sent) :
    ∀ j, (m.nodes j).sent ⊆ ((m.set i n).nodes j).sent :=
  forall_set (P := fun j n' => (m.nodes j).sent ⊆ n'.sent) h fun _ => List.Subset.refl _

omit [DecidableEq ι] in
theorem SentByOther.mono {c : ClipboardContent} (h : m.SentByOther i c)
    (hsent : ∀ j, (m.nodes j).sent ⊆ (m'.nodes j).sent) : m'.SentByOther i c := by
  obtain ⟨j, hne, hmem⟩ := h
  exact ⟨j, hne, hsent j hmem⟩

omit [DecidableEq ι] in
theorem Carries.mono {sha : Sha256} {j : ι} {data : Bytes} (h : m.Carries sha j data)
    (hsent : ∀ j, (m.nodes j).sent ⊆ (m'.nodes j).sent) : m'.Carries sha j data := by
  obtain ⟨c, hmem, uuid, hdata⟩ := h
  exact ⟨c, hsent j hmem, uuid, hdata⟩

/-- One node changes: what has to be shown of it. -/
theorem Sound.set (h : m.Sound w) (hsent : (m.nodes i).sent ⊆ n.sent)
    (hsmall : ∀ c ∈ n.sent, (rawOf c).length < 2 ^ 64)
    (hpending : ∀ data ∈ n.loop.pendingChunks, ∃ c ∈ n.sent, ∃ uuid, data ∈ wireOf w.sha (c, uuid))
    (hannounced : ∀ id state, n.loop.chunkStates id = some state →
      ∃ c, m.SentByOther i c ∧ state.dataHash = w.sha.hex (rawOf c))
    (hdelivered : ∀ c ∈ n.delivered, m.SentByOther i c)
    (htoClipboard : n.toClipboard ⊆ n.delivered) : (m.set i n).Sound w := by
  have hmono := sent_subset_set hsent
  have hmine : ∀ c ∈ n.sent, c ∈ ((m.set i n).nodes i).sent := by
    intro c hc
    rwa [set_nodes_self]
  constructor
  · exact forall_set (P := fun _ n' => ∀ c ∈ n'.sent, (rawOf c).length < 2 ^ 64) hsmall h.small
  · refine forall_set (P := fun j n' => ∀ data ∈ n'.loop.pendingChunks,
      (m.set i n).Carries w.sha j data) ?_ ?_
    · intro data hdata
      obtain ⟨c, hc, uuid, hwire⟩ := hpending data hdata
      exact ⟨c, hmine c hc, uuid, hwire⟩
    · intro j data hdata
      exact (h.pending j data hdata).mono hmono
  · intro p hp
    exact (h.air p hp).mono hmono
  · refine forall_set (P := fun j n' => ∀ id state, n'.loop.chunkStates id = some state →
      ∃ c, (m.set i n).SentByOther j c ∧ state.dataHash = w.sha.hex (rawOf c)) ?_ ?_
    · intro id state hstate
      obtain ⟨c, hc, hhash⟩ := hannounced id state hstate
      exact ⟨c, hc.mono hmono, hhash⟩
    · intro j id state hstate
      obtain ⟨c, hc, hhash⟩ := h.announced j id state hstate
      exact ⟨c, hc.mono hmono, hhash⟩
  · refine forall_set (P := fun j n' => ∀ c ∈ n'.delivered, (m.set i n).SentByOther j c) ?_ ?_
    · intro c hc
      exact (hdelivered c hc).mono hmono
    · intro j c hc
      exact (h.delivered j c hc).mono hmono
  · exact forall_set (P := fun _ n' => n'.toClipboard ⊆ n'.delivered) htoClipboard h.toClipboard

/-- A step on the clipboard side. -/
theorem Sound.set_desktop (h : m.Sound w) (hsent : n.sent = (m.nodes i).sent)
    (hloop : n.loop = (m.nodes i).loop) (hdelivered : n.delivered = (m.nodes i).delivered)
    (htoClipboard : n.toClipboard ⊆ (m.nodes i).toClipboard) : (m.set i n).Sound w := by
  apply h.set
  · rw [hsent]
    exact List.Subset.refl _
  · rw [hsent]
    exact h.small i
  · rw [hloop, hsent]
    exact h.pending i
  · rw [hloop]
    exact h.announced i
  · rw [hdelivered]
    exact h.delivered i
  · rw [hdelivered]
    exact List.Subset.trans htoClipboard (h.toClipboard i)

/-- A node that is started again has nothing in its hands. -/
theorem Sound.restart (h : m.Sound w) (t : ℕ) : (m.set i ((m.nodes i).restart t)).Sound w := by
  apply h.set
  · exact List.Subset.refl _
  · exact h.small i
  · intro data hdata
    exact absurd hdata List.not_mem_nil
  · intro id state hstate
    exact absurd hstate (by simp [MeshNode.restart, LoopState.initial, ChunkStates.empty])
  · exact h.delivered i
  · exact List.nil_subset _

omit [DecidableEq ι] in
/-- Gossipsub accepts messages of a node. -/
theorem Sound.publish (h : m.Sound w) {messages : List Bytes}
    (hmessages : ∀ data ∈ messages, m.Carries w.sha i data) :
    { m with air := m.air ++ messages.map fun data => (i, data) }.Sound w := by
  refine ⟨h.small, h.pending, ?_, h.announced, h.delivered, h.toClipboard⟩
  intro p hp
  rcases List.mem_append.mp hp with hp | hp
  · exact h.air p hp
  · obtain ⟨data, hdata, rfl⟩ := List.mem_map.mp hp
    exact hmessages data hdata

section Turn

variable {t : Turn} {o : Outcome}

omit [DecidableEq ι] in
/-- What an iteration reads from its channel is what it woke up for. -/
theorem wakeup_of_mem_receivedOf {cfg : Config} {s : LoopState} (h : iteration cfg s t = .ok o)
    {r : ClipboardContent × Uuid} (hr : r ∈ receivedOf o.effects) :
    t.wakeup = .received r.1 r.2 := by
  rcases iteration_cases h with ⟨data, rest, -, rfl⟩ | ⟨-, toPublish, s', effects, hwake, rfl⟩
  · rw [receivedOf_finishIteration] at hr
    exact absurd hr List.not_mem_nil
  · rw [receivedOf_finishIteration] at hr
    rcases handleWakeup_cases hwake with ⟨message, uuid, wire, hw, -, -, -, rfl⟩ |
        ⟨data, content, chunkStates, -, -, -, -, rfl⟩ | ⟨endpoints, calls, -, -, -, -, -, rfl⟩
    · obtain rfl := List.mem_singleton.mp hr
      exact hw
    · rw [receivedOf_calls] at hr
      exact absurd hr List.not_mem_nil
    · rw [receivedOf_calls] at hr
      exact absurd hr List.not_mem_nil

/-- **What an iteration takes in**: transfers announced by others, and contents they sent. -/
theorem Sound.inbound (h : m.Sound w) {accepted : Bytes → Bool}
    (hunbroken : m.Unbroken w (.turn i t accepted))
    (hiter : iteration (w.config i) (m.nodes i).loop t = .ok o)
    (htakes : ((m.nodes i).loop.takes t).toList ⊆ m.inbox i) :
    (∀ id state, o.state.chunkStates id = some state →
        ∃ c, m.SentByOther i c ∧ state.dataHash = w.sha.hex (rawOf c)) ∧
      ∀ c ∈ handedOver o.effects, m.SentByOther i c := by
  have hkept : ∀ id state, cleanupStaleChunkStates t.cleanupTime (m.nodes i).loop.chunkStates id =
      some state → (m.nodes i).loop.chunkStates id = some state := by
    intro id state hstate
    exact (Option.filter_eq_some_iff.mp hstate).1
  rcases iteration_inbound hiter with ⟨data, content, htaken, hhandle, hhanded⟩ |
      ⟨-, hstates, hhanded⟩
  · -- the message is one of another node, and announces a content of it
    have hair : data ∈ m.inbox i := htakes (by simp [htaken])
    obtain ⟨j, hne, hmem⟩ := mem_inbox.mp hair
    obtain ⟨c, hc, uuid, hdata⟩ := h.air _ hmem
    have hsent : m.SentByOther i c := ⟨j, hne, hc⟩
    obtain ⟨msg, hmsg, hannounces⟩ := exists_message_of_mem_wireOf hdata
    rw [handleIncomingMessage_of_message hmsg, w.sha_eq] at hhandle
    constructor
    · intro id state hstate
      rcases announced_of_handleNetworkMessage hannounces hhandle hstate with
        hhash | ⟨before, hbefore, hhash⟩
      · exact ⟨c, hsent, hhash⟩
      · obtain ⟨c', hsent', hhash'⟩ := h.announced i id before (hkept id before hbefore)
        exact ⟨c', hsent', hhash.symm.trans hhash'⟩
    · intro c' hc'
      rw [hhanded, Option.mem_toList] at hc'
      obtain rfl := hc'
      rcases yielded_of_handleNetworkMessage hannounces hhandle with
        rfl | ⟨id, state, fullData, hstate, hfull, hhash, hbytes⟩
      · exact hsent
      · -- one hash, so one byte string
        obtain ⟨c'', hsent'', hhash''⟩ := h.announced i id state (hkept id state hstate)
        obtain ⟨k, hk, hmem''⟩ := hsent''
        obtain rfl := hunbroken.1 id state fullData (hkept id state hstate) hfull k c'' hmem''
          (hhash.trans hhash'')
        have hfits : c''.Fits (2 ^ 64) :=
          ClipboardContent.fits_of_length_encode (h.small k c'' hmem'')
        obtain rfl := Option.some.inj ((ClipboardContent.fromBytes_encode hfits).symm.trans hbytes)
        exact ⟨k, hk, hmem''⟩
  · rw [hstates, hhanded]
    constructor
    · intro id state hstate
      exact h.announced i id state (hkept id state hstate)
    · intro c hc
      exact absurd hc List.not_mem_nil

omit [DecidableEq ι] in
/-- **What an iteration puts out**: messages of contents it has read. -/
theorem Sound.outbound (h : m.Sound w)
    (hiter : iteration (w.config i) (m.nodes i).loop t = .ok o) (hgoes : o.returned = false) :
    ∀ data ∈ publishedOf o.effects ++ o.state.pendingChunks,
      ∃ c ∈ (m.nodes i).sent ++ (receivedOf o.effects).map Prod.fst, ∃ uuid,
        data ∈ wireOf w.sha (c, uuid) := by
  have hold : ∀ data ∈ (m.nodes i).loop.pendingChunks,
      ∃ c ∈ (m.nodes i).sent ++ (receivedOf o.effects).map Prod.fst, ∃ uuid,
        data ∈ wireOf w.sha (c, uuid) := by
    intro data hdata
    obtain ⟨c, hc, hwire⟩ := h.pending i data hdata
    exact ⟨c, List.mem_append_left _ hc, hwire⟩
  rcases iteration_queue hiter hgoes with ⟨data, hpending, -, hpublished⟩ |
      ⟨-, -, hpublished, hrest⟩ | ⟨-, r, wire, hreceived, hwire, hpublished, hrest⟩
  · rw [hpublished]
    rw [hpending] at hold
    exact hold
  · rw [hpublished, hrest]
    intro data hdata
    exact absurd hdata List.not_mem_nil
  · intro data hdata
    have hsplit : publishedOf o.effects ++ o.state.pendingChunks = wire := by
      rw [hpublished, hrest]
      cases wire <;> rfl
    rw [hsplit] at hdata
    rw [w.sha_eq] at hwire
    refine ⟨r.1, List.mem_append_right _ (by simp [hreceived]), r.2, ?_⟩
    rw [wireOf, hwire]
    exact hdata

/-- An iteration. -/
theorem Sound.turn (h : m.Sound w) {accepted : Bytes → Bool}
    (hunbroken : m.Unbroken w (.turn i t accepted))
    (hstep : m.turn w i t accepted = some m') : m'.Sound w := by
  rw [Mesh.turn] at hstep
  cases hiter : iteration (w.config i) (m.nodes i).loop t with
  | error p => simp [hiter] at hstep
  | ok o =>
    simp only [hiter] at hstep
    obtain ⟨⟨-, htakes, -⟩, hstep⟩ := Option.ite_none_right_eq_some.mp hstep
    cases hreturned : o.returned with
    | true =>
      rw [hreturned] at hstep
      obtain rfl := Option.some.inj hstep
      exact h.restart t.storedTime
    | false =>
      rw [hreturned] at hstep
      obtain rfl := Option.some.inj hstep
      obtain ⟨hannounced, hhanded⟩ := h.inbound hunbroken hiter htakes
      have hout := h.outbound hiter hreturned
      have hset : (m.set i ((m.nodes i).advance o)).Sound w := by
        apply h.set
        · exact List.subset_append_left _ _
        · intro c hc
          rcases List.mem_append.mp hc with hc | hc
          · exact h.small i c hc
          · obtain ⟨r, hr, rfl⟩ := List.mem_map.mp hc
            exact hunbroken.2 r.1 r.2 (wakeup_of_mem_receivedOf hiter hr)
        · intro data hdata
          exact hout data (List.mem_append_right _ hdata)
        · exact hannounced
        · intro c hc
          rcases List.mem_append.mp hc with hc | hc
          · exact h.delivered i c hc
          · exact hhanded c hc
        · intro c hc
          rcases List.mem_append.mp hc with hc | hc
          · exact List.mem_append_left _ (h.toClipboard i hc)
          · exact List.mem_append_right _ hc
      apply hset.publish
      intro data hdata
      obtain ⟨c, hc, hwire⟩ := hout data (List.mem_append_left _ (List.mem_filter.mp hdata).1)
      refine ⟨c, ?_, hwire⟩
      rw [set_nodes_self]
      exact hc

end Turn

/-- One step. -/
theorem Sound.step (h : m.Sound w) {a : MeshAction ι} (hunbroken : m.Unbroken w a)
    (hstep : m.step w a = some m') : m'.Sound w := by
  cases a with
  | copy i v =>
    rw [Mesh.step] at hstep
    obtain ⟨d, -, rfl⟩ := Option.map_eq_some_iff.mp hstep
    exact h.set_desktop rfl rfl rfl (List.Subset.refl _)
  | notice i view fuel opens =>
    obtain ⟨d, -, rfl⟩ := Option.map_eq_some_iff.mp hstep
    exact h.set_desktop rfl rfl rfl (List.Subset.refl _)
  | turn i t accepted => exact h.turn hunbroken hstep
  | apply i calls =>
    rw [Mesh.step] at hstep
    cases hqueue : (m.nodes i).toClipboard with
    | nil => simp [hqueue] at hstep
    | cons c rest =>
      simp only [hqueue] at hstep
      obtain ⟨d, -, rfl⟩ := Option.map_eq_some_iff.mp hstep
      refine h.set_desktop rfl rfl rfl ?_
      rw [hqueue]
      exact List.subset_cons_self c rest
  | restart i t =>
    obtain rfl := Option.some.inj hstep
    exact h.restart t

omit [DecidableEq ι] in
theorem sound_start (clipboards : ι → ClipboardValue) (disks : ι → FileSystem Bytes)
    (times : ι → ℕ) : (start clipboards disks times).Sound w where
  small _ _ hc := absurd hc List.not_mem_nil
  pending _ _ hdata := absurd hdata List.not_mem_nil
  air _ hp := absurd hp List.not_mem_nil
  announced _ _ _ hstate := absurd hstate (by
    simp [start, MeshNode.start, LoopState.initial, ChunkStates.empty])
  delivered _ _ hc := absurd hc List.not_mem_nil
  toClipboard _ := List.Subset.refl _

end Mesh

/-! ### How often a node sends -/

/-- A content that is no image. -/
def ClipboardContent.NotImage (c : ClipboardContent) : Prop := ∀ png, c ≠ .image png

/-- A clipboard that holds no image. -/
def ClipboardValue.NotImage (v : ClipboardValue) : Prop := ∀ imgData, v ≠ .image imgData

section Calls

variable {env : Env} {v : ClipboardValue} {dedup dedup' : DeduplicationState}

/-- A clipboard that cannot be opened seems empty. -/
theorem value_observe (v : ClipboardValue) (opens : Bool) :
    (v.observe opens).value = v ∨ (v.observe opens).value = .empty := by
  cases v <;> cases opens <;> simp [ClipboardValue.observe, Observation.value]

/-- No image is made of anything else. -/
theorem notImage_of_build {view : FsView} {fuel : ℕ} {c : ClipboardContent} (hv : v.NotImage)
    (h : v.build env view fuel = some (some c)) : c.NotImage := by
  intro png
  rintro rfl
  cases v with
  | empty => cases h
  | text s => cases h
  | image imgData => exact hv imgData rfl
  | files paths =>
    obtain ⟨entries, -, hcontent⟩ := Option.map_eq_some_iff.mp h
    match entries with
    | [] => cases hcontent
    | [_] => cases hcontent
    | _ :: _ :: _ => cases hcontent

/-- **What the monitor does with a clipboard**: it is silent and forgets nothing, or sends what
it makes of a clipboard it did not know, and knows it then. -/
theorem getClipboardContent_observe {view : FsView} {fuel : ℕ} {room opens : Bool}
    {sent : Option ClipboardContent}
    (h : getClipboardContent env view fuel room (v.observe opens) dedup = some (sent, dedup')) :
    (sent = none ∧ (Noted env dedup v → Noted env dedup' v)) ∨
      ∃ c, sent = some c ∧ v.build env view fuel = some (some c) ∧ ¬Noted env dedup v ∧
        Noted env dedup' v := by
  rcases getClipboardContent_cases h with ⟨-, rfl, rfl⟩ | ⟨hnew, rfl, content, hbuild, rfl⟩
  · exact .inl ⟨rfl, id⟩
  · rcases value_observe v opens with hvalue | hvalue
    · rw [hvalue] at hnew hbuild ⊢
      have hnoted : Noted env (v.note env dedup) v := noted_note v
      cases hsent : trySend room content with
      | none => exact .inl ⟨rfl, fun _ => hnoted⟩
      | some c =>
        obtain ⟨-, rfl⟩ : room = true ∧ content = some c := by
          simpa [trySend] using hsent
        exact .inr ⟨c, rfl, hbuild, hnew, hnoted⟩
    · -- an empty clipboard is always known
      rw [hvalue] at hnew
      exact absurd trivial hnew

/-- What the proxy writes is no image, unless it is given one. -/
theorem notImage_of_written {calls : ClipboardCalls} {c : ClipboardContent}
    {fs : FileSystem Bytes} (hc : c.NotImage)
    (h : (setClipboardContent env calls c dedup fs).written = some v) : v.NotImage := by
  have hfiles : ∀ paths dedup' written,
      setFileClipboard env calls paths dedup = (dedup', some written) → written.NotImage := by
    intro paths dedup' written hset imgData
    rintro rfl
    rw [setFileClipboard] at hset
    split at hset
    · cases hset
    · dsimp only at hset
      split at hset
      · cases hset
      · split at hset <;> cases hset
  unfold setClipboardContent at h
  by_cases hopens : calls.opens = false
  · rw [if_pos hopens] at h
    cases h
  · rw [if_neg hopens] at h
    cases c with
    | text text =>
      dsimp only at h
      split at h
      · obtain rfl := Option.some.inj h
        intro imgData himg
        cases himg
      · cases h
    | image png => exact absurd rfl (hc png)
    | file name bytes => exact hfiles _ _ _ (Prod.ext rfl h)
    | files files => exact hfiles _ _ _ (Prod.ext rfl h)

end Calls

/-- The content is what the monitor makes of a clipboard, with what is on the disk then. -/
def MadeOf (env : Env) (v : ClipboardValue) (c : ClipboardContent) : Prop :=
  ∃ view fuel, v.build env view fuel = some (some c)

/-- What a node has sent, or is about to, in this order. -/
def MeshNode.sends (n : MeshNode) : List ClipboardContent :=
  n.sent ++ n.desktop.enqueued.map Prod.fst

/-- What holds of a node after a run without images. -/
structure MeshNode.Silent (env : Env) (n : MeshNode) : Prop where
  clipboard : n.desktop.clipboard.NotImage
  sent : ∀ c ∈ n.sends, c.NotImage
  /-- It has sent some of what its user copied.  If it does not know what is on its clipboard,
  this is the last copy, and was not sent. -/
  made : ∃ copies, copies.Sublist n.copied ∧ List.Forall₂ (MadeOf env) copies n.sends ∧
    (Noted env n.desktop.dedup n.desktop.clipboard ∨
      ∃ earlier, n.copied = earlier ++ [n.desktop.clipboard] ∧ copies.Sublist earlier)

namespace MeshNode.Silent

variable {env : Env} {n : MeshNode} {d : Desktop}

theorem copy (h : n.Silent env) {v : ClipboardValue} (hv : v.NotImage)
    (hstep : n.desktop.step env (.copy v) = some d) :
    { n with desktop := d, copied := n.copied ++ [v] }.Silent env := by
  obtain rfl := Option.some.inj hstep
  obtain ⟨copies, hcopied, hmade, -⟩ := h.made
  exact ⟨hv, h.sent, copies, hcopied.trans (List.sublist_append_left _ _), hmade,
    .inr ⟨n.copied, rfl, hcopied⟩⟩

theorem notice (h : n.Silent env) {view : FsView} {fuel : ℕ} {opens : Bool}
    (hstep : n.desktop.step env (.notice view fuel n.room opens) = some d) :
    { n with desktop := d }.Silent env := by
  obtain ⟨⟨sent, dedup'⟩, hget, rfl⟩ := Option.map_eq_some_iff.mp hstep
  obtain ⟨copies, hcopied, hmade, hknown⟩ := h.made
  rcases getClipboardContent_observe hget with
    ⟨rfl, hkeeps⟩ | ⟨c, rfl, hbuild, hnew, hnoted⟩
  · refine ⟨h.clipboard, ?_, copies, hcopied, ?_, hknown.imp hkeeps id⟩
    · simpa [sends] using h.sent
    · simpa [sends] using hmade
  · -- it did not know the clipboard, so that the last copy was not sent yet
    obtain ⟨earlier, hlast, hearlier⟩ := hknown.resolve_left hnew
    have hsends : n.sent ++ (n.desktop.enqueued ++ [(c, n.desktop.fromNetwork)]).map Prod.fst =
        n.sends ++ [c] := by
      simp [sends]
    refine ⟨h.clipboard, ?_, copies ++ [n.desktop.clipboard], ?_, ?_, .inl hnoted⟩
    · show ∀ c' ∈ n.sent ++ (n.desktop.enqueued ++ [(c, n.desktop.fromNetwork)]).map Prod.fst,
        c'.NotImage
      rw [hsends]
      exact List.forall_mem_append.mpr
        ⟨h.sent, List.forall_mem_singleton.mpr (notImage_of_build h.clipboard hbuild)⟩
    · rw [hlast]
      exact hearlier.append (List.Sublist.refl _)
    · show List.Forall₂ _ _
        (n.sent ++ (n.desktop.enqueued ++ [(c, n.desktop.fromNetwork)]).map Prod.fst)
      rw [hsends]
      exact List.rel_append hmade (.cons ⟨view, fuel, hbuild⟩ .nil)

theorem apply (h : n.Silent env) {calls : ClipboardCalls} {c : ClipboardContent}
    {rest : List ClipboardContent} (hworks : calls.Works) (hc : c.NotImage)
    (hstep : n.desktop.step env (.apply calls c) = some d) :
    { n with desktop := d, toClipboard := rest }.Silent env := by
  obtain rfl := Option.some.inj hstep
  obtain ⟨copies, hcopied, hmade, hknown⟩ := h.made
  have hends : WriteEnds env calls n.desktop.dedup
      ((setClipboardContent env calls c n.desktop.dedup n.desktop.fs).dedup,
        (setClipboardContent env calls c n.desktop.dedup n.desktop.fs).written) :=
    setClipboardContent_ends hc
  cases hw : (setClipboardContent env calls c n.desktop.dedup n.desktop.fs).written with
  | some v =>
    -- what is written is known: it will not be sent
    rw [hw] at hends
    have hv : v.NotImage := notImage_of_written hc hw
    refine ⟨?_, h.sent, copies, hcopied, hmade, .inl ?_⟩
    · simpa [hw] using hv
    · simpa [hw] using hends.isNoted
  | none =>
    -- nothing was written: the state still knows what is there
    rw [hw] at hends
    have hdedup := hends.dedup_eq hworks
    refine ⟨?_, h.sent, copies, hcopied, hmade, ?_⟩
    · simpa [hw] using h.clipboard
    · simpa [hw, hdedup] using hknown

theorem advance (h : n.Silent env) {o : Outcome}
    (hreads : (receivedOf o.effects).map Prod.fst <+: n.desktop.enqueued.map Prod.fst) :
    (n.advance o).Silent env := by
  -- what is read leaves the channel and has been sent
  have hsends : (n.advance o).sends = n.sends := by
    have hread : (receivedOf o.effects).map Prod.fst =
        (n.desktop.enqueued.map Prod.fst).take (receivedOf o.effects).length := by
      rw [List.prefix_iff_eq_take.mp hreads, List.length_map]
    simp only [sends, MeshNode.advance, List.map_drop, List.append_assoc]
    rw [hread, List.take_append_drop]
  obtain ⟨copies, hcopied, hmade, hknown⟩ := h.made
  exact ⟨h.clipboard, hsends.symm ▸ h.sent, copies, hcopied, hsends.symm ▸ hmade, hknown⟩

end MeshNode.Silent

namespace Mesh

variable {ι : Type} [DecidableEq ι] {w : MeshSetup ι} {m m' : Mesh ι}

/-- No image is copied, clipboards take texts, and no node is started again: it would not know
what it was sent before. -/
def Calm (w : MeshSetup ι) (m : Mesh ι) : MeshAction ι → Prop
  | .copy _ v => v.NotImage
  | .notice _ _ _ _ => True
  | .turn i t _ => ∀ o, iteration (w.config i) (m.nodes i).loop t = .ok o → o.returned = false
  | .apply _ calls => calls.Works
  | .restart _ _ => False

end Mesh

/-! ### A text that goes round -/

private theorem no_image_encoded {rgba png : Bytes} {w h : UInt32}
    (heq : (none : Option Bytes) = some png) :
    (none : Option (ℕ × ℕ × Bytes)) = some (w.toNat, h.toNat, rgba) :=
  absurd heq (by simp)

/-- A library without images. -/
private def meshEnv : Env where
  finish bs := bs.foldl (fun h b => 31 * h + b.toUInt64) 7
  png := ⟨fun _ _ _ => none, fun _ => none, no_image_encoded⟩

private def meshSetup : MeshSetup Bool :=
  ⟨meshEnv, default, fun _ => ⟨.checked, default, ⟨[]⟩, none⟩, fun _ => rfl⟩

private theorem meshUuid_length :
    "00000000-0000-4000-8000-00000000000b".utf8ByteSize = 36 := by decide

private def meshUuid : Uuid := ⟨"00000000-0000-4000-8000-00000000000b", meshUuid_length⟩

private def meshView : FsView := ⟨fun _ => false, fun _ => false, fun _ => none, fun _ => none⟩

private def meshStart : Mesh Bool :=
  .start (fun _ => .empty) (fun _ => .ofDirs []) fun _ => 0

private theorem iterate_in_order (paths : List String) : (id paths).Perm paths := .refl _

/-- A clipboard on which everything succeeds. -/
private def meshCalls : ClipboardCalls := { iterate_perm := iterate_in_order }

/-- One node copies and sends a text, the other one is handed it twice, applies it and reads
its clipboard. -/
private def meshActions : List (MeshAction Bool) :=
  let data := NetworkMessage.codec.encode (.direct (.text "hi"))
  [.copy false (.text "hi"), .notice false meshView 0 true,
    .turn false ⟨0, 0, 1, 1, {}, .received (.text "hi") meshUuid⟩ fun _ => true,
    .turn true ⟨0, 0, 1, 1, {}, .swarm (.gossipMessage data)⟩ fun _ => true,
    .turn true ⟨0, 0, 1, 1, {}, .swarm (.gossipMessage data)⟩ fun _ => true,
    .apply true meshCalls, .notice true meshView 0 true]

private theorem meshRun_isSome :
    (Runs.run (Mesh.step meshSetup) meshStart meshActions).isSome := by decide +kernel

/-- Without a transfer in progress there is nothing to break. -/
private theorem unbroken_of_no_transfers {m : Mesh Bool} {i : Bool} {t : Turn}
    {accepted : Bytes → Bool} (hnone : ∀ id, (m.nodes i).loop.chunkStates id = none)
    (hsmall : ∀ message uuid, t.wakeup = .received message uuid →
      (rawOf message).length < 2 ^ 64) :
    m.Unbroken meshSetup (.turn i t accepted) := by
  refine ⟨fun id state _ hstate => ?_, hsmall⟩
  rw [hnone id] at hstate
  cases hstate

private theorem meshRun_calm :
    Runs.Along (Mesh.step meshSetup) (fun m a => m.Unbroken meshSetup a ∧ m.Calm meshSetup a)
      meshStart meshActions := by
  have htext : ∀ imgData, ClipboardValue.text "hi" ≠ .image imgData := by
    intro imgData h
    cases h
  refine ⟨⟨trivial, htext⟩, fun m hm => ?_⟩
  obtain rfl := Option.some.inj hm
  refine ⟨⟨trivial, trivial⟩, fun m hm => ?_⟩
  obtain rfl := Option.some.inj hm
  refine ⟨⟨unbroken_of_no_transfers (fun _ => rfl) ?_, ?_⟩, fun m hm => ?_⟩
  · intro message uuid h
    cases h
    decide
  · intro o ho
    obtain rfl := Except.ok.inj ho
    rfl
  obtain rfl := Option.some.inj hm
  refine ⟨⟨unbroken_of_no_transfers (fun _ => rfl) nofun, ?_⟩, fun m hm => ?_⟩
  · intro o ho
    obtain rfl := Except.ok.inj ho
    rfl
  obtain rfl := Option.some.inj hm
  refine ⟨⟨unbroken_of_no_transfers (fun _ => rfl) nofun, ?_⟩, fun m hm => ?_⟩
  · intro o ho
    obtain rfl := Except.ok.inj ho
    rfl
  obtain rfl := Option.some.inj hm
  refine ⟨⟨trivial, rfl, fun _ => rfl⟩, fun m hm => ?_⟩
  obtain rfl := Option.some.inj hm
  exact ⟨⟨trivial, trivial⟩, fun _ _ => trivial⟩

private def meshEnd : Mesh Bool := (Runs.run _ _ meshActions).get meshRun_isSome

private theorem meshRun_eq : Runs.run (Mesh.step meshSetup) meshStart meshActions = some meshEnd :=
  (Option.some_get _).symm

/-! ### Runs -/

/-- **What a node is handed was sent by another one.**  However the steps of the nodes
interleave, whatever gossipsub refuses, loses, repeats and reorders, and whatever pieces of
transfers meet: a content that is handed to the proxy of a node was read from its channel
by the loop of another. -/
theorem mesh_delivers_sent {ι : Type} [DecidableEq ι] (w : MeshSetup ι)
    (clipboards : ι → ClipboardValue) (disks : ι → FileSystem Bytes) (times : ι → ℕ)
    (actions : List (MeshAction ι)) (m : Mesh ι)
    (hunbroken : Runs.Along (Mesh.step w) (Mesh.Unbroken w) (.start clipboards disks times) actions)
    (hrun : Runs.run (Mesh.step w) (.start clipboards disks times) actions = some m) (i : ι) :
    ∀ c ∈ (m.nodes i).delivered, ∃ j ≠ i, c ∈ (m.nodes j).sent := by
  have hsound : m.Sound w :=
    Runs.run_invariant (fun _ _ _ h hc hstep => h.step hc hstep)
      (Mesh.sound_start clipboards disks times) hunbroken hrun
  exact hsound.delivered i

/-- What the second node is handed twice was sent by the first. -/
theorem mesh_delivers_sent_text :
    ∃ m, Runs.run (Mesh.step meshSetup) meshStart meshActions = some m ∧
      (m.nodes true).delivered = [.text "hi", .text "hi"] ∧
      ∃ j ≠ true, .text "hi" ∈ (m.nodes j).sent := by
  have hdelivered : (meshEnd.nodes true).delivered = [.text "hi", .text "hi"] := by
    decide +kernel
  have hunbroken : Runs.Along (Mesh.step meshSetup) (Mesh.Unbroken meshSetup) meshStart
      meshActions := meshRun_calm.imp fun _ _ _ h => h.1
  refine ⟨meshEnd, meshRun_eq, hdelivered, ?_⟩
  apply mesh_delivers_sent meshSetup _ _ _ meshActions meshEnd hunbroken meshRun_eq true
  rw [hdelivered]
  exact List.mem_cons_self

end P2pClipboard
