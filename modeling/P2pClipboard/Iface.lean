import P2pClipboard.Behaviour
import P2pClipboard.PacketSize

/-!
# The mDNS task of an interface

`InterfaceState` of `lib/mdns/src/behaviour/iface.rs` is a future that never ends by
itself.  Each pass of its loop asks the network for peers when the timer says so, sends
a packet, hands over an address that was found, or reads a packet.

What the timer, the sockets and the channel answer during one pass are the `Answers`.
The sockets belong to the operating system and the channel to the `futures` crate.
`_address_translation` of `libp2p_swarm` and `Multiaddr::with_p2p` are the parameter
`AddressOps`.  The task panics where the encoder, the timer of `tokio` or the arithmetic of
times does.

## Main definitions

* `MdnsResponse.extractDiscovered`, `buildServiceDiscoveryResponse` — the rest of
  `query.rs` and `dns.rs`.
* `ProbeState`, `InterfaceTask` — the state of the task.
* `InterfaceTask.pass` — one pass of the loop of `poll`.

## Main results

* `InterfaceTask.pass_moves` — **what a pass can do.**
* `InterfaceTask.OfNode.pass_isOk` — **no packet and no address makes the task panic.**
-/

namespace P2pClipboard

/-! ### What is found in a response -/

/-- How addresses are translated and completed. -/
structure AddressOps where
  /-- `_address_translation`: an address, as seen from where it was observed. -/
  addressTranslation : Multiaddr → Multiaddr → Option Multiaddr
  /-- `Multiaddr::with_p2p`: an address with a peer behind it. -/
  withP2p : Multiaddr → PeerId → Option Multiaddr

/-- The nanoseconds of a span of time. -/
def Duration.toNanos (duration : Duration) : ℕ :=
  duration.secs.toNat * 10 ^ 9 + duration.subsecNanos.toNat

/-- `MdnsPeer::ttl`, in nanoseconds. -/
def MdnsPeer.ttlNanos (peer : MdnsPeer) : ℕ := peer.ttl.toNat * 10 ^ 9

/-- `Protocol::from` of an IP address, from its octets. -/
def Protocol.ofOctets : Bytes → Protocol
  | [a, b, c, d] => .ip4 a b c d
  | octets => .other 41 octets

/-- `MdnsResponse::observed_address`: where the response came from, as UDP. -/
def MdnsResponse.observedAddress (response : MdnsResponse) : Multiaddr :=
  [.ofOctets response.source.ip, .other 273 (appendU16 [] response.source.port)]

/-- `MdnsResponse::extract_discovered`. -/
def MdnsResponse.extractDiscovered (ops : AddressOps) (response : MdnsResponse) (now : Instant)
    (localPeerId : PeerId) : List FoundRecord :=
  (response.peers.filter fun peer => peer.peerId ≠ localPeerId).flatMap fun peer =>
    peer.addrs.filterMap fun address =>
      (ops.addressTranslation address response.observedAddress).bind fun newAddr =>
        (ops.withP2p newAddr peer.peerId).map fun newAddr =>
          ((peer.peerId, newAddr), now + peer.ttlNanos)

/-- What makes a task panic. -/
inductive IfacePanic
  /-- An assertion of the encoder. -/
  | builder (panic : BuilderPanic)
  /-- A timer with a period of zero. -/
  | zeroPeriod
  /-- A time too late for an `Instant`. -/
  | instantOverflow
  /-- A span too long for a `Duration`. -/
  | durationOverflow
  deriving DecidableEq, Repr

/-- The latest `Instant`, in nanoseconds: its seconds are an `i64` on Unix. -/
def maxInstant : ℕ := 2 ^ 63 * 10 ^ 9 - 1

/-- `Duration::MAX`, in nanoseconds. -/
def maxDuration : ℕ := 2 ^ 64 * 10 ^ 9 - 1

/-- `now + peer.ttl()` in `extract_discovered`, for every peer it looks at. -/
def MdnsResponse.checkExpirations (response : MdnsResponse) (now : Instant)
    (localPeerId : PeerId) : Except IfacePanic Unit :=
  if (response.peers.filter fun peer => peer.peerId ≠ localPeerId).any fun peer =>
      decide (maxInstant < now + peer.ttlNanos) then .error .instantOverflow
  else .ok ()

/-- `META_QUERY_SERVICE`. -/
def metaQueryService : Bytes := utf8 "_services._dns-sd._udp.local"

/-- `build_service_discovery_response`. -/
def buildServiceDiscoveryResponse (id : UInt16) (ttl : Duration) (serviceName : Bytes) :
    Except BuilderPanic Bytes := do
  let ttl := durationToSecs ttl
  let out := appendU16 [] id
  let out := appendU16 out 0x8400
  let out := appendU16 out 0x0
  let out := appendU16 out 0x1
  let out := appendU16 out 0x0
  let out := appendU16 out 0x0
  let out ← appendQname out metaQueryService
  let out := appendU16 out 0x000c
  let out := appendU16 out 0x8001
  let out := appendU32 out ttl
  let name ← appendQname [] serviceName
  let out := appendU16 out (UInt16.ofNat name.length)
  return out ++ name

/-! ### The state -/

/-- `INITIAL_TIMEOUT_INTERVAL`, in nanoseconds. -/
def initialTimeoutInterval : ℕ := 500 * 10 ^ 6

/-- Whether the task still probes, and how often it asks. -/
inductive ProbeState
  /-- The interval doubles with every question. -/
  | probing (interval : ℕ)
  /-- The interval stays. -/
  | finished (interval : ℕ)
  deriving DecidableEq, Repr

/-- `ProbeState::interval`. -/
def ProbeState.interval : ProbeState → ℕ
  | .probing interval => interval
  | .finished interval => interval

/-- The octets of an address. -/
def IpAddr.octets : IpAddr → Bytes
  | .v4 a b c d => [a, b, c, d]
  | .v6 bits => (List.range 16).map fun i => UInt8.ofNat (bits.toNat / 256 ^ (15 - i))

/-- The fields of `InterfaceState` that `poll` reads, the sockets and the channel apart. -/
structure InterfaceTask extends InterfaceState where
  /-- The address the task is bound to. -/
  addr : IpAddr
  /-- The packets to be sent. -/
  sendBuffer : List Bytes := []
  /-- How often the network is asked when the task has done probing. -/
  queryInterval : ℕ
  /-- When the timer fires next. -/
  timeout : Instant
  /-- The addresses to be handed over. -/
  discovered : List FoundRecord := []
  /-- The state of the probing. -/
  probeState : ProbeState := .probing initialTimeoutInterval

/-- `InterfaceState::new`, when the sockets have no error, for the milliseconds of jitter
it draws. -/
def InterfaceTask.new (newV5 : Bytes → BitVec 128) (addr : IpAddr) (config : DiscoveryConfig)
    (localPeerId : PeerId) (now : Instant) (jitter : Fin 100) : InterfaceTask where
  toInterfaceState := InterfaceState.new newV5 config.toMdnsConfig localPeerId
  addr
  queryInterval := config.queryInterval.toNanos + jitter * 10 ^ 6
  timeout := now

/-! ### One pass of the loop -/

/-- The answer of `poll_write`. -/
inductive WriteAnswer
  /-- The packet was sent. -/
  | ok
  /-- It could not be sent. -/
  | err
  /-- Not now. -/
  | pending
  deriving DecidableEq, Repr

/-- The answer of `try_send`. -/
inductive SendAnswer
  /-- The address is in the channel. -/
  | ok
  /-- Nobody reads the channel any more. -/
  | disconnected
  /-- The channel is full. -/
  | full
  deriving DecidableEq, Repr

/-- The answer of `poll_read`. -/
inductive ReadAnswer
  /-- A datagram, which the buffer may cut off. -/
  | datagram (buf : Bytes) (source : SocketAddr)
  /-- "No more bytes available on the socket to read". -/
  | wouldBlock
  /-- Any other error. -/
  | err
  /-- Not now. -/
  | pending
  deriving DecidableEq, Repr

/-- What the outside answers during one pass, as far as it is asked. -/
structure Answers where
  /-- The time the timer is polled. -/
  now : Instant
  /-- The id drawn for a query. -/
  queryId : UInt16
  /-- `send_socket.poll_write`. -/
  write : WriteAnswer
  /-- `query_response_sender.poll_ready`. -/
  channelReady : Bool
  /-- `query_response_sender.try_send`. -/
  trySend : SendAnswer
  /-- `recv_socket.poll_read`. -/
  read : ReadAnswer
  /-- The time after the read. -/
  readNow : Instant
  /-- The addresses the swarm listens on. -/
  listenAddresses : List Multiaddr
  /-- The name drawn for a response. -/
  peerName : PeerName

/-- What happens in a pass. -/
inductive IfaceEffect
  /-- The timer fired. -/
  | tick (now : Instant)
  /-- A packet was put into the send buffer. -/
  | enqueue (packet : Bytes)
  /-- The socket took a packet: it was sent, or dropped after an error. -/
  | write (packet : Bytes) (sent : Bool)
  /-- An address was found. -/
  | found (record : FoundRecord)
  /-- Probing was stopped by a response. -/
  | stop (now : Instant)
  /-- An address was put into the channel. -/
  | deliver (record : FoundRecord)
  /-- An address was lost with the channel. -/
  | lose (record : FoundRecord)
  deriving DecidableEq, Repr

/-- How a pass ends. -/
inductive IfaceEnd
  /-- `continue`. -/
  | again
  /-- `return Poll::Pending`. -/
  | pending
  /-- `return Poll::Ready(())`: the task is over. -/
  | ready
  deriving DecidableEq, Repr

namespace InterfaceTask

/-- The timer set to fire after an interval. -/
def restarted (t : InterfaceTask) (now : Instant) : InterfaceTask :=
  { t with timeout := now + t.probeState.interval }

/-- `reset_timer`.  The first tick may be too late for an `Instant`, and `interval_at` of
`tokio` does not take a period of zero. -/
def resetTimer (t : InterfaceTask) (now : Instant) : Except IfacePanic InterfaceTask :=
  if maxInstant < now + t.probeState.interval then .error .instantOverflow
  else if t.probeState.interval = 0 then .error .zeroPeriod
  else .ok (t.restarted now)

/-- `interval * 2`, while the task probes. -/
def checkDoubled (t : InterfaceTask) : Except IfacePanic Unit :=
  match t.probeState with
  | .probing interval =>
      if maxDuration < interval * 2 then .error .durationOverflow else .ok ()
  | .finished _ => .ok ()

/-- The next state of the probing, once a question was asked. -/
def nextProbeState (t : InterfaceTask) : ProbeState :=
  match t.probeState with
  | .probing interval =>
      if t.queryInterval ≤ interval * 2 then .finished t.queryInterval else .probing (interval * 2)
  | .finished interval => .finished interval

/-- A packet, or the assertion of the encoder that failed. -/
def built {α : Type} (packet : Except BuilderPanic α) : Except IfacePanic α :=
  packet.mapError .builder

/-- "1st priority": a query when the timer fires. -/
def askForPeers (t : InterfaceTask) (answers : Answers) :
    Except IfacePanic (InterfaceTask × List IfaceEffect) :=
  if t.timeout ≤ answers.now then do
    let packet ← built (buildQuery answers.queryId t.serviceName)
    t.checkDoubled
    let t ← { t with
      sendBuffer := t.sendBuffer ++ [packet]
      probeState := t.nextProbeState }.resetTimer answers.now
    return (t, [.tick answers.now, .enqueue packet])
  else .ok (t, [])

/-- "2nd priority": a packet is sent.  What the socket cannot take now goes back to the
front. -/
def sendPacket (t : InterfaceTask) (answers : Answers) :
    InterfaceTask × List IfaceEffect × Option IfaceEnd :=
  match t.sendBuffer, answers.write with
  | packet :: rest, .ok => ({ t with sendBuffer := rest }, [.write packet true], some .again)
  | packet :: rest, .err => ({ t with sendBuffer := rest }, [.write packet false], some .again)
  | packet :: rest, .pending => ({ t with sendBuffer := packet :: rest }, [], none)
  | [], _ => (t, [], none)

/-- "3rd priority": an address that was found is handed over. -/
def returnDiscovered (t : InterfaceTask) (answers : Answers) :
    InterfaceTask × List IfaceEffect × Option IfaceEnd :=
  if answers.channelReady then
    match t.discovered, answers.trySend with
    | record :: rest, .ok => ({ t with discovered := rest }, [.deliver record], some .again)
    | record :: rest, .disconnected => ({ t with discovered := rest }, [.lose record], some .ready)
    | record :: rest, .full => ({ t with discovered := record :: rest }, [], some .again)
    | [], _ => (t, [], none)
  else (t, [], none)

section Read

variable {ProtoError : Type} (hickory : Hickory ProtoError) (text : MultiaddrText)
  (ops : AddressOps)

/-- What is done with a packet. -/
def handlePacket (t : InterfaceTask) (answers : Answers) :
    Except ProtoError (Option MdnsPacket) → Except IfacePanic (InterfaceTask × List IfaceEffect)
  | .ok (some (.query query)) =>
      (built (buildQueryResponse text query.queryId t.localPeerId answers.listenAddresses t.ttl
        answers.peerName t.serviceName)).map fun packets =>
          ({ t with sendBuffer := t.sendBuffer ++ packets }, packets.map .enqueue)
  | .ok (some (.response response)) => do
      response.checkExpirations answers.readNow t.localPeerId
      let new := response.extractDiscovered ops answers.readNow t.localPeerId
      let t := { t with discovered := t.discovered ++ new }
      -- whatever is found, the question is whether anything is left to hand over
      if !t.discovered.isEmpty then
        let t ← { t with probeState := .finished t.queryInterval }.resetTimer answers.readNow
        return (t, new.map .found ++ [.stop answers.readNow])
      else return (t, new.map .found)
  | .ok (some (.serviceDiscovery disc)) =>
      (built (buildServiceDiscoveryResponse disc.queryId t.ttl t.serviceName)).map fun packet =>
        ({ t with sendBuffer := t.sendBuffer ++ [packet] }, [.enqueue packet])
  | .ok none => .ok (t, [])
  | .error _ => .ok (t, [])

/-- "4th priority": a packet is read. -/
def readPacket (t : InterfaceTask) (answers : Answers) :
    Except IfacePanic (InterfaceTask × List IfaceEffect × IfaceEnd) :=
  match answers.read with
  | .datagram buf source =>
      (t.handlePacket text ops answers (MdnsPacket.newFromBytes hickory text
        (buf.take recvBufferSize) source t.serviceNameFqdn)).map fun (t, effects) =>
          (t, effects, .again)
  | .wouldBlock => .ok (t, [], .again)
  | .err => .ok (t, [], .ready)
  | .pending => .ok (t, [], .pending)

/-- One pass of the loop of `poll`. -/
def pass (t : InterfaceTask) (answers : Answers) :
    Except IfacePanic (InterfaceTask × List IfaceEffect × IfaceEnd) := do
  let (t, asked) ← t.askForPeers answers
  match t.sendPacket answers with
  | (t, sent, some ended) => return (t, asked ++ sent, ended)
  | (t, sent, none) =>
      match t.returnDiscovered answers with
      | (t, returned, some ended) => return (t, asked ++ sent ++ returned, ended)
      | (t, returned, none) =>
          let (t, read, ended) ← t.readPacket hickory text ops answers
          return (t, asked ++ sent ++ returned ++ read, ended)

/-! ### What a pass can do -/

/-- One move of a pass. -/
inductive Move (answers : Answers) : InterfaceTask → List IfaceEffect → InterfaceTask → Prop
  /-- The timer fired. -/
  | ask {t : InterfaceTask} {packet : Bytes} (hdue : t.timeout ≤ answers.now)
      (hbuild : buildQuery answers.queryId t.serviceName = .ok packet) :
      Move answers t [.tick answers.now, .enqueue packet]
        ({ t with
            sendBuffer := t.sendBuffer ++ [packet]
            probeState := t.nextProbeState }.restarted answers.now)
  /-- The socket took the first packet. -/
  | write {t : InterfaceTask} {packet : Bytes} {rest : List Bytes} (sent : Bool)
      (hfirst : t.sendBuffer = packet :: rest) :
      Move answers t [.write packet sent] { t with sendBuffer := rest }
  /-- The channel took the first address. -/
  | deliver {t : InterfaceTask} {record : FoundRecord} {rest : List FoundRecord}
      (hfirst : t.discovered = record :: rest) :
      Move answers t [.deliver record] { t with discovered := rest }
  /-- The channel is gone. -/
  | lose {t : InterfaceTask} {record : FoundRecord} {rest : List FoundRecord}
      (hfirst : t.discovered = record :: rest) :
      Move answers t [.lose record] { t with discovered := rest }
  /-- A query for the service was read. -/
  | answer {t : InterfaceTask} {buf : Bytes} {source : SocketAddr} {query : MdnsQuery}
      {packets : List Bytes} (hread : answers.read = .datagram buf source)
      (hpacket : MdnsPacket.newFromBytes hickory text (buf.take recvBufferSize) source
        t.serviceNameFqdn = .ok (some (.query query)))
      (hbuild : buildQueryResponse text query.queryId t.localPeerId answers.listenAddresses t.ttl
        answers.peerName t.serviceName = .ok packets) :
      Move answers t (packets.map .enqueue) { t with sendBuffer := t.sendBuffer ++ packets }
  /-- A query for the services of the network was read. -/
  | announce {t : InterfaceTask} {packet : Bytes} {id : UInt16}
      (hbuild : buildServiceDiscoveryResponse id t.ttl t.serviceName = .ok packet) :
      Move answers t [.enqueue packet] { t with sendBuffer := t.sendBuffer ++ [packet] }
  /-- A response was read, and there is nothing to hand over. -/
  | nothing {t : InterfaceTask} {buf : Bytes} {source : SocketAddr} {response : MdnsResponse}
      (hread : answers.read = .datagram buf source)
      (hpacket : MdnsPacket.newFromBytes hickory text (buf.take recvBufferSize) source
        t.serviceNameFqdn = .ok (some (.response response)))
      (hnone : t.discovered ++ response.extractDiscovered ops answers.readNow t.localPeerId = []) :
      Move answers t [] t
  /-- A response was read, and there is something to hand over. -/
  | find {t : InterfaceTask} {buf : Bytes} {source : SocketAddr} {response : MdnsResponse}
      (hread : answers.read = .datagram buf source)
      (hpacket : MdnsPacket.newFromBytes hickory text (buf.take recvBufferSize) source
        t.serviceNameFqdn = .ok (some (.response response)))
      (hsome : t.discovered ++ response.extractDiscovered ops answers.readNow t.localPeerId ≠ []) :
      Move answers t
        ((response.extractDiscovered ops answers.readNow t.localPeerId).map .found ++
          [.stop answers.readNow])
        ({ t with
            discovered :=
              t.discovered ++ response.extractDiscovered ops answers.readNow t.localPeerId
            probeState := .finished t.queryInterval }.restarted answers.readNow)

/-- Moves, one after the other. -/
inductive Moves (answers : Answers) : InterfaceTask → List IfaceEffect → InterfaceTask → Prop
  /-- No move. -/
  | nil (t : InterfaceTask) : Moves answers t [] t
  /-- One move more. -/
  | cons {t t' t'' : InterfaceTask} {effects rest : List IfaceEffect}
      (hmove : Move hickory text ops answers t effects t') (hrest : Moves answers t' rest t'') :
      Moves answers t (effects ++ rest) t''

variable {hickory text ops} {t t' t'' : InterfaceTask} {answers : Answers}
  {effects effects' : List IfaceEffect}

theorem Moves.single (h : Move hickory text ops answers t effects t') :
    Moves hickory text ops answers t effects t' := by
  have hone := Moves.cons h (.nil t')
  rwa [List.append_nil] at hone

theorem Moves.trans (h : Moves hickory text ops answers t effects t')
    (h' : Moves hickory text ops answers t' effects' t'') :
    Moves hickory text ops answers t (effects ++ effects') t'' := by
  induction h with
  | nil => exact h'
  | cons hmove _ ih =>
    rw [List.append_assoc]
    exact .cons hmove (ih h')

theorem built_eq_ok {α : Type} {packet : Except BuilderPanic α} {a : α}
    (h : built packet = .ok a) : packet = .ok a := by
  cases packet with
  | error e => cases h
  | ok b => rw [Except.ok.inj h]

/-- A timer that was reset fires after the interval. -/
theorem resetTimer_eq_ok {now : Instant} (h : t.resetTimer now = .ok t') :
    t' = t.restarted now := by
  unfold resetTimer at h
  split_ifs at h
  exact (Except.ok.inj h).symm

theorem askForPeers_moves (h : t.askForPeers answers = .ok (t', effects)) :
    Moves hickory text ops answers t effects t' := by
  rw [askForPeers] at h
  split at h
  · rename_i hdue
    obtain ⟨packet, hbuild, h⟩ := bind_eq_ok h
    obtain ⟨-, -, h⟩ := bind_eq_ok h
    obtain ⟨t₁, hreset, h⟩ := bind_eq_ok h
    obtain ⟨rfl, rfl⟩ := Prod.mk.inj (Except.ok.inj h)
    rw [resetTimer_eq_ok hreset]
    exact .single (.ask hdue (built_eq_ok hbuild))
  · simp only [Except.ok.injEq, Prod.mk.injEq] at h
    obtain ⟨rfl, rfl⟩ := h
    exact .nil _

/-- An address is lost only with the end of the task. -/
def LosesAtEnd (effects : List IfaceEffect) (ended : Option IfaceEnd) : Prop :=
  ∀ record, .lose record ∈ effects → ended = some .ready

theorem sendPacket_moves {ended : Option IfaceEnd}
    (h : t.sendPacket answers = (t', effects, ended)) :
    Moves hickory text ops answers t effects t' ∧ LosesAtEnd effects ended := by
  unfold sendPacket at h
  split at h <;> simp only [Prod.mk.injEq] at h <;> obtain ⟨rfl, rfl, rfl⟩ := h
  · case h_1 packet rest hfirst _ => exact ⟨.single (.write true hfirst), by simp [LosesAtEnd]⟩
  · case h_2 packet rest hfirst _ => exact ⟨.single (.write false hfirst), by simp [LosesAtEnd]⟩
  · case h_3 packet rest hfirst _ =>
    rw [← hfirst]
    exact ⟨.nil t, by simp [LosesAtEnd]⟩
  · exact ⟨.nil _, by simp [LosesAtEnd]⟩

theorem returnDiscovered_moves {ended : Option IfaceEnd}
    (h : t.returnDiscovered answers = (t', effects, ended)) :
    Moves hickory text ops answers t effects t' ∧ LosesAtEnd effects ended := by
  unfold returnDiscovered at h
  split at h
  · split at h <;> simp only [Prod.mk.injEq] at h <;> obtain ⟨rfl, rfl, rfl⟩ := h
    · case h_1 record rest hfirst _ => exact ⟨.single (.deliver hfirst), by simp [LosesAtEnd]⟩
    · case h_2 record rest hfirst _ => exact ⟨.single (.lose hfirst), by simp [LosesAtEnd]⟩
    · case h_3 record rest hfirst _ =>
      rw [← hfirst]
      exact ⟨.nil t, by simp [LosesAtEnd]⟩
    · exact ⟨.nil _, by simp [LosesAtEnd]⟩
  · simp only [Prod.mk.injEq] at h
    obtain ⟨rfl, rfl, rfl⟩ := h
    exact ⟨.nil _, by simp [LosesAtEnd]⟩

theorem map_eq_ok {ε α β : Type} {x : Except ε α} {f : α → β} {b : β}
    (h : x.map f = .ok b) : ∃ a, x = .ok a ∧ f a = b := by
  cases x with
  | error e => cases h
  | ok a => exact ⟨a, rfl, Except.ok.inj h⟩

theorem handlePacket_moves {buf : Bytes} {source : SocketAddr}
    (hread : answers.read = .datagram buf source)
    (h : t.handlePacket text ops answers (MdnsPacket.newFromBytes hickory text
      (buf.take recvBufferSize) source t.serviceNameFqdn) = .ok (t', effects)) :
    Moves hickory text ops answers t effects t' ∧ ∀ record, .lose record ∉ effects := by
  cases hpacket : MdnsPacket.newFromBytes hickory text (buf.take recvBufferSize) source
      t.serviceNameFqdn with
  | error e =>
    simp only [hpacket, handlePacket, Except.ok.injEq, Prod.mk.injEq] at h
    obtain ⟨rfl, rfl⟩ := h
    exact ⟨.nil _, by simp⟩
  | ok packet =>
    rw [hpacket] at h
    rcases packet with - | (query | response | disc)
    · simp only [handlePacket, Except.ok.injEq, Prod.mk.injEq] at h
      obtain ⟨rfl, rfl⟩ := h
      exact ⟨.nil _, by simp⟩
    · obtain ⟨packets, hbuild, heq⟩ := map_eq_ok h
      obtain ⟨rfl, rfl⟩ := Prod.mk.inj heq
      exact ⟨.single (.answer hread hpacket (built_eq_ok hbuild)), by simp⟩
    · obtain ⟨-, -, h⟩ := bind_eq_ok h
      dsimp only at h
      split at h
      · rename_i hsome
        obtain ⟨t₁, hreset, h⟩ := bind_eq_ok h
        obtain ⟨rfl, rfl⟩ := Prod.mk.inj (Except.ok.inj h)
        rw [resetTimer_eq_ok hreset]
        exact ⟨.single (.find hread hpacket (by simpa using hsome)), by simp⟩
      · rename_i hnone
        have hnil : t.discovered ++
            response.extractDiscovered ops answers.readNow t.localPeerId = [] := by
          simpa using hnone
        obtain ⟨hold, hnew⟩ := List.append_eq_nil_iff.mp hnil
        obtain ⟨rfl, rfl⟩ := Prod.mk.inj (Except.ok.inj h)
        rw [hnew, hold, List.append_nil, List.map_nil, ← hold]
        exact ⟨.single (.nothing hread hpacket hnil), by simp⟩
    · obtain ⟨packet, hbuild, heq⟩ := map_eq_ok h
      obtain ⟨rfl, rfl⟩ := Prod.mk.inj heq
      exact ⟨.single (.announce (built_eq_ok hbuild)), by simp⟩

theorem readPacket_moves {ended : IfaceEnd}
    (h : t.readPacket hickory text ops answers = .ok (t', effects, ended)) :
    Moves hickory text ops answers t effects t' ∧ LosesAtEnd effects (some ended) := by
  unfold readPacket at h
  split at h
  · rename_i buf source hread
    obtain ⟨⟨t₁, effects₁⟩, hhandle, heq⟩ := map_eq_ok h
    simp only [Prod.mk.injEq] at heq
    obtain ⟨rfl, rfl, rfl⟩ := heq
    obtain ⟨hmoves, hkeeps⟩ := handlePacket_moves hread hhandle
    exact ⟨hmoves, fun record hmem => absurd hmem (hkeeps record)⟩
  all_goals
    simp only [Except.ok.injEq, Prod.mk.injEq] at h
    obtain ⟨rfl, rfl, rfl⟩ := h
    exact ⟨.nil _, by simp [LosesAtEnd]⟩

theorem LosesAtEnd.append {ended : Option IfaceEnd} (h : LosesAtEnd effects ended)
    (h' : ∀ record, .lose record ∉ effects') : LosesAtEnd (effects' ++ effects) ended := by
  intro record hmem
  exact h record ((List.mem_append.mp hmem).resolve_left (h' record))

theorem askForPeers_keeps (h : t.askForPeers answers = .ok (t', effects)) (record : FoundRecord) :
    .lose record ∉ effects := by
  rw [askForPeers] at h
  split at h
  · obtain ⟨packet, -, h⟩ := bind_eq_ok h
    obtain ⟨-, -, h⟩ := bind_eq_ok h
    obtain ⟨t₁, -, h⟩ := bind_eq_ok h
    obtain ⟨-, rfl⟩ := Prod.mk.inj (Except.ok.inj h)
    simp
  · obtain ⟨-, rfl⟩ := Prod.mk.inj (Except.ok.inj h)
    simp

/-- **What a pass can do**: moves, one after the other; an address is lost only when the task
is over. -/
theorem pass_moves {ended : IfaceEnd}
    (h : t.pass hickory text ops answers = .ok (t', effects, ended)) :
    Moves hickory text ops answers t effects t' ∧ LosesAtEnd effects (some ended) := by
  obtain ⟨⟨t₁, asked⟩, hask, h⟩ := bind_eq_ok h
  have hmoves₁ : Moves hickory text ops answers t asked t₁ := askForPeers_moves hask
  have hkeeps₁ := askForPeers_keeps hask
  rcases hsend : t₁.sendPacket answers with ⟨t₂, sent, ended₂⟩
  obtain ⟨hmoves₂, hlast₂⟩ : Moves hickory text ops answers t₁ sent t₂ ∧ LosesAtEnd sent ended₂ :=
    sendPacket_moves hsend
  have hmoves := hmoves₁.trans hmoves₂
  dsimp only at h
  rw [hsend] at h
  cases ended₂ with
  | some ended₂ =>
    obtain ⟨rfl, rfl, rfl⟩ := by simpa [pure, Except.pure] using h
    exact ⟨hmoves, hlast₂.append hkeeps₁⟩
  | none =>
    have hkeeps₂ : ∀ record, .lose record ∉ sent := fun record hmem => by cases hlast₂ record hmem
    have hkeeps : ∀ record, .lose record ∉ asked ++ sent := fun record hmem =>
      (List.mem_append.mp hmem).elim (hkeeps₁ record) (hkeeps₂ record)
    rcases hreturn : t₂.returnDiscovered answers with ⟨t₃, returned, ended₃⟩
    obtain ⟨hmoves₃, hlast₃⟩ : Moves hickory text ops answers t₂ returned t₃ ∧
        LosesAtEnd returned ended₃ := returnDiscovered_moves hreturn
    dsimp only at h
    rw [hreturn] at h
    cases ended₃ with
    | some ended₃ =>
      obtain ⟨rfl, rfl, rfl⟩ := by simpa [pure, Except.pure] using h
      rw [← List.append_assoc]
      exact ⟨hmoves.trans hmoves₃, hlast₃.append hkeeps⟩
    | none =>
      have hkeeps₃ : ∀ record, .lose record ∉ returned := fun record hmem => by
        cases hlast₃ record hmem
      obtain ⟨⟨t₄, read, ended₄⟩, hread, h⟩ := bind_eq_ok h
      obtain ⟨hmoves₄, hlast₄⟩ := readPacket_moves hread
      obtain ⟨rfl, rfl, rfl⟩ := by simpa [pure, Except.pure] using h
      have hall : asked ++ (sent ++ (returned ++ read)) = asked ++ sent ++ returned ++ read := by
        simp
      rw [hall]
      exact ⟨(hmoves.trans hmoves₃).trans hmoves₄,
        hlast₄.append fun record hmem =>
          (List.mem_append.mp hmem).elim (hkeeps record) (hkeeps₃ record)⟩

end Read

end InterfaceTask

/-! ### No assertion of the encoder fails -/

/-- The name of the services of the network is plain. -/
theorem exists_metaQueryService :
    ∃ n : Dns.Name, n.Spells "_services._dns-sd._udp.local" ∧ Plain n := by
  obtain ⟨n, hn⟩ : ∃ n : Dns.Name, n.Spells "_services._dns-sd._udp.local" :=
    Dns.Name.exists_spells (List.all_iff_forall_prop.mp (by decide)) (by decide) (by decide)
  have hplain : ∀ bytes ∈ n.labels.map (·.bytes), plainLabel bytes := by
    rw [hn.labels]
    decide
  refine ⟨n, hn, ?_, fun l hl => hplain l.bytes (List.mem_map_of_mem hl)⟩
  intro hnil
  have hempty := hn.labels
  rw [hnil] at hempty
  exact absurd hempty (by decide)

/-- The response to a query for the services of the network. -/
def serviceDiscoveryMessage (id : UInt16) (services service : Dns.Name) (ttl : UInt32) :
    Dns.Message where
  id := id
  flags := 0x8400
  queries := []
  answers := [⟨services, 0x8001, ttl, .ptr service⟩]
  authorities := []
  additionals := []

theorem buildServiceDiscoveryResponse_eq_ok {services service : Dns.Name} {s : String}
    (hservices : services.Spells "_services._dns-sd._udp.local") (hs : service.Spells s)
    (id : UInt16) (ttl : Duration) :
    buildServiceDiscoveryResponse id ttl (utf8 s) =
      .ok (serviceDiscoveryMessage id services service (durationToSecs ttl)).encode := by
  have hanswer : Dns.Record.encode ⟨services, 0x8001, durationToSecs ttl, .ptr service⟩ =
      services.encode ++ (Codec.u16BE.encode 0x000c ++ (Codec.u16BE.encode 0x8001 ++
        (Codec.u32BE.encode (durationToSecs ttl) ++
          (Codec.u16BE.encode (UInt16.ofNat service.encode.length) ++ service.encode)))) := rfl
  simp only [buildServiceDiscoveryResponse, metaQueryService, appendQname_eq_ok hservices,
    appendQname_eq_ok hs, bind, Except.bind, pure, Except.pure, appendU16_eq, appendU32_eq,
    serviceDiscoveryMessage, Dns.Message.encode, Dns.Message.header, Dns.Header.encode, hanswer,
    List.append_assoc, List.nil_append, List.flatMap_cons, List.flatMap_nil, List.append_nil]
  rfl

section Panic

variable {ProtoError : Type} (hickory : Hickory ProtoError) (text : MultiaddrText)
  (ops : AddressOps)

/-- A task of a node: the parts its packets depend on are those of its service. -/
def InterfaceTask.OfNode (newV5 : Bytes → BitVec 128) (config : MdnsConfig) (peerId : PeerId)
    (t : InterfaceTask) : Prop :=
  t.toInterfaceState = InterfaceState.new newV5 config peerId

variable {newV5 : Bytes → BitVec 128} {config : MdnsConfig} {peerId : PeerId}
  {t t' : InterfaceTask} {answers : Answers} {effects : List IfaceEffect}

theorem InterfaceTask.OfNode.move (h : t.OfNode newV5 config peerId)
    (hmove : InterfaceTask.Move hickory text ops answers t effects t') :
    t'.OfNode newV5 config peerId := by
  cases hmove <;> exact h

theorem InterfaceTask.OfNode.moves (h : t.OfNode newV5 config peerId)
    (hmoves : InterfaceTask.Moves hickory text ops answers t effects t') :
    t'.OfNode newV5 config peerId := by
  induction hmoves with
  | nil => exact h
  | cons hmove _ ih => exact ih (h.move hickory text ops hmove)

/-- The clock is read early enough for the times that are computed from it. -/
structure Answers.InTime (queryInterval : ℕ) (answers : Answers) : Prop where
  /-- The next question. -/
  tick : answers.now + queryInterval ≤ maxInstant
  /-- The next question, once a response has put it off. -/
  stop : answers.readNow + queryInterval ≤ maxInstant
  /-- The end of every time to live. -/
  ttl : answers.readNow + 2 ^ 32 * 10 ^ 9 ≤ maxInstant

/-- The intervals of the timer are not zero, and grow up to that of the configuration. -/
structure InterfaceTask.Ticking (queryInterval : ℕ) (t : InterfaceTask) : Prop where
  pos : 0 < queryInterval
  interval_eq : t.queryInterval = queryInterval
  probe : t.probeState = .finished queryInterval ∨ ∃ interval, t.probeState = .probing interval ∧
    0 < interval ∧ (interval = initialTimeoutInterval ∨ interval < queryInterval)

variable {queryInterval : ℕ}

/-- The next interval is not zero, and not longer than that of the configuration. -/
theorem InterfaceTask.Ticking.next (h : t.Ticking queryInterval) :
    t.nextProbeState = .finished queryInterval ∨ ∃ interval,
      t.nextProbeState = .probing interval ∧ 0 < interval ∧ interval < queryInterval := by
  rw [nextProbeState, h.interval_eq]
  rcases h.probe with hstate | ⟨interval, hstate, hpos, -⟩ <;> rw [hstate]
  · exact .inl rfl
  · dsimp only
    split
    · exact .inl rfl
    · rename_i hlt
      exact .inr ⟨_, rfl, by omega, by omega⟩

theorem InterfaceTask.Ticking.move (h : t.Ticking queryInterval)
    (hmove : InterfaceTask.Move hickory text ops answers t effects t') :
    t'.Ticking queryInterval := by
  cases hmove with
  | ask =>
    refine ⟨h.pos, h.interval_eq, h.next.imp_right ?_⟩
    rintro ⟨interval, hstate, hpos, hlt⟩
    exact ⟨interval, hstate, hpos, .inr hlt⟩
  | find => exact ⟨h.pos, h.interval_eq, .inl (congrArg _ h.interval_eq)⟩
  | _ => exact ⟨h.pos, h.interval_eq, h.probe⟩

theorem InterfaceTask.Ticking.moves (h : t.Ticking queryInterval)
    (hmoves : InterfaceTask.Moves hickory text ops answers t effects t') :
    t'.Ticking queryInterval := by
  induction hmoves with
  | nil => exact h
  | cons hmove _ ih => exact ih (h.move hickory text ops hmove)

theorem InterfaceTask.resetTimer_isOk {now : Instant} (hpos : 0 < t.probeState.interval)
    (hfits : now + t.probeState.interval ≤ maxInstant) :
    t.resetTimer now = .ok (t.restarted now) := by
  rw [resetTimer, if_neg (Nat.not_lt.mpr hfits), if_neg hpos.ne']

/-- The interval can be doubled. -/
theorem InterfaceTask.Ticking.checkDoubled_isOk (h : t.Ticking queryInterval)
    (hfits : queryInterval ≤ maxInstant) : t.checkDoubled = .ok () := by
  have hmax : maxInstant * 2 < maxDuration := by decide
  have hinitial : initialTimeoutInterval * 2 ≤ maxDuration := by decide
  rw [checkDoubled]
  rcases h.probe with hstate | ⟨interval, hstate, -, hinterval⟩ <;> rw [hstate]
  refine if_neg (Nat.not_lt.mpr ?_)
  obtain rfl | hlt := hinterval
  · exact hinitial
  · omega

/-- No time to live ends too late. -/
theorem checkExpirations_isOk {now : Instant} (hfits : now + 2 ^ 32 * 10 ^ 9 ≤ maxInstant)
    (response : MdnsResponse) : response.checkExpirations now peerId = .ok () := by
  refine if_neg ?_
  simp only [List.any_eq_true, decide_eq_true_eq, not_exists, not_and, not_lt]
  intro peer _
  have hlt : peer.ttl.toNat < 2 ^ 32 := peer.ttl.toNat_lt
  have httl : peer.ttlNanos ≤ 2 ^ 32 * 10 ^ 9 := Nat.mul_le_mul_right _ hlt.le
  exact (Nat.add_le_add_left httl now).trans hfits

/-- The task can ask. -/
theorem InterfaceTask.OfNode.askForPeers_isOk (h : t.OfNode newV5 config peerId)
    (hticks : t.Ticking queryInterval) (htime : answers.InTime queryInterval) :
    ∃ r, t.askForPeers answers = .ok r := by
  obtain ⟨service, hservice, -⟩ := exists_service newV5 config.serviceFingerprint
  have hname : t.serviceName = utf8 (serviceName newV5 config.serviceFingerprint) :=
    congrArg InterfaceState.serviceName h
  rw [askForPeers, hname, buildQuery_eq_ok hservice answers.queryId,
    hticks.checkDoubled_isOk ((Nat.le_add_left _ _).trans htime.tick)]
  split
  · simp only [built, Except.mapError, bind, Except.bind]
    have hinterval : 0 < t.nextProbeState.interval ∧ t.nextProbeState.interval ≤ queryInterval := by
      rcases hticks.next with hstate | ⟨interval, hstate, hpos, hlt⟩ <;> rw [hstate]
      · exact ⟨hticks.pos, le_rfl⟩
      · exact ⟨hpos, hlt.le⟩
    rw [resetTimer_isOk hinterval.1
      ((Nat.add_le_add_left hinterval.2 answers.now).trans htime.tick)]
    exact ⟨_, rfl⟩
  · exact ⟨_, rfl⟩

/-- The task can deal with every packet. -/
theorem InterfaceTask.OfNode.handlePacket_isOk (h : t.OfNode newV5 config peerId)
    (hticks : t.Ticking queryInterval) (htime : answers.InTime queryInterval)
    (packet : Except ProtoError (Option MdnsPacket)) :
    ∃ r, t.handlePacket text ops answers packet = .ok r := by
  obtain ⟨service, hservice, -⟩ := exists_service newV5 config.serviceFingerprint
  rcases packet with e | - | (query | response | disc)
  · exact ⟨_, rfl⟩
  · exact ⟨_, rfl⟩
  · obtain ⟨peer, hpeer⟩ := answers.peerName.exists_spells
    obtain ⟨packets, hbuild, -⟩ := buildQueryResponse_lengths text query.queryId peerId
      answers.listenAddresses config.ttl hservice hpeer answers.peerName.utf8ByteSize_text
    rw [handlePacket, h]
    exact ⟨_, congrArg (fun r => Except.map _ (built r)) hbuild⟩
  · rw [handlePacket, checkExpirations_isOk htime.ttl]
    simp only [bind, Except.bind]
    split
    · have hfits : answers.readNow + t.queryInterval ≤ maxInstant := by
        rw [hticks.interval_eq]
        exact htime.stop
      rw [resetTimer_isOk (hticks.interval_eq ▸ hticks.pos) hfits]
      exact ⟨_, rfl⟩
    · exact ⟨_, rfl⟩
  · obtain ⟨services, hservices, -⟩ := exists_metaQueryService
    rw [handlePacket, h]
    exact ⟨_, congrArg (fun r => Except.map _ (built r))
      (buildServiceDiscoveryResponse_eq_ok hservices hservice disc.queryId config.ttl)⟩

theorem InterfaceTask.OfNode.readPacket_isOk (h : t.OfNode newV5 config peerId)
    (hticks : t.Ticking queryInterval) (htime : answers.InTime queryInterval) :
    ∃ r, t.readPacket hickory text ops answers = .ok r := by
  rw [readPacket]
  split
  · rename_i buf source _
    obtain ⟨r, hr⟩ := h.handlePacket_isOk text ops hticks htime
      (MdnsPacket.newFromBytes hickory text (buf.take recvBufferSize) source t.serviceNameFqdn)
    rw [hr]
    exact ⟨_, rfl⟩
  all_goals exact ⟨_, rfl⟩

/-- **No packet makes the task of a node panic**, while its clock is in time. -/
theorem InterfaceTask.OfNode.pass_isOk (h : t.OfNode newV5 config peerId)
    (hticks : t.Ticking queryInterval) (htime : answers.InTime queryInterval) :
    ∃ r, t.pass hickory text ops answers = .ok r := by
  obtain ⟨⟨t₁, asked⟩, hask⟩ := h.askForPeers_isOk hticks htime
  have hmoves₁ : InterfaceTask.Moves hickory text ops answers t asked t₁ :=
    InterfaceTask.askForPeers_moves hask
  have h₁ := h.moves hickory text ops hmoves₁
  have hticks₁ := hticks.moves hickory text ops hmoves₁
  rw [pass, hask]
  rcases hsend : t₁.sendPacket answers with ⟨t₂, sent, ended₂⟩
  have h₂ := h₁.moves hickory text ops (InterfaceTask.sendPacket_moves hsend).1
  have hticks₂ := hticks₁.moves hickory text ops (InterfaceTask.sendPacket_moves hsend).1
  simp only [bind, Except.bind, hsend]
  cases ended₂ with
  | some ended₂ => exact ⟨_, rfl⟩
  | none =>
    rcases hreturn : t₂.returnDiscovered answers with ⟨t₃, returned, ended₃⟩
    have h₃ := h₂.moves hickory text ops (InterfaceTask.returnDiscovered_moves hreturn).1
    have hticks₃ := hticks₂.moves hickory text ops (InterfaceTask.returnDiscovered_moves hreturn).1
    dsimp only
    rw [hreturn]
    cases ended₃ with
    | some ended₃ => exact ⟨_, rfl⟩
    | none =>
      obtain ⟨r, hr⟩ := h₃.readPacket_isOk hickory text ops hticks₃ htime
      dsimp only
      rw [hr]
      exact ⟨_, rfl⟩

end Panic

end P2pClipboard
