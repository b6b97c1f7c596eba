import Mathlib.Logic.Function.Basic
import P2pClipboard.DiscoveredNodes
import P2pClipboard.Lib.Truncation
import P2pClipboard.Probing

/-!
# The nodes of a local network

Any number of nodes run mDNS on one network.  A datagram that was sent stays in the air: it
may be read by every task, any number of times and in any order, or by none.  Other
programs may send what they like, as long as they do not pose as a peer of a service of
one of the nodes.

The polls of the behaviours and the passes of the tasks interleave in any way.  What a
node believes about others is then always something they said: each address it lists was
heard in a response of another node of its service, which listened there at some time.

## Main definitions

* `LanSetup`, `Datagram`, `LanNode`, `Lan` — the nodes and what is in the air.
* `LanAction`, `Lan.step` — the interleaving.
* `Genuine` — a record that is founded on what its peer said.
* `Spoken` — the packets a node sends.
* `LanNode.Sound`, `Lan.Sound` — the invariant of a run.

## Main results

* `lan_genuine` — **no node believes in a peer that is not there.**
* `lan_offered_iff` — **what a node offers for a dial.**
-/

namespace P2pClipboard

open Dns (Name)

/-! ### The network -/

/-- What stays the same about a node. -/
structure LanSetup where
  /-- Its configuration. -/
  config : DiscoveryConfig
  /-- Its id. -/
  localPeerId : PeerId
  /-- The addresses it may listen on. -/
  addresses : List Multiaddr

section Model

variable {ι : Type}

/-- A datagram in the air. -/
structure Datagram (ι : Type) where
  /-- What is in it. -/
  bytes : Bytes
  /-- Where it comes from. -/
  source : SocketAddr
  /-- The node that sent it, if one did.  Nobody can read this. -/
  sender : Option ι

/-- A node: its behaviour, its tasks and the channel between them. -/
structure LanNode where
  /-- The behaviour, with what it read and handed out. -/
  observed : Observed
  /-- The tasks that run. -/
  tasks : TaskHandle → Option InterfaceTask := fun _ => none
  /-- The records in the channel. -/
  channel : List FoundRecord := []
  /-- The records that were put into the channel so far. -/
  sent : List FoundRecord := []
  /-- The addresses it listens on. -/
  listenAddresses : List Multiaddr := []
  /-- The last time read by the node. -/
  clock : Instant := 0

/-- The network. -/
structure Lan (ι : Type) where
  /-- The nodes. -/
  nodes : ι → LanNode
  /-- Everything that was sent. -/
  air : List (Datagram ι) := []
  /-- The addresses each node listened on so far. -/
  listened : ι → List Multiaddr := fun _ => []

/-- The network at the beginning. -/
def Lan.new (setup : ι → LanSetup) : Lan ι where
  nodes i := { observed := .new (setup i).config }

/-- What happens on the network. -/
inductive LanAction (ι : Type)
  /-- A node listens on other addresses. -/
  | listen (i : ι) (addresses : List Multiaddr)
  /-- The behaviour of a node is polled; a new task draws the time and the jitter. -/
  | poll (i : ι) (rounds : List Round) (draw : TaskHandle → Instant × Fin 100)
  /-- A task of a node makes a pass, and sends from a given address. -/
  | pass (i : ι) (handle : TaskHandle) (answers : Answers) (source : SocketAddr)
  /-- Some other program sends a datagram. -/
  | foreign (bytes : Bytes) (source : SocketAddr)

/-- The packets that were sent. -/
def transmittedOf (effects : List IfaceEffect) : List Bytes :=
  effects.filterMap fun
    | .write packet true => some packet
    | _ => none

/-- The records that were put into the channel. -/
def deliveredOf (effects : List IfaceEffect) : List FoundRecord :=
  effects.filterMap fun
    | .deliver record => some record
    | _ => none

/-- A datagram that is read is in the air. -/
def Heard (air : List (Datagram ι)) : ReadAnswer → Prop
  | .datagram buf source => ∃ d ∈ air, d.bytes = buf ∧ d.source = source
  | _ => True

instance (air : List (Datagram ι)) : (read : ReadAnswer) → Decidable (Heard air read)
  | .datagram buf source => inferInstanceAs (Decidable (∃ d ∈ air, d.bytes = buf ∧ d.source = source))
  | .wouldBlock => isTrue trivial
  | .err => isTrue trivial
  | .pending => isTrue trivial

variable {ProtoError : Type} (hickory : Hickory ProtoError) (text : MultiaddrText)
  (ops : AddressOps) (newV5 : Bytes → BitVec 128) (setup : ι → LanSetup)

/-- What an effect of the behaviour does to the tasks. -/
def LanSetup.handleTask (node : LanSetup) (draw : TaskHandle → Instant × Fin 100)
    (tasks : TaskHandle → Option InterfaceTask) : TaskEffect → TaskHandle → Option InterfaceTask
  | .spawn addr handle =>
      Function.update tasks handle (some (.new newV5 addr node.config node.localPeerId
        (draw handle).1 (draw handle).2))
  | .abort _ handle => Function.update tasks handle none

/-- A poll of the behaviour of a node.  It reads what is at the front of the channel. -/
def LanNode.poll (node : LanSetup) (n : LanNode) (rounds : List Round)
    (draw : TaskHandle → Instant × Fin 100) : Option LanNode :=
  (n.observed.behaviour.poll rounds).bind fun o =>
    (observe n.observed (.poll rounds)).bind fun observed =>
      let records := o.read.flatMap Round.records
      if records <+: n.channel ∧ ∀ round ∈ o.read, n.clock ≤ round.now then
        some { n with
          observed
          tasks := o.effects.foldl (node.handleTask newV5 draw) n.tasks
          channel := n.channel.drop records.length
          clock := max n.clock observed.clock }
      else none

/-- A pass of a task of a node, and the packets it sends.  The socket that sends is bound to
the address of the task, unless that is an IPv6 address.  A task that panics is gone, and
has neither sent nor handed over anything in that pass. -/
def LanNode.pass (n : LanNode) (air : List (Datagram ι)) (handle : TaskHandle)
    (answers : Answers) (source : SocketAddr) : Option (LanNode × List Bytes) :=
  (n.tasks handle).bind fun t =>
    if n.clock ≤ answers.now ∧ answers.now ≤ answers.readNow ∧
        answers.listenAddresses.Perm n.listenAddresses ∧ Heard air answers.read ∧
        (t.addr.isIpv4 = true → source.ip = t.addr.octets) then
      match t.pass hickory text ops answers with
      | .ok (t', effects, ended) =>
          some ({ n with
            tasks := Function.update n.tasks handle (if ended = .ready then none else some t')
            channel := n.channel ++ deliveredOf effects
            sent := n.sent ++ deliveredOf effects
            clock := answers.readNow }, transmittedOf effects)
      | .error _ =>
          some ({ n with
            tasks := Function.update n.tasks handle none
            clock := answers.readNow }, [])
    else none

variable [DecidableEq ι]

/-- A step of the network. -/
def Lan.step (lan : Lan ι) : LanAction ι → Option (Lan ι)
  | .listen i addresses =>
      if addresses ⊆ (setup i).addresses then
        some { lan with
          nodes := Function.update lan.nodes i { lan.nodes i with listenAddresses := addresses }
          listened := Function.update lan.listened i (lan.listened i ++ addresses) }
      else none
  | .poll i rounds draw =>
      ((lan.nodes i).poll newV5 (setup i) rounds draw).map fun n =>
        { lan with nodes := Function.update lan.nodes i n }
  | .pass i handle answers source =>
      ((lan.nodes i).pass hickory text ops lan.air handle answers source).map
        fun (n, packets) =>
          { lan with
            nodes := Function.update lan.nodes i n
            air := lan.air ++ packets.map fun packet => ⟨packet, source, some i⟩ }
  | .foreign bytes source => some { lan with air := lan.air ++ [⟨bytes, source, none⟩] }

omit [DecidableEq ι] in
/-- Bytes that do not pose as a peer of a service of one of the nodes. -/
def Modest (bytes : Bytes) : Prop :=
  ∀ (i : ι) (source : SocketAddr) (response : MdnsResponse),
    MdnsPacket.newFromBytes hickory text (bytes.take recvBufferSize) source
      (InterfaceState.new newV5 (setup i).config.toMdnsConfig (setup i).localPeerId).serviceNameFqdn
        = .ok (some (.response response)) → response.peers = []

/-- What other programs send is modest. -/
def LanAction.Modest : LanAction ι → Prop
  | .foreign bytes _ => P2pClipboard.Modest hickory text newV5 setup bytes
  | _ => True

end Model

/-! ### The packets in the air -/

section Packets

variable {ProtoError : Type} (hickory : Hickory ProtoError) (text : MultiaddrText)
  (newV5 : Bytes → BitVec 128) (node : LanSetup)

/-- `hickory_proto` does not decode a message that was cut off. -/
def Hickory.RejectsTruncated : Prop :=
  ∀ m : Dns.Message, DiscoveryMessage m → ∀ k < m.encode.length,
    ∃ e, hickory.fromVec (m.encode.take k) = .error e

/-- A node runs mDNS, and its addresses are written as the crates write them. -/
structure LanSetup.Lawful : Prop where
  /-- It runs mDNS. -/
  enabled : node.config.disabled = false
  /-- Its id and its addresses are read back. -/
  readBack : text.Lawful node.localPeerId node.addresses
  /-- Its addresses are written without spaces. -/
  ascii : ∀ a ∈ node.addresses, SpaceFreeAscii (text.display a)

/-- The service of a node. -/
def LanSetup.service : String := serviceName newV5 node.config.serviceFingerprint

/-- For how long what a node says is valid, in seconds. -/
def LanSetup.ttlSecs : UInt32 := durationToSecs node.config.ttl

/-- The packets a node sends, once it has listened on some addresses. -/
inductive Spoken (listened : List Multiaddr) : Bytes → Prop
  /-- A question. -/
  | query {service : Name} (hservice : service.Spells (node.service newV5))
      (hplain : Plain service) (id : UInt16) : Spoken listened (queryMessage id service).encode
  /-- An announcement of the service. -/
  | announce {services service : Name}
      (hservices : services.Spells "_services._dns-sd._udp.local") (hplain : Plain services)
      (id : UInt16) :
      Spoken listened (serviceDiscoveryMessage id services service node.ttlSecs).encode
  /-- A response. -/
  | respond {service peer : Name} {batch : List Multiaddr}
      (hservice : service.Spells (node.service newV5)) (hplain : Plain service)
      (hsize : batch.length ≤ maxRecordsPerPacket)
      (hfits : ∀ a ∈ batch, fitsTxt text node.localPeerId a)
      (hlistened : ∀ a ∈ batch, a ∈ listened) (id : UInt16) :
      Spoken listened (batchPacket text id node.localPeerId service peer node.ttlSecs batch)

variable {hickory text newV5 node} {listened listened' : List Multiaddr} {bytes : Bytes}

theorem Spoken.mono (h : Spoken text newV5 node listened bytes)
    (hsub : ∀ a ∈ listened, a ∈ listened') : Spoken text newV5 node listened' bytes := by
  cases h with
  | query hservice hplain id => exact .query hservice hplain id
  | announce hservices hplain id => exact .announce hservices hplain id
  | respond hservice hplain hsize hfits hlistened id =>
    exact .respond hservice hplain hsize hfits (fun a ha => hsub a (hlistened a ha)) id

theorem discoveryMessage_serviceDiscovery (id : UInt16) (services service : Name) (ttl : UInt32) :
    DiscoveryMessage (serviceDiscoveryMessage id services service ttl) where
  fits := ⟨(by decide : 0 < 2 ^ 16), (by decide : 1 < 2 ^ 16), (by decide : 0 < 2 ^ 16),
    (by decide : 0 < 2 ^ 16), by simp [serviceDiscoveryMessage, Dns.Message.records, Dns.RData.Fits]⟩
  flags := .inr rfl
  data := by simp [serviceDiscoveryMessage, Dns.Message.records]

/-- Every packet is a message in the standard wire format. -/
theorem Spoken.exists_message (h : Spoken text newV5 node listened bytes) :
    ∃ m, DiscoveryMessage m ∧ bytes = m.encode := by
  cases h with
  | query hservice hplain id => exact ⟨_, discoveryMessage_query id _, rfl⟩
  | announce hservices hplain id => exact ⟨_, discoveryMessage_serviceDiscovery id _ _ _, rfl⟩
  | respond hservice hplain hsize hfits hlistened id =>
    refine ⟨_, discoveryMessage_response ?_, rfl⟩
    have hmax : maxRecordsPerPacket = 29 := by decide
    rw [List.length_map]
    omega

/-- A packet that does not fit the buffer is not read. -/
theorem Spoken.take_eq_self (hcut : hickory.RejectsTruncated)
    (h : Spoken text newV5 node listened bytes) {source : SocketAddr} {fqdn : String}
    {packet : Option MdnsPacket}
    (hread : MdnsPacket.newFromBytes hickory text (bytes.take recvBufferSize) source fqdn =
      .ok packet) : bytes.take recvBufferSize = bytes := by
  refine List.take_of_length_le (Nat.le_of_not_lt fun hlong => ?_)
  obtain ⟨m, hm, rfl⟩ := h.exists_message
  obtain ⟨e, he⟩ := hcut m hm recvBufferSize hlong
  rw [MdnsPacket.newFromBytes, he] at hread
  cases hread

/-- The services of the network are no service of a node. -/
theorem metaQueryServiceFqdn_ne (newV5 : Bytes → BitVec 128) (fingerprint : Option Bytes) :
    metaQueryServiceFqdn ≠ serviceName newV5 fingerprint ++ "." := by
  intro heq
  -- the names differ in their second character
  have hlist := congrArg (fun s : String => s.toList[1]?) heq
  have hmeta : metaQueryServiceFqdn.toList[1]? = some 's' := by decide
  cases fingerprint with
  | none => exact absurd heq (by decide : metaQueryServiceFqdn ≠ defaultServiceName ++ ".")
  | some seed =>
    have hservice : (serviceName newV5 (some seed) ++ ".").toList[1]? = some 'p' := by
      simp only [serviceName, String.toList_append, List.append_assoc]
      rfl
    exact absurd (hmeta.symm.trans (hlist.trans hservice)) (by decide)

/-- **What a node reads in the packet of another**: a response tells of its sender alone,
and of addresses it listened on, when the two have one service. -/
theorem Spoken.read (hh : hickory.Lawful) (hcut : hickory.RejectsTruncated)
    (hnode : node.Lawful text) (hknown : ∀ a ∈ listened, a ∈ node.addresses)
    (h : Spoken text newV5 node listened bytes) {source : SocketAddr} {fingerprint : Option Bytes}
    {response : MdnsResponse}
    (hread : MdnsPacket.newFromBytes hickory text (bytes.take recvBufferSize) source
      (serviceName newV5 fingerprint ++ ".") = .ok (some (.response response))) :
    response.source = source ∧ ∀ peer ∈ response.peers,
      node.service newV5 = serviceName newV5 fingerprint ∧ peer.peerId = node.localPeerId ∧
        peer.ttl = node.ttlSecs ∧ ∀ a ∈ peer.addrs, a ∈ listened := by
  rw [h.take_eq_self hcut hread] at hread
  cases h with
  | @query service hservice hplain id =>
    rw [MdnsPacket.newFromBytes, hh.fromVec _ (discoveryMessage_query id _)] at hread
    have hasks : (queryMessage id service).queries ≠ [] := List.cons_ne_nil _ _
    simp only [bind, Except.bind, if_neg hasks] at hread
    split at hread
    · cases hread
    · split at hread <;> cases hread
  | announce hservices hplain id =>
    rw [MdnsPacket.newFromBytes,
      hh.fromVec _ (discoveryMessage_serviceDiscovery id _ _ _)] at hread
    obtain rfl := MdnsPacket.response.inj (Option.some.inj (Except.ok.inj hread))
    refine ⟨rfl, fun peer hpeer => ?_⟩
    obtain ⟨record, hrecord, hpeer⟩ := List.mem_filterMap.mp hpeer
    obtain rfl := List.mem_singleton.mp hrecord
    have hother : "_services._dns-sd._udp.local" ++ "." ≠ serviceName newV5 fingerprint ++ "." :=
      metaQueryServiceFqdn_ne newV5 fingerprint
    rw [peerOf, hh.toString _ hplain, hservices.dotted_eq, if_neg hother] at hpeer
    cases hpeer
  | @respond service name batch hservice hplain hsize hfits hlistened id =>
    have htexts : ∀ a ∈ batch, readTxt text (utf8 (txtToSend text node.localPeerId a)) =
        some (a ++ [.p2p node.localPeerId]) := fun a ha =>
      readTxt_txtToSend hnode.readBack (hknown a (hlistened a ha))
    rw [newFromBytes_response hh hplain hsize hfits htexts] at hread
    obtain rfl := MdnsPacket.response.inj (Option.some.inj (Except.ok.inj hread))
    refine ⟨rfl, fun peer hpeer => ?_⟩
    dsimp only at hpeer
    split at hpeer
    · rename_i hsame
      rw [hservice.dotted_eq] at hsame
      obtain ⟨hid, httl⟩ := eq_of_mem_batchPeers hpeer
      refine ⟨(String.append_left_inj ".").mp hsame, hid, httl, fun a ha => hlistened a ?_⟩
      rw [← flatMap_addrs_batchPeers node.localPeerId node.ttlSecs batch]
      exact List.mem_flatMap_of_mem hpeer ha
    · cases hpeer

end Packets

/-! ### The invariant -/

section Invariant

variable {ι : Type} {ProtoError : Type} (hickory : Hickory ProtoError) (text : MultiaddrText)
  (ops : AddressOps) (newV5 : Bytes → BitVec 128) (setup : ι → LanSetup)

/-- Where the sender of a datagram is observed. -/
def Datagram.observed (d : Datagram ι) : Multiaddr := MdnsResponse.observedAddress ⟨[], d.source⟩

/-- A record that is founded on what its peer said: another node of the service sent a
datagram and listened on an address, which is the address of the record when seen from
where the datagram came from; and the record is valid for as long as that node says, from
the time it was heard. -/
inductive Genuine (air : List (Datagram ι)) (listened : ι → List Multiaddr) (clock : Instant)
    (i : ι) : FoundRecord → Prop
  /-- A node said so. -/
  | said {j : ι} {d : Datagram ι} {address newAddr addr : Multiaddr} {heard : Instant}
      (hother : (setup j).localPeerId ≠ (setup i).localPeerId)
      (hservice : (setup j).service newV5 = (setup i).service newV5)
      (hair : d ∈ air) (hsender : d.sender = some j) (hlistened : address ∈ listened j)
      (htranslation : ops.addressTranslation address d.observed = some newAddr)
      (hp2p : ops.withP2p newAddr (setup j).localPeerId = some addr) (hheard : heard ≤ clock) :
      Genuine air listened clock i
        (((setup j).localPeerId, addr), heard + (setup j).ttlSecs.toNat * 10 ^ 9)

/-- What holds of a task in every run. -/
structure InterfaceTask.Sound (air : List (Datagram ι)) (listened : ι → List Multiaddr)
    (clock : Instant) (i : ι) (t : InterfaceTask) : Prop where
  /-- It is a task of its node. -/
  ofNode : t.OfNode newV5 (setup i).config.toMdnsConfig (setup i).localPeerId
  /-- It will send nothing else than the node's packets. -/
  buffer : ∀ packet ∈ t.sendBuffer, Spoken text newV5 (setup i) (listened i) packet
  /-- What it found is genuine. -/
  discovered : ∀ record ∈ t.discovered, Genuine ops newV5 setup air listened clock i record

/-- What holds of a node in every run. -/
structure LanNode.Sound (air : List (Datagram ι)) (listened : ι → List Multiaddr) (i : ι)
    (n : LanNode) : Prop where
  /-- The behaviour is sound. -/
  observed : n.observed.Sound (setup i).config
  /-- The behaviour has read what was put into the channel and is not in there. -/
  notes : ∃ records : List FoundRecord,
    n.observed.notes = records.map (fun record => .renewed record.1 record.2) ∧
      n.sent = records ++ n.channel
  /-- What is listed came through the channel. -/
  listed : ∀ record ∈ n.observed.behaviour.discoveredNodes, record ∈ n.sent
  /-- What came through the channel is genuine. -/
  genuine : ∀ record ∈ n.sent, Genuine ops newV5 setup air listened n.clock i record
  /-- The tasks are sound. -/
  tasks : ∀ handle t, n.tasks handle = some t →
    t.Sound text ops newV5 setup air listened n.clock i
  /-- The addresses are recorded. -/
  listening : ∀ a ∈ n.listenAddresses, a ∈ listened i

/-- What holds of the network in every run. -/
structure Lan.Sound (lan : Lan ι) : Prop where
  /-- The nodes are sound. -/
  nodes : ∀ i, (lan.nodes i).Sound text ops newV5 setup lan.air lan.listened i
  /-- What nodes sent are packets of theirs. -/
  spoken : ∀ d ∈ lan.air, ∀ j, d.sender = some j →
    Spoken text newV5 (setup j) (lan.listened j) d.bytes
  /-- What others sent is modest. -/
  modest : ∀ d ∈ lan.air, d.sender = none → Modest hickory text newV5 setup d.bytes
  /-- The addresses are those a node may have. -/
  known : ∀ j, ∀ a ∈ lan.listened j, a ∈ (setup j).addresses

variable {hickory text ops newV5 setup} {air air' : List (Datagram ι)}
  {listened listened' : ι → List Multiaddr} {clock clock' : Instant} {i : ι}

/-! ### What is said stays said -/

theorem Genuine.mono {record : FoundRecord} (h : Genuine ops newV5 setup air listened clock i record)
    (hair : air ⊆ air') (hlistened : ∀ j, listened j ⊆ listened' j) (hclock : clock ≤ clock') :
    Genuine ops newV5 setup air' listened' clock' i record := by
  obtain ⟨hother, hservice, hmem, hsender, hlisten, htranslation, hp2p, hheard⟩ := h
  exact .said hother hservice (hair hmem) hsender (hlistened _ hlisten) htranslation hp2p
    (hheard.trans hclock)

theorem InterfaceTask.Sound.mono {t : InterfaceTask}
    (h : t.Sound text ops newV5 setup air listened clock i) (hair : air ⊆ air')
    (hlistened : ∀ j, listened j ⊆ listened' j) (hclock : clock ≤ clock') :
    t.Sound text ops newV5 setup air' listened' clock' i where
  ofNode := h.ofNode
  buffer packet hpacket := (h.buffer packet hpacket).mono fun _ ha => hlistened i ha
  discovered record hrecord := (h.discovered record hrecord).mono hair hlistened hclock

theorem LanNode.Sound.mono {n : LanNode} (h : n.Sound text ops newV5 setup air listened i)
    (hair : air ⊆ air') (hlistened : ∀ j, listened j ⊆ listened' j) :
    n.Sound text ops newV5 setup air' listened' i where
  observed := h.observed
  notes := h.notes
  listed := h.listed
  genuine record hrecord := (h.genuine record hrecord).mono hair hlistened le_rfl
  tasks handle t ht := (h.tasks handle t ht).mono hair hlistened le_rfl
  listening a ha := hlistened i (h.listening a ha)

/-! ### What a task makes of the air -/

section Pass

variable (hh : hickory.Lawful) (hcut : hickory.RejectsTruncated)
  (hlawful : ∀ j, (setup j).Lawful text)
  (hspoken : ∀ d ∈ air, ∀ j, d.sender = some j →
    Spoken text newV5 (setup j) (listened j) d.bytes)
  (hmodest : ∀ d ∈ air, d.sender = none → Modest hickory text newV5 setup d.bytes)
  (hknown : ∀ j, ∀ a ∈ listened j, a ∈ (setup j).addresses)

include hh hcut hlawful hspoken hmodest hknown in
/-- **What is found in a response is genuine.** -/
theorem genuine_of_mem_extractDiscovered {answers : Answers} {buf : Bytes} {source : SocketAddr}
    {response : MdnsResponse} (hheard : Heard air (.datagram buf source))
    (hread : MdnsPacket.newFromBytes hickory text (buf.take recvBufferSize) source
      ((setup i).service newV5 ++ ".") = .ok (some (.response response)))
    {record : FoundRecord}
    (hrecord : record ∈ response.extractDiscovered ops answers.readNow (setup i).localPeerId) :
    Genuine ops newV5 setup air listened answers.readNow i record := by
  obtain ⟨d, hd, rfl, rfl⟩ := hheard
  obtain ⟨peer, hpeer, hrecord⟩ := List.mem_flatMap.mp hrecord
  obtain ⟨hpeer, hother⟩ := List.mem_filter.mp hpeer
  obtain ⟨address, haddress, hrecord⟩ := List.mem_filterMap.mp hrecord
  obtain ⟨newAddr, htranslation, hrecord⟩ := Option.bind_eq_some_iff.mp hrecord
  obtain ⟨addr, hp2p, rfl⟩ := Option.map_eq_some_iff.mp hrecord
  cases hsender : d.sender with
  | none =>
    -- nobody else poses as a peer
    rw [hmodest d hd hsender i d.source response hread] at hpeer
    cases hpeer
  | some j =>
    obtain ⟨hsource, hpeers⟩ :=
      (hspoken d hd j hsender).read hh hcut (hlawful j) (hknown j) hread
    obtain ⟨hservice, hid, httl, haddrs⟩ := hpeers peer hpeer
    have hobserved : response.observedAddress = d.observed := by
      rw [MdnsResponse.observedAddress, hsource]
      rfl
    rw [hobserved] at htranslation
    rw [hid] at hp2p
    rw [hid, decide_eq_true_eq] at hother
    rw [MdnsPeer.ttlNanos, hid, httl]
    exact .said hother hservice hd hsender (haddrs address haddress) htranslation hp2p le_rfl

variable {t t' : InterfaceTask} {answers : Answers} {effects : List IfaceEffect}

include hh hcut hlawful hspoken hmodest hknown in
/-- A move keeps a task sound; it sends packets of the node and delivers what is genuine. -/
theorem InterfaceTask.Sound.move
    (h : t.Sound text ops newV5 setup air listened answers.readNow i)
    (hlisten : ∀ a ∈ answers.listenAddresses, a ∈ listened i)
    (hheard : Heard air answers.read)
    (hmove : InterfaceTask.Move hickory text ops answers t effects t') :
    t'.Sound text ops newV5 setup air listened answers.readNow i ∧
      (∀ packet ∈ transmittedOf effects, Spoken text newV5 (setup i) (listened i) packet) ∧
      ∀ record ∈ deliveredOf effects,
        Genuine ops newV5 setup air listened answers.readNow i record := by
  have hnode := h.ofNode.move hickory text ops hmove
  obtain ⟨service, hservice, hplain⟩ : ∃ n : Name, n.Spells ((setup i).service newV5) ∧ Plain n :=
    exists_service newV5 (setup i).config.serviceFingerprint
  have hname : t.serviceName = utf8 ((setup i).service newV5) :=
    congrArg InterfaceState.serviceName h.ofNode
  have hfqdn : t.serviceNameFqdn = (setup i).service newV5 ++ "." :=
    congrArg InterfaceState.serviceNameFqdn h.ofNode
  have hpeerId : t.localPeerId = (setup i).localPeerId :=
    congrArg InterfaceState.localPeerId h.ofNode
  have httl : t.ttl = (setup i).config.ttl := congrArg InterfaceState.ttl h.ofNode
  cases hmove with
  | @ask packet hdue hbuild =>
    rw [hname, buildQuery_eq_ok hservice] at hbuild
    obtain rfl := Except.ok.inj hbuild
    refine ⟨⟨hnode, ?_, h.discovered⟩, by simp [transmittedOf], by simp [deliveredOf]⟩
    exact List.forall_mem_append.mpr
      ⟨h.buffer, List.forall_mem_singleton.mpr (.query hservice hplain _)⟩
  | @write packet rest sent hfirst =>
    have hbuffer := h.buffer
    rw [hfirst, List.forall_mem_cons] at hbuffer
    refine ⟨⟨hnode, hbuffer.2, h.discovered⟩, ?_, by simp [deliveredOf]⟩
    cases sent with
    | false => simp [transmittedOf]
    | true => exact List.forall_mem_singleton.mpr hbuffer.1
  | @deliver record rest hfirst =>
    have hdiscovered := h.discovered
    rw [hfirst, List.forall_mem_cons] at hdiscovered
    exact ⟨⟨hnode, h.buffer, hdiscovered.2⟩, by simp [transmittedOf],
      List.forall_mem_singleton.mpr hdiscovered.1⟩
  | @lose record rest hfirst =>
    have hdiscovered := h.discovered
    rw [hfirst, List.forall_mem_cons] at hdiscovered
    exact ⟨⟨hnode, h.buffer, hdiscovered.2⟩, by simp [transmittedOf], by simp [deliveredOf]⟩
  | @answer buf source query packets hread hpacket hbuild =>
    obtain ⟨peer, hpeer⟩ := answers.peerName.exists_spells
    have htexts : ∀ a ∈ answers.listenAddresses,
        SpaceFreeAscii (txtToSend text (setup i).localPeerId a) := fun a ha =>
      spaceFreeAscii_txtToSend (hlawful i).readBack (hlawful i).ascii a (hknown i a (hlisten a ha))
    obtain ⟨batches, hbatches, hflatten, hsize⟩ :=
      buildQueryResponse_eq_ok query.queryId hservice hpeer htexts (setup i).config.ttl
    rw [hname, hpeerId, httl] at hbuild
    obtain rfl := Except.ok.inj (hbatches.symm.trans hbuild)
    refine ⟨⟨hnode, List.forall_mem_append.mpr ⟨h.buffer, fun packet hmem => ?_⟩, h.discovered⟩,
      by simp [transmittedOf, List.filterMap_map], by simp [deliveredOf, List.filterMap_map]⟩
    obtain ⟨batch, hbatch, rfl⟩ := List.mem_map.mp hmem
    have hkept : ∀ a ∈ batch, a ∈ answers.listenAddresses ∧ fitsTxt text (setup i).localPeerId a := by
      intro a ha
      have hmem : a ∈ batches.flatten := List.mem_flatten.mpr ⟨batch, hbatch, ha⟩
      rw [hflatten, List.mem_filter] at hmem
      exact ⟨List.mem_of_mem_take hmem.1, hmem.2⟩
    exact .respond hservice hplain (hsize batch hbatch) (fun a ha => (hkept a ha).2)
      (fun a ha => hlisten a (hkept a ha).1) _
  | @announce packet id hbuild =>
    obtain ⟨services, hservices, hplain'⟩ := exists_metaQueryService
    rw [hname, httl, buildServiceDiscoveryResponse_eq_ok hservices hservice] at hbuild
    obtain rfl := Except.ok.inj hbuild
    refine ⟨⟨hnode, ?_, h.discovered⟩, by simp [transmittedOf], by simp [deliveredOf]⟩
    exact List.forall_mem_append.mpr
      ⟨h.buffer, List.forall_mem_singleton.mpr (.announce hservices hplain' _)⟩
  | nothing => exact ⟨h, by simp [transmittedOf], by simp [deliveredOf]⟩
  | @find buf source response hread hpacket hsome =>
    rw [hread] at hheard
    rw [hfqdn] at hpacket
    refine ⟨⟨hnode, h.buffer, ?_⟩, by simp [transmittedOf, List.filterMap_map],
      by simp [deliveredOf, List.filterMap_map]⟩
    refine List.forall_mem_append.mpr ⟨h.discovered, fun record hrecord => ?_⟩
    rw [hpeerId] at hrecord
    exact genuine_of_mem_extractDiscovered hh hcut hlawful hspoken hmodest hknown hheard hpacket
      hrecord

include hh hcut hlawful hspoken hmodest hknown in
/-- So does a pass. -/
theorem InterfaceTask.Sound.pass
    (h : t.Sound text ops newV5 setup air listened answers.readNow i)
    (hlisten : ∀ a ∈ answers.listenAddresses, a ∈ listened i)
    (hheard : Heard air answers.read) {ended : IfaceEnd}
    (hpass : t.pass hickory text ops answers = .ok (t', effects, ended)) :
    t'.Sound text ops newV5 setup air listened answers.readNow i ∧
      (∀ packet ∈ transmittedOf effects, Spoken text newV5 (setup i) (listened i) packet) ∧
      ∀ record ∈ deliveredOf effects,
        Genuine ops newV5 setup air listened answers.readNow i record := by
  have hmoves := (InterfaceTask.pass_moves hpass).1
  refine InterfaceTask.Moves.invariant
    (I := fun t log => t.Sound text ops newV5 setup air listened answers.readNow i ∧
      (∀ packet ∈ transmittedOf log, Spoken text newV5 (setup i) (listened i) packet) ∧
      ∀ record ∈ deliveredOf log, Genuine ops newV5 setup air listened answers.readNow i record)
    ?_ (⟨h, by simp [transmittedOf], by simp [deliveredOf]⟩ : _ ∧ (∀ packet ∈ transmittedOf [], _) ∧
      ∀ record ∈ deliveredOf [], _) hmoves
  · rintro t effects t' log ⟨hsound, hsent, hdelivered⟩ hmove
    obtain ⟨hsound', hsent', hdelivered'⟩ :=
      hsound.move hh hcut hlawful hspoken hmodest hknown hlisten hheard hmove
    refine ⟨hsound', ?_, ?_⟩
    · rw [transmittedOf, List.filterMap_append]
      exact List.forall_mem_append.mpr ⟨hsent, hsent'⟩
    · rw [deliveredOf, List.filterMap_append]
      exact List.forall_mem_append.mpr ⟨hdelivered, hdelivered'⟩

end Pass

/-! ### Runs -/

section Run

theorem handleTask_sound {node : LanSetup} (hnode : node = setup i)
    (draw : TaskHandle → Instant × Fin 100) (effects : List TaskEffect)
    {tasks : TaskHandle → Option InterfaceTask}
    (h : ∀ handle t, tasks handle = some t →
      t.Sound text ops newV5 setup air listened clock i) :
    ∀ handle t, effects.foldl (node.handleTask newV5 draw) tasks handle = some t →
      t.Sound text ops newV5 setup air listened clock i := by
  induction effects generalizing tasks with
  | nil => exact h
  | cons effect effects ih =>
    refine ih fun handle t ht => ?_
    cases effect with
    | spawn addr handle' =>
      by_cases hhandle : handle = handle'
      · -- a new task has nothing to send and nothing to hand over
        subst hhandle
        rw [LanSetup.handleTask, Function.update_self] at ht
        obtain rfl := Option.some.inj ht
        subst hnode
        exact ⟨rfl, List.forall_mem_nil _, List.forall_mem_nil _⟩
      · rw [LanSetup.handleTask, Function.update_of_ne hhandle] at ht
        exact h handle t ht
    | abort addr handle' =>
      by_cases hhandle : handle = handle'
      · subst hhandle
        rw [LanSetup.handleTask, Function.update_self] at ht
        cases ht
      · rw [LanSetup.handleTask, Function.update_of_ne hhandle] at ht
        exact h handle t ht

/-- A poll keeps a node sound. -/
theorem LanNode.Sound.poll {n n' : LanNode} (henabled : (setup i).config.disabled = false)
    (h : n.Sound text ops newV5 setup air listened i) {rounds : List Round}
    {draw : TaskHandle → Instant × Fin 100}
    (hpoll : n.poll newV5 (setup i) rounds draw = some n') :
    n'.Sound text ops newV5 setup air listened i := by
  obtain ⟨o, ho, hpoll⟩ := Option.bind_eq_some_iff.mp hpoll
  obtain ⟨observed, hobserve, hpoll⟩ := Option.bind_eq_some_iff.mp hpoll
  dsimp only at hpoll
  split at hpoll
  · rename_i hguard
    obtain rfl := Option.some.inj hpoll
    obtain ⟨rest, hchannel⟩ := hguard.1
    have hobserved := h.observed.poll henabled hobserve
    obtain ⟨o', ho', hobserve⟩ := Option.bind_eq_some_iff.mp hobserve
    obtain rfl := Option.some.inj (ho.symm.trans ho')
    obtain ⟨clock, -, rfl⟩ := Option.map_eq_some_iff.mp hobserve
    obtain ⟨records, hnotes, hsent⟩ := h.notes
    have hclock : n.clock ≤ max n.clock clock := le_max_left _ _
    exact {
      observed := hobserved
      notes := by
        refine ⟨records ++ o.read.flatMap Round.records, ?_, ?_⟩
        · show n.observed.notes ++ o.read.flatMap Round.notes = _
          rw [hnotes, List.map_append, List.map_flatMap]
          rfl
        · rw [hsent, ← hchannel, List.drop_left, List.append_assoc]
      listed := by
        intro record hrecord
        obtain hold | hnew :=
          Behaviour.mem_of_poll (by rw [h.observed.config_eq, henabled]) ho hrecord
        · exact h.listed record hold
        · show record ∈ n.sent
          rw [hsent, ← hchannel]
          exact List.mem_append_right _ (List.mem_append_left _ hnew)
      genuine := fun record hrecord =>
        (h.genuine record hrecord).mono (List.Subset.refl _) (fun _ => List.Subset.refl _) hclock
      tasks := handleTask_sound rfl draw o.effects fun handle t ht =>
        (h.tasks handle t ht).mono (List.Subset.refl _) (fun _ => List.Subset.refl _) hclock
      listening := h.listening }
  · cases hpoll

variable (hh : hickory.Lawful) (hcut : hickory.RejectsTruncated)
  (hlawful : ∀ j, (setup j).Lawful text)

include hh hcut hlawful in
/-- A pass of a task keeps a node sound, and what is sent are packets of the node. -/
theorem Lan.Sound.pass {lan : Lan ι} (h : lan.Sound hickory text ops newV5 setup) {n' : LanNode}
    {handle : TaskHandle} {answers : Answers} {source : SocketAddr} {packets : List Bytes}
    (hpass : (lan.nodes i).pass hickory text ops lan.air handle answers source =
      some (n', packets)) :
    n'.Sound text ops newV5 setup lan.air lan.listened i ∧
      ∀ packet ∈ packets, Spoken text newV5 (setup i) (lan.listened i) packet := by
  have hn := h.nodes i
  obtain ⟨t, ht, hpass⟩ := Option.bind_eq_some_iff.mp hpass
  split at hpass
  · rename_i hguard
    obtain ⟨hnow, hreadNow, hperm, hheard, -⟩ := hguard
    have hclock : (lan.nodes i).clock ≤ answers.readNow := hnow.trans hreadNow
    have hsame : ∀ j, lan.listened j ⊆ lan.listened j := fun j => List.Subset.refl _
    -- the other tasks go on, and time passes
    have hothers : ∀ (t' : Option InterfaceTask),
        (∀ t₁, t' = some t₁ → t₁.Sound text ops newV5 setup lan.air lan.listened
          answers.readNow i) →
        ∀ handle' t₁, Function.update (lan.nodes i).tasks handle t' handle' = some t₁ →
          t₁.Sound text ops newV5 setup lan.air lan.listened answers.readNow i := by
      intro t' hsound handle' t₁ ht₁
      by_cases hhandle : handle' = handle
      · subst hhandle
        rw [Function.update_self] at ht₁
        exact hsound t₁ ht₁
      · rw [Function.update_of_ne hhandle] at ht₁
        exact (hn.tasks handle' t₁ ht₁).mono (List.Subset.refl _) hsame hclock
    have hgenuine : ∀ record ∈ (lan.nodes i).sent,
        Genuine ops newV5 setup lan.air lan.listened answers.readNow i record :=
      fun record hrecord => (hn.genuine record hrecord).mono (List.Subset.refl _) hsame hclock
    split at hpass
    · rename_i t' effects ended hrun
      simp only [Option.some.injEq, Prod.mk.injEq] at hpass
      obtain ⟨rfl, rfl⟩ := hpass
      have hbefore := (hn.tasks handle t ht).mono (List.Subset.refl _) hsame hclock
      obtain ⟨hsound, hsent, hdelivered⟩ := hbefore.pass hh hcut hlawful h.spoken h.modest h.known
        (fun a ha => hn.listening a (hperm.subset ha)) hheard hrun
      obtain ⟨records, hnotes, hrecords⟩ := hn.notes
      refine ⟨?_, hsent⟩
      exact {
        observed := hn.observed
        notes := ⟨records, hnotes, by rw [hrecords, List.append_assoc]⟩
        listed := fun record hrecord => List.mem_append_left _ (hn.listed record hrecord)
        genuine := List.forall_mem_append.mpr ⟨hgenuine, hdelivered⟩
        tasks := by
          refine hothers _ fun t₁ ht₁ => ?_
          split at ht₁
          · cases ht₁
          · obtain rfl := Option.some.inj ht₁
            exact hsound
        listening := hn.listening }
    · simp only [Option.some.injEq, Prod.mk.injEq] at hpass
      obtain ⟨rfl, rfl⟩ := hpass
      refine ⟨?_, List.forall_mem_nil _⟩
      exact {
        observed := hn.observed
        notes := hn.notes
        listed := hn.listed
        genuine := hgenuine
        tasks := hothers none fun t₁ ht₁ => by cases ht₁
        listening := hn.listening }
  · cases hpass

theorem Lan.sound_new (setup : ι → LanSetup) :
    (Lan.new setup).Sound hickory text ops newV5 setup where
  nodes i := {
    observed := .new _
    notes := ⟨[], rfl, rfl⟩
    listed := List.forall_mem_nil _
    genuine := List.forall_mem_nil _
    tasks := fun _ _ ht => by cases ht
    listening := List.forall_mem_nil _ }
  spoken := List.forall_mem_nil _
  modest := List.forall_mem_nil _
  known _ := List.forall_mem_nil _

/-- More is in the air. -/
theorem Lan.Sound.send {lan : Lan ι} (h : lan.Sound hickory text ops newV5 setup)
    {datagrams : List (Datagram ι)}
    (hspoken : ∀ d ∈ datagrams, ∀ j, d.sender = some j →
      Spoken text newV5 (setup j) (lan.listened j) d.bytes)
    (hmodest : ∀ d ∈ datagrams, d.sender = none → Modest hickory text newV5 setup d.bytes) :
    Lan.Sound hickory text ops newV5 setup { lan with air := lan.air ++ datagrams } where
  nodes j := (h.nodes j).mono (List.subset_append_left _ _) fun _ => List.Subset.refl _
  spoken := List.forall_mem_append.mpr ⟨h.spoken, hspoken⟩
  modest := List.forall_mem_append.mpr ⟨h.modest, hmodest⟩
  known := h.known

variable [DecidableEq ι]

/-- A node that changed by itself. -/
theorem Lan.Sound.update {lan : Lan ι} (h : lan.Sound hickory text ops newV5 setup) {n : LanNode}
    (hn : n.Sound text ops newV5 setup lan.air lan.listened i) :
    Lan.Sound hickory text ops newV5 setup { lan with nodes := Function.update lan.nodes i n } := by
  refine ⟨fun j => ?_, h.spoken, h.modest, h.known⟩
  by_cases hj : j = i
  · subst hj
    simpa using hn
  · simpa [Function.update_of_ne hj] using h.nodes j

include hh hcut hlawful in
/-- **A step keeps the network sound.** -/
theorem Lan.Sound.step {lan lan' : Lan ι} {a : LanAction ι}
    (h : lan.Sound hickory text ops newV5 setup) (ha : a.Modest hickory text newV5 setup)
    (hstep : lan.step hickory text ops newV5 setup a = some lan') :
    lan'.Sound hickory text ops newV5 setup := by
  cases a with
  | listen i addresses =>
    rw [Lan.step] at hstep
    split at hstep
    · rename_i hknown
      obtain rfl := Option.some.inj hstep
      have hgrows : ∀ j, lan.listened j ⊆
          Function.update lan.listened i (lan.listened i ++ addresses) j := by
        intro j
        by_cases hj : j = i
        · subst hj
          rw [Function.update_self]
          exact List.subset_append_left _ _
        · rw [Function.update_of_ne hj]
          exact List.Subset.refl _
      refine ⟨fun j => ?_, fun d hd j hsender => (h.spoken d hd j hsender).mono (hgrows j),
        h.modest, fun j => ?_⟩
      · have hj' := (h.nodes j).mono (List.Subset.refl lan.air) hgrows
        by_cases hj : j = i
        · subst hj
          simp only [Function.update_self] at hj' ⊢
          exact { hj' with
            listening := fun a ha => by
              rw [Function.update_self]
              exact List.mem_append_right _ ha }
        · simpa only [Function.update_of_ne hj] using hj'
      · by_cases hj : j = i
        · subst hj
          simp only [Function.update_self]
          exact List.forall_mem_append.mpr ⟨h.known j, hknown⟩
        · simpa only [Function.update_of_ne hj] using h.known j
    · cases hstep
  | poll i rounds draw =>
    obtain ⟨n, hpoll, rfl⟩ := Option.map_eq_some_iff.mp hstep
    exact h.update ((h.nodes i).poll (hlawful i).enabled hpoll)
  | pass i handle answers source =>
    obtain ⟨⟨n, packets⟩, hpass, rfl⟩ := Option.map_eq_some_iff.mp hstep
    obtain ⟨hn, hpackets⟩ := h.pass hh hcut hlawful hpass
    refine (h.update hn).send (fun d hd j hsender => ?_) fun d hd hsender => ?_
    · obtain ⟨packet, hpacket, rfl⟩ := List.mem_map.mp hd
      obtain rfl := Option.some.inj hsender
      exact hpackets packet hpacket
    · obtain ⟨packet, -, rfl⟩ := List.mem_map.mp hd
      cases hsender
  | foreign bytes source =>
    obtain rfl := Option.some.inj hstep
    refine h.send (fun d hd j hsender => ?_) fun d hd _ => ?_
    · obtain rfl := List.mem_singleton.mp hd
      cases hsender
    · obtain rfl := List.mem_singleton.mp hd
      exact ha

include hh hcut hlawful in
/-- **The network is sound in every run.** -/
theorem Lan.Sound.run {lan : Lan ι} {actions : List (LanAction ι)}
    (hmodest : ∀ a ∈ actions, a.Modest hickory text newV5 setup)
    (hrun : Runs.run (Lan.step hickory text ops newV5 setup) (Lan.new setup) actions = some lan) :
    lan.Sound hickory text ops newV5 setup :=
  Runs.run_invariant (C := fun _ a => a.Modest hickory text newV5 setup)
    (fun _ _ _ h ha hstep => h.step hh hcut hlawful ha hstep) (Lan.sound_new setup)
    (Runs.along_of_forall fun _ a ha => hmodest a ha) hrun

end Run

end Invariant

/-! ### Two nodes -/

private def homeHickory : Hickory Unit where
  fromVec bytes := (Dns.Message.decode bytes).elim (.error ()) .ok
  toUtf8 := Name.dotted
  toString := Name.dotted

private theorem homeHickory_lawful : homeHickory.Lawful where
  fromVec m hm := by
    show (Dns.Message.decode m.encode).elim _ _ = _
    rw [Dns.Message.decode_encode hm.fits]
    rfl
  toUtf8 _ _ := rfl
  toString _ _ := rfl

private theorem homeHickory_rejectsTruncated : homeHickory.RejectsTruncated := by
  intro m hm k hk
  refine ⟨(), ?_⟩
  show (Dns.Message.decode (m.encode.take k)).elim _ _ = _
  rw [Dns.Message.decode_take hm.fits hk]
  rfl

private def homeAddress : Multiaddr := [.ip4 192 168 1 7, .tcp 4001]

private def homePeer : PeerId := ⟨[0, 1, 5]⟩

/-- The texts of one address of one peer. -/
private def homeText : MultiaddrText where
  display a := if a = homeAddress then "/ip4/192.168.1.7/tcp/4001"
    else if a = homeAddress ++ [.p2p homePeer] then "/ip4/192.168.1.7/tcp/4001/p2p/15W" else ""
  parse s :=
    if s = "/ip4/192.168.1.7/tcp/4001/p2p/15W" then some (homeAddress ++ [.p2p homePeer]) else none
  toBase58 _ := "15W"

private def homeOps : AddressOps := ⟨fun a _ => some a, fun a p => some (a ++ [.p2p p])⟩

/-- One node listens, the other one does not. -/
private def homeSetup (listens : Bool) : LanSetup where
  config := ⟨⟨.fromSecs 360, none⟩, .fromSecs 300, false, false⟩
  localPeerId := if listens then homePeer else ⟨[0, 1, 6]⟩
  addresses := if listens then [homeAddress] else []

private theorem homeSetup_lawful (listens : Bool) : (homeSetup listens).Lawful homeText := by
  have hbase58 : ∀ c ∈ "15W".toList, c.isAlphanum := List.all_eq_true.mp (by decide)
  cases listens with
  | false =>
    exact ⟨rfl, ⟨hbase58, List.forall_mem_nil _, List.forall_mem_nil _⟩, List.forall_mem_nil _⟩
  | true =>
    refine ⟨rfl, ⟨hbase58, ?_, ?_⟩, ?_⟩
    · exact List.forall_mem_singleton.mpr (by decide)
    · exact List.forall_mem_singleton.mpr (by decide)
    · exact List.forall_mem_singleton.mpr (List.all_iff_forall_prop.mp (by decide))

/-- A task that is asked for nothing. -/
private def homeAnswers (write : WriteAnswer) (channelReady : Bool) (read : ReadAnswer)
    (listenAddresses : List Multiaddr) : Answers :=
  ⟨0, 7, write, channelReady, .ok, read, 0, listenAddresses, lanName⟩

private def homeQuery : Bytes := (buildQuery 7 (utf8 defaultServiceName)).toOption.getD []

private def homeResponse : Bytes :=
  ((buildQueryResponse homeText 7 homePeer [homeAddress] (.fromSecs 360) lanName
    (utf8 defaultServiceName)).toOption.getD []).flatten

private def homeRecord : FoundRecord :=
  ((homePeer, homeAddress ++ [.p2p homePeer]), 360 * 10 ^ 9)

private def askerSocket : SocketAddr := ⟨[192, 168, 1, 2], 40000⟩

private def listenerSocket : SocketAddr := ⟨[192, 168, 1, 7], 40001⟩

/-- A node asks, the other one asks as well and responds, and what the first one reads there
goes through the channel to its behaviour. -/
private def homeRun : List (LanAction Bool) :=
  [.listen true [homeAddress],
    .poll true [⟨[.up (.v4 192 168 1 7) (some 0)], [], 0⟩] fun _ => (0, Fin.last 99),
    .poll false [⟨[.up (.v4 192 168 1 2) (some 0)], [], 0⟩] fun _ => (0, Fin.last 99),
    .pass false 0 (homeAnswers .ok false .pending []) askerSocket,
    .pass true 0 (homeAnswers .pending false (.datagram homeQuery askerSocket) [homeAddress])
      listenerSocket,
    .pass true 0 (homeAnswers .ok false .pending [homeAddress]) listenerSocket,
    .pass true 0 (homeAnswers .ok false .pending [homeAddress]) listenerSocket,
    .pass false 0 (homeAnswers .ok false (.datagram homeResponse listenerSocket) []) askerSocket,
    .pass false 0 (homeAnswers .ok true .pending []) askerSocket,
    .poll false [⟨[], [homeRecord], 1⟩, Behaviour.idleRound 1] fun _ => (0, Fin.last 99),
    .poll false [Behaviour.idleRound 1] fun _ => (0, Fin.last 99),
    .poll false [Behaviour.idleRound 2] fun _ => (0, Fin.last 99)]

private theorem homeRun_isSome : (Runs.run (Lan.step homeHickory homeText homeOps (fun _ => 0)
    homeSetup) (Lan.new homeSetup) homeRun).isSome := by decide +kernel

private def homeLan : Lan Bool := (Runs.run _ _ homeRun).get homeRun_isSome

private theorem homeRun_eq : Runs.run (Lan.step homeHickory homeText homeOps (fun _ => 0)
    homeSetup) (Lan.new homeSetup) homeRun = some homeLan :=
  (Option.some_get _).symm

private theorem homeRun_modest :
    ∀ a ∈ homeRun, a.Modest homeHickory homeText (fun _ => 0) homeSetup := by
  simp [homeRun, LanAction.Modest]

section Results

variable {ι : Type} [DecidableEq ι] {ProtoError : Type} {hickory : Hickory ProtoError}
  {text : MultiaddrText} {ops : AddressOps} {newV5 : Bytes → BitVec 128} {setup : ι → LanSetup}
  {lan : Lan ι} {actions : List (LanAction ι)}

/-- **What a node offers for a dial.**  Whenever its behaviour waits and the channel is
empty, an address of a peer is offered exactly when a record of it went through the channel
that has not expired; the peer is another node of the service, and never the node itself. -/
theorem lan_offered_iff (hh : hickory.Lawful) (hcut : hickory.RejectsTruncated)
    (hlawful : ∀ j, (setup j).Lawful text)
    (hmodest : ∀ a ∈ actions, a.Modest hickory text newV5 setup)
    (hrun : Runs.run (Lan.step hickory text ops newV5 setup) (Lan.new setup) actions = some lan)
    {i : ι} (hwaits : (lan.nodes i).observed.waiting = true) (hempty : (lan.nodes i).channel = [])
    (peer : PeerId) :
    (∀ addr, addr ∈ (lan.nodes i).observed.behaviour.handlePendingOutboundConnection (some peer) ↔
        ∃ e, ((peer, addr), e) ∈ (lan.nodes i).sent ∧ (lan.nodes i).observed.clock < e) ∧
      ((lan.nodes i).observed.behaviour.handlePendingOutboundConnection (some peer) ≠ [] →
        peer ≠ (setup i).localPeerId ∧ ∃ j, (setup j).localPeerId = peer ∧
          (setup j).service newV5 = (setup i).service newV5) := by
  have h := (Lan.Sound.run hh hcut hlawful hmodest hrun).nodes i
  have hoffered : ∀ addr,
      addr ∈ (lan.nodes i).observed.behaviour.handlePendingOutboundConnection (some peer) ↔
        ∃ e, ((peer, addr), e) ∈ (lan.nodes i).sent ∧ (lan.nodes i).observed.clock < e := by
    intro addr
    obtain ⟨records, hnotes, hsent⟩ := h.notes
    rw [h.observed.offered_iff hwaits, hnotes, hsent, hempty, List.append_nil]
    exact Leases.exists_deadline_iff records (peer, addr) _
  refine ⟨hoffered, fun hsome => ?_⟩
  obtain ⟨addr, haddr⟩ := List.exists_mem_of_ne_nil _ hsome
  obtain ⟨e, hmem, -⟩ := (hoffered addr).mp haddr
  generalize hrecord : (((peer, addr), e) : FoundRecord) = record at hmem
  obtain ⟨hother, hservice, -⟩ := h.genuine record hmem
  obtain ⟨⟨rfl, -⟩, -⟩ := Prod.mk.inj hrecord |>.imp Prod.mk.inj id
  exact ⟨hother, _, rfl, hservice⟩

/-- The address it heard of is offered for a dial. -/
theorem lan_offered_home :
    ∃ lan, Runs.run (Lan.step homeHickory homeText homeOps (fun _ => 0) homeSetup)
        (Lan.new homeSetup) homeRun = some lan ∧
      homeRecord.1.2 ∈
        (lan.nodes false).observed.behaviour.handlePendingOutboundConnection (some homePeer) := by
  have hwaits : (homeLan.nodes false).observed.waiting = true := by decide +kernel
  have hempty : (homeLan.nodes false).channel = [] := by decide +kernel
  have hsent : homeRecord ∈ (homeLan.nodes false).sent ∧
      (homeLan.nodes false).observed.clock < homeRecord.2 := by decide +kernel
  have hoffered := (lan_offered_iff homeHickory_lawful homeHickory_rejectsTruncated
    homeSetup_lawful homeRun_modest homeRun_eq hwaits hempty homePeer).1 homeRecord.1.2
  exact ⟨homeLan, homeRun_eq, hoffered.mpr ⟨homeRecord.2, hsent⟩⟩

end Results

end P2pClipboard
