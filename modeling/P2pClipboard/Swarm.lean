import P2pClipboard.Receive

/-!
# The event loop's view of the swarm

The endpoints the loop of `run` keeps track of, and what it does with each event
of the swarm, with a retry callback and after a long idle time.  Every handler
maps the tracked endpoints to new ones and lists the calls it makes; none of them
touches the queue of messages to publish.

Whatever libp2p answers to a call (`dial`, `bootstrap`, `disconnect_peer_id`) is
discarded by the source, so a call is recorded and has no result.  The questions
put to the swarm are answered by a `SwarmView`.

## Main definitions

* `Multiaddr`, `isMultiaddrLocal`, `isMultiaddrLinkLocal`,
  `getNonP2pMultiaddr` — addresses.
* `Endpoints` — the tracked endpoints.
* `SwarmEvent`, `Call` — what the loop is told, and what it asks for.
* `handleEndpointEvent`, `handleRetryCallback`, `handleIdle` — the handlers.

## Main results

* `handleEndpointEvent_toClipboard` — no event but a message leads to the clipboard.
-/

namespace P2pClipboard

/-! ### Addresses -/

/-- The identity of a peer: a multihash of its public key. -/
structure PeerId where
  /-- The multihash. -/
  bytes : Bytes
  deriving DecidableEq, Repr

/-- A component of an address. -/
inductive Protocol
  /-- An IPv4 address. -/
  | ip4 (a b c d : UInt8)
  /-- A TCP port. -/
  | tcp (port : UInt16)
  /-- A peer. -/
  | p2p (peer : PeerId)
  /-- Any other component, which the loop only compares. -/
  | other (code : ℕ) (value : Bytes)
  deriving DecidableEq, Repr

/-- An address: a sequence of components, which may be empty. -/
abbrev Multiaddr := List Protocol

/-- `get_non_p2p_multiaddr`: components are popped until at most two are left. -/
def getNonP2pMultiaddr (originAddr : Multiaddr) : Multiaddr := originAddr.take 2

/-- `is_multiaddr_link_local`: looks at the first component, which must exist. -/
def isMultiaddrLinkLocal : Multiaddr → Except Panic Bool
  | [] => .error .indexOutOfBounds
  | .ip4 a b _ _ :: _ => .ok (a == 169 && b == 254)
  | _ :: _ => .ok false

/-- `is_multiaddr_local`: looks at the first component, which must exist. -/
def isMultiaddrLocal : Multiaddr → Except Panic Bool
  | [] => .error .indexOutOfBounds
  | p :: _ => .ok (p == .ip4 127 0 0 1)

/-- The number of addresses that pass a test. -/
def countAddrs (test : Multiaddr → Except Panic Bool) (addrs : List Multiaddr) :
    Except Panic ℕ :=
  (addrs.filterM test).map List.length

/-- The number of addresses that are not local. -/
def nonLocalAddrCount (addrs : List Multiaddr) : Except Panic ℕ :=
  countAddrs (fun addr => (isMultiaddrLocal addr).map not) addrs

/-- The number of link-local addresses. -/
def linkLocalCount (addrs : List Multiaddr) : Except Panic ℕ :=
  countAddrs isMultiaddrLinkLocal addrs

/-! ### The tracked endpoints -/

/-- A peer at an address. -/
structure PeerEndpointCache where
  /-- The peer. -/
  peerId : PeerId
  /-- Its address. -/
  address : Multiaddr
  deriving DecidableEq, Repr

/-- A connection to be tried again. -/
structure ConnectionRetryTask where
  /-- What to connect to. -/
  target : PeerEndpointCache
  /-- How often it was tried again. -/
  retryCount : ℕ
  deriving DecidableEq, Repr

/-- The maps and sets of `run` about other peers.  Hash sets are lists without
repetition, hash maps are functions into `Option`. -/
structure Endpoints where
  /-- The connected endpoints, the latest first. -/
  endpointCache : List PeerEndpointCache := []
  /-- The connected endpoints. -/
  uniqueEndpoints : List PeerEndpointCache := []
  /-- The addresses the node listens on. -/
  currentListenAddresses : List Multiaddr := []
  /-- The addresses each peer last announced. -/
  announcedIdentities : PeerId → Option (List Multiaddr) := fun _ => none
  /-- The connections to be tried again. -/
  failingConnections : PeerEndpointCache → Option ConnectionRetryTask := fun _ => none

/-- What the loop asks of the swarm and of its channels, publishing apart. -/
inductive Call
  /-- `tx.send`: hand a received content to the clipboard. -/
  | toClipboard (content : ClipboardContent)
  /-- `retry_queue_tx.send`. -/
  | retry (task : ConnectionRetryTask)
  /-- `swarm.dial`. -/
  | dial (address : Multiaddr)
  /-- `swarm.disconnect_peer_id`. -/
  | disconnectPeerId (peer : PeerId)
  /-- `identify.push`. -/
  | identifyPush (peers : List PeerId)
  /-- `kademlia.add_address`. -/
  | addAddress (peer : PeerId) (address : Multiaddr)
  /-- `kademlia.remove_address`. -/
  | removeAddress (peer : PeerId) (address : Multiaddr)
  /-- `kademlia.remove_peer`. -/
  | removePeer (peer : PeerId)
  /-- `kademlia.bootstrap`. -/
  | bootstrap
  /-- `kademlia.get_closest_peers`. -/
  | getClosestPeers (peer : PeerId)
  deriving DecidableEq, Repr

/-! ### Events -/

/-- The other end of a connection. -/
structure ConnectedPoint where
  /-- Its address. -/
  remoteAddress : Multiaddr
  /-- This node opened the connection. -/
  isDialer : Bool
  deriving DecidableEq, Repr

/-- Why a connection was closed. -/
inductive ConnectionError
  /-- An error of the transport. -/
  | io
  /-- Nobody used the connection. -/
  | keepAliveTimeout
  deriving DecidableEq, Repr

/-- Why one address could not be dialled. -/
inductive TransportError
  /-- No transport supports the address. -/
  | multiaddrNotSupported
  /-- Another error, with the debug text of its inner error when it has one. -/
  | other (inner : Option String)
  deriving DecidableEq, Repr

/-- Why a peer could not be dialled. -/
inductive DialError
  | transport (errors : List (Multiaddr × TransportError))
  | noAddresses
  | aborted
  | dialPeerConditionFalse
  | localPeerId
  | wrongPeerId
  | denied
  deriving DecidableEq, Repr

/-- The events of the swarm, with the parts the loop looks at. -/
inductive SwarmEvent
  /-- A gossipsub message. -/
  | gossipMessage (data : Bytes)
  /-- The addresses a peer announces. -/
  | identifyReceived (peerId : PeerId) (listenAddrs : List Multiaddr)
  | newListenAddr (address : Multiaddr)
  | expiredListenAddr (address : Multiaddr)
  | connectionEstablished (peerId : PeerId) (endpoint : ConnectedPoint)
  | connectionClosed (peerId : PeerId) (cause : Option ConnectionError)
      (endpoint : ConnectedPoint) (numEstablished : ℕ)
  | outgoingConnectionError (peerId : Option PeerId) (error : DialError)
  | mdnsDiscovered (list : List (PeerId × Multiaddr))
  | mdnsExpired (list : List (PeerId × Multiaddr))
  /-- An event that is at most logged, such as those of Kademlia. -/
  | other
  deriving DecidableEq, Repr

/-- What the swarm answers when it is asked. -/
structure SwarmView where
  /-- The connected peers. -/
  connectedPeers : List PeerId := []
  /-- The peers of gossipsub with the topics they subscribed to. -/
  allPeers : List (PeerId × List String) := []

/-- What `run` is started with. -/
structure Config where
  /-- Which panics the build has. -/
  build : Build
  /-- The hash function. -/
  sha : Sha256
  /-- The node itself. -/
  localPeerId : PeerId
  /-- The node to connect to first. -/
  bootNode : Option PeerEndpointCache := none

/-! ### The handlers -/

namespace Endpoints

/-- Forget the connected endpoints with a property. -/
def forget (e : Endpoints) (dead : PeerEndpointCache → Bool) : Endpoints :=
  { e with
    uniqueEndpoints := e.uniqueEndpoints.filter fun x => !dead x
    endpointCache := e.endpointCache.filter fun x => !dead x }

/-- Note a failed connection, keeping the count of an earlier note, and queue its
retry. -/
def noteFailure (e : Endpoints) (target : PeerEndpointCache) : Endpoints × List Call :=
  let retryTask := (e.failingConnections target).getD ⟨target, 0⟩
  ({ e with failingConnections := Function.update e.failingConnections target (some retryTask) },
    [.retry retryTask])

/-- Stop retrying a connection. -/
def dropFailure (e : Endpoints) (target : PeerEndpointCache) : Endpoints :=
  { e with failingConnections := Function.update e.failingConnections target none }

end Endpoints

/-- The Identify branch: drop the addresses no longer announced, add the others
unless they are local. -/
def handleIdentifyReceived (peerId : PeerId) (listenAddrs : List Multiaddr) (e : Endpoints) :
    Except Panic (Endpoints × List Call) := do
  let expired := match e.announcedIdentities peerId with
    | some oldVec => oldVec.dedup.filter fun addr => addr ∉ listenAddrs
    | none => []
  let added ← listenAddrs.filterM fun addr => (isMultiaddrLocal addr).map not
  return ({ e with
      announcedIdentities := Function.update e.announcedIdentities peerId (some listenAddrs) },
    expired.map (Call.removeAddress peerId) ++ added.map (Call.addAddress peerId))

/-- The NewListenAddr branch; the addresses are counted before the new one is
inserted. -/
def handleNewListenAddr (cfg : Config) (view : SwarmView) (address : Multiaddr) (e : Endpoints) :
    Except Panic (Endpoints × List Call) := do
  let nonLocal ← nonLocalAddrCount e.currentListenAddresses
  let dials := match cfg.bootNode with
    | some bootNode =>
        if view.connectedPeers.length = 0 ∨ nonLocal = 0 then [Call.dial bootNode.address] else []
    | none => []
  return ({ e with currentListenAddresses := e.currentListenAddresses.insert address },
    .identifyPush (cfg.bootNode.toList.map PeerEndpointCache.peerId) :: dials ++ [.bootstrap])

/-- The ExpiredListenAddr branch; the addresses are counted after the expired one
is removed. -/
def handleExpiredListenAddr (cfg : Config) (address : Multiaddr) (e : Endpoints) :
    Except Panic (Endpoints × List Call) := do
  let e := { e with
    currentListenAddresses := e.currentListenAddresses.filter fun addr => addr ≠ address }
  let nonLocal ← nonLocalAddrCount e.currentListenAddresses
  let push := Call.identifyPush (cfg.bootNode.toList.map PeerEndpointCache.peerId)
  match cfg.bootNode with
  | some bootNode =>
      if 0 < nonLocal then
        let (e, calls) := e.noteFailure bootNode
        return (e, push :: calls)
      else return (e, [push])
  | none => return (e, [push])

/-- The ConnectionEstablished branch: the endpoint moves to the front, and the
peer's failures are forgotten. -/
def handleConnectionEstablished (peerId : PeerId) (endpoint : ConnectedPoint) (e : Endpoints) :
    Endpoints :=
  let cache : PeerEndpointCache := ⟨peerId, getNonP2pMultiaddr endpoint.remoteAddress⟩
  { e with
    uniqueEndpoints := e.uniqueEndpoints.insert cache
    endpointCache :=
      cache :: (if cache ∈ e.uniqueEndpoints then e.endpointCache.filter fun x => x ≠ cache
        else e.endpointCache)
    failingConnections := fun c => (e.failingConnections c).filter fun _ => c.peerId ≠ peerId }

/-- The ConnectionClosed branch: forget the peer with its last connection and the
address of a connection that failed, and retry one this node had opened. -/
def handleConnectionClosed (peerId : PeerId) (cause : Option ConnectionError)
    (endpoint : ConnectedPoint) (numEstablished : ℕ) (e : Endpoints) : Endpoints × List Call :=
  let e := if numEstablished = 0 then e.forget fun x => x.peerId = peerId else e
  match cause with
  | none => (e, [])
  | some connectionError =>
      let e := e.forget fun x => x.address = endpoint.remoteAddress
      if connectionError = .io ∧ endpoint.isDialer = true then
        e.noteFailure ⟨peerId, endpoint.remoteAddress⟩
      else (e, [])

/-- The inner errors after which a connection is held and tried again. -/
def shouldHoldAndRetry (errorMsg : String) : Bool :=
  ["NetworkUnreachable", "Timeout"].any fun e => e.toList <:+: errorMsg.toList

/-- One failed address of a dial. -/
def handleTransportError (peerId : Option PeerId) (addr : Multiaddr) (err : TransportError)
    (e : Endpoints) : Endpoints × List Call :=
  match err, peerId with
  | .other (some errorMsg), some peer =>
      if shouldHoldAndRetry errorMsg then
        e.noteFailure ⟨peer, addr⟩
      else
        ((e.forget fun ep => ep.address = addr).dropFailure ⟨peer, addr⟩,
          [.removeAddress peer addr])
  | _, _ => (e, [])

/-- The failed addresses of a dial, one after the other. -/
def handleTransportErrors (peerId : Option PeerId) (errors : List (Multiaddr × TransportError))
    (e : Endpoints) : Endpoints × List Call :=
  errors.foldl
    (fun acc err =>
      let (e, calls) := handleTransportError peerId err.1 err.2 acc.1
      (e, acc.2 ++ calls))
    (e, [])

/-- The dial errors after which the peer is cleaned out. -/
def shouldCleanPeer : DialError → Bool
  | .transport errors => errors.any fun err => err.2 = .multiaddrNotSupported
  | .noAddresses => true
  | .aborted => false
  | .dialPeerConditionFalse => false
  | .localPeerId => true
  | .wrongPeerId => true
  | .denied => true

/-- The OutgoingConnectionError branch. -/
def handleOutgoingConnectionError (peerId : Option PeerId) (error : DialError) (e : Endpoints) :
    Endpoints × List Call :=
  let (e, calls) := match error with
    | .transport errors => handleTransportErrors peerId errors e
    | _ => (e, [])
  match peerId with
  | some deadPeer =>
      if shouldCleanPeer error then
        (e.forget fun ep => ep.peerId = deadPeer, calls ++ [.removePeer deadPeer])
      else (e, calls)
  | none => (e, calls)

/-- The branches of the loop for an event of the swarm, other than a message. -/
def handleEndpointEvent (cfg : Config) (view : SwarmView) (e : Endpoints) :
    SwarmEvent → Except Panic (Endpoints × List Call)
  | .gossipMessage _ => .ok (e, [])
  | .identifyReceived peerId listenAddrs => handleIdentifyReceived peerId listenAddrs e
  | .newListenAddr address => handleNewListenAddr cfg view address e
  | .expiredListenAddr address => handleExpiredListenAddr cfg address e
  | .connectionEstablished peerId endpoint =>
      .ok (handleConnectionEstablished peerId endpoint e, [])
  | .connectionClosed peerId cause endpoint numEstablished =>
      .ok (handleConnectionClosed peerId cause endpoint numEstablished e)
  | .outgoingConnectionError peerId error => .ok (handleOutgoingConnectionError peerId error e)
  | .mdnsDiscovered list => .ok (e, list.map fun p => .dial p.2)
  | .mdnsExpired list => .ok (e, list.map fun p => .removeAddress p.1 p.2)
  | .other => .ok (e, [])

/-- Whether a retry has a chance: somebody is connected, or an address of the
right kind is listened on. -/
def isNetworkOk (view : SwarmView) (addrs : List Multiaddr) (target : PeerEndpointCache) :
    Except Panic Bool := do
  let nonLocal ← nonLocalAddrCount addrs
  if 0 < view.connectedPeers.length then
    return true
  else if 0 < nonLocal then
    let linkLocal ← linkLocalCount addrs
    if ← isMultiaddrLinkLocal target.address then
      return decide (0 < linkLocal)
    else
      return decide (linkLocal < nonLocal)
  else
    return false

/-- The retry callback: wait for the network, give up, notice that the peer is
connected, or dial once more. -/
def handleRetryCallback (view : SwarmView) (failingConnection : PeerEndpointCache)
    (e : Endpoints) : Except Panic (Endpoints × List Call) :=
  match e.failingConnections failingConnection with
  | none => .ok (e, [])
  | some retryTask => do
      let networkOk ← isNetworkOk view e.currentListenAddresses retryTask.target
      if networkOk = false then
        return (e, [.retry retryTask])
      else if 3 < retryTask.retryCount then
        return (e.dropFailure failingConnection, [])
      else if retryTask.target.peerId ∈ view.connectedPeers then
        return (e.dropFailure failingConnection, [])
      else
        let tried := { retryTask with retryCount := retryTask.retryCount + 1 }
        return ({ e with
            failingConnections :=
              Function.update e.failingConnections failingConnection (some tried) },
          [.dial retryTask.target.address])

/-- The periodic jobs after a long idle time. -/
def handleIdle (cfg : Config) (view : SwarmView) : List Call :=
  let stalePeers := (view.allPeers.filter fun p => p.2.isEmpty).map Prod.fst
  let dials := match cfg.bootNode with
    | some boot => if view.connectedPeers.length < 1 then [Call.dial boot.address] else []
    | none => []
  stalePeers.map Call.disconnectPeerId ++ dials ++ [.getClosestPeers cfg.localPeerId]

/-- A computation that succeeds after another one. -/
theorem bind_eq_ok {ε α β : Type*} {x : Except ε α} {f : α → Except ε β} {b : β}
    (h : x.bind f = .ok b) : ∃ a, x = .ok a ∧ f a = .ok b := by
  cases x with
  | error e => exact absurd h (by simp [Except.bind])
  | ok a => exact ⟨a, rfl, h⟩

/-- A computation that fails before another one that cannot. -/
theorem bind_eq_error {ε α β : Type*} {x : Except ε α} {f : α → Except ε β} {p : ε}
    (hf : ∀ a, ∃ b, f a = .ok b) (h : x.bind f = .error p) : x = .error p := by
  cases x with
  | error q => exact congrArg _ (Except.error.inj h)
  | ok a =>
    obtain ⟨b, hb⟩ := hf a
    exact absurd (h.symm.trans hb) (by simp)

/-! ### What the handlers can do -/

/-- **What an expired listen address can do**: it is dropped, and the boot node may be noted
as a failure. -/
theorem handleExpiredListenAddr_cases {cfg : Config} {address : Multiaddr} {e e' : Endpoints}
    {calls : List Call} (h : handleExpiredListenAddr cfg address e = .ok (e', calls)) :
    ∃ addrs push,
      (e' = { e with currentListenAddresses := addrs } ∧ calls = [.identifyPush push]) ∨
      ∃ bootNode,
        e' = (Endpoints.noteFailure { e with currentListenAddresses := addrs } bootNode).1 ∧
        calls = .identifyPush push ::
          (Endpoints.noteFailure { e with currentListenAddresses := addrs } bootNode).2 := by
  obtain ⟨nonLocal, -, hret⟩ := bind_eq_ok h
  cases hboot : cfg.bootNode with
  | none =>
    simp only [hboot] at hret
    obtain ⟨rfl, rfl⟩ := Prod.mk.inj (Except.ok.inj hret)
    exact ⟨_, _, .inl ⟨rfl, rfl⟩⟩
  | some bootNode =>
    simp only [hboot] at hret
    split_ifs at hret
    · obtain ⟨rfl, rfl⟩ := Prod.mk.inj (Except.ok.inj hret)
      exact ⟨_, _, .inr ⟨bootNode, rfl, rfl⟩⟩
    · obtain ⟨rfl, rfl⟩ := Prod.mk.inj (Except.ok.inj hret)
      exact ⟨_, _, .inl ⟨rfl, rfl⟩⟩

theorem Endpoints.forget_forget (e : Endpoints) (f g : PeerEndpointCache → Bool) :
    (e.forget f).forget g = e.forget fun x => f x || g x := by
  simp [Endpoints.forget, List.filter_filter, Bool.and_comm]

theorem Endpoints.forget_false (e : Endpoints) : (e.forget fun _ => false) = e := by
  simp [Endpoints.forget]

/-- **What a closed connection can do**: endpoints are forgotten, and the connection may be
noted as a failure. -/
theorem handleConnectionClosed_cases (peerId : PeerId) (cause : Option ConnectionError)
    (endpoint : ConnectedPoint) (numEstablished : ℕ) (e : Endpoints) :
    ∃ dead, handleConnectionClosed peerId cause endpoint numEstablished e = (e.forget dead, []) ∨
      handleConnectionClosed peerId cause endpoint numEstablished e =
        (e.forget dead).noteFailure ⟨peerId, endpoint.remoteAddress⟩ := by
  obtain ⟨first, hfirst⟩ : ∃ first : PeerEndpointCache → Bool,
      (if numEstablished = 0 then e.forget fun x => x.peerId = peerId else e) = e.forget first := by
    split_ifs
    · exact ⟨_, rfl⟩
    · exact ⟨fun _ => false, e.forget_false.symm⟩
  unfold handleConnectionClosed
  rw [hfirst]
  cases cause with
  | none => exact ⟨first, .inl rfl⟩
  | some connectionError =>
    refine ⟨fun x => first x || decide (x.address = endpoint.remoteAddress), ?_⟩
    simp only [Endpoints.forget_forget]
    split_ifs
    · exact .inr rfl
    · exact .inl rfl

/-! ### The failed addresses of a dial -/

/-- The calls of the addresses looked at so far are carried along. -/
theorem foldl_transportError (peerId : Option PeerId) (errors : List (Multiaddr × TransportError))
    (e : Endpoints) (calls : List Call) :
    errors.foldl
        (fun acc err =>
          let (e, calls) := handleTransportError peerId err.1 err.2 acc.1
          (e, acc.2 ++ calls)) (e, calls) =
      ((handleTransportErrors peerId errors e).1,
        calls ++ (handleTransportErrors peerId errors e).2) := by
  induction errors generalizing e calls with
  | nil => simp [handleTransportErrors]
  | cons err errors ih =>
    rw [handleTransportErrors, List.foldl_cons, List.foldl_cons, ih, ih]
    simp

/-- One failed address after the other. -/
theorem handleTransportErrors_cons (peerId : Option PeerId) (err : Multiaddr × TransportError)
    (errors : List (Multiaddr × TransportError)) (e : Endpoints) :
    handleTransportErrors peerId (err :: errors) e =
      ((handleTransportErrors peerId errors (handleTransportError peerId err.1 err.2 e).1).1,
        (handleTransportError peerId err.1 err.2 e).2 ++
          (handleTransportErrors peerId errors (handleTransportError peerId err.1 err.2 e).1).2) := by
  rw [handleTransportErrors, List.foldl_cons]
  exact foldl_transportError peerId errors _ _

/-- What every failed address keeps is kept. -/
theorem handleTransportErrors_rec {P : Endpoints → Prop} {peerId : Option PeerId}
    {errors : List (Multiaddr × TransportError)} {e : Endpoints}
    (hstep : ∀ err ∈ errors, ∀ e, P e → P (handleTransportError peerId err.1 err.2 e).1)
    (h : P e) : P (handleTransportErrors peerId errors e).1 := by
  induction errors generalizing e with
  | nil => exact h
  | cons err errors ih =>
    rw [handleTransportErrors_cons]
    refine ih (fun err' herr' => hstep err' (List.mem_cons_of_mem _ herr')) ?_
    exact hstep err List.mem_cons_self e h

/-- The failed addresses a dial error lists. -/
def DialError.transportErrors : DialError → List (Multiaddr × TransportError)
  | .transport errors => errors
  | _ => []

/-- Without a known peer only the failed addresses are gone through. -/
theorem handleOutgoingConnectionError_none (error : DialError) (e : Endpoints) :
    handleOutgoingConnectionError none error e =
      handleTransportErrors none error.transportErrors e := by
  cases error <;> rfl

/-- **A failed dial of a known peer**: the failed addresses one after the other, then the
peer is cleaned out if the error is of that kind. -/
theorem handleOutgoingConnectionError_some (p : PeerId) (error : DialError) (e : Endpoints) :
    handleOutgoingConnectionError (some p) error e =
      if shouldCleanPeer error then
        ((handleTransportErrors (some p) error.transportErrors e).1.forget fun ep => ep.peerId = p,
          (handleTransportErrors (some p) error.transportErrors e).2 ++ [.removePeer p])
      else handleTransportErrors (some p) error.transportErrors e := by
  cases error <;> rfl

/-! ### Calls that go to the clipboard -/

/-- The contents among the calls that go to the clipboard. -/
def toClipboardCalls (calls : List Call) : List ClipboardContent :=
  calls.filterMap fun
    | .toClipboard content => some content
    | _ => none

theorem toClipboardCalls_append (l₁ l₂ : List Call) :
    toClipboardCalls (l₁ ++ l₂) = toClipboardCalls l₁ ++ toClipboardCalls l₂ :=
  List.filterMap_append

/-- A list of calls of one kind, none of which goes to the clipboard. -/
theorem toClipboardCalls_map {α : Type*} (f : α → Call) (l : List α)
    (hf : ∀ a c, f a ≠ .toClipboard c) : toClipboardCalls (l.map f) = [] := by
  rw [toClipboardCalls, List.filterMap_map, List.filterMap_eq_nil_iff]
  intro a _
  cases h : f a with
  | toClipboard c => exact absurd h (hf a c)
  | _ => simp [h]

theorem handleTransportErrors_toClipboard (peerId : Option PeerId)
    (errors : List (Multiaddr × TransportError)) (e : Endpoints) :
    toClipboardCalls (handleTransportErrors peerId errors e).2 = [] := by
  have hone : ∀ addr err (e : Endpoints),
      toClipboardCalls (handleTransportError peerId addr err e).2 = [] := by
    intro addr err e
    unfold handleTransportError
    split
    · split <;> rfl
    · rfl
  induction errors generalizing e with
  | nil => rfl
  | cons err errors ih => rw [handleTransportErrors_cons, toClipboardCalls_append, hone, ih]; rfl

theorem handleOutgoingConnectionError_toClipboard (peerId : Option PeerId) (error : DialError)
    (e : Endpoints) : toClipboardCalls (handleOutgoingConnectionError peerId error e).2 = [] := by
  cases peerId with
  | none =>
    rw [handleOutgoingConnectionError_none]
    exact handleTransportErrors_toClipboard none _ e
  | some p =>
    rw [handleOutgoingConnectionError_some]
    split_ifs
    · rw [toClipboardCalls_append, handleTransportErrors_toClipboard]
      rfl
    · exact handleTransportErrors_toClipboard (some p) _ e

/-- **No event of the swarm but a message leads to the clipboard.** -/
theorem handleEndpointEvent_toClipboard {cfg : Config} {view : SwarmView} {e e' : Endpoints}
    {event : SwarmEvent} {calls : List Call}
    (h : handleEndpointEvent cfg view e event = .ok (e', calls)) :
    toClipboardCalls calls = [] := by
  cases event with
  | gossipMessage data => cases h; rfl
  | identifyReceived peerId listenAddrs =>
    obtain ⟨added, -, hret⟩ := bind_eq_ok h
    cases hret
    rw [toClipboardCalls_append, toClipboardCalls_map _ _ (by simp),
      toClipboardCalls_map _ _ (by simp), List.nil_append]
  | newListenAddr address =>
    obtain ⟨nonLocal, -, hret⟩ := bind_eq_ok h
    cases hret
    cases cfg.bootNode with
    | none => rfl
    | some bootNode => simp [toClipboardCalls]
  | expiredListenAddr address =>
    obtain ⟨addrs, push, ⟨-, rfl⟩ | ⟨bootNode, -, rfl⟩⟩ := handleExpiredListenAddr_cases h
    · rfl
    · rfl
  | connectionEstablished peerId endpoint => cases h; rfl
  | connectionClosed peerId cause endpoint numEstablished =>
    have hclosed : handleConnectionClosed peerId cause endpoint numEstablished e = (e', calls) :=
      Except.ok.inj h
    obtain ⟨dead, heq | heq⟩ := handleConnectionClosed_cases peerId cause endpoint numEstablished e
    · rw [← (Prod.mk.inj (heq.symm.trans hclosed)).2]
      rfl
    · rw [← (Prod.mk.inj (heq.symm.trans hclosed)).2]
      rfl
  | outgoingConnectionError peerId error =>
    have hcalls : (handleOutgoingConnectionError peerId error e).2 = calls :=
      congrArg Prod.snd (Except.ok.inj h)
    rw [← hcalls]
    exact handleOutgoingConnectionError_toClipboard peerId error e
  | mdnsDiscovered list => cases h; exact toClipboardCalls_map _ _ (by simp)
  | mdnsExpired list => cases h; exact toClipboardCalls_map _ _ (by simp)
  | other => cases h; rfl

theorem handleRetryCallback_toClipboard {view : SwarmView} {target : PeerEndpointCache}
    {e e' : Endpoints} {calls : List Call}
    (h : handleRetryCallback view target e = .ok (e', calls)) : toClipboardCalls calls = [] := by
  unfold handleRetryCallback at h
  split at h
  · cases h
    rfl
  · obtain ⟨networkOk, -, hret⟩ := bind_eq_ok h
    split_ifs at hret <;> cases hret <;> rfl

theorem handleIdle_toClipboard (cfg : Config) (view : SwarmView) :
    toClipboardCalls (handleIdle cfg view) = [] := by
  have hstale : ∀ l : List PeerId, toClipboardCalls (l.map Call.disconnectPeerId) = [] :=
    fun l => toClipboardCalls_map _ l (by simp)
  unfold handleIdle
  rw [toClipboardCalls_append, toClipboardCalls_append, hstale]
  cases cfg.bootNode with
  | none => rfl
  | some boot => simp [toClipboardCalls]

end P2pClipboard
