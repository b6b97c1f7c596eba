import P2pClipboard.Connections
import P2pClipboard.Lib.Ipv4Text

/-!
# Starting the process

`start_network` of `src/network.rs` up to its loop, and the loop of `main` around it.  The
addresses on the command line are an IPv4 address with or without a port.  They become a
listen address and, together with the text of a peer id, a boot node.

What fails does so in one of four ways: an error that is returned, an exit with a message, a
panic, and, once the loop runs, its own end.  A peer id that is none is found out last, when
the node listens already.

## Main definitions

* `parseIpv4WithPort`, `startNetwork`, `mainLoop` — the functions.
* `EndpointText`, `ListensOn`, `BootsFrom` — what the arguments stand for.

## Main results

* `parseIpv4WithPort_eq_ok_iff` — **which texts are addresses.**
* `startNetwork_outcome` — **when the loop is entered**, with what, and when not.
* `mainLoop_loops` — **every loop of a process** has the same arguments, and none crashes on
  an empty address that nobody sent.
-/

namespace P2pClipboard

open Ipv4Text

/-! ### The functions -/

/-- `parse_ipv4_with_port`. -/
def parseIpv4WithPort : Option String → Except String (Ipv4Addr × UInt16)
  | some inputStr =>
      let parts := inputStr.toList.splitOn ':'
      if parts.length = 2 then
        match parseSocketAddr inputStr with
        | some socket => .ok socket
        | none => .error "Invalid input format"
      else if parts.length = 1 then
        match Ipv4Addr.parse (String.ofList (parts.headD [])) with
        | some ip => .ok (ip, 0)
        | none => .error "Invalid IP address or port number"
      else .error "Invalid input format"
  | none => .error "Input is None"

/-- `format!("/ip4/{}/tcp/{}", ip, port)`. -/
def multiaddrText (ip : Ipv4Addr) (port : UInt16) : String :=
  "/ip4/" ++ ip.display ++ "/tcp/" ++ port.toNat.repr

/-- The address with these two components. -/
def tcpAddress (ip : Ipv4Addr) (port : UInt16) : Multiaddr :=
  [.ip4 ip.a ip.b ip.c ip.d, .tcp port]

/-- The parsers of the libraries that the arguments go through. -/
structure ArgText where
  /-- `FromStr` of `Multiaddr`. -/
  parseMultiaddr : String → Option Multiaddr
  /-- `FromStr` of `PeerId`. -/
  parsePeerId : String → Option PeerId

/-- The components of an address are read from their text. -/
def ArgText.Lawful (text : ArgText) : Prop :=
  ∀ ip port, text.parseMultiaddr (multiaddrText ip port) = some (tcpAddress ip port)

/-- The arguments that name addresses. -/
structure Args where
  /-- `--connect`. -/
  connect : Option (List String) := none
  /-- `--listen`. -/
  listen : Option String := none

/-- How `start_network` ends before its loop, or that it enters it. -/
inductive StartEnd
  /-- An error is returned. -/
  | error
  /-- The process exits. -/
  | exit (message : String)
  /-- The task panics. -/
  | panic
  /-- The loop is entered. -/
  | run (localPeerId : PeerId) (bootNode : Option PeerEndpointCache)
  deriving DecidableEq, Repr

/-- What `start_network` asks of the swarm. -/
inductive StartEffect
  /-- `swarm.listen_on`. -/
  | listenOn (address : Multiaddr)
  /-- Anything else. -/
  | call (c : Call)
  deriving DecidableEq, Repr

/-- How the swarm comes to be built. -/
inductive SwarmBuild
  | built
  /-- `with_tcp` or `with_behaviour` fails. -/
  | error
  /-- A behaviour cannot be made. -/
  | panic
  deriving DecidableEq, Repr

/-- What one call of `start_network` meets. -/
structure StartTurn where
  /-- The identity, when its key can be had. -/
  localPeerId : Option PeerId
  /-- The swarm. -/
  swarm : SwarmBuild
  /-- The addresses the swarm can listen on. -/
  canListen : Multiaddr → Bool
  /-- Which panics the build has. -/
  build : Build
  /-- The hash function. -/
  sha : Sha256
  /-- The wall clock before the loop. -/
  start : ℕ
  /-- What the loop meets. -/
  turns : List Turn

section Start

variable (text : ArgText)

/-- `boot_addr` and `boot_peer_id`. -/
def bootArg : Option (List String) → Except StartEnd (Option Multiaddr × Option PeerId)
  | some [addrInput, peerInput] =>
      match parseIpv4WithPort (some addrInput) with
      | .ok (ip, port) =>
          match text.parseMultiaddr (multiaddrText ip port) with
          | some multiaddr => .ok (some multiaddr, text.parsePeerId peerInput)
          | none => .error .panic
      | .error _ => .error (.exit "Connect address is not a valid socket address")
  | _ => .ok (none, none)

/-- The address to listen on. -/
def listenArg (listen : Option String) : Except StartEnd Multiaddr := do
  let multiaddr ←
    match listen with
    | some socketAddrString =>
        match parseIpv4WithPort (some socketAddrString) with
        | .ok (ip, port) => .ok (multiaddrText ip port)
        | .error _ => .error (.exit "Listen address is not a valid socket address")
    | none => .ok "/ip4/0.0.0.0/tcp/0"
  match text.parseMultiaddr multiaddr with
  | some address => .ok address
  | none => .error .error

/-- The boot node is made known to Kademlia, dialled, and disconnected from. -/
def bootCalls (boot : PeerEndpointCache) : List StartEffect :=
  [.call (.addAddress boot.peerId boot.address), .call (.dial boot.address),
    .call (.disconnectPeerId boot.peerId)]

/-- What `start_network` does behind the arguments: listen, and dial the boot node. -/
def openSwarm (turn : StartTurn) (localPeerId : PeerId) (bootAddr : Option Multiaddr)
    (bootPeerId : Option PeerId) (address : Multiaddr) : List StartEffect × StartEnd :=
  if turn.canListen address then
    match bootAddr, bootPeerId with
    | none, _ => ([.listenOn address], .run localPeerId none)
    | some _, none => ([.listenOn address], .panic)
    | some bootAddr, some peerId =>
        (.listenOn address :: bootCalls ⟨peerId, bootAddr⟩,
          .run localPeerId (some ⟨peerId, bootAddr⟩))
  else ([.listenOn address], .exit "Cannot listen on specified address")

/-- `start_network`, up to its loop. -/
def startNetwork (args : Args) (turn : StartTurn) : List StartEffect × StartEnd :=
  match turn.localPeerId with
  | none => ([], .error)
  | some localPeerId =>
      match bootArg text args.connect with
      | .error e => ([], e)
      | .ok (bootAddr, bootPeerId) =>
          match turn.swarm with
          | .error => ([], .error)
          | .panic => ([], .panic)
          | .built =>
              match listenArg text args.listen with
              | .error e => ([], e)
              | .ok address => openSwarm turn localPeerId bootAddr bootPeerId address

end Start

/-- A loop of a process: what was asked of the swarm before it, and what it ran. -/
structure Loop where
  /-- What was asked of the swarm. -/
  effects : List StartEffect
  /-- What `run` was started with. -/
  cfg : Config
  /-- The wall clock before the loop. -/
  start : ℕ
  /-- What the loop met. -/
  turns : List Turn

/-- How the loop has run so far. -/
def Loop.result (l : Loop) : Except Panic Outcome :=
  runLoop l.cfg (LoopState.initial l.start) l.turns

/-- How a process ends. -/
inductive ProcessEnd
  | running
  | exited
  | panicked
  deriving DecidableEq, Repr

/-- `main`: `start_network` again and again, until something fails or a loop goes on. -/
def mainLoop (text : ArgText) (args : Args) : List StartTurn → List Loop × ProcessEnd
  | [] => ([], .running)
  | turn :: later =>
      match startNetwork text args turn with
      | (_, .error) => ([], .exited)
      | (_, .exit _) => ([], .exited)
      | (_, .panic) => ([], .panicked)
      | (effects, .run localPeerId bootNode) =>
          let l : Loop :=
            ⟨effects, ⟨turn.build, turn.sha, localPeerId, bootNode⟩, turn.start, turn.turns⟩
          match l.result with
          -- a panic of the task is an error of `start_network`
          | .error _ => ([l], .exited)
          | .ok o =>
              if o.returned then (l :: (mainLoop text args later).1, (mainLoop text args later).2)
              else ([l], .running)

/-! ### The texts of an address -/

/-- A text stands for an address and a port: the address alone for any port, or a numeral of
the port behind it. -/
def EndpointText (s : String) (ip : Ipv4Addr) (port : UInt16) : Prop :=
  (s = ip.display ∧ port = 0) ∨
    ∃ ds, s = ip.display ++ ":" ++ String.ofList ds ∧ Numeral ds port.toNat

/-- An address has no colon. -/
theorem colon_not_mem_addrChars (ip : Ipv4Addr) : ':' ∉ addrChars ip := by
  intro h
  rcases isDigit_or_eq_of_mem_addrChars h with hdigit | heq
  · exact absurd hdigit (by decide)
  · exact absurd heq (by decide)

/-- A numeral has no colon. -/
theorem colon_not_mem_numeral {ds : List Char} {n : ℕ} (h : Numeral ds n) : ':' ∉ ds :=
  fun hmem => absurd (h.2.1 ':' hmem) (by decide)

/-- **Which texts are addresses**: the text of an IPv4 address, which stands for any port, and
this text with a colon and a numeral of the port, possibly with zeros in front. -/
theorem parseIpv4WithPort_eq_ok_iff (input : Option String) (ip : Ipv4Addr) (port : UInt16) :
    parseIpv4WithPort input = .ok (ip, port) ↔ ∃ s, input = some s ∧ EndpointText s ip port := by
  cases input with
  | none => simp [parseIpv4WithPort]
  | some s =>
    constructor
    · intro h
      refine ⟨s, rfl, ?_⟩
      simp only [parseIpv4WithPort] at h
      split_ifs at h with htwo hone
      · cases hsocket : parseSocketAddr s with
        | none =>
          rw [hsocket] at h
          cases h
        | some socket =>
          rw [hsocket] at h
          obtain rfl := Except.ok.inj h
          exact .inr (parseSocketAddr_eq_some_iff.mp hsocket)
      · -- the only part is the whole text
        have hwhole : String.ofList ((s.toList.splitOn ':').headD []) = s := by
          obtain ⟨part, hpart⟩ := List.length_eq_one_iff.mp hone
          have hjoin : [':'].intercalate (s.toList.splitOn ':') = s.toList :=
            List.intercalate_splitOn ':'
          rw [hpart] at hjoin ⊢
          rw [List.headD_cons, ← String.ofList_toList (s := s), ← hjoin]
          simp
        rw [hwhole] at h
        cases hip : Ipv4Addr.parse s with
        | none =>
          rw [hip] at h
          cases h
        | some ip' =>
          rw [hip] at h
          obtain ⟨rfl, rfl⟩ := Prod.mk.inj (Except.ok.inj h)
          exact .inl ⟨Ipv4Addr.parse_eq_some_iff.mp hip, rfl⟩
    · rintro ⟨s', heq, ⟨rfl, rfl⟩ | ⟨ds, rfl, hds⟩⟩
      · obtain rfl := Option.some.inj heq
        have hsplit : ip.display.toList.splitOn ':' = [ip.display.toList] :=
          List.splitOn_eq_singleton (ip.toList_display ▸ colon_not_mem_addrChars ip)
        simp only [parseIpv4WithPort, hsplit, List.length_singleton, List.headD_cons,
          String.ofList_toList, Ipv4Addr.parse_eq_some_iff.mpr rfl]
        rfl
      · obtain rfl := Option.some.inj heq
        have hsplit : (ip.display ++ ":" ++ String.ofList ds).toList.splitOn ':' =
            [addrChars ip, ds] := by
          have hchars : (ip.display ++ ":" ++ String.ofList ds).toList =
              addrChars ip ++ ':' :: ds := by simp [ip.toList_display]
          rw [hchars, List.splitOn_append_cons_self,
            List.splitOn_eq_singleton (colon_not_mem_addrChars ip),
            List.splitOn_eq_singleton (colon_not_mem_numeral hds)]
          rfl
        simp only [parseIpv4WithPort, hsplit, parseSocketAddr_eq_some_iff.mpr ⟨ds, rfl, hds⟩]
        rfl

/-! ### What the arguments stand for -/

/-- The address that `--listen` stands for, or any port of any interface. -/
def ListensOn : Option String → Multiaddr → Prop
  | none, address => address = tcpAddress ⟨0, 0, 0, 0⟩ 0
  | some s, address => ∃ ip port, EndpointText s ip port ∧ address = tcpAddress ip port

/-- The boot node that `--connect` stands for, if there is one. -/
def BootsFrom (text : ArgText) : Option (List String) → Option PeerEndpointCache → Prop
  | some [addrInput, peerInput], boot => ∃ ip port peer, EndpointText addrInput ip port ∧
      text.parsePeerId peerInput = some peer ∧ boot = some ⟨peer, tcpAddress ip port⟩
  | _, boot => boot = none

section Outcome

variable {text : ArgText}

/-- A text that is no address is refused. -/
theorem parseIpv4WithPort_cases (s : String) :
    (∃ ip port, EndpointText s ip port ∧ parseIpv4WithPort (some s) = .ok (ip, port)) ∨
      ((∀ ip port, ¬ EndpointText s ip port) ∧ ∃ e, parseIpv4WithPort (some s) = .error e) := by
  cases hparse : parseIpv4WithPort (some s) with
  | ok p =>
    obtain ⟨s', heq, htext⟩ := (parseIpv4WithPort_eq_ok_iff (some s) p.1 p.2).mp hparse
    obtain rfl := Option.some.inj heq
    exact .inl ⟨p.1, p.2, htext, rfl⟩
  | error e =>
    refine .inr ⟨fun ip port htext => ?_, e, rfl⟩
    have hok := (parseIpv4WithPort_eq_ok_iff (some s) ip port).mpr ⟨s, rfl, htext⟩
    rw [hparse] at hok
    cases hok

/-- A text stands for one address at most. -/
theorem EndpointText.unique {s : String} {ip ip' : Ipv4Addr} {port port' : UInt16}
    (h : EndpointText s ip port) (h' : EndpointText s ip' port') : ip = ip' ∧ port = port' := by
  have hok := (parseIpv4WithPort_eq_ok_iff (some s) ip port).mpr ⟨s, rfl, h⟩
  have hok' := (parseIpv4WithPort_eq_ok_iff (some s) ip' port').mpr ⟨s, rfl, h'⟩
  exact Prod.mk.inj (Except.ok.inj (hok.symm.trans hok'))

/-- **What `--listen` amounts to.** -/
theorem listenArg_cases (hl : text.Lawful) (listen : Option String) :
    (∃ address, ListensOn listen address ∧ listenArg text listen = .ok address) ∨
      ((∀ address, ¬ ListensOn listen address) ∧
        listenArg text listen = .error (.exit "Listen address is not a valid socket address")) := by
  cases listen with
  | none =>
    refine .inl ⟨_, rfl, ?_⟩
    have hany : multiaddrText ⟨0, 0, 0, 0⟩ 0 = "/ip4/0.0.0.0/tcp/0" := by decide
    have hparse := hl ⟨0, 0, 0, 0⟩ 0
    rw [hany] at hparse
    simp only [listenArg, bind, Except.bind, hparse]
  | some s =>
    rcases parseIpv4WithPort_cases s with ⟨ip, port, htext, hparse⟩ | ⟨hnone, e, hparse⟩
    · refine .inl ⟨_, ⟨ip, port, htext, rfl⟩, ?_⟩
      have haddress := hl ip port
      simp only [listenArg, hparse, bind, Except.bind, haddress]
    · refine .inr ⟨fun address h => ?_, ?_⟩
      · obtain ⟨ip, port, htext, -⟩ := h
        exact hnone ip port htext
      · simp only [listenArg, hparse, bind, Except.bind]

/-- The arguments stand for one boot node at most. -/
theorem BootsFrom.unique {connect : Option (List String)} {boot boot' : Option PeerEndpointCache}
    (h : BootsFrom text connect boot) (h' : BootsFrom text connect boot') : boot = boot' := by
  match connect with
  | none => exact h.trans h'.symm
  | some [] => exact h.trans h'.symm
  | some [_] => exact h.trans h'.symm
  | some (_ :: _ :: _ :: _) => exact h.trans h'.symm
  | some [addrInput, peerInput] =>
    obtain ⟨ip, port, peer, htext, hpeer, rfl⟩ := h
    obtain ⟨ip', port', peer', htext', hpeer', rfl⟩ := h'
    obtain ⟨rfl, rfl⟩ := htext.unique htext'
    obtain rfl := Option.some.inj (hpeer.symm.trans hpeer')
    rfl

/-- The arguments stand for one listen address at most. -/
theorem ListensOn.unique {listen : Option String} {address address' : Multiaddr}
    (h : ListensOn listen address) (h' : ListensOn listen address') : address = address' := by
  cases listen with
  | none => exact h.trans h'.symm
  | some s =>
    obtain ⟨ip, port, htext, rfl⟩ := h
    obtain ⟨ip', port', htext', rfl⟩ := h'
    obtain ⟨rfl, rfl⟩ := htext.unique htext'
    rfl

/-- The boot node has an address with a port. -/
theorem BootsFrom.started {connect : Option (List String)} {cfg : Config}
    (h : BootsFrom text connect cfg.bootNode) : cfg.Started := by
  intro boot hboot
  match connect with
  | none => exact absurd (hboot.symm.trans h) (by simp)
  | some [] => exact absurd (hboot.symm.trans h) (by simp)
  | some [_] => exact absurd (hboot.symm.trans h) (by simp)
  | some (_ :: _ :: _ :: _) => exact absurd (hboot.symm.trans h) (by simp)
  | some [addrInput, peerInput] =>
    obtain ⟨ip, port, peer, -, -, heq⟩ := h
    obtain rfl := Option.some.inj (hboot.symm.trans heq)
    exact ⟨_, _, _, _, _, rfl⟩

/-! ### How `start_network` ends -/

/-- The address of `--connect` is one, if there is any. -/
def NamesAddress (connect : Option (List String)) : Prop :=
  ∀ addrInput peerInput, connect = some [addrInput, peerInput] →
    ∃ ip port, EndpointText addrInput ip port

/-- What `--connect` names is no peer, although its address is one. -/
def NamesNoPeer (text : ArgText) (connect : Option (List String)) : Prop :=
  ∃ addrInput peerInput ip port, connect = some [addrInput, peerInput] ∧
    EndpointText addrInput ip port ∧ text.parsePeerId peerInput = none

/-- The loop is not entered, nothing panics, and nobody was dialled. -/
structure Refused (r : List StartEffect × StartEnd) : Prop where
  calls : ∀ c, .call c ∉ r.1
  no_panic : r.2 ≠ .panic
  no_run : ∀ peer boot, r.2 ≠ .run peer boot

theorem refused_error : Refused ([], .error) := ⟨nofun, nofun, nofun⟩

theorem refused_exit (message : String) : Refused ([], .exit message) := ⟨nofun, nofun, nofun⟩

/-- **What `--connect` amounts to**: nothing, a boot node, an address of no peer, or an
address that is none. -/
theorem bootArg_cases (hl : text.Lawful) (connect : Option (List String)) :
    (NamesAddress connect ∧
      ((BootsFrom text connect none ∧ bootArg text connect = .ok (none, none)) ∨
        (∃ boot, BootsFrom text connect (some boot) ∧
          bootArg text connect = .ok (some boot.address, some boot.peerId)) ∨
        ∃ address, NamesNoPeer text connect ∧
          bootArg text connect = .ok (some address, none))) ∨
      (¬ NamesAddress connect ∧ bootArg text connect =
        .error (.exit "Connect address is not a valid socket address")) := by
  match connect with
  | none => exact .inl ⟨nofun, .inl ⟨rfl, rfl⟩⟩
  | some [] => exact .inl ⟨by simp [NamesAddress], .inl ⟨rfl, rfl⟩⟩
  | some [_] => exact .inl ⟨by simp [NamesAddress], .inl ⟨rfl, rfl⟩⟩
  | some (_ :: _ :: _ :: _) => exact .inl ⟨by simp [NamesAddress], .inl ⟨rfl, rfl⟩⟩
  | some [addrInput, peerInput] =>
    rcases parseIpv4WithPort_cases addrInput with ⟨ip, port, htext, hparse⟩ | ⟨hnone, e, hparse⟩
    · have hboot : bootArg text (some [addrInput, peerInput]) =
          .ok (some (tcpAddress ip port), text.parsePeerId peerInput) := by
        simp only [bootArg, hparse, hl ip port]
      refine .inl ⟨?_, .inr ?_⟩
      · intro a p h
        obtain ⟨rfl, -⟩ := List.cons.inj (Option.some.inj h)
        exact ⟨ip, port, htext⟩
      · cases hpeer : text.parsePeerId peerInput with
        | none =>
          rw [hpeer] at hboot
          exact .inr ⟨_, ⟨_, _, ip, port, rfl, htext, hpeer⟩, hboot⟩
        | some peer =>
          rw [hpeer] at hboot
          exact .inl ⟨⟨peer, tcpAddress ip port⟩, ⟨ip, port, peer, htext, hpeer, rfl⟩, hboot⟩
    · refine .inr ⟨fun hnames => ?_, by simp only [bootArg, hparse]⟩
      obtain ⟨ip, port, htext⟩ := hnames addrInput peerInput rfl
      exact hnone ip port htext

/-- Behind a sound `--connect`: the swarm panics, or is opened, or the start is refused. -/
theorem startNetwork_of_bootArg (hl : text.Lawful) {args : Args} {turn : StartTurn}
    {peer : PeerId} {bootAddr : Option Multiaddr} {bootPeerId : Option PeerId}
    (hpeer : turn.localPeerId = some peer)
    (hboot : bootArg text args.connect = .ok (bootAddr, bootPeerId)) :
    (turn.swarm = .panic ∧ startNetwork text args turn = ([], .panic)) ∨
      (∃ address, turn.swarm = .built ∧ ListensOn args.listen address ∧
        turn.canListen address = true ∧
        startNetwork text args turn = openSwarm turn peer bootAddr bootPeerId address) ∨
      Refused (startNetwork text args turn) := by
  unfold startNetwork
  simp only [hpeer, hboot]
  cases hswarm : turn.swarm with
  | error => exact .inr (.inr refused_error)
  | panic => exact .inl ⟨rfl, rfl⟩
  | built =>
    rcases listenArg_cases hl args.listen with ⟨address, hlisten, hok⟩ | ⟨-, herror⟩
    · simp only [hok]
      by_cases hcan : turn.canListen address = true
      · exact .inr (.inl ⟨address, trivial, hlisten, hcan, rfl⟩)
      · refine .inr (.inr ?_)
        have hexit : openSwarm turn peer bootAddr bootPeerId address =
            ([.listenOn address], .exit "Cannot listen on specified address") := if_neg hcan
        rw [hexit]
        exact ⟨by simp, nofun, nofun⟩
    · simp only [herror]
      exact .inr (.inr (refused_exit _))

/-- **How `start_network` ends**: in its loop, in a panic for the peer that is none, in one
for the swarm, or in a refusal. -/
theorem startNetwork_cases (hl : text.Lawful) (args : Args) (turn : StartTurn) :
    (∃ peer address boot, turn.localPeerId = some peer ∧ turn.swarm = .built ∧
        BootsFrom text args.connect boot ∧ ListensOn args.listen address ∧
        turn.canListen address = true ∧ startNetwork text args turn =
          (.listenOn address :: boot.toList.flatMap bootCalls, .run peer boot)) ∨
      (∃ peer address, turn.localPeerId = some peer ∧ turn.swarm = .built ∧
        NamesNoPeer text args.connect ∧ ListensOn args.listen address ∧
        turn.canListen address = true ∧
        startNetwork text args turn = ([.listenOn address], .panic)) ∨
      (∃ peer, turn.localPeerId = some peer ∧ turn.swarm = .panic ∧ NamesAddress args.connect ∧
        startNetwork text args turn = ([], .panic)) ∨
      Refused (startNetwork text args turn) := by
  cases hpeer : turn.localPeerId with
  | none =>
    refine .inr (.inr (.inr ?_))
    unfold startNetwork
    simp only [hpeer]
    exact refused_error
  | some peer =>
    rcases bootArg_cases hl args.connect with ⟨hnames, hboot⟩ | ⟨-, herror⟩
    · rcases hboot with ⟨hnone, hok⟩ | ⟨boot, hboot, hok⟩ | ⟨bootAddress, hno, hok⟩ <;>
        rcases startNetwork_of_bootArg hl hpeer hok with ⟨hswarm, hr⟩ |
          ⟨address, hswarm, hlisten, hcan, hr⟩ | hrefused
      · exact .inr (.inr (.inl ⟨peer, rfl, hswarm, hnames, hr⟩))
      · refine .inl ⟨peer, address, none, rfl, hswarm, hnone, hlisten, hcan, hr.trans ?_⟩
        exact if_pos hcan
      · exact .inr (.inr (.inr hrefused))
      · exact .inr (.inr (.inl ⟨peer, rfl, hswarm, hnames, hr⟩))
      · refine .inl ⟨peer, address, some boot, rfl, hswarm, hboot, hlisten, hcan, hr.trans ?_⟩
        exact if_pos hcan
      · exact .inr (.inr (.inr hrefused))
      · exact .inr (.inr (.inl ⟨peer, rfl, hswarm, hnames, hr⟩))
      · refine .inr (.inl ⟨peer, address, rfl, hswarm, hno, hlisten, hcan, hr.trans ?_⟩)
        exact if_pos hcan
      · exact .inr (.inr (.inr hrefused))
    · refine .inr (.inr (.inr ?_))
      unfold startNetwork
      simp only [hpeer, herror]
      exact refused_exit _

/-- A boot node is named together with a peer. -/
theorem BootsFrom.not_namesNoPeer {connect : Option (List String)}
    {boot : Option PeerEndpointCache} (h : BootsFrom text connect boot) :
    ¬ NamesNoPeer text connect := by
  rintro ⟨addrInput, peerInput, ip, port, rfl, -, hnone⟩
  obtain ⟨-, -, peer, -, hpeer, -⟩ := h
  rw [hnone] at hpeer
  cases hpeer

theorem NamesNoPeer.namesAddress {connect : Option (List String)} (h : NamesNoPeer text connect) :
    NamesAddress connect := by
  obtain ⟨addrInput, peerInput, ip, port, rfl, htext, -⟩ := h
  intro a p heq
  obtain ⟨rfl, -⟩ := List.cons.inj (Option.some.inj heq)
  exact ⟨ip, port, htext⟩

theorem BootsFrom.namesAddress {connect : Option (List String)}
    {boot : Option PeerEndpointCache} (h : BootsFrom text connect boot) :
    NamesAddress connect := by
  rintro addrInput peerInput rfl
  obtain ⟨ip, port, -, htext, -⟩ := h
  exact ⟨ip, port, htext⟩

theorem listenArg_eq_ok (hl : text.Lawful) {listen : Option String} {address : Multiaddr}
    (h : ListensOn listen address) : listenArg text listen = .ok address := by
  rcases listenArg_cases hl listen with ⟨address', h', hok⟩ | ⟨hnone, -⟩
  · rw [hok, h.unique h']
  · exact absurd h (hnone address)

/-- With an identity and a swarm, a sound `--connect` and a listen address, the swarm is
opened. -/
theorem startNetwork_eq_openSwarm (hl : text.Lawful) {args : Args} {turn : StartTurn}
    {peer : PeerId} {bootAddr : Option Multiaddr} {bootPeerId : Option PeerId}
    {address : Multiaddr} (hpeer : turn.localPeerId = some peer) (hswarm : turn.swarm = .built)
    (hboot : bootArg text args.connect = .ok (bootAddr, bootPeerId))
    (hlisten : ListensOn args.listen address) :
    startNetwork text args turn = openSwarm turn peer bootAddr bootPeerId address := by
  simp only [startNetwork, hpeer, hboot, hswarm, listenArg_eq_ok hl hlisten]

/-- **When the loop is entered**, and with what. -/
theorem startNetwork_eq_run_iff (hl : text.Lawful) (args : Args) (turn : StartTurn)
    (effects : List StartEffect) (peer : PeerId) (boot : Option PeerEndpointCache) :
    startNetwork text args turn = (effects, .run peer boot) ↔
      turn.localPeerId = some peer ∧ turn.swarm = .built ∧ BootsFrom text args.connect boot ∧
        ∃ address, ListensOn args.listen address ∧ turn.canListen address = true ∧
          effects = .listenOn address :: boot.toList.flatMap bootCalls := by
  constructor
  · intro h
    rcases startNetwork_cases hl args turn with
      ⟨peer', address, boot', hpeer, hswarm, hboot, hlisten, hcan, hr⟩ |
        ⟨_, _, _, _, _, _, _, hr⟩ | ⟨_, _, _, _, hr⟩ | hrefused
    · obtain ⟨rfl, hend⟩ := Prod.mk.inj (h.symm.trans hr)
      obtain ⟨rfl, rfl⟩ := StartEnd.run.inj hend
      exact ⟨hpeer, hswarm, hboot, address, hlisten, hcan, rfl⟩
    · cases (Prod.mk.inj (h.symm.trans hr)).2
    · cases (Prod.mk.inj (h.symm.trans hr)).2
    · exact absurd (by rw [h]) (hrefused.no_run peer boot)
  · rintro ⟨hpeer, hswarm, hboot, address, hlisten, hcan, rfl⟩
    rcases bootArg_cases hl args.connect with
      ⟨-, ⟨hnone, hok⟩ | ⟨boot', hboot', hok⟩ | ⟨-, hno, -⟩⟩ | ⟨hnot, -⟩
    · obtain rfl := hboot.unique hnone
      rw [startNetwork_eq_openSwarm hl hpeer hswarm hok hlisten]
      exact if_pos hcan
    · obtain rfl := hboot.unique hboot'
      rw [startNetwork_eq_openSwarm hl hpeer hswarm hok hlisten]
      exact if_pos hcan
    · exact absurd hno hboot.not_namesNoPeer
    · exact absurd hboot.namesAddress hnot

/-- **When the loop is entered, and what happened by then.**  The loop is entered with a boot
node exactly when there is an identity and a swarm, the arguments stand for this boot node and
for an address, and the swarm can listen on it; it was then asked to listen there and nowhere
else, and to dial the boot node if there is one.  The task panics when a behaviour cannot be
made, and for a peer id that is none, which it finds out when it listens already.  Whenever
the loop is not entered, nobody was dialled and Kademlia was told of nobody. -/
theorem startNetwork_outcome (hl : text.Lawful) (args : Args) (turn : StartTurn) :
    (∀ effects peer boot, startNetwork text args turn = (effects, .run peer boot) ↔
      turn.localPeerId = some peer ∧ turn.swarm = .built ∧ BootsFrom text args.connect boot ∧
        ∃ address, ListensOn args.listen address ∧ turn.canListen address = true ∧
          effects = .listenOn address :: boot.toList.flatMap bootCalls) ∧
      ((startNetwork text args turn).2 = .panic ↔ turn.localPeerId.isSome = true ∧
        ((turn.swarm = .panic ∧ NamesAddress args.connect) ∨
          (turn.swarm = .built ∧ NamesNoPeer text args.connect ∧
            ∃ address, ListensOn args.listen address ∧ turn.canListen address = true))) ∧
      ((∀ peer boot, (startNetwork text args turn).2 ≠ .run peer boot) →
        ∀ c, .call c ∉ (startNetwork text args turn).1) := by
  refine ⟨startNetwork_eq_run_iff hl args turn, ⟨fun h => ?_, ?_⟩, fun h => ?_⟩
  · rcases startNetwork_cases hl args turn with
      ⟨_, _, _, _, _, _, _, _, hr⟩ | ⟨peer, address, hpeer, hswarm, hno, hlisten, hcan, -⟩ |
        ⟨peer, hpeer, hswarm, hnames, -⟩ | hrefused
    · rw [hr] at h
      cases h
    · rw [hpeer]
      exact ⟨rfl, .inr ⟨hswarm, hno, address, hlisten, hcan⟩⟩
    · rw [hpeer]
      exact ⟨rfl, .inl ⟨hswarm, hnames⟩⟩
    · exact absurd h hrefused.no_panic
  · rintro ⟨hsome, hwhy⟩
    obtain ⟨peer, hpeer⟩ := Option.isSome_iff_exists.mp hsome
    have hnames : NamesAddress args.connect := by
      rcases hwhy with ⟨-, hnames⟩ | ⟨-, hno, -⟩
      · exact hnames
      · exact hno.namesAddress
    rcases bootArg_cases hl args.connect with ⟨-, hboot⟩ | ⟨hnot, -⟩
    · rcases hwhy with ⟨hswarm, -⟩ | ⟨hswarm, hno, address, hlisten, hcan⟩
      · rcases hboot with ⟨-, hok⟩ | ⟨_, -, hok⟩ | ⟨_, -, hok⟩ <;>
          simp only [startNetwork, hpeer, hok, hswarm]
      · rcases hboot with ⟨hnone, -⟩ | ⟨boot, hboot, -⟩ | ⟨bootAddress, -, hok⟩
        · exact absurd hno hnone.not_namesNoPeer
        · exact absurd hno hboot.not_namesNoPeer
        · have hopen : openSwarm turn peer (some bootAddress) none address =
              ([.listenOn address], .panic) := if_pos hcan
          rw [startNetwork_eq_openSwarm hl hpeer hswarm hok hlisten, hopen]
    · exact absurd hnames hnot
  · rcases startNetwork_cases hl args turn with
      ⟨peer, _, boot, _, _, _, _, _, hr⟩ | ⟨_, _, _, _, _, _, _, hr⟩ | ⟨_, _, _, _, hr⟩ | hrefused
    · exact absurd (by rw [hr]) (h peer boot)
    · rw [hr]
      simp
    · rw [hr]
      exact nofun
    · exact hrefused.calls

/-! ### The loops of a process -/

/-- **What the loops of a process are**: the first is the one `start_network` enters, and
there are others only when it returns. -/
theorem mainLoop_cons_cases (args : Args) (turn : StartTurn) (later : List StartTurn) :
    (mainLoop text args (turn :: later)).1 = [] ∨
      ∃ effects peer boot l, startNetwork text args turn = (effects, .run peer boot) ∧
        l = ⟨effects, ⟨turn.build, turn.sha, peer, boot⟩, turn.start, turn.turns⟩ ∧
        ((mainLoop text args (turn :: later)).1 = [l] ∨
          (mainLoop text args (turn :: later)).1 = l :: (mainLoop text args later).1 ∧
            ∃ o, l.result = .ok o ∧ o.returned = true) := by
  rw [mainLoop]
  cases hstart : startNetwork text args turn with
  | mk effects ended =>
    cases ended with
    | error => exact .inl rfl
    | exit message => exact .inl rfl
    | panic => exact .inl rfl
    | run peer boot =>
      refine .inr ⟨effects, peer, boot, _, rfl, rfl, ?_⟩
      simp only
      cases hresult : Loop.result ⟨effects, ⟨turn.build, turn.sha, peer, boot⟩, turn.start,
          turn.turns⟩ with
      | error p => exact .inl rfl
      | ok o =>
        by_cases hreturned : o.returned = true
        · simp only [hreturned, if_true]
          exact .inr ⟨trivial, o, rfl, hreturned⟩
        · simp only [hreturned]
          exact .inl rfl

/-- A loop was entered with what the arguments stand for. -/
structure Loop.Follows (text : ArgText) (args : Args) (l : Loop) : Prop where
  /-- The boot node. -/
  boots : BootsFrom text args.connect l.cfg.bootNode
  /-- The swarm. -/
  listens : ∃ address, ListensOn args.listen address ∧
    l.effects = .listenOn address :: l.cfg.bootNode.toList.flatMap bootCalls

theorem mainLoop_follows (hl : text.Lawful) (args : Args) (turns : List StartTurn) :
    ∀ l ∈ (mainLoop text args turns).1, l.Follows text args := by
  induction turns with
  | nil => exact fun l hmem => absurd hmem List.not_mem_nil
  | cons turn later ih =>
    intro l hmem
    rcases mainLoop_cons_cases args turn later with
      hnone | ⟨effects, peer, boot, l', hstart, rfl, hloops⟩
    · rw [hnone] at hmem
      exact absurd hmem List.not_mem_nil
    · have hfirst : Loop.Follows text args
          ⟨effects, ⟨turn.build, turn.sha, peer, boot⟩, turn.start, turn.turns⟩ := by
        obtain ⟨-, -, hboot, address, hlisten, -, heffects⟩ :=
          (startNetwork_eq_run_iff hl args turn effects peer boot).mp hstart
        exact ⟨hboot, address, hlisten, heffects⟩
      rcases hloops with hone | ⟨hmore, -⟩
      · rw [hone, List.mem_singleton] at hmem
        exact hmem ▸ hfirst
      · rw [hmore] at hmem
        rcases List.mem_cons.mp hmem with rfl | hlater
        · exact hfirst
        · exact ih l hlater

/-- A loop behind which there is another one has returned. -/
theorem mainLoop_returned (args : Args) {turns : List StartTurn} {before after : List Loop}
    {l : Loop} (h : (mainLoop text args turns).1 = before ++ l :: after) (hne : after ≠ []) :
    ∃ o, l.result = .ok o ∧ o.returned = true := by
  induction turns generalizing before with
  | nil => exact absurd h (by simp [mainLoop])
  | cons turn later ih =>
    rcases mainLoop_cons_cases args turn later with
      hnone | ⟨effects, peer, boot, l', -, -, hone | ⟨hmore, o, hresult, hreturned⟩⟩
    · rw [hnone] at h
      exact absurd h (by simp)
    · rw [hone] at h
      have hlen := congrArg List.length h
      have := List.length_pos_iff.mpr hne
      simp only [List.length_append, List.length_cons, List.length_nil] at hlen
      omega
    · rw [hmore] at h
      cases before with
      | nil =>
        obtain ⟨rfl, -⟩ := List.cons.inj h
        exact ⟨o, hresult, hreturned⟩
      | cons first before => exact ih (List.cons.inj h).2

/-- **Every loop of a process.**  Each was entered with the boot node that `--connect` stands
for, after listening on the address that `--listen` stands for and dialling this node, so that
a restart changes neither; each but the last has returned; and none crashes on an empty
address, as long as no event brings one. -/
theorem mainLoop_loops (hl : text.Lawful) (args : Args) (turns : List StartTurn) :
    (∀ l ∈ (mainLoop text args turns).1, BootsFrom text args.connect l.cfg.bootNode ∧
      ∃ address, ListensOn args.listen address ∧
        l.effects = .listenOn address :: l.cfg.bootNode.toList.flatMap bootCalls) ∧
      (∀ l ∈ (mainLoop text args turns).1, ∀ l' ∈ (mainLoop text args turns).1,
        l.effects = l'.effects ∧ l.cfg.bootNode = l'.cfg.bootNode) ∧
      (∀ before l after, (mainLoop text args turns).1 = before ++ l :: after → after ≠ [] →
        ∃ o, l.result = .ok o ∧ o.returned = true) ∧
      ∀ l ∈ (mainLoop text args turns).1,
        (∀ event ∈ handledEvents l.cfg (LoopState.initial l.start) l.turns, event.Addressed) →
          l.result ≠ .error .indexOutOfBounds := by
  have hfollows := mainLoop_follows hl args turns
  refine ⟨fun l hmem => ⟨(hfollows l hmem).boots, (hfollows l hmem).listens⟩, ?_,
    fun _ _ _ => mainLoop_returned args, ?_⟩
  · intro l hmem l' hmem'
    obtain ⟨address, hlisten, heffects⟩ := (hfollows l hmem).listens
    obtain ⟨address', hlisten', heffects'⟩ := (hfollows l' hmem').listens
    have hboot := (hfollows l hmem).boots.unique (hfollows l' hmem').boots
    obtain rfl := hlisten.unique hlisten'
    exact ⟨by rw [heffects, heffects', hboot], hboot⟩
  · intro l hmem hevents
    have hempty : (LoopState.initial l.start).endpoints.Addressed :=
      ⟨by simp [LoopState.initial], by simp [LoopState.initial]⟩
    exact runLoop_addressed (hfollows l hmem).boots.started hempty hevents

end Outcome

/-! ### A node with a boot node -/

/-- The components `ip4` and `tcp` of an address. -/
private def plainMultiaddr (s : String) : Option Multiaddr :=
  match s.toList.splitOn '/' with
  | [_, p, addr, q, port] =>
      if p = ['i', 'p', '4'] ∧ q = ['t', 'c', 'p'] then
        (Ipv4Addr.parse (String.ofList addr)).bind fun ip =>
          (readNumber 65536 none true port).map fun n => tcpAddress ip (UInt16.ofNat n.1)
      else none
  | _ => none

/-- A library with one peer id, the identity multihash of a single byte. -/
private def plainText : ArgText :=
  ⟨plainMultiaddr, fun s => if s = "15W" then some ⟨[0, 1, 5]⟩ else none⟩

private theorem plainText_lawful : plainText.Lawful := by
  intro ip port
  have hslash : ∀ {ds : List Char} {n : ℕ}, Numeral ds n → '/' ∉ ds :=
    fun h hmem => absurd (h.2.1 '/' hmem) (by decide)
  have haddr : '/' ∉ addrChars ip := by
    intro h
    rcases isDigit_or_eq_of_mem_addrChars h with hdigit | heq
    · exact absurd hdigit (by decide)
    · exact absurd heq (by decide)
  have hchars : (multiaddrText ip port).toList = [] ++ '/' :: (['i', 'p', '4'] ++ '/' ::
      (addrChars ip ++ '/' :: (['t', 'c', 'p'] ++ '/' :: Nat.toDigits 10 port.toNat))) := by
    simp [multiaddrText, ip.toList_display]
  have hparts : (multiaddrText ip port).toList.splitOn '/' =
      [[], ['i', 'p', '4'], addrChars ip, ['t', 'c', 'p'], Nat.toDigits 10 port.toNat] := by
    rw [hchars, List.splitOn_append_cons_self, List.splitOn_append_cons_self,
      List.splitOn_append_cons_self, List.splitOn_append_cons_self,
      List.splitOn_eq_singleton (by decide), List.splitOn_eq_singleton (by decide),
      List.splitOn_eq_singleton haddr, List.splitOn_eq_singleton (by decide),
      List.splitOn_eq_singleton (hslash (numeral_toDigits _))]
    rfl
  have hip : Ipv4Addr.parse (String.ofList (addrChars ip)) = some ip := by
    rw [← ip.toList_display, String.ofList_toList]
    exact Ipv4Addr.parse_eq_some_iff.mpr rfl
  have hport : readNumber 65536 none true (Nat.toDigits 10 port.toNat) = some (port.toNat, []) :=
    readNumber_eq_some_iff.mpr ⟨_, (List.append_nil _).symm, numeral_toDigits _, nofun,
      port.toNat_lt, nofun, nofun⟩
  have hparse : plainText.parseMultiaddr = plainMultiaddr := rfl
  rw [hparse, plainMultiaddr, hparts]
  simp only [hip, hport, and_self, if_true, Option.bind_some, Option.map_some, UInt16.ofNat_toNat]

private def bootArgs : Args := ⟨some ["10.0.0.5:04001", "15W"], none⟩

/-- The peer of an Ed25519 key. -/
private def localPeer : PeerId :=
  ⟨[0, 36, 8, 1, 18, 32, 215, 90, 152, 1, 130, 177, 10, 183, 213, 75, 254, 211, 201, 100, 7, 58,
    14, 225, 114, 243, 218, 166, 35, 37, 175, 2, 26, 104, 247, 7, 81, 26]⟩

private def bootTurn : StartTurn :=
  ⟨some localPeer, .built, fun _ => true, .checked, default, 0, []⟩

private def dialledNode : PeerEndpointCache := ⟨⟨[0, 1, 5]⟩, tcpAddress ⟨10, 0, 0, 5⟩ 4001⟩

private theorem bootArgs_bootsFrom : BootsFrom plainText bootArgs.connect (some dialledNode) := by
  have hport : Numeral ['0', '4', '0', '0', '1'] (UInt16.toNat 4001) :=
    ⟨nofun, by simp, by simp [Nat.ofDigitChars_cons]⟩
  have htext : "10.0.0.5:04001" =
      Ipv4Addr.display ⟨10, 0, 0, 5⟩ ++ ":" ++ String.ofList ['0', '4', '0', '0', '1'] := by
    decide +kernel
  exact ⟨_, 4001, ⟨[0, 1, 5]⟩, .inr ⟨_, htext, hport⟩, rfl, rfl⟩

/-- A node that dials a boot node, whose port has a zero in front. -/
theorem startNetwork_outcome_boot : plainText.Lawful ∧
    startNetwork plainText bootArgs bootTurn =
      ([.listenOn (tcpAddress ⟨0, 0, 0, 0⟩ 0), .call (.addAddress ⟨[0, 1, 5]⟩ dialledNode.address),
        .call (.dial dialledNode.address), .call (.disconnectPeerId ⟨[0, 1, 5]⟩)],
        .run localPeer (some dialledNode)) :=
  ⟨plainText_lawful, ((startNetwork_outcome plainText_lawful bootArgs bootTurn).1 _ _ _).mpr
    ⟨rfl, rfl, bootArgs_bootsFrom, _, rfl, rfl, rfl⟩⟩

private def bootLoop : Loop :=
  ⟨.listenOn (tcpAddress ⟨0, 0, 0, 0⟩ 0) :: bootCalls dialledNode,
    ⟨.checked, default, localPeer, some dialledNode⟩, 0, []⟩

/-- Its process is in the loop. -/
theorem mainLoop_loops_boot : plainText.Lawful ∧
    (mainLoop plainText bootArgs [bootTurn]).1 = [bootLoop] ∧
      BootsFrom plainText bootArgs.connect bootLoop.cfg.bootNode ∧
      bootLoop.result ≠ .error .indexOutOfBounds := by
  have hstart := (startNetwork_eq_run_iff plainText_lawful bootArgs bootTurn _ _ _).mpr
    ⟨rfl, rfl, bootArgs_bootsFrom, _, rfl, rfl, rfl⟩
  have hloops : (mainLoop plainText bootArgs [bootTurn]).1 = [bootLoop] := by
    rw [mainLoop, hstart]
    rfl
  obtain ⟨hall, -, -, hpanic⟩ := mainLoop_loops plainText_lawful bootArgs [bootTurn]
  rw [hloops] at hall hpanic
  refine ⟨plainText_lawful, hloops, (hall _ List.mem_cons_self).1,
    hpanic _ List.mem_cons_self fun event hmem => ?_⟩
  exact absurd hmem List.not_mem_nil

end P2pClipboard
