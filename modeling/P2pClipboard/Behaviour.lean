import Mathlib.Data.List.AList
import P2pClipboard.Lib.Leases
import P2pClipboard.Mdns

/-!
# The mDNS behaviour

`Behaviour` of `lib/mdns/src/behaviour.rs` keeps one task for each network interface and
the list of the nodes its tasks have found, each address with the time it expires.  A call
of `poll` runs a loop that hands over a pending event, follows the interfaces, takes in
what the tasks found, drops what has expired, or sets a timer and waits.

Whatever comes from outside during one pass of the loop is a `Round`: the interface
events, the records in the channel and the time.

## Main definitions

* `Behaviour` — the state.
* `Behaviour.pass`, `Behaviour.poll` — one pass of the loop, and the loop.
* `Behaviour.expireNode`, `Behaviour.handlePendingOutboundConnection` — the other
  operations.

## Main results

* `Behaviour.poll_cases` — what a call of `poll` can do.
* `Behaviour.poll_isSome` — the loop makes two passes at most.
* `Behaviour.closestExpiration_exact` — **the timer is set for the first moment something
  expires.**
-/

namespace P2pClipboard

/-! ### The data -/

/-- A moment, in nanoseconds of the clock. -/
abbrev Instant := ℕ

theorem zero_lt_nanosPerSec : (0 : UInt32).toNat < 10 ^ 9 := by decide

/-- `Duration::from_secs`. -/
def Duration.fromSecs (secs : UInt64) : Duration := ⟨secs, 0, zero_lt_nanosPerSec⟩

/-- An IP address. -/
inductive IpAddr
  /-- An IPv4 address. -/
  | v4 (a b c d : UInt8)
  /-- An IPv6 address. -/
  | v6 (bits : BitVec 128)
  deriving DecidableEq, Repr

/-- `IpAddr::is_loopback`: `127.0.0.0/8` or `::1`. -/
def IpAddr.isLoopback : IpAddr → Bool
  | .v4 a _ _ _ => a == 127
  | .v6 bits => bits == 1

/-- `IpAddr::is_ipv4`. -/
def IpAddr.isIpv4 : IpAddr → Bool
  | .v4 .. => true
  | .v6 _ => false

/-- `IpAddr::is_ipv6`. -/
def IpAddr.isIpv6 : IpAddr → Bool
  | .v4 .. => false
  | .v6 _ => true

/-- `Config` of the mDNS crate. -/
structure DiscoveryConfig extends MdnsConfig where
  /-- How often the network is asked for new peers. -/
  queryInterval : Duration
  /-- Use IPv6 instead of IPv4. -/
  enableIpv6 : Bool
  /-- All of mDNS is a no-op. -/
  disabled : Bool

/-- The handle of a spawned task. -/
abbrev TaskHandle := ℕ

/-- An event of the interface watcher. -/
inductive IfEvent
  /-- An address came up.  `created` is the handle of the task for it, when
  `InterfaceState::new` has no error. -/
  | up (addr : IpAddr) (created : Option TaskHandle)
  /-- An address went down. -/
  | down (addr : IpAddr)
  /-- The watcher had an error. -/
  | error
  deriving DecidableEq, Repr

/-- A record a task found: a peer at an address, and when that expires. -/
abbrev FoundRecord := (PeerId × Multiaddr) × Instant

/-- `Event` of the behaviour. -/
inductive DiscoveryEvent
  /-- Nodes were discovered. -/
  | discovered (nodes : List (PeerId × Multiaddr))
  /-- Nodes have expired. -/
  | expired (nodes : List (PeerId × Multiaddr))
  deriving DecidableEq, Repr

/-- What the behaviour tells the swarm. -/
inductive ToSwarm
  /-- An event for the program. -/
  | generateEvent (event : DiscoveryEvent)
  /-- An address of a peer. -/
  | newExternalAddrOfPeer (peerId : PeerId) (address : Multiaddr)
  deriving DecidableEq, Repr

/-- What the behaviour does to the tasks. -/
inductive TaskEffect
  /-- `P::spawn`. -/
  | spawn (addr : IpAddr) (handle : TaskHandle)
  /-- `Abort::abort`. -/
  | abort (addr : IpAddr) (handle : TaskHandle)
  deriving DecidableEq, Repr

/-- The fields of `Behaviour` that its operations read.  The watcher and the channel are
in the rounds. -/
structure Behaviour where
  /-- The configuration. -/
  config : DiscoveryConfig
  /-- The handles of the tasks. -/
  ifTasks : AList (fun _ : IpAddr => TaskHandle) := ∅
  /-- The nodes discovered, the address, and when they expire. -/
  discoveredNodes : List FoundRecord := []
  /-- The timer. -/
  closestExpiration : Option Instant := none
  /-- The events to be emitted. -/
  pendingEvents : List ToSwarm := []

/-- What one pass of the loop reads from outside. -/
structure Round where
  /-- What the interface watcher has to tell. -/
  ifEvents : List IfEvent
  /-- The records in the channel. -/
  records : List FoundRecord
  /-- `Instant::now`. -/
  now : Instant

/-- How a pass of the loop ends. -/
inductive PassEnd
  /-- `return Poll::Ready`. -/
  | ready (event : ToSwarm)
  /-- `continue`. -/
  | again
  /-- `return Poll::Pending`. -/
  | pending
  deriving DecidableEq, Repr

/-! ### The operations -/

namespace Behaviour

/-- An event of the interface watcher. -/
def onIfEvent : Behaviour × List TaskEffect → IfEvent → Behaviour × List TaskEffect
  | (b, effects), .up addr created =>
      if addr.isLoopback then (b, effects)
      else if addr.isIpv4 && b.config.enableIpv6 || addr.isIpv6 && !b.config.enableIpv6 then
        (b, effects)
      else
        match b.ifTasks.lookup addr, created with
        | none, some handle =>
            ({ b with ifTasks := b.ifTasks.insert addr handle }, effects ++ [.spawn addr handle])
        | _, _ => (b, effects)
  | (b, effects), .down addr =>
      match b.ifTasks.lookup addr with
      | some handle =>
          ({ b with ifTasks := b.ifTasks.erase addr }, effects ++ [.abort addr handle])
      | none => (b, effects)
  | (b, effects), .error => (b, effects)

/-- A record of the channel: renewed if the address is known, else discovered. -/
def receive : Behaviour × List (PeerId × Multiaddr) → FoundRecord →
    Behaviour × List (PeerId × Multiaddr)
  | (b, discovered), (node, expiration) =>
      if node ∈ b.discoveredNodes.map Prod.fst then
        ({ b with
            discoveredNodes := Leases.update node (max · expiration) b.discoveredNodes },
          discovered)
      else
        ({ b with
            discoveredNodes := b.discoveredNodes ++ [(node, expiration)]
            pendingEvents := b.pendingEvents ++ [.newExternalAddrOfPeer node.1 node.2] },
          discovered ++ [node])

/-- The earliest expiration in a list. -/
def earliest (nodes : List FoundRecord) : Option Instant :=
  nodes.foldl (fun closest n => some (min (closest.getD n.2) n.2)) none

/-- One pass of the loop of `poll`. -/
def pass (b : Behaviour) (round : Round) : Behaviour × List TaskEffect × PassEnd :=
  match b.pendingEvents with
  | event :: rest => ({ b with pendingEvents := rest }, [], .ready event)
  | [] =>
      let (b, effects) := round.ifEvents.foldl onIfEvent (b, [])
      let (b, discovered) := round.records.foldl receive (b, [])
      if !discovered.isEmpty then
        -- to the front, so that it is reported before the addresses
        ({ b with pendingEvents := .generateEvent (.discovered discovered) :: b.pendingEvents },
          effects, .again)
      else
        let expired := Leases.ended round.now b.discoveredNodes
        let discoveredNodes := b.discoveredNodes.filter fun n => ¬n.2 ≤ round.now
        if !expired.isEmpty then
          ({ b with
              discoveredNodes
              pendingEvents := b.pendingEvents ++ [.generateEvent (.expired expired)] },
            effects, .again)
        else
          match earliest discoveredNodes with
          | some closestExpiration =>
              ({ b with discoveredNodes, closestExpiration := some closestExpiration },
                effects, .pending)
          | none => ({ b with discoveredNodes }, effects, .pending)

/-- What a call of `poll` leaves behind. -/
structure PollOutcome where
  /-- The behaviour after it. -/
  behaviour : Behaviour
  /-- What it did to the tasks. -/
  effects : List TaskEffect
  /-- The event, unless the answer is `Poll::Pending`. -/
  event : Option ToSwarm
  /-- The rounds it read. -/
  read : List Round

/-- The loop of `poll`.  There is no outcome while the loop goes on. -/
def pollLoop (b : Behaviour) : List Round → Option PollOutcome
  | [] => none
  | round :: rounds =>
      match b.pass round with
      | (b, effects, .ready event) => some ⟨b, effects, some event, []⟩
      | (b, effects, .pending) => some ⟨b, effects, none, [round]⟩
      | (b, effects, .again) =>
          (b.pollLoop rounds).map fun o =>
            { o with effects := effects ++ o.effects, read := round :: o.read }

/-- `poll`. -/
def poll (b : Behaviour) (rounds : List Round) : Option PollOutcome :=
  if b.config.disabled then some ⟨{ b with pendingEvents := [] }, [], none, []⟩
  else b.pollLoop rounds

/-- `expire_node`. -/
def expireNode (b : Behaviour) (peerId : PeerId) (now : Instant) : Behaviour :=
  { b with
    discoveredNodes := b.discoveredNodes.map fun n => if n.1.1 = peerId then (n.1, now) else n
    closestExpiration := some now }

/-- `handle_pending_outbound_connection`: the addresses offered for a dial. -/
def handlePendingOutboundConnection (b : Behaviour) : Option PeerId → List Multiaddr
  | none => []
  | some peerId => (b.discoveredNodes.filter fun n => n.1.1 = peerId).map fun n => n.1.2

/-! ### What a call of `poll` can do -/

/-- What the swarm is told about a node. -/
def external (node : PeerId × Multiaddr) : ToSwarm := .newExternalAddrOfPeer node.1 node.2

/-- The events of the watcher concern the tasks alone. -/
theorem foldl_onIfEvent (events : List IfEvent) (b : Behaviour) (effects : List TaskEffect) :
    events.foldl onIfEvent (b, effects) =
      ({ b with ifTasks := (events.foldl onIfEvent (b, effects)).1.ifTasks },
        (events.foldl onIfEvent (b, effects)).2) := by
  induction events generalizing b effects with
  | nil => rfl
  | cons event events ih =>
    have hstep : onIfEvent (b, effects) event =
        ({ b with ifTasks := (onIfEvent (b, effects) event).1.ifTasks },
          (onIfEvent (b, effects) event).2) := by
      cases event with
      | up addr created =>
        simp only [onIfEvent]
        split
        · rfl
        · split
          · rfl
          · split <;> rfl
      | down addr =>
        simp only [onIfEvent]
        split <;> rfl
      | error => rfl
    rw [List.foldl_cons, hstep, ih]

/-- **What the records do**: the list is renewed, and its new keys are announced. -/
theorem foldl_receive (records : List FoundRecord) (b : Behaviour)
    (discovered : List (PeerId × Multiaddr)) :
    ∃ new, Leases.keys (Leases.renewAll b.discoveredNodes records) =
        Leases.keys b.discoveredNodes ++ new ∧
      records.foldl receive (b, discovered) =
        ({ b with
            discoveredNodes := Leases.renewAll b.discoveredNodes records
            pendingEvents := b.pendingEvents ++ new.map external }, discovered ++ new) := by
  induction records generalizing b discovered with
  | nil => exact ⟨[], by simp, by simp⟩
  | cons record records ih =>
    by_cases hknown : record.1 ∈ Leases.keys b.discoveredNodes
    · have hstep : receive (b, discovered) record =
          ({ b with discoveredNodes := Leases.renew b.discoveredNodes record.1 record.2 },
            discovered) := by
        rw [Leases.renew, if_pos hknown]
        exact if_pos hknown
      obtain ⟨new, hkeys, hfold⟩ := ih _ discovered
      rw [List.foldl_cons, hstep]
      refine ⟨new, ?_, hfold⟩
      rw [← Leases.keys_renew_of_mem hknown record.2]
      exact hkeys
    · have hstep : receive (b, discovered) record =
          ({ b with
              discoveredNodes := Leases.renew b.discoveredNodes record.1 record.2
              pendingEvents := b.pendingEvents ++ [external record.1] },
            discovered ++ [record.1]) := by
        rw [Leases.renew, if_neg hknown]
        exact if_neg hknown
      obtain ⟨new, hkeys, hfold⟩ := ih _ (discovered ++ [record.1])
      rw [List.foldl_cons, hstep, hfold]
      refine ⟨record.1 :: new, ?_, by simp [Leases.renewAll_cons]⟩
      show Leases.keys
        (Leases.renewAll (Leases.renew b.discoveredNodes record.1 record.2) records) = _
      rw [hkeys, Leases.keys_renew_of_notMem hknown, List.append_assoc]
      rfl

theorem not_isEmpty_iff {α : Type*} {l : List α} : (!l.isEmpty) = true ↔ l ≠ [] := by
  cases l <;> simp

section Poll

variable {b : Behaviour} {rounds : List Round} {o : PollOutcome}

/-- The behaviour and the effects after the interface events. -/
def followed (b : Behaviour) (events : List IfEvent) : Behaviour × List TaskEffect :=
  events.foldl onIfEvent (b, [])

/-- A pass with a pending event hands it over and reads nothing. -/
theorem pass_of_pending {event : ToSwarm} {rest : List ToSwarm}
    (h : b.pendingEvents = event :: rest) (round : Round) :
    b.pass round = ({ b with pendingEvents := rest }, [], .ready event) := by
  unfold pass
  rw [h]

/-- **A pass with nothing pending** announces what is new, drops what has expired, or
waits. -/
theorem pass_of_nil (h : b.pendingEvents = []) (round : Round) :
    ∃ new, Leases.keys (Leases.renewAll b.discoveredNodes round.records) =
        Leases.keys b.discoveredNodes ++ new ∧
      b.pass round =
        if new ≠ [] then
          ({ b with
              ifTasks := (b.followed round.ifEvents).1.ifTasks
              discoveredNodes := Leases.renewAll b.discoveredNodes round.records
              pendingEvents := .generateEvent (.discovered new) :: new.map external },
            (b.followed round.ifEvents).2, .again)
        else if Leases.ended round.now (Leases.renewAll b.discoveredNodes round.records) ≠ [] then
          ({ b with
              ifTasks := (b.followed round.ifEvents).1.ifTasks
              discoveredNodes :=
                Leases.sweep round.now (Leases.renewAll b.discoveredNodes round.records)
              pendingEvents := [.generateEvent (.expired
                (Leases.ended round.now (Leases.renewAll b.discoveredNodes round.records)))] },
            (b.followed round.ifEvents).2, .again)
        else
          ({ b with
              ifTasks := (b.followed round.ifEvents).1.ifTasks
              discoveredNodes :=
                Leases.sweep round.now (Leases.renewAll b.discoveredNodes round.records)
              closestExpiration :=
                (earliest (Leases.sweep round.now
                  (Leases.renewAll b.discoveredNodes round.records))).or b.closestExpiration
              pendingEvents := [] },
            (b.followed round.ifEvents).2, .pending) := by
  obtain ⟨new, hkeys, hfold⟩ :=
    foldl_receive round.records { b with ifTasks := (b.followed round.ifEvents).1.ifTasks } []
  refine ⟨new, hkeys, ?_⟩
  have hfollow : round.ifEvents.foldl onIfEvent (b, []) =
      ({ b with ifTasks := (b.followed round.ifEvents).1.ifTasks },
        (b.followed round.ifEvents).2) := foldl_onIfEvent round.ifEvents b []
  have hsweep :
      ((Leases.renewAll b.discoveredNodes round.records).filter fun n => ¬n.2 ≤ round.now) =
        Leases.sweep round.now (Leases.renewAll b.discoveredNodes round.records) :=
    List.filter_congr fun n _ => by simp [not_le]
  unfold pass
  rw [h]
  dsimp only
  rw [hfollow]
  dsimp only
  rw [hfold]
  dsimp only
  rw [hsweep, h, List.nil_append, List.nil_append]
  by_cases hnew : new = []
  · subst hnew
    rw [if_neg (mt not_isEmpty_iff.mp (not_not.mpr rfl)), if_neg (not_not.mpr rfl)]
    by_cases hexpired :
        Leases.ended round.now (Leases.renewAll b.discoveredNodes round.records) = []
    · rw [if_neg (mt not_isEmpty_iff.mp (not_not.mpr hexpired)), if_neg (not_not.mpr hexpired)]
      split
      · rename_i closest hclosest
        rw [hclosest]
        rfl
      · rename_i hclosest
        rw [hclosest]
        rfl
    · rw [if_pos (not_isEmpty_iff.mpr hexpired), if_pos hexpired]
      rfl
  · rw [if_pos (not_isEmpty_iff.mpr hnew), if_pos hnew]

/-- **What a call of `poll` can do**: hand over a pending event, or read a round and
announce what is new, drop what has expired, or wait. -/
theorem poll_cases (henabled : b.config.disabled = false) (h : b.poll rounds = some o) :
    (∃ event rest, b.pendingEvents = event :: rest ∧
        o = ⟨{ b with pendingEvents := rest }, [], some event, []⟩) ∨
      ∃ round new, b.pendingEvents = [] ∧ o.read = [round] ∧
        Leases.keys (Leases.renewAll b.discoveredNodes round.records) =
          Leases.keys b.discoveredNodes ++ new ∧
        o.effects = (b.followed round.ifEvents).2 ∧ o.behaviour.config = b.config ∧
        o.behaviour.ifTasks = (b.followed round.ifEvents).1.ifTasks ∧
        (new ≠ [] ∧ o.event = some (.generateEvent (.discovered new)) ∧
            o.behaviour.discoveredNodes = Leases.renewAll b.discoveredNodes round.records ∧
            o.behaviour.pendingEvents = new.map external ∧
            o.behaviour.closestExpiration = b.closestExpiration ∨
          new = [] ∧ o.behaviour.discoveredNodes =
              Leases.sweep round.now (Leases.renewAll b.discoveredNodes round.records) ∧
            o.behaviour.pendingEvents = [] ∧
            (Leases.ended round.now (Leases.renewAll b.discoveredNodes round.records) ≠ [] ∧
                o.event = some (.generateEvent (.expired
                  (Leases.ended round.now (Leases.renewAll b.discoveredNodes round.records)))) ∧
                o.behaviour.closestExpiration = b.closestExpiration ∨
              Leases.ended round.now (Leases.renewAll b.discoveredNodes round.records) = [] ∧
                o.event = none ∧
                o.behaviour.closestExpiration =
                  (earliest o.behaviour.discoveredNodes).or b.closestExpiration)) := by
  rw [poll, if_neg (by simp [henabled])] at h
  cases rounds with
  | nil => cases h
  | cons round rounds =>
    cases hpending : b.pendingEvents with
    | cons event rest =>
      rw [pollLoop, pass_of_pending hpending] at h
      exact .inl ⟨event, rest, rfl, (Option.some.inj h).symm⟩
    | nil =>
      obtain ⟨new, hkeys, hpass⟩ := pass_of_nil hpending round
      refine .inr ⟨round, new, rfl, ?_⟩
      rw [pollLoop, hpass] at h
      by_cases hnew : new = []
      · rw [if_neg (not_not.mpr hnew)] at h
        by_cases hexpired :
            Leases.ended round.now (Leases.renewAll b.discoveredNodes round.records) = []
        · rw [if_neg (not_not.mpr hexpired)] at h
          obtain rfl := Option.some.inj h
          exact ⟨rfl, hkeys, rfl, rfl, rfl, .inr ⟨hnew, rfl, rfl, .inr ⟨hexpired, rfl, rfl⟩⟩⟩
        · -- the next pass hands the event over
          rw [if_pos hexpired] at h
          obtain ⟨o', ho', rfl⟩ := Option.map_eq_some_iff.mp h
          cases rounds with
          | nil => cases ho'
          | cons round' rounds =>
            rw [pollLoop, pass_of_pending rfl] at ho'
            obtain rfl := Option.some.inj ho'
            exact ⟨rfl, hkeys, List.append_nil _, rfl, rfl,
              .inr ⟨hnew, rfl, rfl, .inl ⟨hexpired, rfl, rfl⟩⟩⟩
      · rw [if_pos hnew] at h
        obtain ⟨o', ho', rfl⟩ := Option.map_eq_some_iff.mp h
        cases rounds with
        | nil => cases ho'
        | cons round' rounds =>
          rw [pollLoop, pass_of_pending rfl] at ho'
          obtain rfl := Option.some.inj ho'
          exact ⟨rfl, hkeys, List.append_nil _, rfl, rfl, .inl ⟨hnew, rfl, rfl, rfl, rfl⟩⟩

/-- What is listed was listed before or is in a record that was read. -/
theorem mem_of_poll (henabled : b.config.disabled = false) (h : b.poll rounds = some o)
    {n : FoundRecord} (hn : n ∈ o.behaviour.discoveredNodes) :
    n ∈ b.discoveredNodes ∨ n ∈ o.read.flatMap Round.records := by
  obtain ⟨event, rest, -, rfl⟩ | ⟨round, new, -, hread, -, -, -, -, hends⟩ :=
    poll_cases henabled h
  · exact .inl hn
  · have hmem : n ∈ Leases.renewAll b.discoveredNodes round.records := by
      obtain ⟨-, -, hnodes, -⟩ | ⟨-, hnodes, -⟩ := hends
      · rwa [hnodes] at hn
      · rw [hnodes] at hn
        exact List.mem_of_mem_filter hn
    rw [hread, List.flatMap_singleton]
    exact Leases.mem_of_mem_renewAll hmem

/-- **Two passes are always enough.** -/
theorem poll_isSome (b : Behaviour) (round round' : Round) (rounds : List Round) :
    (b.poll (round :: round' :: rounds)).isSome := by
  rw [poll]
  split
  · rfl
  · cases hpending : b.pendingEvents with
    | cons event rest =>
      rw [pollLoop, pass_of_pending hpending]
      rfl
    | nil =>
      obtain ⟨new, -, hpass⟩ := pass_of_nil hpending round
      rw [pollLoop, hpass]
      by_cases hnew : new = []
      · rw [if_neg (not_not.mpr hnew)]
        by_cases hexpired :
            Leases.ended round.now (Leases.renewAll b.discoveredNodes round.records) = []
        · rw [if_neg (not_not.mpr hexpired)]
          rfl
        · rw [if_pos hexpired]
          show (Option.map _ (pollLoop _ (round' :: rounds))).isSome
          rw [pollLoop, pass_of_pending rfl]
          rfl
      · rw [if_pos hnew]
        show (Option.map _ (pollLoop _ (round' :: rounds))).isSome
        rw [pollLoop, pass_of_pending rfl]
        rfl

/-! ### The timer -/

/-- The earliest expiration is the least one. -/
theorem earliest_eq (nodes : List FoundRecord) : earliest nodes = (nodes.map Prod.snd).min? := by
  have hfold : ∀ (nodes : List FoundRecord) (m : Instant),
      nodes.foldl (fun closest n => some (min (closest.getD n.2) n.2)) (some m) =
        some ((nodes.map Prod.snd).foldl min m) := by
    intro nodes
    induction nodes with
    | nil => exact fun _ => rfl
    | cons n nodes ih => exact fun m => ih (min m n.2)
  cases nodes with
  | nil => rfl
  | cons n nodes =>
    show nodes.foldl _ (some (min n.2 n.2)) = some ((nodes.map Prod.snd).foldl min n.2)
    rw [min_self, hfold]

/-- The outside has nothing to say. -/
def idleRound (now : Instant) : Round := ⟨[], [], now⟩

/-- A pass with nothing pending and nothing to read. -/
theorem pass_idle (hpending : b.pendingEvents = []) (now : Instant) :
    b.pass (idleRound now) =
      if Leases.ended now b.discoveredNodes ≠ [] then
        ({ b with
            discoveredNodes := Leases.sweep now b.discoveredNodes
            pendingEvents :=
              [.generateEvent (.expired (Leases.ended now b.discoveredNodes))] }, [], .again)
      else
        ({ b with
            discoveredNodes := Leases.sweep now b.discoveredNodes
            closestExpiration :=
              (earliest (Leases.sweep now b.discoveredNodes)).or b.closestExpiration
            pendingEvents := [] }, [], .pending) := by
  obtain ⟨new, hkeys, hpass⟩ := pass_of_nil hpending (idleRound now)
  obtain rfl : new = [] := by simpa [idleRound] using hkeys
  exact hpass

/-- **The timer is set for the first moment something expires.**  After a poll that waits,
a poll with nothing to read changes nothing before the time the timer is set for, and from
then on it reports what has expired.  With nothing in the list there is nothing to wait
for. -/
theorem closestExpiration_exact (henabled : b.config.disabled = false)
    (h : b.poll rounds = some o) (hwaits : o.event = none) :
    (o.behaviour.discoveredNodes = [] ∧ ∀ now rest,
        o.behaviour.poll (idleRound now :: rest) =
          some ⟨o.behaviour, [], none, [idleRound now]⟩) ∨
      ∃ t, o.behaviour.closestExpiration = some t ∧ ∀ now rest,
        (now < t → o.behaviour.poll (idleRound now :: rest) =
          some ⟨o.behaviour, [], none, [idleRound now]⟩) ∧
        (t ≤ now → ∀ round, ∃ o', o.behaviour.poll (idleRound now :: round :: rest) = some o' ∧
          o'.event = some (.generateEvent
            (.expired (Leases.ended now o.behaviour.discoveredNodes))) ∧
          Leases.ended now o.behaviour.discoveredNodes ≠ []) := by
  obtain ⟨event, rest, -, rfl⟩ | ⟨round, new, -, -, -, -, hconfig, -, hends⟩ :=
    poll_cases henabled h
  · cases hwaits
  · obtain ⟨-, hevent, -⟩ | ⟨-, -, hpending, ⟨-, hevent, -⟩ | ⟨-, -, hclosest⟩⟩ := hends
    · exact absurd (hevent.symm.trans hwaits) (by simp)
    · exact absurd (hevent.symm.trans hwaits) (by simp)
    · -- the poll waited, so the timer was set if there is something to wait for
      have henabled' : o.behaviour.config.disabled = false := by rw [hconfig, henabled]
      have hidle : ∀ now rest, Leases.ended now o.behaviour.discoveredNodes = [] →
          o.behaviour.poll (idleRound now :: rest) =
            some ⟨o.behaviour, [], none, [idleRound now]⟩ := by
        intro now rest hover
        have htimer : (earliest o.behaviour.discoveredNodes).or o.behaviour.closestExpiration =
            o.behaviour.closestExpiration := by
          rw [hclosest, ← Option.or_assoc, Option.or_self]
        have hpass := pass_idle hpending now
        rw [if_neg (not_not.mpr hover), Leases.sweep_eq_self hover, htimer, ← hpending] at hpass
        rw [poll, if_neg (by simp [henabled']), pollLoop, hpass]
      rw [earliest_eq] at hclosest
      cases hmin : (o.behaviour.discoveredNodes.map Prod.snd).min? with
      | none =>
        have hnil : o.behaviour.discoveredNodes = [] := by simpa using hmin
        refine .inl ⟨hnil, fun now rest => hidle now rest ?_⟩
        rw [hnil]
        rfl
      | some t =>
        obtain ⟨hmem, hleast⟩ := List.min?_eq_some_iff.mp hmin
        refine .inr ⟨t, by rw [hclosest, hmin]; rfl, fun now rest => ⟨fun hlt => ?_, ?_⟩⟩
        · refine hidle now rest (List.eq_nil_iff_forall_not_mem.mpr fun node hnode => ?_)
          obtain ⟨n, hn, -⟩ := List.mem_map.mp hnode
          obtain ⟨hn, hover⟩ := List.mem_filter.mp hn
          have hle : t ≤ n.2 := hleast n.2 (List.mem_map_of_mem hn)
          exact absurd (of_decide_eq_true hover) (not_le.mpr (hlt.trans_le hle))
        · intro hle round
          obtain ⟨n, hn, heq⟩ := List.mem_map.mp hmem
          have hover : Leases.ended now o.behaviour.discoveredNodes ≠ [] :=
            List.ne_nil_of_mem (List.mem_map_of_mem
              (List.mem_filter.mpr ⟨hn, decide_eq_true (heq ▸ hle)⟩))
          have hpass := pass_idle hpending now
          rw [if_pos hover] at hpass
          have hpoll : o.behaviour.poll (idleRound now :: round :: rest) =
              some ⟨{ o.behaviour with
                  discoveredNodes := Leases.sweep now o.behaviour.discoveredNodes
                  pendingEvents := [] }, [],
                some (.generateEvent (.expired (Leases.ended now o.behaviour.discoveredNodes))),
                [idleRound now]⟩ := by
            rw [poll, if_neg (by simp [henabled']), pollLoop, hpass]
            show Option.map _ (pollLoop _ (round :: rest)) = _
            rw [pollLoop, pass_of_pending rfl]
            rfl
          exact ⟨_, hpoll, rfl, hover⟩

/-- A node that was found until 90. -/
private def foundUntil : Behaviour where
  config := ⟨⟨.fromSecs 360, none⟩, .fromSecs 300, false, false⟩
  discoveredNodes := [((⟨[0, 1, 5]⟩, [.ip4 192 168 1 7, .tcp 4001]), 90)]

/-- A poll at 20 waits until 90. -/
theorem closestExpiration_exact_until : ∃ t o, foundUntil.poll [idleRound 20] = some o ∧
    o.behaviour.closestExpiration = some t ∧
    ∀ now rest, now < t →
      o.behaviour.poll (idleRound now :: rest) = some ⟨o.behaviour, [], none, [idleRound now]⟩ := by
  have hpoll : foundUntil.poll [idleRound 20] =
      some ⟨{ foundUntil with closestExpiration := some 90 }, [], none, [idleRound 20]⟩ := rfl
  obtain ⟨hnil, -⟩ | ⟨t, ht, hexact⟩ := closestExpiration_exact rfl hpoll rfl
  · cases hnil
  · exact ⟨t, _, rfl, ht, fun now rest hlt => (hexact now rest).1 hlt⟩

end Poll

end Behaviour

end P2pClipboard
