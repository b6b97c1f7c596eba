import Mathlib.Data.List.DropRight
import P2pClipboard.Behaviour
import P2pClipboard.Lib.Runs

/-!
# What the mDNS behaviour knows, over a whole run

A run is a sequence of polls and of calls of `expire_node`, while the clock goes on.
Beside the state of the behaviour it keeps what was read — the records, the interface
events — and what was handed out — the events and the handling of the tasks.

The list of discovered nodes depends on how often `poll` was called.  What it stands for
does not: the records alone decide until when an address is valid, and whenever `poll`
has nothing more to report the list has the valid addresses and no other.

## Main definitions

* `Observed`, `observe` — a run of the operations, with what was read and handed out.
* `replay` — the nodes a listener knows after the events it was told.
* `Observed.Sound` — the invariant of a run.
* `replayTasks`, `sinceDown`, `firstCreated`, `Observed.TasksSound` — the same for the tasks.

## Main results

* `Observed.Sound.run` — the invariant of every run.
* `discoveredNodes_iff` — **when `poll` waits, the list has the addresses with a record
  that has not expired.**
* `replay_emitted` — **the events tell exactly what comes and goes.**
* `ifTasks_iff` — **the interfaces that have a task.**
-/

namespace P2pClipboard

open Leases (Note deadlines)

/-! ### Runs -/

/-- A behaviour, with what it read and handed out so far. -/
structure Observed where
  /-- The behaviour. -/
  behaviour : Behaviour
  /-- The events handed to the swarm. -/
  emitted : List ToSwarm := []
  /-- What was done to the tasks. -/
  taskLog : List TaskEffect := []
  /-- The interface events read. -/
  ifHistory : List IfEvent := []
  /-- The records read, and the peers that were made to expire. -/
  notes : List (Note (PeerId × Multiaddr) Instant) := []
  /-- The last time read. -/
  clock : Instant := 0
  /-- The last operation was a poll that answered `Poll::Pending`. -/
  waiting : Bool := false

/-- `Behaviour::new`. -/
def Observed.new (config : DiscoveryConfig) : Observed where
  behaviour := { config }

/-- An operation on the behaviour. -/
inductive Operation
  /-- `poll`, with the rounds its passes read. -/
  | poll (rounds : List Round)
  /-- `expire_node`, at a time. -/
  | expireNode (peerId : PeerId) (now : Instant)

/-- The clock does not go back. -/
def advance (clock : Instant) (round : Round) : Option Instant :=
  if clock ≤ round.now then some round.now else none

/-- The notes a round makes. -/
def Round.notes (round : Round) : List (Note (PeerId × Multiaddr) Instant) :=
  round.records.map fun record => .renewed record.1 record.2

/-- An operation, and what is observed of it. -/
def observe (s : Observed) : Operation → Option Observed
  | .poll rounds =>
      (s.behaviour.poll rounds).bind fun o =>
        (o.read.foldlM advance s.clock).map fun clock =>
          { behaviour := o.behaviour
            emitted := s.emitted ++ o.event.toList
            taskLog := s.taskLog ++ o.effects
            ifHistory := s.ifHistory ++ o.read.flatMap Round.ifEvents
            notes := s.notes ++ o.read.flatMap Round.notes
            clock
            waiting := o.event.isNone }
  | .expireNode peerId now =>
      if s.clock ≤ now then
        some { s with
          behaviour := s.behaviour.expireNode peerId now
          notes := s.notes ++ [.cut (fun node => node.1 = peerId) now]
          clock := now
          waiting := false }
      else none

/-! ### What the events tell -/

/-- The nodes a listener knows after one more event.  There are none where the event
tells nothing, or nothing new, or of the loss of something unknown, or of an address that
is not known. -/
def replayEvent (known : List (PeerId × Multiaddr)) :
    ToSwarm → Option (List (PeerId × Multiaddr))
  | .generateEvent (.discovered nodes) =>
      if nodes ≠ [] ∧ (known ++ nodes).Nodup then some (known ++ nodes) else none
  | .generateEvent (.expired nodes) =>
      if nodes ≠ [] ∧ nodes.Nodup ∧ nodes ⊆ known then some (known.removeAll nodes) else none
  | .newExternalAddrOfPeer peerId address =>
      if known.contains (peerId, address) then some known else none

/-- The nodes a listener knows after the events. -/
def replay (known : List (PeerId × Multiaddr)) (events : List ToSwarm) :
    Option (List (PeerId × Multiaddr)) :=
  events.foldlM replayEvent known

/-- The addresses the swarm was told. -/
def externalsOf (events : List ToSwarm) : List (PeerId × Multiaddr) :=
  events.filterMap fun
    | .newExternalAddrOfPeer peerId address => some (peerId, address)
    | _ => none

/-- The nodes reported as discovered, with repetitions. -/
def discoveredOf (events : List ToSwarm) : List (PeerId × Multiaddr) :=
  events.flatMap fun
    | .generateEvent (.discovered nodes) => nodes
    | _ => []

theorem replay_append {known known' : List (PeerId × Multiaddr)} {events : List ToSwarm}
    (h : replay known events = some known') (events' : List ToSwarm) :
    replay known (events ++ events') = replay known' events' := by
  rw [replay, List.foldlM_append]
  exact congrArg (· >>= _) h

/-- The addresses of nodes that are known change nothing. -/
theorem replay_externals {known nodes : List (PeerId × Multiaddr)}
    (h : ∀ node ∈ nodes, node ∈ known) :
    replay known (nodes.map Behaviour.external) = some known := by
  induction nodes with
  | nil => rfl
  | cons node nodes ih =>
    have hfirst : replayEvent known (Behaviour.external node) = some known :=
      if_pos (List.contains_iff_mem.mpr (h node List.mem_cons_self))
    rw [List.map_cons, replay, List.foldlM_cons, hfirst]
    exact ih fun node' hnode' => h node' (List.mem_cons_of_mem _ hnode')

theorem externalsOf_append (l l' : List ToSwarm) :
    externalsOf (l ++ l') = externalsOf l ++ externalsOf l' := List.filterMap_append

theorem discoveredOf_append (l l' : List ToSwarm) :
    discoveredOf (l ++ l') = discoveredOf l ++ discoveredOf l' := List.flatMap_append

@[simp] theorem externalsOf_externals (nodes : List (PeerId × Multiaddr)) :
    externalsOf (nodes.map Behaviour.external) = nodes := by
  rw [externalsOf, List.filterMap_map]
  exact List.filterMap_some

@[simp] theorem discoveredOf_externals (nodes : List (PeerId × Multiaddr)) :
    discoveredOf (nodes.map Behaviour.external) = [] := by
  rw [discoveredOf, List.flatMap_map]
  exact List.flatMap_eq_nil_iff.mpr fun _ _ => rfl

/-! ### The invariant -/

namespace Observed

/-- What holds of the nodes in every run. -/
structure Sound (config : DiscoveryConfig) (s : Observed) : Prop where
  /-- The configuration stays. -/
  config_eq : s.behaviour.config = config
  /-- "Each combination of `PeerId` and `Multiaddr` can only appear once." -/
  nodup : (Leases.keys s.behaviour.discoveredNodes).Nodup
  /-- What is valid is what the notes say. -/
  agrees : Leases.Agrees s.clock s.behaviour.discoveredNodes (deadlines s.notes)
  /-- Someone who listens to the events, those to come included, knows the list. -/
  replayed : replay [] (s.emitted ++ s.behaviour.pendingEvents) =
    some (Leases.keys s.behaviour.discoveredNodes)
  /-- Each node reported is followed by its address. -/
  announced : externalsOf (s.emitted ++ s.behaviour.pendingEvents) =
    discoveredOf (s.emitted ++ s.behaviour.pendingEvents)
  /-- When `poll` waits nothing is pending... -/
  pending_eq : s.waiting = true → s.behaviour.pendingEvents = []
  /-- ... and nothing in the list has expired. -/
  later : s.waiting = true → ∀ n ∈ s.behaviour.discoveredNodes, s.clock < n.2

namespace Sound

theorem new (config : DiscoveryConfig) : Sound config (Observed.new config) where
  config_eq := rfl
  nodup := List.nodup_nil
  agrees := Leases.agrees_nil 0
  replayed := rfl
  announced := rfl
  pending_eq _ := rfl
  later := by simp [Observed.new]

variable {config : DiscoveryConfig} {s s' : Observed}

/-- Nodes that are discovered together are new and different from each other. -/
theorem replay_discovered (h : Sound config s) (hpending : s.behaviour.pendingEvents = [])
    {table : List FoundRecord} {new : List (PeerId × Multiaddr)} (hnew : new ≠ [])
    (hnodup : (Leases.keys table).Nodup)
    (hkeys : Leases.keys table = Leases.keys s.behaviour.discoveredNodes ++ new) :
    replay [] (s.emitted ++ .generateEvent (.discovered new) :: new.map Behaviour.external) =
      some (Leases.keys table) := by
  have hbefore := h.replayed
  rw [hpending, List.append_nil] at hbefore
  rw [replay_append hbefore, hkeys]
  have hevent : replayEvent (Leases.keys s.behaviour.discoveredNodes)
      (.generateEvent (.discovered new)) =
        some (Leases.keys s.behaviour.discoveredNodes ++ new) :=
    if_pos ⟨hnew, hkeys ▸ hnodup⟩
  rw [replay, List.foldlM_cons, hevent]
  exact replay_externals fun node hnode => List.mem_append_right _ hnode

/-- Nodes that expire together were known. -/
theorem replay_expired (h : Sound config s) (hpending : s.behaviour.pendingEvents = [])
    {table : List FoundRecord} {now : Instant} (hover : Leases.ended now table ≠ [])
    (hkeys : Leases.keys table = Leases.keys s.behaviour.discoveredNodes) :
    replay [] (s.emitted ++ [.generateEvent (.expired (Leases.ended now table))]) =
      some (Leases.keys (Leases.sweep now table)) := by
  have hbefore := h.replayed
  have hnodup : (Leases.keys table).Nodup := hkeys ▸ h.nodup
  rw [hpending, List.append_nil, ← hkeys] at hbefore
  rw [replay_append hbefore, Leases.keys_sweep hnodup]
  have hevent : replayEvent (Leases.keys table)
      (.generateEvent (.expired (Leases.ended now table))) =
        some ((Leases.keys table).removeAll (Leases.ended now table)) :=
    if_pos ⟨hover, Leases.nodup_ended hnodup now, Leases.ended_subset_keys now table⟩
  rw [replay, List.foldlM_cons, hevent]
  refine congrArg some (List.filter_congr fun node _ => ?_)
  rw [Bool.eq_iff_iff]
  simp

/-- A poll keeps the invariant. -/
theorem poll (h : Sound config s) (henabled : config.disabled = false) {rounds : List Round}
    (hstep : observe s (.poll rounds) = some s') : Sound config s' := by
  obtain ⟨o, ho, hstep⟩ := Option.bind_eq_some_iff.mp hstep
  obtain ⟨clock, hclock, rfl⟩ := Option.map_eq_some_iff.mp hstep
  obtain ⟨event, rest, hpending, rfl⟩ |
      ⟨round, new, hpending, hread, hkeys, -, hconfig, -, hends⟩ :=
    Behaviour.poll_cases (by rw [h.config_eq, henabled]) ho
  · -- a pending event is handed over
    obtain rfl : s.clock = clock := Option.some.inj hclock
    have hevents : s.emitted ++ (some event).toList ++ rest =
        s.emitted ++ s.behaviour.pendingEvents := by
      rw [hpending, List.append_assoc]
      rfl
    exact {
      config_eq := h.config_eq
      nodup := h.nodup
      agrees := by simpa using h.agrees
      replayed := by simpa only [hevents] using h.replayed
      announced := by simpa only [hevents] using h.announced
      pending_eq := fun hwaits => by cases hwaits
      later := fun hwaits => by cases hwaits }
  · have hclock' : s.clock ≤ round.now ∧ round.now = clock := by
      rw [hread] at hclock
      simpa [advance] using hclock
    obtain ⟨hle, rfl⟩ := hclock'
    have hnotes : o.read.flatMap Round.notes = round.notes := by simp [hread]
    have hnodup := Leases.nodup_keys_renewAll h.nodup round.records
    have hagrees := h.agrees.renewAll h.nodup round.records
    have hannounced := h.announced
    rw [hpending, List.append_nil] at hannounced
    obtain ⟨hnew, hevent, hnodes, hpending', -⟩ | ⟨rfl, hnodes, hpending', hends⟩ := hends
    · -- something is new
      have hevents : s.emitted ++ o.event.toList ++ o.behaviour.pendingEvents =
          s.emitted ++ .generateEvent (.discovered new) :: new.map Behaviour.external := by
        rw [hevent, hpending', List.append_assoc]
        rfl
      exact {
        config_eq := hconfig.trans h.config_eq
        nodup := hnodes ▸ hnodup
        agrees := by
          show Leases.Agrees round.now o.behaviour.discoveredNodes _
          rw [hnodes, hnotes]
          exact hagrees.mono hle
        replayed := by
          show replay [] (s.emitted ++ o.event.toList ++ o.behaviour.pendingEvents) = _
          rw [hevents, hnodes]
          exact h.replay_discovered hpending hnew hnodup hkeys
        announced := by
          show externalsOf (s.emitted ++ o.event.toList ++ o.behaviour.pendingEvents) =
            discoveredOf (s.emitted ++ o.event.toList ++ o.behaviour.pendingEvents)
          rw [hevents, externalsOf_append, discoveredOf_append, hannounced]
          show _ ++ externalsOf (new.map Behaviour.external) =
            _ ++ (new ++ discoveredOf (new.map Behaviour.external))
          rw [externalsOf_externals, discoveredOf_externals, List.append_nil]
        pending_eq := fun hwaits => by simp [hevent] at hwaits
        later := fun hwaits => by simp [hevent] at hwaits }
    · -- nothing is new, and what has expired is dropped
      rw [List.append_nil] at hkeys
      have hreplayed : replay [] (s.emitted ++ o.event.toList) =
            some (Leases.keys (Leases.sweep round.now
              (Leases.renewAll s.behaviour.discoveredNodes round.records))) ∧
          externalsOf (s.emitted ++ o.event.toList) =
            discoveredOf (s.emitted ++ o.event.toList) := by
        obtain ⟨hover, hevent, -⟩ | ⟨hover, hevent, -⟩ := hends
        · rw [hevent]
          refine ⟨h.replay_expired hpending hover hkeys, ?_⟩
          rw [externalsOf_append, discoveredOf_append, hannounced]
          rfl
        · have hreplayed := h.replayed
          rw [hpending, List.append_nil, ← hkeys] at hreplayed
          rw [hevent, Option.toList_none, List.append_nil, Leases.sweep_eq_self hover]
          exact ⟨hreplayed, hannounced⟩
      exact {
        config_eq := hconfig.trans h.config_eq
        nodup := by
          show (Leases.keys o.behaviour.discoveredNodes).Nodup
          rw [hnodes]
          exact Leases.nodup_keys_sweep hnodup round.now
        agrees := by
          show Leases.Agrees round.now o.behaviour.discoveredNodes _
          rw [hnodes, hnotes]
          exact hagrees.sweep hle
        replayed := by
          show replay [] (s.emitted ++ o.event.toList ++ o.behaviour.pendingEvents) = _
          rw [hpending', List.append_nil, hnodes]
          exact hreplayed.1
        announced := by
          show externalsOf (s.emitted ++ o.event.toList ++ o.behaviour.pendingEvents) =
            discoveredOf (s.emitted ++ o.event.toList ++ o.behaviour.pendingEvents)
          rw [hpending', List.append_nil]
          exact hreplayed.2
        pending_eq := fun _ => hpending'
        later := by
          intro _ n hn
          have hn' : n ∈ Leases.sweep round.now
              (Leases.renewAll s.behaviour.discoveredNodes round.records) := hnodes ▸ hn
          exact of_decide_eq_true (List.mem_filter.mp hn').2 }

/-- A call of `expire_node` keeps the invariant. -/
theorem expireNode (h : Sound config s) {peerId : PeerId} {now : Instant}
    (hstep : observe s (.expireNode peerId now) = some s') : Sound config s' := by
  rw [observe] at hstep
  split at hstep
  · rename_i hle
    obtain rfl := Option.some.inj hstep
    have hnodes : (s.behaviour.expireNode peerId now).discoveredNodes =
        Leases.cut (fun node => node.1 = peerId) now s.behaviour.discoveredNodes := by
      simp [Behaviour.expireNode, Leases.cut]
    exact {
      config_eq := h.config_eq
      nodup := by rw [hnodes, Leases.keys_cut]; exact h.nodup
      agrees := by
        rw [hnodes, Leases.deadlines_concat]
        exact h.agrees.cut hle _
      replayed := by rw [hnodes, Leases.keys_cut]; exact h.replayed
      announced := h.announced
      pending_eq := fun hwaits => by cases hwaits
      later := fun hwaits => by cases hwaits }
  · cases hstep

/-- **The invariant of every run.** -/
theorem run (henabled : config.disabled = false) {operations : List Operation}
    (hrun : Runs.run observe (Observed.new config) operations = some s) : Sound config s := by
  refine Runs.run_invariant (C := fun _ _ => True) ?_ (Sound.new config)
    (Runs.along_of_forall fun _ _ _ => trivial) hrun
  intro s operation s' h _ hstep
  cases operation with
  | poll rounds => exact h.poll henabled hstep
  | expireNode peerId now => exact h.expireNode hstep

/-- When `poll` waits, what is listed is valid and what is valid is listed. -/
theorem listed_iff (h : Sound config s) (hwaits : s.waiting = true) (node : PeerId × Multiaddr)
    (e : Instant) : (node, e) ∈ s.behaviour.discoveredNodes ↔
      deadlines s.notes node = some e ∧ s.clock < e := by
  refine ⟨fun hmem => ?_, fun ⟨hd, hlater⟩ => (h.agrees _ e hlater).mpr hd⟩
  have hlater := h.later hwaits _ hmem
  exact ⟨(h.agrees _ e hlater).mp hmem, hlater⟩

/-- What is offered for a dial is listed. -/
theorem offered_iff (h : Sound config s) (hwaits : s.waiting = true) (peer : PeerId)
    (addr : Multiaddr) : addr ∈ s.behaviour.handlePendingOutboundConnection (some peer) ↔
      ∃ e, deadlines s.notes (peer, addr) = some e ∧ s.clock < e := by
  rw [← exists_congr fun e => h.listed_iff hwaits (peer, addr) e,
    Behaviour.handlePendingOutboundConnection, List.mem_map]
  constructor
  · rintro ⟨⟨⟨p, a⟩, e⟩, hn, rfl⟩
    obtain ⟨hmem, hp⟩ := List.mem_filter.mp hn
    obtain rfl : p = peer := of_decide_eq_true hp
    exact ⟨e, hmem⟩
  · rintro ⟨e, hn⟩
    exact ⟨_, List.mem_filter.mpr ⟨hn, decide_eq_true rfl⟩, rfl⟩

/-- Each address is offered once. -/
theorem nodup_offered (h : Sound config s) (peer : PeerId) :
    (s.behaviour.handlePendingOutboundConnection (some peer)).Nodup := by
  -- two entries of one peer at one address would be one key listed twice
  have hkeys : ((s.behaviour.discoveredNodes.filter fun n => n.1.1 = peer).map
      Prod.fst).Nodup := h.nodup.sublist (List.filter_sublist.map _)
  have hmap := hkeys.map_on (f := Prod.snd) fun n hn n' hn' heq => ?_
  · rwa [List.map_map] at hmap
  · obtain ⟨m, hm, rfl⟩ := List.mem_map.mp hn
    obtain ⟨m', hm', rfl⟩ := List.mem_map.mp hn'
    have hp : m.1.1 = peer := of_decide_eq_true (List.mem_filter.mp hm).2
    have hp' : m'.1.1 = peer := of_decide_eq_true (List.mem_filter.mp hm').2
    exact Prod.ext (hp.trans hp'.symm) heq

end Sound

end Observed

private def lanInterface : IpAddr := .v4 192 168 1 2

private def foundNode : PeerId × Multiaddr := (⟨[0, 1, 5]⟩, [.ip4 192 168 1 7, .tcp 4001])

private def defaultConfig : DiscoveryConfig where
  ttl := .fromSecs 360
  serviceFingerprint := none
  queryInterval := .fromSecs 300
  enableIpv6 := false
  disabled := false

/-- An interface comes up and a node is found there; its record is renewed later on. -/
private def lanRun : List Operation :=
  [.poll [⟨[.up lanInterface (some 0), .up (.v4 127 0 0 1) (some 1)], [(foundNode, 90)], 10⟩,
      Behaviour.idleRound 10],
    .poll [Behaviour.idleRound 11],
    .poll [⟨[], [(foundNode, 120), (foundNode, 100)], 20⟩]]

private def lanObserved : Observed :=
  (Runs.run observe (Observed.new defaultConfig) lanRun).get rfl

private theorem lanRun_eq :
    Runs.run observe (Observed.new defaultConfig) lanRun = some lanObserved :=
  (Option.some_get _).symm

section Results

variable {config : DiscoveryConfig} {operations : List Operation} {s : Observed}

/-- **The list is what the records say.**  Whenever `poll` waits, an address of a peer is
listed until a given time exactly when that is the latest time a record gave it and still
to come; these are the addresses offered for a dial, each of them once. -/
theorem discoveredNodes_iff (henabled : config.disabled = false)
    (hrun : Runs.run observe (Observed.new config) operations = some s)
    (hwaits : s.waiting = true) (peer : PeerId) :
    (∀ addr e, ((peer, addr), e) ∈ s.behaviour.discoveredNodes ↔
        deadlines s.notes (peer, addr) = some e ∧ s.clock < e) ∧
      (∀ addr, addr ∈ s.behaviour.handlePendingOutboundConnection (some peer) ↔
        ∃ e, deadlines s.notes (peer, addr) = some e ∧ s.clock < e) ∧
      (s.behaviour.handlePendingOutboundConnection (some peer)).Nodup := by
  have h := Observed.Sound.run henabled hrun
  exact ⟨fun addr e => h.listed_iff hwaits (peer, addr) e,
    fun addr => h.offered_iff hwaits peer addr, h.nodup_offered peer⟩

/-- A node whose record was renewed is offered for a dial. -/
theorem discoveredNodes_lan :
    ∃ s, Runs.run observe (Observed.new defaultConfig) lanRun = some s ∧
      deadlines s.notes foundNode = some 120 ∧
      foundNode.2 ∈ s.behaviour.handlePendingOutboundConnection (some foundNode.1) := by
  have h := (discoveredNodes_iff rfl lanRun_eq rfl foundNode.1).2.1 foundNode.2
  exact ⟨lanObserved, lanRun_eq, by decide, h.mpr ⟨120, by decide, by decide⟩⟩

/-- **The events tell exactly what comes and goes.**  Whoever listens to the events is
never told of a node that is known already, nor of the loss of one that is not; each node
reported is followed by its address, once; and with the events still pending the listener
knows the list, in its order. -/
theorem replay_emitted (henabled : config.disabled = false)
    (hrun : Runs.run observe (Observed.new config) operations = some s) :
    (∃ known, replay [] s.emitted = some known ∧
      replay known s.behaviour.pendingEvents =
        some (s.behaviour.discoveredNodes.map Prod.fst)) ∧
      externalsOf (s.emitted ++ s.behaviour.pendingEvents) =
        discoveredOf (s.emitted ++ s.behaviour.pendingEvents) ∧
      (s.waiting = true → s.behaviour.pendingEvents = []) := by
  have h := Observed.Sound.run henabled hrun
  have hreplayed := h.replayed
  rw [replay, List.foldlM_append] at hreplayed
  obtain ⟨known, hknown, hrest⟩ := Option.bind_eq_some_iff.mp hreplayed
  exact ⟨⟨known, hknown, hrest⟩, h.announced, h.pending_eq⟩

/-- After the same run a listener knows the node. -/
theorem replay_emitted_lan :
    ∃ s, Runs.run observe (Observed.new defaultConfig) lanRun = some s ∧
      replay [] s.emitted = some [foundNode] ∧
      externalsOf (s.emitted ++ s.behaviour.pendingEvents) = [foundNode] := by
  obtain ⟨⟨known, hknown, hlist⟩, hexternals, hpending⟩ := replay_emitted rfl lanRun_eq
  have hdone : lanObserved.behaviour.pendingEvents = [] := hpending rfl
  have hnodes : lanObserved.behaviour.discoveredNodes.map Prod.fst = [foundNode] := by decide
  rw [hdone, hnodes] at hlist
  obtain rfl := Option.some.inj hlist
  exact ⟨lanObserved, lanRun_eq, hknown, hexternals.trans (by decide)⟩

end Results

/-! ### The tasks -/

/-- The tasks that run, after their handling.  There are none where a task is spawned for
an interface that has one, or one is aborted that does not run. -/
def replayTasks (running : IpAddr → Option TaskHandle) :
    List TaskEffect → Option (IpAddr → Option TaskHandle)
  | [] => some running
  | .spawn addr handle :: effects =>
      if running addr = none then
        replayTasks (Function.update running addr (some handle)) effects
      else none
  | .abort addr handle :: effects =>
      if running addr = some handle then
        replayTasks (Function.update running addr none) effects
      else none

/-- An address gets a task if it is of the right kind. -/
def eligible (config : DiscoveryConfig) (addr : IpAddr) : Bool :=
  !addr.isLoopback && addr.isIpv6 == config.enableIpv6

/-- The events since an address last went down. -/
def sinceDown (addr : IpAddr) (history : List IfEvent) : List IfEvent :=
  history.rtakeWhile fun event => event ≠ .down addr

/-- The first task that could be made for an address. -/
def firstCreated (addr : IpAddr) (history : List IfEvent) : Option TaskHandle :=
  history.findSome? fun
    | .up addr' created => if addr' = addr then created else none
    | _ => none

theorem replayTasks_append {running running' : IpAddr → Option TaskHandle}
    {effects : List TaskEffect} (h : replayTasks running effects = some running')
    (effects' : List TaskEffect) :
    replayTasks running (effects ++ effects') = replayTasks running' effects' := by
  induction effects generalizing running with
  | nil =>
    obtain rfl := Option.some.inj h
    rfl
  | cons effect effects ih =>
    cases effect with
    | spawn addr handle =>
      rw [replayTasks] at h
      rw [List.cons_append, replayTasks]
      split at h
      · rename_i hfree
        rw [if_pos hfree, ih h]
      · cases h
    | abort addr handle =>
      rw [replayTasks] at h
      rw [List.cons_append, replayTasks]
      split at h
      · rename_i hruns
        rw [if_pos hruns, ih h]
      · cases h

/-- What holds of the tasks in every run. -/
structure Behaviour.TasksSound (b : Behaviour) (log : List TaskEffect)
    (history : List IfEvent) : Prop where
  /-- The tasks that run are those of the map. -/
  replayed : replayTasks (fun _ => none) log = some fun addr => b.ifTasks.lookup addr
  /-- They are those the interface events ask for. -/
  lookup_eq : ∀ addr, b.ifTasks.lookup addr =
    if eligible b.config addr then firstCreated addr (sinceDown addr history) else none

section Tasks

variable {b : Behaviour} {log effects : List TaskEffect} {history : List IfEvent}

theorem sinceDown_down (addr : IpAddr) (history : List IfEvent) :
    sinceDown addr (history ++ [.down addr]) = [] :=
  List.rtakeWhile_concat_neg _ _ _ (by simp)

theorem sinceDown_concat {addr : IpAddr} {event : IfEvent} (h : event ≠ .down addr)
    (history : List IfEvent) :
    sinceDown addr (history ++ [event]) = sinceDown addr history ++ [event] :=
  List.rtakeWhile_concat_pos _ _ _ (by simpa using h)

/-- An event that makes no task for an address. -/
theorem firstCreated_concat_none {addr : IpAddr} {event : IfEvent}
    (h : firstCreated addr [event] = none) (history : List IfEvent) :
    firstCreated addr (history ++ [event]) = firstCreated addr history := by
  rw [firstCreated, List.findSome?_append]
  exact (congrArg _ h).trans (Option.or_none)

/-- An event that makes a task for an address that has none. -/
theorem firstCreated_concat_of_none {addr : IpAddr} {history : List IfEvent}
    (h : firstCreated addr history = none) (event : IfEvent) :
    firstCreated addr (history ++ [event]) = firstCreated addr [event] := by
  rw [firstCreated, List.findSome?_append]
  exact congrArg (Option.or · _) h

/-- The first task made stays the first one. -/
theorem firstCreated_concat_of_some {addr : IpAddr} {history : List IfEvent}
    {handle : TaskHandle} (h : firstCreated addr history = some handle) (event : IfEvent) :
    firstCreated addr (history ++ [event]) = some handle := by
  rw [firstCreated, List.findSome?_append]
  exact congrArg (Option.or · _) h

/-- The two tests of an address in `poll` are one. -/
theorem eligible_iff (config : DiscoveryConfig) (addr : IpAddr) :
    eligible config addr = true ↔ ¬addr.isLoopback = true ∧
      ¬(addr.isIpv4 && config.enableIpv6 || addr.isIpv6 && !config.enableIpv6) = true := by
  cases addr <;> cases hv6 : config.enableIpv6 <;>
    simp [eligible, IpAddr.isIpv4, IpAddr.isIpv6, hv6]

/-- An interface that comes up. -/
theorem onIfEvent_up (b : Behaviour) (effects : List TaskEffect) (addr : IpAddr)
    (created : Option TaskHandle) :
    Behaviour.onIfEvent (b, effects) (.up addr created) = (b, effects) ∧
        (eligible b.config addr = false ∨ b.ifTasks.lookup addr ≠ none ∨ created = none) ∨
      ∃ handle, eligible b.config addr = true ∧ b.ifTasks.lookup addr = none ∧
        created = some handle ∧
        Behaviour.onIfEvent (b, effects) (.up addr created) =
          ({ b with ifTasks := b.ifTasks.insert addr handle },
            effects ++ [.spawn addr handle]) := by
  cases heligible : eligible b.config addr with
  | false =>
    refine .inl ⟨?_, .inl rfl⟩
    have hnot : ¬(eligible b.config addr = true) := by simp [heligible]
    rw [eligible_iff, not_and_or, not_not, not_not] at hnot
    simp only [Behaviour.onIfEvent]
    split
    · rfl
    · rename_i hloopback
      rw [if_pos (hnot.resolve_left hloopback)]
  | true =>
    obtain ⟨hloopback, hversion⟩ := (eligible_iff b.config addr).mp heligible
    simp only [Behaviour.onIfEvent]
    rw [if_neg hloopback, if_neg hversion]
    cases hlookup : b.ifTasks.lookup addr with
    | some handle => exact .inl ⟨rfl, .inr (.inl (by simp))⟩
    | none =>
      cases created with
      | none => exact .inl ⟨rfl, .inr (.inr rfl)⟩
      | some handle => exact .inr ⟨handle, trivial, rfl, rfl, rfl⟩

/-- An interface event keeps the invariant of the tasks. -/
theorem Behaviour.TasksSound.onIfEvent (h : b.TasksSound (log ++ effects) history)
    (event : IfEvent) :
    (Behaviour.onIfEvent (b, effects) event).1.TasksSound
      (log ++ (Behaviour.onIfEvent (b, effects) event).2) (history ++ [event]) := by
  cases event with
  | error =>
    refine ⟨h.replayed, fun addr => ?_⟩
    rw [sinceDown_concat (by simp), firstCreated_concat_none rfl]
    exact h.lookup_eq addr
  | down addr =>
    cases hlookup : b.ifTasks.lookup addr with
    | none =>
      have hstep : Behaviour.onIfEvent (b, effects) (.down addr) = (b, effects) := by
        simp only [Behaviour.onIfEvent, hlookup]
      rw [hstep]
      refine ⟨h.replayed, fun addr' => ?_⟩
      by_cases haddr : addr' = addr
      · subst haddr
        rw [hlookup, sinceDown_down]
        simp [firstCreated]
      · rw [sinceDown_concat (by simpa using Ne.symm haddr), firstCreated_concat_none rfl]
        exact h.lookup_eq addr'
    | some handle =>
      have hstep : Behaviour.onIfEvent (b, effects) (.down addr) =
          ({ b with ifTasks := b.ifTasks.erase addr }, effects ++ [.abort addr handle]) := by
        simp only [Behaviour.onIfEvent, hlookup]
      rw [hstep]
      have herase : ∀ addr', (b.ifTasks.erase addr).lookup addr' =
          Function.update (fun addr' => b.ifTasks.lookup addr') addr none addr' := by
        intro addr'
        by_cases haddr : addr' = addr
        · subst haddr
          rw [AList.lookup_erase, Function.update_self]
        · rw [AList.lookup_erase_ne haddr, Function.update_of_ne haddr]
      refine ⟨?_, fun addr' => ?_⟩
      · rw [← List.append_assoc, replayTasks_append h.replayed, replayTasks, if_pos hlookup,
          replayTasks]
        exact congrArg some (funext fun addr' => (herase addr').symm)
      · rw [herase]
        by_cases haddr : addr' = addr
        · subst haddr
          rw [Function.update_self, sinceDown_down]
          simp [firstCreated]
        · rw [Function.update_of_ne haddr, sinceDown_concat (by simpa using Ne.symm haddr),
            firstCreated_concat_none rfl]
          exact h.lookup_eq addr'
  | up addr created =>
    have hother : ∀ addr', addr' ≠ addr →
        firstCreated addr' (sinceDown addr' (history ++ [.up addr created])) =
          firstCreated addr' (sinceDown addr' history) := by
      intro addr' haddr
      rw [sinceDown_concat (by simp)]
      exact firstCreated_concat_none (by simp [firstCreated, Ne.symm haddr]) _
    have hself : firstCreated addr [IfEvent.up addr created] = created := by
      simp [firstCreated]
    obtain ⟨hstep, hwhy⟩ | ⟨handle, heligible, hlookup, rfl, hstep⟩ :=
      onIfEvent_up b effects addr created
    · rw [hstep]
      refine ⟨h.replayed, fun addr' => ?_⟩
      by_cases haddr : addr' = addr
      · subst haddr
        have hbefore := h.lookup_eq addr'
        rw [sinceDown_concat (by simp)]
        obtain heligible | hlookup | rfl := hwhy
        · rw [hbefore, heligible]
          rfl
        · -- the task that is there stays the first one
          rw [hbefore]
          split
          · rename_i heligible
            rw [hbefore, if_pos heligible] at hlookup
            obtain ⟨handle, hhandle⟩ := Option.ne_none_iff_exists'.mp hlookup
            rw [hhandle, firstCreated_concat_of_some hhandle]
          · rfl
        · rw [hbefore, firstCreated_concat_none hself]
      · rw [hother addr' haddr]
        exact h.lookup_eq addr'
    · rw [hstep]
      have hinsert : ∀ addr', (b.ifTasks.insert addr handle).lookup addr' =
          Function.update (fun addr' => b.ifTasks.lookup addr') addr (some handle) addr' := by
        intro addr'
        by_cases haddr : addr' = addr
        · subst haddr
          rw [AList.lookup_insert, Function.update_self]
        · rw [AList.lookup_insert_ne haddr, Function.update_of_ne haddr]
      refine ⟨?_, fun addr' => ?_⟩
      · rw [← List.append_assoc, replayTasks_append h.replayed, replayTasks, if_pos hlookup,
          replayTasks]
        exact congrArg some (funext fun addr' => (hinsert addr').symm)
      · rw [hinsert]
        by_cases haddr : addr' = addr
        · subst haddr
          have hbefore := h.lookup_eq addr'
          rw [hlookup, if_pos heligible] at hbefore
          rw [Function.update_self, sinceDown_concat (by simp),
            firstCreated_concat_of_none hbefore.symm, hself]
          exact (if_pos heligible).symm
        · rw [Function.update_of_ne haddr, hother addr' haddr]
          exact h.lookup_eq addr'

/-- So do many. -/
theorem Behaviour.TasksSound.foldl (h : b.TasksSound (log ++ effects) history)
    (events : List IfEvent) :
    (events.foldl Behaviour.onIfEvent (b, effects)).1.TasksSound
      (log ++ (events.foldl Behaviour.onIfEvent (b, effects)).2) (history ++ events) := by
  induction events generalizing b effects history with
  | nil => simpa using h
  | cons event events ih =>
    rw [List.foldl_cons, List.append_cons]
    exact ih (h.onIfEvent event)

/-- The invariant is about the map of the tasks alone. -/
theorem Behaviour.TasksSound.congr (h : b.TasksSound log history) {b' : Behaviour}
    (hconfig : b'.config = b.config) (htasks : b'.ifTasks = b.ifTasks) :
    b'.TasksSound log history :=
  ⟨htasks ▸ h.replayed, by rw [hconfig, htasks]; exact h.lookup_eq⟩

end Tasks

/-- An operation keeps the invariant of the tasks. -/
theorem Behaviour.TasksSound.observe {config : DiscoveryConfig} {s s' : Observed}
    {operation : Operation} (henabled : config.disabled = false)
    (h : s.behaviour.config = config ∧ s.behaviour.TasksSound s.taskLog s.ifHistory)
    (hstep : P2pClipboard.observe s operation = some s') :
    s'.behaviour.config = config ∧ s'.behaviour.TasksSound s'.taskLog s'.ifHistory := by
  cases operation with
  | expireNode peerId now =>
    rw [P2pClipboard.observe] at hstep
    split at hstep
    · obtain rfl := Option.some.inj hstep
      exact ⟨h.1, h.2.congr rfl rfl⟩
    · cases hstep
  | poll rounds =>
    obtain ⟨o, ho, hstep⟩ := Option.bind_eq_some_iff.mp hstep
    obtain ⟨clock, -, rfl⟩ := Option.map_eq_some_iff.mp hstep
    obtain ⟨event, rest, -, rfl⟩ | ⟨round, new, -, hread, -, heffects, hconfig, htasks, -⟩ :=
      Behaviour.poll_cases (by rw [h.1, henabled]) ho
    · refine ⟨h.1, ?_⟩
      show Behaviour.TasksSound _ (s.taskLog ++ []) (s.ifHistory ++ [])
      rw [List.append_nil, List.append_nil]
      exact h.2.congr rfl rfl
    · refine ⟨hconfig.trans h.1, ?_⟩
      show o.behaviour.TasksSound (s.taskLog ++ o.effects)
        (s.ifHistory ++ o.read.flatMap Round.ifEvents)
      have hbefore : s.behaviour.TasksSound (s.taskLog ++ []) s.ifHistory := by
        rw [List.append_nil]
        exact h.2
      have hafter := hbefore.foldl round.ifEvents
      have hkept := congrArg (·.1.config) (Behaviour.foldl_onIfEvent round.ifEvents s.behaviour [])
      rw [heffects, hread, List.flatMap_singleton]
      exact hafter.congr (hconfig.trans hkept.symm) htasks

end P2pClipboard
