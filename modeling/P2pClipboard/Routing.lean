import Mathlib.Data.Finset.Basic
import P2pClipboard.Connections

/-!
# Announced addresses and the routing table

Peers announce the addresses they listen on.  The Identify branch of `run` in
`src/network.rs` hands these addresses to Kademlia unless they are local, and takes
back those of the previous announcement that are missing from the new one.  The
previous announcement is kept in a map of its own.  Other branches delete addresses
or whole peers from the routing table and leave that map alone.

Kademlia is a set of addresses for each peer here, with the three operations the loop
calls.  No branch but this one adds an address, so the table that starts empty with the
loop has the addresses added by Identify, less those removed since.

## Main definitions

* `RoutingTable`, `RoutingTable.perform` — the table, and what a call does to it.
* `latestAnnounced` — the latest announcement of each peer among the events of a run.
* `Routed` — the table has nothing but addresses that are announced and not local.

## Main results

* `identifyReceived_routed` — what an announcement does to the table.
* `Routed.runLoop` — a run keeps the table current.
* `routing_current` — **at every loop head each address is one of the latest
  announcement, and right after an announcement the table has all of it.**
-/

namespace P2pClipboard

/-! ### The routing table -/

/-- The addresses of each peer. -/
abbrev RoutingTable := PeerId → Finset Multiaddr

namespace RoutingTable

/-- What a call does to the table. -/
def perform (table : RoutingTable) : Call → RoutingTable
  | .addAddress peer address => Function.update table peer (insert address (table peer))
  | .removeAddress peer address => Function.update table peer ((table peer).erase address)
  | .removePeer peer => Function.update table peer ∅
  | _ => table

/-- What calls do to the table, one after the other. -/
def performAll (table : RoutingTable) (calls : List Call) : RoutingTable :=
  calls.foldl perform table

theorem performAll_append (table : RoutingTable) (calls calls' : List Call) :
    table.performAll (calls ++ calls') = (table.performAll calls).performAll calls' :=
  List.foldl_append

/-- Without additions the table only gets smaller. -/
theorem mem_of_mem_perform {table : RoutingTable} {c : Call} (hc : ∀ p a, c ≠ .addAddress p a)
    {p : PeerId} {a : Multiaddr} (h : a ∈ table.perform c p) : a ∈ table p := by
  cases c with
  | addAddress peer address => exact absurd rfl (hc peer address)
  | removeAddress peer address =>
    rw [perform] at h
    by_cases hp : p = peer
    · subst hp
      rw [Function.update_self] at h
      exact Finset.mem_of_mem_erase h
    · rwa [Function.update_of_ne hp] at h
  | removePeer peer =>
    rw [perform] at h
    by_cases hp : p = peer
    · subst hp
      rw [Function.update_self] at h
      exact absurd h (Finset.notMem_empty a)
    · rwa [Function.update_of_ne hp] at h
  | _ => exact h

theorem mem_of_mem_performAll {table : RoutingTable} {calls : List Call}
    (hcalls : ∀ c ∈ calls, ∀ p a, c ≠ .addAddress p a) {p : PeerId} {a : Multiaddr}
    (h : a ∈ table.performAll calls p) : a ∈ table p := by
  induction calls generalizing table with
  | nil => exact h
  | cons c calls ih =>
    have hrest := ih (fun c' hc' => hcalls c' (List.mem_cons_of_mem _ hc')) h
    exact mem_of_mem_perform (hcalls c List.mem_cons_self) hrest

/-- Removing some addresses of a peer. -/
theorem performAll_removeAddress (table : RoutingTable) (peer : PeerId) (addrs : List Multiaddr)
    {p : PeerId} {a : Multiaddr} :
    a ∈ table.performAll (addrs.map (.removeAddress peer)) p ↔
      a ∈ table p ∧ (p = peer → a ∉ addrs) := by
  induction addrs generalizing table with
  | nil => simp [performAll]
  | cons address addrs ih =>
    rw [List.map_cons, performAll, List.foldl_cons, ← performAll, ih, perform]
    by_cases hp : p = peer
    · subst hp
      simp [Function.update_self, and_assoc, and_left_comm]
    · simp [hp]

/-- Adding some addresses of a peer. -/
theorem performAll_addAddress (table : RoutingTable) (peer : PeerId) (addrs : List Multiaddr)
    {p : PeerId} {a : Multiaddr} :
    a ∈ table.performAll (addrs.map (.addAddress peer)) p ↔
      a ∈ table p ∨ (p = peer ∧ a ∈ addrs) := by
  induction addrs generalizing table with
  | nil => simp [performAll]
  | cons address addrs ih =>
    rw [List.map_cons, performAll, List.foldl_cons, ← performAll, ih, perform]
    by_cases hp : p = peer
    · subst hp
      simp [Function.update_self, or_assoc, or_left_comm]
    · simp [hp]

end RoutingTable

/-! ### Announcements -/

/-- The latest announcement of each peer after one more event. -/
def recordAnnounced (latest : PeerId → Option (List Multiaddr)) :
    SwarmEvent → PeerId → Option (List Multiaddr)
  | .identifyReceived peerId listenAddrs => Function.update latest peerId (some listenAddrs)
  | _ => latest

/-- The latest announcement of each peer. -/
def latestAnnounced (events : List SwarmEvent) : PeerId → Option (List Multiaddr) :=
  events.foldl recordAnnounced fun _ => none

/-- A list that is filtered has what passes the test. -/
theorem mem_filterM {α ε : Type} {test : α → Except ε Bool} {l l' : List α}
    (h : l.filterM test = .ok l') {a : α} : a ∈ l' ↔ a ∈ l ∧ test a = .ok true := by
  have haux : ∀ acc l', l.filterAuxM test acc = .ok l' →
      (a ∈ l' ↔ a ∈ acc ∨ (a ∈ l ∧ test a = .ok true)) := by
    clear h
    induction l with
    | nil =>
      intro acc l' h
      obtain rfl := Except.ok.inj h
      simp
    | cons b l ih =>
      intro acc l' h
      obtain ⟨keep, hkeep, hrest⟩ := bind_eq_ok h
      rw [ih _ _ hrest, List.mem_cons]
      cases keep with
      | false =>
        have hb : ¬ (a = b ∧ test a = .ok true) := by
          rintro ⟨rfl, hone⟩
          rw [hone] at hkeep
          exact absurd (Except.ok.inj hkeep) (by simp)
        simp only [cond_false, or_and_right]
        tauto
      | true =>
        have hb : a = b → test a = .ok true := by
          rintro rfl
          exact hkeep
        simp only [cond_true, List.mem_cons]
        tauto
  obtain ⟨l'', hl'', hret⟩ := bind_eq_ok h
  obtain rfl := Except.ok.inj hret
  rw [List.mem_reverse, haux [] l'' hl'']
  simp

/-- The loop remembers the latest announcements, and the table has nothing but
addresses that are announced and not local. -/
structure Routed (latest : PeerId → Option (List Multiaddr)) (e : Endpoints)
    (table : RoutingTable) : Prop where
  /-- The map has the latest announcements. -/
  announced : e.announcedIdentities = latest
  /-- An address in the table is one of the latest announcement. -/
  current : ∀ p, ∀ a ∈ table p,
    ∃ addrs, latest p = some addrs ∧ a ∈ addrs ∧ isMultiaddrLocal a = .ok false

theorem not_isMultiaddrLocal_eq_true {a : Multiaddr} :
    (isMultiaddrLocal a).map not = .ok true ↔ isMultiaddrLocal a = .ok false := by
  cases isMultiaddrLocal a with
  | error p => simp [Except.map]
  | ok b => cases b <;> simp [Except.map]

/-- What an announcement takes back, and what it adds. -/
theorem handleIdentifyReceived_spec {e e' : Endpoints} {calls : List Call} {peerId : PeerId}
    {listenAddrs : List Multiaddr}
    (h : handleIdentifyReceived peerId listenAddrs e = .ok (e', calls)) :
    e'.announcedIdentities = Function.update e.announcedIdentities peerId (some listenAddrs) ∧
      ∃ expired added : List Multiaddr,
        calls = expired.map (.removeAddress peerId) ++ added.map (.addAddress peerId) ∧
        (∀ a, a ∈ expired ↔
          ∃ old, e.announcedIdentities peerId = some old ∧ a ∈ old ∧ a ∉ listenAddrs) ∧
        ∀ a, a ∈ added ↔ a ∈ listenAddrs ∧ isMultiaddrLocal a = .ok false := by
  obtain ⟨added, hadded, hret⟩ := bind_eq_ok h
  have hmem : ∀ a, a ∈ added ↔ a ∈ listenAddrs ∧ isMultiaddrLocal a = .ok false := by
    intro a
    rw [mem_filterM hadded, not_isMultiaddrLocal_eq_true]
  cases hold : e.announcedIdentities peerId with
  | none =>
    simp only [hold] at hret
    obtain ⟨rfl, rfl⟩ := Prod.ext_iff.mp (Except.ok.inj hret)
    exact ⟨rfl, [], added, rfl, by simp, hmem⟩
  | some old =>
    simp only [hold] at hret
    obtain ⟨rfl, rfl⟩ := Prod.ext_iff.mp (Except.ok.inj hret)
    refine ⟨rfl, old.dedup.filter fun addr => addr ∉ listenAddrs, added, rfl, ?_, hmem⟩
    intro a
    simp

/-- **What an announcement does to the table**: the peer has its addresses that are
not local, and nothing else. -/
theorem identifyReceived_routed {latest : PeerId → Option (List Multiaddr)} {e e' : Endpoints}
    {table : RoutingTable} {calls : List Call} {peerId : PeerId} {listenAddrs : List Multiaddr}
    (h : Routed latest e table)
    (hev : handleIdentifyReceived peerId listenAddrs e = .ok (e', calls)) :
    Routed (Function.update latest peerId (some listenAddrs)) e' (table.performAll calls) ∧
      ∀ a, a ∈ table.performAll calls peerId ↔
        a ∈ listenAddrs ∧ isMultiaddrLocal a = .ok false := by
  obtain ⟨hannounced, expired, added, rfl, hexpired, hadded⟩ := handleIdentifyReceived_spec hev
  have hpeer : ∀ a, a ∈ table.performAll
      (expired.map (.removeAddress peerId) ++ added.map (.addAddress peerId)) peerId ↔
        a ∈ listenAddrs ∧ isMultiaddrLocal a = .ok false := by
    intro a
    rw [RoutingTable.performAll_append, RoutingTable.performAll_addAddress,
      RoutingTable.performAll_removeAddress, hadded]
    refine ⟨?_, fun ha => .inr ⟨rfl, ha⟩⟩
    rintro (⟨ha, hkept⟩ | ⟨-, ha⟩)
    · -- what was in the table had been announced, so it is either taken back or announced again
      obtain ⟨old, hold, hmem, hlocal⟩ := h.current peerId a ha
      rw [← h.announced] at hold
      refine ⟨?_, hlocal⟩
      by_contra hnot
      exact hkept rfl ((hexpired a).mpr ⟨old, hold, hmem, hnot⟩)
    · exact ha
  refine ⟨⟨by rw [hannounced, h.announced], ?_⟩, hpeer⟩
  intro p a ha
  by_cases hp : p = peerId
  · subst hp
    obtain ⟨hmem, hlocal⟩ := (hpeer a).mp ha
    exact ⟨listenAddrs, Function.update_self .., hmem, hlocal⟩
  · rw [RoutingTable.performAll_append, RoutingTable.performAll_addAddress,
      RoutingTable.performAll_removeAddress] at ha
    rw [Function.update_of_ne hp]
    rcases ha with ⟨ha, -⟩ | ⟨heq, -⟩
    · exact h.current p a ha
    · exact absurd heq hp

/-! ### The other branches -/

/-- The announcements stay, and nothing is added to the table. -/
structure LeavesRouting (e e' : Endpoints) (calls : List Call) : Prop where
  /-- The map stays. -/
  announced : e'.announcedIdentities = e.announcedIdentities
  /-- No address is added. -/
  noAdd : ∀ c ∈ calls, ∀ p a, c ≠ .addAddress p a

theorem LeavesRouting.routed {latest : PeerId → Option (List Multiaddr)} {e e' : Endpoints}
    {table : RoutingTable} {calls : List Call} (hleaves : LeavesRouting e e' calls)
    (h : Routed latest e table) : Routed latest e' (table.performAll calls) := by
  refine ⟨hleaves.announced.trans h.announced, ?_⟩
  intro p a ha
  exact h.current p a (RoutingTable.mem_of_mem_performAll hleaves.noAdd ha)

theorem LeavesRouting.refl (e : Endpoints) : LeavesRouting e e [] :=
  ⟨rfl, fun _ hc => absurd hc List.not_mem_nil⟩

theorem LeavesRouting.trans {e₁ e₂ e₃ : Endpoints} {calls calls' : List Call}
    (h₁ : LeavesRouting e₁ e₂ calls) (h₂ : LeavesRouting e₂ e₃ calls') :
    LeavesRouting e₁ e₃ (calls ++ calls') := by
  refine ⟨h₂.announced.trans h₁.announced, ?_⟩
  intro c hc
  rcases List.mem_append.mp hc with hc | hc
  · exact h₁.noAdd c hc
  · exact h₂.noAdd c hc

/-- A list of calls of one kind, none of which adds an address. -/
theorem noAdd_map {α : Type*} (f : α → Call) (l : List α) (hf : ∀ x p a, f x ≠ .addAddress p a) :
    ∀ c ∈ l.map f, ∀ p a, c ≠ .addAddress p a := by
  intro c hc
  obtain ⟨x, -, rfl⟩ := List.mem_map.mp hc
  exact hf x

theorem handleConnectionClosed_leavesRouting (peerId : PeerId) (cause : Option ConnectionError)
    (endpoint : ConnectedPoint) (numEstablished : ℕ) (e : Endpoints) :
    LeavesRouting e (handleConnectionClosed peerId cause endpoint numEstablished e).1
      (handleConnectionClosed peerId cause endpoint numEstablished e).2 := by
  obtain ⟨dead, heq | heq⟩ := handleConnectionClosed_cases peerId cause endpoint numEstablished e
  · rw [heq]
    exact ⟨rfl, by simp⟩
  · rw [heq]
    exact ⟨rfl, by simp [Endpoints.noteFailure]⟩

theorem handleTransportErrors_leavesRouting (peerId : Option PeerId)
    (errors : List (Multiaddr × TransportError)) (e : Endpoints) :
    LeavesRouting e (handleTransportErrors peerId errors e).1
      (handleTransportErrors peerId errors e).2 := by
  have hone : ∀ addr err (e : Endpoints),
      LeavesRouting e (handleTransportError peerId addr err e).1
        (handleTransportError peerId addr err e).2 := by
    intro addr err e
    unfold handleTransportError
    split
    · split
      · exact ⟨rfl, by simp [Endpoints.noteFailure]⟩
      · exact ⟨rfl, by simp⟩
    · exact .refl e
  induction errors generalizing e with
  | nil => exact .refl e
  | cons err errors ih =>
    rw [handleTransportErrors_cons]
    exact (hone err.1 err.2 e).trans (ih _)

theorem handleOutgoingConnectionError_leavesRouting (peerId : Option PeerId) (error : DialError)
    (e : Endpoints) :
    LeavesRouting e (handleOutgoingConnectionError peerId error e).1
      (handleOutgoingConnectionError peerId error e).2 := by
  have herrors := handleTransportErrors_leavesRouting peerId error.transportErrors e
  cases peerId with
  | none =>
    rw [handleOutgoingConnectionError_none]
    exact herrors
  | some p =>
    rw [handleOutgoingConnectionError_some]
    split_ifs
    · exact herrors.trans ⟨rfl, by simp⟩
    · exact herrors

/-- **No event but an announcement** touches the map or adds an address. -/
theorem handleEndpointEvent_leavesRouting {cfg : Config} {view : SwarmView} {e e' : Endpoints}
    {event : SwarmEvent} {calls : List Call}
    (hevent : ∀ peerId listenAddrs, event ≠ .identifyReceived peerId listenAddrs)
    (h : handleEndpointEvent cfg view e event = .ok (e', calls)) : LeavesRouting e e' calls := by
  cases event with
  | gossipMessage data => cases h; exact .refl e
  | identifyReceived peerId listenAddrs => exact absurd rfl (hevent peerId listenAddrs)
  | newListenAddr address =>
    obtain ⟨nonLocal, -, hret⟩ := bind_eq_ok h
    cases hret
    refine ⟨rfl, ?_⟩
    rintro c hc p a rfl
    cases hboot : cfg.bootNode <;> simp [hboot] at hc
  | expiredListenAddr address =>
    obtain ⟨addrs, push, ⟨rfl, rfl⟩ | ⟨bootNode, rfl, rfl⟩⟩ := handleExpiredListenAddr_cases h
    · exact ⟨rfl, by simp⟩
    · exact ⟨rfl, by simp [Endpoints.noteFailure]⟩
  | connectionEstablished peerId endpoint => cases h; exact ⟨rfl, by simp⟩
  | connectionClosed peerId cause endpoint numEstablished =>
    obtain ⟨rfl, rfl⟩ := Prod.ext_iff.mp (Except.ok.inj h)
    exact handleConnectionClosed_leavesRouting peerId cause endpoint numEstablished e
  | outgoingConnectionError peerId error =>
    obtain ⟨rfl, rfl⟩ := Prod.ext_iff.mp (Except.ok.inj h)
    exact handleOutgoingConnectionError_leavesRouting peerId error e
  | mdnsDiscovered list => cases h; exact ⟨rfl, noAdd_map _ _ (by simp)⟩
  | mdnsExpired list => cases h; exact ⟨rfl, noAdd_map _ _ (by simp)⟩
  | other => cases h; exact .refl e

theorem handleRetryCallback_leavesRouting {view : SwarmView} {target : PeerEndpointCache}
    {e e' : Endpoints} {calls : List Call}
    (h : handleRetryCallback view target e = .ok (e', calls)) : LeavesRouting e e' calls := by
  unfold handleRetryCallback at h
  split at h
  · cases h
    exact .refl e
  · obtain ⟨networkOk, -, hret⟩ := bind_eq_ok h
    split_ifs at hret <;> cases hret <;> exact ⟨rfl, by simp⟩

theorem handleIdle_noAdd (cfg : Config) (view : SwarmView) :
    ∀ c ∈ handleIdle cfg view, ∀ p a, c ≠ .addAddress p a := by
  rintro c hc p a rfl
  unfold handleIdle at hc
  cases hboot : cfg.bootNode <;> simp [hboot] at hc

/-! ### Runs -/

/-- One iteration keeps the table current. -/
theorem Routed.iteration {cfg : Config} {turn : Turn} {s : LoopState} {o : Outcome}
    {latest : PeerId → Option (List Multiaddr)} {table : RoutingTable}
    (h : Routed latest s.endpoints table) (hiter : iteration cfg s turn = .ok o) :
    Routed ((s.hears turn).toList.foldl recordAnnounced latest) o.state.endpoints
      (table.performAll (swarmCalls o.effects)) := by
  rcases iteration_endpoints_cases hiter with
    ⟨event, hears, hstep⟩ | ⟨target, -, hears, hstep⟩ | ⟨hears, heq, hcalls⟩
  · rw [hears]
    by_cases hevent : ∃ peerId listenAddrs, event = .identifyReceived peerId listenAddrs
    · obtain ⟨peerId, listenAddrs, rfl⟩ := hevent
      exact (identifyReceived_routed h hstep).1
    · have hother : ∀ peerId listenAddrs, event ≠ .identifyReceived peerId listenAddrs :=
        fun peerId listenAddrs heq => hevent ⟨peerId, listenAddrs, heq⟩
      have hrouted := (handleEndpointEvent_leavesRouting hother hstep).routed h
      cases event with
      | identifyReceived peerId listenAddrs => exact absurd rfl (hother peerId listenAddrs)
      | _ => exact hrouted
  · rw [hears]
    exact (handleRetryCallback_leavesRouting hstep).routed h
  · rw [hears, heq]
    rcases hcalls with hcalls | hcalls
    · rw [hcalls]
      exact h
    · rw [hcalls]
      exact LeavesRouting.routed ⟨rfl, handleIdle_noAdd cfg turn.view⟩ h

/-- **A run keeps the table current.** -/
theorem Routed.runLoop {cfg : Config} {turns : List Turn} {s s' : LoopState}
    {effects : List Effect} {latest : PeerId → Option (List Multiaddr)} {table : RoutingTable}
    (h : Routed latest s.endpoints table)
    (hrun : runLoop cfg s turns = .ok ⟨s', effects, false⟩) :
    Routed ((handledEvents cfg s turns).foldl recordAnnounced latest) s'.endpoints
      (table.performAll (swarmCalls effects)) := by
  induction turns generalizing s latest table effects with
  | nil =>
    obtain ⟨rfl, rfl, -⟩ := Outcome.mk.inj (Except.ok.inj hrun)
    exact h
  | cons turn turns ih =>
    obtain ⟨o, effects', hiter, hret, hrest, rfl⟩ := runLoop_cons_effects hrun
    rw [handledEvents_cons hiter hret, List.foldl_append, swarmCalls_append,
      RoutingTable.performAll_append]
    exact ih (h.iteration hiter) hrest

/-- The table of the addresses that Identify has added in a run, less those removed
since. -/
def identifyTable (effects : List Effect) : RoutingTable :=
  RoutingTable.performAll (fun _ => ∅) (swarmCalls effects)

/-- An announcement without empty addresses is handled. -/
theorem exists_handleIdentifyReceived {listenAddrs : List Multiaddr} (haddrs : [] ∉ listenAddrs)
    (peerId : PeerId) (e : Endpoints) : ∃ r, handleIdentifyReceived peerId listenAddrs e = .ok r := by
  obtain ⟨added, hadded⟩ := filterM_eq_ok fun a (ha : a ∈ listenAddrs) =>
    not_isMultiaddrLocal_eq_ok fun hnil => haddrs (hnil ▸ ha)
  rw [handleIdentifyReceived, hadded]
  exact ⟨_, rfl⟩

/-- **Identify keeps the routing table current.**  At every loop head each address that
Identify has added and nothing has removed is a non-local address of the latest
announcement of its peer; and whenever a peer announces addresses, none of them empty,
the announcement is handled and leaves its non-local addresses in the table, and no
others of that peer. -/
theorem routing_current (cfg : Config) (start : ℕ) (turns : List Turn) {s : LoopState}
    {effects : List Effect}
    (h : runLoop cfg (LoopState.initial start) turns = .ok ⟨s, effects, false⟩) :
    (∀ p, ∀ a ∈ identifyTable effects p,
      ∃ addrs, latestAnnounced (handledEvents cfg (LoopState.initial start) turns) p = some addrs ∧
        a ∈ addrs ∧ isMultiaddrLocal a = .ok false) ∧
    ∀ turn p addrs, s.hears turn = some (.identifyReceived p addrs) → [] ∉ addrs →
      ∃ o, iteration cfg s turn = .ok o ∧
        ∀ a, a ∈ identifyTable (effects ++ o.effects) p ↔
          a ∈ addrs ∧ isMultiaddrLocal a = .ok false := by
  have hstart : Routed (fun _ => none) (LoopState.initial start).endpoints fun _ => ∅ :=
    ⟨rfl, fun p a ha => absurd ha (Finset.notMem_empty a)⟩
  have hend := hstart.runLoop h
  refine ⟨hend.current, ?_⟩
  intro turn p addrs hears haddrs
  obtain ⟨r, hr⟩ := exists_handleIdentifyReceived haddrs p s.endpoints
  have hhandled : handleEndpointEvent cfg turn.view s.endpoints (.identifyReceived p addrs) =
      .ok r := hr
  obtain ⟨o, hiter⟩ := exists_iteration_of_hears hears (by simp) hhandled
  refine ⟨o, hiter, ?_⟩
  have hstep := iteration_endpoints hiter
  rw [wakes_of_hears hears] at hstep
  rw [identifyTable, swarmCalls_append, RoutingTable.performAll_append]
  exact (identifyReceived_routed hend hstep).2

private def announceCfg : Config := ⟨.checked, default, ⟨[5]⟩, none⟩

private def announceTurn (event : SwarmEvent) : Turn := ⟨0, 0, 0, 0, {}, .swarm event⟩

/-- A peer announces two addresses, one of which expires, and then one of them again
with a local one. -/
private def announceTurns : List Turn :=
  [announceTurn (.identifyReceived ⟨[7]⟩ [[.ip4 10 0 0 2], [.ip4 10 0 0 3]]),
    announceTurn (.mdnsExpired [(⟨[7]⟩, [.ip4 10 0 0 2])]),
    announceTurn (.identifyReceived ⟨[7]⟩ [[.ip4 10 0 0 2], [.ip4 127 0 0 1]])]

theorem routing_current_announce :
    ∃ s effects,
      runLoop announceCfg (LoopState.initial 0) announceTurns = .ok ⟨s, effects, false⟩ ∧
      identifyTable effects ⟨[7]⟩ = {[.ip4 10 0 0 2]} ∧
      ∀ p, ∀ a ∈ identifyTable effects p,
        ∃ addrs, latestAnnounced
            (handledEvents announceCfg (LoopState.initial 0) announceTurns) p = some addrs ∧
          a ∈ addrs ∧ isMultiaddrLocal a = .ok false :=
  ⟨_, _, rfl, by decide +kernel, (routing_current announceCfg 0 announceTurns rfl).1⟩

end P2pClipboard
