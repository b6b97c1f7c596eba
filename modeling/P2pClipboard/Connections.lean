import P2pClipboard.EventLoop

/-!
# Connected endpoints and their addresses

The loop of `run` keeps the endpoints of connected peers twice, in the order in which
they connected and as a set, and it looks at the first component of addresses that come
from other nodes.  Both are matters of one iteration after the other: what an iteration
does to the endpoints is `handleEndpoints`, and what holds at every loop head is shown by
an induction over the turns.

The two copies agree at every loop head, and hold connected peers only, provided the
swarm reports the connections of a peer as they are.  The first component of an address is
there as long as nobody announces an empty address: one peer that does takes the loop down.

## Main definitions

* `LoopState.wakes`, `handleEndpoints` — what an iteration handles, and what it does to the
  endpoints.
* `handledEvents` — the events a run handles.
* `openConnections`, `ReportsConnections` — the connections of each peer, and a swarm that
  counts them.
* `Endpoints.Consistent` — the two copies agree.
* `SwarmEvent.Addressed`, `Endpoints.Addressed` — no empty addresses.

## Main results

* `iteration_endpoints`, `iteration_panics` — one iteration.
* `endpointCache_consistent` — **the two copies agree at every loop head.**
* `no_indexOutOfBounds` — **a run without empty addresses does not crash on one.**
-/

namespace P2pClipboard

/-! ### What an iteration does to the endpoints -/

/-- What an iteration wakes up for, when nothing is pending. -/
def LoopState.wakes (s : LoopState) (turn : Turn) : Option Wakeup :=
  if s.pendingChunks = [] then some turn.wakeup else none

/-- What a wakeup does to the endpoints, and the calls it leads to, those that hand a
content to the clipboard apart. -/
def handleEndpoints (cfg : Config) (view : SwarmView) (e : Endpoints) :
    Option Wakeup → Except Panic (Endpoints × List Call)
  | some (.swarm event) => handleEndpointEvent cfg view e event
  | some (.retryCallback failingConnection) => handleRetryCallback view failingConnection e
  | some .idle => .ok (e, handleIdle cfg view)
  | some (.received _ _) => .ok (e, [])
  | none => .ok (e, [])

/-- The calls among the effects, those that hand a content to the clipboard apart. -/
def swarmCalls (effects : List Effect) : List Call :=
  effects.filterMap fun
    | .call (.toClipboard _) => none
    | .call c => some c
    | _ => none

theorem swarmCalls_append (l₁ l₂ : List Effect) :
    swarmCalls (l₁ ++ l₂) = swarmCalls l₁ ++ swarmCalls l₂ := List.filterMap_append

theorem swarmCalls_calls {calls : List Call} (h : toClipboardCalls calls = []) :
    swarmCalls (calls.map .call) = calls := by
  induction calls with
  | nil => rfl
  | cons c calls ih =>
    cases c with
    | toClipboard content => exact absurd h (by simp [toClipboardCalls])
    | _ =>
      have hrest : toClipboardCalls calls = [] := by simpa [toClipboardCalls] using h
      have := ih hrest
      simpa [swarmCalls] using this

section Iteration

variable {cfg : Config} {turn : Turn} {s : LoopState} {o : Outcome}

@[simp] theorem finishIteration_endpoints {effects : List Effect} (toPublish : Option Bytes) :
    (finishIteration turn toPublish s effects).state.endpoints = s.endpoints := by
  by_cases hd : restartLimit < turn.wallTime - s.t <;> simp [finishIteration, hd]

@[simp] theorem swarmCalls_finishIteration {effects : List Effect} (toPublish : Option Bytes) :
    swarmCalls (finishIteration turn toPublish s effects).effects = swarmCalls effects := by
  have hpublish : ∀ data : List Bytes, swarmCalls (data.map .publish) = [] := by
    intro data
    simp [swarmCalls, List.filterMap_map]
  by_cases hd : restartLimit < turn.wallTime - s.t
  · simp [finishIteration, hd]
  · simp only [finishIteration, hd, if_false]
    rw [swarmCalls_append, hpublish, List.append_nil]

/-- **What one iteration does to the endpoints.** -/
theorem iteration_endpoints (h : iteration cfg s turn = .ok o) :
    handleEndpoints cfg turn.view s.endpoints (s.wakes turn) =
      .ok (o.state.endpoints, swarmCalls o.effects) := by
  unfold iteration at h
  cases hp : s.pendingChunks with
  | cons data rest =>
    -- a pending message is published before anything else is waited for
    simp only [hp] at h
    obtain rfl := Except.ok.inj h
    rw [LoopState.wakes, if_neg (by simp [hp]), finishIteration_endpoints,
      swarmCalls_finishIteration]
    rfl
  | nil =>
    simp only [hp] at h
    obtain ⟨⟨toPublish, s', effects⟩, hwake, hret⟩ := bind_eq_ok h
    obtain rfl := Except.ok.inj hret
    rw [LoopState.wakes, if_pos hp, finishIteration_endpoints, swarmCalls_finishIteration]
    unfold handleWakeup at hwake
    split at hwake
    · case h_1 message uuid hw =>
      obtain ⟨-, rfl, rfl⟩ := by simpa using hwake
      rw [hw]
      rfl
    · case h_2 data hw =>
      obtain ⟨⟨content, chunkStates⟩, -, hret⟩ := bind_eq_ok hwake
      obtain ⟨-, rfl, rfl⟩ := by simpa [pure, Except.pure] using hret
      rw [hw]
      cases content <;> rfl
    · case h_3 event hmsg hw =>
      obtain ⟨⟨endpoints, calls⟩, hcalls, hret⟩ := bind_eq_ok hwake
      obtain ⟨-, rfl, rfl⟩ := by simpa [pure, Except.pure] using hret
      rw [hw, swarmCalls_calls (handleEndpointEvent_toClipboard hcalls)]
      exact hcalls
    · case h_4 target hw =>
      obtain ⟨⟨endpoints, calls⟩, hcalls, hret⟩ := bind_eq_ok hwake
      obtain ⟨-, rfl, rfl⟩ := by simpa [pure, Except.pure] using hret
      rw [hw, swarmCalls_calls (handleRetryCallback_toClipboard hcalls)]
      exact hcalls
    · case h_5 hw =>
      obtain ⟨-, rfl, rfl⟩ := by simpa using hwake
      rw [hw, swarmCalls_calls (handleIdle_toClipboard cfg turn.view)]
      rfl

end Iteration

/-! ### The events of a run -/

/-- The event of the swarm an iteration handles. -/
def LoopState.hears (s : LoopState) (turn : Turn) : Option SwarmEvent :=
  match s.wakes turn with
  | some (.swarm event) => some event
  | _ => none

theorem hears_eq_some {s : LoopState} {turn : Turn} {event : SwarmEvent}
    (h : s.wakes turn = some (.swarm event)) : s.hears turn = some event := by
  rw [LoopState.hears, h]

theorem hears_eq_none {s : LoopState} {turn : Turn}
    (h : ∀ event, s.wakes turn ≠ some (.swarm event)) : s.hears turn = none := by
  unfold LoopState.hears
  split
  · case h_1 event hwake => exact absurd hwake (h event)
  · rfl

theorem wakes_of_hears {s : LoopState} {turn : Turn} {event : SwarmEvent}
    (h : s.hears turn = some event) : s.wakes turn = some (.swarm event) := by
  unfold LoopState.hears at h
  split at h
  · case h_1 event' hwake =>
    obtain rfl := Option.some.inj h
    exact hwake
  · exact absurd h (by simp)

/-- **What an iteration does, seen from the endpoints**: it handles an event, or a retry
callback, or it leaves them alone and makes at most the calls of a long idle time. -/
theorem iteration_endpoints_cases {cfg : Config} {turn : Turn} {s : LoopState} {o : Outcome}
    (h : iteration cfg s turn = .ok o) :
    (∃ event, s.hears turn = some event ∧
      handleEndpointEvent cfg turn.view s.endpoints event =
        .ok (o.state.endpoints, swarmCalls o.effects)) ∨
    (∃ target, s.wakes turn = some (.retryCallback target) ∧ s.hears turn = none ∧
      handleRetryCallback turn.view target s.endpoints =
        .ok (o.state.endpoints, swarmCalls o.effects)) ∨
    (s.hears turn = none ∧ o.state.endpoints = s.endpoints ∧
      (swarmCalls o.effects = [] ∨ swarmCalls o.effects = handleIdle cfg turn.view)) := by
  have hstep := iteration_endpoints h
  cases hw : s.wakes turn with
  | none =>
    rw [hw] at hstep
    obtain ⟨heq, hcalls⟩ := Prod.mk.inj (Except.ok.inj hstep)
    exact .inr (.inr ⟨hears_eq_none (by simp [hw]), heq.symm, .inl hcalls.symm⟩)
  | some wakeup =>
    rw [hw] at hstep
    cases wakeup with
    | received message uuid =>
      obtain ⟨heq, hcalls⟩ := Prod.mk.inj (Except.ok.inj hstep)
      exact .inr (.inr ⟨hears_eq_none (by simp [hw]), heq.symm, .inl hcalls.symm⟩)
    | swarm event => exact .inl ⟨event, hears_eq_some hw, hstep⟩
    | retryCallback target =>
      exact .inr (.inl ⟨target, rfl, hears_eq_none (by simp [hw]), hstep⟩)
    | idle =>
      obtain ⟨heq, hcalls⟩ := Prod.mk.inj (Except.ok.inj hstep)
      exact .inr (.inr ⟨hears_eq_none (by simp [hw]), heq.symm, .inr hcalls.symm⟩)

/-- An iteration that hears an event it can handle ends. -/
theorem exists_iteration_of_hears {cfg : Config} {turn : Turn} {s : LoopState}
    {event : SwarmEvent} {r : Endpoints × List Call} (h : s.hears turn = some event)
    (hmsg : ∀ data, event ≠ .gossipMessage data)
    (hevent : handleEndpointEvent cfg turn.view s.endpoints event = .ok r) :
    ∃ o, iteration cfg s turn = .ok o := by
  have hwakes := wakes_of_hears h
  unfold LoopState.wakes at hwakes
  split_ifs at hwakes with hpending
  have hwakeup : turn.wakeup = .swarm event := Option.some.inj hwakes
  unfold iteration
  simp only [hpending, handleWakeup, hwakeup]
  cases event with
  | gossipMessage data => exact absurd rfl (hmsg data)
  | _ =>
    simp only [hevent]
    exact ⟨_, rfl⟩

/-- The events of the swarm a run handles, in order. -/
def handledEvents (cfg : Config) (s : LoopState) : List Turn → List SwarmEvent
  | [] => []
  | turn :: turns =>
      (s.hears turn).toList ++
        match iteration cfg s turn with
        | .ok o => if o.returned then [] else handledEvents cfg o.state turns
        | .error _ => []

theorem handledEvents_cons {cfg : Config} {s : LoopState} {turn : Turn} {turns : List Turn}
    {o : Outcome} (h : iteration cfg s turn = .ok o) (hr : o.returned = false) :
    handledEvents cfg s (turn :: turns) =
      (s.hears turn).toList ++ handledEvents cfg o.state turns := by
  simp [handledEvents, h, hr]

/-- A run that gets to a loop head goes through the one before it, and its effects are
those of the first iteration and the others. -/
theorem runLoop_cons_effects {cfg : Config} {s s' : LoopState} {turn : Turn} {turns : List Turn}
    {effects : List Effect} (h : runLoop cfg s (turn :: turns) = .ok ⟨s', effects, false⟩) :
    ∃ o effects', iteration cfg s turn = .ok o ∧ o.returned = false ∧
      runLoop cfg o.state turns = .ok ⟨s', effects', false⟩ ∧
      effects = o.effects ++ effects' := by
  obtain ⟨o, hiter, hrest⟩ := bind_eq_ok h
  by_cases hret : o.returned = true
  · rw [if_pos hret] at hrest
    obtain rfl := Except.ok.inj hrest
    exact absurd hret (by simp)
  · rw [if_neg hret] at hrest
    obtain ⟨⟨s₁, effects₁, returned₁⟩, hrun, hout⟩ := bind_eq_ok hrest
    obtain ⟨rfl, rfl, rfl⟩ := Outcome.mk.inj (Except.ok.inj hout)
    exact ⟨o, effects₁, hiter, by simpa using hret, hrun, rfl⟩

theorem runLoop_cons {cfg : Config} {s s' : LoopState} {turn : Turn} {turns : List Turn}
    {effects : List Effect} (h : runLoop cfg s (turn :: turns) = .ok ⟨s', effects, false⟩) :
    ∃ o effects', iteration cfg s turn = .ok o ∧ o.returned = false ∧
      runLoop cfg o.state turns = .ok ⟨s', effects', false⟩ := by
  obtain ⟨o, effects', hiter, hret, hrest, -⟩ := runLoop_cons_effects h
  exact ⟨o, effects', hiter, hret, hrest⟩

/-! ### The two copies of the connected endpoints -/

/-- The connections of each peer after one more event. -/
def countConnections (n : PeerId → ℕ) : SwarmEvent → PeerId → ℕ
  | .connectionEstablished peerId _ => Function.update n peerId (n peerId + 1)
  | .connectionClosed peerId _ _ _ => Function.update n peerId (n peerId - 1)
  | _ => n

/-- The connections of each peer after some events. -/
def openConnections (events : List SwarmEvent) : PeerId → ℕ :=
  events.foldl countConnections fun _ => 0

/-- The swarm counts the connections: one that is closed was open, and the number it
reports is that of the connections left. -/
def ReportsConnections : (PeerId → ℕ) → List SwarmEvent → Prop
  | _, [] => True
  | n, event :: events =>
      (∀ peerId cause endpoint numEstablished,
        event = .connectionClosed peerId cause endpoint numEstablished →
          n peerId = numEstablished + 1) ∧
      ReportsConnections (countConnections n event) events

/-- **The two copies of the connected endpoints agree**, and hold connected peers only. -/
structure Endpoints.Consistent (e : Endpoints) (n : PeerId → ℕ) : Prop where
  /-- No endpoint is cached twice. -/
  nodup : e.endpointCache.Nodup
  /-- The cache holds the elements of the set. -/
  same : ∀ x, x ∈ e.endpointCache ↔ x ∈ e.uniqueEndpoints
  /-- Its peers are connected. -/
  connected : ∀ x ∈ e.endpointCache, 0 < n x.peerId

namespace Endpoints.Consistent

variable {e e' : Endpoints} {n n' : PeerId → ℕ}

/-- What counts is the two copies. -/
theorem congr (h : e.Consistent n) (hcache : e'.endpointCache = e.endpointCache)
    (hset : e'.uniqueEndpoints = e.uniqueEndpoints) : e'.Consistent n :=
  ⟨hcache ▸ h.nodup, by rw [hcache, hset]; exact h.same, hcache ▸ h.connected⟩

/-- Endpoints may be forgotten, and the others stay connected. -/
theorem forget (h : e.Consistent n) (dead : PeerEndpointCache → Bool)
    (hn : ∀ x, dead x = false → 0 < n x.peerId → 0 < n' x.peerId) :
    (e.forget dead).Consistent n' where
  nodup := h.nodup.filter _
  same x := by simp [Endpoints.forget, h.same x]
  connected x hx := by
    obtain ⟨hmem, halive⟩ := List.mem_filter.mp hx
    exact hn x (by simpa using halive) (h.connected x hmem)

theorem noteFailure (h : e.Consistent n) (target : PeerEndpointCache) :
    (e.noteFailure target).1.Consistent n := h.congr rfl rfl

theorem transportError (h : e.Consistent n) (peerId : Option PeerId) (addr : Multiaddr)
    (err : TransportError) : (handleTransportError peerId addr err e).1.Consistent n := by
  unfold handleTransportError
  split
  · split
    · exact h.noteFailure _
    · exact (h.forget _ fun _ _ hpos => hpos).congr rfl rfl
  · exact h

theorem transportErrors (h : e.Consistent n) (peerId : Option PeerId)
    (errors : List (Multiaddr × TransportError)) :
    (handleTransportErrors peerId errors e).1.Consistent n :=
  handleTransportErrors_rec (P := fun e => e.Consistent n)
    (fun err _ _ hacc => hacc.transportError peerId err.1 err.2) h

theorem outgoingConnectionError (h : e.Consistent n) (peerId : Option PeerId)
    (error : DialError) : (handleOutgoingConnectionError peerId error e).1.Consistent n := by
  have herrors := h.transportErrors peerId error.transportErrors
  cases peerId with
  | none =>
    rw [handleOutgoingConnectionError_none]
    exact herrors
  | some p =>
    rw [handleOutgoingConnectionError_some]
    split_ifs
    · exact herrors.forget _ fun _ _ hpos => hpos
    · exact herrors

/-- A new connection moves its endpoint to the front. -/
theorem connectionEstablished (h : e.Consistent n) (peerId : PeerId) (endpoint : ConnectedPoint) :
    (handleConnectionEstablished peerId endpoint e).Consistent
      (Function.update n peerId (n peerId + 1)) := by
  have hpos : ∀ p, 0 < n p → 0 < Function.update n peerId (n peerId + 1) p := by
    intro p hp
    by_cases heq : p = peerId
    · subst heq
      simp
    · rwa [Function.update_of_ne heq]
  -- the source takes the endpoint out of the cache only if the set has it; by `h.same` this
  -- makes no difference
  have hrest : ∀ x, x ∈ (if (⟨peerId, getNonP2pMultiaddr endpoint.remoteAddress⟩ :
        PeerEndpointCache) ∈ e.uniqueEndpoints then e.endpointCache.filter fun y =>
          y ≠ ⟨peerId, getNonP2pMultiaddr endpoint.remoteAddress⟩ else e.endpointCache) ↔
      x ∈ e.endpointCache ∧ x ≠ ⟨peerId, getNonP2pMultiaddr endpoint.remoteAddress⟩ := by
    intro x
    split
    · simp
    · rename_i hnew
      refine ⟨fun hx => ⟨hx, ?_⟩, And.left⟩
      rintro rfl
      exact hnew ((h.same _).mp hx)
  refine ⟨?_, ?_, ?_⟩
  · refine List.nodup_cons.mpr ⟨fun hmem => ((hrest _).mp hmem).2 rfl, ?_⟩
    split
    · exact h.nodup.filter _
    · exact h.nodup
  · intro x
    simp only [handleConnectionEstablished, List.mem_cons, List.mem_insert_iff, hrest, h.same x]
    tauto
  · intro x hx
    rcases List.mem_cons.mp hx with rfl | hx
    · simp
    · exact hpos _ (h.connected x ((hrest x).mp hx).1)

/-- The last connection of a peer takes its endpoints with it. -/
theorem connectionClosed (h : e.Consistent n) (peerId : PeerId) (cause : Option ConnectionError)
    (endpoint : ConnectedPoint) (numEstablished : ℕ) (hn : n peerId = numEstablished + 1) :
    (handleConnectionClosed peerId cause endpoint numEstablished e).1.Consistent
      (Function.update n peerId (n peerId - 1)) := by
  have hfirst : (if numEstablished = 0 then e.forget fun x => x.peerId = peerId else e).Consistent
      (Function.update n peerId (n peerId - 1)) := by
    by_cases hzero : numEstablished = 0
    · -- the endpoints of the peer go, those of others keep their number of connections
      rw [if_pos hzero]
      refine h.forget _ fun x hx hpos => ?_
      rwa [Function.update_of_ne (by simpa using hx)]
    · -- the peer has other connections left
      rw [if_neg hzero]
      refine ⟨h.nodup, h.same, fun x hx => ?_⟩
      by_cases heq : x.peerId = peerId
      · rw [heq, Function.update_self]
        omega
      · rw [Function.update_of_ne heq]
        exact h.connected x hx
  unfold handleConnectionClosed
  cases cause with
  | none => exact hfirst
  | some connectionError =>
    have hsecond := hfirst.forget (fun x => x.address = endpoint.remoteAddress)
      fun _ _ hpos => hpos
    by_cases hretry : connectionError = .io ∧ endpoint.isDialer = true
    · simp only [if_pos hretry]
      exact hsecond.noteFailure _
    · simp only [if_neg hretry]
      exact hsecond

end Endpoints.Consistent

/-- **One event keeps the two copies in agreement.** -/
theorem Endpoints.Consistent.endpointEvent {cfg : Config} {view : SwarmView} {e e' : Endpoints}
    {n : PeerId → ℕ} {event : SwarmEvent} {calls : List Call} (h : e.Consistent n)
    (hn : ∀ peerId cause endpoint numEstablished,
      event = .connectionClosed peerId cause endpoint numEstablished →
        n peerId = numEstablished + 1)
    (hev : handleEndpointEvent cfg view e event = .ok (e', calls)) :
    e'.Consistent (countConnections n event) := by
  cases event with
  | gossipMessage data => cases hev; exact h
  | identifyReceived peerId listenAddrs =>
    obtain ⟨added, -, hret⟩ := bind_eq_ok hev
    cases hret
    exact h.congr rfl rfl
  | newListenAddr address =>
    obtain ⟨nonLocal, -, hret⟩ := bind_eq_ok hev
    cases hret
    exact h.congr rfl rfl
  | expiredListenAddr address =>
    obtain ⟨addrs, push, ⟨rfl, -⟩ | ⟨bootNode, rfl, -⟩⟩ := handleExpiredListenAddr_cases hev
    · exact h.congr rfl rfl
    · exact h.congr rfl rfl
  | connectionEstablished peerId endpoint =>
    cases hev
    exact h.connectionEstablished peerId endpoint
  | connectionClosed peerId cause endpoint numEstablished =>
    obtain rfl : (handleConnectionClosed peerId cause endpoint numEstablished e).1 = e' :=
      congrArg Prod.fst (Except.ok.inj hev)
    exact h.connectionClosed peerId cause endpoint numEstablished (hn _ _ _ _ rfl)
  | outgoingConnectionError peerId error =>
    obtain rfl : (handleOutgoingConnectionError peerId error e).1 = e' :=
      congrArg Prod.fst (Except.ok.inj hev)
    exact h.outgoingConnectionError peerId error
  | mdnsDiscovered list => cases hev; exact h
  | mdnsExpired list => cases hev; exact h
  | other => cases hev; exact h

/-- A retry callback does not touch the two copies. -/
theorem Endpoints.Consistent.retryCallback {view : SwarmView} {e e' : Endpoints} {n : PeerId → ℕ}
    {target : PeerEndpointCache} {calls : List Call} (h : e.Consistent n)
    (hcall : handleRetryCallback view target e = .ok (e', calls)) : e'.Consistent n := by
  unfold handleRetryCallback at hcall
  split at hcall
  · cases hcall
    exact h
  · obtain ⟨networkOk, -, hret⟩ := bind_eq_ok hcall
    split_ifs at hret <;> cases hret <;> exact h.congr rfl rfl

/-- One iteration keeps the two copies in agreement. -/
theorem Endpoints.Consistent.iteration {cfg : Config} {turn : Turn} {s : LoopState} {o : Outcome}
    {n : PeerId → ℕ} (h : s.endpoints.Consistent n) (hiter : iteration cfg s turn = .ok o)
    (hn : ReportsConnections n (s.hears turn).toList) :
    o.state.endpoints.Consistent ((s.hears turn).toList.foldl countConnections n) := by
  rcases iteration_endpoints_cases hiter with
    ⟨event, hears, hstep⟩ | ⟨target, -, hears, hstep⟩ | ⟨hears, heq, -⟩
  · rw [hears] at hn ⊢
    exact h.endpointEvent hn.1 hstep
  · rw [hears]
    exact h.retryCallback hstep
  · rw [hears, heq]
    exact h

theorem reportsConnections_append {n : PeerId → ℕ} {l₁ l₂ : List SwarmEvent}
    (h : ReportsConnections n (l₁ ++ l₂)) :
    ReportsConnections n l₁ ∧ ReportsConnections (l₁.foldl countConnections n) l₂ := by
  induction l₁ generalizing n with
  | nil => exact ⟨trivial, h⟩
  | cons event l₁ ih =>
    obtain ⟨hfirst, hrest⟩ := h
    obtain ⟨h₁, h₂⟩ := ih hrest
    exact ⟨⟨hfirst, h₁⟩, h₂⟩

/-- A run keeps the two copies in agreement. -/
theorem Endpoints.Consistent.runLoop {cfg : Config} {turns : List Turn} {s s' : LoopState}
    {effects : List Effect} {n : PeerId → ℕ} (h : s.endpoints.Consistent n)
    (hn : ReportsConnections n (handledEvents cfg s turns))
    (hrun : runLoop cfg s turns = .ok ⟨s', effects, false⟩) :
    s'.endpoints.Consistent ((handledEvents cfg s turns).foldl countConnections n) := by
  induction turns generalizing s n effects with
  | nil =>
    obtain ⟨rfl, -, -⟩ := Outcome.mk.inj (Except.ok.inj hrun)
    exact h
  | cons turn turns ih =>
    obtain ⟨o, effects', hiter, hret, hrest⟩ := runLoop_cons hrun
    rw [handledEvents_cons hiter hret] at hn ⊢
    obtain ⟨hnow, hlater⟩ := reportsConnections_append hn
    rw [List.foldl_append]
    exact ih (h.iteration hiter hnow) hlater hrest

/-- **Endpoint cache consistency.**  At every loop head, if the swarm counted the
connections in the events handled so far, the cache of endpoints contains nothing twice, its
elements are those of the set, and every peer in it has an open connection. -/
theorem endpointCache_consistent (cfg : Config) (start : ℕ) (turns : List Turn) {s : LoopState}
    {effects : List Effect}
    (hswarm : ReportsConnections (fun _ => 0) (handledEvents cfg (LoopState.initial start) turns))
    (h : runLoop cfg (LoopState.initial start) turns = .ok ⟨s, effects, false⟩) :
    s.endpoints.endpointCache.Nodup ∧
      (∀ x, x ∈ s.endpoints.endpointCache ↔ x ∈ s.endpoints.uniqueEndpoints) ∧
      ∀ x ∈ s.endpoints.endpointCache,
        0 < openConnections (handledEvents cfg (LoopState.initial start) turns) x.peerId := by
  have hstart : (LoopState.initial start).endpoints.Consistent fun _ => 0 :=
    ⟨List.nodup_nil, fun _ => Iff.rfl, fun x hx => absurd hx List.not_mem_nil⟩
  have hend := hstart.runLoop hswarm h
  exact ⟨hend.nodup, hend.same, hend.connected⟩

/-- A peer at an address. -/
private def somePoint : ConnectedPoint := ⟨[.ip4 10 0 0 2, .tcp 4001], true⟩

private def quietCfg : Config := ⟨.checked, default, ⟨[5]⟩, none⟩

/-- An iteration without delay. -/
private def quickTurn (wakeup : Wakeup) : Turn := ⟨0, 0, 0, 0, {}, wakeup⟩

/-- A peer that connects twice and leaves once. -/
private def twoConnections : List Turn :=
  [quickTurn (.swarm (.connectionEstablished ⟨[7]⟩ somePoint)),
    quickTurn (.swarm (.connectionEstablished ⟨[7]⟩ somePoint)),
    quickTurn (.swarm (.connectionClosed ⟨[7]⟩ none somePoint 1))]

/-- The peer is cached once, and has one connection left. -/
theorem endpointCache_two_connections :
    ∃ s effects, runLoop quietCfg (LoopState.initial 0) twoConnections = .ok ⟨s, effects, false⟩ ∧
      s.endpoints.endpointCache = [⟨⟨[7]⟩, [.ip4 10 0 0 2, .tcp 4001]⟩] ∧
      s.endpoints.endpointCache.Nodup ∧
      (∀ x, x ∈ s.endpoints.endpointCache ↔ x ∈ s.endpoints.uniqueEndpoints) ∧
      ∀ x ∈ s.endpoints.endpointCache,
        0 < openConnections (handledEvents quietCfg (LoopState.initial 0) twoConnections)
          x.peerId := by
  refine ⟨_, _, rfl, rfl, endpointCache_consistent quietCfg 0 twoConnections ?_ rfl⟩
  have hevents : handledEvents quietCfg (LoopState.initial 0) twoConnections =
      [.connectionEstablished ⟨[7]⟩ somePoint, .connectionEstablished ⟨[7]⟩ somePoint,
        .connectionClosed ⟨[7]⟩ none somePoint 1] := rfl
  rw [hevents]
  refine ⟨by simp, by simp, ?_, trivial⟩
  intro peerId cause endpoint numEstablished heq
  obtain ⟨rfl, -, -, rfl⟩ := SwarmEvent.connectionClosed.inj heq
  simp [countConnections]

/-! ### Empty addresses -/

/-- The boot node as `start_network` makes it: an IPv4 address with a port. -/
def Config.Started (cfg : Config) : Prop :=
  ∀ boot, cfg.bootNode = some boot →
    ∃ a b c d port, boot.address = [.ip4 a b c d, .tcp port]

/-- The addresses an event tells the loop to look at, now or later, are not empty. -/
def SwarmEvent.Addressed : SwarmEvent → Prop
  | .identifyReceived _ listenAddrs => [] ∉ listenAddrs
  | .newListenAddr address => address ≠ []
  | .connectionClosed _ cause endpoint _ =>
      cause = some .io → endpoint.isDialer = true → endpoint.remoteAddress ≠ []
  | .outgoingConnectionError (some _) (.transport errors) =>
      ∀ err ∈ errors, ∀ errorMsg, err.2 = .other (some errorMsg) →
        shouldHoldAndRetry errorMsg = true → err.1 ≠ []
  | _ => True

/-- The stored addresses the loop looks at are not empty. -/
structure Endpoints.Addressed (e : Endpoints) : Prop where
  /-- Those it listens on. -/
  listening : ∀ address ∈ e.currentListenAddresses, address ≠ []
  /-- Those it retries. -/
  failing : ∀ k task, e.failingConnections k = some task → task.target.address ≠ []

/-- A test that returns on every address can be counted. -/
theorem filterM_eq_ok {α ε : Type} {test : α → Except ε Bool} {l : List α}
    (h : ∀ a ∈ l, ∃ b, test a = .ok b) : ∃ l', l.filterM test = .ok l' := by
  have haux : ∀ acc, ∃ l', l.filterAuxM test acc = .ok l' := by
    induction l with
    | nil => exact fun acc => ⟨acc, rfl⟩
    | cons a l ih =>
      intro acc
      obtain ⟨b, hb⟩ := h a List.mem_cons_self
      obtain ⟨l', hl'⟩ := ih (fun a' ha' => h a' (List.mem_cons_of_mem _ ha')) (cond b (a :: acc) acc)
      exact ⟨l', by rw [List.filterAuxM, hb]; exact hl'⟩
  obtain ⟨l', hl'⟩ := haux []
  exact ⟨l'.reverse, by rw [List.filterM, hl']; rfl⟩

theorem isMultiaddrLocal_eq_ok {address : Multiaddr} (h : address ≠ []) :
    ∃ b, isMultiaddrLocal address = .ok b := by
  cases address with
  | nil => exact absurd rfl h
  | cons p rest => exact ⟨_, rfl⟩

theorem isMultiaddrLinkLocal_eq_ok {address : Multiaddr} (h : address ≠ []) :
    ∃ b, isMultiaddrLinkLocal address = .ok b := by
  cases address with
  | nil => exact absurd rfl h
  | cons p rest => cases p <;> exact ⟨_, rfl⟩

theorem not_isMultiaddrLocal_eq_ok {address : Multiaddr} (h : address ≠ []) :
    ∃ b, (isMultiaddrLocal address).map not = .ok b := by
  obtain ⟨b, hb⟩ := isMultiaddrLocal_eq_ok h
  exact ⟨!b, by rw [hb]; rfl⟩

theorem nonLocalAddrCount_eq_ok {addrs : List Multiaddr} (h : ∀ a ∈ addrs, a ≠ []) :
    ∃ n, nonLocalAddrCount addrs = .ok n := by
  obtain ⟨l, hl⟩ := filterM_eq_ok fun a ha => not_isMultiaddrLocal_eq_ok (h a ha)
  exact ⟨l.length, by rw [nonLocalAddrCount, countAddrs, hl]; rfl⟩

theorem linkLocalCount_eq_ok {addrs : List Multiaddr} (h : ∀ a ∈ addrs, a ≠ []) :
    ∃ n, linkLocalCount addrs = .ok n := by
  obtain ⟨l, hl⟩ := filterM_eq_ok fun a ha => isMultiaddrLinkLocal_eq_ok (h a ha)
  exact ⟨l.length, by rw [linkLocalCount, countAddrs, hl]; rfl⟩

theorem isNetworkOk_eq_ok {view : SwarmView} {addrs : List Multiaddr} {target : PeerEndpointCache}
    (h : ∀ a ∈ addrs, a ≠ []) (ht : target.address ≠ []) :
    ∃ b, isNetworkOk view addrs target = .ok b := by
  obtain ⟨n, hn⟩ := nonLocalAddrCount_eq_ok h
  obtain ⟨m, hm⟩ := linkLocalCount_eq_ok h
  obtain ⟨b, hb⟩ := isMultiaddrLinkLocal_eq_ok ht
  simp only [isNetworkOk, hn, hm, hb, bind, Except.bind, pure, Except.pure]
  split
  · exact ⟨_, rfl⟩
  · split
    · split <;> exact ⟨_, rfl⟩
    · exact ⟨_, rfl⟩

namespace Endpoints.Addressed

variable {e e' : Endpoints}

/-- What counts is the addresses listened on and the failing connections. -/
theorem congr (h : e.Addressed) (hlisten : e'.currentListenAddresses = e.currentListenAddresses)
    (hfailing : ∀ k task, e'.failingConnections k = some task →
      e.failingConnections k = some task ∨ task.target.address ≠ []) : e'.Addressed where
  listening := hlisten ▸ h.listening
  failing k task hk := (hfailing k task hk).elim (h.failing k task) id

theorem noteFailure (h : e.Addressed) {target : PeerEndpointCache} (ht : target.address ≠ []) :
    (e.noteFailure target).1.Addressed := by
  refine h.congr rfl fun k task hk => ?_
  simp only [Endpoints.noteFailure] at hk
  by_cases heq : k = target
  · subst heq
    rw [Function.update_self] at hk
    obtain rfl := Option.some.inj hk
    cases hold : e.failingConnections k with
    | none => exact .inr ht
    | some old => exact .inl rfl
  · rw [Function.update_of_ne heq] at hk
    exact .inl hk

theorem dropFailure (h : e.Addressed) (target : PeerEndpointCache) :
    (e.dropFailure target).Addressed := by
  refine h.congr rfl fun k task hk => .inl ?_
  simp only [Endpoints.dropFailure] at hk
  by_cases heq : k = target
  · subst heq
    rw [Function.update_self] at hk
    exact absurd hk (by simp)
  · rwa [Function.update_of_ne heq] at hk

theorem forget (h : e.Addressed) (dead : PeerEndpointCache → Bool) : (e.forget dead).Addressed :=
  h.congr rfl fun _ _ => .inl

theorem transportError (h : e.Addressed) (peer : PeerId) {addr : Multiaddr} {err : TransportError}
    (haddr : ∀ errorMsg, err = .other (some errorMsg) → shouldHoldAndRetry errorMsg = true →
      addr ≠ []) : (handleTransportError (some peer) addr err e).1.Addressed := by
  cases err with
  | multiaddrNotSupported => exact h
  | other inner =>
    cases inner with
    | none => exact h
    | some errorMsg =>
      by_cases hhold : shouldHoldAndRetry errorMsg = true
      · simp only [handleTransportError, hhold, if_true]
        exact h.noteFailure (haddr errorMsg rfl hhold)
      · simp only [handleTransportError, hhold, Bool.false_eq_true, if_false]
        exact (h.forget _).dropFailure _

theorem transportErrors (h : e.Addressed) (peer : PeerId)
    {errors : List (Multiaddr × TransportError)}
    (haddrs : ∀ err ∈ errors, ∀ errorMsg, err.2 = .other (some errorMsg) →
      shouldHoldAndRetry errorMsg = true → err.1 ≠ []) :
    (handleTransportErrors (some peer) errors e).1.Addressed :=
  handleTransportErrors_rec (P := Endpoints.Addressed)
    (fun err herr _ hacc => hacc.transportError peer (haddrs err herr)) h

/-- The boot node, which may be noted as failing, has an address. -/
theorem expiredListenAddr {cfg : Config} (h : e.Addressed) (hcfg : cfg.Started)
    (address : Multiaddr) :
    ∃ r, handleExpiredListenAddr cfg address e = .ok r ∧ r.1.Addressed := by
  have hleft : Endpoints.Addressed { e with
      currentListenAddresses := e.currentListenAddresses.filter fun addr => addr ≠ address } :=
    ⟨fun a ha => h.listening a (List.mem_of_mem_filter ha), h.failing⟩
  obtain ⟨n, hn⟩ := nonLocalAddrCount_eq_ok hleft.listening
  simp only [handleExpiredListenAddr, hn, bind, Except.bind, pure, Except.pure]
  cases hboot : cfg.bootNode with
  | none => exact ⟨_, rfl, hleft⟩
  | some bootNode =>
    simp only
    split
    · obtain ⟨a, b, c, d, port, haddr⟩ := hcfg bootNode hboot
      exact ⟨_, rfl, hleft.noteFailure (by simp [haddr])⟩
    · exact ⟨_, rfl, hleft⟩

theorem connectionClosed {cause : Option ConnectionError} {endpoint : ConnectedPoint}
    (h : e.Addressed) (peerId : PeerId) (numEstablished : ℕ)
    (haddr : cause = some .io → endpoint.isDialer = true → endpoint.remoteAddress ≠ []) :
    (handleConnectionClosed peerId cause endpoint numEstablished e).1.Addressed := by
  have hfirst : (if numEstablished = 0 then e.forget fun x => x.peerId = peerId
      else e).Addressed := by
    split
    · exact h.forget _
    · exact h
  cases cause with
  | none => exact hfirst
  | some connectionError =>
    simp only [handleConnectionClosed]
    split
    · case isTrue hretry =>
      exact (hfirst.forget _).noteFailure (haddr (by rw [hretry.1]) hretry.2)
    · exact hfirst.forget _

/-- Without a peer nothing is noted. -/
theorem outgoingConnectionError_none (h : e.Addressed) (error : DialError) :
    (handleOutgoingConnectionError none error e).1.Addressed := by
  cases error with
  | transport errors =>
    refine handleTransportErrors_rec (P := Endpoints.Addressed) (fun err _ _ hacc => ?_) h
    simpa [handleTransportError] using hacc
  | _ => exact h

theorem outgoingConnectionError_some {error : DialError} (h : e.Addressed) (deadPeer : PeerId)
    (haddrs : ∀ errors, error = .transport errors → ∀ err ∈ errors, ∀ errorMsg,
      err.2 = .other (some errorMsg) → shouldHoldAndRetry errorMsg = true → err.1 ≠ []) :
    (handleOutgoingConnectionError (some deadPeer) error e).1.Addressed := by
  cases error with
  | transport errors =>
    have herrors := h.transportErrors deadPeer (haddrs errors rfl)
    simp only [handleOutgoingConnectionError]
    split
    · exact herrors.forget _
    · exact herrors
  | _ =>
    simp only [handleOutgoingConnectionError]
    split
    · exact h.forget _
    · exact h

end Endpoints.Addressed

/-- **An event without empty addresses is handled**, and leaves none behind. -/
theorem handleEndpointEvent_addressed {cfg : Config} {view : SwarmView} {e : Endpoints}
    {event : SwarmEvent} (hcfg : cfg.Started) (h : e.Addressed) (hev : event.Addressed) :
    ∃ r, handleEndpointEvent cfg view e event = .ok r ∧ r.1.Addressed := by
  cases event with
  | gossipMessage data => exact ⟨_, rfl, h⟩
  | identifyReceived peerId listenAddrs =>
    obtain ⟨added, hadded⟩ := filterM_eq_ok (l := listenAddrs) fun a ha =>
      not_isMultiaddrLocal_eq_ok (fun hnil => hev (hnil ▸ ha))
    refine ⟨_, by rw [handleEndpointEvent, handleIdentifyReceived, hadded]; rfl, ?_⟩
    exact h.congr rfl fun _ _ => .inl
  | newListenAddr address =>
    obtain ⟨n, hn⟩ := nonLocalAddrCount_eq_ok h.listening
    refine ⟨_, by rw [handleEndpointEvent, handleNewListenAddr, hn]; rfl, ?_, h.failing⟩
    intro a ha
    rcases List.mem_insert_iff.mp ha with rfl | ha
    · exact hev
    · exact h.listening a ha
  | expiredListenAddr address => exact h.expiredListenAddr hcfg address
  | connectionEstablished peerId endpoint =>
    refine ⟨_, rfl, h.congr rfl fun k task hk => .inl ?_⟩
    exact (Option.filter_eq_some_iff.mp hk).1
  | connectionClosed peerId cause endpoint numEstablished =>
    exact ⟨_, rfl, h.connectionClosed peerId numEstablished hev⟩
  | outgoingConnectionError peerId error =>
    refine ⟨_, rfl, ?_⟩
    cases peerId with
    | none => exact h.outgoingConnectionError_none error
    | some deadPeer =>
      refine h.outgoingConnectionError_some deadPeer ?_
      rintro errors rfl
      exact hev
  | mdnsDiscovered list => exact ⟨_, rfl, h⟩
  | mdnsExpired list => exact ⟨_, rfl, h⟩
  | other => exact ⟨_, rfl, h⟩

theorem handleRetryCallback_addressed {view : SwarmView} {target : PeerEndpointCache}
    {e : Endpoints} (h : e.Addressed) :
    ∃ r, handleRetryCallback view target e = .ok r ∧ r.1.Addressed := by
  unfold handleRetryCallback
  cases htask : e.failingConnections target with
  | none => exact ⟨_, rfl, h⟩
  | some retryTask =>
    obtain ⟨networkOk, hok⟩ :
        ∃ b, isNetworkOk view e.currentListenAddresses retryTask.target = .ok b :=
      isNetworkOk_eq_ok h.listening (h.failing target retryTask htask)
    simp only [hok, bind, Except.bind, pure, Except.pure]
    split_ifs
    · exact ⟨_, rfl, h⟩
    · exact ⟨_, rfl, h.dropFailure target⟩
    · exact ⟨_, rfl, h.dropFailure target⟩
    · refine ⟨_, rfl, h.congr rfl fun k task hk => ?_⟩
      simp only at hk
      by_cases heq : k = target
      · subst heq
        rw [Function.update_self] at hk
        obtain rfl := Option.some.inj hk
        exact .inr (h.failing k retryTask htask)
      · rw [Function.update_of_ne heq] at hk
        exact .inl hk

/-- Whatever a wakeup is for, it is handled when there are no empty addresses. -/
theorem handleEndpoints_addressed {cfg : Config} {view : SwarmView} {e : Endpoints}
    {wakeup : Option Wakeup} (hcfg : cfg.Started) (h : e.Addressed)
    (hev : ∀ event, wakeup = some (.swarm event) → event.Addressed) :
    ∃ r, handleEndpoints cfg view e wakeup = .ok r ∧ r.1.Addressed := by
  cases wakeup with
  | none => exact ⟨_, rfl, h⟩
  | some wakeup =>
    cases wakeup with
    | received message uuid => exact ⟨_, rfl, h⟩
    | swarm event => exact handleEndpointEvent_addressed hcfg h (hev event rfl)
    | retryCallback target => exact handleRetryCallback_addressed h
    | idle => exact ⟨_, rfl, h⟩

/-- A message of another node never asks for the first component of an address. -/
theorem handleIncomingMessage_ne_indexOutOfBounds {build : Build} {sha : Sha256} {now : ℕ}
    {data : Bytes} {states : ChunkStates} :
    handleIncomingMessage build sha now data states ≠ .error .indexOutOfBounds := by
  -- the end of a transfer may panic, but not for this reason
  have hfinish : ∀ state, finishTransfer build sha state ≠ .error .indexOutOfBounds := by
    intro state
    unfold finishTransfer
    repeat' split
    all_goals simp
  have hmessage : ∀ m, handleNetworkMessage build sha now states m ≠ .error .indexOutOfBounds := by
    intro m
    cases m with
    | direct content => simp [handleNetworkMessage]
    | chunkStart tid total hash size => simp [handleNetworkMessage]
    | chunk tid index data =>
      simp only [handleNetworkMessage]
      repeat' split
      all_goals simp
    | chunkEnd tid =>
      simp only [handleNetworkMessage]
      split
      · rename_i state _
        cases hf : finishTransfer build sha state with
        | ok content => simp [Except.map]
        | error p =>
          intro heq
          obtain rfl : p = .indexOutOfBounds := by simpa [Except.map] using heq
          exact hfinish state hf
      · simp
  unfold handleIncomingMessage
  split
  · exact hmessage _
  · split <;> simp

/-- **An iteration that asks an empty address for its first component does so while it
handles the endpoints.** -/
theorem iteration_panics {cfg : Config} {turn : Turn} {s : LoopState}
    (h : iteration cfg s turn = .error .indexOutOfBounds) :
    handleEndpoints cfg turn.view s.endpoints (s.wakes turn) = .error .indexOutOfBounds := by
  unfold iteration at h
  cases hp : s.pendingChunks with
  | cons data rest => exact absurd h (by simp [hp])
  | nil =>
    simp only [hp] at h
    rw [LoopState.wakes, if_pos hp]
    have hwake := bind_eq_error (fun _ => ⟨_, rfl⟩) h
    unfold handleWakeup at hwake
    split at hwake
    · exact absurd hwake (by simp)
    · exact absurd (bind_eq_error (fun _ => ⟨_, rfl⟩) hwake) handleIncomingMessage_ne_indexOutOfBounds
    · case h_3 event _ hw =>
      rw [hw]
      exact bind_eq_error (fun _ => ⟨_, rfl⟩) hwake
    · case h_4 target hw =>
      rw [hw]
      exact bind_eq_error (fun _ => ⟨_, rfl⟩) hwake
    · exact absurd hwake (by simp)

/-- A run that handles no event with an empty address does not crash on one. -/
theorem runLoop_addressed {cfg : Config} {turns : List Turn} {s : LoopState} (hcfg : cfg.Started)
    (h : s.endpoints.Addressed)
    (hev : ∀ event ∈ handledEvents cfg s turns, event.Addressed) :
    runLoop cfg s turns ≠ .error .indexOutOfBounds := by
  induction turns generalizing s with
  | nil => simp [runLoop]
  | cons turn turns ih =>
    intro hpanic
    -- induction on the turns: no address kept at a loop head is empty
    have hnow : ∀ event, s.wakes turn = some (.swarm event) → event.Addressed := by
      intro event hwake
      refine hev event (List.mem_append_left _ ?_)
      simp [hears_eq_some hwake]
    obtain ⟨r, hr, haddr⟩ :
        ∃ r, handleEndpoints cfg turn.view s.endpoints (s.wakes turn) = .ok r ∧ r.1.Addressed :=
      handleEndpoints_addressed hcfg h hnow
    cases hiter : iteration cfg s turn with
    | error p =>
      rw [runLoop, hiter] at hpanic
      obtain rfl : p = .indexOutOfBounds := Except.error.inj hpanic
      exact absurd (hr.symm.trans (iteration_panics hiter)) (by simp)
    | ok o =>
      rw [runLoop, hiter] at hpanic
      -- the state the rest of the run starts from is the one the handlers left
      have hstate : o.state.endpoints.Addressed := by
        have heq := hr.symm.trans (iteration_endpoints hiter)
        rw [Except.ok.inj heq] at haddr
        exact haddr
      by_cases hret : o.returned = true
      · exact absurd hpanic (by simp [bind, Except.bind, hret, pure, Except.pure])
      · have hrest : runLoop cfg o.state turns = .error .indexOutOfBounds := by
          have hcont : (runLoop cfg o.state turns).bind (fun o' =>
              .ok { o' with effects := o.effects ++ o'.effects }) = .error .indexOutOfBounds := by
            simpa [bind, Except.bind, hret, pure, Except.pure] using hpanic
          exact bind_eq_error (fun _ => ⟨_, rfl⟩) hcont
        refine ih hstate (fun event hmem => hev event ?_) hrest
        rw [handledEvents_cons hiter (by simpa using hret)]
        exact List.mem_append_right _ hmem

/-- A test that fails on one address fails on a list with it. -/
theorem filterM_eq_error {α ε : Type} {test : α → Except ε Bool} {p : ε} {l : List α} {a : α}
    (ha : a ∈ l) (hp : test a = .error p) (h : ∀ b q, test b = .error q → q = p) :
    l.filterM test = .error p := by
  have haux : ∀ acc, l.filterAuxM test acc = .error p := by
    induction l with
    | nil => exact absurd ha List.not_mem_nil
    | cons b l ih =>
      intro acc
      rw [List.filterAuxM]
      cases hb : test b with
      | error q =>
        rw [h b q hb]
        rfl
      | ok keep =>
        rcases List.mem_cons.mp ha with rfl | ha
        · exact absurd (hb.symm.trans hp) (by simp)
        · exact ih ha _
  rw [List.filterM, haux]
  rfl

/-- **A run without empty addresses does not crash on one.**  If the boot node is as
`start_network` makes it, and no event that is handled tells the loop to look at an empty
address, no address is asked for a component it does not have.  And one peer that
announces an empty address takes the loop down, at whatever loop head the announcement is
handled. -/
theorem no_indexOutOfBounds {cfg : Config} (hcfg : cfg.Started) (start : ℕ) (turns : List Turn)
    (hev : ∀ event ∈ handledEvents cfg (LoopState.initial start) turns, event.Addressed) :
    runLoop cfg (LoopState.initial start) turns ≠ .error .indexOutOfBounds ∧
      ∀ s turn peerId listenAddrs, s.pendingChunks = [] →
        turn.wakeup = .swarm (.identifyReceived peerId listenAddrs) → [] ∈ listenAddrs →
          iteration cfg s turn = .error .indexOutOfBounds := by
  refine ⟨runLoop_addressed hcfg ⟨by simp [LoopState.initial], by simp [LoopState.initial]⟩ hev, ?_⟩
  intro s turn peerId listenAddrs hp hw hmem
  have hlocal : ∀ (b : Multiaddr) (q : Panic), (isMultiaddrLocal b).map not = .error q →
      q = .indexOutOfBounds := by
    intro b q hq
    cases b with
    | nil => exact (Except.error.inj hq).symm
    | cons c rest => exact absurd hq (by simp [isMultiaddrLocal, Except.map])
  have hfilter : listenAddrs.filterM (fun addr => (isMultiaddrLocal addr).map not) =
      .error .indexOutOfBounds := filterM_eq_error hmem rfl hlocal
  simp only [iteration, hp, handleWakeup, hw, handleEndpointEvent, handleIdentifyReceived, hfilter,
    bind, Except.bind]

/-- A peer that announces an address. -/
private def announcement : List Turn :=
  [quickTurn (.swarm (.identifyReceived ⟨[7]⟩ [[.ip4 10 0 0 2, .tcp 4001]]))]

/-- An announcement without empty addresses. -/
theorem no_indexOutOfBounds_announcement :
    quietCfg.Started ∧
      (∀ event ∈ handledEvents quietCfg (LoopState.initial 0) announcement, event.Addressed) ∧
      runLoop quietCfg (LoopState.initial 0) announcement ≠ .error .indexOutOfBounds := by
  have hcfg : quietCfg.Started := fun boot hboot => absurd hboot (by simp [quietCfg])
  have hev : ∀ event ∈ handledEvents quietCfg (LoopState.initial 0) announcement,
      event.Addressed := by
    intro event hmem
    obtain rfl : event = .identifyReceived ⟨[7]⟩ [[.ip4 10 0 0 2, .tcp 4001]] :=
      List.mem_singleton.mp hmem
    simp [SwarmEvent.Addressed]
  exact ⟨hcfg, hev, (no_indexOutOfBounds hcfg 0 announcement hev).1⟩

/-- A peer that announces an empty address takes the loop down. -/
theorem indexOutOfBounds_of_empty_announcement :
    quietCfg.Started ∧
      runLoop quietCfg (LoopState.initial 0)
        [quickTurn (.swarm (.identifyReceived ⟨[7]⟩ [[]]))] = .error .indexOutOfBounds :=
  ⟨fun boot hboot => absurd hboot (by simp [quietCfg]), rfl⟩

end P2pClipboard
