import P2pClipboard.Retry

/-!
# Cleaning out a peer

Some dial errors show that a peer is not there: no address of it can be used, or
somebody else answers.  The OutgoingConnectionError branch of `run` in `src/network.rs`
then forgets the endpoints of the peer and removes it from Kademlia.  The connections
to be tried again are left as they are.  What is in `failing_connections` for the peer
before the event stays there, and so does what the loop over the failed addresses of
the same event has just put in; the next retry callback dials it.

## Main definitions

* `ForgetsPeer` — nothing is left of a peer, and no retry callback dials it until a
  failure is noted anew.
* `lastInner` — the last inner error of an address among the failed addresses of a dial.
* `NoRetryLeft` — the failed addresses leave no connection of the peer to be tried again.

## Main results

* `handleTransportErrors_failing` — what the failed addresses leave.
* `swarmCalls_retryCallback` — without an entry a retry callback does nothing.
* `forgetsPeer_iff` — **a peer is forgotten if and only if no connection of it is left to
  be tried again.**
-/

namespace P2pClipboard

/-! ### What the failed addresses leave -/

/-- The text of the inner error, if the error is about this address and has one. -/
def innerAt (addr : Multiaddr) (err : Multiaddr × TransportError) : Option String :=
  match err.2 with
  | .other (some errorMsg) => if err.1 = addr then some errorMsg else none
  | _ => none

/-- The last inner error of an address. -/
def lastInner (addr : Multiaddr) : List (Multiaddr × TransportError) → Option String
  | [] => none
  | err :: errors => (lastInner addr errors).or (innerAt addr err)

/-- An error about another address, or without an inner error, leaves a connection as it
is; any other error decides whether it is to be tried again. -/
theorem handleTransportError_failing (p : PeerId) (err : Multiaddr × TransportError)
    (e : Endpoints) (addr : Multiaddr) :
    (innerAt addr err = none →
      (handleTransportError (some p) err.1 err.2 e).1.failingConnections ⟨p, addr⟩ =
        e.failingConnections ⟨p, addr⟩) ∧
    ∀ errorMsg, innerAt addr err = some errorMsg →
      ((handleTransportError (some p) err.1 err.2 e).1.failingConnections ⟨p, addr⟩ = none ↔
        shouldHoldAndRetry errorMsg = false) := by
  obtain ⟨a, error⟩ := err
  cases error with
  | multiaddrNotSupported => exact ⟨fun _ => rfl, fun _ h => absurd h (by simp [innerAt])⟩
  | other inner =>
    cases inner with
    | none => exact ⟨fun _ => rfl, fun _ h => absurd h (by simp [innerAt])⟩
    | some errorMsg =>
      by_cases ha : a = addr
      · subst ha
        refine ⟨fun h => absurd h (by simp [innerAt]), ?_⟩
        intro msg hmsg
        obtain rfl : errorMsg = msg := by simpa [innerAt] using hmsg
        by_cases hhold : shouldHoldAndRetry errorMsg = true
        · simp [handleTransportError, hhold, Endpoints.noteFailure]
        · simp [handleTransportError, hhold, Endpoints.dropFailure]
      · refine ⟨fun _ => ?_, fun _ h => absurd h (by simp [innerAt, ha])⟩
        have hne : (⟨p, addr⟩ : PeerEndpointCache) ≠ ⟨p, a⟩ := by
          intro heq
          exact ha (PeerEndpointCache.mk.inj heq).2.symm
        by_cases hhold : shouldHoldAndRetry errorMsg = true
        · simp [handleTransportError, hhold, Endpoints.noteFailure, Function.update_of_ne hne]
        · simp [handleTransportError, hhold, Endpoints.dropFailure, Endpoints.forget,
            Function.update_of_ne hne]

/-- **What the failed addresses of a dial leave**: the last inner error of an address
decides whether its connection is to be tried again. -/
theorem handleTransportErrors_failing (p : PeerId) (errors : List (Multiaddr × TransportError))
    (e : Endpoints) (addr : Multiaddr) :
    (lastInner addr errors = none →
      (handleTransportErrors (some p) errors e).1.failingConnections ⟨p, addr⟩ =
        e.failingConnections ⟨p, addr⟩) ∧
    ∀ errorMsg, lastInner addr errors = some errorMsg →
      ((handleTransportErrors (some p) errors e).1.failingConnections ⟨p, addr⟩ = none ↔
        shouldHoldAndRetry errorMsg = false) := by
  induction errors generalizing e with
  | nil => exact ⟨fun _ => rfl, fun _ h => absurd h (by simp [lastInner])⟩
  | cons err errors ih =>
    obtain ⟨hkeep, hlast⟩ := ih (handleTransportError (some p) err.1 err.2 e).1
    obtain ⟨hkeepOne, hlastOne⟩ := handleTransportError_failing p err e addr
    rw [handleTransportErrors_cons, lastInner]
    cases hrest : lastInner addr errors with
    | some msg =>
      -- a later error decides
      refine ⟨fun h => absurd h (by simp), ?_⟩
      intro errorMsg h
      obtain rfl : msg = errorMsg := by simpa using h
      exact hlast msg hrest
    | none =>
      rw [Option.none_or, hkeep hrest]
      exact ⟨hkeepOne, hlastOne⟩

/-- After the failed addresses of a dial no connection of the peer is left to be tried
again. -/
structure NoRetryLeft (e : Endpoints) (p : PeerId) (errors : List (Multiaddr × TransportError)) :
    Prop where
  /-- The last inner error of an address is none to hold and try again. -/
  settled : ∀ addr errorMsg, lastInner addr errors = some errorMsg →
    shouldHoldAndRetry errorMsg = false
  /-- Where no inner error is listed, nothing was to be tried again before. -/
  clear : ∀ addr, lastInner addr errors = none → e.failingConnections ⟨p, addr⟩ = none

/-- No connection of the peer is to be tried again. -/
def NoFailing (p : PeerId) (e : Endpoints) : Prop :=
  ∀ k, k.peerId = p → e.failingConnections k = none

theorem noFailing_transportErrors_iff {p : PeerId} {errors : List (Multiaddr × TransportError)}
    {e : Endpoints} :
    NoFailing p (handleTransportErrors (some p) errors e).1 ↔ NoRetryLeft e p errors := by
  constructor
  · intro h
    refine ⟨fun addr errorMsg hlast => ?_, fun addr hnone => ?_⟩
    · exact ((handleTransportErrors_failing p errors e addr).2 errorMsg hlast).mp (h ⟨p, addr⟩ rfl)
    · rw [← (handleTransportErrors_failing p errors e addr).1 hnone]
      exact h ⟨p, addr⟩ rfl
  · rintro h ⟨q, addr⟩ rfl
    obtain ⟨hkeep, hlast⟩ := handleTransportErrors_failing q errors e addr
    cases hinner : lastInner addr errors with
    | none => rw [hkeep hinner, h.clear addr hinner]
    | some errorMsg => exact (hlast errorMsg hinner).mpr (h.settled addr errorMsg hinner)

/-! ### Without an entry no callback dials -/

/-- A failure that is noted queues a task for its peer. -/
theorem NoFailing.of_failureOp {p : PeerId} {e e' : Endpoints} {calls : List Call}
    (h : NoFailing p e) (hop : FailureOp e e' calls)
    (hquiet : ∀ task ∈ retriesOf calls, task.target.peerId ≠ p) : NoFailing p e' := by
  intro k hk
  cases hop with
  | note target hmap hcalls =>
    by_cases hkt : k = target
    · subst hkt
      rw [hcalls, h k hk] at hquiet
      exact absurd hk (hquiet _ (List.mem_singleton_self _))
    · rw [hmap, Function.update_of_ne hkt]
      exact h k hk
  | keep hmap hcalls =>
    cases htask : e'.failingConnections k with
    | none => rfl
    | some task => exact absurd ((h k hk).symm.trans (hmap k task htask)) (by simp)

theorem NoFailing.transportErrors {p : PeerId} {peerId : Option PeerId}
    {errors : List (Multiaddr × TransportError)} {e : Endpoints} (h : NoFailing p e)
    (hquiet : ∀ task ∈ retriesOf (handleTransportErrors peerId errors e).2,
      task.target.peerId ≠ p) : NoFailing p (handleTransportErrors peerId errors e).1 := by
  induction errors generalizing e with
  | nil => exact h
  | cons err errors ih =>
    rw [handleTransportErrors_cons] at hquiet ⊢
    rw [retriesOf_append] at hquiet
    refine ih (h.of_failureOp (handleTransportError_op peerId err.1 err.2 e) ?_) ?_
    · exact fun task htask => hquiet task (List.mem_append_left _ htask)
    · exact fun task htask => hquiet task (List.mem_append_right _ htask)

/-- No event notes a failure of the peer without queueing a task for it. -/
theorem NoFailing.endpointEvent {p : PeerId} {cfg : Config} {view : SwarmView}
    {e e' : Endpoints} {event : SwarmEvent} {calls : List Call} (h : NoFailing p e)
    (hev : handleEndpointEvent cfg view e event = .ok (e', calls))
    (hquiet : ∀ task ∈ retriesOf calls, task.target.peerId ≠ p) : NoFailing p e' := by
  by_cases hevent : event.IsTransportError
  · obtain ⟨peerId, errors, rfl, hmap, hcalls⟩ := handleEndpointEvent_transport hevent hev
    rw [hcalls] at hquiet
    intro k hk
    rw [hmap]
    exact h.transportErrors hquiet k hk
  · exact h.of_failureOp (handleEndpointEvent_op hevent hev) hquiet

/-- A retry callback notes no failure of a peer that has none. -/
theorem NoFailing.retryCallback {p : PeerId} {view : SwarmView} {target : PeerEndpointCache}
    {e e' : Endpoints} {calls : List Call} (h : NoFailing p e)
    (hcall : handleRetryCallback view target e = .ok (e', calls)) : NoFailing p e' := by
  have hne : ∀ {task}, e.failingConnections target = some task → ∀ k, k.peerId = p → k ≠ target := by
    rintro task htask k hk rfl
    exact absurd ((h k hk).symm.trans htask) (by simp)
  intro k hk
  rcases handleRetryCallback_cases hcall with ⟨-, rfl, -⟩ | ⟨task, htask, hrest⟩
  · exact h k hk
  · rcases hrest with ⟨rfl, -⟩ | ⟨rfl, -⟩ | ⟨-, -, rfl⟩
    · exact h k hk
    · exact (Function.update_of_ne (hne htask k hk) _ _).trans (h k hk)
    · exact (Function.update_of_ne (hne htask k hk) _ _).trans (h k hk)

theorem NoFailing.iteration {p : PeerId} {cfg : Config} {turn : Turn} {s : LoopState}
    {o : Outcome} (h : NoFailing p s.endpoints) (hiter : iteration cfg s turn = .ok o)
    (hquiet : ∀ task ∈ retriesOf (swarmCalls o.effects), task.target.peerId ≠ p) :
    NoFailing p o.state.endpoints := by
  rcases iteration_endpoints_cases hiter with
    ⟨event, -, hstep⟩ | ⟨target, -, -, hstep⟩ | ⟨-, heq, -⟩
  · exact h.endpointEvent hstep hquiet
  · exact h.retryCallback hstep
  · rw [heq]
    exact h

/-- **Until a failure is noted anew** a peer has no connection to be tried again. -/
theorem NoFailing.runLoop {p : PeerId} {cfg : Config} {turns : List Turn} {s s' : LoopState}
    {effects : List Effect} (h : NoFailing p s.endpoints)
    (hrun : runLoop cfg s turns = .ok ⟨s', effects, false⟩)
    (hquiet : ∀ task ∈ retriesOf (swarmCalls effects), task.target.peerId ≠ p) :
    NoFailing p s'.endpoints := by
  induction turns generalizing s effects with
  | nil =>
    obtain ⟨rfl, -, -⟩ := Outcome.mk.inj (Except.ok.inj hrun)
    exact h
  | cons turn turns ih =>
    obtain ⟨o, effects', hiter, -, hrest, rfl⟩ := runLoop_cons_effects hrun
    rw [swarmCalls_append, retriesOf_append] at hquiet
    refine ih (h.iteration hiter ?_) hrest ?_
    · exact fun task htask => hquiet task (List.mem_append_left _ htask)
    · exact fun task htask => hquiet task (List.mem_append_right _ htask)

/-- Without an entry a retry callback does nothing. -/
theorem swarmCalls_retryCallback {p : PeerId} {cfg : Config} {turn : Turn} {s : LoopState}
    {o : Outcome} {k : PeerEndpointCache} (h : NoFailing p s.endpoints)
    (hw : s.wakes turn = some (.retryCallback k)) (hk : k.peerId = p)
    (hiter : iteration cfg s turn = .ok o) : swarmCalls o.effects = [] := by
  have hstep := iteration_endpoints hiter
  rw [hw] at hstep
  have hcall : handleRetryCallback turn.view k s.endpoints =
      .ok (o.state.endpoints, swarmCalls o.effects) := hstep
  rcases handleRetryCallback_cases hcall with ⟨-, -, hcalls⟩ | ⟨task, htask, -⟩
  · exact hcalls
  · exact absurd ((h k hk).symm.trans htask) (by simp)

/-! ### When a peer is forgotten -/

/-- Nothing is left of a peer; and at every loop head reached before a failure of it is
noted anew, a retry callback for it does not dial. -/
structure ForgetsPeer (cfg : Config) (p : PeerId) (s : LoopState) : Prop where
  /-- No connected endpoint, in the set. -/
  unique : ∀ x ∈ s.endpoints.uniqueEndpoints, x.peerId ≠ p
  /-- None in the cache. -/
  cache : ∀ x ∈ s.endpoints.endpointCache, x.peerId ≠ p
  /-- No connection to be tried again. -/
  failing : NoFailing p s.endpoints
  /-- No retry callback dials. -/
  noDial : ∀ turns s' effects, runLoop cfg s turns = .ok ⟨s', effects, false⟩ →
    (∀ task ∈ retriesOf (swarmCalls effects), task.target.peerId ≠ p) →
    ∀ turn k o, s'.wakes turn = some (.retryCallback k) → k.peerId = p →
      iteration cfg s' turn = .ok o → dialsOf (swarmCalls o.effects) = []

/-- **A peer that is cleaned out is forgotten if and only if no connection of it is left
to be tried again**: neither one noted before the event that the failed addresses do not
drop, nor one they note. -/
theorem forgetsPeer_iff (cfg : Config) (s : LoopState) (turn : Turn) (p : PeerId)
    (error : DialError) (h : s.hears turn = some (.outgoingConnectionError (some p) error))
    (hclean : shouldCleanPeer error = true) :
    ∃ o, iteration cfg s turn = .ok o ∧
      (ForgetsPeer cfg p o.state ↔ NoRetryLeft s.endpoints p error.transportErrors) := by
  have hhandled : handleEndpointEvent cfg turn.view s.endpoints
      (.outgoingConnectionError (some p) error) =
        .ok (handleOutgoingConnectionError (some p) error s.endpoints) := rfl
  obtain ⟨o, hiter⟩ := exists_iteration_of_hears h (by simp) hhandled
  refine ⟨o, hiter, ?_⟩
  have hstep := iteration_endpoints hiter
  rw [wakes_of_hears h] at hstep
  have hend : o.state.endpoints =
      (handleTransportErrors (some p) error.transportErrors s.endpoints).1.forget
        fun ep => ep.peerId = p := by
    have hcalls : handleOutgoingConnectionError (some p) error s.endpoints =
        (o.state.endpoints, swarmCalls o.effects) := Except.ok.inj hstep
    rw [handleOutgoingConnectionError_some, if_pos hclean] at hcalls
    exact (Prod.mk.inj hcalls).1.symm
  have hfailing : NoFailing p o.state.endpoints ↔
      NoRetryLeft s.endpoints p error.transportErrors := by
    rw [hend]
    exact noFailing_transportErrors_iff
  constructor
  · intro hforgets
    exact hfailing.mp hforgets.failing
  · intro hleft
    have hnone := hfailing.mpr hleft
    refine ⟨?_, ?_, hnone, ?_⟩
    · intro x hx
      rw [hend] at hx
      simpa using (List.mem_filter.mp hx).2
    · intro x hx
      rw [hend] at hx
      simpa using (List.mem_filter.mp hx).2
    · intro turns s' effects hrun hquiet turn' k o' hw hk hiter'
      rw [swarmCalls_retryCallback (hnone.runLoop hrun hquiet) hw hk hiter']
      rfl

private def cleaningCfg : Config := ⟨.checked, default, ⟨[5]⟩, none⟩

/-- An iteration without delay, while some other peer is connected. -/
private def cleaningTurn (wakeup : Wakeup) : Turn :=
  ⟨0, 0, 0, 0, { connectedPeers := [⟨[9]⟩] }, wakeup⟩

private def deadAddress : Multiaddr := [.ip4 10 0 0 2, .tcp 4001]

/-- One address refuses the connection, and another one cannot be dialled at all. -/
private def refusedDial : DialError :=
  .transport [(deadAddress, .other (some "ConnectionRefused")), ([], .multiaddrNotSupported)]

private def timedOut : List (Multiaddr × TransportError) :=
  [(deadAddress, .other (some "Timeout"))]

/-- The peer is connected, and then a dial to it times out. -/
private def knownTurns : List Turn :=
  [cleaningTurn (.swarm (.connectionEstablished ⟨[7]⟩ ⟨deadAddress, true⟩)),
    cleaningTurn (.swarm (.outgoingConnectionError (some ⟨[7]⟩) (.transport timedOut)))]

private def knownEndpoints : Endpoints :=
  (handleTransportErrors (some ⟨[7]⟩) timedOut
    (handleConnectionEstablished ⟨[7]⟩ ⟨deadAddress, true⟩ (LoopState.initial 0).endpoints)).1

private theorem runLoop_knownTurns :
    ∃ s effects, runLoop cleaningCfg (LoopState.initial 0) knownTurns = .ok ⟨s, effects, false⟩ ∧
      s.pendingChunks = [] ∧ s.endpoints = knownEndpoints :=
  ⟨_, _, rfl, rfl, rfl⟩

/-- A peer that is in all tables before the event. -/
theorem forgetsPeer_refused :
    ∃ s effects o, runLoop cleaningCfg (LoopState.initial 0) knownTurns =
        .ok ⟨s, effects, false⟩ ∧
      ⟨⟨[7]⟩, deadAddress⟩ ∈ s.endpoints.uniqueEndpoints ∧
      ⟨⟨[7]⟩, deadAddress⟩ ∈ s.endpoints.endpointCache ∧
      s.endpoints.failingConnections ⟨⟨[7]⟩, deadAddress⟩ = some ⟨⟨⟨[7]⟩, deadAddress⟩, 0⟩ ∧
      iteration cleaningCfg s
        (cleaningTurn (.swarm (.outgoingConnectionError (some ⟨[7]⟩) refusedDial))) = .ok o ∧
      ForgetsPeer cleaningCfg ⟨[7]⟩ o.state := by
  obtain ⟨s, effects, hrun, hpending, hendpoints⟩ := runLoop_knownTurns
  have hhears : s.hears (cleaningTurn (.swarm (.outgoingConnectionError (some ⟨[7]⟩) refusedDial))) =
      some (.outgoingConnectionError (some ⟨[7]⟩) refusedDial) := by
    simp [LoopState.hears, LoopState.wakes, hpending, cleaningTurn]
  obtain ⟨o, hiter, hiff⟩ := forgetsPeer_iff cleaningCfg s _ ⟨[7]⟩ refusedDial hhears (by decide)
  rw [hendpoints] at hiff
  refine ⟨s, effects, o, hrun, ?_, ?_, ?_, hiter, hiff.mpr ⟨?_, ?_⟩⟩
  · rw [hendpoints]
    decide
  · rw [hendpoints]
    decide
  · rw [hendpoints]
    decide
  · intro addr errorMsg hlast
    by_cases haddr : deadAddress = addr
    · obtain rfl : "ConnectionRefused" = errorMsg := by
        simpa [refusedDial, DialError.transportErrors, lastInner, innerAt, haddr] using hlast
      decide
    · exact absurd hlast (by
        simp [refusedDial, DialError.transportErrors, lastInner, innerAt, haddr])
  · -- the address that was noted is refused now
    intro addr hnone
    have haddr : deadAddress ≠ addr := by
      rintro rfl
      exact absurd hnone (by decide)
    exact (handleTransportErrors_failing ⟨[7]⟩ timedOut _ addr).1
      (by simp [timedOut, lastInner, innerAt, haddr])

/-- **A peer that timed out and was then found to be somebody else**: its connection is
still to be tried again, and the next retry callback dials it. -/
theorem not_forgetsPeer_wrongPeerId :
    ∃ s effects o o',
      runLoop cleaningCfg (LoopState.initial 0)
        [cleaningTurn (.swarm (.outgoingConnectionError (some ⟨[7]⟩)
          (.transport [(deadAddress, .other (some "Timeout"))])))] = .ok ⟨s, effects, false⟩ ∧
      iteration cleaningCfg s
        (cleaningTurn (.swarm (.outgoingConnectionError (some ⟨[7]⟩) .wrongPeerId))) = .ok o ∧
      shouldCleanPeer .wrongPeerId = true ∧ ¬ ForgetsPeer cleaningCfg ⟨[7]⟩ o.state ∧
      iteration cleaningCfg o.state
        (cleaningTurn (.retryCallback ⟨⟨[7]⟩, deadAddress⟩)) = .ok o' ∧
      dialsOf (swarmCalls o'.effects) = [deadAddress] := by
  refine ⟨_, _, _, _, rfl, rfl, rfl, ?_, rfl, rfl⟩
  intro hforgets
  have hnone := hforgets.failing ⟨⟨[7]⟩, deadAddress⟩ rfl
  revert hnone
  decide

end P2pClipboard
