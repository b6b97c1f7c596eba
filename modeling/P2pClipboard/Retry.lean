import P2pClipboard.Connections
import P2pClipboard.Lib.Runs

/-!
# Retrying failed connections

The loop of `run` and `retry_waiting_thread` in `src/network.rs`, together.  A connection
that failed is noted in `failing_connections`, and its task is queued for the waiting
thread.  The thread lets a delay pass that grows with the number of retries, and calls the
loop back.  The loop then waits for the network, gives up, notices that the peer is
connected, or dials once more; after a dial nothing is queued, and whether the retries go
on depends on the event the dial ends in.

Tasks, timers and callbacks may be taken in any order, in particular in the order of the
channels.  The dials in progress are kept beside the queues: libp2p may refuse a dial, in
which case no event follows, or ends it by one event.

## Main definitions

* `retryDelay` — the delay of a task.
* `RetrySystem`, `RetryAction`, `RetrySystem.step` — the loop and the waiting thread.
* `recount` — for the record, the retries of each connection since it was noted.
* `RetrySystem.Bounded` — the retries are counted, and few.
* `RetrySystem.Covers` — something is under way for a connection.
* `SettledBy`, `RetryAction.Settles` — the events that end a dial properly.

## Main results

* `handleEndpointEvent_op` — an event notes one failure, or none.
* `retries_bounded` — **no connection is retried more than four times.**
* `retries_covered` — **no retry is dropped, as long as every dial ends properly.**
-/

namespace P2pClipboard

/-! ### The waiting thread -/

/-- The delay of a task in seconds: `checked_pow(2).unwrap_or(0) + 1`, in 64 bits. -/
def retryDelay (build : Build) (retryCount : ℕ) : Except Panic ℕ :=
  let seconds := (if retryCount ^ 2 < 2 ^ 64 then some (retryCount ^ 2) else none).getD 0
  if seconds + 1 < 2 ^ 64 then .ok (seconds + 1)
  else if build.overflowChecks then .error .arithmeticOverflow
  else .ok ((seconds + 1) % 2 ^ 64)

/-- Few retries give short delays, without overflow. -/
theorem retryDelay_eq {build : Build} {n : ℕ} (h : n ≤ 4) :
    retryDelay build n = .ok (n ^ 2 + 1) := by
  have hsq : n ^ 2 ≤ 4 ^ 2 := Nat.pow_le_pow_left h 2
  have hpow : n ^ 2 < 2 ^ 64 := by omega
  have hsucc : n ^ 2 + 1 < 2 ^ 64 := by omega
  simp only [retryDelay, if_pos hpow, Option.getD_some, if_pos hsucc]

/-! ### Tasks and dials among the calls -/

/-- The tasks queued for the waiting thread. -/
def retriesOf (calls : List Call) : List ConnectionRetryTask :=
  calls.filterMap fun
    | .retry task => some task
    | _ => none

/-- The addresses dialled. -/
def dialsOf (calls : List Call) : List Multiaddr :=
  calls.filterMap fun
    | .dial address => some address
    | _ => none

theorem retriesOf_append (l₁ l₂ : List Call) :
    retriesOf (l₁ ++ l₂) = retriesOf l₁ ++ retriesOf l₂ := List.filterMap_append

/-- A list of calls of one kind, none of which queues a task. -/
theorem retriesOf_map {α : Type*} (f : α → Call) (l : List α) (hf : ∀ a t, f a ≠ .retry t) :
    retriesOf (l.map f) = [] := by
  rw [retriesOf, List.filterMap_map, List.filterMap_eq_nil_iff]
  intro a _
  cases h : f a with
  | retry t => exact absurd h (hf a t)
  | _ => simp [h]

/-! ### What an event does to the failing connections -/

/-- **What one event, or one failed address, does to the failing connections**: it notes
one and queues its task, or it queues nothing and may drop some. -/
inductive FailureOp (e e' : Endpoints) (calls : List Call) : Prop
  | note (target : PeerEndpointCache)
      (hmap : e'.failingConnections = Function.update e.failingConnections target
        (some ((e.failingConnections target).getD ⟨target, 0⟩)))
      (hcalls : retriesOf calls = [(e.failingConnections target).getD ⟨target, 0⟩])
  | keep
      (hmap : ∀ k task, e'.failingConnections k = some task → e.failingConnections k = some task)
      (hcalls : retriesOf calls = [])

theorem failureOp_noteFailure (e : Endpoints) (target : PeerEndpointCache) :
    FailureOp e (e.noteFailure target).1 (e.noteFailure target).2 := .note target rfl rfl

theorem failureOp_refl (e : Endpoints) : FailureOp e e [] := .keep (fun _ _ h => h) rfl

theorem failingConnections_dropFailure {e : Endpoints} {target k : PeerEndpointCache}
    {task : ConnectionRetryTask} (h : (e.dropFailure target).failingConnections k = some task) :
    k ≠ target ∧ e.failingConnections k = some task := by
  simp only [Endpoints.dropFailure] at h
  by_cases heq : k = target
  · subst heq
    rw [Function.update_self] at h
    exact absurd h (by simp)
  · rw [Function.update_of_ne heq] at h
    exact ⟨heq, h⟩

theorem handleTransportError_op (peerId : Option PeerId) (addr : Multiaddr) (err : TransportError)
    (e : Endpoints) :
    FailureOp e (handleTransportError peerId addr err e).1
      (handleTransportError peerId addr err e).2 := by
  unfold handleTransportError
  split
  · split
    · exact failureOp_noteFailure e _
    · refine .keep (fun k task hk => ?_) rfl
      exact (failingConnections_dropFailure hk).2
  · exact failureOp_refl e

theorem handleConnectionClosed_op (peerId : PeerId) (cause : Option ConnectionError)
    (endpoint : ConnectedPoint) (numEstablished : ℕ) (e : Endpoints) :
    FailureOp e (handleConnectionClosed peerId cause endpoint numEstablished e).1
      (handleConnectionClosed peerId cause endpoint numEstablished e).2 := by
  obtain ⟨dead, heq | heq⟩ := handleConnectionClosed_cases peerId cause endpoint numEstablished e
  · rw [heq]
    exact .keep (fun _ _ hk => hk) rfl
  · rw [heq]
    exact .note ⟨peerId, endpoint.remoteAddress⟩ rfl rfl

/-- The event of a dial that failed on every address. -/
def SwarmEvent.IsTransportError : SwarmEvent → Prop
  | .outgoingConnectionError _ (.transport _) => True
  | _ => False

/-- **An event notes one failure, or none**, unless it lists the failed addresses of a
dial. -/
theorem handleEndpointEvent_op {cfg : Config} {view : SwarmView} {e e' : Endpoints}
    {event : SwarmEvent} {calls : List Call} (hevent : ¬ event.IsTransportError)
    (h : handleEndpointEvent cfg view e event = .ok (e', calls)) : FailureOp e e' calls := by
  cases event with
  | gossipMessage data => cases h; exact failureOp_refl e
  | identifyReceived peerId listenAddrs =>
    obtain ⟨added, -, hret⟩ := bind_eq_ok h
    cases hret
    refine .keep (fun _ _ hk => hk) ?_
    rw [retriesOf_append, retriesOf_map _ _ (by simp), retriesOf_map _ _ (by simp)]
    rfl
  | newListenAddr address =>
    obtain ⟨nonLocal, -, hret⟩ := bind_eq_ok h
    cases hret
    refine .keep (fun _ _ hk => hk) ?_
    cases cfg.bootNode with
    | none => rfl
    | some bootNode => simp [retriesOf]
  | expiredListenAddr address =>
    obtain ⟨addrs, push, ⟨rfl, rfl⟩ | ⟨bootNode, rfl, rfl⟩⟩ := handleExpiredListenAddr_cases h
    · exact .keep (fun _ _ hk => hk) rfl
    · exact .note bootNode rfl rfl
  | connectionEstablished peerId endpoint =>
    cases h
    exact .keep (fun _ _ hk => (Option.filter_eq_some_iff.mp hk).1) rfl
  | connectionClosed peerId cause endpoint numEstablished =>
    obtain ⟨rfl, rfl⟩ := Prod.ext_iff.mp (Except.ok.inj h)
    exact handleConnectionClosed_op peerId cause endpoint numEstablished e
  | outgoingConnectionError peerId error =>
    have hout : handleOutgoingConnectionError peerId error e = (e', calls) := Except.ok.inj h
    cases error with
    | transport errors => exact absurd trivial hevent
    | _ =>
      cases peerId with
      | none => cases hout; exact failureOp_refl e
      | some deadPeer => cases hout; exact .keep (fun _ _ hk => hk) rfl
  | mdnsDiscovered list =>
    cases h
    exact .keep (fun _ _ hk => hk) (retriesOf_map _ _ (by simp))
  | mdnsExpired list =>
    cases h
    exact .keep (fun _ _ hk => hk) (retriesOf_map _ _ (by simp))
  | other => cases h; exact failureOp_refl e

/-- **What a retry callback can do**: nothing, wait for the network, stop, or dial. -/
theorem handleRetryCallback_cases {view : SwarmView} {k : PeerEndpointCache} {e e' : Endpoints}
    {calls : List Call} (h : handleRetryCallback view k e = .ok (e', calls)) :
    (e.failingConnections k = none ∧ e' = e ∧ calls = []) ∨
    ∃ task, e.failingConnections k = some task ∧
      ((e' = e ∧ calls = [.retry task]) ∨
        (e' = e.dropFailure k ∧ calls = []) ∨
        (task.retryCount ≤ 3 ∧ calls = [.dial task.target.address] ∧
          e' = { e with
            failingConnections := Function.update e.failingConnections k
              (some { task with retryCount := task.retryCount + 1 }) })) := by
  unfold handleRetryCallback at h
  split at h
  · case h_1 hnone =>
    cases h
    exact .inl ⟨hnone, rfl, rfl⟩
  · case h_2 task htask =>
    obtain ⟨networkOk, -, hret⟩ := bind_eq_ok h
    refine .inr ⟨task, htask, ?_⟩
    split_ifs at hret with hok hcount hconn
    · -- without a network the task is queued again, with the same count
      cases hret
      exact .inl ⟨rfl, rfl⟩
    · -- four retries were made
      cases hret
      exact .inr (.inl ⟨rfl, rfl⟩)
    · -- the peer is connected after all
      cases hret
      exact .inr (.inl ⟨rfl, rfl⟩)
    · cases hret
      exact .inr (.inr ⟨by omega, rfl, rfl⟩)

/-! ### The system -/

/-- A delay that passes before the loop is called back. -/
structure Timer where
  /-- The delay in seconds. -/
  delay : ℕ
  /-- The task it is for. -/
  task : ConnectionRetryTask
  deriving DecidableEq, Repr

/-- The loop, the waiting thread and the dials in progress. -/
structure RetrySystem where
  /-- The loop. -/
  loop : LoopState
  /-- The tasks queued for the waiting thread. -/
  retryQueue : List ConnectionRetryTask
  /-- The delays that have not passed. -/
  timers : List Timer
  /-- The callbacks queued for the loop. -/
  callbacks : List PeerEndpointCache
  /-- The addresses of the dials whose event has not been handled. -/
  inFlight : List Multiaddr
  /-- For the record only: the retries of each connection since it was noted. -/
  dials : PeerEndpointCache → ℕ

/-- The system when the loop is entered, with the dials in progress. -/
def RetrySystem.initial (start : ℕ) (inFlight : List Multiaddr) : RetrySystem :=
  ⟨LoopState.initial start, [], [], [], inFlight, fun _ => 0⟩

/-- A step of the system. -/
inductive RetryAction
  /-- One iteration of the loop; whether libp2p accepts each of its dials, and the dial that
  its event ends. -/
  | turn (turn : Turn) (accepted : ℕ → Bool) (ends : Option Multiaddr)
  /-- The waiting thread takes a task. -/
  | wait (task : ConnectionRetryTask)
  /-- A delay has passed. -/
  | fire (timer : Timer)

/-- The peer an address names. -/
def p2pPeer (address : Multiaddr) : Option PeerId :=
  match address.getLast? with
  | some (.p2p peer) => some peer
  | _ => none

/-- The events a dial can end in. -/
def endsIn (address : Multiaddr) : Option SwarmEvent → Bool
  | some (.connectionEstablished peerId _) => (p2pPeer address).all (· == peerId)
  | some (.outgoingConnectionError peerId _) => peerId == p2pPeer address
  | _ => false

/-- The dials that libp2p accepts. -/
def acceptedDials (accepted : ℕ → Bool) (addresses : List Multiaddr) : List Multiaddr :=
  (addresses.zipIdx.filter fun p => accepted p.2).map Prod.fst

/-- The record after a connection was noted or dropped: it starts anew for one that was
absent. -/
def recountBy (e e' : Endpoints) (dials : PeerEndpointCache → ℕ) : PeerEndpointCache → ℕ :=
  fun k => if e.failingConnections k = none ∧ e'.failingConnections k ≠ none then 0 else dials k

/-- The record after the failed addresses of a dial, one after the other. -/
def recountErrors (peerId : Option PeerId) :
    List (Multiaddr × TransportError) → Endpoints → (PeerEndpointCache → ℕ) → PeerEndpointCache → ℕ
  | [], _, dials => dials
  | err :: errors, e, dials =>
      let e' := (handleTransportError peerId err.1 err.2 e).1
      recountErrors peerId errors e' (recountBy e e' dials)

/-- The record after an iteration: a retry is a dial of the callback branch. -/
def recount (e e' : Endpoints) (calls : List Call) (dials : PeerEndpointCache → ℕ) :
    Option Wakeup → PeerEndpointCache → ℕ
  | some (.swarm (.outgoingConnectionError peerId (.transport errors))) =>
      recountErrors peerId errors e dials
  | some (.swarm _) => recountBy e e' dials
  | some (.retryCallback k) =>
      if dialsOf calls ≠ [] then Function.update dials k (dials k + 1) else dials
  | _ => dials

/-- The callbacks left after an iteration, or `none` if it handles one that is not there. -/
def takeCallback (callbacks : List PeerEndpointCache) :
    Option Wakeup → Option (List PeerEndpointCache)
  | some (.retryCallback k) => if k ∈ callbacks then some (callbacks.erase k) else none
  | _ => some callbacks

/-- The dials left after an event, or `none` if it ends one that is not there. -/
def endDial (inFlight : List Multiaddr) (event : Option SwarmEvent) :
    Option Multiaddr → Option (List Multiaddr)
  | some address =>
      if endsIn address event && inFlight.contains address then some (inFlight.erase address)
      else none
  | none => some inFlight

/-- One step.  There is no next state if it is not possible, or if the loop ends. -/
def RetrySystem.step (cfg : Config) (r : RetrySystem) : RetryAction → Option RetrySystem
  | .turn turn accepted ends =>
      (takeCallback r.callbacks (r.loop.wakes turn)).bind fun callbacks =>
        (endDial r.inFlight (r.loop.hears turn) ends).bind fun inFlight =>
          match iteration cfg r.loop turn with
          | .error _ => none
          | .ok o =>
              if o.returned then none
              else
                let calls := swarmCalls o.effects
                some { r with
                  loop := o.state
                  retryQueue := r.retryQueue ++ retriesOf calls
                  callbacks := callbacks
                  inFlight := inFlight ++ acceptedDials accepted (dialsOf calls)
                  dials := recount r.loop.endpoints o.state.endpoints calls r.dials
                    (r.loop.wakes turn) }
  | .wait task =>
      if task ∈ r.retryQueue then
        match retryDelay cfg.build task.retryCount with
        | .error _ => none
        | .ok delay =>
            some { r with
              retryQueue := r.retryQueue.erase task
              timers := r.timers ++ [⟨delay, task⟩] }
      else none
  | .fire timer =>
      if timer ∈ r.timers then
        some { r with
          timers := r.timers.erase timer
          callbacks := r.callbacks ++ [timer.task.target] }
      else none

/-- **What a step can do.** -/
theorem RetrySystem.step_cases {cfg : Config} {r r' : RetrySystem} {a : RetryAction}
    (h : r.step cfg a = some r') :
    (∃ turn accepted ends callbacks inFlight o, a = .turn turn accepted ends ∧
      takeCallback r.callbacks (r.loop.wakes turn) = some callbacks ∧
      endDial r.inFlight (r.loop.hears turn) ends = some inFlight ∧
      iteration cfg r.loop turn = .ok o ∧ o.returned = false ∧
      r' = { r with
        loop := o.state
        retryQueue := r.retryQueue ++ retriesOf (swarmCalls o.effects)
        callbacks := callbacks
        inFlight := inFlight ++ acceptedDials accepted (dialsOf (swarmCalls o.effects))
        dials := recount r.loop.endpoints o.state.endpoints (swarmCalls o.effects) r.dials
          (r.loop.wakes turn) }) ∨
    (∃ task delay, a = .wait task ∧ task ∈ r.retryQueue ∧
      retryDelay cfg.build task.retryCount = .ok delay ∧
      r' = { r with
        retryQueue := r.retryQueue.erase task
        timers := r.timers ++ [⟨delay, task⟩] }) ∨
    (∃ timer, a = .fire timer ∧ timer ∈ r.timers ∧
      r' = { r with
        timers := r.timers.erase timer
        callbacks := r.callbacks ++ [timer.task.target] }) := by
  cases a with
  | turn turn accepted ends =>
    obtain ⟨callbacks, hcall, h⟩ := Option.bind_eq_some_iff.mp h
    obtain ⟨inFlight, hends, h⟩ := Option.bind_eq_some_iff.mp h
    cases hiter : iteration cfg r.loop turn with
    | error p => exact absurd h (by simp [hiter])
    | ok o =>
      simp only [hiter] at h
      by_cases hret : o.returned = true
      · exact absurd h (by simp [hret])
      · rw [if_neg hret] at h
        exact .inl ⟨turn, accepted, ends, callbacks, inFlight, o, rfl, hcall, hends, hiter,
          by simpa using hret, (Option.some.inj h).symm⟩
  | wait task =>
    simp only [RetrySystem.step] at h
    split at h
    · rename_i hmem
      cases hdelay : retryDelay cfg.build task.retryCount with
      | error p => exact absurd h (by simp [hdelay])
      | ok delay =>
        simp only [hdelay] at h
        exact .inr (.inl ⟨task, delay, rfl, hmem, hdelay, (Option.some.inj h).symm⟩)
    · exact absurd h (by simp)
  | fire timer =>
    simp only [RetrySystem.step] at h
    split at h
    · rename_i hmem
      exact .inr (.inr ⟨timer, rfl, hmem, (Option.some.inj h).symm⟩)
    · exact absurd h (by simp)

/-! ### Few retries -/

/-- Every failing connection is noted under itself, with the number of its retries, which
is at most four. -/
def Counted (e : Endpoints) (dials : PeerEndpointCache → ℕ) : Prop :=
  ∀ k task, e.failingConnections k = some task →
    task.target = k ∧ task.retryCount ≤ 4 ∧ task.retryCount = dials k

section Op

variable {e e' : Endpoints} {calls : List Call} {dials : PeerEndpointCache → ℕ}

/-- A connection that was there keeps its record. -/
theorem recountBy_of_some {k : PeerEndpointCache} {task : ConnectionRetryTask}
    (h : e.failingConnections k = some task) : recountBy e e' dials k = dials k := by
  rw [recountBy, if_neg]
  rintro ⟨hnone, -⟩
  exact absurd (h.symm.trans hnone) (by simp)

theorem FailureOp.counted (hop : FailureOp e e' calls) (h : Counted e dials) :
    Counted e' (recountBy e e' dials) := by
  intro k task hk
  cases hop with
  | keep hmap hcalls =>
    have hold := hmap k task hk
    rw [recountBy_of_some hold]
    exact h k task hold
  | note target hmap hcalls =>
    by_cases heq : k = target
    · subst heq
      rw [hmap, Function.update_self] at hk
      obtain rfl := Option.some.inj hk
      cases hold : e.failingConnections k with
      | none =>
        -- noted while absent: both counts start at zero
        have hfresh : recountBy e e' dials k = 0 := by
          rw [recountBy, if_pos ⟨hold, by simp [hmap]⟩]
        exact ⟨rfl, Nat.zero_le 4, hfresh.symm⟩
      | some old =>
        -- noted again: the task that is there stays, with its count
        rw [recountBy_of_some hold]
        exact h k old hold
    · rw [hmap, Function.update_of_ne heq] at hk
      rw [recountBy_of_some hk]
      exact h k task hk

/-- The tasks it queues have few retries. -/
theorem FailureOp.retries (hop : FailureOp e e' calls) (h : Counted e dials) :
    ∀ task ∈ retriesOf calls, task.retryCount ≤ 4 := by
  intro task htask
  cases hop with
  | keep hmap hcalls => exact absurd htask (by simp [hcalls])
  | note target hmap hcalls =>
    rw [hcalls] at htask
    obtain rfl := List.mem_singleton.mp htask
    cases hold : e.failingConnections target with
    | none => exact Nat.zero_le 4
    | some old => exact (h target old hold).2.1

/-- A connection it adds is queued. -/
theorem FailureOp.added (hop : FailureOp e e' calls) {k : PeerEndpointCache}
    (hk : e'.failingConnections k ≠ none) :
    e.failingConnections k ≠ none ∨ ∃ task ∈ retriesOf calls, task.target = k := by
  cases hop with
  | keep hmap hcalls =>
    obtain ⟨task, htask⟩ := Option.ne_none_iff_exists'.mp hk
    exact .inl (by simp [hmap k task htask])
  | note target hmap hcalls =>
    by_cases heq : k = target
    · subst heq
      cases hold : e.failingConnections k with
      | none => exact .inr ⟨⟨k, 0⟩, by simp [hcalls, hold], rfl⟩
      | some old => exact .inl (by simp)
    · rw [hmap, Function.update_of_ne heq] at hk
      exact .inl hk

/-- The failed addresses of a dial, counted. -/
theorem handleTransportErrors_counted (peerId : Option PeerId)
    (errors : List (Multiaddr × TransportError)) (h : Counted e dials) :
    Counted (handleTransportErrors peerId errors e).1 (recountErrors peerId errors e dials) ∧
      ∀ task ∈ retriesOf (handleTransportErrors peerId errors e).2, task.retryCount ≤ 4 := by
  induction errors generalizing e dials with
  | nil => exact ⟨h, by simp [handleTransportErrors, retriesOf]⟩
  | cons err errors ih =>
    have hop := handleTransportError_op peerId err.1 err.2 e
    obtain ⟨hrest, htasks⟩ := ih (hop.counted h)
    rw [handleTransportErrors_cons]
    refine ⟨hrest, ?_⟩
    intro task htask
    rw [retriesOf_append] at htask
    rcases List.mem_append.mp htask with hfirst | hlater
    · exact hop.retries h task hfirst
    · exact htasks task hlater

theorem recount_swarm {event : SwarmEvent} (hevent : ¬ event.IsTransportError) :
    recount e e' calls dials (some (.swarm event)) = recountBy e e' dials := by
  cases event with
  | outgoingConnectionError peerId error =>
    cases error with
    | transport errors => exact absurd trivial hevent
    | _ => rfl
  | _ => rfl

/-- The parts of a dial's failure that concern the failing connections. -/
theorem handleOutgoingConnectionError_transport (peerId : Option PeerId)
    (errors : List (Multiaddr × TransportError)) (e : Endpoints) :
    (handleOutgoingConnectionError peerId (.transport errors) e).1.failingConnections =
        (handleTransportErrors peerId errors e).1.failingConnections ∧
      retriesOf (handleOutgoingConnectionError peerId (.transport errors) e).2 =
        retriesOf (handleTransportErrors peerId errors e).2 := by
  simp only [handleOutgoingConnectionError]
  cases peerId with
  | none => exact ⟨rfl, rfl⟩
  | some deadPeer =>
    simp only
    split
    · refine ⟨rfl, ?_⟩
      rw [retriesOf_append]
      exact List.append_nil _
    · exact ⟨rfl, rfl⟩

/-- So the event that lists the failed addresses of a dial does to the failing
connections what they do. -/
theorem handleEndpointEvent_transport {cfg : Config} {view : SwarmView} {event : SwarmEvent}
    (hevent : event.IsTransportError)
    (hev : handleEndpointEvent cfg view e event = .ok (e', calls)) :
    ∃ peerId errors, event = .outgoingConnectionError peerId (.transport errors) ∧
      e'.failingConnections = (handleTransportErrors peerId errors e).1.failingConnections ∧
      retriesOf calls = retriesOf (handleTransportErrors peerId errors e).2 := by
  cases event with
  | outgoingConnectionError peerId error =>
    cases error with
    | transport errors =>
      obtain ⟨rfl, rfl⟩ := Prod.ext_iff.mp (Except.ok.inj hev)
      exact ⟨peerId, errors, rfl, handleOutgoingConnectionError_transport peerId errors e⟩
    | _ => exact absurd hevent id
  | _ => exact absurd hevent id

/-- **Every event keeps the record.** -/
theorem handleEndpointEvent_counted {cfg : Config} {view : SwarmView} {event : SwarmEvent}
    (h : Counted e dials) (hev : handleEndpointEvent cfg view e event = .ok (e', calls)) :
    Counted e' (recount e e' calls dials (some (.swarm event))) ∧
      ∀ task ∈ retriesOf calls, task.retryCount ≤ 4 := by
  by_cases hevent : event.IsTransportError
  · obtain ⟨peerId, errors, rfl, hmap, hcalls⟩ := handleEndpointEvent_transport hevent hev
    obtain ⟨hcounted, htasks⟩ := handleTransportErrors_counted peerId errors h
    refine ⟨?_, by rw [hcalls]; exact htasks⟩
    intro k task hk
    rw [hmap] at hk
    exact hcounted k task hk
  · have hop := handleEndpointEvent_op hevent hev
    rw [recount_swarm hevent]
    exact ⟨hop.counted h, hop.retries h⟩

/-- **A retry callback keeps the record**: it dials only what was retried at most three
times. -/
theorem handleRetryCallback_counted {view : SwarmView} {target : PeerEndpointCache}
    (h : Counted e dials) (hcall : handleRetryCallback view target e = .ok (e', calls)) :
    Counted e' (recount e e' calls dials (some (.retryCallback target))) ∧
      ∀ task ∈ retriesOf calls, task.retryCount ≤ 4 := by
  rcases handleRetryCallback_cases hcall with ⟨-, rfl, rfl⟩ |
      ⟨task, htask, ⟨rfl, rfl⟩ | ⟨rfl, rfl⟩ | ⟨hcount, rfl, rfl⟩⟩
  · exact ⟨h, by simp [retriesOf]⟩
  · refine ⟨h, ?_⟩
    intro task' htask'
    obtain rfl : task' = task := by simpa [retriesOf] using htask'
    exact (h target task' htask).2.1
  · refine ⟨?_, by simp [retriesOf]⟩
    intro k old hk
    exact h k old (failingConnections_dropFailure hk).2
  · have hdialled : dialsOf [.dial task.target.address] ≠ [] := by simp [dialsOf]
    refine ⟨?_, by simp [retriesOf]⟩
    intro k tried hk
    simp only [recount, if_pos hdialled] at hk ⊢
    by_cases heq : k = target
    · subst heq
      obtain ⟨htarget, -, hdials⟩ := h k task htask
      rw [Function.update_self] at hk ⊢
      obtain rfl := Option.some.inj hk
      exact ⟨htarget, Nat.succ_le_succ hcount, congrArg (· + 1) hdials⟩
    · rw [Function.update_of_ne heq] at hk ⊢
      exact h k tried hk

/-- **Whatever an iteration handles, it keeps the record.** -/
theorem handleEndpoints_counted {cfg : Config} {view : SwarmView} {wakeup : Option Wakeup}
    (h : Counted e dials) (hstep : handleEndpoints cfg view e wakeup = .ok (e', calls)) :
    Counted e' (recount e e' calls dials wakeup) ∧
      ∀ task ∈ retriesOf calls, task.retryCount ≤ 4 := by
  cases wakeup with
  | none => cases hstep; exact ⟨h, by simp [retriesOf]⟩
  | some wakeup =>
    cases wakeup with
    | received message uuid => cases hstep; exact ⟨h, by simp [retriesOf]⟩
    | swarm event => exact handleEndpointEvent_counted h hstep
    | retryCallback target => exact handleRetryCallback_counted h hstep
    | idle =>
      cases hstep
      refine ⟨h, ?_⟩
      have hnone : retriesOf (handleIdle cfg view) = [] := by
        unfold handleIdle
        rw [retriesOf_append, retriesOf_append, retriesOf_map _ _ (by simp)]
        cases cfg.bootNode with
        | none => rfl
        | some boot => simp [retriesOf]
      simp [hnone]

end Op

/-- **The retries are counted, and few**; so are those of the tasks under way, and the
delays are as computed. -/
structure RetrySystem.Bounded (r : RetrySystem) : Prop where
  /-- The failing connections. -/
  counted : Counted r.loop.endpoints r.dials
  /-- The tasks queued. -/
  queued : ∀ task ∈ r.retryQueue, task.retryCount ≤ 4
  /-- The delays that have not passed. -/
  timers : ∀ timer ∈ r.timers,
    timer.task.retryCount ≤ 4 ∧ timer.delay = timer.task.retryCount ^ 2 + 1

/-- One step keeps the retries few. -/
theorem RetrySystem.Bounded.step {cfg : Config} {r r' : RetrySystem} {a : RetryAction}
    (h : r.Bounded) (hstep : r.step cfg a = some r') : r'.Bounded := by
  rcases RetrySystem.step_cases hstep with
    ⟨turn, accepted, ends, callbacks, inFlight, o, rfl, -, -, hiter, -, rfl⟩ |
    ⟨task, delay, rfl, htask, hdelay, rfl⟩ | ⟨timer, rfl, -, rfl⟩
  · obtain ⟨hcounted, htasks⟩ := handleEndpoints_counted h.counted (iteration_endpoints hiter)
    refine ⟨hcounted, ?_, h.timers⟩
    intro task htask
    rcases List.mem_append.mp htask with hold | hnew
    · exact h.queued task hold
    · exact htasks task hnew
  · have hfew := h.queued task htask
    refine ⟨h.counted, fun t ht => h.queued t (List.mem_of_mem_erase ht), ?_⟩
    intro timer htimer
    rcases List.mem_append.mp htimer with hold | hnew
    · exact h.timers timer hold
    · obtain rfl := List.mem_singleton.mp hnew
      exact ⟨hfew, Except.ok.inj (hdelay.symm.trans (retryDelay_eq hfew))⟩
  · exact ⟨h.counted, h.queued, fun t ht => h.timers t (List.mem_of_mem_erase ht)⟩

theorem RetrySystem.Bounded.initial (start : ℕ) (inFlight : List Multiaddr) :
    (RetrySystem.initial start inFlight).Bounded where
  counted k task hk := absurd hk (by simp [RetrySystem.initial, LoopState.initial])
  queued task htask := absurd htask List.not_mem_nil
  timers timer htimer := absurd htimer List.not_mem_nil

/-- Any steps keep the retries few. -/
theorem RetrySystem.Bounded.run {cfg : Config} {r r' : RetrySystem} {actions : List RetryAction}
    (h : r.Bounded) (hrun : Runs.run (RetrySystem.step cfg) r actions = some r') : r'.Bounded := by
  have halong : Runs.Along (RetrySystem.step cfg) (fun _ _ => True) r actions :=
    Runs.along_of_forall fun _ _ _ => trivial
  exact Runs.run_invariant (fun _ _ _ hb _ hstep => hb.step hstep) h halong hrun

/-- **Bounded retries.**  After any steps of the loop and the waiting thread, every failing
connection is noted under itself, with the number of retries since it was noted while absent,
and these are at most four; a callback for a connection that is not noted does nothing; and
the delay of every task under way is computed without overflow, and is one second more than
the square of its number of retries. -/
theorem retries_bounded (cfg : Config) (start : ℕ) (inFlight : List Multiaddr)
    (actions : List RetryAction) {r : RetrySystem}
    (h : Runs.run (RetrySystem.step cfg) (RetrySystem.initial start inFlight) actions = some r) :
    (∀ k task, r.loop.endpoints.failingConnections k = some task →
      task.target = k ∧ task.retryCount ≤ 4 ∧ task.retryCount = r.dials k ∧ r.dials k ≤ 4) ∧
    (∀ k turn o, r.loop.endpoints.failingConnections k = none →
      r.loop.wakes turn = some (.retryCallback k) → iteration cfg r.loop turn = .ok o →
        o.state.endpoints = r.loop.endpoints ∧ swarmCalls o.effects = []) ∧
    (∀ task ∈ r.retryQueue, task.retryCount ≤ 4 ∧
      retryDelay cfg.build task.retryCount = .ok (task.retryCount ^ 2 + 1)) ∧
    ∀ timer ∈ r.timers, timer.task.retryCount ≤ 4 ∧
      timer.delay = timer.task.retryCount ^ 2 + 1 := by
  have hb : r.Bounded := (RetrySystem.Bounded.initial start inFlight).run h
  refine ⟨?_, ?_, ?_, hb.timers⟩
  · intro k task hk
    obtain ⟨htarget, hfew, hdials⟩ := hb.counted k task hk
    exact ⟨htarget, hfew, hdials, hdials ▸ hfew⟩
  · intro k turn o hnone hwake hiter
    have hstep := iteration_endpoints hiter
    rw [hwake] at hstep
    rcases handleRetryCallback_cases hstep with ⟨-, he, hcalls⟩ | ⟨task, htask, -⟩
    · exact ⟨he, hcalls⟩
    · exact absurd (htask.symm.trans hnone) (by simp)
  · intro task htask
    exact ⟨hb.queued task htask, retryDelay_eq (hb.queued task htask)⟩

/-- A boot node at an address that does not name it. -/
private def bootNode : PeerEndpointCache := ⟨⟨[9]⟩, [.ip4 1 2 3 4, .tcp 4001]⟩

private def bootCfg : Config := ⟨.checked, default, ⟨[4]⟩, some bootNode⟩

/-- An iteration without delay, while nobody is connected. -/
private def lonelyTurn (wakeup : Wakeup) : Turn := ⟨1, 1, 1, 1, {}, wakeup⟩

/-- One of two listen addresses expires, the boot node is noted, waited for and dialled. -/
private def bootActions (accepted : ℕ → Bool) : List RetryAction :=
  [.turn (lonelyTurn (.swarm (.newListenAddr [.ip4 10 0 0 5, .tcp 5]))) accepted none,
    .turn (lonelyTurn (.swarm (.newListenAddr [.ip4 10 0 0 6, .tcp 5]))) accepted none,
    .turn (lonelyTurn (.swarm (.expiredListenAddr [.ip4 10 0 0 6, .tcp 5]))) accepted none,
    .wait ⟨bootNode, 0⟩,
    .fire ⟨1, ⟨bootNode, 0⟩⟩,
    .turn (lonelyTurn (.retryCallback bootNode)) (fun _ => true) none]

/-- The boot node was retried once. -/
theorem retries_bounded_boot :
    ∃ r, Runs.run (RetrySystem.step bootCfg) (RetrySystem.initial 1 [])
        (bootActions fun _ => true) = some r ∧
      r.loop.endpoints.failingConnections bootNode = some ⟨bootNode, 1⟩ ∧
      r.dials bootNode = 1 ∧ r.dials bootNode ≤ 4 := by
  refine ⟨_, rfl, rfl, rfl, ?_⟩
  exact ((retries_bounded bootCfg 1 [] (bootActions fun _ => true) rfl).1 bootNode _ rfl).2.2.2

/-! ### Retries that go on -/

/-- Something is under way for a connection: its task is queued or waits, its callback is
queued, or its address is being dialled. -/
def RetrySystem.Covers (r : RetrySystem) (k : PeerEndpointCache) : Prop :=
  (∃ task ∈ r.retryQueue, task.target = k) ∨ (∃ timer ∈ r.timers, timer.task.target = k) ∨
    k ∈ r.callbacks ∨ k.address ∈ r.inFlight

/-- The events after which a connection is dropped or queued again: the peer is connected,
or the failure names the peer and gives a cause for the address. -/
def SettledBy (k : PeerEndpointCache) : SwarmEvent → Prop
  | .connectionEstablished peerId _ => peerId = k.peerId
  | .outgoingConnectionError peerId (.transport errors) =>
      peerId = some k.peerId ∧ ∃ errorMsg, (k.address, .other (some errorMsg)) ∈ errors
  | _ => False

/-- A step ends dials properly: the dial of a callback is accepted, and the event that ends
a dial settles every failing connection at its address, unless something else is under way
for it. -/
def RetryAction.Settles (r : RetrySystem) : RetryAction → Prop
  | .turn t accepted ends =>
      (∀ k, r.loop.wakes t = some (.retryCallback k) →
        accepted 0 = true ∨ { r with callbacks := r.callbacks.erase k }.Covers k) ∧
      ∀ event address, r.loop.hears t = some event → ends = some address →
        ∀ k, r.loop.endpoints.failingConnections k ≠ none → k.address = address →
          SettledBy k event ∨ { r with inFlight := r.inFlight.erase address }.Covers k
  | _ => True

section Covered

variable {e e' : Endpoints} {calls : List Call} {dials : PeerEndpointCache → ℕ}

/-- A connection that the failed addresses of a dial add is queued. -/
theorem handleTransportErrors_added {peerId : Option PeerId}
    {errors : List (Multiaddr × TransportError)} {k : PeerEndpointCache}
    (hk : (handleTransportErrors peerId errors e).1.failingConnections k ≠ none) :
    e.failingConnections k ≠ none ∨
      ∃ task ∈ retriesOf (handleTransportErrors peerId errors e).2, task.target = k := by
  induction errors generalizing e with
  | nil => exact .inl hk
  | cons err errors ih =>
    rw [handleTransportErrors_cons] at hk ⊢
    rw [retriesOf_append]
    rcases ih hk with hold | ⟨task, htask, htarget⟩
    · rcases (handleTransportError_op peerId err.1 err.2 e).added hold with hold | ⟨task, htask, ht⟩
      · exact .inl hold
      · exact .inr ⟨task, List.mem_append_left _ htask, ht⟩
    · exact .inr ⟨task, List.mem_append_right _ htask, htarget⟩

/-- **A connection that an event adds is queued.** -/
theorem handleEndpointEvent_added {cfg : Config} {view : SwarmView} {event : SwarmEvent}
    {k : PeerEndpointCache} (hev : handleEndpointEvent cfg view e event = .ok (e', calls))
    (hk : e'.failingConnections k ≠ none) :
    e.failingConnections k ≠ none ∨ ∃ task ∈ retriesOf calls, task.target = k := by
  by_cases hevent : event.IsTransportError
  · obtain ⟨peerId, errors, rfl, hmap, hcalls⟩ := handleEndpointEvent_transport hevent hev
    rw [hmap] at hk
    rw [hcalls]
    exact handleTransportErrors_added hk
  · exact (handleEndpointEvent_op hevent hev).added hk

/-- One address that failed for a cause: its connection is queued again, or dropped. -/
theorem handleTransportError_settles {k : PeerEndpointCache} {errorMsg : String}
    (h : Counted e dials) :
    (handleTransportError (some k.peerId) k.address (.other (some errorMsg)) e).1.failingConnections
        k = none ∨
      ∃ task ∈ retriesOf
          (handleTransportError (some k.peerId) k.address (.other (some errorMsg)) e).2,
        task.target = k := by
  by_cases hhold : shouldHoldAndRetry errorMsg = true
  · simp only [handleTransportError, hhold, if_true]
    refine .inr ⟨(e.failingConnections k).getD ⟨k, 0⟩, List.mem_singleton.mpr rfl, ?_⟩
    cases hold : e.failingConnections k with
    | none => rfl
    | some task => exact (h k task hold).1
  · simp only [handleTransportError, hhold, Bool.false_eq_true, if_false]
    exact .inl (Function.update_self ..)

/-- The addresses of a dial, one of which failed for a cause. -/
theorem handleTransportErrors_settles {k : PeerEndpointCache} {errorMsg : String}
    {errors : List (Multiaddr × TransportError)} (h : Counted e dials)
    (hmem : (k.address, .other (some errorMsg)) ∈ errors) :
    (handleTransportErrors (some k.peerId) errors e).1.failingConnections k = none ∨
      ∃ task ∈ retriesOf (handleTransportErrors (some k.peerId) errors e).2, task.target = k := by
  induction errors generalizing e dials with
  | nil => exact absurd hmem List.not_mem_nil
  | cons err errors ih =>
    rw [handleTransportErrors_cons, retriesOf_append]
    rcases List.mem_cons.mp hmem with rfl | hmem
    · rcases handleTransportError_settles h with hnone | ⟨task, htask, htarget⟩
      · -- dropped now; if a later address adds it again, it is queued
        by_cases hk : (handleTransportErrors (some k.peerId) errors (handleTransportError
            (some k.peerId) k.address (.other (some errorMsg)) e).1).1.failingConnections k = none
        · exact .inl hk
        · rcases handleTransportErrors_added hk with hsome | ⟨task, htask, htarget⟩
          · exact absurd hnone hsome
          · exact .inr ⟨task, List.mem_append_right _ htask, htarget⟩
      · exact .inr ⟨task, List.mem_append_left _ htask, htarget⟩
    · have hop := handleTransportError_op (some k.peerId) err.1 err.2 e
      rcases ih (hop.counted h) hmem with hnone | ⟨task, htask, htarget⟩
      · exact .inl hnone
      · exact .inr ⟨task, List.mem_append_right _ htask, htarget⟩

/-- **An event that settles a connection drops it or queues it again.** -/
theorem handleEndpointEvent_settles {cfg : Config} {view : SwarmView} {event : SwarmEvent}
    {k : PeerEndpointCache} (h : Counted e dials)
    (hev : handleEndpointEvent cfg view e event = .ok (e', calls)) (hsettled : SettledBy k event) :
    e'.failingConnections k = none ∨ ∃ task ∈ retriesOf calls, task.target = k := by
  cases event with
  | connectionEstablished peerId endpoint =>
    obtain rfl : peerId = k.peerId := hsettled
    cases hev
    refine .inl ?_
    simp only [handleConnectionEstablished]
    rw [Option.filter_eq_none_iff]
    simp
  | outgoingConnectionError peerId error =>
    cases error with
    | transport errors =>
      obtain ⟨rfl, errorMsg, hmem⟩ := hsettled
      obtain ⟨rfl, rfl⟩ := Prod.ext_iff.mp (Except.ok.inj hev)
      obtain ⟨hmap, hcalls⟩ := handleOutgoingConnectionError_transport (some k.peerId) errors e
      rw [hmap, hcalls]
      exact handleTransportErrors_settles h hmem
    | _ => exact absurd hsettled id
  | _ => exact absurd hsettled id

end Covered

/-- **No retry is dropped**: something is under way for every failing connection. -/
def RetrySystem.Live (r : RetrySystem) : Prop :=
  ∀ k, r.loop.endpoints.failingConnections k ≠ none → r.Covers k

namespace RetrySystem

variable {cfg : Config} {r r' : RetrySystem} {k : PeerEndpointCache}

/-- More under way. -/
theorem Covers.mono (h : r.Covers k) (hqueue : ∀ task ∈ r.retryQueue, task ∈ r'.retryQueue)
    (htimers : ∀ timer ∈ r.timers, timer ∈ r'.timers)
    (hcalls : k ∈ r.callbacks → k ∈ r'.callbacks)
    (hdials : k.address ∈ r.inFlight → k.address ∈ r'.inFlight) : r'.Covers k := by
  rcases h with ⟨task, htask, htarget⟩ | ⟨timer, htimer, htarget⟩ | hcall | hdial
  · exact .inl ⟨task, hqueue task htask, htarget⟩
  · exact .inr (.inl ⟨timer, htimers timer htimer, htarget⟩)
  · exact .inr (.inr (.inl (hcalls hcall)))
  · exact .inr (.inr (.inr (hdials hdial)))

/-- Without an event no dial ends. -/
theorem endDial_none {inFlight inFlight' : List Multiaddr} {ends : Option Multiaddr}
    (h : endDial inFlight none ends = some inFlight') : inFlight' = inFlight := by
  cases ends with
  | none => exact (Option.some.inj h).symm
  | some address => exact absurd h (by simp [endDial, endsIn])

/-- The system after an iteration. -/
def afterTurn (r : RetrySystem) (o : Outcome) (callbacks : List PeerEndpointCache)
    (inFlight : List Multiaddr) (dials : PeerEndpointCache → ℕ) : RetrySystem :=
  { r with
    loop := o.state
    retryQueue := r.retryQueue ++ retriesOf (swarmCalls o.effects)
    callbacks := callbacks
    inFlight := inFlight
    dials := dials }

section Turn

variable {o : Outcome} {callbacks : List PeerEndpointCache} {inFlight : List Multiaddr}
  {dials : PeerEndpointCache → ℕ}

/-- A connection whose task was queued is covered. -/
theorem covers_afterTurn_of_retry
    (h : ∃ task ∈ retriesOf (swarmCalls o.effects), task.target = k) :
    (r.afterTurn o callbacks inFlight dials).Covers k := by
  obtain ⟨task, htask, htarget⟩ := h
  exact .inl ⟨task, List.mem_append_right _ htask, htarget⟩

/-- What is under way goes on, apart from the callback and the dial that end. -/
theorem Covers.afterTurn (h : r.Covers k) (hcalls : k ∈ r.callbacks → k ∈ callbacks)
    (hdials : k.address ∈ r.inFlight → k.address ∈ inFlight) :
    (r.afterTurn o callbacks inFlight dials).Covers k :=
  h.mono (fun _ htask => List.mem_append_left _ htask) (fun _ htimer => htimer) hcalls hdials

end Turn

/-- An iteration that handles a callback. -/
theorem live_callback {turn : Turn} {accepted : ℕ → Bool} {ends : Option Multiaddr}
    {o : Outcome} {target : PeerEndpointCache} {dials : PeerEndpointCache → ℕ} (hb : r.Bounded)
    (hl : r.Live) (hs : (RetryAction.turn turn accepted ends).Settles r)
    (hwake : r.loop.wakes turn = some (.retryCallback target))
    (hstep : handleRetryCallback turn.view target r.loop.endpoints =
      .ok (o.state.endpoints, swarmCalls o.effects)) :
    (r.afterTurn o (r.callbacks.erase target)
      (r.inFlight ++ acceptedDials accepted (dialsOf (swarmCalls o.effects))) dials).Live := by
  intro k hk
  -- a connection other than the one called back is not touched
  have hother : k ≠ target → r.loop.endpoints.failingConnections k ≠ none →
      (r.afterTurn o (r.callbacks.erase target)
        (r.inFlight ++ acceptedDials accepted (dialsOf (swarmCalls o.effects))) dials).Covers k := by
    intro hne hold
    exact (hl k hold).afterTurn (fun hcall => (List.mem_erase_of_ne hne).mpr hcall)
      (fun hdial => List.mem_append_left _ hdial)
  simp only [RetrySystem.afterTurn] at hk
  rcases handleRetryCallback_cases hstep with ⟨hnone, he, -⟩ |
      ⟨task, htask, ⟨he, hcalls⟩ | ⟨he, -⟩ | ⟨-, hcalls, he⟩⟩
  · rw [he] at hk
    exact hother (fun heq => hk (heq ▸ hnone)) hk
  · by_cases heq : k = target
    · subst heq
      refine covers_afterTurn_of_retry ⟨task, ?_, (hb.counted k task htask).1⟩
      rw [hcalls]
      exact List.mem_singleton.mpr rfl
    · exact hother heq (he ▸ hk)
  · rw [he] at hk
    obtain ⟨old, hold⟩ := Option.ne_none_iff_exists'.mp hk
    obtain ⟨hne, hold⟩ := failingConnections_dropFailure hold
    exact hother hne (by simp [hold])
  · -- the dial is under way if it was accepted
    by_cases heq : k = target
    · subst heq
      rcases hs.1 k hwake with haccepted | hcovers
      · refine .inr (.inr (.inr (List.mem_append_right _ ?_)))
        rw [hcalls, ← (hb.counted k task htask).1]
        simp [dialsOf, acceptedDials, haccepted]
      · exact hcovers.afterTurn (fun hcall => hcall) (fun hdial => List.mem_append_left _ hdial)
    · refine hother heq ?_
      rw [he] at hk
      simpa [Function.update_of_ne heq] using hk

/-- An iteration that handles an event. -/
theorem live_event {turn : Turn} {accepted : ℕ → Bool} {ends : Option Multiaddr}
    {o : Outcome} {event : SwarmEvent} {inFlight : List Multiaddr}
    {dials : PeerEndpointCache → ℕ} (hb : r.Bounded) (hl : r.Live)
    (hs : (RetryAction.turn turn accepted ends).Settles r)
    (hhears : r.loop.hears turn = some event)
    (hends : endDial r.inFlight (some event) ends = some inFlight)
    (hstep : handleEndpointEvent cfg turn.view r.loop.endpoints event =
      .ok (o.state.endpoints, swarmCalls o.effects)) :
    (r.afterTurn o r.callbacks
      (inFlight ++ acceptedDials accepted (dialsOf (swarmCalls o.effects))) dials).Live := by
  intro k hk
  -- a connection noted by this event has its task queued
  rcases handleEndpointEvent_added hstep hk with hold | hqueued
  swap
  · exact covers_afterTurn_of_retry hqueued
  cases ends with
  | none =>
    obtain rfl := Option.some.inj hends
    exact (hl k hold).afterTurn id fun hdial => List.mem_append_left _ hdial
  | some address =>
    have hleft : inFlight = r.inFlight.erase address := by
      simp only [endDial] at hends
      split at hends
      · exact (Option.some.inj hends).symm
      · exact absurd hends (by simp)
    subst hleft
    by_cases haddr : k.address = address
    · -- this was a dial of its own: it is settled, or something else is under way
      rcases hs.2 event address hhears rfl k hold haddr with hsettled | hcovers
      · rcases handleEndpointEvent_settles hb.counted hstep hsettled with hnone | hqueued
        · exact absurd hnone hk
        · exact covers_afterTurn_of_retry hqueued
      · exact hcovers.afterTurn (fun hcall => hcall) (fun hdial => List.mem_append_left _ hdial)
    · refine (hl k hold).afterTurn id fun hdial => List.mem_append_left _ ?_
      exact (List.mem_erase_of_ne haddr).mpr hdial

/-- What is neither an event nor a callback leaves the endpoints alone. -/
theorem handleEndpoints_quiet {view : SwarmView} {e e' : Endpoints} {calls : List Call}
    {wakeup : Option Wakeup} (hevent : ∀ event, wakeup ≠ some (.swarm event))
    (hcallback : ∀ target, wakeup ≠ some (.retryCallback target))
    (h : handleEndpoints cfg view e wakeup = .ok (e', calls)) : e' = e := by
  cases wakeup with
  | none => exact (Prod.ext_iff.mp (Except.ok.inj h)).1.symm
  | some wakeup =>
    cases wakeup with
    | received message uuid => exact (Prod.ext_iff.mp (Except.ok.inj h)).1.symm
    | swarm event => exact absurd rfl (hevent event)
    | retryCallback target => exact absurd rfl (hcallback target)
    | idle => exact (Prod.ext_iff.mp (Except.ok.inj h)).1.symm

/-- Only a callback is taken from the queue. -/
theorem takeCallback_quiet {callbacks callbacks' : List PeerEndpointCache}
    {wakeup : Option Wakeup} (hcallback : ∀ target, wakeup ≠ some (.retryCallback target))
    (h : takeCallback callbacks wakeup = some callbacks') : callbacks' = callbacks := by
  cases wakeup with
  | none => exact (Option.some.inj h).symm
  | some wakeup =>
    cases wakeup with
    | retryCallback target => exact absurd rfl (hcallback target)
    | _ => exact (Option.some.inj h).symm

/-- An iteration that handles neither. -/
theorem live_quiet {turn : Turn} {ends : Option Multiaddr} {o : Outcome}
    {callbacks : List PeerEndpointCache} {inFlight extra : List Multiaddr}
    {dials : PeerEndpointCache → ℕ} (hl : r.Live)
    (hevent : ∀ event, r.loop.wakes turn ≠ some (.swarm event))
    (hcallback : ∀ target, r.loop.wakes turn ≠ some (.retryCallback target))
    (hcall : takeCallback r.callbacks (r.loop.wakes turn) = some callbacks)
    (hends : endDial r.inFlight (r.loop.hears turn) ends = some inFlight)
    (hiter : iteration cfg r.loop turn = .ok o) :
    (r.afterTurn o callbacks (inFlight ++ extra) dials).Live := by
  rw [hears_eq_none hevent] at hends
  obtain rfl := endDial_none hends
  obtain rfl := takeCallback_quiet hcallback hcall
  have he := handleEndpoints_quiet hevent hcallback (iteration_endpoints hiter)
  intro k hk
  simp only [RetrySystem.afterTurn, he] at hk
  exact (hl k hk).afterTurn id fun hdial => List.mem_append_left _ hdial

/-- An iteration that ends dials properly drops no retry. -/
theorem Live.turn {turn : Turn} {accepted : ℕ → Bool} {ends : Option Multiaddr} {o : Outcome}
    {callbacks : List PeerEndpointCache} {inFlight : List Multiaddr}
    {dials : PeerEndpointCache → ℕ} (hb : r.Bounded) (hl : r.Live)
    (hs : (RetryAction.turn turn accepted ends).Settles r)
    (hcall : takeCallback r.callbacks (r.loop.wakes turn) = some callbacks)
    (hends : endDial r.inFlight (r.loop.hears turn) ends = some inFlight)
    (hiter : iteration cfg r.loop turn = .ok o) :
    (r.afterTurn o callbacks
      (inFlight ++ acceptedDials accepted (dialsOf (swarmCalls o.effects))) dials).Live := by
  have hendpoints := iteration_endpoints hiter
  by_cases hevent : ∃ event, r.loop.wakes turn = some (.swarm event)
  · obtain ⟨event, hw⟩ := hevent
    have hhears : r.loop.hears turn = some event := hears_eq_some hw
    rw [hw] at hcall hendpoints
    rw [hhears] at hends
    obtain rfl := Option.some.inj hcall
    exact live_event hb hl hs hhears hends hendpoints
  · by_cases hcallback : ∃ target, r.loop.wakes turn = some (.retryCallback target)
    · -- the callback leaves the queue, and no dial ends
      obtain ⟨target, hw⟩ := hcallback
      rw [hears_eq_none (not_exists.mp hevent)] at hends
      obtain rfl := endDial_none hends
      rw [hw] at hcall hendpoints
      have herase : callbacks = r.callbacks.erase target := by
        simp only [takeCallback] at hcall
        split at hcall
        · exact (Option.some.inj hcall).symm
        · exact absurd hcall (by simp)
      subst herase
      exact live_callback hb hl hs hw hendpoints
    · exact live_quiet hl (not_exists.mp hevent) (not_exists.mp hcallback) hcall hends hiter

/-- **A step that ends dials properly drops no retry.** -/
theorem Live.step {a : RetryAction} (hb : r.Bounded) (hl : r.Live) (hs : a.Settles r)
    (hstep : r.step cfg a = some r') : r'.Live := by
  rcases RetrySystem.step_cases hstep with
    ⟨turn, accepted, ends, callbacks, inFlight, o, rfl, hcall, hends, hiter, -, rfl⟩ |
    ⟨task, delay, rfl, -, -, rfl⟩ | ⟨timer, rfl, -, rfl⟩
  · exact hl.turn hb hs hcall hends hiter
  · -- a task that leaves the queue has its delay to wait for
    intro k hk
    rcases hl k hk with ⟨queued, hqueued, htarget⟩ | ⟨timer, htimer, htarget⟩ | hcall | hdial
    · by_cases heq : queued = task
      · subst heq
        exact .inr (.inl ⟨⟨delay, queued⟩, by simp, htarget⟩)
      · exact .inl ⟨queued, (List.mem_erase_of_ne heq).mpr hqueued, htarget⟩
    · exact .inr (.inl ⟨timer, List.mem_append_left _ htimer, htarget⟩)
    · exact .inr (.inr (.inl hcall))
    · exact .inr (.inr (.inr hdial))
  · -- a delay that has passed has its callback queued
    intro k hk
    rcases hl k hk with hqueued | ⟨waiting, hwaiting, htarget⟩ | hcall | hdial
    · exact .inl hqueued
    · by_cases heq : waiting = timer
      · subst heq
        exact .inr (.inr (.inl (List.mem_append_right _ (by simp [htarget]))))
      · exact .inr (.inl ⟨waiting, (List.mem_erase_of_ne heq).mpr hwaiting, htarget⟩)
    · exact .inr (.inr (.inl (List.mem_append_left _ hcall)))
    · exact .inr (.inr (.inr hdial))

end RetrySystem

/-- **A retry is never dropped, as long as every dial ends properly.**  In a run in which
the dial of every retry is accepted, and every dial to the address of a failing connection
ends in an event that settles it, unless something else is under way for it, there is at
every loop head something under way for every failing connection. -/
theorem retries_covered (cfg : Config) (start : ℕ) (inFlight : List Multiaddr)
    (actions : List RetryAction) {r : RetrySystem}
    (hs : Runs.Along (RetrySystem.step cfg) (fun r a => a.Settles r)
      (RetrySystem.initial start inFlight) actions)
    (h : Runs.run (RetrySystem.step cfg) (RetrySystem.initial start inFlight) actions = some r) :
    ∀ k, r.loop.endpoints.failingConnections k ≠ none →
      (∃ task ∈ r.retryQueue, task.target = k) ∨ (∃ timer ∈ r.timers, timer.task.target = k) ∨
        k ∈ r.callbacks ∨ k.address ∈ r.inFlight := by
  have hstart : (RetrySystem.initial start inFlight).Live :=
    fun k hk => absurd rfl hk
  exact (Runs.run_invariant (I := fun r => r.Bounded ∧ r.Live)
    (fun _ _ _ hi hc hstep => ⟨hi.1.step hstep, hi.2.step hi.1 hc hstep⟩)
    ⟨RetrySystem.Bounded.initial start inFlight, hstart⟩ hs h).2

/-- The dial to the boot node succeeds, and the connection breaks. -/
private def brokenActions : List RetryAction :=
  bootActions (fun _ => false) ++
    [.turn (lonelyTurn (.swarm (.connectionEstablished bootNode.peerId ⟨bootNode.address, true⟩)))
      (fun _ => true) (some bootNode.address),
    .turn (lonelyTurn (.swarm
      (.connectionClosed bootNode.peerId (some .io) ⟨bootNode.address, true⟩ 0)))
      (fun _ => true) none]

private theorem bootActions_failing {r : RetrySystem}
    (h : Runs.run (RetrySystem.step bootCfg) (RetrySystem.initial 1 [])
      (bootActions fun _ => false) = some r) {k : PeerEndpointCache}
    (hk : r.loop.endpoints.failingConnections k ≠ none) : k = bootNode := by
  obtain rfl := Option.some.inj h
  by_contra hne
  exact hk ((Function.update_of_ne hne _ _).trans (Function.update_of_ne hne _ _))

/-- An event dials nothing for a callback, and settles what it says if it ends a dial. -/
private theorem settles_of_event {r : RetrySystem} {event : SwarmEvent} {accepted : ℕ → Bool}
    {ends : Option Multiaddr}
    (hends : ∀ address, ends = some address → ∀ k,
      r.loop.endpoints.failingConnections k ≠ none → SettledBy k event) :
    RetryAction.Settles r (.turn (lonelyTurn (.swarm event)) accepted ends) := by
  constructor
  · intro k hwakes
    simp [LoopState.wakes, lonelyTurn] at hwakes
  · intro event' address hhears hended k hk _
    rw [LoopState.hears, LoopState.wakes] at hhears
    split_ifs at hhears
    obtain rfl := Option.some.inj hhears
    exact .inl (hends address hended k hk)

private theorem brokenActions_settles :
    Runs.Along (RetrySystem.step bootCfg) (fun r a => a.Settles r) (RetrySystem.initial 1 [])
      brokenActions := by
  apply Runs.Along.append
  · refine Runs.along_of_forall fun r a ha => ?_
    simp only [bootActions, List.mem_cons, List.not_mem_nil, or_false] at ha
    rcases ha with rfl | rfl | rfl | rfl | rfl | rfl
    · exact settles_of_event nofun
    · exact settles_of_event nofun
    · exact settles_of_event nofun
    · exact trivial
    · exact trivial
    · exact ⟨fun _ _ => .inl rfl, fun _ _ _ hends => absurd hends (by simp)⟩
  · intro r hr
    refine ⟨settles_of_event fun _ _ k hk => ?_, fun r' _ => ⟨settles_of_event nofun, ?_⟩⟩
    · -- only the boot node is failing, and it is connected
      rw [bootActions_failing hr hk]
      rfl
    · exact fun _ _ => trivial

/-- The boot node is noted again once the connection has broken, and is in the queue. -/
theorem retries_covered_boot :
    Runs.Along (RetrySystem.step bootCfg) (fun r a => a.Settles r) (RetrySystem.initial 1 [])
        brokenActions ∧
      ∃ r, Runs.run (RetrySystem.step bootCfg) (RetrySystem.initial 1 []) brokenActions = some r ∧
        r.inFlight = [] ∧ r.loop.endpoints.failingConnections bootNode = some ⟨bootNode, 0⟩ ∧
        ((∃ task ∈ r.retryQueue, task.target = bootNode) ∨
          (∃ timer ∈ r.timers, timer.task.target = bootNode) ∨
          bootNode ∈ r.callbacks ∨ bootNode.address ∈ r.inFlight) := by
  have hends : ((Runs.run (RetrySystem.step bootCfg) (RetrySystem.initial 1 [])
      brokenActions).any fun r => decide (r.inFlight = [] ∧
        r.loop.endpoints.failingConnections bootNode = some ⟨bootNode, 0⟩)) = true := by
    decide +kernel
  obtain ⟨r, hrun, hr⟩ := (Option.any_eq_true _ _).mp hends
  obtain ⟨hflight, hfailing⟩ := of_decide_eq_true hr
  refine ⟨brokenActions_settles, r, hrun, hflight, hfailing, ?_⟩
  exact retries_covered bootCfg 1 [] brokenActions brokenActions_settles hrun bootNode
    (by simp [hfailing])

/-- The dial to the boot node times out.  The address does not name the peer, so the event
does not either, and the boot node is never retried. -/
theorem retries_drop_boot :
    ∃ r, Runs.run (RetrySystem.step bootCfg) (RetrySystem.initial 1 [])
        (bootActions (fun _ => false) ++
          [.turn (lonelyTurn (.swarm (.outgoingConnectionError none
            (.transport [(bootNode.address, .other (some "Timeout"))])))) (fun _ => true)
            (some bootNode.address)]) = some r ∧
      r.loop.endpoints.failingConnections bootNode = some ⟨bootNode, 1⟩ ∧
      r.retryQueue = [] ∧ r.timers = [] ∧ r.callbacks = [] ∧ r.inFlight = [] :=
  ⟨_, rfl, rfl, rfl, rfl, rfl, rfl⟩

end P2pClipboard
