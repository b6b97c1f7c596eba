import Mathlib.Algebra.BigOperators.Group.Finset.Basic
import P2pClipboard.Iface

/-!
# The task of an interface, over a whole run

A task runs pass after pass, whether the passes belong to one call of `poll` or to
several, until its socket or its channel fails.  Nothing it reads makes it panic, as long
as its timer has a period and its clock does not come near the end of time.

How often it asks the network is limited whatever it reads: the intervals double from
twice `INITIAL_TIMEOUT_INTERVAL` until they reach the interval of the configuration, and
once a response has told of a peer the next question waits for that interval.  Every packet
goes to the socket in the order the packets were made, and every address found goes into
the channel in the order they were found.

## Main definitions

* `InterfaceTask.run`, `Timely` — a run, and the times its passes may read.
* `ticksOf`, `enqueuedOf`, `writtenOf`, `foundOf`, `handedOf` — what happens in a run.
* `backoff` — the shortest time between two questions.
* `InterfaceTask.Paced`, `InterfaceTask.Queued` — the invariants.

## Main results

* `interfaceTask_run_isOk` — **no run panics.**
* `queries_paced` — **the pace of the questions.**
* `queues_in_order` — **nothing is reordered, repeated or lost.**
-/

namespace P2pClipboard

open InterfaceTask (Move Moves)

/-! ### Runs -/

section Run

variable {ProtoError : Type} (hickory : Hickory ProtoError) (text : MultiaddrText)
  (ops : AddressOps)

/-- A run of passes: the task, what happened, and whether the task is over. -/
def InterfaceTask.run (t : InterfaceTask) :
    List Answers → Except IfacePanic (InterfaceTask × List IfaceEffect × Bool)
  | [] => .ok (t, [], false)
  | a :: answers => do
      let (t, effects, ended) ← t.pass hickory text ops a
      if ended = .ready then return (t, effects, true)
      else
        let (t, rest, isOver) ← t.run answers
        return (t, effects ++ rest, isOver)

end Run

/-- The clock does not go back. -/
def Timely : Instant → List Answers → Prop
  | _, [] => True
  | clock, a :: answers => clock ≤ a.now ∧ a.now ≤ a.readNow ∧ Timely a.readNow answers

/-- The times the timer fired: those of the questions. -/
def ticksOf (effects : List IfaceEffect) : List Instant :=
  effects.filterMap fun
    | .tick now => some now
    | _ => none

/-- The packets put into the send buffer. -/
def enqueuedOf (effects : List IfaceEffect) : List Bytes :=
  effects.filterMap fun
    | .enqueue packet => some packet
    | _ => none

/-- The packets the socket took. -/
def writtenOf (effects : List IfaceEffect) : List Bytes :=
  effects.filterMap fun
    | .write packet _ => some packet
    | _ => none

/-- The addresses found. -/
def foundOf (effects : List IfaceEffect) : List FoundRecord :=
  effects.filterMap fun
    | .found record => some record
    | _ => none

/-- The addresses handed to the channel, whether or not it is there. -/
def handedOf (effects : List IfaceEffect) : List FoundRecord :=
  effects.filterMap fun
    | .deliver record => some record
    | .lose record => some record
    | _ => none

/-- The shortest time before the question of the given number, counted from the one before
it. -/
def backoff (queryInterval n : ℕ) : ℕ := min (initialTimeoutInterval * 2 ^ n) queryInterval

namespace InterfaceTask

section Rule

variable {ProtoError : Type} {hickory : Hickory ProtoError} {text : MultiaddrText}
  {ops : AddressOps} {t t' : InterfaceTask} {log effects : List IfaceEffect} {clock : Instant}
  {answers : List Answers} {isOver : Bool}

/-- An invariant that every move keeps is kept by the moves of a pass. -/
theorem Moves.invariant {a : Answers} {I : InterfaceTask → List IfaceEffect → Prop}
    (hmove : ∀ t effects t' log, I t log → Move hickory text ops a t effects t' →
      I t' (log ++ effects))
    (h : I t log) (hmoves : Moves hickory text ops a t effects t') : I t' (log ++ effects) := by
  induction hmoves generalizing log with
  | nil => rwa [List.append_nil]
  | cons hfirst _ ih =>
    rw [← List.append_assoc]
    exact ih (hmove _ _ _ _ h hfirst)

/-- A run is a pass that ends the task, or a pass in which nothing is lost and the rest of
the run. -/
theorem run_cons_cases {a : Answers}
    (hrun : t.run hickory text ops (a :: answers) = .ok (t', effects, isOver)) :
    (Moves hickory text ops a t effects t' ∧ isOver = true) ∨
      ∃ t₁ effects₁ effects₂, effects = effects₁ ++ effects₂ ∧
        Moves hickory text ops a t effects₁ t₁ ∧ (∀ record, .lose record ∉ effects₁) ∧
        t₁.run hickory text ops answers = .ok (t', effects₂, isOver) := by
  obtain ⟨⟨t₁, effects₁, ended⟩, hpass, hrun⟩ := bind_eq_ok hrun
  obtain ⟨hmoves, hlast⟩ := pass_moves hpass
  dsimp only at hrun
  split at hrun
  · obtain ⟨rfl, rfl, rfl⟩ := by simpa [pure, Except.pure] using hrun
    exact .inl ⟨hmoves, rfl⟩
  · rename_i hgoes
    obtain ⟨⟨t₂, effects₂, isOver₂⟩, hrun₂, hrun⟩ := bind_eq_ok hrun
    obtain ⟨rfl, rfl, rfl⟩ := by simpa [pure, Except.pure] using hrun
    refine .inr ⟨t₁, effects₁, effects₂, rfl, hmoves, fun record hmem => ?_, hrun₂⟩
    exact hgoes (Option.some.inj (hlast record hmem))

/-- An invariant that every move keeps is kept by a run. -/
theorem run_invariant {I : InterfaceTask → List IfaceEffect → Prop}
    (hmove : ∀ a t effects t' log, I t log → Move hickory text ops a t effects t' →
      I t' (log ++ effects))
    (h : I t log) (hrun : t.run hickory text ops answers = .ok (t', effects, isOver)) :
    I t' (log ++ effects) := by
  induction answers generalizing t log effects with
  | nil =>
    obtain ⟨rfl, rfl, rfl⟩ := by simpa [run] using hrun
    rwa [List.append_nil]
  | cons a answers ih =>
    obtain ⟨hmoves, rfl⟩ | ⟨t₁, effects₁, effects₂, rfl, hmoves, -, hrest⟩ := run_cons_cases hrun
    · exact Moves.invariant (hmove a) h hmoves
    · rw [← List.append_assoc]
      exact ih (Moves.invariant (hmove a) h hmoves) hrest

/-- The same for an invariant that speaks of the time, in a run whose clock does not go
back. -/
theorem run_invariant_timely {I : InterfaceTask → List IfaceEffect → Instant → Prop}
    (hmono : ∀ t log clock clock', I t log clock → clock ≤ clock' → I t log clock')
    (hmove : ∀ a t effects t' log, a.now ≤ a.readNow → I t log a.readNow →
      Move hickory text ops a t effects t' → I t' (log ++ effects) a.readNow)
    (h : I t log clock) (htimes : Timely clock answers)
    (hrun : t.run hickory text ops answers = .ok (t', effects, isOver)) :
    ∃ clock', I t' (log ++ effects) clock' := by
  induction answers generalizing t log clock effects with
  | nil =>
    obtain ⟨rfl, rfl, rfl⟩ := by simpa [run] using hrun
    exact ⟨clock, by rwa [List.append_nil]⟩
  | cons a answers ih =>
    obtain ⟨hnow, hread, htimes⟩ := htimes
    have hlater := hmono _ _ _ _ h (hnow.trans hread)
    have hpass := fun t effects t' log h => hmove a t effects t' log hread h
    obtain ⟨hmoves, rfl⟩ | ⟨t₁, effects₁, effects₂, rfl, hmoves, -, hrest⟩ := run_cons_cases hrun
    · exact ⟨a.readNow, Moves.invariant (I := fun t log => I t log a.readNow) hpass hlater hmoves⟩
    · rw [← List.append_assoc]
      exact ih (Moves.invariant (I := fun t log => I t log a.readNow) hpass hlater hmoves) htimes
        hrest

/-- A run in which an address is lost is over. -/
theorem run_loses_at_end (hrun : t.run hickory text ops answers = .ok (t', effects, isOver))
    (record : FoundRecord) (hmem : .lose record ∈ effects) : isOver = true := by
  induction answers generalizing t effects with
  | nil =>
    obtain ⟨rfl, rfl, rfl⟩ := by simpa [run] using hrun
    cases hmem
  | cons a answers ih =>
    obtain ⟨-, rfl⟩ | ⟨t₁, effects₁, effects₂, rfl, -, hkeeps, hrest⟩ := run_cons_cases hrun
    · rfl
    · exact ih hrest ((List.mem_append.mp hmem).resolve_left (hkeeps record))

end Rule

/-! ### The pace of the questions -/

/-- What limits the questions.  The next one has the number of those asked so far. -/
structure Paced (start : Instant) (queryInterval : ℕ) (t : InterfaceTask)
    (log : List IfaceEffect) (clock : Instant) : Prop where
  /-- The interval of the configuration stays. -/
  interval_eq : t.queryInterval = queryInterval
  /-- Probing doubles the interval with every question, and is over for good. -/
  probe : t.probeState = .finished queryInterval ∨
    t.probeState = .probing (initialTimeoutInterval * 2 ^ (ticksOf log).length)
  /-- The task has begun. -/
  begun : start ≤ clock
  /-- The timer was not set before. -/
  start_le : start ≤ t.timeout
  /-- The timer is not too close to the last question. -/
  last : ∀ tick, (ticksOf log).getLast? = some tick →
    tick + backoff queryInterval (ticksOf log).length ≤ t.timeout
  /-- Questions were asked in the past... -/
  past : ∀ tick ∈ ticksOf log, tick ≤ clock
  /-- ... and so were the responses read. -/
  stop_le : ∀ now, .stop now ∈ log → now ≤ clock
  /-- The first question was not asked before the task began. -/
  first : ∀ tick, (ticksOf log)[0]? = some tick → start ≤ tick
  /-- Questions are not too close to each other. -/
  spaced : ∀ i tick tick', (ticksOf log)[i]? = some tick → (ticksOf log)[i + 1]? = some tick' →
    tick + backoff queryInterval (i + 1) ≤ tick'
  /-- The timer is not too close to a response that told of a peer. -/
  stopped : ∀ now, .stop now ∈ log → now + queryInterval ≤ t.timeout
  /-- Neither is the question after it. -/
  quiet : log.Pairwise fun e e' => ∀ now tick, e = .stop now → e' = .tick tick →
    now + queryInterval ≤ tick

section Pace

variable {ProtoError : Type} {hickory : Hickory ProtoError} {text : MultiaddrText}
  {ops : AddressOps} {t t' : InterfaceTask} {log effects : List IfaceEffect} {a : Answers}
  {start clock : Instant} {queryInterval : ℕ}

theorem Paced.mono (h : t.Paced start queryInterval log clock) {clock' : Instant}
    (hle : clock ≤ clock') : t.Paced start queryInterval log clock' :=
  { h with
    begun := h.begun.trans hle
    past := fun tick htick => (h.past tick htick).trans hle
    stop_le := fun now hmem => (h.stop_le now hmem).trans hle }

/-- A move that neither asks nor stops the probing. -/
theorem Paced.frame (h : t.Paced start queryInterval log clock)
    (hticks : ticksOf effects = []) (hstops : ∀ now, .stop now ∉ effects)
    (hinterval : t'.queryInterval = t.queryInterval) (hprobe : t'.probeState = t.probeState)
    (htimeout : t'.timeout = t.timeout) :
    t'.Paced start queryInterval (log ++ effects) clock := by
  have hlog : ticksOf (log ++ effects) = ticksOf log := by
    rw [ticksOf, List.filterMap_append]
    exact (congrArg _ hticks).trans (List.append_nil _)
  refine {
    interval_eq := hinterval.trans h.interval_eq
    probe := by rw [hlog, hprobe]; exact h.probe
    begun := h.begun
    stop_le := fun now hmem =>
      h.stop_le now ((List.mem_append.mp hmem).resolve_right (hstops now))
    start_le := htimeout ▸ h.start_le
    last := by rw [hlog, htimeout]; exact h.last
    past := by rw [hlog]; exact h.past
    first := by rw [hlog]; exact h.first
    spaced := by rw [hlog]; exact h.spaced
    stopped := ?_
    quiet := ?_ }
  · intro now hmem
    rw [htimeout]
    exact h.stopped now ((List.mem_append.mp hmem).resolve_right (hstops now))
  · have hnone : ∀ e ∈ effects, ∀ tick, e ≠ .tick tick := by
      rintro e he tick rfl
      have hmem : tick ∈ ticksOf effects := List.mem_filterMap.mpr ⟨_, he, rfl⟩
      rw [hticks] at hmem
      exact List.not_mem_nil hmem
    refine List.pairwise_append.mpr ⟨h.quiet, ?_, ?_⟩
    · exact List.pairwise_of_forall_mem_list fun e _ e' he' now tick _ htick =>
        absurd htick (hnone e' he' tick)
    · exact fun e _ e' he' now tick _ htick => absurd htick (hnone e' he' tick)

/-- A question is asked when the timer says so. -/
theorem Paced.ask (h : t.Paced start queryInterval log a.readNow) (hread : a.now ≤ a.readNow)
    (hdue : t.timeout ≤ a.now) (packet : Bytes) :
    ({ t with
        sendBuffer := t.sendBuffer ++ [packet]
        probeState := t.nextProbeState }.restarted a.now).Paced start queryInterval
      (log ++ [IfaceEffect.tick a.now, .enqueue packet]) a.readNow := by
  have hlog : ticksOf (log ++ [IfaceEffect.tick a.now, .enqueue packet]) = ticksOf log ++ [a.now] :=
    List.filterMap_append
  have hlength : (ticksOf log ++ [a.now]).length = (ticksOf log).length + 1 :=
    List.length_append
  have hprobe : t.nextProbeState = .finished queryInterval ∨
      t.nextProbeState = .probing (initialTimeoutInterval * 2 ^ ((ticksOf log).length + 1)) := by
    rw [nextProbeState, h.interval_eq]
    obtain hstate | hstate := h.probe
    · rw [hstate]
      exact .inl rfl
    · rw [hstate]
      dsimp only
      split
      · exact .inl rfl
      · exact .inr (by rw [pow_succ, mul_assoc])
  have hinterval : backoff queryInterval ((ticksOf log).length + 1) ≤
      t.nextProbeState.interval := by
    obtain hstate | hstate := hprobe <;> rw [hstate]
    · exact min_le_right _ _
    · exact min_le_left _ _
  have hlast : ∀ tick, (ticksOf log)[(ticksOf log).length - 1]? = some tick →
      tick + backoff queryInterval (ticksOf log).length ≤ a.now := by
    intro tick htick
    rw [← List.getLast?_eq_getElem?] at htick
    exact (h.last tick htick).trans hdue
  refine {
    interval_eq := h.interval_eq
    probe := by rw [hlog, hlength]; exact hprobe
    begun := h.begun
    stop_le := fun now hmem => h.stop_le now (by simpa using hmem)
    start_le := (h.start_le.trans hdue).trans (Nat.le_add_right _ _)
    last := ?_
    past := ?_
    first := ?_
    spaced := ?_
    stopped := ?_
    quiet := ?_ }
  · intro tick htick
    rw [hlog, List.getLast?_concat] at htick
    obtain rfl := Option.some.inj htick
    rw [hlog, hlength]
    exact Nat.add_le_add_left hinterval _
  · intro tick htick
    rw [hlog, List.mem_append, List.mem_singleton] at htick
    obtain htick | rfl := htick
    · exact h.past tick htick
    · exact hread
  · intro tick htick
    rw [hlog] at htick
    by_cases hzero : (ticksOf log).length = 0
    · rw [List.length_eq_zero_iff.mp hzero] at htick
      obtain rfl := Option.some.inj htick
      exact h.start_le.trans hdue
    · rw [List.getElem?_append_left (by omega)] at htick
      exact h.first tick htick
  · -- the new question is the last one
    intro i tick tick' htick htick'
    rw [hlog] at htick htick'
    by_cases hi : i + 1 < (ticksOf log).length
    · rw [List.getElem?_append_left (by omega)] at htick htick'
      exact h.spaced i tick tick' htick htick'
    · have hbound : i + 1 < (ticksOf log ++ [a.now]).length :=
        (List.getElem?_eq_some_iff.mp htick').1
      obtain hi : i + 1 = (ticksOf log).length := by omega
      rw [hi, List.getElem?_append_right le_rfl, Nat.sub_self] at htick'
      obtain rfl := Option.some.inj htick'
      rw [List.getElem?_append_left (by omega)] at htick
      rw [hi]
      exact hlast tick (by rwa [← hi, Nat.add_sub_cancel])
  · intro now hmem
    have hmem' : .stop now ∈ log := by simpa using hmem
    exact ((h.stopped now hmem').trans hdue).trans (Nat.le_add_right _ _)
  · refine List.pairwise_append.mpr ⟨h.quiet, by simp, ?_⟩
    rintro e he e' he' now tick rfl rfl
    have htick : tick = a.now := by simpa using he'
    rw [htick]
    exact (h.stopped now he).trans hdue

/-- A response that tells of a peer puts the next question off. -/
theorem Paced.find (h : t.Paced start queryInterval log a.readNow)
    (records records' : List FoundRecord) :
    ({ t with
        discovered := records
        probeState := .finished t.queryInterval }.restarted a.readNow).Paced start queryInterval
      (log ++ (records'.map IfaceEffect.found ++ [IfaceEffect.stop a.readNow])) a.readNow := by
  have hlog : ticksOf (log ++ (records'.map IfaceEffect.found ++ [IfaceEffect.stop a.readNow])) =
      ticksOf log := by
    simp [ticksOf, List.filterMap_map]
  have hstops : ∀ now,
      IfaceEffect.stop now ∈
          log ++ (records'.map IfaceEffect.found ++ [IfaceEffect.stop a.readNow]) →
        now ≤ a.readNow := by
    intro now hmem
    obtain hold | hnew := List.mem_append.mp hmem
    · exact h.stop_le now hold
    · have hnow : now = a.readNow := by simpa using hnew
      exact hnow.le
  have htimeout : a.readNow + queryInterval = a.readNow + t.queryInterval := by
    rw [h.interval_eq]
  refine {
    interval_eq := h.interval_eq
    probe := .inl (congrArg _ h.interval_eq)
    begun := h.begun
    stop_le := hstops
    start_le := h.begun.trans (Nat.le_add_right _ _)
    last := ?_
    past := by rw [hlog]; exact h.past
    first := by rw [hlog]; exact h.first
    spaced := by rw [hlog]; exact h.spaced
    stopped := fun now hmem => (Nat.add_le_add_right (hstops now hmem) _).trans htimeout.le
    quiet := ?_ }
  · intro tick htick
    rw [hlog] at htick ⊢
    have hpast := h.past tick (List.mem_of_getLast? htick)
    exact (Nat.add_le_add hpast (min_le_right _ _)).trans htimeout.le
  · -- no question follows in this move
    have hnone : ∀ e ∈ records'.map IfaceEffect.found ++ [IfaceEffect.stop a.readNow], ∀ tick,
        e ≠ .tick tick := by
      rintro e he tick rfl
      simp at he
    exact List.pairwise_append.mpr ⟨h.quiet,
      List.pairwise_of_forall_mem_list fun e _ e' he' now tick _ htick =>
        absurd htick (hnone e' he' tick),
      fun e _ e' he' now tick _ htick => absurd htick (hnone e' he' tick)⟩

/-- Every move keeps the pace. -/
theorem Paced.move (h : t.Paced start queryInterval log a.readNow) (hread : a.now ≤ a.readNow)
    (hmove : Move hickory text ops a t effects t') :
    t'.Paced start queryInterval (log ++ effects) a.readNow := by
  cases hmove with
  | ask hdue _ => exact h.ask hread hdue _
  | find => exact h.find _ _
  | answer =>
    exact h.frame (by simp [ticksOf, List.filterMap_map]) (by simp) rfl rfl rfl
  | _ => exact h.frame rfl (by simp) rfl rfl rfl

end Pace

/-! ### The queues -/

/-- What was put into a queue is what was taken out and what is in it, in order. -/
structure Queued (t : InterfaceTask) (log : List IfaceEffect) : Prop where
  /-- The packets. -/
  packets : enqueuedOf log = writtenOf log ++ t.sendBuffer
  /-- The addresses. -/
  records : foundOf log = handedOf log ++ t.discovered

theorem Queued.move {ProtoError : Type} {hickory : Hickory ProtoError} {text : MultiaddrText}
    {ops : AddressOps} {t t' : InterfaceTask} {log effects : List IfaceEffect} {a : Answers}
    (h : t.Queued log) (hmove : Move hickory text ops a t effects t') :
    t'.Queued (log ++ effects) := by
  have hpackets := h.packets
  have hrecords := h.records
  unfold enqueuedOf writtenOf at hpackets
  unfold foundOf handedOf at hrecords
  constructor
  · unfold enqueuedOf writtenOf
    rw [List.filterMap_append, List.filterMap_append, hpackets]
    cases hmove with
    | ask => simp [restarted]
    | write sent hfirst => simp [hfirst]
    | find => simp [List.filterMap_map, restarted]
    | _ => simp [List.filterMap_map]
  · unfold foundOf handedOf
    rw [List.filterMap_append, List.filterMap_append, hrecords]
    cases hmove with
    | ask => simp [restarted]
    | deliver hfirst => simp [hfirst]
    | lose hfirst => simp [hfirst]
    | find => simp [List.filterMap_map, restarted]
    | _ => simp [List.filterMap_map]

end InterfaceTask

/-- **No run of a task panics**, whatever it reads, if the interval of its questions is not
zero and every time it computes fits into an `Instant`. -/
theorem interfaceTask_run_isOk {ProtoError : Type} (hickory : Hickory ProtoError)
    (text : MultiaddrText) (ops : AddressOps) (newV5 : Bytes → BitVec 128) (addr : IpAddr)
    (config : DiscoveryConfig) (localPeerId : PeerId) (now : Instant) (jitter : Fin 100)
    {answers : List Answers} (hpos : 0 < config.queryInterval.toNanos + jitter * 10 ^ 6)
    (htimes : ∀ a ∈ answers, a.InTime (config.queryInterval.toNanos + jitter * 10 ^ 6)) :
    ∃ r, (InterfaceTask.new newV5 addr config localPeerId now jitter).run hickory text ops
      answers = .ok r := by
  have hrun : ∀ t : InterfaceTask, t.OfNode newV5 config.toMdnsConfig localPeerId →
      t.Ticking (config.queryInterval.toNanos + jitter * 10 ^ 6) →
      ∃ r, t.run hickory text ops answers = .ok r := by
    induction answers with
    | nil => exact fun t _ _ => ⟨_, rfl⟩
    | cons a answers ih =>
      intro t h hticks
      obtain ⟨⟨t₁, effects, ended⟩, hpass⟩ :=
        h.pass_isOk hickory text ops hticks (htimes a List.mem_cons_self)
      have hmoves := (InterfaceTask.pass_moves hpass).1
      obtain ⟨r, hr⟩ := ih (fun b hb => htimes b (List.mem_cons_of_mem _ hb)) t₁
        (h.moves hickory text ops hmoves) (hticks.moves hickory text ops hmoves)
      rw [InterfaceTask.run, hpass]
      simp only [bind, Except.bind]
      split
      · exact ⟨_, rfl⟩
      · rw [hr]
        exact ⟨_, rfl⟩
  exact hrun _ rfl ⟨hpos, rfl, .inr ⟨_, rfl, by decide, .inl rfl⟩⟩

private def keepAddress : AddressOps := ⟨fun a _ => some a, fun a p => some (a ++ [.p2p p])⟩

/-- A task of a node that knows nobody yet. -/
private def newTask : InterfaceTask :=
  .new (fun _ => 0) (.v4 192 168 1 2) ⟨⟨.fromSecs 360, none⟩, .fromSecs 300, false, false⟩
    ⟨[0, 1, 6]⟩ 0 7

/-- What a listening node says when it is asked. -/
private def heardResponse : Bytes :=
  ((buildQueryResponse lanText 7 lanPeer [lanAddress] (.fromSecs 360) lanName
    (utf8 defaultServiceName)).toOption.getD []).flatten

/-- A pass of a task whose packets the socket takes. -/
private def heardAnswers (now : Instant) (channelReady : Bool) (read : ReadAnswer) : Answers where
  now
  queryId := 7
  write := .ok
  channelReady
  trySend := .ok
  read
  readNow := now
  listenAddresses := []
  peerName := lanName

/-- The task asks, a peer responds at once and is handed over a second later, and the task
asks again when the whole interval is over. -/
private def heardRun : List Answers :=
  [heardAnswers 0 false .pending,
    heardAnswers 0 false (.datagram heardResponse ⟨[192, 168, 1, 7], 5353⟩),
    heardAnswers (10 ^ 9) true .pending,
    heardAnswers (300 * 10 ^ 9) false .pending,
    heardAnswers (300 * 10 ^ 9 + 7 * 10 ^ 6) false .pending]

private theorem heardRun_inTime : ∀ a ∈ heardRun, a.InTime (300 * 10 ^ 9 + 7 * 10 ^ 6) := by
  intro a ha
  simp only [heardRun, List.mem_cons, List.not_mem_nil, or_false] at ha
  rcases ha with rfl | rfl | rfl | rfl | rfl <;> exact ⟨by decide, by decide, by decide⟩

/-- A run in which a response is read does not panic. -/
theorem interfaceTask_run_heard :
    ∃ r, newTask.run plainHickory lanText keepAddress heardRun = .ok r :=
  interfaceTask_run_isOk plainHickory lanText keepAddress _ _ _ _ _ _ (by decide) heardRun_inTime

/-- What happened in it: both questions went out, and the address is in the channel. -/
private def HeardEnd (r : InterfaceTask × List IfaceEffect × Bool) : Prop :=
  ticksOf r.2.1 = [0, 300 * 10 ^ 9 + 7 * 10 ^ 6] ∧ .stop 0 ∈ r.2.1 ∧
    foundOf r.2.1 = [((lanPeer, lanAddress ++ [.p2p lanPeer]), 360 * 10 ^ 9)] ∧
    r.1.sendBuffer = [] ∧ r.1.discovered = []

private instance : DecidablePred HeardEnd :=
  fun _ => inferInstanceAs (Decidable (_ ∧ _ ∧ _ ∧ _ ∧ _))

private theorem heardRun_ends : ∃ t log isOver,
    newTask.run plainHickory lanText keepAddress heardRun = .ok (t, log, isOver) ∧
      HeardEnd (t, log, isOver) := by
  have hend : (newTask.run plainHickory lanText keepAddress heardRun).toOption.any
      (fun r => decide (HeardEnd r)) = true := by decide +kernel
  cases hrun : newTask.run plainHickory lanText keepAddress heardRun with
  | error e => simp [hrun, Except.toOption] at hend
  | ok r =>
    rw [hrun] at hend
    exact ⟨r.1, r.2.1, r.2.2, rfl, of_decide_eq_true hend⟩

section Results

variable {ProtoError : Type} {hickory : Hickory ProtoError} {text : MultiaddrText}
  {ops : AddressOps} {newV5 : Bytes → BitVec 128} {addr : IpAddr} {config : DiscoveryConfig}
  {localPeerId : PeerId} {start : Instant} {jitter : Fin 100} {answers : List Answers}
  {t' : InterfaceTask} {log : List IfaceEffect} {isOver : Bool}

/-- **The pace of the questions.**  Whatever a task reads, its first question comes no earlier
than its beginning; the times between questions are at least one second, two, four and so
on, until they reach the interval of the task; and after a response that tells of a peer
the next question waits for that interval. -/
theorem queries_paced (htimes : Timely start answers)
    (hrun : (InterfaceTask.new newV5 addr config localPeerId start jitter).run hickory text ops
      answers = .ok (t', log, isOver)) :
    (∀ i tick, (ticksOf log)[i]? = some tick →
        start + ∑ k ∈ Finset.range i,
          backoff (config.queryInterval.toNanos + jitter * 10 ^ 6) (k + 1) ≤ tick) ∧
      (∀ i tick tick', (ticksOf log)[i]? = some tick → (ticksOf log)[i + 1]? = some tick' →
        tick + backoff (config.queryInterval.toNanos + jitter * 10 ^ 6) (i + 1) ≤ tick') ∧
      log.Pairwise fun e e' => ∀ now tick, e = .stop now → e' = .tick tick →
        now + (config.queryInterval.toNanos + jitter * 10 ^ 6) ≤ tick := by
  have hnew : (InterfaceTask.new newV5 addr config localPeerId start jitter).Paced start
      (config.queryInterval.toNanos + jitter * 10 ^ 6) [] start := by
    refine {
      interval_eq := rfl
      probe := .inr rfl
      begun := le_rfl
      start_le := le_rfl
      last := by simp [ticksOf]
      past := by simp [ticksOf]
      stop_le := by simp
      first := by simp [ticksOf]
      spaced := by simp [ticksOf]
      stopped := by simp
      quiet := List.Pairwise.nil }
  obtain ⟨clock, h⟩ := InterfaceTask.run_invariant_timely
    (I := fun t log clock =>
      t.Paced start (config.queryInterval.toNanos + jitter * 10 ^ 6) log clock)
    (fun _ _ _ _ h hle => h.mono hle) (fun _ _ _ _ _ hread h hmove => h.move hread hmove)
    hnew htimes hrun
  rw [List.nil_append] at h
  refine ⟨fun i => ?_, h.spaced, h.quiet⟩
  -- the times add up, from one question to the next
  induction i with
  | zero => exact h.first
  | succ i ih =>
    intro tick htick
    have hi : i < (ticksOf log).length := by
      have hbound := (List.getElem?_eq_some_iff.mp htick).1
      omega
    have hbefore := ih _ (List.getElem?_eq_getElem hi)
    have hgap := h.spaced i _ tick (List.getElem?_eq_getElem hi) htick
    rw [Finset.sum_range_succ, ← add_assoc]
    exact (Nat.add_le_add_right hbefore _).trans hgap

/-- A task that hears of a peer after its first question asks again when the whole interval
is over. -/
theorem queries_paced_quiet : ∃ r, newTask.run plainHickory lanText keepAddress heardRun = .ok r ∧
    ticksOf r.2.1 = [0, 300 * 10 ^ 9 + 7 * 10 ^ 6] ∧ .stop 0 ∈ r.2.1 ∧
      0 + backoff (300 * 10 ^ 9 + 7 * 10 ^ 6) 1 ≤ 300 * 10 ^ 9 + 7 * 10 ^ 6 := by
  obtain ⟨t, log, isOver, hrun, hticks, hstop, -⟩ := heardRun_ends
  have htimely : Timely 0 heardRun := by
    simp [Timely, heardRun, heardAnswers]
  have hgap := (queries_paced htimely hrun).2.1 0 0 (300 * 10 ^ 9 + 7 * 10 ^ 6)
    (by rw [hticks]; rfl) (by rw [hticks]; rfl)
  exact ⟨_, hrun, hticks, hstop, hgap⟩

/-- **Nothing is reordered, repeated or lost.**  The packets a task made are those the socket
took and those that wait, in order; the addresses it found are those it handed to the
channel and those that wait, in order; and an address is lost only with the channel, which
ends the task. -/
theorem queues_in_order
    (hrun : (InterfaceTask.new newV5 addr config localPeerId start jitter).run hickory text ops
      answers = .ok (t', log, isOver)) :
    enqueuedOf log = writtenOf log ++ t'.sendBuffer ∧
      foundOf log = handedOf log ++ t'.discovered ∧
      ∀ record, .lose record ∈ log → isOver = true := by
  have hnew : (InterfaceTask.new newV5 addr config localPeerId start jitter).Queued [] :=
    ⟨rfl, rfl⟩
  have h := InterfaceTask.run_invariant (I := InterfaceTask.Queued)
    (fun _ _ _ _ _ h hmove => h.move hmove) hnew hrun
  rw [List.nil_append] at h
  exact ⟨h.packets, h.records, InterfaceTask.run_loses_at_end hrun⟩

/-- In the same run the two questions went to the socket, and the address that was found went
into the channel. -/
theorem queues_in_order_quiet :
    ∃ r, newTask.run plainHickory lanText keepAddress heardRun = .ok r ∧
      enqueuedOf r.2.1 = writtenOf r.2.1 ∧ foundOf r.2.1 = handedOf r.2.1 ∧
      foundOf r.2.1 = [((lanPeer, lanAddress ++ [.p2p lanPeer]), 360 * 10 ^ 9)] := by
  obtain ⟨t, log, isOver, hrun, -, -, hfound, hsent, hhanded⟩ := heardRun_ends
  obtain ⟨hpackets, hrecords, -⟩ := queues_in_order hrun
  rw [hsent, List.append_nil] at hpackets
  rw [hhanded, List.append_nil] at hrecords
  exact ⟨_, hrun, hpackets, hrecords, hfound⟩

end Results

end P2pClipboard
