import P2pClipboard.EventLoop

/-!
# Messages lost when the loop returns

An iteration that took more than a minute ends the loop, and the swarm is started anew.
By then the iteration has taken a message off the queue, or has read a content from the
channel, and nothing was published yet.  What it holds is dropped, and so is the queue,
which is a variable of the loop.

## Main definitions

* `Delivered` — every message of every content received was published.

## Main results

* `runLoop_returned` — a run that returns does so in its last iteration.
* `iteration_returned_cases` — what such an iteration can have in its hands.
* `restart_delivers_iff` — **when nothing is lost**: nothing was pending at the last
  loop head, and the last iteration did not read the channel.
-/

namespace P2pClipboard

/-- The messages of the contents received were all published, in order. -/
def Delivered (sha : Sha256) (effects : List Effect) : Prop := Queued sha effects []

/-- A content has at least one message. -/
theorem wireMessages_ne_nil {sha : Sha256} {r : ClipboardContent × Uuid} {wire : List Bytes}
    (h : wireMessages sha r = some wire) : wire ≠ [] := by
  obtain ⟨netMsgs, hsplit, hwire⟩ := wireMessages_eq_some sha r
  obtain rfl := Option.some.inj (h.symm.trans hwire)
  have hne : netMsgs ≠ [] := by
    obtain ⟨raw, -, rfl⟩ := Option.map_eq_some_iff.mp hsplit
    split <;> simp
  simpa using hne

section Returned

variable {cfg : Config} {turn : Turn} {s : LoopState} {o : Outcome}

/-- The loop returns when an iteration took too long. -/
theorem finishIteration_returned {toPublish : Option Bytes} {effects : List Effect}
    (h : (finishIteration turn toPublish s effects).returned = true) :
    restartLimit < turn.wallTime - s.t ∧
      (finishIteration turn toPublish s effects).effects = effects := by
  by_cases hd : restartLimit < turn.wallTime - s.t
  · exact ⟨hd, by simp [finishIteration, hd]⟩
  · exact absurd h (by simp [finishIteration, hd])

/-- **What an iteration that returns can have in its hands**: the head of the queue, the
first message of a content just read, or nothing. -/
theorem iteration_returned_cases (h : iteration cfg s turn = .ok o) (hr : o.returned = true) :
    (∃ data, s.pendingChunks = data :: o.state.pendingChunks ∧ o.effects = []) ∨
    (s.pendingChunks = [] ∧ ∃ message uuid wire, turn.wakeup = .received message uuid ∧
      wireMessages cfg.sha (message, uuid) = some wire ∧ o.effects = [.recv message uuid] ∧
      o.state.pendingChunks = wire.tail) ∨
    (s.pendingChunks = [] ∧ (∀ message uuid, turn.wakeup ≠ .received message uuid) ∧
      receivedOf o.effects = [] ∧ publishedOf o.effects = [] ∧ o.state.pendingChunks = []) := by
  rcases iteration_cases h with ⟨data, rest, hp, rfl⟩ | ⟨hp, toPublish, s', effects, hwake, rfl⟩
  · exact .inl ⟨data, by simp [hp], (finishIteration_returned hr).2⟩
  · rw [(finishIteration_returned hr).2, finishIteration_pendingChunks]
    rcases handleWakeup_cases hwake with ⟨message, uuid, wire, hw, hwire, -, rfl, rfl⟩ |
        ⟨data, content, chunkStates, hw, -, -, rfl, rfl⟩ | ⟨endpoints, calls, hw, -, -, -, rfl, rfl⟩
    · exact .inr (.inl ⟨hp, message, uuid, wire, hw, hwire, rfl, by simp [hp]⟩)
    · refine .inr (.inr ⟨hp, ?_, receivedOf_calls _, publishedOf_calls _, hp⟩)
      intro message uuid heq
      exact absurd (heq.symm.trans hw) (by simp)
    · exact .inr (.inr ⟨hp, hw, receivedOf_calls _, publishedOf_calls _, hp⟩)

/-- A last iteration that is in step with the contents received delivers them exactly
when it found nothing pending and did not read the channel. -/
theorem iteration_delivers_iff {effects : List Effect} (h : iteration cfg s turn = .ok o)
    (hr : o.returned = true) (hq : Queued cfg.sha effects s.pendingChunks) :
    Delivered cfg.sha (effects ++ o.effects) ↔
      s.pendingChunks = [] ∧ ∀ message uuid, turn.wakeup ≠ .received message uuid := by
  unfold Delivered
  unfold Queued at hq ⊢
  obtain ⟨wires, hwires, hflat⟩ := Option.map_eq_some_iff.mp hq
  rw [receivedOf_append, publishedOf_append]
  rcases iteration_returned_cases h hr with ⟨data, hp, heff⟩ |
      ⟨hp, message, uuid, wire, hw, hwire, heff, -⟩ | ⟨hp, hw, hrecv, hpub, -⟩
  · -- the message taken off the queue was not published
    refine iff_of_false ?_ (by simp [hp])
    intro hall
    rw [heff] at hall
    have hrecv : receivedOf ([] : List Effect) = [] := rfl
    have hpub : publishedOf ([] : List Effect) = [] := rfl
    rw [hrecv, hpub, List.append_nil, List.append_nil, List.append_nil, hwires, Option.map_some,
      hflat, hp] at hall
    simp at hall
  · -- nor was the content just read
    refine iff_of_false ?_ (by simp [hw])
    intro hall
    have hrecv : receivedOf o.effects = [(message, uuid)] := by rw [heff]; rfl
    have hpub : publishedOf o.effects = [] := by rw [heff]; rfl
    rw [hp, List.append_nil] at hflat
    rw [hrecv, hpub, List.append_nil, List.append_nil, List.mapM_append, hwires] at hall
    exact wireMessages_ne_nil hwire (by simpa [hwire, hflat] using hall)
  · refine iff_of_true ?_ ⟨hp, hw⟩
    rw [hrecv, hpub, List.append_nil, List.append_nil, List.append_nil, hwires, Option.map_some,
      hflat, hp, List.append_nil]

/-- The same, in terms of what the iteration has to publish and what it leaves pending. -/
theorem iteration_empty_iff (h : iteration cfg s turn = .ok o) (hr : o.returned = true) :
    s.nextMessage cfg.sha turn = none ∧ o.state.pendingChunks = [] ↔
      s.pendingChunks = [] ∧ ∀ message uuid, turn.wakeup ≠ .received message uuid := by
  rcases iteration_returned_cases h hr with ⟨data, hp, -⟩ |
      ⟨hp, message, uuid, wire, hw, hwire, -, -⟩ | ⟨hp, hw, -, -, hp'⟩
  · simp [LoopState.nextMessage, hp]
  · have hhead : wire.head? ≠ none := by simpa using wireMessages_ne_nil hwire
    simp [LoopState.nextMessage, hp, hw, hwire, hhead]
  · refine iff_of_true ⟨?_, hp'⟩ ⟨hp, hw⟩
    unfold LoopState.nextMessage
    rw [hp]
    split
    · case h_1 heq => cases heq
    · case h_2 message uuid _ heq => exact absurd heq (hw message uuid)
    · rfl

end Returned

/-- **A run that returns does so in its last iteration**, which took too long. -/
theorem runLoop_returned {cfg : Config} {s s' : LoopState} {turns : List Turn}
    {effects : List Effect} (h : runLoop cfg s turns = .ok ⟨s', effects, true⟩) :
    ∃ before turn rest s₀ effects₀ o, turns = before ++ turn :: rest ∧
      runLoop cfg s before = .ok ⟨s₀, effects₀, false⟩ ∧ iteration cfg s₀ turn = .ok o ∧
      o.returned = true ∧ o.state = s' ∧ effects = effects₀ ++ o.effects := by
  induction turns generalizing s effects with
  | nil => exact absurd (Except.ok.inj h) (by simp)
  | cons turn turns ih =>
    obtain ⟨o, hiter, hrest⟩ := bind_eq_ok h
    by_cases hret : o.returned = true
    · rw [if_pos hret] at hrest
      obtain rfl := Except.ok.inj hrest
      exact ⟨[], turn, turns, s, [], _, rfl, rfl, hiter, rfl, rfl, rfl⟩
    · rw [if_neg hret] at hrest
      obtain ⟨o₁, hrun, hout⟩ := bind_eq_ok hrest
      obtain ⟨s₁, effects₁, returned₁⟩ := o₁
      obtain ⟨rfl, rfl, rfl⟩ := Outcome.mk.inj (Except.ok.inj hout)
      obtain ⟨before, last, rest, s₀, effects₀, o', rfl, hbefore, hlast, hret', rfl, rfl⟩ := ih hrun
      refine ⟨turn :: before, last, rest, s₀, o.effects ++ effects₀, o', rfl, ?_, hlast, hret', rfl,
        by rw [List.append_assoc]⟩
      simp only [runLoop, hiter, hbefore, bind, Except.bind, pure, Except.pure, hret,
        Bool.false_eq_true, if_false]

/-- **When nothing is lost.**  A run that ends because an iteration took too long ends with
that iteration.  It has published every message of every content it received exactly when
nothing was pending at the head of this iteration and the iteration did not wake up for a
local content; that is, when it had nothing to publish and left nothing pending. -/
theorem restart_delivers_iff (cfg : Config) (start : ℕ) (turns : List Turn) {s : LoopState}
    {effects : List Effect}
    (h : runLoop cfg (LoopState.initial start) turns = .ok ⟨s, effects, true⟩) :
    ∃ before turn rest s₀ effects₀ o, turns = before ++ turn :: rest ∧
      runLoop cfg (LoopState.initial start) before = .ok ⟨s₀, effects₀, false⟩ ∧
      iteration cfg s₀ turn = .ok o ∧ o.returned = true ∧ o.state = s ∧
      effects = effects₀ ++ o.effects ∧
      (Delivered cfg.sha effects ↔
        s₀.pendingChunks = [] ∧ ∀ message uuid, turn.wakeup ≠ .received message uuid) ∧
      (Delivered cfg.sha effects ↔
        s₀.nextMessage cfg.sha turn = none ∧ s.pendingChunks = []) := by
  obtain ⟨before, turn, rest, s₀, effects₀, o, hturns, hbefore, hlast, hret, rfl, rfl⟩ :=
    runLoop_returned h
  have hstart : Queued cfg.sha [] (LoopState.initial start).pendingChunks := rfl
  have hq : Queued cfg.sha effects₀ s₀.pendingChunks := by
    simpa using runLoop_queued hbefore rfl hstart
  have hiff := iteration_delivers_iff hlast hret hq
  exact ⟨before, turn, rest, s₀, effects₀, o, hturns, hbefore, hlast, hret, rfl, rfl, hiff,
    hiff.trans (iteration_empty_iff hlast hret).symm⟩

/-- A node that hashes nothing and is its own peer. -/
private def slowCfg : Config := ⟨.checked, default, ⟨[3]⟩, none⟩

private theorem slowUuid_length :
    "00000000-0000-4000-8000-00000000000a".utf8ByteSize = 36 := by decide

private def slowUuid : Uuid := ⟨"00000000-0000-4000-8000-00000000000a", slowUuid_length⟩

/-- An iteration that ends after 61 seconds. -/
private def slowTurn (wakeup : Wakeup) : Turn := ⟨0, 0, 61 * 10 ^ 9, 61 * 10 ^ 9, {}, wakeup⟩

/-- Nothing is lost by a machine that slept while nothing was to be sent. -/
theorem restart_delivers_idle :
    ∃ s effects, runLoop slowCfg (LoopState.initial 0) [slowTurn .idle] = .ok ⟨s, effects, true⟩ ∧
      ∃ before turn rest s₀ effects₀ o, [slowTurn .idle] = before ++ turn :: rest ∧
        runLoop slowCfg (LoopState.initial 0) before = .ok ⟨s₀, effects₀, false⟩ ∧
        iteration slowCfg s₀ turn = .ok o ∧ o.returned = true ∧ o.state = s ∧
        effects = effects₀ ++ o.effects ∧
        (Delivered slowCfg.sha effects ↔
          s₀.pendingChunks = [] ∧ ∀ message uuid, turn.wakeup ≠ .received message uuid) ∧
        (Delivered slowCfg.sha effects ↔
          s₀.nextMessage slowCfg.sha turn = none ∧ s.pendingChunks = []) :=
  ⟨_, _, rfl, restart_delivers_iff slowCfg 0 [slowTurn .idle] rfl⟩

/-- A text that is copied after the machine slept is read and lost. -/
theorem restart_loses_text :
    ∃ s, runLoop slowCfg (LoopState.initial 0) [slowTurn (.received (.text "hi") slowUuid)] =
        .ok ⟨s, [.recv (.text "hi") slowUuid], true⟩ ∧
      ¬ Delivered slowCfg.sha [.recv (.text "hi") slowUuid] := by
  refine ⟨_, rfl, ?_⟩
  intro hall
  obtain ⟨netMsgs, hsplit, hwire⟩ := wireMessages_eq_some slowCfg.sha (.text "hi", slowUuid)
  have hne : netMsgs.map NetworkMessage.codec.encode ≠ [] := wireMessages_ne_nil hwire
  have hrecv : receivedOf [.recv (.text "hi") slowUuid] = [(.text "hi", slowUuid)] := rfl
  have hpub : publishedOf [.recv (.text "hi") slowUuid] = [] := rfl
  rw [Delivered, Queued, hrecv, hpub] at hall
  exact hne (by simpa [hwire] using hall)

end P2pClipboard
