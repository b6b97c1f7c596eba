import P2pClipboard.History

/-!
# Which inputs crash the receiver

The bytes handed to the receiver come from remote peers.  Two of the numbers in
them reach an operation that can panic: the index of a chunk, incremented for a
log line, and the announced size of a transfer, requested as a capacity when the
transfer is closed.  This file says exactly which input sequences panic, in
terms of the messages in them alone.

## Main definitions

* `Input.event?` — the message an input carries, if it carries one.
* `Dangerous` — an event that panics after a given history.
* `Harmless` — a history none of whose events is dangerous.

## Main results

* `trips_iff_dangerous` — the panic condition on the table is the one on the
  history.
* `runInputs_ok_iff_harmless` — **a run panics exactly when a dangerous event
  occurs in it.**
-/

namespace P2pClipboard

/-- The event an input is for the table of transfers: nothing when the bytes are
no message, for then only a content or a text is handed on. -/
def Input.event? : Input → Option Event
  | .data now bytes => (NetworkMessage.fromBytes bytes).map (.message now)
  | .cleanup now => some (.cleanup now)

/-- The events of a sequence of inputs. -/
def eventsOf (inputs : List Input) : List Event := inputs.filterMap Input.event?

/-- An event that panics after the history `events`: a chunk with the largest
index for a transfer that is open, or the end of an open transfer whose distinct
indices agree in number with its announcement, and whose announced size exceeds
`isize::MAX`. -/
def Dangerous (events : List Event) : Event → Prop
  | .message _ (.direct _) => False
  | .message _ (.chunkStart _ _ _ _) => False
  | .message _ (.chunk t index _) =>
      index.toNat = 2 ^ 32 - 1 ∧ ∃ a post, Opening t events a post
  | .message _ (.chunkEnd t) =>
      ∃ a post, Opening t events a post ∧
        ((chunksOf t post).map Prod.fst).toFinset.card % 2 ^ 32 = a.totalChunks.toNat ∧
        isizeMax < a.totalSize.toNat
  | .cleanup _ => False

/-- A history none of whose events is dangerous after the ones before it. -/
def Harmless (events : List Event) : Prop :=
  ∀ pre e post, events = pre ++ e :: post → ¬ Dangerous pre e

theorem harmless_nil : Harmless [] := by
  intro pre e post h
  simp at h

/-- A longer history is harmless when the shorter one is and its last event is
not dangerous. -/
theorem harmless_concat {events : List Event} {e : Event} :
    Harmless (events ++ [e]) ↔ Harmless events ∧ ¬ Dangerous events e := by
  constructor
  · intro h
    refine ⟨fun pre e' post heq => h pre e' (post ++ [e]) ?_, h events e [] rfl⟩
    simp [heq]
  · rintro ⟨h, hlast⟩ pre e' post heq
    rcases List.eq_nil_or_concat post with rfl | ⟨post, e'', rfl⟩
    · -- the split is at the last event
      obtain ⟨rfl, hone⟩ := List.append_inj' heq rfl
      obtain rfl : e = e' := List.singleton_injective hone
      exact hlast
    · have heq' : events ++ [e] = (pre ++ e' :: post) ++ [e''] := by simp [heq]
      exact h pre e' post (List.append_inj' heq' rfl).1

variable {sha : Sha256}

/-- **The panic condition on the table is the one on the history.** -/
theorem trips_iff_dangerous {events : List Event} {now : ℕ} {m : NetworkMessage} :
    Trips .checked (history sha events) m ↔ Dangerous events (.message now m) := by
  cases m with
  | direct content => exact Iff.rfl
  | chunkStart tid total hash size => exact Iff.rfl
  | chunk tid index data =>
    -- `index + 1` overflows at the largest index, if the transfer is open
    have hlt : index.toNat < 2 ^ 32 := index.toNat_lt
    have hindex : 2 ^ 32 ≤ index.toNat + 1 ↔ index.toNat = 2 ^ 32 - 1 := by omega
    have hopen : (history sha events tid).isSome = true ↔
        ∃ a post, Opening tid events a post := by
      rw [Option.isSome_iff_exists]
      constructor
      · rintro ⟨state, hs⟩
        obtain ⟨a, post, ho, -⟩ := history_eq_some_iff.mp hs
        exact ⟨a, post, ho⟩
      · rintro ⟨a, post, ho⟩
        exact ⟨_, history_eq_some_iff.mpr ⟨a, post, ho, rfl⟩⟩
    simp only [Trips, Dangerous, Build.checked, true_and, hopen, hindex]
    exact and_comm
  | chunkEnd tid =>
    -- the capacity is requested only after the count was found right
    have hcount : ∀ (a : Announcement) (post : List Event),
        UInt32.ofNat (a.state.collect (chunksOf tid post)).received.keys.length =
            a.totalChunks ↔
          ((chunksOf tid post).map Prod.fst).toFinset.card % 2 ^ 32 = a.totalChunks.toNat :=
      fun a post => ofNat_length_keys_collect
    simp only [Trips, Dangerous, Build.checked, true_and]
    constructor
    · rintro ⟨state, hs, hlen, hsize⟩
      obtain ⟨a, post, ho, rfl⟩ := history_eq_some_iff.mp hs
      exact ⟨a, post, ho, (hcount a post).mp hlen, hsize⟩
    · rintro ⟨a, post, ho, hlen, hsize⟩
      exact ⟨_, history_eq_some_iff.mpr ⟨a, post, ho, rfl⟩, (hcount a post).mpr hlen, hsize⟩

/-- One input after a harmless history: it panics when its event is dangerous,
and otherwise extends the history. -/
theorem stepInput_history (events : List Event) (i : Input) :
    (∀ e, i.event? = some e → ¬ Dangerous events e) →
      (stepInput .checked sha (history sha events) i).map Prod.snd =
        .ok (history sha (events ++ i.event?.toList)) := by
  intro h
  cases i with
  | cleanup now =>
    have hev : (Input.cleanup now).event?.toList = [Event.cleanup now] := rfl
    rw [hev, history_concat]
    rfl
  | data now bytes =>
    cases hm : NetworkMessage.fromBytes bytes with
    | none =>
      have hev : (Input.data now bytes).event?.toList = [] := by simp [Input.event?, hm]
      rw [hev, List.append_nil, stepInput, handleIncomingMessage_of_none hm]
      rfl
    | some m =>
      have hev : (Input.data now bytes).event? = some (.message now m) := by
        simp [Input.event?, hm]
      have hsafe : ¬ Trips .checked (history sha events) m := fun ht =>
        h _ hev (trips_iff_dangerous.mp ht)
      rw [hev, Option.toList_some, history_concat, stepInput,
        handleIncomingMessage_of_message hm, handleNetworkMessage_eq_ok hsafe]
      rfl

/-- A dangerous input panics. -/
theorem stepInput_error {events : List Event} {i : Input} {e : Event}
    (hev : i.event? = some e) (h : Dangerous events e) :
    ∃ p, stepInput .checked sha (history sha events) i = .error p := by
  cases i with
  | cleanup now =>
    obtain rfl := Option.some.inj hev
    exact h.elim
  | data now bytes =>
    obtain ⟨m, hm, rfl⟩ := Option.map_eq_some_iff.mp hev
    obtain ⟨p, hp⟩ := handleNetworkMessage_eq_error (trips_iff_dangerous.mpr h)
    refine ⟨p, ?_⟩
    rw [stepInput, handleIncomingMessage_of_message hm]
    exact hp

/-! ### Whole runs -/

theorem eventsOf_concat (inputs : List Input) (i : Input) :
    eventsOf (inputs ++ [i]) = eventsOf inputs ++ i.event?.toList := by
  cases h : i.event? <;> simp [eventsOf, h]

theorem runInputs_concat {build : Build} {states : ChunkStates} (inputs : List Input)
    (i : Input) :
    runInputs build sha states (inputs ++ [i]) =
      (runInputs build sha states inputs).bind fun states =>
        (stepInput build sha states i).map Prod.snd := by
  simp only [runInputs, List.foldlM_append, List.foldlM_cons, List.foldlM_nil, bind_pure]
  rfl

/-- **A harmless run does not panic**, and ends in its history. -/
theorem runInputs_of_harmless {inputs : List Input} (h : Harmless (eventsOf inputs)) :
    runInputs .checked sha ChunkStates.empty inputs = .ok (history sha (eventsOf inputs)) := by
  induction inputs using List.reverseRecOn with
  | nil => rfl
  | append_singleton inputs i ih =>
    rw [eventsOf_concat] at h
    have hbefore : Harmless (eventsOf inputs) := by
      cases hev : i.event? with
      | none => simpa [hev] using h
      | some e => exact (harmless_concat.mp (by simpa [hev] using h)).1
    have hlast : ∀ e, i.event? = some e → ¬ Dangerous (eventsOf inputs) e := by
      intro e hev
      exact (harmless_concat.mp (by simpa [hev] using h)).2
    rw [runInputs_concat, ih hbefore, eventsOf_concat]
    exact stepInput_history (eventsOf inputs) i hlast

/-- A run with a dangerous event panics. -/
theorem runInputs_of_not_harmless {inputs : List Input} (h : ¬ Harmless (eventsOf inputs)) :
    ∃ p, runInputs .checked sha ChunkStates.empty inputs = .error p := by
  induction inputs using List.reverseRecOn with
  | nil => exact absurd harmless_nil h
  | append_singleton inputs i ih =>
    rw [runInputs_concat]
    by_cases hbefore : Harmless (eventsOf inputs)
    · -- the first dangerous event is the last input's
      rw [runInputs_of_harmless hbefore]
      cases hev : i.event? with
      | none => exact absurd (by simpa [eventsOf_concat, hev] using hbefore) h
      | some e =>
        have hdanger : Dangerous (eventsOf inputs) e := by
          by_contra hsafe
          refine h ?_
          rw [eventsOf_concat, hev, Option.toList_some]
          exact harmless_concat.mpr ⟨hbefore, hsafe⟩
        obtain ⟨p, hp⟩ : ∃ p, stepInput .checked sha (history sha (eventsOf inputs)) i =
            .error p := stepInput_error hev hdanger
        exact ⟨p, by simp [Except.bind, Except.map, hp]⟩
    · obtain ⟨p, hp⟩ := ih hbefore
      exact ⟨p, by rw [hp]; rfl⟩

/-- **A run of the receiver panics exactly when a dangerous event occurs in
it**: a chunk with the largest index for an open transfer, or the end of a
complete transfer announced with a size above `isize::MAX`. -/
theorem runInputs_ok_iff_harmless (sha : Sha256) (inputs : List Input) :
    (∃ states, runInputs .checked sha ChunkStates.empty inputs = .ok states) ↔
      Harmless (eventsOf inputs) := by
  constructor
  · rintro ⟨states, hok⟩
    by_contra h
    obtain ⟨p, hp⟩ : ∃ p, runInputs .checked sha ChunkStates.empty inputs = .error p :=
      runInputs_of_not_harmless h
    rw [hok] at hp
    exact absurd hp (by simp)
  · intro h
    exact ⟨_, runInputs_of_harmless h⟩

/-- An announcement of no chunks and `u64::MAX` bytes, followed by its end,
requests that capacity. -/
theorem runInputs_zero_chunks_panics :
    ¬ ∀ (sha : Sha256) (inputs : List Input),
      ∃ states, runInputs .checked sha ChunkStates.empty inputs = .ok states := by
  intro h
  have hpanic : runInputs .checked default ChunkStates.empty
      [.data 0 (NetworkMessage.codec.encode (.chunkStart "t" 0 "" 0xFFFFFFFFFFFFFFFF)),
        .data 0 (NetworkMessage.codec.encode (.chunkEnd "t"))] =
      .error .capacityOverflow := rfl
  obtain ⟨states, hok⟩ := h default
    [.data 0 (NetworkMessage.codec.encode (.chunkStart "t" 0 "" 0xFFFFFFFFFFFFFFFF)),
      .data 0 (NetworkMessage.codec.encode (.chunkEnd "t"))]
  rw [hpanic] at hok
  exact absurd hok (by simp)

end P2pClipboard
