import P2pClipboard.Clipboard
import P2pClipboard.Lib.Runs

/-!
# The monitor and the proxy, step by step

`get_clipboard_content` runs in the thread of the clipboard monitor and
`set_clipboard_content` in the proxy.  They share the lock of the deduplication state and
nothing else: the proxy notes a text and writes it to the clipboard in two steps, and the
monitor reads the clipboard, compares, and enqueues in three.  This module follows one node
through these steps, for texts, with the user copying at any moment.

As long as the steps of the two do not overlap on different texts, nothing the proxy wrote
is sent back.  When they do, the note of one text is replaced before the other was compared
with it.

## Main definitions

* `TextNode`, `TextAction`, `TextNode.step` — the steps.
* `TextAction.Apart` — the monitor and the proxy are not at different texts.
* `TextNode.Quiet` — what is read later is known, or was copied here.

## Main results

* `run_note_write`, `run_read_compare` — the steps, one after the other, are the two
  functions.
* `enqueued_was_copied` — **what is enqueued was copied here**, in every run of steps that
  stay apart.
-/

namespace P2pClipboard

/-! ### The steps -/

/-- Where the monitor is in `get_clipboard_content`. -/
inductive Monitor
  /-- It waits for a notification. -/
  | idle
  /-- It has read a text, and not compared it yet. -/
  | hasRead (contents : String)
  /-- It has noted a text, and not enqueued it yet. -/
  | hasNoted (contents : String)
  deriving DecidableEq, Repr

/-- A node whose clipboard holds texts. -/
structure TextNode where
  /-- What is on the clipboard. -/
  clipboard : Option String
  /-- The shared state. -/
  dedup : DeduplicationState := {}
  /-- The changes the monitor has not been told of. -/
  pending : ℕ := 0
  /-- The text the proxy has noted and not written yet. -/
  proxy : Option String := none
  /-- The monitor. -/
  monitor : Monitor := .idle
  /-- The contents enqueued. -/
  enqueued : List ClipboardContent := []
  /-- For the record only: the texts copied on this node. -/
  copied : List String := []
  deriving DecidableEq, Repr

/-- A step of the node. -/
inductive TextAction
  /-- The user copies a text. -/
  | copy (text : String)
  /-- The proxy notes a received text. -/
  | note (text : String)
  /-- The proxy writes it. -/
  | write
  /-- The monitor reads the clipboard for a change. -/
  | read
  /-- The monitor locks the shared state, compares and notes. -/
  | compare
  /-- The monitor enqueues, if the channel has room. -/
  | enqueue (room : Bool)
  deriving DecidableEq, Repr

/-- One step, if it is possible. -/
def TextNode.step (s : TextNode) : TextAction → Option TextNode
  | .copy text =>
      some { s with
        clipboard := some text
        pending := s.pending + 1
        copied := text :: s.copied }
  | .note text =>
      match s.proxy with
      | none => some { s with dedup := ⟨some text, none, none⟩, proxy := some text }
      | some _ => none
  | .write =>
      match s.proxy with
      | some text =>
          some { s with clipboard := some text, pending := s.pending + 1, proxy := none }
      | none => none
  | .read =>
      if 0 < s.pending ∧ s.monitor = .idle then
        some { s with
          pending := s.pending - 1
          monitor := s.clipboard.elim .idle .hasRead }
      else none
  | .compare =>
      match s.monitor with
      | .hasRead contents =>
          if s.dedup.lastText = some contents then some { s with monitor := .idle }
          else some { s with dedup := ⟨some contents, none, none⟩, monitor := .hasNoted contents }
      | _ => none
  | .enqueue room =>
      match s.monitor with
      | .hasNoted contents =>
          some { s with
            monitor := .idle
            enqueued := s.enqueued ++ (trySend room (some (.text contents))).toList }
      | _ => none

/-- **The steps of the proxy are `set_clipboard_content`.** -/
theorem run_note_write (env : Env) (fs : FileSystem Bytes) {s : TextNode} (text : String)
    (hidle : s.proxy = none) :
    Runs.run TextNode.step s [.note text, .write] =
        some { s with
          dedup := (setClipboardContent env {} (.text text) s.dedup fs).dedup
          clipboard := some text
          pending := s.pending + 1 } ∧
      (setClipboardContent env {} (.text text) s.dedup fs).written = some (.text text) := by
  obtain ⟨clipboard, dedup, pending, proxy, monitor, enqueued, copied⟩ := s
  obtain rfl : proxy = none := hidle
  exact ⟨rfl, rfl⟩

/-- **The steps of the monitor are `get_clipboard_content`**, which ends early when the text
is known. -/
theorem run_read_compare (env : Env) (view : FsView) (fuel : ℕ) (room : Bool) {s : TextNode}
    {text : String} (hidle : s.monitor = .idle) (hpending : 0 < s.pending)
    (htext : s.clipboard = some text) :
    ∃ sent dedup',
      getClipboardContent env view fuel room ((ClipboardValue.text text).observe true) s.dedup =
          some (sent, dedup') ∧
        Runs.run TextNode.step s (if s.dedup.lastText = some text then [.read, .compare]
          else [.read, .compare, .enqueue room]) =
            some { s with
              dedup := dedup'
              pending := s.pending - 1
              enqueued := s.enqueued ++ sent.toList } := by
  obtain ⟨clipboard, dedup, pending, proxy, monitor, enqueued, copied⟩ := s
  obtain rfl : monitor = .idle := hidle
  obtain rfl : clipboard = some text := htext
  have hp : 0 < pending := hpending
  by_cases hknown : dedup.lastText = some text
  · refine ⟨none, dedup, by simp [getClipboardContent, ClipboardValue.observe, hknown], ?_⟩
    simp [Runs.run, TextNode.step, hp, hknown]
  · refine ⟨trySend room (some (.text text)), ⟨some text, none, none⟩,
      by simp [getClipboardContent, ClipboardValue.observe, hknown], ?_⟩
    simp [Runs.run, TextNode.step, hp, hknown]

/-! ### Steps that stay apart -/

/-- The monitor and the proxy are not at different texts: the proxy does not note a text
while the monitor holds another one that it has not compared, and the monitor does not read
a text while the proxy has noted another one that it has not written. -/
def TextAction.Apart (s : TextNode) : TextAction → Prop
  | .note text => ∀ contents, s.monitor = .hasRead contents → contents = text
  | .read => ∀ text, s.proxy = some text → s.clipboard = some text
  | _ => True

/-- What is read later is known, or was copied here. -/
structure TextNode.Quiet (s : TextNode) : Prop where
  /-- What the proxy is about to write is noted. -/
  proxy : ∀ text, s.proxy = some text → s.dedup.lastText = some text
  /-- What the monitor is about to compare was copied, or is noted. -/
  hasRead : ∀ contents, s.monitor = .hasRead contents →
    contents ∈ s.copied ∨ s.dedup.lastText = some contents
  /-- The two are at the same text. -/
  same : ∀ text contents, s.proxy = some text → s.monitor = .hasRead contents → contents = text
  /-- What the monitor will read was copied, or is noted. -/
  clipboard : s.proxy = none → 0 < s.pending → ∀ text, s.clipboard = some text →
    text ∈ s.copied ∨ s.dedup.lastText = some text
  /-- It was copied when the monitor is about to note another text. -/
  renewed : ∀ contents, s.monitor = .hasRead contents → s.dedup.lastText ≠ some contents →
    ∀ text, s.clipboard = some text → text ∈ s.copied
  /-- What the monitor is about to enqueue was copied. -/
  hasNoted : ∀ contents, s.monitor = .hasNoted contents → contents ∈ s.copied
  /-- What it enqueued was copied. -/
  enqueued : ∀ c ∈ s.enqueued, ∃ text ∈ s.copied, c = .text text

namespace TextNode.Quiet

variable {s s' : TextNode}

/-- Between two reads nothing is asked of the monitor. -/
theorem of_idle (hidle : s.monitor = .idle)
    (hproxy : ∀ text, s.proxy = some text → s.dedup.lastText = some text)
    (hclipboard : s.proxy = none → 0 < s.pending → ∀ text, s.clipboard = some text →
      text ∈ s.copied ∨ s.dedup.lastText = some text)
    (henqueued : ∀ c ∈ s.enqueued, ∃ text ∈ s.copied, c = .text text) : s.Quiet where
  proxy := hproxy
  hasRead _ hread := absurd (hidle.symm.trans hread) (by simp)
  same _ _ _ hread := absurd (hidle.symm.trans hread) (by simp)
  clipboard := hclipboard
  renewed _ hread := absurd (hidle.symm.trans hread) (by simp)
  hasNoted _ hnoted := absurd (hidle.symm.trans hnoted) (by simp)
  enqueued := henqueued

theorem copy (h : s.Quiet) {text : String} (hstep : s.step (.copy text) = some s') : s'.Quiet := by
  obtain rfl := Option.some.inj hstep
  refine ⟨h.proxy, ?_, h.same, ?_, ?_, ?_, ?_⟩
  · intro contents hread
    exact (h.hasRead contents hread).imp_left (List.mem_cons_of_mem _)
  · intro _ _ t ht
    obtain rfl := Option.some.inj ht
    exact .inl List.mem_cons_self
  · intro _ _ _ t ht
    obtain rfl := Option.some.inj ht
    exact List.mem_cons_self
  · intro contents hnoted
    exact List.mem_cons_of_mem _ (h.hasNoted contents hnoted)
  · intro c hc
    obtain ⟨t, ht, rfl⟩ := h.enqueued c hc
    exact ⟨t, List.mem_cons_of_mem _ ht, rfl⟩

theorem note (h : s.Quiet) {text : String} (happart : (TextAction.note text).Apart s)
    (hstep : s.step (.note text) = some s') : s'.Quiet := by
  simp only [TextNode.step] at hstep
  split at hstep
  · obtain rfl := Option.some.inj hstep
    refine ⟨fun t ht => ht, ?_, ?_, ?_, ?_, h.hasNoted, h.enqueued⟩
    · intro contents hread
      exact .inr (congrArg some (happart contents hread).symm)
    · intro t contents ht hread
      obtain rfl := Option.some.inj ht
      exact happart contents hread
    · intro hidle
      exact absurd hidle (by simp)
    · intro contents hread hne
      exact absurd (congrArg some (happart contents hread).symm) hne
  · exact absurd hstep (by simp)

theorem write (h : s.Quiet) (hstep : s.step .write = some s') : s'.Quiet := by
  simp only [TextNode.step] at hstep
  split at hstep
  · rename_i text hproxy
    obtain rfl := Option.some.inj hstep
    have hnoted : s.dedup.lastText = some text := h.proxy text hproxy
    refine ⟨fun t ht => absurd ht (by simp), h.hasRead, fun t _ ht => absurd ht (by simp), ?_, ?_,
      h.hasNoted, h.enqueued⟩
    · intro _ _ t ht
      obtain rfl := Option.some.inj ht
      exact .inr hnoted
    · -- the monitor, if it has read anything, is at this very text
      intro contents hread hne
      exact absurd (h.same text contents hproxy hread ▸ hnoted) hne
  · exact absurd hstep (by simp)

theorem read (h : s.Quiet) (hapart : TextAction.read.Apart s)
    (hstep : s.step .read = some s') : s'.Quiet := by
  simp only [TextNode.step] at hstep
  split at hstep
  swap
  · exact absurd hstep (by simp)
  rename_i hready
  obtain ⟨hpending, hidle⟩ := hready
  obtain rfl := Option.some.inj hstep
  cases hclip : s.clipboard with
  | none =>
    -- nothing to read: the monitor waits again
    exact of_idle rfl h.proxy (fun _ _ t ht => absurd ht (by simp)) h.enqueued
  | some text =>
    -- while the proxy has something to write, it is the text just read
    have hknown : text ∈ s.copied ∨ s.dedup.lastText = some text := by
      cases hproxy : s.proxy with
      | none => exact h.clipboard hproxy hpending text hclip
      | some noted =>
        obtain rfl := Option.some.inj (hclip.symm.trans (hapart noted hproxy))
        exact .inr (h.proxy text hproxy)
    refine ⟨h.proxy, ?_, ?_, ?_, ?_, fun _ hnoted => absurd hnoted (by simp), h.enqueued⟩
    · intro contents hread
      obtain rfl := Monitor.hasRead.inj hread
      exact hknown
    · intro t contents ht hread
      obtain rfl := Monitor.hasRead.inj hread
      exact Option.some.inj (hclip.symm.trans (hapart t ht))
    · intro hproxy _ t ht
      exact h.clipboard hproxy hpending t (hclip.trans ht)
    · intro contents hread hne t ht
      obtain rfl := Monitor.hasRead.inj hread
      obtain rfl := Option.some.inj ht
      exact hknown.resolve_right hne

theorem compare (h : s.Quiet) (hstep : s.step .compare = some s') : s'.Quiet := by
  simp only [TextNode.step] at hstep
  split at hstep
  swap
  · exact absurd hstep (by simp)
  rename_i contents hread
  split at hstep
  · obtain rfl := Option.some.inj hstep
    exact of_idle rfl h.proxy h.clipboard h.enqueued
  · rename_i hnew
    obtain rfl := Option.some.inj hstep
    have hcopied : contents ∈ s.copied := (h.hasRead contents hread).resolve_right hnew
    refine ⟨?_, fun _ hr => absurd hr (by simp), fun _ _ _ hr => absurd hr (by simp), ?_,
      fun _ hr => absurd hr (by simp), ?_, h.enqueued⟩
    · -- a text the proxy has noted would have been found
      intro t ht
      exact absurd (h.same t contents ht hread ▸ h.proxy t ht) hnew
    · intro _ _ t ht
      exact .inl (h.renewed contents hread hnew t ht)
    · intro t hnoted
      obtain rfl := Monitor.hasNoted.inj hnoted
      exact hcopied

theorem enqueue (h : s.Quiet) {room : Bool} (hstep : s.step (.enqueue room) = some s') :
    s'.Quiet := by
  simp only [TextNode.step] at hstep
  split at hstep
  swap
  · exact absurd hstep (by simp)
  rename_i contents hnoted
  obtain rfl := Option.some.inj hstep
  refine of_idle rfl h.proxy h.clipboard ?_
  intro c hc
  rcases List.mem_append.mp hc with hold | hnew
  · exact h.enqueued c hold
  · cases room with
    | false => exact absurd hnew (by simp [trySend])
    | true => exact ⟨contents, h.hasNoted contents hnoted, by simpa [trySend] using hnew⟩

/-- **A step that stays apart keeps the node quiet.** -/
theorem step (h : s.Quiet) {a : TextAction} (hapart : a.Apart s) (hstep : s.step a = some s') :
    s'.Quiet := by
  cases a with
  | copy text => exact h.copy hstep
  | note text => exact h.note hapart hstep
  | write => exact h.write hstep
  | read => exact h.read hapart hstep
  | compare => exact h.compare hstep
  | enqueue room => exact h.enqueue hstep

/-- A node that has just been started. -/
theorem start (clipboard : Option String) : TextNode.Quiet { clipboard } :=
  of_idle rfl (fun _ h => absurd h (by simp)) (fun _ h => absurd h (by simp))
    (fun _ h => absurd h (by simp))

end TextNode.Quiet

/-- **What is enqueued was copied here.**  In every run of steps, in any order, in which the
monitor and the proxy are never at different texts, every text that was enqueued was copied
by the user of this node. -/
theorem enqueued_was_copied (clipboard : Option String) (actions : List TextAction)
    {s : TextNode} (hapart : Runs.Along TextNode.step (fun s a => a.Apart s) { clipboard } actions)
    (hrun : Runs.run TextNode.step { clipboard } actions = some s) :
    ∀ c ∈ s.enqueued, ∃ text ∈ s.copied, c = .text text :=
  (Runs.run_invariant (fun _ _ _ hq hc hstep => hq.step hc hstep) (TextNode.Quiet.start clipboard)
    hapart hrun).enqueued

instance decidableApart (s : TextNode) : (a : TextAction) → Decidable (a.Apart s)
  | .copy _ => inferInstanceAs (Decidable True)
  | .note text =>
      match h : s.monitor with
      | .hasRead contents =>
          decidable_of_iff (contents = text)
            ⟨fun heq _ hread => Monitor.hasRead.inj (h.symm.trans hread) ▸ heq,
              fun hall => hall contents h⟩
      | .idle => .isTrue fun _ hread => absurd (h.symm.trans hread) (by simp)
      | .hasNoted _ => .isTrue fun _ hread => absurd (h.symm.trans hread) (by simp)
  | .write => inferInstanceAs (Decidable True)
  | .read =>
      match h : s.proxy with
      | some text =>
          decidable_of_iff (s.clipboard = some text)
            ⟨fun heq _ hproxy => Option.some.inj (h.symm.trans hproxy) ▸ heq,
              fun hall => hall text h⟩
      | none => .isTrue fun _ hproxy => absurd (h.symm.trans hproxy) (by simp)
  | .compare => inferInstanceAs (Decidable True)
  | .enqueue _ => inferInstanceAs (Decidable True)

/-- A received text is applied and noticed, and a copied text is sent. -/
private def apartActions : List TextAction :=
  [.note "A", .write, .read, .compare, .copy "B", .read, .compare, .enqueue true]

/-- Only the copied text is sent. -/
theorem enqueued_was_copied_apart :
    Runs.Along TextNode.step (fun s a => a.Apart s) { clipboard := none } apartActions ∧
      ∃ s, Runs.run TextNode.step { clipboard := none } apartActions = some s ∧
        s.enqueued = [.text "B"] ∧ ∀ c ∈ s.enqueued, ∃ text ∈ s.copied, c = .text text := by
  have hapart : Runs.Along TextNode.step (fun s a => a.Apart s) { clipboard := none }
      apartActions := by decide +kernel
  exact ⟨hapart, _, rfl, rfl, enqueued_was_copied none apartActions hapart rfl⟩

/-- The proxy notes a second text between the monitor's read and its comparison: the first
text, which nobody copied here, is sent. -/
theorem enqueued_not_copied :
    Runs.run TextNode.step { clipboard := none }
        [.note "A", .write, .read, .note "B", .compare, .enqueue true] =
      some { clipboard := some "A", dedup := ⟨some "A", none, none⟩, proxy := some "B",
             enqueued := [.text "A"], copied := [] } := by
  decide +kernel

end P2pClipboard
