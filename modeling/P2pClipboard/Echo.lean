import P2pClipboard.Clipboard
import P2pClipboard.Lib.Runs

/-!
# Contents that come back

A content that was written to the clipboard for a remote peer changes the
clipboard, and the monitor reads the change.  It must not be sent again, or two
peers send it to each other forever.  The shared state is there to prevent this:
the writer notes what it writes, and the reader skips what is noted.

For texts and files the two sides agree on what is noted.  For images they do not:
the writer notes the hash of the PNG bytes, and the reader compares the hash of
the pixels.  So an image comes back whenever it can be decoded and written, unless
its pixels happen to be its PNG bytes.

## Main definitions

* `Noted` — the shared state knows what is on the clipboard.
* `NoEcho`, `Echoes` — nothing is sent after a write, and the contents for which
  something is.
* `Desktop`, `Action` — runs in which the user copies, contents are applied and
  the monitor reads, in any order.

## Main results

* `getClipboardContent_of_noted` — what is noted is skipped.
* `setClipboardContent_ends` — what is written is noted, images apart.
* `noEcho_iff_and_runs` — **when a content comes back**, and runs in which nothing
  does.
-/

namespace P2pClipboard

/-- The shared state knows what is on the clipboard. -/
def Noted (env : Env) (dedup : DeduplicationState) : ClipboardValue → Prop
  | .empty => True
  | .text s => dedup.lastText = some s
  | .image imgData => dedup.lastImageHash = some (hashBytes env imgData.bytes)
  | .files paths => dedup.lastFilesHash = some (hashFilePaths env paths)

/-- **What is noted is skipped.** -/
theorem getClipboardContent_of_noted {env : Env} {view : FsView} {fuel : ℕ} {room opens : Bool}
    {dedup : DeduplicationState} {v : ClipboardValue} (h : Noted env dedup v) :
    getClipboardContent env view fuel room (v.observe opens) dedup = some (none, dedup) := by
  cases v with
  | empty => cases opens <;> rfl
  | text s =>
    have hs : dedup.lastText = some s := h
    cases opens <;> simp [getClipboardContent, ClipboardValue.observe, hs]
  | image imgData =>
    have hi : dedup.lastImageHash = some (hashBytes env imgData.bytes) := h
    cases opens <;> simp [getClipboardContent, ClipboardValue.observe, hi]
  | files paths =>
    have hp : dedup.lastFilesHash = some (hashFilePaths env paths) := h
    simp [getClipboardContent, ClipboardValue.observe, hp]

/-- Texts can be written to the clipboard. -/
def ClipboardCalls.Works (calls : ClipboardCalls) : Prop :=
  calls.opensFallback = true ∧ ∀ t, calls.setText t = true

/-- How a write can end: nothing was done, or something was written and noted, or
a text could not be written. -/
inductive WriteEnds (env : Env) (calls : ClipboardCalls) (dedup : DeduplicationState) :
    DeduplicationState × Option ClipboardValue → Prop
  | nothing : WriteEnds env calls dedup (dedup, none)
  | noted {dedup' v} : Noted env dedup' v → WriteEnds env calls dedup (dedup', some v)
  | failed {dedup'} : ¬ calls.Works → WriteEnds env calls dedup (dedup', none)

theorem WriteEnds.isNoted {env : Env} {calls : ClipboardCalls} {dedup dedup' : DeduplicationState}
    {v : ClipboardValue} (h : WriteEnds env calls dedup (dedup', some v)) :
    Noted env dedup' v := by
  cases h with
  | noted hnoted => exact hnoted

theorem WriteEnds.dedup_eq {env : Env} {calls : ClipboardCalls}
    {dedup dedup' : DeduplicationState} (h : WriteEnds env calls dedup (dedup', none))
    (hworks : calls.Works) : dedup' = dedup := by
  cases h with
  | nothing => rfl
  | failed hfails => exact absurd hworks hfails

section Set

variable {env : Env} {calls : ClipboardCalls} {dedup : DeduplicationState}
  {fs : FileSystem Bytes}

theorem setFileClipboard_ends (paths : List String) :
    WriteEnds env calls dedup (setFileClipboard env calls paths dedup) := by
  unfold setFileClipboard
  by_cases hnil : paths = []
  · rw [if_pos hnil]
    exact .nothing
  · rw [if_neg hnil]
    by_cases hnative : calls.setFileList paths = true
    · simp only [hnative, if_true]
      exact .noted rfl
    · -- the fallback notes the text it writes
      simp only [hnative, Bool.false_eq_true, if_false]
      by_cases htext : (calls.opensFallback && calls.setText ("\n".intercalate paths)) = true
      · rw [if_pos htext]
        exact .noted rfl
      · rw [if_neg htext]
        refine .failed fun hworks => htext ?_
        rw [hworks.1, hworks.2]
        rfl

/-- **What is written is noted, images apart.** -/
theorem setClipboardContent_ends {c : ClipboardContent} (hc : ∀ png, c ≠ .image png) :
    WriteEnds env calls dedup
      ((setClipboardContent env calls c dedup fs).dedup,
        (setClipboardContent env calls c dedup fs).written) := by
  unfold setClipboardContent
  by_cases hopens : calls.opens = false
  · rw [if_pos hopens]
    exact .nothing
  · rw [if_neg hopens]
    cases c with
    | text s =>
      by_cases htext : calls.setText s = true
      · simp only [htext, if_true]
        exact .noted rfl
      · simp only [htext, Bool.false_eq_true, if_false]
        exact .failed fun hworks => htext (hworks.2 s)
    | image png => exact absurd rfl (hc png)
    | file name bytes => exact setFileClipboard_ends _
    | files entries => exact setFileClipboard_ends _

end Set

/-! ### When a content comes back -/

/-- After the content was applied, the change it caused enqueues nothing. -/
def NoEcho (env : Env) (calls : ClipboardCalls) (c : ClipboardContent)
    (dedup : DeduplicationState) (fs : FileSystem Bytes) (view : FsView) (fuel : ℕ)
    (room opens : Bool) : Prop :=
  ∀ v, (setClipboardContent env calls c dedup fs).written = some v →
    ∃ dedup', getClipboardContent env view fuel room (v.observe opens)
      (setClipboardContent env calls c dedup fs).dedup = some (none, dedup')

/-- The contents that come back: images that can be decoded, written, read and
encoded again, while the channel has room. -/
def Echoes (env : Env) (calls : ClipboardCalls) (room opens : Bool) : ClipboardContent → Prop
  | .image png => ∃ width height rgba,
      env.png.decodePngToRgba png = some (width, height, rgba) ∧ rgba ≠ png ∧
      calls.opens = true ∧ calls.setImage ⟨width, height, rgba⟩ = true ∧ opens = true ∧
      room = true ∧
      (env.png.encodeRgbaToPng rgba (UInt32.ofNat width) (UInt32.ofNat height)).isSome = true
  | _ => False

/-- The hash tells the two byte strings apart that are compared for a content. -/
def CollisionFree (env : Env) (c : ClipboardContent) : Prop :=
  ∀ png width height rgba, c = .image png →
    env.png.decodePngToRgba png = some (width, height, rgba) →
    hashBytes env rgba = hashBytes env png → rgba = png

/-- An image comes back exactly when it gets that far and its pixels are not its PNG
bytes: the reader compares a hash the writer did not note. -/
theorem noEcho_image_iff {env : Env} {calls : ClipboardCalls} {png : Bytes}
    {dedup : DeduplicationState} {fs : FileSystem Bytes} {view : FsView} {fuel : ℕ}
    {room opens : Bool} (hcoll : CollisionFree env (.image png)) :
    NoEcho env calls (.image png) dedup fs view fuel room opens ↔
      ¬ Echoes env calls room opens (.image png) := by
  unfold NoEcho setClipboardContent
  by_cases hopens : calls.opens = false
  · simp [hopens, Echoes]
  cases hdec : env.png.decodePngToRgba png with
  | none => simp [hopens, Echoes, hdec]
  | some img =>
    obtain ⟨width, height, rgba⟩ := img
    by_cases hset : calls.setImage ⟨width, height, rgba⟩ = true
    · -- noted is the hash of the PNG, compared is the hash of the pixels
      have hhash : hashBytes env png = hashBytes env rgba ↔ rgba = png :=
        ⟨fun h => hcoll png width height rgba rfl hdec h.symm, fun h => by rw [h]⟩
      cases opens with
      | false => simp [hopens, Echoes, hdec, hset, getClipboardContent, ClipboardValue.observe]
      | true =>
        by_cases heq : rgba = png
        · simp [hopens, Echoes, hdec, getClipboardContent, ClipboardValue.observe, heq]
        · cases room <;>
            cases env.png.encodeRgbaToPng rgba (UInt32.ofNat width) (UInt32.ofNat height) <;>
            simp_all [Echoes, getClipboardContent, ClipboardValue.observe, trySend]
    · simp [hopens, Echoes, hdec, hset]

/-- **A content comes back exactly when it is such an image.** -/
theorem noEcho_iff {env : Env} {calls : ClipboardCalls} {c : ClipboardContent}
    {dedup : DeduplicationState} {fs : FileSystem Bytes} {view : FsView} {fuel : ℕ}
    {room opens : Bool} (hcoll : CollisionFree env c) :
    NoEcho env calls c dedup fs view fuel room opens ↔ ¬ Echoes env calls room opens c := by
  by_cases hc : ∀ png, c ≠ .image png
  · have hnot : ¬ Echoes env calls room opens c := by
      cases c with
      | image png => exact absurd rfl (hc png)
      | text s => exact not_false
      | file name bytes => exact not_false
      | files entries => exact not_false
    refine iff_of_true ?_ hnot
    intro v hv
    have hends : WriteEnds env calls dedup
        ((setClipboardContent env calls c dedup fs).dedup, some v) :=
      hv ▸ setClipboardContent_ends hc
    exact ⟨_, getClipboardContent_of_noted hends.isNoted⟩
  · push Not at hc
    obtain ⟨png, rfl⟩ := hc
    exact noEcho_image_iff hcoll

/-! ### Runs -/

/-- A node's clipboard with what it has enqueued.  Two fields are for the record
only: whether a remote content is on the clipboard, and whether it was when a
content was enqueued. -/
structure Desktop where
  /-- What is on the clipboard. -/
  clipboard : ClipboardValue
  /-- It was written for a remote peer. -/
  fromNetwork : Bool
  /-- The shared state. -/
  dedup : DeduplicationState
  /-- The file system. -/
  fs : FileSystem Bytes
  /-- The contents enqueued, each with the origin of what it was read from. -/
  enqueued : List (ClipboardContent × Bool)

/-- What happens on a node, one call after the other. -/
inductive Action
  /-- The user copies something. -/
  | copy (v : ClipboardValue)
  /-- The proxy applies a received content. -/
  | apply (calls : ClipboardCalls) (c : ClipboardContent)
  /-- The monitor reads the clipboard. -/
  | notice (view : FsView) (fuel : ℕ) (room opens : Bool)

/-- One call.  There is no next state if a directory could not be read within the
budget. -/
def Desktop.step (env : Env) (d : Desktop) : Action → Option Desktop
  | .copy v => some { d with clipboard := v, fromNetwork := false }
  | .apply calls c =>
      let out := setClipboardContent env calls c d.dedup d.fs
      some { d with
        clipboard := out.written.getD d.clipboard
        fromNetwork := d.fromNetwork || out.written.isSome
        dedup := out.dedup
        fs := out.fs }
  | .notice view fuel room opens =>
      (getClipboardContent env view fuel room (d.clipboard.observe opens) d.dedup).map fun r =>
        { d with
          dedup := r.2
          enqueued := d.enqueued ++ r.1.toList.map fun c => (c, d.fromNetwork) }

/-- A sequence of calls. -/
def Desktop.run (env : Env) (d : Desktop) (actions : List Action) : Option Desktop :=
  actions.foldlM (Desktop.step env) d

/-- The contents applied are no images, and texts can be written. -/
def Action.Harmless : Action → Prop
  | .apply calls c => (∀ png, c ≠ .image png) ∧ calls.Works
  | _ => True

/-- What a remote peer put on the clipboard is noted, and nothing was enqueued
from it. -/
structure Desktop.Quiet (env : Env) (d : Desktop) : Prop where
  /-- What is on the clipboard is known. -/
  noted : d.fromNetwork = true → Noted env d.dedup d.clipboard
  /-- Only local contents were enqueued. -/
  enqueued : ∀ e ∈ d.enqueued, e.2 = false

/-- One harmless call keeps a node quiet. -/
theorem Desktop.Quiet.step {env : Env} {d d' : Desktop} {a : Action} (h : d.Quiet env)
    (ha : a.Harmless) (hstep : d.step env a = some d') : d'.Quiet env := by
  cases a with
  | copy v =>
    obtain rfl := Option.some.inj hstep
    exact ⟨fun hf => absurd hf (by simp), h.enqueued⟩
  | apply calls c =>
    obtain rfl := Option.some.inj hstep
    refine ⟨fun hf => ?_, h.enqueued⟩
    have hends : WriteEnds env calls d.dedup
        ((setClipboardContent env calls c d.dedup d.fs).dedup,
          (setClipboardContent env calls c d.dedup d.fs).written) :=
      setClipboardContent_ends ha.1
    cases hw : (setClipboardContent env calls c d.dedup d.fs).written with
    | some v =>
      rw [hw] at hends
      simpa [hw] using hends.isNoted
    | none =>
      -- nothing was written: the state still knows what is there
      rw [hw] at hends
      simp only [hw, Option.isSome_none, Bool.or_false, Option.getD_none] at hf ⊢
      rw [hends.dedup_eq ha.2]
      exact h.noted hf
  | notice view fuel room opens =>
    obtain ⟨⟨sent, dedup⟩, hget, rfl⟩ := Option.map_eq_some_iff.mp hstep
    cases hf : d.fromNetwork with
    | true =>
      have hskip : getClipboardContent env view fuel room (d.clipboard.observe opens) d.dedup =
          some (none, d.dedup) := getClipboardContent_of_noted (h.noted hf)
      obtain ⟨rfl, rfl⟩ := Prod.ext_iff.mp (Option.some.inj (hget.symm.trans hskip))
      exact ⟨fun _ => h.noted hf, by simpa using h.enqueued⟩
    | false =>
      refine ⟨fun hf' => absurd hf' (by simp), ?_⟩
      intro e he
      rcases List.mem_append.mp he with he | he
      · exact h.enqueued e he
      · obtain ⟨c, -, rfl⟩ := List.mem_map.mp he
        rfl

/-- Harmless calls keep a node quiet. -/
theorem Desktop.Quiet.run {env : Env} {d d' : Desktop} {actions : List Action}
    (h : d.Quiet env) (ha : ∀ a ∈ actions, a.Harmless) (hrun : d.run env actions = some d') :
    d'.Quiet env := by
  have halong : Runs.Along (Desktop.step env) (fun _ a => a.Harmless) d actions :=
    Runs.along_of_forall fun _ => ha
  exact Runs.run_invariant (fun _ _ _ hq hc hstep => hq.step hc hstep) h halong hrun

/-- **Contents that come back.**  Applying a content is followed by silence exactly
when the content is no image that gets through; and in a run in which no images
are applied, and texts can be written, nothing that came from the network is ever
enqueued. -/
theorem noEcho_iff_and_runs (env : Env) :
    (∀ (calls : ClipboardCalls) (c : ClipboardContent) (dedup : DeduplicationState)
        (fs : FileSystem Bytes) (view : FsView) (fuel : ℕ) (room opens : Bool),
      CollisionFree env c →
        (NoEcho env calls c dedup fs view fuel room opens ↔ ¬ Echoes env calls room opens c)) ∧
    ∀ (d d' : Desktop) (actions : List Action), d.fromNetwork = false → d.enqueued = [] →
      (∀ a ∈ actions, a.Harmless) → d.run env actions = some d' →
        ∀ e ∈ d'.enqueued, e.2 = false := by
  refine ⟨fun _ _ _ _ _ _ _ _ => noEcho_iff, ?_⟩
  intro d d' actions hlocal hnone ha hrun
  have hquiet : d.Quiet env := ⟨fun h => absurd h (by simp [hlocal]), by simp [hnone]⟩
  exact (hquiet.run ha hrun).enqueued

/-! ### A red pixel -/

/-- A PNG file with one red pixel. -/
private def redPng : Bytes :=
  [137, 80, 78, 71, 13, 10, 26, 10, 0, 0, 0, 13, 73, 72, 68, 82, 0, 0, 0, 1, 0, 0, 0, 1, 8, 6, 0,
    0, 0, 31, 21, 196, 137, 0, 0, 0, 13, 73, 68, 65, 84, 120, 156, 99, 248, 207, 192, 240, 31, 0,
    5, 0, 1, 255, 137, 153, 61, 29, 0, 0, 0, 0, 73, 69, 78, 68, 174, 66, 96, 130]

/-- The pixel. -/
private def redPixel : Bytes := [255, 0, 0, 255]

/-- A library that knows the red pixel, with a hash that adds up the bytes. -/
private def redEnv : Env where
  finish bs := bs.foldl (fun h b => 31 * h + b.toUInt64) 7
  png :=
    { encodeRgbaToPng := fun rgba width height =>
        if rgba = redPixel ∧ width = 1 ∧ height = 1 then some redPng else none
      decodePngToRgba := fun png => if png = redPng then some (1, 1, redPixel) else none
      decode_encode := by
        intro rgba width height png h
        split at h
        · rename_i hred
          obtain rfl := Option.some.inj h
          simp [hred]
        · exact absurd h (by simp) }

/-- A file system that shows nothing. -/
private def blindView : FsView := ⟨fun _ => false, fun _ => false, fun _ => none, fun _ => none⟩

/-- A received text is on the clipboard, the monitor reads it, and nothing is
enqueued. -/
theorem noEcho_text_run :
    CollisionFree redEnv (.text "hi") ∧
      NoEcho redEnv {} (.text "hi") {} (FileSystem.ofDirs []) blindView 0 true true ∧
      ∀ d', Desktop.run redEnv ⟨.empty, false, {}, FileSystem.ofDirs [], []⟩
          [.apply {} (.text "hi"), .notice blindView 0 true true] = some d' →
        ∀ e ∈ d'.enqueued, e.2 = false := by
  have hcoll : CollisionFree redEnv (.text "hi") := by
    intro png _ _ _ h
    exact absurd h (by simp)
  refine ⟨hcoll, ?_, ?_⟩
  · exact ((noEcho_iff_and_runs redEnv).1 {} _ {} _ blindView 0 true true hcoll).mpr not_false
  · intro d' hrun
    refine (noEcho_iff_and_runs redEnv).2 _ d' _ rfl rfl ?_ hrun
    intro a ha
    rcases List.mem_cons.mp ha with rfl | ha
    · exact ⟨by simp, rfl, fun _ => rfl⟩
    · obtain rfl := List.mem_singleton.mp ha
      exact trivial

/-- The red pixel is sent back. -/
theorem noEcho_fails_for_image :
    ¬ ∀ (env : Env) (calls : ClipboardCalls) (c : ClipboardContent) (dedup : DeduplicationState)
        (fs : FileSystem Bytes) (view : FsView) (fuel : ℕ) (room opens : Bool),
      CollisionFree env c → NoEcho env calls c dedup fs view fuel room opens := by
  intro h
  have hcoll : CollisionFree redEnv (.image redPng) := by
    intro png width height rgba hpng hdec hhash
    obtain rfl := ClipboardContent.image.inj hpng
    have hrgba : rgba = redPixel := by
      have : some (1, 1, redPixel) = some (width, height, rgba) := hdec
      simp_all
    subst hrgba
    exact absurd hhash (by decide +kernel)
  obtain ⟨dedup', hget⟩ := h redEnv {} (.image redPng) {} (FileSystem.ofDirs []) blindView 0 true
    true hcoll (.image ⟨1, 1, redPixel⟩) rfl
  have hsent : getClipboardContent redEnv blindView 0 true
      ((ClipboardValue.image ⟨1, 1, redPixel⟩).observe true)
      (setClipboardContent redEnv {} (.image redPng) {} (FileSystem.ofDirs [])).dedup =
        some (some (.image redPng), ⟨none, some (hashBytes redEnv redPixel), none⟩) := by
    decide +kernel
  rw [hsent] at hget
  exact absurd hget (by simp)

end P2pClipboard
