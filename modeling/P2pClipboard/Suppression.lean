import P2pClipboard.Echo

/-!
# What the shared state hides

`get_clipboard_content` compares what it reads with what is noted, notes it, makes a
content of it and sends the content, in this order.  Two things can go wrong with a note.

It is made before the content is.  When the content then cannot be made, or the channel
has no room for it, nothing is sent, and copying the same thing again is a hit.

It says less than the content.  The note of an image is a hash of its pixels without
their dimensions, and the note of a file list is a hash of the paths without what they
lead to.  So a hit can hide a copy that differs from the one that was sent.

## Main definitions

* `Observation.value` — what is read, by the order in which the formats are tried.
* `ClipboardValue.note`, `ClipboardValue.build` — the note, and the content.
* `HasFile`, `CanSend` — there is something to send.
* `Watch`, `Access` — runs of reads and writes, with the read that was noted last.
* `Untouched` — what the note leaves out was not touched.

## Main results

* `getClipboardContent_eq` — compare, note, make, send.
* `unsent_unchanged_iff` — **when a copy that is not sent leaves no note.**
* `hit_hides_nothing_of_untouched` — **when a hit hides nothing**, in every run.
-/

namespace P2pClipboard

/-! ### Compare, note, make, send -/

/-- What is read: a file list before an image, an image before a text. -/
def Observation.value (obs : Observation) : ClipboardValue :=
  match obs.fileList with
  | some filePaths => .files filePaths
  | none =>
      if obs.opens = false then .empty
      else
        match obs.image with
        | some imgData => .image imgData
        | none =>
            match obs.text with
            | some contents => .text contents
            | none => .empty

/-- The shared state after the value is noted. -/
def ClipboardValue.note (env : Env) (dedup : DeduplicationState) :
    ClipboardValue → DeduplicationState
  | .empty => dedup
  | .text s => ⟨some s, none, none⟩
  | .image imgData => ⟨none, some (hashBytes env imgData.bytes), none⟩
  | .files paths => ⟨none, none, some (hashFilePaths env paths)⟩

/-- The content made of a value.  There is no result if `fuel` does not suffice to read
the directories, and no content if there is nothing to send. -/
def ClipboardValue.build (env : Env) (view : FsView) (fuel : ℕ) :
    ClipboardValue → Option (Option ClipboardContent)
  | .empty => some none
  | .text s => some (some (.text s))
  | .image imgData =>
      some ((env.png.encodeRgbaToPng imgData.bytes (UInt32.ofNat imgData.width)
        (UInt32.ofNat imgData.height)).map .image)
  | .files paths => (readFilePaths view fuel paths).map filesContent

instance decidableNoted (env : Env) (dedup : DeduplicationState) :
    (v : ClipboardValue) → Decidable (Noted env dedup v)
  | .empty => inferInstanceAs (Decidable True)
  | .text s => inferInstanceAs (Decidable (dedup.lastText = some s))
  | .image imgData =>
      inferInstanceAs (Decidable (dedup.lastImageHash = some (hashBytes env imgData.bytes)))
  | .files paths =>
      inferInstanceAs (Decidable (dedup.lastFilesHash = some (hashFilePaths env paths)))

section Get

variable {env : Env} {view : FsView} {fuel : ℕ} {room : Bool} {obs : Observation}
  {dedup dedup' : DeduplicationState} {sent : Option ClipboardContent}

/-- What is noted is known. -/
theorem noted_note (v : ClipboardValue) : Noted env (v.note env dedup) v := by
  cases v with
  | empty => exact trivial
  | text s => rfl
  | image imgData => rfl
  | files paths => rfl

/-- `get_clipboard_content` compares, notes, makes and sends. -/
theorem getClipboardContent_eq :
    getClipboardContent env view fuel room obs dedup =
      if Noted env dedup obs.value then some (none, dedup)
      else (obs.value.build env view fuel).map fun content =>
        (trySend room content, obs.value.note env dedup) := by
  obtain ⟨fileList, opens, image, text⟩ := obs
  cases fileList with
  | some filePaths =>
    simp only [getClipboardContent, Observation.value, Noted, ClipboardValue.build,
      ClipboardValue.note, Option.map_map]
    rfl
  | none =>
    cases opens with
    | false => rfl
    | true =>
      cases image with
      | some imgData =>
        simp [getClipboardContent, Observation.value, Noted, ClipboardValue.build,
          ClipboardValue.note]
      | none =>
        cases text with
        | some contents =>
          simp [getClipboardContent, Observation.value, Noted, ClipboardValue.build,
            ClipboardValue.note]
        | none => rfl

/-- What a call can do: skip what is known, or note it and try to send it. -/
theorem getClipboardContent_cases
    (h : getClipboardContent env view fuel room obs dedup = some (sent, dedup')) :
    (Noted env dedup obs.value ∧ sent = none ∧ dedup' = dedup) ∨
    (¬ Noted env dedup obs.value ∧ dedup' = obs.value.note env dedup ∧
      ∃ content, obs.value.build env view fuel = some content ∧ sent = trySend room content) := by
  rw [getClipboardContent_eq] at h
  by_cases hnoted : Noted env dedup obs.value
  · rw [if_pos hnoted] at h
    obtain ⟨rfl, rfl⟩ := Prod.ext_iff.mp (Option.some.inj h)
    exact .inl ⟨hnoted, rfl, rfl⟩
  · rw [if_neg hnoted] at h
    obtain ⟨content, hbuild, heq⟩ := Option.map_eq_some_iff.mp h
    obtain ⟨rfl, rfl⟩ := Prod.ext_iff.mp heq
    exact .inr ⟨hnoted, rfl, content, hbuild, rfl⟩

/-! ### Copies that are not sent -/

/-- A path leads to a file that can be read: it is one, or it is a directory with an entry
that leads to one. -/
inductive HasFile (view : FsView) : String → Prop
  | file {path : String} (hfile : view.isFile path = true)
      (hread : (view.read path).isSome = true) : HasFile view path
  | dir {path name : String} {names : List (Option String)} (hfile : view.isFile path = false)
      (hdir : view.isDir path = true) (hnames : view.readDir path = some names)
      (hname : some name ∈ names) (hentry : HasFile view (UnixPath.join path name)) :
      HasFile view path

/-- A directory has an entry that leads to a file that can be read. -/
def HasFileBelow (view : FsView) (dir : String) : Prop :=
  ∃ names name, view.readDir dir = some names ∧ some name ∈ names ∧
    HasFile view (UnixPath.join dir name)

/-- There is something to send: an image can be encoded, and a file list leads to a file
that can be read. -/
def CanSend (env : Env) (view : FsView) : ClipboardValue → Prop
  | .empty => False
  | .text _ => True
  | .image imgData =>
      (env.png.encodeRgbaToPng imgData.bytes (UInt32.ofNat imgData.width)
        (UInt32.ofNat imgData.height)).isSome = true
  | .files paths => ∃ path ∈ paths, HasFile view path

theorem hasFile_iff {path : String} :
    HasFile view path ↔ view.isFile path = true ∧ (view.read path).isSome = true ∨
      view.isFile path = false ∧ view.isDir path = true ∧ HasFileBelow view path := by
  constructor
  · intro h
    cases h with
    | file hfile hread => exact .inl ⟨hfile, hread⟩
    | dir hfile hdir hnames hname hentry =>
      exact .inr ⟨hfile, hdir, _, _, hnames, hname, hentry⟩
  · rintro (⟨hfile, hread⟩ | ⟨hfile, hdir, names, name, hnames, hname, hentry⟩)
    · exact .file hfile hread
    · exact .dir hfile hdir hnames hname hentry

/-- A path is read: a file gives an entry if it can be read, and a directory those below it. -/
theorem visit_ne_nil_iff {path : String} {entry : Bytes → FileEntry}
    {collected : Option (List FileEntry)} {entries : List FileEntry}
    (hcollected : ∀ below, collected = some below → (below ≠ [] ↔ HasFileBelow view path))
    (h : (if view.isFile path then some ((view.read path).toList.map entry)
      else if view.isDir path then collected else some []) = some entries) :
    entries ≠ [] ↔ HasFile view path := by
  rw [hasFile_iff]
  cases hfile : view.isFile path with
  | true =>
    rw [if_pos hfile] at h
    obtain rfl := Option.some.inj h
    cases view.read path <;> simp
  | false =>
    rw [if_neg (by simp [hfile])] at h
    cases hdir : view.isDir path with
    | true =>
      rw [if_pos hdir] at h
      simp [hcollected entries h]
    | false =>
      rw [if_neg (by simp [hdir])] at h
      obtain rfl := Option.some.inj h
      simp

/-- **A directory gives entries exactly when a file that can be read is below it.** -/
theorem collectDirFiles_ne_nil_iff {dir pfx : String} {entries : List FileEntry}
    (h : collectDirFiles view fuel dir pfx = some entries) :
    entries ≠ [] ↔ HasFileBelow view dir := by
  induction fuel generalizing dir pfx entries with
  | zero => cases h
  | succ fuel ih =>
    rw [collectDirFiles] at h
    cases hnames : view.readDir dir with
    | none =>
      rw [hnames] at h
      obtain rfl := Option.some.inj h
      simp [HasFileBelow, hnames]
    | some names =>
      rw [hnames] at h
      rw [Loops.mapM_flatten_ne_nil h]
      constructor
      · rintro ⟨entry, hentry, below, hvisit, hne⟩
        cases entry with
        | none =>
          obtain rfl := Option.some.inj hvisit
          exact absurd rfl hne
        | some name =>
          exact ⟨names, name, hnames, hentry, (visit_ne_nil_iff (fun _ => ih) hvisit).mp hne⟩
      · rintro ⟨names', name, hnames', hname, hfile⟩
        obtain rfl := Option.some.inj (hnames.symm.trans hnames')
        obtain ⟨bss, hbss, -⟩ := Option.map_eq_some_iff.mp h
        obtain ⟨below, hvisit⟩ := Loops.exists_of_mem_mapM hbss hname
        exact ⟨some name, hname, below, hvisit, (visit_ne_nil_iff (fun _ => ih) hvisit).mpr hfile⟩

/-- **A selection gives entries exactly when it leads to a file that can be read.** -/
theorem readFilePaths_ne_nil_iff {paths : List String} {entries : List FileEntry}
    (h : readFilePaths view fuel paths = some entries) :
    entries ≠ [] ↔ ∃ path ∈ paths, HasFile view path := by
  have hvisit : ∀ path below, readFilePath view fuel path = some below →
      (below ≠ [] ↔ HasFile view path) := fun path below hread =>
    visit_ne_nil_iff (fun _ => collectDirFiles_ne_nil_iff) hread
  rw [Loops.mapM_flatten_ne_nil h]
  constructor
  · rintro ⟨path, hpath, below, hread, hne⟩
    exact ⟨path, hpath, (hvisit path below hread).mp hne⟩
  · rintro ⟨path, hpath, hfile⟩
    obtain ⟨bss, hbss, -⟩ := Option.map_eq_some_iff.mp h
    obtain ⟨below, hread⟩ := Loops.exists_of_mem_mapM hbss hpath
    exact ⟨path, hpath, below, hread, (hvisit path below hread).mpr hfile⟩

theorem filesContent_eq_none_iff {entries : List FileEntry} :
    filesContent entries = none ↔ entries = [] := by
  match entries with
  | [] => simp [filesContent]
  | [_] => simp [filesContent]
  | _ :: _ :: _ => simp [filesContent]

/-- A content is made exactly of what there is to send. -/
theorem canSend_iff_of_build {v : ClipboardValue} {content : Option ClipboardContent}
    (hbuild : v.build env view fuel = some content) :
    CanSend env view v ↔ content ≠ none := by
  cases v with
  | empty =>
    obtain rfl := Option.some.inj hbuild
    simp [CanSend]
  | text s =>
    obtain rfl := Option.some.inj hbuild
    simp [CanSend]
  | image imgData =>
    obtain rfl := Option.some.inj hbuild
    simp [CanSend, Option.isSome_iff_ne_none]
  | files paths =>
    obtain ⟨entries, hread, rfl⟩ := Option.map_eq_some_iff.mp hbuild
    rw [CanSend, ← readFilePaths_ne_nil_iff hread, not_iff_not, filesContent_eq_none_iff]

theorem trySend_eq_none_iff {content : Option ClipboardContent} :
    trySend room content = none ↔ ¬ (room = true ∧ content ≠ none) := by
  cases room <;> simp [trySend]

/-- **When a copy that is not sent leaves no note.**  A call that sends nothing leaves
the shared state as it was exactly when what it read was known, or was nothing, or is
sent after all: there is something to send, and the channel has room.  So if nothing was
sent, the state is as it was exactly when what was read was known. -/
theorem unsent_unchanged_iff
    (h : getClipboardContent env view fuel room obs dedup = some (sent, dedup')) :
    ((sent = none → dedup' = dedup) ↔
        Noted env dedup obs.value ∨ room = true ∧ CanSend env view obs.value) ∧
      (sent = none → (dedup' = dedup ↔ Noted env dedup obs.value)) := by
  rcases getClipboardContent_cases h with ⟨hnoted, -, rfl⟩ | ⟨hnew, rfl, content, hbuild, rfl⟩
  · exact ⟨iff_of_true (fun _ => rfl) (.inl hnoted), fun _ => iff_of_true rfl hnoted⟩
  · -- the note is a change: the value was not known before it
    have hchanged : obs.value.note env dedup ≠ dedup := by
      intro hkept
      have hnoted : Noted env (obs.value.note env dedup) obs.value := noted_note obs.value
      rw [hkept] at hnoted
      exact hnew hnoted
    refine ⟨?_, fun _ => iff_of_false hchanged hnew⟩
    rw [canSend_iff_of_build hbuild, trySend_eq_none_iff]
    constructor
    · intro hkept
      refine .inr ?_
      by_contra hsent
      exact hchanged (hkept hsent)
    · rintro (hnoted | hsent) hnone
      · exact absurd hnoted hnew
      · exact absurd hsent hnone

end Get

private theorem decode_encode_of_no_images {rgba png : Bytes} {w h : UInt32}
    (heq : (fun (_ : Bytes) (_ _ : UInt32) => (none : Option Bytes)) rgba w h = some png) :
    (fun (_ : Bytes) => (none : Option (ℕ × ℕ × Bytes))) png = some (w.toNat, h.toNat, rgba) :=
  absurd heq (by simp)

/-- A library without images, with a hash that adds up the bytes. -/
private def noteEnv : Env where
  finish bs := bs.foldl (fun h b => 31 * h + b.toUInt64) 7
  png := ⟨fun _ _ _ => none, fun _ => none, decode_encode_of_no_images⟩

/-- A file system with one file. -/
private def noteView (bytes : Bytes) : FsView where
  isFile p := p = "/home/a"
  isDir _ := false
  read p := if p = "/home/a" then some bytes else none
  readDir _ := none

/-- A text on the clipboard. -/
private def hiObs : Observation := ⟨none, true, none, some "hi"⟩

/-- A text that is known, with no room in the channel: nothing is sent, and nothing is
noted. -/
theorem unsent_unchanged_known :
    ∃ dedup', getClipboardContent noteEnv (noteView []) 0 false hiObs ⟨some "hi", none, none⟩ =
        some (none, dedup') ∧ dedup' = ⟨some "hi", none, none⟩ := by
  have hget : getClipboardContent noteEnv (noteView []) 0 false hiObs ⟨some "hi", none, none⟩ =
      some (none, ⟨some "hi", none, none⟩) := by decide +kernel
  exact ⟨_, hget, (unsent_unchanged_iff hget).1.mpr (.inl rfl) rfl⟩

/-- A text that finds no room in the channel is noted all the same. -/
theorem unsent_noted_when_channel_full :
    ¬ ∀ (env : Env) (view : FsView) (fuel : ℕ) (room : Bool) (obs : Observation)
        (dedup dedup' : DeduplicationState),
      getClipboardContent env view fuel room obs dedup = some (none, dedup') →
        dedup' = dedup := by
  intro h
  have hget : getClipboardContent noteEnv (noteView []) 0 false hiObs {} =
      some (none, ⟨some "hi", none, none⟩) := by decide +kernel
  exact absurd (h _ _ _ _ _ _ _ hget) (by decide)

/-! ### Copies a hit hides -/

/-- A read that was noted and sent: what it read, where, and the content. -/
structure Sent where
  /-- The file system at the time. -/
  view : FsView
  /-- The budget for nested directories. -/
  fuel : ℕ
  /-- What was on the clipboard. -/
  value : ClipboardValue
  /-- The content that was enqueued. -/
  content : ClipboardContent

/-- The shared state.  For the record only: the call that wrote it last, if that was a
read that enqueued a content. -/
structure Watch where
  /-- The shared state. -/
  dedup : DeduplicationState
  /-- The read that wrote it last. -/
  lastSent : Option Sent

/-- A call that may write the shared state. -/
inductive Access
  /-- `get_clipboard_content`. -/
  | get (view : FsView) (fuel : ℕ) (room : Bool) (obs : Observation)
  /-- `set_clipboard_content`. -/
  | set (calls : ClipboardCalls) (content : ClipboardContent) (fs : FileSystem Bytes)

/-- `set_clipboard_content` writes the shared state: the clipboard opens, and for files
there is a path to write. -/
def writesDedup (calls : ClipboardCalls) (fs : FileSystem Bytes) : ClipboardContent → Bool
  | .text _ => calls.opens
  | .image _ => calls.opens
  | .file name bytes => calls.opens && (saveReceivedFiles fs [(name, bytes)]).savedPaths ≠ []
  | .files files =>
      calls.opens && calls.iterate (deduplicateToTopLevelPaths
        (saveReceivedFiles fs (files.map fun f => (f.name, f.bytes))).savedPaths) ≠ []

/-- One call.  There is no next state if a directory could not be read within the
budget. -/
def Watch.step (env : Env) (w : Watch) : Access → Option Watch
  | .get view fuel room obs =>
      (getClipboardContent env view fuel room obs w.dedup).map fun r =>
        ⟨r.2, if Noted env w.dedup obs.value then w.lastSent
          else r.1.map fun content => ⟨view, fuel, obs.value, content⟩⟩
  | .set calls content fs =>
      some ⟨(setClipboardContent env calls content w.dedup fs).dedup,
        if writesDedup calls fs content then none else w.lastSent⟩

/-- The call that wrote the shared state last is the one on record: the state is its
note, and the content was made of what it read. -/
def Watch.Current (env : Env) (w : Watch) : Prop :=
  ∀ sent, w.lastSent = some sent → (∃ dedup, w.dedup = sent.value.note env dedup) ∧
    sent.value.build env sent.view sent.fuel = some (some sent.content)

/-- A write that has nothing to write leaves the shared state alone. -/
theorem dedup_setClipboardContent_of_not_writesDedup {env : Env} {calls : ClipboardCalls}
    {content : ClipboardContent} {dedup : DeduplicationState} {fs : FileSystem Bytes}
    (h : writesDedup calls fs content = false) :
    (setClipboardContent env calls content dedup fs).dedup = dedup := by
  unfold setClipboardContent
  by_cases hopens : calls.opens = false
  · rw [if_pos hopens]
  · rw [if_neg hopens]
    rw [Bool.not_eq_false] at hopens
    cases content with
    | text s => exact absurd (hopens.symm.trans h) (by simp)
    | image png => exact absurd (hopens.symm.trans h) (by simp)
    | file name bytes =>
      have hnil : (saveReceivedFiles fs [(name, bytes)]).savedPaths = [] := by
        simpa [writesDedup, hopens] using h
      simp [hnil, setFileClipboard]
    | files files =>
      have hnil : calls.iterate (deduplicateToTopLevelPaths
          (saveReceivedFiles fs (files.map fun f => (f.name, f.bytes))).savedPaths) = [] := by
        simpa [writesDedup, hopens] using h
      simp [hnil, setFileClipboard]

theorem trySend_eq_some {room : Bool} {content : Option ClipboardContent} {c : ClipboardContent}
    (h : trySend room content = some c) : content = some c := by
  cases room with
  | false => exact absurd h (by simp [trySend])
  | true => exact h

/-- One call keeps the record. -/
theorem Watch.Current.step {env : Env} {w w' : Watch} {a : Access} (h : w.Current env)
    (hstep : w.step env a = some w') : w'.Current env := by
  cases a with
  | get view fuel room obs =>
    obtain ⟨⟨sent, dedup⟩, hget, rfl⟩ := Option.map_eq_some_iff.mp hstep
    rcases getClipboardContent_cases hget with ⟨hnoted, -, rfl⟩ | ⟨hnew, rfl, content, hbuild, rfl⟩
    · simpa only [if_pos hnoted] using h
    · intro s hs
      rw [if_neg hnew] at hs
      obtain ⟨c, hc, rfl⟩ := Option.map_eq_some_iff.mp hs
      exact ⟨⟨w.dedup, rfl⟩, hbuild.trans (congrArg some (trySend_eq_some hc))⟩
  | set calls content fs =>
    obtain rfl := Option.some.inj hstep
    intro s hs
    by_cases hwrites : writesDedup calls fs content = true
    · rw [if_pos hwrites] at hs
      exact absurd hs (by simp)
    · rw [if_neg hwrites] at hs
      rw [dedup_setClipboardContent_of_not_writesDedup (Bool.eq_false_iff.mpr hwrites)]
      exact h s hs

/-- Any calls keep the record. -/
theorem Watch.Current.run {env : Env} {w w' : Watch} {accesses : List Access}
    (h : w.Current env) (hrun : Runs.run (Watch.step env) w accesses = some w') :
    w'.Current env := by
  have halong : Runs.Along (Watch.step env) (fun _ _ => True) w accesses :=
    Runs.along_of_forall fun _ _ _ => trivial
  exact Runs.run_invariant (fun _ _ _ hcurrent _ hstep => hcurrent.step hstep) h halong hrun

/-! ### What a note determines -/

/-- The bytes that are hashed for a note. -/
def ClipboardValue.hashed : ClipboardValue → Option Bytes
  | .empty => none
  | .text _ => none
  | .image imgData => some (encodeLE 8 imgData.bytes.length ++ imgData.bytes)
  | .files paths => some (paths.flatMap fun p => utf8 p ++ [0xff])

/-- The hash tells two values apart. -/
def Distinguishes (env : Env) (v v' : ClipboardValue) : Prop :=
  ∀ bs bs', v.hashed = some bs → v'.hashed = some bs' → env.finish bs = env.finish bs' → bs = bs'

/-- A read takes a return for what is unchanged. -/
def Hit (env : Env) (dedup : DeduplicationState) (v : ClipboardValue) : Prop :=
  v ≠ .empty ∧ Noted env dedup v

/-- Two values with the same note: texts and file lists are the same, and images have
the same pixels. -/
inductive SameNote : ClipboardValue → ClipboardValue → Prop
  | text (s : String) : SameNote (.text s) (.text s)
  | image {imgData imgData' : ImageData} (h : imgData.bytes = imgData'.bytes) :
      SameNote (.image imgData) (.image imgData')
  | files (paths : List String) : SameNote (.files paths) (.files paths)

/-- A hit says that the note is the same. -/
theorem sameNote_of_hit {env : Env} {dedup : DeduplicationState} {v v' : ClipboardValue}
    (hv : v ≠ .empty) (hhit : Hit env (v.note env dedup) v') (hcoll : Distinguishes env v v') :
    SameNote v v' := by
  obtain ⟨hv', hnoted⟩ := hhit
  cases v with
  | empty => exact absurd rfl hv
  | text s =>
    cases v' with
    | empty => exact absurd rfl hv'
    | text s' =>
      obtain rfl : s = s' := Option.some.inj hnoted
      exact .text s
    | image imgData' => exact absurd hnoted (by simp [Noted, ClipboardValue.note])
    | files paths' => exact absurd hnoted (by simp [Noted, ClipboardValue.note])
  | image imgData =>
    cases v' with
    | empty => exact absurd rfl hv'
    | text s' => exact absurd hnoted (by simp [Noted, ClipboardValue.note])
    | image imgData' =>
      -- the hash covers the length and the bytes, not the dimensions
      have hbytes := hcoll _ _ rfl rfl (Option.some.inj hnoted)
      exact .image (List.append_inj hbytes (by simp)).2
    | files paths' => exact absurd hnoted (by simp [Noted, ClipboardValue.note])
  | files paths =>
    cases v' with
    | empty => exact absurd rfl hv'
    | text s' => exact absurd hnoted (by simp [Noted, ClipboardValue.note])
    | image imgData' => exact absurd hnoted (by simp [Noted, ClipboardValue.note])
    | files paths' =>
      -- the hash covers the paths, not what they lead to
      obtain rfl := flatMap_utf8_injective (hcoll _ _ rfl rfl (Option.some.inj hnoted))
      exact .files paths

/-- Different entries make different contents. -/
theorem filesContent_injective {entries entries' : List FileEntry} {c : ClipboardContent}
    (h : filesContent entries = some c) (h' : filesContent entries' = some c) :
    entries = entries' := by
  match entries, entries' with
  | [], _ => exact absurd h (by simp [filesContent])
  | _, [] => exact absurd h' (by simp [filesContent])
  | [⟨name, bytes⟩], [⟨name', bytes'⟩] =>
    have heq := h.trans h'.symm
    simp only [filesContent, Option.some.injEq, ClipboardContent.file.injEq] at heq
    rw [heq.1, heq.2]
  | [_], _ :: _ :: _ => exact absurd (h.trans h'.symm) (by simp [filesContent])
  | _ :: _ :: _, [_] => exact absurd (h.trans h'.symm) (by simp [filesContent])
  | _ :: _ :: _, _ :: _ :: _ =>
    have heq := h.trans h'.symm
    simpa [filesContent] using heq

/-- The dimensions are part of the PNG. -/
theorem encodeRgbaToPng_inj {env : Env} {rgba png : Bytes} {w h w' h' : UInt32}
    (hpng : env.png.encodeRgbaToPng rgba w h = some png)
    (hpng' : env.png.encodeRgbaToPng rgba w' h' = some png) : w = w' ∧ h = h' := by
  have heq := (env.png.decode_encode hpng).symm.trans (env.png.decode_encode hpng')
  simp only [Option.some.injEq, Prod.mk.injEq, and_true] at heq
  exact ⟨UInt32.toNat_inj.mp heq.1, UInt32.toNat_inj.mp heq.2⟩

/-! ### A file system that did not change -/

/-- The paths that are looked at when a selection is read. -/
inductive Reaches (view : FsView) (paths : List String) : String → Prop
  | selected {p : String} (h : p ∈ paths) : Reaches view paths p
  | entry {dir name : String} {names : List (Option String)} (hdir : Reaches view paths dir)
      (hnames : view.readDir dir = some names) (hname : some name ∈ names) :
      Reaches view paths (UnixPath.join dir name)

/-- Two views answer alike wherever a selection leads. -/
def SameUnder (view view' : FsView) (paths : List String) : Prop :=
  ∀ p, Reaches view paths p → view'.isFile p = view.isFile p ∧ view'.isDir p = view.isDir p ∧
    view'.read p = view.read p ∧ view'.readDir p = view.readDir p

theorem mapM_congr_mem {α β : Type*} {f g : α → Option β} {l : List α}
    (h : ∀ a ∈ l, f a = g a) : l.mapM f = l.mapM g := by
  induction l with
  | nil => rfl
  | cons a l ih =>
    rw [List.mapM_cons, List.mapM_cons, h a List.mem_cons_self,
      ih fun b hb => h b (List.mem_cons_of_mem _ hb)]

section SameUnder

variable {view view' : FsView} {paths : List String}

/-- A directory that is reached is read alike. -/
theorem collectDirFiles_congr (h : SameUnder view view' paths) (fuel : ℕ) {dir : String}
    (hdir : Reaches view paths dir) (pfx : String) :
    collectDirFiles view' fuel dir pfx = collectDirFiles view fuel dir pfx := by
  induction fuel generalizing dir pfx with
  | zero => rfl
  | succ fuel ih =>
    have hread : view'.readDir dir = view.readDir dir := (h dir hdir).2.2.2
    rw [collectDirFiles, collectDirFiles, hread]
    cases hnames : view.readDir dir with
    | none => rfl
    | some names =>
      refine congrArg (Option.map List.flatten) (mapM_congr_mem ?_)
      intro entry hentry
      cases entry with
      | none => rfl
      | some name =>
        have hreach : Reaches view paths (UnixPath.join dir name) := .entry hdir hnames hentry
        obtain ⟨hfile, hisdir, hbytes, -⟩ := h _ hreach
        simp only [visitEntry, hfile, hisdir, hbytes, ih hreach]

/-- A selection is read alike. -/
theorem readFilePaths_congr (h : SameUnder view view' paths) (fuel : ℕ) :
    readFilePaths view' fuel paths = readFilePaths view fuel paths := by
  refine congrArg (Option.map List.flatten) (mapM_congr_mem ?_)
  intro p hp
  have hreach : Reaches view paths p := .selected hp
  obtain ⟨hfile, hisdir, hbytes, -⟩ := h p hreach
  simp only [readFilePath, hfile, hisdir, hbytes, collectDirFiles_congr h fuel hreach]

end SameUnder

/-! ### The content a hit hides -/

/-- What the note leaves out was not touched since the content was sent: the dimensions of
an image, as far as they are encoded, and whatever is at the paths of a file list and below
them. -/
def Untouched (sent : Sent) (view : FsView) : ClipboardValue → Prop
  | .empty => True
  | .text _ => True
  | .image imgData => ∀ imgData', sent.value = .image imgData' →
      UInt32.ofNat imgData.width = UInt32.ofNat imgData'.width ∧
      UInt32.ofNat imgData.height = UInt32.ofNat imgData'.height
  | .files paths => SameUnder sent.view view paths

/-- What was sent is what was read then. -/
theorem build_files_eq_iff {env : Env} {sent : Sent} {view : FsView} {paths : List String}
    (hsent : sent.value.build env sent.view sent.fuel = some (some sent.content))
    (hvalue : sent.value = .files paths) :
    (∃ fuel, (ClipboardValue.files paths).build env view fuel = some (some sent.content)) ↔
      ∃ fuel, readFilePaths view fuel paths = readFilePaths sent.view sent.fuel paths := by
  rw [hvalue] at hsent
  obtain ⟨entries, hread, hcontent⟩ := Option.map_eq_some_iff.mp hsent
  constructor
  · rintro ⟨fuel, hnow⟩
    obtain ⟨entries', hread', hcontent'⟩ := Option.map_eq_some_iff.mp hnow
    refine ⟨fuel, ?_⟩
    rw [hread', hread, filesContent_injective hcontent' hcontent]
  · rintro ⟨fuel, hread'⟩
    refine ⟨fuel, ?_⟩
    rw [ClipboardValue.build, hread', hread, Option.map_some, hcontent]

/-- The content that would be made of a value with the same note is the one that was sent if
what the note leaves out was not touched. -/
theorem build_of_untouched {env : Env} {sent : Sent} {view : FsView} {v : ClipboardValue}
    (hsent : sent.value.build env sent.view sent.fuel = some (some sent.content))
    (hsame : SameNote sent.value v) (huntouched : Untouched sent view v) :
    ∃ fuel, v.build env view fuel = some (some sent.content) := by
  obtain ⟨view₀, fuel₀, value, content⟩ := sent
  simp only at hsent hsame
  cases hsame with
  | text s => exact ⟨0, hsent⟩
  | @image imgData imgData' hbytes =>
    obtain ⟨png, hpng, rfl⟩ := Option.map_eq_some_iff.mp (Option.some.inj hsent)
    obtain ⟨hw, hh⟩ := huntouched imgData rfl
    refine ⟨0, ?_⟩
    simp only [ClipboardValue.build]
    rw [← hbytes, hw, hh, hpng]
    rfl
  | files paths =>
    exact (build_files_eq_iff hsent rfl).mpr ⟨fuel₀, readFilePaths_congr huntouched fuel₀⟩

/-- For texts and images that is all: other dimensions make another content. -/
theorem untouched_of_build {env : Env} {sent : Sent} {view : FsView} {v : ClipboardValue}
    (hsent : sent.value.build env sent.view sent.fuel = some (some sent.content))
    (hsame : SameNote sent.value v) (hfiles : ∀ paths, v ≠ .files paths) {fuel : ℕ}
    (hnow : v.build env view fuel = some (some sent.content)) : Untouched sent view v := by
  obtain ⟨view₀, fuel₀, value, content⟩ := sent
  simp only at hsent hsame
  cases hsame with
  | text s => exact trivial
  | @image imgData imgData' hbytes =>
    obtain ⟨png, hpng, rfl⟩ := Option.map_eq_some_iff.mp (Option.some.inj hsent)
    intro old hold
    obtain rfl := ClipboardValue.image.inj hold
    obtain ⟨png', hpng', heq⟩ := Option.map_eq_some_iff.mp (Option.some.inj hnow)
    obtain rfl := ClipboardContent.image.inj heq
    rw [← hbytes] at hpng'
    exact encodeRgbaToPng_inj hpng' hpng
  | files paths => exact absurd rfl (hfiles paths)

/-- A path is a file that can be read. -/
def ReadsFile (view : FsView) (path : String) : Prop :=
  view.isFile path = true ∧ (view.read path).isSome = true

/-- A file that can be read gives one entry. -/
theorem readFilePath_of_readsFile {view : FsView} {path : String} (h : ReadsFile view path)
    (fuel : ℕ) : ∃ bytes, view.read path = some bytes ∧ readFilePath view fuel path =
      some [⟨(UnixPath.fileName (UnixPath.components path)).getD "unknown", bytes⟩] := by
  obtain ⟨bytes, hbytes⟩ := Option.isSome_iff_exists.mp h.2
  exact ⟨bytes, hbytes, by simp [readFilePath, h.1, hbytes]⟩

/-- Files that can be read are read alike exactly when they hold the same. -/
theorem readFilePaths_eq_iff_of_files {view view' : FsView} {paths : List String}
    (h : ∀ path ∈ paths, ReadsFile view path) (h' : ∀ path ∈ paths, ReadsFile view' path)
    (fuel fuel' : ℕ) :
    readFilePaths view' fuel' paths = readFilePaths view fuel paths ↔
      ∀ path ∈ paths, view'.read path = view.read path := by
  -- entry by entry; there is one for every path
  have hread : ∀ {v : FsView} {ps : List String}, (∀ p ∈ ps, ReadsFile v p) → ∀ n,
      ∃ entries, readFilePaths v n ps = some entries := by
    intro v ps hps n
    cases hloop : readFilePaths v n ps with
    | some entries => exact ⟨entries, rfl⟩
    | none =>
      obtain ⟨p, hp, hnone⟩ := Loops.mapM_eq_none.mp (Option.map_eq_none_iff.mp hloop)
      obtain ⟨bytes, -, hsome⟩ := readFilePath_of_readsFile (hps p hp) n
      rw [hsome] at hnone
      cases hnone
  induction paths with
  | nil => simp [readFilePaths]
  | cons path paths ih =>
    obtain ⟨hpath, hpaths⟩ := List.forall_mem_cons.mp h
    obtain ⟨hpath', hpaths'⟩ := List.forall_mem_cons.mp h'
    obtain ⟨bytes, hbytes, hentry⟩ := readFilePath_of_readsFile hpath fuel
    obtain ⟨bytes', hbytes', hentry'⟩ := readFilePath_of_readsFile hpath' fuel'
    obtain ⟨entries, hentries⟩ := hread hpaths fuel
    obtain ⟨entries', hentries'⟩ := hread hpaths' fuel'
    have hall := Loops.mapM_flatten_cons_some hentry hentries
    have hall' := Loops.mapM_flatten_cons_some hentry' hentries'
    have hrest : some entries' = some entries ↔ ∀ p ∈ paths, view'.read p = view.read p := by
      rw [← hentries, ← hentries']
      exact ih hpaths hpaths'
    rw [List.forall_mem_cons, ← hrest, hbytes, hbytes', readFilePaths, hall', readFilePaths, hall]
    simp

/-! ### Runs -/

/-- **When a hit hides nothing.**  Take any sequence of reads and writes of the shared
state after which the last call that wrote it is a read that enqueued a content, and a
next read that is a hit.  The content it would have made is the one that was sent if what
the note leaves out was not touched.  For a text or an image it is only then; and for a list
of files that could be read both times it is exactly when no file holds other bytes. -/
theorem hit_hides_nothing_of_untouched (env : Env) {w w' : Watch} {accesses : List Access}
    {sent : Sent} {view : FsView} {obs : Observation} (hstart : w.lastSent = none)
    (hrun : Runs.run (Watch.step env) w accesses = some w') (hlast : w'.lastSent = some sent)
    (hhit : Hit env w'.dedup obs.value) (hcoll : Distinguishes env sent.value obs.value) :
    (Untouched sent view obs.value →
        ∃ fuel, obs.value.build env view fuel = some (some sent.content)) ∧
      ((∀ paths, obs.value ≠ .files paths) →
        ∀ fuel, obs.value.build env view fuel = some (some sent.content) →
          Untouched sent view obs.value) ∧
      ∀ paths, obs.value = .files paths → (∀ path ∈ paths, ReadsFile sent.view path) →
        (∀ path ∈ paths, ReadsFile view path) →
          ((∃ fuel, obs.value.build env view fuel = some (some sent.content)) ↔
            ∀ path ∈ paths, view.read path = sent.view.read path) := by
  -- the invariant of the run ties the shared state to the content that was sent
  have hcurrent : w'.Current env := by
    refine Watch.Current.run ?_ hrun
    intro s hs
    rw [hstart] at hs
    exact absurd hs (by simp)
  obtain ⟨⟨dedup, hdedup⟩, hbuild⟩ := hcurrent sent hlast
  have hvalue : sent.value ≠ .empty := by
    intro hempty
    rw [hempty] at hbuild
    exact absurd hbuild (by simp [ClipboardValue.build])
  rw [hdedup] at hhit
  have hsame : SameNote sent.value obs.value := sameNote_of_hit hvalue hhit hcoll
  refine ⟨build_of_untouched hbuild hsame,
    fun hfiles _ => untouched_of_build hbuild hsame hfiles, ?_⟩
  intro paths hpaths hthen hnow
  rw [hpaths] at hsame ⊢
  have hsent : sent.value = .files paths := by
    generalize hv : sent.value = v at hsame
    cases hsame
    rfl
  rw [build_files_eq_iff hbuild hsent,
    ← readFilePaths_eq_iff_of_files hthen hnow sent.fuel sent.fuel]
  constructor
  · rintro ⟨fuel, hread⟩
    rwa [readFilePaths_eq_iff_of_files hthen hnow] at hread ⊢
  · exact fun hread => ⟨sent.fuel, hread⟩

/-- A file on the clipboard. -/
private def fileObs : Observation := ⟨some ["/home/a"], true, none, none⟩

/-- The shared state after the file was sent with the byte 1. -/
private def fileSent : Watch :=
  ⟨⟨none, none, some (hashFilePaths noteEnv ["/home/a"])⟩,
    some ⟨noteView [1], 0, .files ["/home/a"], .file "a" [1]⟩⟩

private theorem run_fileSent :
    Runs.run (Watch.step noteEnv) ⟨{}, none⟩ [.get (noteView [1]) 0 true fileObs] =
      some fileSent := by
  have hget : getClipboardContent noteEnv (noteView [1]) 0 true fileObs {} =
      some (some (.file "a" [1]), ⟨none, none, some (hashFilePaths noteEnv ["/home/a"])⟩) := by
    decide +kernel
  have hnew : ¬ Noted noteEnv {} fileObs.value := by decide +kernel
  simp only [Runs.run, List.foldlM_cons, List.foldlM_nil, Watch.step, hget, Option.map_some,
    if_neg hnew]
  rfl

private theorem hit_fileSent : Hit noteEnv fileSent.dedup fileObs.value :=
  ⟨by decide, rfl⟩

private theorem distinguishes_files :
    Distinguishes noteEnv (.files ["/home/a"]) fileObs.value := by
  intro bs bs' hbs hbs' _
  exact Option.some.inj (hbs.symm.trans hbs')

/-- A file that was sent and not touched since. -/
theorem hit_hides_nothing_untouched_file :
    Runs.run (Watch.step noteEnv) ⟨{}, none⟩ [.get (noteView [1]) 0 true fileObs] =
        some fileSent ∧
      Hit noteEnv fileSent.dedup fileObs.value ∧
      ∃ fuel, fileObs.value.build noteEnv (noteView [1]) fuel = some (some (.file "a" [1])) := by
  refine ⟨run_fileSent, hit_fileSent, ?_⟩
  exact (hit_hides_nothing_of_untouched noteEnv rfl run_fileSent rfl hit_fileSent
    distinguishes_files).1 fun _ _ => ⟨rfl, rfl, rfl, rfl⟩

/-- A file that was sent, changed on disk and copied again: the second copy is a hit, and
the content it would have made is another one. -/
theorem hit_hides_edited_file :
    Runs.run (Watch.step noteEnv) ⟨{}, none⟩ [.get (noteView [1]) 0 true fileObs] =
        some fileSent ∧
      fileSent.lastSent = some ⟨noteView [1], 0, .files ["/home/a"], .file "a" [1]⟩ ∧
      Hit noteEnv fileSent.dedup fileObs.value ∧
      Distinguishes noteEnv (.files ["/home/a"]) fileObs.value ∧
      (∀ fuel, fileObs.value.build noteEnv (noteView [2]) fuel = some (some (.file "a" [2]))) ∧
      ¬ ∃ fuel, fileObs.value.build noteEnv (noteView [2]) fuel = some (some (.file "a" [1])) := by
  have hnow : ∀ fuel, fileObs.value.build noteEnv (noteView [2]) fuel =
      some (some (.file "a" [2])) := by
    intro fuel
    have hname : (UnixPath.fileName (UnixPath.components "/home/a")).getD "unknown" = "a" := by
      decide +kernel
    simp [fileObs, Observation.value, ClipboardValue.build, readFilePaths, readFilePath, noteView,
      hname, filesContent]
  refine ⟨run_fileSent, rfl, hit_fileSent, distinguishes_files, hnow, ?_⟩
  rintro ⟨fuel, hbuild⟩
  rw [hnow fuel] at hbuild
  exact absurd hbuild (by simp)

end P2pClipboard
