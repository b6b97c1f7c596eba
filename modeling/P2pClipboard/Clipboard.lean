import P2pClipboard.Files
import P2pClipboard.Selection

/-!
# The clipboard

`get_clipboard_content`, `set_clipboard_content` and `set_file_clipboard` of
`src/main.rs`.  Both directions share a `DeduplicationState`: whatever is written
to the clipboard for a remote peer is noted there, so that the change it causes is
not sent back.

The system clipboard is outside.  A read is an `Observation`, which formats the
clipboard had; the outcomes of writes are given by `ClipboardCalls`; and a
`ClipboardValue` is what a write leaves on the clipboard, with the observation it
gives rise to.

## Main definitions

* `DeduplicationState`, `Env` — the shared state, and the libraries used.
* `getClipboardContent` — read, compare, send.
* `setClipboardContent` — note, save, write.
-/

namespace P2pClipboard

open UnixPath

/-! ### The shared state -/

/-- What was last read from or written to the clipboard. -/
structure DeduplicationState where
  /-- The last text. -/
  lastText : Option String := none
  /-- The hash of the last image. -/
  lastImageHash : Option UInt64 := none
  /-- The hash of the last file list. -/
  lastFilesHash : Option UInt64 := none
  deriving DecidableEq, Repr

/-- Encoding and decoding of PNG images. -/
structure PngCodec where
  /-- `encode_rgba_to_png`. -/
  encodeRgbaToPng : Bytes → UInt32 → UInt32 → Option Bytes
  /-- `decode_png_to_rgba`. -/
  decodePngToRgba : Bytes → Option (ℕ × ℕ × Bytes)
  /-- Pixels survive the encoding. -/
  decode_encode : ∀ {rgba width height png}, encodeRgbaToPng rgba width height = some png →
    decodePngToRgba png = some (width.toNat, height.toNat, rgba)

/-- The libraries the functions rest on. -/
structure Env where
  /-- The value of `DefaultHasher` after a sequence of bytes. -/
  finish : Bytes → UInt64
  /-- The image library. -/
  png : PngCodec

/-- `hash_bytes`: a slice is hashed behind its length. -/
def hashBytes (env : Env) (data : Bytes) : UInt64 := env.finish (encodeLE 8 data.length ++ data)

/-- `hash_file_paths`: each path is hashed as a text, which ends in the byte `0xff`. -/
def hashFilePaths (env : Env) (paths : List String) : UInt64 :=
  env.finish (paths.flatMap fun p => utf8 p ++ [0xff])

/-! ### Reading -/

/-- Pixels with their dimensions. -/
structure ImageData where
  width : ℕ
  height : ℕ
  /-- Four bytes for each pixel. -/
  bytes : Bytes
  deriving DecidableEq, Repr

/-- What the reads of `get_clipboard_content` return. -/
structure Observation where
  /-- `get_clipboard_file_list`. -/
  fileList : Option (List String)
  /-- `Clipboard::new` succeeds. -/
  opens : Bool
  /-- `get_image`. -/
  image : Option ImageData
  /-- `get_text`. -/
  text : Option String
  deriving DecidableEq, Repr

/-- `try_send`: a content is enqueued if the channel has room. -/
def trySend (room : Bool) (content : Option ClipboardContent) : Option ClipboardContent :=
  if room then content else none

/-- `get_clipboard_content`: what is enqueued, and the shared state afterwards.
There is no result if `fuel` does not suffice to read the directories. -/
def getClipboardContent (env : Env) (view : FsView) (fuel : ℕ) (room : Bool)
    (obs : Observation) (dedup : DeduplicationState) :
    Option (Option ClipboardContent × DeduplicationState) :=
  match obs.fileList with
  | some filePaths =>
      let h := hashFilePaths env filePaths
      if dedup.lastFilesHash = some h then some (none, dedup)
      else
        (readFilePaths view fuel filePaths).map fun entries =>
          (trySend room (filesContent entries), ⟨none, none, some h⟩)
  | none =>
      if obs.opens = false then some (none, dedup)
      else
        match obs.image with
        | some imgData =>
            let h := hashBytes env imgData.bytes
            if dedup.lastImageHash = some h then some (none, dedup)
            else
              let png := env.png.encodeRgbaToPng imgData.bytes (UInt32.ofNat imgData.width)
                (UInt32.ofNat imgData.height)
              some (trySend room (png.map .image), ⟨none, some h, none⟩)
        | none =>
            match obs.text with
            | some contents =>
                if dedup.lastText = some contents then some (none, dedup)
                else some (trySend room (some (.text contents)), ⟨some contents, none, none⟩)
            | none => some (none, dedup)

/-! ### Writing -/

/-- What a write leaves on the clipboard. -/
inductive ClipboardValue
  | empty
  | text (s : String)
  | image (imgData : ImageData)
  | files (paths : List String)
  deriving DecidableEq, Repr

/-- What is read from a clipboard that returns what was written to it. -/
def ClipboardValue.observe (opens : Bool) : ClipboardValue → Observation
  | .empty => ⟨none, opens, none, none⟩
  | .text s => ⟨none, opens, none, some s⟩
  | .image imgData => ⟨none, opens, some imgData, none⟩
  | .files paths => ⟨some paths, opens, none, none⟩

/-- The outcomes of the calls `set_clipboard_content` makes. -/
structure ClipboardCalls where
  /-- The first `Clipboard::new` succeeds. -/
  opens : Bool := true
  /-- The `Clipboard::new` of the fallback succeeds. -/
  opensFallback : Bool := true
  /-- `set_text` succeeds. -/
  setText : String → Bool := fun _ => true
  /-- `set_image` succeeds. -/
  setImage : ImageData → Bool := fun _ => true
  /-- The native `set_clipboard_file_list` succeeds. -/
  setFileList : List String → Bool := fun _ => true
  /-- The order in which a hash set of paths is iterated. -/
  iterate : List String → List String := id
  /-- An iteration yields the elements of the set. -/
  iterate_perm : ∀ paths, (iterate paths).Perm paths := by exact fun _ => .refl _

/-- `set_file_clipboard`: note the paths, then write them natively, or as text if
that fails. -/
def setFileClipboard (env : Env) (calls : ClipboardCalls) (savedPaths : List String)
    (dedup : DeduplicationState) : DeduplicationState × Option ClipboardValue :=
  if savedPaths = [] then (dedup, none)
  else
    let dedup : DeduplicationState := ⟨none, none, some (hashFilePaths env savedPaths)⟩
    if calls.setFileList savedPaths then (dedup, some (.files savedPaths))
    else
      let pathText := "\n".intercalate savedPaths
      ({ dedup with lastText := some pathText },
        if calls.opensFallback && calls.setText pathText then some (.text pathText) else none)

/-- What `set_clipboard_content` leaves behind. -/
structure SetOutcome where
  /-- The shared state. -/
  dedup : DeduplicationState
  /-- What was written to the clipboard, if anything was. -/
  written : Option ClipboardValue
  /-- The file system. -/
  fs : FileSystem Bytes

/-- `set_clipboard_content`. -/
def setClipboardContent (env : Env) (calls : ClipboardCalls) (content : ClipboardContent)
    (dedup : DeduplicationState) (fs : FileSystem Bytes) : SetOutcome :=
  if calls.opens = false then ⟨dedup, none, fs⟩
  else
    match content with
    | .text text =>
        ⟨⟨some text, none, none⟩, if calls.setText text then some (.text text) else none, fs⟩
    | .image pngBytes =>
        let dedup : DeduplicationState := ⟨none, some (hashBytes env pngBytes), none⟩
        match env.png.decodePngToRgba pngBytes with
        | some (width, height, rgbaBytes) =>
            let img : ImageData := ⟨width, height, rgbaBytes⟩
            ⟨dedup, if calls.setImage img then some (.image img) else none, fs⟩
        | none => ⟨dedup, none, fs⟩
    | .file name bytes =>
        let saved := saveReceivedFiles fs [(name, bytes)]
        let (dedup, written) := setFileClipboard env calls saved.savedPaths dedup
        ⟨dedup, written, saved.fs⟩
    | .files files =>
        let saved := saveReceivedFiles fs (files.map fun f => (f.name, f.bytes))
        let clipboardPaths := calls.iterate (deduplicateToTopLevelPaths saved.savedPaths)
        let (dedup, written) := setFileClipboard env calls clipboardPaths dedup
        ⟨dedup, written, saved.fs⟩

end P2pClipboard
