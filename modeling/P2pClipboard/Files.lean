import P2pClipboard.Content
import P2pClipboard.Lib.FileSystem

/-!
# Saving received files

`save_received_files` and `get_file_receive_dir` of `src/main.rs`.  The names of
received files are joined to the receive directory; directories missing on the
way are created, then the file is written.  A file that cannot be written is left
out of the result.

What is saved is recorded twice: as the file system afterwards, and as the list of
directories created and files written on the way.

## Main definitions

* `getFileReceiveDir`, `receiveLocation` — the receive directory.
* `saveFile`, `saveReceivedFiles` — saving one file, and all files of a content.
* `FsEffect` — a directory created or a file written.

## Main results

* `saveFile_spec`, `saveFiles_spec` — the file system changes only where an
  effect is recorded, and a directory stays a directory.
-/

namespace P2pClipboard

open UnixPath FileSystem

/-! ### The functions -/

/-- `get_file_receive_dir`, on every system but Windows. -/
def getFileReceiveDir : String := "/tmp"

/-- Where the receive directory is. -/
def receiveLocation : List String := locate (components getFileReceiveDir)

/-- What saving files does to the file system. -/
inductive FsEffect
  /-- A directory was created. -/
  | createdDir (comps : List Component)
  /-- A file was written. -/
  | wrote (path : String)
  deriving DecidableEq, Repr

/-- Where an effect takes place, after lexical normalisation. -/
def FsEffect.location : FsEffect → List String
  | .createdDir comps => locate comps
  | .wrote path => locate (components path)

/-- The outcome of saving files. -/
structure Saved where
  /-- The file system afterwards. -/
  fs : FileSystem Bytes
  /-- The paths of the files saved. -/
  savedPaths : List String
  /-- What was done on the way. -/
  effects : List FsEffect

/-- Create the directory a file is to be written into, unless it is there. -/
def ensureParent (fs : FileSystem Bytes) (destPath : String) : Created Bytes :=
  match parent (components destPath) with
  | none => ⟨fs, [], true⟩
  | some dir => if fs.pathExists dir then ⟨fs, [], true⟩ else fs.createDirAll dir

/-- One round of the loop of `save_received_files`. -/
def saveFile (fs : FileSystem Bytes) (file : String × Bytes) : Saved :=
  let destPath := join getFileReceiveDir file.1
  let r := ensureParent fs destPath
  let created := r.created.map FsEffect.createdDir
  if r.ok then
    match r.fs.write destPath file.2 with
    | .ok fs' => ⟨fs', [destPath], created ++ [.wrote destPath]⟩
    | .error _ => ⟨r.fs, [], created⟩
  else ⟨r.fs, [], created⟩

/-- The loop of `save_received_files`. -/
def saveFiles (fs : FileSystem Bytes) : List (String × Bytes) → Saved
  | [] => ⟨fs, [], []⟩
  | file :: files =>
      let one := saveFile fs file
      let more := saveFiles one.fs files
      ⟨more.fs, one.savedPaths ++ more.savedPaths, one.effects ++ more.effects⟩

/-- `save_received_files`. -/
def saveReceivedFiles (fs : FileSystem Bytes) (files : List (String × Bytes)) : Saved :=
  let r := fs.createDirAll (components getFileReceiveDir)
  let created := r.created.map FsEffect.createdDir
  if r.ok then
    let saved := saveFiles r.fs files
    { saved with effects := created ++ saved.effects }
  else ⟨r.fs, [], created⟩

/-- The text of a component. -/
def componentText : Component → String
  | .rootDir => "/"
  | .curDir => "."
  | .parentDir => ".."
  | .normal name => name

/-- Insert into a set of paths, which are the same when their components are. -/
def insertPath (paths : List String) (path : String) : List String :=
  if paths.any fun p => components p = components path then paths else paths ++ [path]

/-- `deduplicate_to_top_level_paths`, in the order of insertion: below the receive
directory only the first component is kept. -/
def deduplicateToTopLevelPaths (savedPaths : List String) : List String :=
  savedPaths.foldl
    (fun topLevel path =>
      match stripPrefix (components getFileReceiveDir) (components path) with
      | none => insertPath topLevel path
      | some [] => topLevel
      | some (first :: _) =>
          insertPath topLevel (join getFileReceiveDir (componentText first)))
    []

/-- The files `set_clipboard_content` saves for a content. -/
def receivedFiles : ClipboardContent → List (String × Bytes)
  | .text _ => []
  | .image _ => []
  | .file name bytes => [(name, bytes)]
  | .files entries => entries.map fun f => (f.name, f.bytes)

/-- What is passed on the way to the receive directory. -/
theorem prefix_receiveDir {p : List Component} (h : p <+: components getFileReceiveDir) :
    p = [] ∨ p = [.rootDir] ∨ p = components getFileReceiveDir := by
  have hcomps : components getFileReceiveDir = [.rootDir, .normal "tmp"] := by decide
  rw [hcomps] at h ⊢
  rcases List.prefix_cons_iff.mp h with rfl | ⟨t, rfl, ht⟩
  · exact .inl rfl
  · rcases List.prefix_cons_iff.mp ht with rfl | ⟨t', rfl, ht'⟩
    · exact .inr (.inl rfl)
    · rw [List.prefix_nil.mp ht']
      exact .inr (.inr rfl)

/-! ### What saving changes -/

/-- One file: the directories made before it, and the file if it was written. -/
theorem saveFile_cases (fs : FileSystem Bytes) (file : String × Bytes) :
    (saveFile fs file =
      ⟨(ensureParent fs (join getFileReceiveDir file.1)).fs, [],
        (ensureParent fs (join getFileReceiveDir file.1)).created.map .createdDir⟩) ∨
    ∃ fs', (ensureParent fs (join getFileReceiveDir file.1)).fs.write
        (join getFileReceiveDir file.1) file.2 = .ok fs' ∧
      saveFile fs file = ⟨fs', [join getFileReceiveDir file.1],
        (ensureParent fs (join getFileReceiveDir file.1)).created.map .createdDir ++
          [.wrote (join getFileReceiveDir file.1)]⟩ := by
  unfold saveFile
  by_cases hok : (ensureParent fs (join getFileReceiveDir file.1)).ok = true
  · cases hw : (ensureParent fs (join getFileReceiveDir file.1)).fs.write
        (join getFileReceiveDir file.1) file.2 with
    | ok fs' => exact .inr ⟨fs', rfl, by simp [hok, hw]⟩
    | error e => exact .inl (by simp [hok, hw])
  · exact .inl (by simp [hok])

theorem ensureParent_spec (fs : FileSystem Bytes) (destPath : String) :
    Grown fs (ensureParent fs destPath).fs (ensureParent fs destPath).created ∧
      ∀ p ∈ (ensureParent fs destPath).created,
        p <+: (components destPath).dropLast ∧ hasNul (components destPath).dropLast = false := by
  unfold ensureParent
  cases hp : parent (components destPath) with
  | none => exact ⟨Grown.refl fs, by simp⟩
  | some dir =>
    have hdir : dir = (components destPath).dropLast := by
      unfold parent at hp
      split at hp <;> simp_all
    subst hdir
    by_cases hex : fs.pathExists (components destPath).dropLast = true
    · simpa [hex] using Grown.refl fs
    · simpa [hex] using createDirAll_spec fs (components destPath).dropLast

/-- **Saving a file changes the file system only where an effect is recorded**,
keeps the directories, and refuses what was refused. -/
theorem saveFile_spec (fs : FileSystem Bytes) (file : String × Bytes) :
    (∀ loc, (saveFile fs file).fs.node loc = fs.node loc ∨
        ∃ e ∈ (saveFile fs file).effects, e.location = loc) ∧
      (∀ loc, fs.node loc = some .dir → (saveFile fs file).fs.node loc = some .dir) ∧
      (saveFile fs file).fs.refuses = fs.refuses := by
  obtain ⟨hgrown, -⟩ := ensureParent_spec fs (join getFileReceiveDir file.1)
  have hdirs : ∀ loc, fs.node loc = some .dir →
      (ensureParent fs (join getFileReceiveDir file.1)).fs.node loc = some .dir := by
    intro loc hloc
    rcases hgrown.node loc with hsame | ⟨-, hnew, -⟩
    · rw [hsame, hloc]
    · exact hnew
  rcases saveFile_cases fs file with heq | ⟨fs', hw, heq⟩
  · rw [heq]
    refine ⟨fun loc => ?_, hdirs, hgrown.refuses⟩
    rcases hgrown.node loc with hsame | ⟨-, -, p, hp, rfl⟩
    · exact .inl hsame
    · exact .inr ⟨.createdDir p, List.mem_map_of_mem hp, rfl⟩
  · obtain ⟨name, -, -, hfree, hnode, hrefuses⟩ := write_eq_ok hw
    rw [heq]
    refine ⟨fun loc => ?_, fun loc hloc => ?_, hrefuses.trans hgrown.refuses⟩
    · by_cases hloc : loc = locate (components (join getFileReceiveDir file.1))
      · exact .inr ⟨.wrote (join getFileReceiveDir file.1), by simp, hloc.symm⟩
      · rcases hgrown.node loc with hsame | ⟨-, -, p, hp, rfl⟩
        · exact .inl (by rw [hnode, Function.update_of_ne hloc, hsame])
        · exact .inr ⟨.createdDir p, List.mem_append_left _ (List.mem_map_of_mem hp), rfl⟩
    · have hne : loc ≠ locate (components (join getFileReceiveDir file.1)) := by
        rintro rfl
        exact hfree (hdirs _ hloc)
      rw [hnode, Function.update_of_ne hne]
      exact hdirs loc hloc

/-- **Saving files changes the file system only where an effect is recorded**,
keeps the directories, and refuses what was refused. -/
theorem saveFiles_spec (fs : FileSystem Bytes) (files : List (String × Bytes)) :
    (∀ loc, (saveFiles fs files).fs.node loc = fs.node loc ∨
        ∃ e ∈ (saveFiles fs files).effects, e.location = loc) ∧
      (∀ loc, fs.node loc = some .dir → (saveFiles fs files).fs.node loc = some .dir) ∧
      (saveFiles fs files).fs.refuses = fs.refuses := by
  induction files generalizing fs with
  | nil => exact ⟨fun _ => .inl rfl, fun _ h => h, rfl⟩
  | cons file files ih =>
    obtain ⟨hnode₁, hdir₁, href₁⟩ := saveFile_spec fs file
    obtain ⟨hnode₂, hdir₂, href₂⟩ := ih (saveFile fs file).fs
    refine ⟨fun loc => ?_, fun loc h => hdir₂ loc (hdir₁ loc h), href₂.trans href₁⟩
    rcases hnode₂ loc with h₂ | ⟨e, he, hloc⟩
    · rcases hnode₁ loc with h₁ | ⟨e, he, hloc⟩
      · exact .inl (h₂.trans h₁)
      · exact .inr ⟨e, List.mem_append_left _ he, hloc⟩
    · exact .inr ⟨e, List.mem_append_right _ he, hloc⟩

theorem saveFiles_append (fs : FileSystem Bytes) (files files' : List (String × Bytes)) :
    saveFiles fs (files ++ files') =
      ⟨(saveFiles (saveFiles fs files).fs files').fs,
        (saveFiles fs files).savedPaths ++ (saveFiles (saveFiles fs files).fs files').savedPaths,
        (saveFiles fs files).effects ++ (saveFiles (saveFiles fs files).fs files').effects⟩ := by
  induction files generalizing fs with
  | nil => simp [saveFiles]
  | cons file files ih =>
    rw [List.cons_append, saveFiles, ih]
    simp [saveFiles, List.append_assoc]

end P2pClipboard
