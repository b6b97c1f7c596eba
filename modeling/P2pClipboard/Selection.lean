import P2pClipboard.Content
import P2pClipboard.Lib.Loops
import P2pClipboard.Lib.UnixPath

/-!
# Reading the selected files

`collect_dir_files` and the reading part of `get_clipboard_content` in
`src/main.rs`.  The paths on the clipboard are read one after the other: a file
gives one entry under its own name, a directory is read recursively and its files
are named by their way from it, slashes in between.

What the paths lead to is answered by an `FsView`.  A directory may contain itself
through a link, so the recursion has a budget; a result says that it sufficed.

## Main definitions

* `FsView` — the answers of the file system.
* `collectDirFiles`, `readFilePaths`, `filesContent` — the code.
* `Forest` — what is in a directory: names, each with a file or a directory.
* `Shows`, `Selected` — a view in which a forest is to be seen.

## Main results

* `collectDirFiles_eq` — a directory is read completely.
* `readFilePaths_eq` — **the entries of a selection are its files, in order, each
  named by its way from the selection.**
-/

namespace P2pClipboard

open UnixPath

/-! ### The functions -/

/-- What the file system answers.  A name in a directory may fail to be read. -/
structure FsView where
  /-- `Path::is_file`. -/
  isFile : String → Bool
  /-- `Path::is_dir`. -/
  isDir : String → Bool
  /-- `fs::read`. -/
  read : String → Option Bytes
  /-- `fs::read_dir`, with the name of each entry. -/
  readDir : String → Option (List (Option String))

/-- One entry of a directory: a file is read, a directory entered. -/
def visitEntry (view : FsView) (collect : String → String → Option (List FileEntry))
    (dir pfx : String) : Option String → Option (List FileEntry)
  | none => some []
  | some name =>
      let path := join dir name
      let relativeName := pfx ++ "/" ++ name
      if view.isFile path then
        some ((view.read path).toList.map fun bytes => ⟨relativeName, bytes⟩)
      else if view.isDir path then collect path relativeName
      else some []

/-- `collect_dir_files`: the entries it appends, or `none` when the budget of
nested calls runs out. -/
def collectDirFiles (view : FsView) : ℕ → String → String → Option (List FileEntry)
  | 0, _, _ => none
  | fuel + 1, dir, pfx =>
      match view.readDir dir with
      | none => some []
      | some names =>
          (names.mapM (visitEntry view (collectDirFiles view fuel) dir pfx)).map List.flatten

/-- One path of the selection. -/
def readFilePath (view : FsView) (fuel : ℕ) (path : String) : Option (List FileEntry) :=
  if view.isFile path then
    let name := (fileName (components path)).getD "unknown"
    some ((view.read path).toList.map fun bytes => ⟨name, bytes⟩)
  else if view.isDir path then
    collectDirFiles view fuel path ((fileName (components path)).getD "unknown_dir")
  else some []

/-- The loop over the paths of the selection. -/
def readFilePaths (view : FsView) (fuel : ℕ) (filePaths : List String) :
    Option (List FileEntry) :=
  (filePaths.mapM (readFilePath view fuel)).map List.flatten

/-- The content made of the entries read: none, one file, or several. -/
def filesContent : List FileEntry → Option ClipboardContent
  | [] => none
  | [entry] => some (.file entry.name entry.bytes)
  | entries => some (.files entries)

/-! ### Forests -/

/-- What is in a directory, or selected in one: names with files and
directories. -/
inductive Forest
  | nil
  /-- A file, then the rest. -/
  | file (name : String) (bytes : Bytes) (rest : Forest)
  /-- A directory, then the rest. -/
  | dir (name : String) (entries : Forest) (rest : Forest)
  deriving DecidableEq, Repr

namespace Forest

/-- The names at the top. -/
def names : Forest → List String
  | .nil => []
  | .file name _ rest => name :: rest.names
  | .dir name _ rest => name :: rest.names

/-- The regular files, each with the names that lead to it. -/
def files : Forest → List (List String × Bytes)
  | .nil => []
  | .file name bytes rest => ([name], bytes) :: rest.files
  | .dir name entries rest => entries.files.map (Prod.map (name :: ·) id) ++ rest.files

/-- How deep directories are nested. -/
def depth : Forest → ℕ
  | .nil => 0
  | .file _ _ rest => rest.depth
  | .dir _ entries rest => max (entries.depth + 1) rest.depth

/-- Every name is one, and no two names in a directory are the same. -/
def Valid : Forest → Prop
  | .nil => True
  | .file name _ rest => IsName name ∧ name ∉ rest.names ∧ rest.Valid
  | .dir name entries rest => IsName name ∧ name ∉ rest.names ∧ entries.Valid ∧ rest.Valid

instance decidableValid : (f : Forest) → Decidable f.Valid
  | .nil => inferInstanceAs (Decidable True)
  | .file _ _ rest =>
      have := decidableValid rest
      inferInstanceAs (Decidable (_ ∧ _ ∧ _))
  | .dir _ entries rest =>
      have := decidableValid entries
      have := decidableValid rest
      inferInstanceAs (Decidable (_ ∧ _ ∧ _ ∧ _))

/-- A file is reached through at least one name. -/
theorem ne_nil_of_mem_files {f : Forest} {p : List String × Bytes} (h : p ∈ f.files) :
    p.1 ≠ [] := by
  induction f generalizing p with
  | nil => simp [files] at h
  | file name bytes rest ih =>
    rcases List.mem_cons.mp h with rfl | h
    · simp
    · exact ih h
  | dir name entries rest _ ih =>
    rcases List.mem_append.mp h with h | h
    · obtain ⟨q, -, rfl⟩ := List.mem_map.mp h
      simp
    · exact ih h

/-- The first name on the way to a file is one at the top. -/
theorem exists_cons_of_mem_files {f : Forest} {p : List String × Bytes} (h : p ∈ f.files) :
    ∃ name rest, p.1 = name :: rest ∧ name ∈ f.names := by
  induction f generalizing p with
  | nil => simp [files] at h
  | file name bytes rest ih =>
    rcases List.mem_cons.mp h with rfl | h
    · exact ⟨name, [], rfl, List.mem_cons_self⟩
    · obtain ⟨n, r, hp, hn⟩ := ih h
      exact ⟨n, r, hp, List.mem_cons_of_mem _ hn⟩
  | dir name entries rest _ ih =>
    rcases List.mem_append.mp h with h | h
    · obtain ⟨q, -, rfl⟩ := List.mem_map.mp h
      exact ⟨name, q.1, rfl, List.mem_cons_self⟩
    · obtain ⟨n, r, hp, hn⟩ := ih h
      exact ⟨n, r, hp, List.mem_cons_of_mem _ hn⟩

/-- Every name on the way to a file of a valid forest is one. -/
theorem isName_of_mem_files {f : Forest} (hf : f.Valid) {p : List String × Bytes}
    (h : p ∈ f.files) : ∀ n ∈ p.1, IsName n := by
  induction f generalizing p with
  | nil => simp [files] at h
  | file name bytes rest ih =>
    rcases List.mem_cons.mp h with rfl | h
    · simpa using hf.1
    · exact ih hf.2.2 h
  | dir name entries rest ih₁ ih₂ =>
    rcases List.mem_append.mp h with h | h
    · obtain ⟨q, hq, rfl⟩ := List.mem_map.mp h
      intro n hn
      rcases List.mem_cons.mp hn with rfl | hn
      · exact hf.1
      · exact ih₁ hf.2.2.1 hq n hn
    · exact ih₂ hf.2.2.2 h

/-- **No file lies below another**, and no two are the same. -/
theorem pairwise_files {f : Forest} (hf : f.Valid) :
    f.files.Pairwise fun p q => ¬ p.1 <+: q.1 ∧ ¬ q.1 <+: p.1 := by
  induction f with
  | nil => exact List.Pairwise.nil
  | file name bytes rest ih =>
    refine List.pairwise_cons.mpr ⟨?_, ih hf.2.2⟩
    intro q hq
    obtain ⟨n, r, hqn, hn⟩ := exists_cons_of_mem_files hq
    have hne : name ≠ n := by
      rintro rfl
      exact hf.2.1 hn
    rw [hqn, List.cons_prefix_cons, List.cons_prefix_cons]
    exact ⟨fun h => hne h.1, fun h => hne h.1.symm⟩
  | dir name entries rest ih₁ ih₂ =>
    refine List.pairwise_append.mpr ⟨?_, ih₂ hf.2.2.2, ?_⟩
    · refine (ih₁ hf.2.2.1).map _ ?_
      rintro p q ⟨h₁, h₂⟩
      simpa [List.cons_prefix_cons] using ⟨h₁, h₂⟩
    · intro p hp q hq
      obtain ⟨p', -, rfl⟩ := List.mem_map.mp hp
      obtain ⟨n, r, hqn, hn⟩ := exists_cons_of_mem_files hq
      have hne : name ≠ n := by
        rintro rfl
        exact hf.2.1 hn
      rw [hqn]
      simp only [Prod.map_fst, List.cons_prefix_cons]
      exact ⟨fun h => hne h.1, fun h => hne h.1.symm⟩

end Forest

/-! ### Reading a forest -/

/-- In the directory `dir` the view shows the forest: its files can be read, and
its directories list what is in them. -/
def Shows (view : FsView) (dir : String) : Forest → Prop
  | .nil => True
  | .file name bytes rest =>
      view.isFile (join dir name) = true ∧ view.read (join dir name) = some bytes ∧
        Shows view dir rest
  | .dir name entries rest =>
      view.isFile (join dir name) = false ∧ view.isDir (join dir name) = true ∧
        view.readDir (join dir name) = some (entries.names.map some) ∧
        Shows view (join dir name) entries ∧ Shows view dir rest

/-- The paths lead to the entries of the forest, in order, and end in their
names. -/
def Selected (view : FsView) : List String → Forest → Prop
  | [], .nil => True
  | path :: paths, .file name bytes rest =>
      fileName (components path) = some name ∧ view.isFile path = true ∧
        view.read path = some bytes ∧ Selected view paths rest
  | path :: paths, .dir name entries rest =>
      fileName (components path) = some name ∧ view.isFile path = false ∧
        view.isDir path = true ∧ view.readDir path = some (entries.names.map some) ∧
        Shows view path entries ∧ Selected view paths rest
  | _, _ => False

/-- The entry for a file of a forest: the names that lead to it, with slashes. -/
def entryOf (p : List String × Bytes) : FileEntry := ⟨"/".intercalate p.1, p.2⟩

/-- A prefix of the names, then a slash. -/
def entryBelow (pfx : String) (p : List String × Bytes) : FileEntry :=
  ⟨pfx ++ "/" ++ "/".intercalate p.1, p.2⟩

/-- What is below a name is found through that name. -/
theorem entryBelow_cons {pfx name : String} {p : List String × Bytes} (hp : p.1 ≠ []) :
    entryBelow (pfx ++ "/" ++ name) p = entryBelow pfx (Prod.map (name :: ·) id p) := by
  simp [entryBelow, String.intercalate_cons_of_ne_nil hp, String.append_assoc]

theorem entryBelow_name {name : String} {p : List String × Bytes} (hp : p.1 ≠ []) :
    entryBelow name p = entryOf (Prod.map (name :: ·) id p) := by
  simp [entryBelow, entryOf, String.intercalate_cons_of_ne_nil hp]

/-- **The entries of a directory are visited completely**, given budget for its
depth. -/
theorem visitEntry_eq {view : FsView} {f : Forest} {dir pfx : String} {fuel : ℕ}
    (h : Shows view dir f) (hfuel : f.depth ≤ fuel) :
    ((f.names.map some).mapM (visitEntry view (collectDirFiles view fuel) dir pfx)).map
      List.flatten = some (f.files.map (entryBelow pfx)) := by
  induction f generalizing dir pfx fuel with
  | nil => rfl
  | file name bytes rest ih =>
    obtain ⟨hfile, hread, hrest⟩ := h
    have hone : visitEntry view (collectDirFiles view fuel) dir pfx (some name) =
        some [entryBelow pfx ([name], bytes)] := by
      simp [visitEntry, hfile, hread, entryBelow]
    exact Loops.mapM_flatten_cons_some hone (ih hrest hfuel)
  | dir name entries rest ih₁ ih₂ =>
    obtain ⟨hfile, hdir, hlist, hentries, hrest⟩ := h
    obtain ⟨hdepth, hfuel⟩ := Nat.max_le.mp hfuel
    obtain ⟨k, rfl⟩ : ∃ k, fuel = k + 1 := ⟨fuel - 1, by omega⟩
    have hsub : collectDirFiles view (k + 1) (join dir name) (pfx ++ "/" ++ name) =
        some (entries.files.map (entryBelow (pfx ++ "/" ++ name))) := by
      rw [collectDirFiles, hlist]
      exact ih₁ hentries (by omega)
    have hnames : entries.files.map (entryBelow (pfx ++ "/" ++ name)) =
        (entries.files.map (Prod.map (name :: ·) id)).map (entryBelow pfx) := by
      rw [List.map_map]
      exact List.map_congr_left fun p hp => entryBelow_cons (Forest.ne_nil_of_mem_files hp)
    rw [Forest.files, List.map_append, ← hnames]
    refine Loops.mapM_flatten_cons_some ?_ (ih₂ hrest hfuel)
    rw [← hsub]
    simp [visitEntry, hfile, hdir]

/-- A directory is read completely. -/
theorem collectDirFiles_eq {view : FsView} {f : Forest} {dir pfx : String} {fuel : ℕ}
    (hlist : view.readDir dir = some (f.names.map some)) (h : Shows view dir f)
    (hfuel : f.depth < fuel) :
    collectDirFiles view fuel dir pfx = some (f.files.map (entryBelow pfx)) := by
  obtain ⟨k, rfl⟩ : ∃ k, fuel = k + 1 := ⟨fuel - 1, by omega⟩
  rw [collectDirFiles, hlist]
  exact visitEntry_eq h (by omega)

/-- **The entries of a selection are its files, in order**, each named by its way
from the selection. -/
theorem readFilePaths_eq {view : FsView} {f : Forest} {paths : List String} {fuel : ℕ}
    (h : Selected view paths f) (hfuel : f.depth ≤ fuel) :
    readFilePaths view fuel paths = some (f.files.map entryOf) := by
  induction f generalizing paths with
  | nil =>
    cases paths with
    | nil => rfl
    | cons path paths => exact h.elim
  | file name bytes rest ih =>
    cases paths with
    | nil => exact h.elim
    | cons path paths =>
      obtain ⟨hname, hfile, hread, hrest⟩ := h
      have hone : readFilePath view fuel path = some [entryOf ([name], bytes)] := by
        simp [readFilePath, hname, hfile, hread, entryOf]
      exact Loops.mapM_flatten_cons_some hone (ih hrest hfuel)
  | dir name entries rest _ ih =>
    cases paths with
    | nil => exact h.elim
    | cons path paths =>
      obtain ⟨hname, hfile, hdir, hlist, hentries, hrest⟩ := h
      obtain ⟨hdepth, hfuel⟩ := Nat.max_le.mp hfuel
      -- the names below a directory start with the directory's own
      have hnames : entries.files.map (entryBelow name) =
          (entries.files.map (Prod.map (name :: ·) id)).map entryOf := by
        rw [List.map_map]
        exact List.map_congr_left fun p hp => entryBelow_name (Forest.ne_nil_of_mem_files hp)
      rw [Forest.files, List.map_append, ← hnames]
      refine Loops.mapM_flatten_cons_some ?_ (ih hrest hfuel)
      simp only [readFilePath, hname, hfile, hdir, Option.getD_some, if_true,
        Bool.false_eq_true, if_false]
      exact collectDirFiles_eq hlist hentries hdepth

end P2pClipboard
