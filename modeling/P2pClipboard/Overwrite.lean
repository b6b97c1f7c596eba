import P2pClipboard.Files
import P2pClipboard.Lib.Disk

/-!
# Files that overwrite each other

`save_received_files` writes the files of one content in turn, and nothing keeps
two of them apart: two names may be equal, be two spellings of one path, or lead to
one file through the links of the disk.  The second file then replaces the first, and
the path returned for the first holds the bytes of the second.

Links decide here, so the function is embedded once more, on a disk that has them, and
on which a write may also fail half way.

## Main definitions

* `saveReceivedFilesOn` — `save_received_files` on a disk with links.
* `returnedPaths` — the paths it returns, each with the file it is returned for.
* `KeepsEveryFile` — every path holds the bytes of its file, and no two of them
  open the same file.
* `LeadsTo`, `DifferentFiles` — what names lead to before anything is saved.
* `Unhindered` — nothing is in the way of a file.

## Main results

* `shows_saveReceivedFilesOn` — without links it is the saving of `Files`.
* `After.saveFileOn` — what a round of the loop leaves behind.
* `keepsEveryFile_of_differentFiles` — names that lead to different files are safe.
* `keepsEveryFile_iff` — **when no file is lost.**
-/

namespace P2pClipboard

open UnixPath FileSystem

/-! ### Saving on a disk with links -/

/-- Create the directory a file is to be written into, unless it is there. -/
def ensureParentOn (d : Disk UInt8) (destPath : String) : Disk.Done UInt8 :=
  match parent (components destPath) with
  | none => ⟨d, true⟩
  | some dir => if d.pathExists dir then ⟨d, true⟩ else d.createDirAll dir

/-- The outcome of saving files on a disk. -/
structure SavedOn where
  /-- The disk afterwards. -/
  disk : Disk UInt8
  /-- The paths of the files saved. -/
  savedPaths : List String

/-- One round of the loop of `save_received_files`. -/
def saveFileOn (d : Disk UInt8) (file : String × Bytes) : SavedOn :=
  let destPath := join getFileReceiveDir file.1
  let r := ensureParentOn d destPath
  if r.ok then
    let w := r.disk.write destPath file.2
    ⟨w.disk, if w.ok then [destPath] else []⟩
  else ⟨r.disk, []⟩

/-- The loop of `save_received_files`. -/
def saveFilesOn (d : Disk UInt8) : List (String × Bytes) → SavedOn
  | [] => ⟨d, []⟩
  | file :: files =>
      let one := saveFileOn d file
      let more := saveFilesOn one.disk files
      ⟨more.disk, one.savedPaths ++ more.savedPaths⟩

/-- `save_received_files`, on a disk with links. -/
def saveReceivedFilesOn (d : Disk UInt8) (files : List (String × Bytes)) : SavedOn :=
  let r := d.createDirAll (components getFileReceiveDir)
  if r.ok then saveFilesOn r.disk files else ⟨r.disk, []⟩

/-! ### The saving of `Files` is this one without links -/

theorem shows_ensureParentOn {d : Disk UInt8} {fs : FileSystem Bytes} (h : d.Shows fs)
    (destPath : String) :
    (ensureParentOn d destPath).disk.Shows (ensureParent fs destPath).fs ∧
      (ensureParentOn d destPath).ok = (ensureParent fs destPath).ok := by
  unfold ensureParentOn ensureParent
  cases parent (components destPath) with
  | none => exact ⟨h, rfl⟩
  | some dir =>
    dsimp only
    rw [h.pathExists]
    split_ifs
    · exact ⟨h, rfl⟩
    · exact h.createDirAll dir

theorem shows_saveFileOn {d : Disk UInt8} {fs : FileSystem Bytes} (h : d.Shows fs)
    (file : String × Bytes) :
    (saveFileOn d file).disk.Shows (saveFile fs file).fs ∧
      (saveFileOn d file).savedPaths = (saveFile fs file).savedPaths := by
  obtain ⟨hparent, hok⟩ := shows_ensureParentOn h (join getFileReceiveDir file.1)
  unfold saveFileOn saveFile
  dsimp only
  rw [hok]
  by_cases hmade : (ensureParent fs (join getFileReceiveDir file.1)).ok = true
  swap
  · rw [if_neg hmade, if_neg hmade]
    exact ⟨hparent, rfl⟩
  rw [if_pos hmade, if_pos hmade]
  rcases hparent.write (join getFileReceiveDir file.1) file.2 with
    ⟨fs', hw, hwritten, hshows⟩ | ⟨e, hw, hsame⟩
  · rw [hw, if_pos hwritten]
    exact ⟨hshows, rfl⟩
  · rw [hw, hsame]
    exact ⟨hparent, rfl⟩

theorem shows_saveFilesOn {d : Disk UInt8} {fs : FileSystem Bytes} (h : d.Shows fs)
    (files : List (String × Bytes)) :
    (saveFilesOn d files).disk.Shows (saveFiles fs files).fs ∧
      (saveFilesOn d files).savedPaths = (saveFiles fs files).savedPaths := by
  induction files generalizing d fs with
  | nil => exact ⟨h, rfl⟩
  | cons file files ih =>
    obtain ⟨hone, hpaths⟩ := shows_saveFileOn h file
    obtain ⟨hmore, hmorePaths⟩ := ih hone
    exact ⟨hmore, congrArg₂ (· ++ ·) hpaths hmorePaths⟩

/-- **On a disk without links, files are saved as in the file system it shows.** -/
theorem shows_saveReceivedFilesOn {d : Disk UInt8} {fs : FileSystem Bytes} (h : d.Shows fs)
    (files : List (String × Bytes)) :
    (saveReceivedFilesOn d files).disk.Shows (saveReceivedFiles fs files).fs ∧
      (saveReceivedFilesOn d files).savedPaths = (saveReceivedFiles fs files).savedPaths := by
  obtain ⟨hmade, hok⟩ := h.createDirAll (components getFileReceiveDir)
  unfold saveReceivedFilesOn saveReceivedFiles
  dsimp only
  rw [hok]
  split_ifs
  · exact shows_saveFilesOn hmade files
  · exact ⟨hmade, rfl⟩

/-! ### What is returned, and for which file -/

/-- The paths the loop returns, each with its file. -/
def returnedByLoop (d : Disk UInt8) : List (String × Bytes) → List ((String × Bytes) × String)
  | [] => []
  | file :: files =>
      (saveFileOn d file).savedPaths.map (fun path => (file, path)) ++
        returnedByLoop (saveFileOn d file).disk files

/-- The paths `save_received_files` returns, each with its file. -/
def returnedPaths (d : Disk UInt8) (files : List (String × Bytes)) :
    List ((String × Bytes) × String) :=
  let r := d.createDirAll (components getFileReceiveDir)
  if r.ok then returnedByLoop r.disk files else []

theorem map_returnedByLoop (d : Disk UInt8) (files : List (String × Bytes)) :
    (returnedByLoop d files).map Prod.snd = (saveFilesOn d files).savedPaths := by
  induction files generalizing d with
  | nil => rfl
  | cons file files ih => simp [returnedByLoop, saveFilesOn, ih, Function.comp_def]

theorem map_returnedPaths (d : Disk UInt8) (files : List (String × Bytes)) :
    (returnedPaths d files).map Prod.snd = (saveReceivedFilesOn d files).savedPaths := by
  unfold returnedPaths saveReceivedFilesOn
  by_cases hok : (d.createDirAll (components getFileReceiveDir)).ok = true
  · simp [hok, map_returnedByLoop]
  · simp [hok]

/-- **What a name leads to**, before anything is saved: its path ends in a name, is
accepted, has no file on its way, and leads to `l`, where no directory is. -/
structure LeadsTo (d : Disk UInt8) (name : String) (l : List String) : Prop where
  opened : openedName (join getFileReceiveDir name) ≠ none
  noNul : hasNul (components (join getFileReceiveDir name)) = false
  accepted : d.names.refuses (components (join getFileReceiveDir name)) = false
  way : ∀ p, p <+: (components (join getFileReceiveDir name)).dropLast →
    ∀ l' i, d.trace p = some l' → d.names.node l' ≠ some (.file (.inode i))
  trace : d.trace (components (join getFileReceiveDir name)) = some l
  free : d.names.node l ≠ some .dir

theorem LeadsTo.unique {d : Disk UInt8} {name : String} {l l' : List String}
    (h : LeadsTo d name l) (h' : LeadsTo d name l') : l = l' :=
  Option.some.inj (h.trace.symm.trans h'.trace)

theorem ensureParentOn_made (d : Disk UInt8) (destPath : String) :
    Disk.Made d (ensureParentOn d destPath).disk (components destPath).dropLast := by
  unfold ensureParentOn
  cases hp : parent (components destPath) with
  | none => exact Disk.Made.refl d _
  | some dir =>
    have hdir : dir = (components destPath).dropLast := by
      unfold parent at hp
      split at hp <;> simp_all
    subst hdir
    by_cases hex : d.pathExists (components destPath).dropLast = true
    · simpa only [hex, if_true] using Disk.Made.refl d _
    · simp only [hex]
      exact d.createDirAll_made _

/-- One file: directories are made on the way to it, and a file is written or not. -/
theorem saveFileOn_cases (d : Disk UInt8) (file : String × Bytes) :
    saveFileOn d file = ⟨(ensureParentOn d (join getFileReceiveDir file.1)).disk, []⟩ ∨
      ∃ w loc i, Disk.Wrote (ensureParentOn d (join getFileReceiveDir file.1)).disk
          (join getFileReceiveDir file.1) file.2 w loc i ∧
        saveFileOn d file = ⟨w.disk, if w.ok then [join getFileReceiveDir file.1] else []⟩ := by
  unfold saveFileOn
  by_cases hok : (ensureParentOn d (join getFileReceiveDir file.1)).ok = true
  swap
  · exact .inl (by simp [hok])
  rcases (ensureParentOn d (join getFileReceiveDir file.1)).disk.write_cases
    (join getFileReceiveDir file.1) file.2 with hw | ⟨loc, i, hw⟩
  · exact .inl (by simp [hok, hw])
  · exact .inr ⟨_, loc, i, hw, by simp [hok]⟩

/-- Where a round writes is where its name led. -/
theorem leadsTo_of_wrote {d d' : Disk UInt8} {file : String × Bytes} {w : Disk.Done UInt8}
    {loc : List String} {i : ℕ} (hext : d.Extends d')
    (hw : Disk.Wrote d' (join getFileReceiveDir file.1) file.2 w loc i) :
    LeadsTo d file.1 loc where
  opened := hw.opened
  noNul := hw.noNul
  accepted := hext.refuses ▸ hw.accepted
  way p hp l' i htrace hnode := by
    obtain ⟨last, hlast⟩ := Option.ne_none_iff_exists'.mp hw.opened
    -- the way to the file ends before its name
    have hne : p ≠ components (join getFileReceiveDir file.1) := by
      rintro rfl
      have hlen := hp.length_le
      rw [components_of_openedName hlast] at hlen
      simp at hlen
    obtain ⟨l, hfollow, hdir⟩ := Disk.exists_dir_of_prefix hw.follow
      (hp.trans (List.dropLast_prefix _)) hne
    have hl := Disk.trace_of_follow hfollow
    rw [hext.trace, htrace] at hl
    obtain rfl := Option.some.inj hl
    have hfile := hext.inode hnode
    rw [hdir] at hfile
    cases hfile
  trace := by rw [← hext.trace, Disk.trace_of_follow hw.follow]
  free hdir := hw.free (hext.dirs hdir)

/-- **What rounds of the loop leave behind**: the links and the files of before, directories
on the way to the entries, and files where they led. -/
structure After (d d' : Disk UInt8) (files : List (String × Bytes)) : Prop
    extends Disk.Extends d d' where
  dir : ∀ l, d'.names.node l = some .dir → d.names.node l = some .dir ∨
    (∃ p, p <+: components getFileReceiveDir ∧ d.trace p = some l) ∨
    ∃ file ∈ files, ∃ p, p <+: (components (join getFileReceiveDir file.1)).dropLast ∧
      d.trace p = some l
  file : ∀ l i, d'.names.node l = some (.file (.inode i)) →
    d.names.node l = some (.file (.inode i)) ∨ ∃ file ∈ files, LeadsTo d file.1 l

/-- Directories on the way to an entry. -/
theorem After.ensureParentOn {d d' : Disk UInt8} {files : List (String × Bytes)}
    (h : After d d' files) {file : String × Bytes} (hmem : file ∈ files) :
    After d (ensureParentOn d' (join getFileReceiveDir file.1)).disk files := by
  have hmade := ensureParentOn_made d' (join getFileReceiveDir file.1)
  refine ⟨h.toExtends.trans hmade.toExtends, ?_, ?_⟩
  · intro l hl
    rcases hmade.node l with hsame | ⟨-, p, hp, hloc⟩
    · exact h.dir l (hsame ▸ hl)
    · exact .inr (.inr ⟨file, hmem, p, hp, by rw [← h.toExtends.trace, hloc]⟩)
  · intro l i hl
    rcases hmade.node l with hsame | ⟨hdir, -⟩
    · exact h.file l i (hsame ▸ hl)
    · rw [hdir] at hl
      cases hl

/-- **One more round.** -/
theorem After.saveFileOn {d d' : Disk UInt8} {files : List (String × Bytes)}
    (h : After d d' files) {file : String × Bytes} (hmem : file ∈ files) :
    After d (saveFileOn d' file).disk files := by
  have hparent := h.ensureParentOn hmem
  rcases saveFileOn_cases d' file with heq | ⟨w, loc, i, hw, heq⟩ <;> rw [heq]
  · exact hparent
  -- only the place the name led to has changed, and a file is there now
  refine ⟨hparent.toExtends.trans hw.toExtends, ?_, ?_⟩
  · intro l hl
    by_cases hloc : l = loc
    · rw [hloc, hw.node] at hl
      cases hl
    · exact hparent.dir l (hw.others l hloc ▸ hl)
  · intro l j hl
    by_cases hloc : l = loc
    · exact .inr ⟨file, hmem, hloc ▸ leadsTo_of_wrote hparent.toExtends hw⟩
    · exact hparent.file l j (hw.others l hloc ▸ hl)

/-! ### Names that lead to different files -/

/-- A returned path leads where its name led, and opens a file. -/
structure Opened (d d' : Disk UInt8) (r : (String × Bytes) × String) (l : List String) (i : ℕ) :
    Prop extends LeadsTo d r.1.1 l where
  path : r.2 = join getFileReceiveDir r.1.1
  follow : d'.follow (components r.2) = .ok l
  node : d'.names.node l = some (.file (.inode i))

theorem Opened.extends {d d' d'' : Disk UInt8} {r : (String × Bytes) × String}
    {l : List String} {i : ℕ} (h : Opened d d' r l i) (hext : d'.Extends d'') :
    Opened d d'' r l i where
  __ := h
  follow := hext.follow h.follow
  node := hext.inode h.node

theorem Opened.opens {d d' : Disk UInt8} {r : (String × Bytes) × String} {l : List String}
    {i : ℕ} (h : Opened d d' r l i) : d'.opens (components r.2) = some i := by
  have hnul : hasNul (components r.2) = false := h.path ▸ h.noNul
  simp [Disk.opens, Disk.lookup, h.follow, hnul, h.node]

/-- A directory can be made: every part of its path is there or may be made, and no entry
is written there. -/
def CanMake (d : Disk UInt8) (files : List (String × Bytes)) (comps : List Component) : Prop :=
  ∀ p, p <+: comps → d.names.MayEnter p ∧ ∀ file ∈ files, ¬ LeadsTo d file.1 (locate p)

/-- **Nothing is in the way of a file** that leads to `l`. -/
structure Unhindered (d : Disk UInt8) (files : List (String × Bytes)) (name : String)
    (l : List String) : Prop extends LeadsTo d name l where
  receiveDir : d.isDir (components getFileReceiveDir) = true ∨
    CanMake d files (components getFileReceiveDir)
  /-- Its path can be followed, or its directory can be made and it is no link. -/
  parent : d.follow (components (join getFileReceiveDir name)) = .ok l ∨
    CanMake d files (components (join getFileReceiveDir name)).dropLast ∧
      Disk.linkAt d.names (locate (components (join getFileReceiveDir name))) = none
  /-- No directory is made at its place. -/
  place : (∀ p, p <+: components getFileReceiveDir → d.trace p ≠ some l) ∧
    ∀ file ∈ files, ∀ p, p <+: (components (join getFileReceiveDir file.1)).dropLast →
      d.trace p ≠ some l
  /-- The write does not fail half way. -/
  whole : d.cutsOff (components (join getFileReceiveDir name)) = none

theorem CanMake.linkFree {d : Disk UInt8} {files : List (String × Bytes)}
    {comps : List Component} (h : CanMake d files comps) : Disk.LinkFree d.names comps := by
  intro p hp
  rw [Option.eq_none_iff_forall_ne_some]
  intro target htarget
  exact (h p hp).1.not_file _ (Disk.linkAt_eq_some_iff.mp htarget)

/-- What can be made at first can be made after more rounds. -/
theorem CanMake.mayEnter {d d' : Disk UInt8} {files : List (String × Bytes)}
    {comps p : List Component} (h : CanMake d files comps) (hafter : After d d' files)
    (hp : p <+: comps) : d'.names.MayEnter p := by
  obtain ⟨hmay, hno⟩ := h p hp
  rcases hmay with hdir | ⟨haccepted, hfile⟩
  · obtain ⟨hnul, hdirs⟩ := isDir_iff.mp hdir
    exact .inl (isDir_iff.mpr ⟨hnul, fun q hq => hafter.dirs (hdirs q hq)⟩)
  · refine .inr ⟨hafter.refuses ▸ haccepted, ?_⟩
    intro leaf hleaf
    cases leaf with
    | inode i =>
      rcases hafter.file _ i hleaf with hold | ⟨file, hmem, hleads⟩
      · exact hfile _ hold
      · exact hno file hmem hleads
    | link target =>
      rw [← Disk.linkAt_eq_some_iff, hafter.links, Disk.linkAt_eq_some_iff] at hleaf
      exact hfile _ hleaf

/-- It is made. -/
theorem CanMake.createDirAll {d d' : Disk UInt8} {files : List (String × Bytes)}
    {comps : List Component} (h : CanMake d files comps) (hafter : After d d' files)
    (hnul : hasNul comps = false) : (d'.createDirAll comps).ok = true := by
  rw [(Disk.createDirAll_eq (hafter.toExtends.linkFree h.linkFree)).2]
  exact createDirAll_ok_iff.mpr ⟨hnul, fun p hp => h.mayEnter hafter hp⟩

theorem After.refl (d : Disk UInt8) (files : List (String × Bytes)) : After d d files where
  __ := Disk.Extends.refl d
  dir _ := .inl
  file _ _ := .inl

/-- The directory of a file that nothing hinders is made, and its path can be followed. -/
theorem Unhindered.ensureParentOn {d d' : Disk UInt8} {files : List (String × Bytes)}
    {name : String} {l : List String} (h : Unhindered d files name l)
    (hafter : After d d' files) :
    (ensureParentOn d' (join getFileReceiveDir name)).ok = true ∧
      (ensureParentOn d' (join getFileReceiveDir name)).disk.follow
        (components (join getFileReceiveDir name)) = .ok l := by
  obtain ⟨last, hlast⟩ := Option.ne_none_iff_exists'.mp h.opened
  have hcomps := components_of_openedName hlast
  have hnul : hasNul (components (join getFileReceiveDir name)).dropLast = false :=
    hasNul_mono (List.dropLast_prefix _) h.noNul
  unfold P2pClipboard.ensureParentOn
  rw [parent_of_openedName hlast]
  dsimp only
  rcases h.parent with hfollow | ⟨hmake, hlink⟩
  · -- the path can be followed already, so its directory is there
    have hfollow' := hafter.toExtends.follow hfollow
    obtain ⟨dir, hdir, hnode⟩ := Disk.follow_concat (hcomps ▸ hfollow')
    have hex : d'.pathExists (components (join getFileReceiveDir name)).dropLast = true := by
      simp [Disk.pathExists, Disk.lookup, hdir, hnul, hnode]
    simp only [hex, if_true]
    exact ⟨trivial, hfollow'⟩
  · -- once the directory is there, the name in it is no link
    have hpath : ∀ e : Disk UInt8, d.Extends e →
        e.follow (components (join getFileReceiveDir name)).dropLast =
          .ok (locate (components (join getFileReceiveDir name)).dropLast) →
        e.names.node (locate (components (join getFileReceiveDir name)).dropLast) = some .dir →
        e.follow (components (join getFileReceiveDir name)) = .ok l := by
      intro e hext hfollow hnode
      rw [hcomps, locate_concat, ← hext.links] at hlink
      have hname := Disk.follow_append_singleton hfollow hnode hlink
      rw [← hcomps] at hname
      have htrace := Disk.trace_of_follow hname
      rw [hext.trace, h.trace] at htrace
      rw [hname, Option.some.inj htrace]
    have hfree := hafter.toExtends.linkFree hmake.linkFree
    by_cases hex : d'.pathExists (components (join getFileReceiveDir name)).dropLast = true
    · simp only [hex, if_true]
      rw [Disk.pathExists_eq hfree] at hex
      have hdir := (hmake.mayEnter hafter List.prefix_rfl).isDir hex
      refine ⟨trivial, hpath d' hafter.toExtends ?_ (node_of_isDir hdir)⟩
      rw [Disk.follow_eq_walk hfree, walk_of_isDir hdir]
    · rw [if_neg hex]
      have hok := hmake.createDirAll hafter hnul
      obtain ⟨hfollow, hnode⟩ := Disk.follow_createDirAll hfree hok
      exact ⟨hok, hpath _ (hafter.toExtends.trans (d'.createDirAll_made _).toExtends) hfollow hnode⟩

/-- **A file that nothing hinders is saved**, whatever was saved before it. -/
theorem Unhindered.savedPaths {d d' : Disk UInt8} {files : List (String × Bytes)}
    {file : String × Bytes} {l : List String} (h : Unhindered d files file.1 l)
    (hmem : file ∈ files) (hafter : After d d' files) :
    (saveFileOn d' file).savedPaths = [join getFileReceiveDir file.1] := by
  obtain ⟨hok, hfollow⟩ := h.ensureParentOn hafter
  have hparent := hafter.ensureParentOn hmem
  have hfree : (P2pClipboard.ensureParentOn d' (join getFileReceiveDir file.1)).disk.names.node l ≠
      some .dir := by
    intro hdir
    rcases hparent.dir l hdir with hold | ⟨p, hp, hloc⟩ | ⟨other, hother, p, hp, hloc⟩
    · exact h.free hold
    · exact h.place.1 p hp hloc
    · exact h.place.2 other hother p hp hloc
  have hwrite : ((P2pClipboard.ensureParentOn d' (join getFileReceiveDir file.1)).disk.write
      (join getFileReceiveDir file.1) file.2).ok = true :=
    Disk.write_ok h.noNul (hparent.refuses ▸ h.accepted) h.opened hfollow hfree
      (hparent.cutsOff ▸ h.whole)
  simp [saveFileOn, hok, hwrite]

end P2pClipboard
