import P2pClipboard.Clipboard

/-!
# One file, and a list of one file

A selection that holds a single file is sent as a `File`, any other as `Files`.  The
receiver saves both alike, but what it puts on the clipboard differs: the path of the file
for the one, and the first component below the receive directory for the other.  A file
from a directory is therefore pasted alone when it is the only one there, although the
directory was copied.

## Main definitions

* `KeepsPath` — the names whose path is its own top level.
* `CanSave` — what saving a file needs of its name and of the file system.

## Main results

* `deduplicateToTopLevelPaths_eq_self_iff` — the top level of a saved path.
* `savedPaths_ne_nil_iff_canSave` — when a file is saved.
* `set_file_eq_set_files_iff` — **when the two forms are treated alike.**
-/

namespace P2pClipboard

open UnixPath FileSystem

/-- The names whose path is its own top level: those without a slash, and among the
absolute ones those outside the receive directory or directly in it. -/
def KeepsPath (name : String) : Prop :=
  if IsAbsolute name then
    ¬ components getFileReceiveDir <+: components name ∨
      ∃ entry : String, '/' ∉ entry.toList ∧ name = getFileReceiveDir ++ "/" ++ entry
  else '/' ∉ name.toList

/-! ### The top level of a path -/

theorem isAbsolute_getFileReceiveDir : IsAbsolute getFileReceiveDir := by decide

theorem getFileReceiveDir_sep : getFileReceiveDir.toList.getLast?.any (· ≠ '/') = true := by
  decide

theorem not_isAbsolute_of_not_mem {name : String} (h : '/' ∉ name.toList) :
    ¬ IsAbsolute name := by
  intro habs
  exact h (List.mem_of_mem_head? habs)

theorem join_getFileReceiveDir {name : String} (h : ¬ IsAbsolute name) :
    join getFileReceiveDir name = getFileReceiveDir ++ "/" ++ name :=
  join_eq getFileReceiveDir_sep h

/-- The top level of one path. -/
theorem deduplicateToTopLevelPaths_singleton (path : String) :
    deduplicateToTopLevelPaths [path] =
      match stripPrefix (components getFileReceiveDir) (components path) with
      | none => [path]
      | some [] => []
      | some (first :: _) => [join getFileReceiveDir (componentText first)] := by
  unfold deduplicateToTopLevelPaths
  rw [List.foldl_cons, List.foldl_nil]
  cases stripPrefix (components getFileReceiveDir) (components path) with
  | none => rfl
  | some rest =>
    cases rest with
    | nil => rfl
    | cons first rest => rfl

/-- The text of a component that comes from a piece is the piece. -/
theorem componentText_of_ofSegment {segment : String} {c : Component}
    (h : ofSegment segment = some c) : componentText c = segment := by
  unfold ofSegment at h
  split at h
  · exact absurd h (by simp)
  · split at h
    · rename_i hdots
      obtain rfl := Option.some.inj h
      rw [hdots]
      rfl
    · obtain rfl := Option.some.inj h
      rfl

theorem not_mem_componentText {path : String} {c : Component}
    (h : c ∈ (segments path).filterMap ofSegment) : '/' ∉ (componentText c).toList := by
  obtain ⟨segment, hmem, hseg⟩ := List.mem_filterMap.mp h
  rw [componentText_of_ofSegment hseg]
  exact not_mem_of_mem_segments hmem

/-- What is behind the receive directory comes from pieces of the path, none of them
the root. -/
theorem mem_segments_of_below {path : String} {c : Component}
    (h : c ∈ (components path).drop (components getFileReceiveDir).length) :
    c ∈ (segments path).filterMap ofSegment := by
  have htwo : (components getFileReceiveDir).length = 1 + 1 := by decide
  rw [htwo, ← List.drop_drop] at h
  exact mem_of_mem_drop_components (List.mem_of_mem_drop h)

/-- A path that ends in a name has a component there. -/
theorem ofSegment_ne_none_of_openedName {path segment last : String} {init : List String}
    (hsegs : segments path = init ++ [segment]) (h : openedName path = some last) :
    ofSegment segment ≠ none := by
  unfold openedName at h
  rw [hsegs, List.getLast?_concat] at h
  simp only at h
  split at h
  · exact absurd h (by simp)
  · rename_i hseg
    rw [not_or, not_or] at hseg
    simp [ofSegment, hseg]

/-- The top level of a path below the receive directory is the path itself exactly when
nothing but a name follows the directory. -/
theorem topLevel_join_eq_self_iff {name last : String} (hrel : ¬ IsAbsolute name)
    (hopen : openedName (join getFileReceiveDir name) = some last) :
    deduplicateToTopLevelPaths [join getFileReceiveDir name] = [join getFileReceiveDir name] ↔
      '/' ∉ name.toList := by
  have hcomps : components (join getFileReceiveDir name) =
      components getFileReceiveDir ++ (segments name).filterMap ofSegment :=
    components_join isAbsolute_getFileReceiveDir getFileReceiveDir_sep hrel
  have hstrip : stripPrefix (components getFileReceiveDir)
      (components (join getFileReceiveDir name)) = some ((segments name).filterMap ofSegment) := by
    rw [hcomps, stripPrefix, if_pos (List.prefix_append _ _), List.drop_left]
  rw [deduplicateToTopLevelPaths_singleton, hstrip]
  constructor
  · intro h
    cases hrest : (segments name).filterMap ofSegment with
    | nil => exact absurd h (by simp [hrest])
    | cons first rest =>
      -- the top level is the directory and one component, which has no separator
      have hslash : '/' ∉ (componentText first).toList :=
        not_mem_componentText (hrest ▸ List.mem_cons_self)
      rw [hrest] at h
      have hjoin := List.singleton_inj.mp h
      rw [join_getFileReceiveDir (not_isAbsolute_of_not_mem hslash),
        join_getFileReceiveDir hrel] at hjoin
      rw [← String.append_right_inj _ |>.mp hjoin]
      exact hslash
  · intro hslash
    have hsegs : segments (join getFileReceiveDir name) = segments getFileReceiveDir ++ [name] := by
      rw [segments_join getFileReceiveDir_sep hrel, segments_of_not_mem hslash]
    obtain ⟨c, hc⟩ := Option.ne_none_iff_exists'.mp (ofSegment_ne_none_of_openedName hsegs hopen)
    rw [segments_of_not_mem hslash]
    simp [hc, componentText_of_ofSegment hc]

/-- **The top level of a saved path is the path itself exactly for the names that keep
their path.** -/
theorem deduplicateToTopLevelPaths_eq_self_iff {name last : String}
    (hopen : openedName (join getFileReceiveDir name) = some last) :
    deduplicateToTopLevelPaths [join getFileReceiveDir name] = [join getFileReceiveDir name] ↔
      KeepsPath name := by
  by_cases habs : IsAbsolute name
  swap
  · rw [KeepsPath, if_neg habs]
    exact topLevel_join_eq_self_iff habs hopen
  rw [KeepsPath, if_pos habs]
  have hjoin : join getFileReceiveDir name = name := by rw [join, if_pos habs]
  rw [hjoin] at hopen ⊢
  by_cases hbelow : components getFileReceiveDir <+: components name
  swap
  · rw [deduplicateToTopLevelPaths_singleton, stripPrefix, if_neg hbelow]
    exact iff_of_true rfl (.inl hbelow)
  constructor
  · intro h
    rw [deduplicateToTopLevelPaths_singleton, stripPrefix, if_pos hbelow] at h
    cases hrest : (components name).drop (components getFileReceiveDir).length with
    | nil => exact absurd h (by simp [hrest])
    | cons first rest =>
      have hmem : first ∈ (segments name).filterMap ofSegment :=
        mem_segments_of_below (by rw [hrest]; exact List.mem_cons_self)
      have hslash : '/' ∉ (componentText first).toList := not_mem_componentText hmem
      rw [hrest] at h
      refine .inr ⟨componentText first, hslash, ?_⟩
      rw [← join_getFileReceiveDir (not_isAbsolute_of_not_mem hslash)]
      exact (List.singleton_inj.mp h).symm
  · rintro (hnot | ⟨entry, hslash, hname⟩)
    · exact absurd hbelow hnot
    · have hrel : ¬ IsAbsolute entry := not_isAbsolute_of_not_mem hslash
      rw [← join_getFileReceiveDir hrel] at hname
      rw [hname] at hopen ⊢
      exact (topLevel_join_eq_self_iff hrel hopen).mpr hslash

/-! ### The two forms -/

/-- A file that is saved is saved under its path, which ends in a name and is not the
receive directory. -/
theorem savedPaths_singleton (fs : FileSystem Bytes) (name : String) (bytes : Bytes) :
    (saveReceivedFiles fs [(name, bytes)]).savedPaths = [] ∨
      (saveReceivedFiles fs [(name, bytes)]).savedPaths = [join getFileReceiveDir name] ∧
        (∃ last, openedName (join getFileReceiveDir name) = some last) ∧
        components (join getFileReceiveDir name) ≠ components getFileReceiveDir := by
  unfold saveReceivedFiles
  by_cases hok : (fs.createDirAll (components getFileReceiveDir)).ok = true
  swap
  · exact .inl (by simp [hok])
  rcases saveFile_cases (fs.createDirAll (components getFileReceiveDir)).fs (name, bytes) with
    heq | ⟨fs', hwrite, heq⟩
  · exact .inl (by simp [hok, saveFiles, heq])
  · obtain ⟨last, hlast, -, hfree, -⟩ := write_eq_ok hwrite
    refine .inr ⟨by simp [hok, saveFiles, heq], ⟨last, hlast⟩, ?_⟩
    -- the receive directory is there before the file is written, and stays
    intro hcomps
    rw [hcomps] at hfree
    have hgrown := (ensureParent_spec (fs.createDirAll (components getFileReceiveDir)).fs
      (join getFileReceiveDir name)).1
    rcases hgrown.node (locate (components getFileReceiveDir)) with hsame | ⟨-, hnew, -⟩
    · exact hfree (hsame.trans (createDirAll_ok hok))
    · exact hfree hnew

/-- The top level of another path than the receive directory is one path. -/
theorem topLevel_singleton_of_ne {path : String}
    (h : components path ≠ components getFileReceiveDir) :
    ∃ top, deduplicateToTopLevelPaths [path] = [top] := by
  rw [deduplicateToTopLevelPaths_singleton, stripPrefix]
  by_cases hbelow : components getFileReceiveDir <+: components path
  · rw [if_pos hbelow]
    cases hrest : (components path).drop (components getFileReceiveDir).length with
    | nil =>
      obtain ⟨rest, heq⟩ := hbelow
      rw [← heq, List.drop_left] at hrest
      rw [hrest, List.append_nil] at heq
      exact absurd heq.symm h
    | cons first rest => exact ⟨_, rfl⟩
  · rw [if_neg hbelow]
    exact ⟨path, rfl⟩

/-- What is put on the clipboard for a path, and noted, tells which path it was. -/
theorem setFileClipboard_injective {env : Env} {calls : ClipboardCalls} {p q : String}
    {dedup : DeduplicationState}
    (h : setFileClipboard env calls [p] dedup = setFileClipboard env calls [q] dedup) : p = q := by
  simp only [setFileClipboard, List.cons_ne_nil, if_false] at h
  by_cases hp : calls.setFileList [p] = true
  · by_cases hq : calls.setFileList [q] = true
    · simpa [hp, hq] using (congrArg Prod.snd h)
    · simpa [hp, hq] using (congrArg (fun r => r.1.lastText) h)
  · by_cases hq : calls.setFileList [q] = true
    · simpa [hp, hq] using (congrArg (fun r => r.1.lastText) h)
    · simpa [hp, hq] using (congrArg (fun r => r.1.lastText) h)

theorem iterate_singleton (calls : ClipboardCalls) (p : String) : calls.iterate [p] = [p] :=
  List.perm_singleton.mp (calls.iterate_perm [p])

/-! ### When a file is saved -/

/-- What is there is not made. -/
theorem ensureParent_of_pathExists {fs : FileSystem Bytes} {destPath name : String}
    (hname : openedName destPath = some name)
    (hex : fs.pathExists (components destPath).dropLast = true) :
    ensureParent fs destPath = ⟨fs, [], true⟩ := by
  rw [ensureParent, parent_of_openedName hname]
  simp only [hex, if_true]

/-- Where nothing but a directory may be, the directory of a file is made or entered as
`create_dir_all` does it. -/
theorem ensureParent_eq_createDirAll {fs : FileSystem Bytes} {destPath name : String}
    (hname : openedName destPath = some name)
    (hdir : fs.pathExists (components destPath).dropLast = true →
      fs.isDir (components destPath).dropLast = true) :
    ensureParent fs destPath = fs.createDirAll (components destPath).dropLast := by
  by_cases hex : fs.pathExists (components destPath).dropLast = true
  · rw [ensureParent_of_pathExists hname hex, createDirAll_of_isDir (hdir hex)]
  · rw [ensureParent, parent_of_openedName hname]
    simp only [hex]
    rfl

/-- **When a file is saved**: its path ends in a name and is accepted, the directories on the
way are there or can be made, and then no directory is at its place. -/
theorem savedPaths_saveFile_ne_nil_iff {fs : FileSystem Bytes} {file : String × Bytes} :
    (saveFile fs file).savedPaths ≠ [] ↔
      (openedName (join getFileReceiveDir file.1)).isSome = true ∧
        hasNul (components (join getFileReceiveDir file.1)) = false ∧
        fs.refuses (components (join getFileReceiveDir file.1)) = false ∧
        (fs.createDirAll (components (join getFileReceiveDir file.1)).dropLast).ok = true ∧
        (fs.createDirAll (components (join getFileReceiveDir file.1)).dropLast).fs.node
          (locate (components (join getFileReceiveDir file.1))) ≠ some .dir := by
  have hrefuses :=
    (createDirAll_spec fs (components (join getFileReceiveDir file.1)).dropLast).1.refuses
  constructor
  · intro hsaved
    rcases saveFile_cases fs file with heq | ⟨fs', hw, -⟩
    · rw [heq] at hsaved
      exact absurd rfl hsaved
    obtain ⟨name, hname, hnul, hfree, -⟩ := write_eq_ok hw
    obtain ⟨haccepted, hwalk, hdir⟩ := dir_of_write hw
    have hmade : ensureParent fs (join getFileReceiveDir file.1) =
        fs.createDirAll (components (join getFileReceiveDir file.1)).dropLast := by
      refine ensureParent_eq_createDirAll hname fun hex => ?_
      rw [ensureParent_of_pathExists hname hex] at hdir
      exact isDir_of_pathExists hex hdir
    rw [hmade] at haccepted hfree
    refine ⟨by rw [hname]; rfl, hnul, hrefuses ▸ haccepted, ?_, hfree⟩
    by_contra hok
    rw [← hmade] at hok
    simp [saveFile, hok] at hsaved
  · rintro ⟨hopened, hnul, haccepted, hok, hfree⟩
    obtain ⟨name, hname⟩ := Option.isSome_iff_exists.mp hopened
    have hmade : ensureParent fs (join getFileReceiveDir file.1) =
        fs.createDirAll (components (join getFileReceiveDir file.1)).dropLast :=
      ensureParent_eq_createDirAll hname
        ((createDirAll_ok_iff.mp hok).2 _ List.prefix_rfl).isDir
    rw [components_of_openedName hname, locate_concat, ← components_of_openedName hname] at hfree
    obtain ⟨fs', hwrite⟩ : ∃ fs', (ensureParent fs (join getFileReceiveDir file.1)).fs.write
        (join getFileReceiveDir file.1) file.2 = .ok fs' :=
      ⟨_, write_of_dir hname hnul (by rw [hmade, hrefuses, haccepted])
        (by rw [hmade]; exact walk_createDirAll hok)
        (by rw [hmade]; exact createDirAll_ok hok) (by rw [hmade]; exact hfree)⟩
    rw [← hmade] at hok
    simp [saveFile, hok, hwrite]

/-- A directory is there, or it is the receive directory, which is made first. -/
def HasDir (fs : FileSystem Bytes) (l : List String) : Prop :=
  l = receiveLocation ∨ fs.node l = some .dir

/-- **What saving a file needs**, of its name and of the file system it finds. -/
structure CanSave (fs : FileSystem Bytes) (name : String) : Prop where
  /-- The receive directory is there or can be made. -/
  receiveDir : fs.MayEnter (components getFileReceiveDir)
  /-- The path ends in a name, and not in a slash or a dot. -/
  opened : (openedName (join getFileReceiveDir name)).isSome = true
  noNul : hasNul (components (join getFileReceiveDir name)) = false
  accepted : fs.refuses (components (join getFileReceiveDir name)) = false
  /-- The directories on the way are there, or can be made. -/
  parents : ∀ p, p <+: (components (join getFileReceiveDir name)).dropLast →
    (∀ q, q <+: p → HasDir fs (locate q)) ∨
      fs.refuses p = false ∧ ∀ a, fs.node (locate p) ≠ some (.file a)
  /-- No directory is at its place, and none is made there on the way. -/
  free : ¬ HasDir fs (locate (components (join getFileReceiveDir name))) ∧
    ∀ p, p <+: (components (join getFileReceiveDir name)).dropLast →
      locate p ≠ locate (components (join getFileReceiveDir name))

/-- Once the receive directory is made, the directories are those of `HasDir`. -/
theorem node_receiveDir_iff {fs : FileSystem Bytes}
    (hok : (fs.createDirAll (components getFileReceiveDir)).ok = true) {l : List String} :
    (fs.createDirAll (components getFileReceiveDir)).fs.node l = some .dir ↔ HasDir fs l := by
  rw [node_createDirAll_eq_dir_iff hok, HasDir, or_comm]
  refine or_congr_left' fun hno => ⟨?_, fun h => ⟨_, List.prefix_rfl, h.symm⟩⟩
  rintro ⟨p, hp, rfl⟩
  obtain rfl | rfl | rfl := prefix_receiveDir hp
  · exact absurd fs.node_nil hno
  · exact absurd fs.node_nil hno
  · rfl

/-- The receive directory can be made exactly when it is there or nothing is in its way. -/
theorem createDirAll_receiveDir_ok_iff {fs : FileSystem Bytes} :
    (fs.createDirAll (components getFileReceiveDir)).ok = true ↔
      fs.MayEnter (components getFileReceiveDir) := by
  have hnul : hasNul (components getFileReceiveDir) = false := by decide
  rw [createDirAll_ok_iff, and_iff_right hnul]
  constructor
  · intro h
    exact h _ List.prefix_rfl
  · intro h p hp
    -- above the receive directory there is the root only
    obtain rfl | rfl | rfl := prefix_receiveDir hp
    · refine .inl (isDir_iff.mpr ⟨rfl, ?_⟩)
      intro q hq
      rw [List.prefix_nil.mp hq]
      exact fs.node_nil
    · refine .inl (isDir_iff.mpr ⟨rfl, ?_⟩)
      intro q hq
      rcases List.prefix_cons_iff.mp hq with rfl | ⟨t, rfl, ht⟩
      · exact fs.node_nil
      · rw [List.prefix_nil.mp ht]
        exact fs.node_nil
    · exact h

/-- **A file is saved exactly when its name and the file system allow it.** -/
theorem savedPaths_ne_nil_iff_canSave {fs : FileSystem Bytes} {name : String} (bytes : Bytes) :
    (saveReceivedFiles fs [(name, bytes)]).savedPaths ≠ [] ↔ CanSave fs name := by
  by_cases hok : (fs.createDirAll (components getFileReceiveDir)).ok = true
  swap
  · refine iff_of_false (fun h => h (by simp [saveReceivedFiles, hok])) fun h => hok ?_
    exact createDirAll_receiveDir_ok_iff.mpr h.receiveDir
  have hsaved : (saveReceivedFiles fs [(name, bytes)]).savedPaths =
      (saveFile (fs.createDirAll (components getFileReceiveDir)).fs (name, bytes)).savedPaths := by
    simp [saveReceivedFiles, hok, saveFiles]
  have hreceive := createDirAll_receiveDir_ok_iff.mp hok
  have hrefuses := (createDirAll_spec fs (components getFileReceiveDir)).1.refuses
  -- what may be entered, told of the file system before
  have hmay : ∀ p, hasNul p = false →
      ((fs.createDirAll (components getFileReceiveDir)).fs.MayEnter p ↔
        (∀ q, q <+: p → HasDir fs (locate q)) ∨
          fs.refuses p = false ∧ ∀ a, fs.node (locate p) ≠ some (.file a)) := by
    intro p hnul
    simp only [MayEnter, isDir_iff, and_iff_right hnul, node_receiveDir_iff hok, hrefuses, ne_eq,
      node_createDirAll_eq_file_iff]
  rw [hsaved, savedPaths_saveFile_ne_nil_iff]
  constructor
  · rintro ⟨hopened, hnul, haccepted, hparents, hfree⟩
    rw [ne_eq, node_createDirAll_eq_dir_iff hparents, node_receiveDir_iff hok, not_or] at hfree
    refine ⟨hreceive, hopened, hnul, hrefuses ▸ haccepted, ?_, hfree.1, ?_⟩
    · intro p hp
      have hnul' : hasNul p = false := hasNul_mono (hp.trans (List.dropLast_prefix _)) hnul
      exact (hmay p hnul').mp ((createDirAll_ok_iff.mp hparents).2 p hp)
    · intro p hp heq
      exact hfree.2 ⟨p, hp, heq⟩
  · intro h
    have hnul : ∀ p, p <+: (components (join getFileReceiveDir name)).dropLast →
        hasNul p = false :=
      fun p hp => hasNul_mono (hp.trans (List.dropLast_prefix _)) h.noNul
    have hparents : ((fs.createDirAll (components getFileReceiveDir)).fs.createDirAll
        (components (join getFileReceiveDir name)).dropLast).ok = true :=
      createDirAll_ok_iff.mpr ⟨hnul _ List.prefix_rfl,
        fun p hp => (hmay p (hnul p hp)).mpr (h.parents p hp)⟩
    refine ⟨h.opened, h.noNul, hrefuses ▸ h.accepted, hparents, ?_⟩
    rw [ne_eq, node_createDirAll_eq_dir_iff hparents, node_receiveDir_iff hok]
    rintro (hdir | ⟨p, hp, heq⟩)
    · exact h.free.1 hdir
    · exact h.free.2 p hp heq

/-- **When the two forms are treated alike.**  The file system, the clipboard and the shared
state are the same after a file and after a list of this file exactly when the clipboard does
not open, the name or the file system does not let the file be saved, or the name keeps its
path. -/
theorem set_file_eq_set_files_iff (env : Env) (calls : ClipboardCalls) (name : String)
    (bytes : Bytes) (dedup : DeduplicationState) (fs : FileSystem Bytes) :
    setClipboardContent env calls (.file name bytes) dedup fs =
        setClipboardContent env calls (.files [⟨name, bytes⟩]) dedup fs ↔
      calls.opens = false ∨ ¬ CanSave fs name ∨ KeepsPath name := by
  unfold setClipboardContent
  by_cases hopens : calls.opens = false
  · rw [if_pos hopens, if_pos hopens]
    exact iff_of_true rfl (.inl hopens)
  rw [if_neg hopens, if_neg hopens, or_iff_right hopens]
  simp only [List.map_cons, List.map_nil]
  rw [← savedPaths_ne_nil_iff_canSave bytes, not_ne_iff]
  rcases savedPaths_singleton fs name bytes with hnone | ⟨hsaved, ⟨last, hlast⟩, hother⟩
  · have hiter : calls.iterate [] = [] := List.perm_nil.mp (calls.iterate_perm [])
    have htop : deduplicateToTopLevelPaths [] = [] := rfl
    simp [hnone, htop, hiter]
  · -- both forms save the same file; what they put on the clipboard differs by the top level
    obtain ⟨top, htop⟩ := topLevel_singleton_of_ne hother
    rw [← deduplicateToTopLevelPaths_eq_self_iff hlast, hsaved, htop, iterate_singleton]
    simp only [List.cons_ne_nil, false_or, List.singleton_inj]
    constructor
    · intro h
      rw [SetOutcome.mk.injEq] at h
      exact (setFileClipboard_injective (Prod.ext h.1 h.2.1)).symm
    · rintro rfl
      rfl

private theorem no_images_here {rgba png : Bytes} {w h : UInt32}
    (heq : (none : Option Bytes) = some png) :
    (none : Option (ℕ × ℕ × Bytes)) = some (w.toNat, h.toNat, rgba) := absurd heq (by simp)

/-- A library without images, with a hash that counts the bytes. -/
private def lengthEnv : Env :=
  ⟨fun bs => UInt64.ofNat bs.length, fun _ _ _ => none, fun _ => none, no_images_here⟩

/-- The only file of a directory: the file is on the clipboard in the one form, and the
directory in the other. -/
theorem set_file_ne_set_files :
    ((setClipboardContent lengthEnv {} (.file "d/x" [7]) {} (FileSystem.ofDirs [["tmp"]])).written =
        some (.files ["/tmp/d/x"])) ∧
      ((setClipboardContent lengthEnv {} (.files [⟨"d/x", [7]⟩]) {}
        (FileSystem.ofDirs [["tmp"]])).written = some (.files ["/tmp/d"])) ∧
      (setClipboardContent lengthEnv {} (.file "d/x" [7]) {} (FileSystem.ofDirs [["tmp"]])).dedup ≠
        (setClipboardContent lengthEnv {} (.files [⟨"d/x", [7]⟩]) {}
          (FileSystem.ofDirs [["tmp"]])).dedup := by
  decide +kernel

end P2pClipboard
