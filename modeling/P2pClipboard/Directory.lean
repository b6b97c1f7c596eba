import Mathlib.Data.List.Nodup
import P2pClipboard.Clipboard

/-!
# Copying files and directories

A selection of files and directories is read into a content on one machine and
saved on another.  Sender and receiver each hold half of a naming convention: the
sender joins the names on the way to a file by slashes, the receiver joins the
result to its receive directory and creates the directories in between.

This file proves that the two halves fit.  The files of a forest are prefix-free,
so no file is ever in the way of another one; the entries can be saved one after
the other, and each saved file stays as it is.

## Main definitions

* `destination`, `Clear` — where a file goes, and file systems with nothing in its
  way.

## Main results

* `saveFile_clear` — one file is saved where nothing is in its way.
* `saveFiles_clear` — prefix-free files are all saved.
* `directory_roundTrip` — **a selection arrives complete**: every file with its
  bytes, no other file, and the paths returned are exactly theirs.
-/

namespace P2pClipboard

open UnixPath FileSystem

/-! ### Saving one file -/

/-- The path a file is saved at. -/
def destination (names : List String) : String :=
  join getFileReceiveDir ("/".intercalate names)

theorem components_destination {names : List String} (hne : names ≠ [])
    (h : ∀ n ∈ names, IsName n) :
    components (destination names) = down (receiveLocation ++ names) := by
  have hbase : components getFileReceiveDir = down receiveLocation := by decide
  have hjoin : components (destination names) =
      components getFileReceiveDir ++ names.map .normal :=
    components_join_intercalate (by decide) (by decide) hne h
  rw [hjoin, hbase]
  simp [down]

/-- Nothing is in the way of the file: no file above it, and no directory in its
place. -/
structure Clear (fs : FileSystem Bytes) (names : List String) : Prop where
  /-- No file is above it. -/
  above : ∀ ns, ns <+: receiveLocation ++ names → ns ≠ receiveLocation ++ names →
    ∀ b, fs.node ns ≠ some (.file b)
  /-- It is no directory. -/
  free : fs.node (receiveLocation ++ names) ≠ some .dir

theorem isName_receiveLocation {names : List String} (h : ∀ n ∈ names, IsName n) :
    ∀ n ∈ receiveLocation ++ names, IsName n := by
  intro n hn
  rcases List.mem_append.mp hn with hn | hn
  · have hrecv : ∀ n ∈ receiveLocation, IsName n := by decide
    exact hrecv n hn
  · exact h n hn

section Clear

variable {fs : FileSystem Bytes} {init : List String} {last : String} {bytes : Bytes}

/-- The directory of a file can be made if nothing is in the way. -/
theorem ensureParent_clear (hnames : ∀ n ∈ init ++ [last], IsName n)
    (hrefuses : ∀ comps, fs.refuses comps = false) (hclear : Clear fs (init ++ [last])) :
    (ensureParent fs (destination (init ++ [last]))).ok = true ∧
      (ensureParent fs (destination (init ++ [last]))).fs.node (receiveLocation ++ init) =
        some .dir := by
  have hinit : ∀ n ∈ receiveLocation ++ init, IsName n :=
    isName_receiveLocation fun n hn => hnames n (List.mem_append_left _ hn)
  have habove : ∀ ns, ns <+: receiveLocation ++ init → ∀ b, fs.node ns ≠ some (.file b) := by
    intro ns hns
    refine hclear.above ns ?_ ?_
    · rw [← List.append_assoc]
      exact hns.trans (List.prefix_append _ _)
    · rintro rfl
      exact absurd hns.length_le (by simp)
  have hparent : parent (components (destination (init ++ [last]))) =
      some (down (receiveLocation ++ init)) := by
    rw [components_destination (by simp) hnames, ← List.append_assoc, down_concat]
    simp [parent]
  unfold ensureParent
  rw [hparent]
  by_cases hex : fs.pathExists (down (receiveLocation ++ init)) = true
  · simp only [hex, if_true, true_and]
    -- what exists above the file is no file
    obtain ⟨n, hn⟩ := Option.isSome_iff_exists.mp hex
    unfold lookup at hn
    cases hw : fs.walk (down (receiveLocation ++ init)) with
    | error e => simp [hw] at hn
    | ok loc =>
      obtain ⟨rfl, -⟩ := walk_eq_ok_iff.mp hw
      simp only [hw, locate_down] at hn
      split at hn
      · exact absurd hn (by simp)
      · cases n with
        | dir => exact hn
        | file b => exact absurd hn (habove _ List.prefix_rfl b)
  · simp only [hex, Bool.false_eq_true, if_false]
    have hok := createDirAll_down hinit hrefuses habove
    refine ⟨hok, ?_⟩
    simpa using createDirAll_ok hok

/-- **A file is saved where nothing is in its way**: directories are made above it,
and nothing else changes. -/
theorem saveFile_clear (hnames : ∀ n ∈ init ++ [last], IsName n)
    (hrefuses : ∀ comps, fs.refuses comps = false) (hclear : Clear fs (init ++ [last])) :
    ∃ saved : FileSystem Bytes, ∃ effects,
      saveFile fs ("/".intercalate (init ++ [last]), bytes) =
        ⟨saved, [destination (init ++ [last])], effects⟩ ∧
      saved.node (receiveLocation ++ (init ++ [last])) = some (.file bytes) ∧
      ∀ loc, loc ≠ receiveLocation ++ (init ++ [last]) → saved.node loc = fs.node loc ∨
        fs.node loc = none ∧ saved.node loc = some .dir ∧ loc <+: receiveLocation ++ init := by
  obtain ⟨hok, hdir⟩ := ensureParent_clear hnames hrefuses hclear
  obtain ⟨hgrown, hmem⟩ := ensureParent_spec fs (destination (init ++ [last]))
  have hcomps : components (destination (init ++ [last])) =
      down (receiveLocation ++ init) ++ [.normal last] := by
    rw [components_destination (by simp) hnames, ← List.append_assoc, down_concat]
  have hdrop : (components (destination (init ++ [last]))).dropLast =
      down (receiveLocation ++ init) := by
    rw [hcomps, List.dropLast_concat]
  have hfull : receiveLocation ++ (init ++ [last]) = receiveLocation ++ init ++ [last] :=
    (List.append_assoc _ _ _).symm
  have hfree : (ensureParent fs (destination (init ++ [last]))).fs.node
      (receiveLocation ++ init ++ [last]) ≠ some .dir := by
    rcases hgrown.node (receiveLocation ++ init ++ [last]) with hsame | ⟨-, -, p, hp, hloc⟩
    · rw [hsame, ← hfull]
      exact hclear.free
    · -- nothing is made below the directory
      have := (locate_prefix_down (hdrop ▸ (hmem p hp).1)).length_le
      rw [hloc] at this
      simp at this
  have hwrite : ∃ fs', (ensureParent fs (destination (init ++ [last]))).fs.write
      (destination (init ++ [last])) bytes = .ok fs' := by
    have hname : openedName (destination (init ++ [last])) = some last :=
      openedName_join_intercalate (by decide) hnames
    refine ⟨_, write_of_dir hname ?_ ?_ ?_ ?_ ?_⟩
    · rw [components_destination (by simp) hnames]
      exact hasNul_down (isName_receiveLocation hnames)
    · rw [hgrown.refuses, hrefuses]
    · rw [hdrop, locate_down]
      exact walk_down hdir
    · rw [hdrop, locate_down, hdir]
    · rw [hdrop, locate_down]
      exact hfree
  obtain ⟨fs', hwrite⟩ := hwrite
  obtain ⟨-, -, -, -, hnode, -⟩ := write_eq_ok hwrite
  rw [components_destination (by simp) hnames, locate_down] at hnode
  refine ⟨fs', (ensureParent fs (destination (init ++ [last]))).created.map .createdDir ++
    [.wrote (destination (init ++ [last]))], ?_, ?_, ?_⟩
  · unfold destination at hok hwrite ⊢
    simp only [saveFile, hok, if_true, hwrite]
  · rw [hnode, Function.update_self]
  · intro loc hloc
    rw [hnode, Function.update_of_ne hloc]
    rcases hgrown.node loc with hsame | ⟨hold, hnew, p, hp, rfl⟩
    · exact .inl hsame
    · exact .inr ⟨hold, hnew, locate_prefix_down (hdrop ▸ (hmem p hp).1)⟩

end Clear

/-! ### Saving prefix-free files -/

/-- The files of a forest as they arrive: a name with slashes, and the bytes. -/
def asReceived (p : List String × Bytes) : String × Bytes := ("/".intercalate p.1, p.2)

/-- What stays clear after a file was saved: a place that is neither above nor below it. -/
theorem Clear.after_saveFile {fs saved : FileSystem Bytes} {names names' : List String}
    {init : List String} (h : Clear fs names') (hinit : init <+: names)
    (habove : ¬ names <+: names') (hbelow : ¬ names' <+: names)
    (hrest : ∀ loc, loc ≠ receiveLocation ++ names → saved.node loc = fs.node loc ∨
      fs.node loc = none ∧ saved.node loc = some .dir ∧ loc <+: receiveLocation ++ init) :
    Clear saved names' := by
  refine ⟨fun ns hns hne b hb => ?_, fun hdir => ?_⟩
  · -- the file just saved is not above this one
    by_cases heq : ns = receiveLocation ++ names
    · exact habove ((List.prefix_append_right_inj _).mp (heq ▸ hns))
    · rcases hrest ns heq with hsame | ⟨-, hnew, -⟩
      · exact h.above ns hns hne b (hsame ▸ hb)
      · rw [hnew] at hb
        exact absurd hb (by simp)
  · -- nor is this one above it
    by_cases heq : receiveLocation ++ names' = receiveLocation ++ names
    · exact habove (List.append_cancel_left heq ▸ List.prefix_rfl)
    · rcases hrest _ heq with hsame | ⟨-, -, hpre⟩
      · exact h.free (hsame ▸ hdir)
      · exact hbelow (((List.prefix_append_right_inj _).mp hpre).trans hinit)

/-- **Prefix-free files are all saved** where nothing is in their way: each is there
with its bytes, and otherwise only directories are new. -/
theorem saveFiles_clear {fs : FileSystem Bytes} {items : List (List String × Bytes)}
    (hne : ∀ p ∈ items, p.1 ≠ []) (hnames : ∀ p ∈ items, ∀ n ∈ p.1, IsName n)
    (hfree : items.Pairwise fun p q => ¬ p.1 <+: q.1 ∧ ¬ q.1 <+: p.1)
    (hrefuses : ∀ comps, fs.refuses comps = false) (hclear : ∀ p ∈ items, Clear fs p.1) :
    (saveFiles fs (items.map asReceived)).savedPaths = items.map (fun p => destination p.1) ∧
      (∀ p ∈ items, (saveFiles fs (items.map asReceived)).fs.node (receiveLocation ++ p.1) =
        some (.file p.2)) ∧
      ∀ loc, (∀ p ∈ items, loc ≠ receiveLocation ++ p.1) →
        (saveFiles fs (items.map asReceived)).fs.node loc = fs.node loc ∨
          fs.node loc = none ∧
            (saveFiles fs (items.map asReceived)).fs.node loc = some .dir := by
  induction items generalizing fs with
  | nil => exact ⟨rfl, by simp, fun _ _ => .inl rfl⟩
  | cons item items ih =>
    obtain ⟨names, bytes⟩ := item
    obtain ⟨hhead, htail⟩ := List.pairwise_cons.mp hfree
    obtain ⟨init, last, rfl⟩ : ∃ init last, names = init ++ [last] :=
      ⟨_, _, (List.dropLast_append_getLast (hne _ List.mem_cons_self)).symm⟩
    obtain ⟨saved, effects, hsave, hfile, hrest⟩ : ∃ saved : FileSystem Bytes, ∃ effects,
        saveFile fs ("/".intercalate (init ++ [last]), bytes) =
          ⟨saved, [destination (init ++ [last])], effects⟩ ∧
        saved.node (receiveLocation ++ (init ++ [last])) = some (.file bytes) ∧
        ∀ loc, loc ≠ receiveLocation ++ (init ++ [last]) → saved.node loc = fs.node loc ∨
          fs.node loc = none ∧ saved.node loc = some .dir ∧ loc <+: receiveLocation ++ init :=
      saveFile_clear (hnames _ List.mem_cons_self) hrefuses (hclear _ List.mem_cons_self)
    have href : saved.refuses = fs.refuses := by
      have := (saveFile_spec fs ("/".intercalate (init ++ [last]), bytes)).2.2
      rwa [hsave] at this
    have hclear' : ∀ p ∈ items, Clear saved p.1 := by
      intro p hp
      obtain ⟨habove, hbelow⟩ := hhead p hp
      exact (hclear p (List.mem_cons_of_mem _ hp)).after_saveFile (List.prefix_append _ _) habove
        hbelow hrest
    -- the rest is saved into what the first file leaves behind
    obtain ⟨hpaths, hfiles, hothers⟩ := ih (fun p hp => hne p (List.mem_cons_of_mem _ hp))
      (fun p hp => hnames p (List.mem_cons_of_mem _ hp)) htail
      (fun comps => by rw [href, hrefuses]) hclear'
    have hsaveFiles : saveFiles fs (((init ++ [last], bytes) :: items).map asReceived) =
        ⟨(saveFiles saved (items.map asReceived)).fs,
          destination (init ++ [last]) :: (saveFiles saved (items.map asReceived)).savedPaths,
          effects ++ (saveFiles saved (items.map asReceived)).effects⟩ := by
      rw [List.map_cons, saveFiles, asReceived, hsave]
      rfl
    rw [hsaveFiles]
    refine ⟨by rw [hpaths]; rfl, ?_, ?_⟩
    · intro p hp
      rcases List.mem_cons.mp hp with rfl | hp
      · -- the files after it leave it alone
        have hapart : ∀ q ∈ items,
            receiveLocation ++ (init ++ [last]) ≠ receiveLocation ++ q.1 := by
          intro q hq heq
          exact (hhead q hq).1 (List.append_cancel_left heq ▸ List.prefix_rfl)
        rcases hothers _ hapart with hsame | ⟨hnone, -⟩
        · exact hsame.trans hfile
        · rw [hfile] at hnone
          exact absurd hnone (by simp)
      · exact hfiles p hp
    · intro loc hloc
      have hne' : loc ≠ receiveLocation ++ (init ++ [last]) := hloc _ List.mem_cons_self
      rcases hothers loc (fun p hp => hloc p (List.mem_cons_of_mem _ hp)) with
        hsame | ⟨hnone, hnew⟩
      · rcases hrest loc hne' with hsame' | ⟨hnone, hnew, -⟩
        · exact .inl (hsame.trans hsame')
        · exact .inr ⟨hnone, hsame.trans hnew⟩
      · rcases hrest loc hne' with hsame' | ⟨-, hnew', -⟩
        · exact .inr ⟨hsame' ▸ hnone, hnew⟩
        · rw [hnew'] at hnone
          exact absurd hnone (by simp)

/-! ### From one machine to another -/

/-- One file or several, the same files are saved. -/
theorem receivedFiles_filesContent {entries : List FileEntry} {c : ClipboardContent}
    (h : filesContent entries = some c) :
    receivedFiles c = entries.map fun e => (e.name, e.bytes) := by
  match entries, h with
  | [entry], h =>
    obtain rfl := Option.some.inj h
    rfl
  | entry :: entry' :: entries, h =>
    obtain rfl := Option.some.inj h
    rfl

/-- Below a name that is missing nothing is. -/
theorem node_eq_none_of_missing {fs : FileSystem Bytes} {p l : List String}
    (hp : p <+: l) (h : fs.node p = none) : fs.node l = none := by
  by_cases heq : p = l
  · rw [← heq, h]
  · by_contra hne
    have := fs.node_of_prefix hp heq (Option.isSome_iff_ne_none.mpr hne)
    rw [h] at this
    exact absurd this (by simp)

/-- In a receive directory with none of the selected names nothing is in the way of
the selected files. -/
theorem clear_of_fresh {fs : FileSystem Bytes} {sel : Forest}
    (hrecv : fs.node receiveLocation = some .dir)
    (hfresh : ∀ name ∈ sel.names, fs.node (receiveLocation ++ [name]) = none)
    {p : List String × Bytes} (hp : p ∈ sel.files) : Clear fs p.1 := by
  obtain ⟨name, rest, hname, hmem⟩ := Forest.exists_cons_of_mem_files hp
  have hbelow : receiveLocation ++ [name] <+: receiveLocation ++ p.1 := by
    rw [hname]
    exact (List.prefix_append_right_inj _).mpr (by simp)
  have hnone := hfresh name hmem
  refine ⟨fun ns hns _ b hb => ?_, fun hdir => ?_⟩
  · rcases List.prefix_or_prefix_of_prefix hns hbelow with hns | hns
    · rcases List.prefix_concat_iff.mp hns with rfl | hns
      · rw [hnone] at hb
        exact absurd hb (by simp)
      · by_cases heq : ns = receiveLocation
        · rw [heq, hrecv] at hb
          exact absurd hb (by simp)
        · rw [fs.node_of_prefix hns heq (by rw [hrecv]; rfl)] at hb
          exact absurd hb (by simp)
    · rw [node_eq_none_of_missing hns hnone] at hb
      exact absurd hb (by simp)
  · rw [node_eq_none_of_missing hbelow hnone] at hdir
    exact absurd hdir (by simp)

/-- Saving the files of a selection into a receive directory with none of its
names. -/
theorem saveReceivedFiles_selection {fs : FileSystem Bytes} {sel : Forest} (hvalid : sel.Valid)
    (hwrites : ∀ comps, fs.refuses comps = false)
    (hrecv : ∀ b, fs.node receiveLocation ≠ some (.file b))
    (hfresh : ∀ name ∈ sel.names, fs.node (receiveLocation ++ [name]) = none) :
    (saveReceivedFiles fs (sel.files.map asReceived)).savedPaths =
        sel.files.map (fun p => destination p.1) ∧
      (∀ p ∈ sel.files, (saveReceivedFiles fs (sel.files.map asReceived)).fs.node
        (receiveLocation ++ p.1) = some (.file p.2)) ∧
      ∀ loc b, (saveReceivedFiles fs (sel.files.map asReceived)).fs.node loc = some (.file b) →
        fs.node loc = some (.file b) ∨ ∃ p ∈ sel.files, loc = receiveLocation ++ p.1 := by
  have hbase : components getFileReceiveDir = down receiveLocation := by decide
  have hname : ∀ n ∈ receiveLocation, IsName n := by decide
  have hup : ∀ ns, ns <+: receiveLocation → ∀ b, fs.node ns ≠ some (.file b) := by
    intro ns hns b hb
    by_cases heq : ns = receiveLocation
    · exact hrecv b (heq ▸ hb)
    · -- above the receive directory there is only the root
      have hroot : ∀ ns ∈ receiveLocation.inits, ns = receiveLocation ∨ ns = [] := by decide
      rcases hroot ns ((List.mem_inits _ _).mpr hns) with h | rfl
      · exact heq h
      · rw [fs.node_nil] at hb
        exact absurd hb (by simp)
  have hok := createDirAll_down hname hwrites hup
  obtain ⟨hgrown, -⟩ := createDirAll_spec fs (down receiveLocation)
  have hdir : (fs.createDirAll (down receiveLocation)).fs.node receiveLocation = some .dir := by
    simpa using createDirAll_ok hok
  have hfresh' : ∀ name ∈ sel.names,
      (fs.createDirAll (down receiveLocation)).fs.node (receiveLocation ++ [name]) = none := by
    intro name hn
    exact node_createDirAll_concat (hfresh name hn)
  obtain ⟨hpaths, hfiles, hothers⟩ := saveFiles_clear
    (fun p hp => Forest.ne_nil_of_mem_files hp)
    (fun p hp => Forest.isName_of_mem_files hvalid hp) (Forest.pairwise_files hvalid)
    (fun comps => by rw [hgrown.refuses, hwrites]) (fun p hp => clear_of_fresh hdir hfresh' hp)
  have hsave : (saveReceivedFiles fs (sel.files.map asReceived)).savedPaths =
        (saveFiles (fs.createDirAll (down receiveLocation)).fs
          (sel.files.map asReceived)).savedPaths ∧
      (saveReceivedFiles fs (sel.files.map asReceived)).fs =
        (saveFiles (fs.createDirAll (down receiveLocation)).fs (sel.files.map asReceived)).fs := by
    unfold saveReceivedFiles
    rw [hbase]
    simp only [hok, if_true, and_self]
  rw [hsave.1, hsave.2]
  refine ⟨hpaths, hfiles, fun loc b hb => ?_⟩
  by_cases hloc : ∃ p ∈ sel.files, loc = receiveLocation ++ p.1
  · exact .inr hloc
  · push Not at hloc
    rcases hothers loc hloc with hsame | ⟨-, hnew⟩
    · rcases hgrown.node loc with hsame' | ⟨-, hnew, -⟩
      · exact .inl (hsame'.symm.trans (hsame.symm.trans hb))
      · rw [hsame, hnew] at hb
        exact absurd hb (by simp)
    · rw [hnew] at hb
      exact absurd hb (by simp)

/-- **A selection arrives complete.**  Reading a selection ends, and whatever
content is made of it, saving the content gives every selected file its bytes in
its place below the receive directory, creates no other file, and returns exactly
the paths of these files, each once. -/
theorem directory_roundTrip (env : Env) {view : FsView} {fuel : ℕ} (room : Bool)
    {obs : Observation} (dedup : DeduplicationState) {paths : List String} {sel : Forest}
    {fs : FileSystem Bytes} (hobs : obs.fileList = some paths) (hsel : Selected view paths sel)
    (hvalid : sel.Valid) (hfuel : sel.depth ≤ fuel)
    (hwrites : ∀ comps, fs.refuses comps = false)
    (hrecv : ∀ b, fs.node receiveLocation ≠ some (.file b))
    (hfresh : ∀ name ∈ sel.names, fs.node (receiveLocation ++ [name]) = none) :
    (getClipboardContent env view fuel room obs dedup).isSome = true ∧
      ∀ c dedup', getClipboardContent env view fuel room obs dedup = some (some c, dedup') →
        (∀ p ∈ sel.files, (saveReceivedFiles fs (receivedFiles c)).fs.node
          (receiveLocation ++ p.1) = some (.file p.2)) ∧
        (∀ loc b, (saveReceivedFiles fs (receivedFiles c)).fs.node loc = some (.file b) →
          fs.node loc = some (.file b) ∨ ∃ p ∈ sel.files, loc = receiveLocation ++ p.1) ∧
        (saveReceivedFiles fs (receivedFiles c)).savedPaths =
          sel.files.map (fun p => destination p.1) ∧
        (saveReceivedFiles fs (receivedFiles c)).savedPaths.Nodup ∧
        (saveReceivedFiles fs (receivedFiles c)).savedPaths.map (fun p => locate (components p)) =
          sel.files.map (fun p => receiveLocation ++ p.1) := by
  -- reading ends; whether something is sent depends on the shared state and the channel
  have hget : getClipboardContent env view fuel room obs dedup =
      if dedup.lastFilesHash = some (hashFilePaths env paths) then some (none, dedup)
      else some (trySend room (filesContent (sel.files.map entryOf)),
        ⟨none, none, some (hashFilePaths env paths)⟩) := by
    simp [getClipboardContent, hobs, readFilePaths_eq hsel hfuel]
  refine ⟨by rw [hget]; split <;> rfl, ?_⟩
  intro c dedup' hc
  have hcontent : filesContent (sel.files.map entryOf) = some c := by
    rw [hget] at hc
    split at hc
    · exact absurd hc (by simp)
    · have hsent := (Prod.ext_iff.mp (Option.some.inj hc)).1
      cases room with
      | true => exact hsent
      | false => exact absurd hsent (by simp [trySend])
  have hreceived : receivedFiles c = sel.files.map asReceived := by
    rw [receivedFiles_filesContent hcontent, List.map_map]
    rfl
  obtain ⟨hpaths, hfiles, hothers⟩ := saveReceivedFiles_selection hvalid hwrites hrecv hfresh
  have hlocs : (sel.files.map fun p => destination p.1).map (fun p => locate (components p)) =
      sel.files.map fun p => receiveLocation ++ p.1 := by
    rw [List.map_map]
    refine List.map_congr_left fun p hp => ?_
    rw [Function.comp_apply, components_destination (Forest.ne_nil_of_mem_files hp)
      (Forest.isName_of_mem_files hvalid hp), locate_down]
  -- no file of the selection is above another, so no two are at the same place
  have hnodup : (sel.files.map fun p => receiveLocation ++ p.1).Nodup := by
    refine (Forest.pairwise_files hvalid).map _ ?_
    rintro p q ⟨hnot, -⟩ heq
    exact hnot (List.append_cancel_left heq ▸ List.prefix_rfl)
  rw [hreceived, hpaths]
  exact ⟨hfiles, hothers, rfl, List.Nodup.of_map _ (hlocs ▸ hnodup), hlocs⟩

/-! ### A concrete selection -/

/-- A directory with a file and a directory, and a file beside it. -/
private def sampleForest : Forest :=
  .dir "d" (.file "x" [1] (.dir "e" (.file "y" [2] .nil) .nil)) (.file "z" [3] .nil)

/-- The machine it is on. -/
private def sampleView : FsView where
  isFile path := path ∈ ["/home/d/x", "/home/d/e/y", "/home/z"]
  isDir path := path ∈ ["/home/d", "/home/d/e"]
  read path :=
    if path = "/home/d/x" then some [1]
    else if path = "/home/d/e/y" then some [2]
    else if path = "/home/z" then some [3] else none
  readDir path :=
    if path = "/home/d" then some [some "x", some "e"]
    else if path = "/home/d/e" then some [some "y"] else none

/-- A library without images. -/
private def plainEnv : Env :=
  ⟨fun bs => bs.foldl (fun h b => 31 * h + b.toUInt64) 7, fun _ _ _ => none, fun _ => none,
    fun h => absurd h (by simp)⟩

/-- The three files arrive in an empty receive directory. -/
theorem sampleForest_roundTrip :
    Selected sampleView ["/home/d", "/home/z"] sampleForest ∧ sampleForest.Valid ∧
      ∃ c dedup', getClipboardContent plainEnv sampleView 2 true
          ⟨some ["/home/d", "/home/z"], true, none, none⟩ {} = some (some c, dedup') ∧
        (saveReceivedFiles (FileSystem.ofDirs [["tmp"]]) (receivedFiles c)).savedPaths =
          ["/tmp/d/x", "/tmp/d/e/y", "/tmp/z"] := by
  have hsel : Selected sampleView ["/home/d", "/home/z"] sampleForest := by
    refine ⟨by decide, by decide, by decide, by decide, ⟨by decide, by decide, by decide, by decide,
      by decide, ⟨by decide, by decide, trivial⟩, trivial⟩, by decide, by decide, by decide,
      trivial⟩
  have hvalid : sampleForest.Valid := by decide
  have hobs : (⟨some ["/home/d", "/home/z"], true, none, none⟩ : Observation).fileList =
      some ["/home/d", "/home/z"] := rfl
  have htmp : (ofDirs [["tmp"]] : FileSystem Bytes).node receiveLocation = some .dir := by decide
  have hrecv : ∀ b, (ofDirs [["tmp"]] : FileSystem Bytes).node receiveLocation ≠
      some (.file b) := by simp [htmp]
  have hfresh : ∀ name ∈ sampleForest.names,
      (ofDirs [["tmp"]] : FileSystem Bytes).node (receiveLocation ++ [name]) = none := by decide
  obtain ⟨c, dedup', hget⟩ : ∃ c dedup', getClipboardContent plainEnv sampleView 2 true
      ⟨some ["/home/d", "/home/z"], true, none, none⟩ {} = some (some c, dedup') := ⟨_, _, rfl⟩
  obtain ⟨-, -, hpaths, -, -⟩ := (directory_roundTrip plainEnv true {} hobs hsel hvalid
    (le_refl 2) (fun _ => rfl) hrecv hfresh).2 c dedup' hget
  refine ⟨hsel, hvalid, c, dedup', hget, ?_⟩
  rw [hpaths]
  decide

end P2pClipboard
