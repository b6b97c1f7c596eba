import P2pClipboard.Files

/-!
# Where received files can end up

The name of a received file is chosen by a remote peer and is joined to the
receive directory as it is.  An absolute name replaces the directory, and double
dots lead out of it, so a file may be written, or a directory created, anywhere.

This file says exactly which names stay inside.  A name is read component by
component.  Every directory on the way may be created, so each must be around the
receive directory: above it, below it, or the directory itself; and so must the
file itself, if the name ends in one.  Only names with a NUL byte in their
directories are safe whatever they say, because nothing is done for them.

## Main definitions

* `Around`, `FsEffect.Confined` — locations and effects that are allowed.
* `StaysInside` — the names that stay inside.

## Main results

* `confined_of_staysInside` — such names have allowed effects only.
* `exists_not_confined` — any other name has a forbidden effect on some file
  system, whatever comes before it in the content.
* `saveReceivedFiles_confined_iff` — **a content is saved inside the receive
  directory, on every file system, exactly when all its names stay inside.**
-/

namespace P2pClipboard

open UnixPath FileSystem

/-- A location above the receive directory, below it, or the directory itself. -/
def Around (loc : List String) : Prop := loc <+: receiveLocation ∨ receiveLocation <+: loc

instance (loc : List String) : Decidable (Around loc) := inferInstanceAs (Decidable (_ ∨ _))

/-- A file strictly inside the receive directory, or a directory around it. -/
def FsEffect.Confined : FsEffect → Prop
  | .createdDir comps => Around (locate comps)
  | .wrote path =>
      receiveLocation <+: locate (components path) ∧ locate (components path) ≠ receiveLocation

/-- The names that stay inside: no directory on the way, and no file at the end,
is anywhere else. -/
def StaysInside (name : String) : Prop :=
  let path := join getFileReceiveDir name
  let comps := components path
  hasNul comps.dropLast = true ∨
    ((∀ dir ∈ comps.dropLast.inits, Around (locate dir)) ∧
      ((openedName path).isSome = true → hasNul comps = false → Around (locate comps)))

instance (name : String) : Decidable (StaysInside name) :=
  inferInstanceAs (Decidable (_ ∨ _ ∧ (_ → _ → _)))

/-! ### Locations around the receive directory -/

theorem around_of_le {p loc : List String} (hp : p <+: loc) (h : Around loc) : Around p := by
  rcases h with h | h
  · exact .inl (hp.trans h)
  · exact List.prefix_or_prefix_of_prefix hp h

/-- Only a name leads away. -/
theorem exists_normal_of_not_around {comps : List Component} {c : Component}
    (h : Around (locate comps)) (hc : ¬ Around (locate (comps ++ [c]))) :
    ∃ name, c = .normal name := by
  rw [locate_concat] at hc
  cases c with
  | rootDir => exact absurd (.inl List.nil_prefix) hc
  | curDir => exact absurd h hc
  | parentDir => exact absurd (around_of_le (List.dropLast_prefix _) h) hc
  | normal name => exact ⟨name, rfl⟩

/-- The first part of a path that is not around the receive directory ends in a
name, and everything before it is around. -/
theorem exists_first_not_around {comps : List Component}
    (h : ∃ p, p <+: comps ∧ ¬ Around (locate p)) :
    ∃ pre name suf, comps = pre ++ [.normal name] ++ suf ∧
      (∀ p, p <+: pre → Around (locate p)) ∧ ¬ Around (locate pre ++ [name]) := by
  induction comps using List.reverseRecOn with
  | nil =>
    obtain ⟨p, hp, hnot⟩ := h
    obtain rfl := List.prefix_nil.mp hp
    exact absurd (.inl List.nil_prefix) hnot
  | append_singleton comps c ih =>
    by_cases hin : ∃ p, p <+: comps ∧ ¬ Around (locate p)
    · obtain ⟨pre, name, suf, rfl, hpre, hnot⟩ := ih hin
      exact ⟨pre, name, suf ++ [c], by simp, hpre, hnot⟩
    · push Not at hin
      have hall : ¬ Around (locate (comps ++ [c])) := by
        obtain ⟨p, hp, hnot⟩ := h
        rcases List.prefix_concat_iff.mp hp with rfl | hp
        · exact hnot
        · exact absurd (hin p hp) hnot
      obtain ⟨name, rfl⟩ := exists_normal_of_not_around (hin comps List.prefix_rfl) hall
      refine ⟨comps, name, [], by simp, hin, ?_⟩
      rwa [locate_concat] at hall

/-! ### Names that stay inside -/

/-- A directory that is not in the way of the receive directory: a file that is
written around it is strictly inside. -/
theorem strictly_inside {fs : FileSystem Bytes} {loc : List String}
    (hrecv : fs.node receiveLocation = some .dir) (hfree : fs.node loc ≠ some .dir)
    (h : Around loc) : receiveLocation <+: loc ∧ loc ≠ receiveLocation := by
  have hne : loc ≠ receiveLocation := by
    rintro rfl
    exact hfree hrecv
  rcases h with h | h
  · exact absurd (fs.node_of_prefix h hne (by rw [hrecv]; rfl)) hfree
  · exact ⟨h, hne⟩

/-- **A name that stays inside has allowed effects only**, once the receive
directory is there. -/
theorem saveFile_confined {fs : FileSystem Bytes} {file : String × Bytes}
    (hrecv : fs.node receiveLocation = some .dir) (h : StaysInside file.1) :
    ∀ e ∈ (saveFile fs file).effects, e.Confined := by
  obtain ⟨hgrown, hmem⟩ := ensureParent_spec fs (join getFileReceiveDir file.1)
  have hcreated : ∀ e ∈ (ensureParent fs (join getFileReceiveDir file.1)).created.map
      FsEffect.createdDir, e.Confined := by
    intro e he
    obtain ⟨p, hp, rfl⟩ := List.mem_map.mp he
    obtain ⟨hpre, hnul⟩ := hmem p hp
    rcases h with hnul' | ⟨hdirs, -⟩
    · exact absurd hnul' (by simp [hnul])
    · exact hdirs p ((List.mem_inits _ _).mpr hpre)
  rcases saveFile_cases fs file with heq | ⟨fs', hw, heq⟩
  · rw [heq]
    exact hcreated
  · rw [heq]
    intro e he
    rcases List.mem_append.mp he with he | he
    · exact hcreated e he
    · obtain rfl := List.mem_singleton.mp he
      obtain ⟨name, hname, hnul, hfree, -, -⟩ := write_eq_ok hw
      have hrecv' : (ensureParent fs (join getFileReceiveDir file.1)).fs.node receiveLocation =
          some .dir := by
        rcases hgrown.node receiveLocation with hsame | ⟨-, hnew, -⟩
        · rw [hsame, hrecv]
        · exact hnew
      refine strictly_inside hrecv' hfree ?_
      rcases h with hnul' | ⟨-, hfile⟩
      · have hinit : hasNul (components (join getFileReceiveDir file.1)).dropLast = false := by
          rw [components_of_openedName hname, hasNul, List.any_append,
            Bool.or_eq_false_iff] at hnul
          exact hnul.1
        exact absurd hnul' (by simp [hinit])
      · exact hfile (by rw [hname]; rfl) hnul

theorem saveFiles_confined {fs : FileSystem Bytes} {files : List (String × Bytes)}
    (hrecv : fs.node receiveLocation = some .dir) (h : ∀ f ∈ files, StaysInside f.1) :
    ∀ e ∈ (saveFiles fs files).effects, e.Confined := by
  induction files generalizing fs with
  | nil => simp [saveFiles]
  | cons file files ih =>
    intro e he
    rcases List.mem_append.mp he with he | he
    · exact saveFile_confined hrecv (h file List.mem_cons_self) e he
    · exact ih ((saveFile_spec fs file).2.1 _ hrecv)
        (fun f hf => h f (List.mem_cons_of_mem _ hf)) e he

/-- Names that stay inside have allowed effects only, on every file system. -/
theorem confined_of_staysInside {files : List (String × Bytes)}
    (h : ∀ f ∈ files, StaysInside f.1) (fs : FileSystem Bytes) :
    ∀ e ∈ (saveReceivedFiles fs files).effects, e.Confined := by
  have hcreated : ∀ e ∈ (fs.createDirAll (components getFileReceiveDir)).created.map
      FsEffect.createdDir, e.Confined := by
    intro e he
    obtain ⟨p, hp, rfl⟩ := List.mem_map.mp he
    have hall : ∀ p ∈ (components getFileReceiveDir).inits, Around (locate p) := by decide
    exact hall p ((List.mem_inits _ _).mpr ((createDirAll_spec fs _).2 p hp).1)
  unfold saveReceivedFiles
  by_cases hok : (fs.createDirAll (components getFileReceiveDir)).ok = true
  · simp only [hok, if_true]
    intro e he
    rcases List.mem_append.mp he with he | he
    · exact hcreated e he
    · exact saveFiles_confined (createDirAll_ok hok) h e he
  · simpa only [hok, Bool.false_eq_true, if_false] using hcreated

/-! ### Names that do not -/

/-- The directories a path leads through. -/
def passed (comps : List Component) : List (List String) := comps.inits.map locate

section Escape

variable {fs : FileSystem Bytes} {comps : List Component} {file : String × Bytes}

/-- Everything a path leads through, the end included, is a directory. -/
theorem walk_of_passed (h : ∀ loc ∈ passed comps, fs.node loc = some .dir) :
    fs.walk comps = .ok (locate comps) ∧ fs.node (locate comps) = some .dir := by
  have hall : ∀ p, p <+: comps → fs.node (locate p) = some .dir := fun p hp =>
    h _ (List.mem_map_of_mem ((List.mem_inits _ _).mpr hp))
  exact ⟨walk_eq_ok_iff.mpr ⟨rfl, fun p hp _ => hall p hp⟩, hall comps List.prefix_rfl⟩

/-- A location that is not around the receive directory is above nothing that is. -/
theorem not_prefix_of_not_around {loc : List String} {dirs : List (List String)}
    (hloc : ¬ Around loc) (hdirs : ∀ d ∈ dirs, Around d) : ∀ d ∈ dirs, ¬ loc <+: d :=
  fun d hd hpre => hloc (around_of_le hpre (hdirs d hd))

/-- A missing directory elsewhere is created. -/
theorem saveFile_escapes_dir {pre suf : List Component} {name : String}
    (hdrop : (components (join getFileReceiveDir file.1)).dropLast =
      pre ++ [.normal name] ++ suf)
    (hnul : hasNul (components (join getFileReceiveDir file.1)).dropLast = false)
    (hrefuses : ∀ comps, fs.refuses comps = false)
    (hpassed : ∀ loc ∈ passed pre, fs.node loc = some .dir)
    (hfree : fs.node (locate pre ++ [name]) = none) (hnot : ¬ Around (locate pre ++ [name])) :
    ∃ e ∈ (saveFile fs file).effects, ¬ e.Confined := by
  obtain ⟨hwalk, hdir⟩ := walk_of_passed hpassed
  have hp : parent (components (join getFileReceiveDir file.1)) =
      some (components (join getFileReceiveDir file.1)).dropLast :=
    parent_components (by rw [hdrop]; simp)
  have hex : fs.pathExists (components (join getFileReceiveDir file.1)).dropLast = false := by
    -- the path leads through the missing directory, or ends there
    have hnone : fs.lookup (components (join getFileReceiveDir file.1)).dropLast = none := by
      rw [lookup]
      cases hw : fs.walk (components (join getFileReceiveDir file.1)).dropLast with
      | error e => rfl
      | ok loc =>
        obtain ⟨rfl, hdirs⟩ := walk_eq_ok_iff.mp hw
        have hmissing : fs.node (locate (pre ++ [.normal name])) = none := by
          rw [locate_concat]
          exact hfree
        by_cases heq : pre ++ [.normal name] =
            (components (join getFileReceiveDir file.1)).dropLast
        · rw [← heq]
          simp only [hmissing, ite_self]
        · have := hdirs _ (by rw [hdrop]; exact List.prefix_append _ _) heq
          rw [hmissing] at this
          exact absurd this (by simp)
    rw [pathExists, hnone]
    rfl
  have hmem : pre ++ [.normal name] ∈
      (ensureParent fs (join getFileReceiveDir file.1)).created := by
    rw [ensureParent, hp]
    simp only [hex, Bool.false_eq_true, if_false]
    rw [hdrop] at hnul ⊢
    exact mem_created suf hnul hrefuses hwalk hdir hfree
  refine ⟨.createdDir (pre ++ [.normal name]), ?_, ?_⟩
  · rcases saveFile_cases fs file with heq | ⟨fs', -, heq⟩
    · rw [heq]
      exact List.mem_map_of_mem hmem
    · rw [heq]
      exact List.mem_append_left _ (List.mem_map_of_mem hmem)
  · intro hconf
    rw [FsEffect.Confined, locate_concat] at hconf
    exact hnot hconf

/-- A file elsewhere is written. -/
theorem saveFile_escapes_file {name : String}
    (hname : openedName (join getFileReceiveDir file.1) = some name)
    (hnul : hasNul (components (join getFileReceiveDir file.1)) = false)
    (hrefuses : ∀ comps, fs.refuses comps = false)
    (hpassed : ∀ loc ∈ passed (components (join getFileReceiveDir file.1)).dropLast,
      fs.node loc = some .dir)
    (hfree : fs.node (locate (components (join getFileReceiveDir file.1))) = none)
    (hnot : ¬ Around (locate (components (join getFileReceiveDir file.1)))) :
    ∃ e ∈ (saveFile fs file).effects, ¬ e.Confined := by
  have hcomps := components_of_openedName hname
  have hloc : locate (components (join getFileReceiveDir file.1)) =
      locate (components (join getFileReceiveDir file.1)).dropLast ++ [name] := by
    conv_lhs => rw [hcomps, locate_concat]
    rfl
  have hinit : hasNul (components (join getFileReceiveDir file.1)).dropLast = false := by
    rw [hcomps, hasNul, List.any_append, Bool.or_eq_false_iff] at hnul
    exact hnul.1
  obtain ⟨hwalk, hdir⟩ := walk_of_passed hpassed
  have hparent : ensureParent fs (join getFileReceiveDir file.1) = ⟨fs, [], true⟩ := by
    have hp : parent (components (join getFileReceiveDir file.1)) =
        some (components (join getFileReceiveDir file.1)).dropLast := by
      rw [hcomps, List.dropLast_concat]
      simp [parent]
    have hex : fs.pathExists (components (join getFileReceiveDir file.1)).dropLast = true := by
      simp [pathExists, lookup, hwalk, hinit, hdir]
    simp [ensureParent, hp, hex]
  have hw : ∃ fs', fs.write (join getFileReceiveDir file.1) file.2 = .ok fs' :=
    ⟨_, write_of_dir hname hnul (hrefuses _) hwalk hdir (by rw [← hloc, hfree]; simp)⟩
  obtain ⟨fs', hw⟩ := hw
  refine ⟨.wrote (join getFileReceiveDir file.1), ?_, ?_⟩
  · simp [saveFile, hparent, hw]
  · rintro ⟨hpre, -⟩
    exact hnot (.inr hpre)

end Escape

/-- In a file system of directories around the receive directory, the directory is
there already. -/
theorem createDirAll_ofDirs {dirs : List (List String)} (hrecv : receiveLocation ∈ dirs) :
    (ofDirs dirs : FileSystem Bytes).createDirAll (components getFileReceiveDir) =
      ⟨ofDirs dirs, [], true⟩ := by
  refine createDirAll_of_isDir ?_
  have hpassed : ∀ loc ∈ passed (components getFileReceiveDir),
      (ofDirs dirs : FileSystem Bytes).node loc = some .dir := by
    have hbelow : ∀ loc ∈ passed (components getFileReceiveDir), loc <+: receiveLocation := by
      decide
    exact fun loc hloc => node_ofDirs_of_mem hrecv (hbelow loc hloc)
  obtain ⟨hwalk, hdir⟩ := walk_of_passed hpassed
  have hnul : hasNul (components getFileReceiveDir) = false := by decide
  simp [isDir, lookup, hwalk, hdir, hnul]

/-- A file that escapes through directories that are around, to a place that is not,
escapes behind harmless files too: they change nothing that matters to it. -/
theorem exists_not_confined_of_escape {good rest : List (String × Bytes)}
    {file : String × Bytes} (hgood : ∀ f ∈ good, StaysInside f.1) {dirs : List (List String)}
    {target : List String} (hdirs : ∀ d ∈ dirs, Around d) (htarget : ¬ Around target)
    (hescape : ∀ fs : FileSystem Bytes, (∀ comps, fs.refuses comps = false) →
      (∀ d ∈ dirs, fs.node d = some .dir) → fs.node target = none →
      ∃ e ∈ (saveFile fs file).effects, ¬ e.Confined) :
    ∃ fs : FileSystem Bytes,
      ∃ e ∈ (saveReceivedFiles fs (good ++ file :: rest)).effects, ¬ e.Confined := by
  -- the file system has the receive directory and the directories passed through
  let start : FileSystem Bytes := ofDirs (receiveLocation :: dirs)
  have haround : ∀ d ∈ receiveLocation :: dirs, Around d :=
    List.forall_mem_cons.mpr ⟨.inl List.prefix_rfl, hdirs⟩
  have hne : target ≠ [] := by
    rintro rfl
    exact htarget (.inl List.nil_prefix)
  have hnode : start.node target = none :=
    node_ofDirs_eq_none hne (not_prefix_of_not_around htarget haround)
  have hthere : ∀ d ∈ receiveLocation :: dirs, start.node d = some .dir :=
    fun d hd => node_ofDirs_of_mem hd List.prefix_rfl
  obtain ⟨hframe, hkeep, hrefuses⟩ := saveFiles_spec start good
  have hafter : (saveFiles start good).fs.node target = none := by
    rcases hframe target with hsame | ⟨e, he, hloc⟩
    · rw [hsame, hnode]
    · have hconf := saveFiles_confined (hthere _ List.mem_cons_self) hgood e he
      refine absurd ?_ htarget
      rw [← hloc]
      cases e with
      | createdDir comps => exact hconf
      | wrote path => exact .inr hconf.1
  obtain ⟨e, he, hnot⟩ := hescape (saveFiles start good).fs
    (fun comps => by rw [hrefuses]; rfl)
    (fun d hd => hkeep d (hthere d (List.mem_cons_of_mem _ hd))) hafter
  refine ⟨start, e, ?_, hnot⟩
  rw [saveReceivedFiles, createDirAll_ofDirs List.mem_cons_self, saveFiles_append]
  simp only [saveFiles, if_true, List.map_nil, List.nil_append]
  exact List.mem_append_right _ (List.mem_append_left _ he)

/-- **A name that does not stay inside escapes** on some file system, whatever
harmless files come before it. -/
theorem exists_not_confined {good rest : List (String × Bytes)} {file : String × Bytes}
    (hgood : ∀ f ∈ good, StaysInside f.1) (hfile : ¬ StaysInside file.1) :
    ∃ fs : FileSystem Bytes,
      ∃ e ∈ (saveReceivedFiles fs (good ++ file :: rest)).effects, ¬ e.Confined := by
  obtain ⟨hnul, hout⟩ := not_or.mp hfile
  rw [Bool.not_eq_true] at hnul
  by_cases hdirs : ∀ dir ∈ (components (join getFileReceiveDir file.1)).dropLast.inits,
      Around (locate dir)
  · -- all directories are around: the file is not
    have hlast : ¬ ((openedName (join getFileReceiveDir file.1)).isSome = true →
        hasNul (components (join getFileReceiveDir file.1)) = false →
        Around (locate (components (join getFileReceiveDir file.1)))) :=
      fun h => hout ⟨hdirs, h⟩
    push Not at hlast
    obtain ⟨hsome, hnul', hnot⟩ := hlast
    obtain ⟨name, hname⟩ := Option.isSome_iff_exists.mp hsome
    refine exists_not_confined_of_escape hgood (List.forall_mem_map.mpr hdirs) hnot ?_
    intro fs hrefuses hthere hfree
    exact saveFile_escapes_file hname hnul' hrefuses hthere hfree hnot
  · -- the first directory that is not around can be made
    push Not at hdirs
    obtain ⟨p, hp, hnot⟩ := hdirs
    obtain ⟨pre, name, suf, hdrop, hpre, hnot⟩ :=
      exists_first_not_around ⟨p, (List.mem_inits _ _).mp hp, hnot⟩
    refine exists_not_confined_of_escape hgood
      (List.forall_mem_map.mpr fun p hp => hpre p ((List.mem_inits _ _).mp hp)) hnot ?_
    intro fs hrefuses hthere hfree
    exact saveFile_escapes_dir hdrop hnul hrefuses hthere hfree hnot

/-- **A content is saved inside the receive directory on every file system exactly
when all its names stay inside.** -/
theorem saveReceivedFiles_confined_iff (c : ClipboardContent) :
    (∀ fs : FileSystem Bytes,
        ∀ e ∈ (saveReceivedFiles fs (receivedFiles c)).effects, e.Confined) ↔
      ∀ f ∈ receivedFiles c, StaysInside f.1 := by
  constructor
  · intro h
    by_contra hnot
    push Not at hnot
    obtain ⟨f, hf, hout⟩ := hnot
    obtain ⟨file, hfind⟩ : ∃ file,
        (receivedFiles c).find? (fun f => ¬ StaysInside f.1) = some file :=
      Option.isSome_iff_exists.mp (List.find?_isSome.mpr ⟨f, hf, by simpa using hout⟩)
    obtain ⟨hbad, good, rest, hsplit, hgood⟩ := List.find?_eq_some_iff_append.mp hfind
    obtain ⟨fs, e, he, hescaped⟩ : ∃ fs : FileSystem Bytes,
        ∃ e ∈ (saveReceivedFiles fs (good ++ file :: rest)).effects, ¬ e.Confined :=
      exists_not_confined (fun f hf => by simpa using hgood f hf) (by simpa using hbad)
    exact hescaped (h fs e (hsplit ▸ he))
  · intro h fs
    exact confined_of_staysInside h fs

/-- An absolute name replaces the receive directory. -/
theorem saveReceivedFiles_absolute_name :
    ¬ ∀ (c : ClipboardContent) (fs : FileSystem Bytes),
      ∀ e ∈ (saveReceivedFiles fs (receivedFiles c)).effects, e.Confined := by
  intro h
  have hwrote : FsEffect.wrote "/etc/x" ∈ (saveReceivedFiles (ofDirs [["tmp"], ["etc"]])
      (receivedFiles (.file "/etc/x" [1]))).effects := by decide
  exact absurd (h _ _ _ hwrote).1 (by decide)

end P2pClipboard
