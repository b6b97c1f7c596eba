import Mathlib.Logic.Function.Basic
import P2pClipboard.Lib.UnixPath

/-!
# A file system

Files and directories at locations, without links.  The tree shape is part of the
type: the root is a directory, and whatever exists lies in one.  The operations
are those of the operating system and of Rust's `std::fs` on top of it, with the
errors that decide what the callers do next; a file system may also refuse an
operation for reasons of its own (permissions, limits, a full disk).

## Main definitions

* `FileSystem`, `FileSystem.put` — file systems, and adding an entry to one.
* `FileSystem.walk` — following a path.
* `FileSystem.mkdir`, `FileSystem.write`, `FileSystem.createDirAll` — the
  operations that change a file system.
* `FileSystem.ofDirs` — a file system of directories.

## Main results

* `FileSystem.mkdir_eq_ok`, `FileSystem.write_eq_ok` — what a successful
  operation found and did.
* `FileSystem.createDirAll_spec` — what `createDirAll` changes.
* `FileSystem.createDirAll_ok_iff` — when it succeeds.
* `FileSystem.mem_created` — the first missing directory is created.
* `FileSystem.createDirAll_down` — `createDirAll` succeeds where nothing is in
  the way.
-/

/-- What is at a location. -/
inductive Node (α : Type*)
  /-- A regular file. -/
  | file (content : α)
  /-- A directory. -/
  | dir
  deriving DecidableEq, Repr

/-- Why an operation failed. -/
inductive FsError
  | notFound
  | notADirectory
  | alreadyExists
  | isADirectory
  /-- The path has a NUL byte. -/
  | invalidInput
  /-- Any other reason. -/
  | refused
  deriving DecidableEq, Repr

open UnixPath

/-- A file system without links. -/
structure FileSystem (α : Type*) where
  /-- What is at a location. -/
  node : List String → Option (Node α)
  /-- The root is a directory. -/
  node_nil : node [] = some .dir
  /-- Whatever exists lies in a directory. -/
  node_dir : ∀ {l name}, (node (l ++ [name])).isSome = true → node l = some .dir
  /-- The paths on which operations are refused. -/
  refuses : List Component → Bool

namespace FileSystem

variable {α : Type*}

/-- Whether a directory is there can be decided whatever the files hold. -/
instance decidableEqDir : (n : Option (Node α)) → Decidable (n = some .dir)
  | none => isFalse (by simp)
  | some .dir => isTrue rfl
  | some (.file _) => isFalse (by simp)

/-- Everything above something that exists is a directory. -/
theorem node_of_prefix (fs : FileSystem α) {p l : List String} (hp : p <+: l) (hne : p ≠ l)
    (h : (fs.node l).isSome = true) : fs.node p = some .dir := by
  induction l using List.reverseRecOn with
  | nil => exact absurd (List.prefix_nil.mp hp) hne
  | append_singleton l name ih =>
    have hdir := fs.node_dir h
    rcases List.prefix_concat_iff.mp hp with rfl | hp
    · exact absurd rfl hne
    · by_cases heq : p = l
      · rw [heq, hdir]
      · exact ih hp heq (by rw [hdir]; rfl)

/-! ### Following a path -/

/-- A name with a NUL byte, which no operation accepts. -/
def hasNul (comps : List Component) : Bool :=
  comps.any fun
    | .normal name => '\x00' ∈ name.toList
    | _ => false

theorem hasNul_mono {p comps : List Component} (hp : p <+: comps)
    (h : hasNul comps = false) : hasNul p = false := by
  obtain ⟨rest, rfl⟩ := hp
  rw [hasNul, List.any_append, Bool.or_eq_false_iff] at h
  exact h.1

/-- The error of looking for something below a node that is no directory. -/
def dirError : Option (Node α) → FsError
  | none => .notFound
  | some _ => .notADirectory

/-- Follow a path from the root: whatever is passed through must be a directory. -/
def walk (fs : FileSystem α) (comps : List Component) : Except FsError (List String) :=
  comps.foldlM
    (fun loc c =>
      if fs.node loc = some .dir then .ok (enter loc c) else .error (dirError (fs.node loc)))
    []

/-- What a path leads to. -/
def lookup (fs : FileSystem α) (comps : List Component) : Option (Node α) :=
  match fs.walk comps with
  | .ok loc => if hasNul comps then none else fs.node loc
  | .error _ => none

/-- `Path::exists`. -/
def pathExists (fs : FileSystem α) (comps : List Component) : Bool := (fs.lookup comps).isSome

/-- `Path::is_dir`. -/
def isDir (fs : FileSystem α) (comps : List Component) : Bool :=
  match fs.lookup comps with
  | some .dir => true
  | _ => false

/-! ### Changing a file system -/

/-- Put a node into a directory, where no directory is. -/
def put (fs : FileSystem α) (l : List String) (name : String) (n : Node α)
    (hdir : fs.node l = some .dir) (hfree : fs.node (l ++ [name]) ≠ some .dir) :
    FileSystem α where
  node := Function.update fs.node (l ++ [name]) (some n)
  node_nil := by
    rw [Function.update_of_ne (by simp), fs.node_nil]
  node_dir := by
    intro l' name' h
    by_cases heq : l' ++ [name'] = l ++ [name]
    · obtain ⟨rfl, -⟩ := List.append_inj' heq rfl
      rwa [Function.update_of_ne (by simp)]
    · rw [Function.update_of_ne heq] at h
      have hold := fs.node_dir h
      rwa [Function.update_of_ne]
      rintro rfl
      exact hfree hold
  refuses := fs.refuses

@[simp] theorem node_put (fs : FileSystem α) (l : List String) (name : String) (n : Node α)
    (hdir : fs.node l = some .dir) (hfree : fs.node (l ++ [name]) ≠ some .dir) :
    (fs.put l name n hdir hfree).node = Function.update fs.node (l ++ [name]) (some n) := rfl

@[simp] theorem refuses_put (fs : FileSystem α) (l : List String) (name : String) (n : Node α)
    (hdir : fs.node l = some .dir) (hfree : fs.node (l ++ [name]) ≠ some .dir) :
    (fs.put l name n hdir hfree).refuses = fs.refuses := rfl

/-- `mkdir`. -/
def mkdir (fs : FileSystem α) (comps : List Component) :
    Except FsError (FileSystem α) :=
  if hasNul comps then .error .invalidInput
  else if fs.refuses comps then .error .refused
  else
    match fileName comps with
    | none =>
        -- the root or a dot: whatever it leads to is there
        match fs.walk comps with
        | .ok _ => .error .alreadyExists
        | .error e => .error e
    | some name =>
        match fs.walk comps.dropLast with
        | .error e => .error e
        | .ok l =>
            if hdir : fs.node l = some .dir then
              if hfree : fs.node (l ++ [name]) = none then
                .ok (fs.put l name .dir hdir (by simp [hfree]))
              else .error .alreadyExists
            else .error (dirError (fs.node l))

/-- `fs::write`. -/
def write (fs : FileSystem α) (path : String) (content : α) :
    Except FsError (FileSystem α) :=
  if hasNul (components path) then .error .invalidInput
  else if fs.refuses (components path) then .error .refused
  else
    match openedName path with
    | none => .error .isADirectory
    | some name =>
        match fs.walk (components path).dropLast with
        | .error e => .error e
        | .ok l =>
            if hdir : fs.node l = some .dir then
              if hfree : fs.node (l ++ [name]) = some .dir then .error .isADirectory
              else .ok (fs.put l name (.file content) hdir hfree)
            else .error (dirError (fs.node l))

/-- The outcome of `createDirAll`. -/
structure Created (α : Type*) where
  /-- The file system afterwards. -/
  fs : FileSystem α
  /-- The directories created, in order. -/
  created : List (List Component)
  /-- The call succeeded. -/
  ok : Bool

/-- `fs::create_dir_all`, on the components in reverse order: try the directory,
and its parent first if something is missing. -/
def createDirAllRev (fs : FileSystem α) : List Component → Created α
  | [] => ⟨fs, [], true⟩
  | c :: rest =>
      match fs.mkdir (c :: rest).reverse with
      | .ok fs' => ⟨fs', [(c :: rest).reverse], true⟩
      | .error .notFound =>
          let r := createDirAllRev fs rest
          if r.ok then
            match r.fs.mkdir (c :: rest).reverse with
            | .ok fs' => ⟨fs', r.created ++ [(c :: rest).reverse], true⟩
            | .error _ => { r with ok := r.fs.isDir (c :: rest).reverse }
          else r
      | .error _ => ⟨fs, [], fs.isDir (c :: rest).reverse⟩

/-- `fs::create_dir_all`. -/
def createDirAll (fs : FileSystem α) (comps : List Component) : Created α :=
  fs.createDirAllRev comps.reverse

/-! ### What following a path finds -/

theorem walk_append_singleton (fs : FileSystem α) (comps : List Component) (c : Component) :
    fs.walk (comps ++ [c]) =
      (fs.walk comps).bind fun loc =>
        if fs.node loc = some .dir then .ok (enter loc c) else .error (dirError (fs.node loc)) := by
  rw [walk, List.foldlM_append, ← walk]
  cases fs.walk comps with
  | error e => rfl
  | ok loc =>
    simp only [List.foldlM_cons, List.foldlM_nil, bind_pure]
    rfl

/-- **A path can be followed exactly when every proper initial part of it leads to
a directory**, and it leads to its lexical location. -/
theorem walk_eq_ok_iff {fs : FileSystem α} {comps : List Component} {loc : List String} :
    fs.walk comps = .ok loc ↔
      loc = locate comps ∧ ∀ p, p <+: comps → p ≠ comps → fs.node (locate p) = some .dir := by
  induction comps using List.reverseRecOn generalizing loc with
  | nil =>
    have hnil : fs.walk [] = .ok [] := rfl
    rw [hnil, Except.ok.injEq, locate_nil, eq_comm]
    refine (and_iff_left ?_).symm
    intro p hp hne
    exact absurd (List.prefix_nil.mp hp) hne
  | append_singleton comps c ih =>
    rw [walk_append_singleton]
    constructor
    · intro h
      cases hw : fs.walk comps with
      | error e => simp [hw, Except.bind] at h
      | ok l =>
        obtain ⟨rfl, hdirs⟩ := ih.mp hw
        simp only [hw, Except.bind] at h
        split at h
        · rename_i hdir
          refine ⟨by rw [locate_concat]; exact (Except.ok.inj h).symm, ?_⟩
          intro p hp hne
          rcases List.prefix_concat_iff.mp hp with rfl | hp
          · exact absurd rfl hne
          · by_cases heq : p = comps
            · rwa [heq]
            · exact hdirs p hp heq
        · exact absurd h (by simp)
    · rintro ⟨rfl, hdirs⟩
      have hw : fs.walk comps = .ok (locate comps) := by
        refine ih.mpr ⟨rfl, fun p hp _ => hdirs p (hp.trans (List.prefix_append _ _)) ?_⟩
        rintro rfl
        exact absurd hp.length_le (by simp)
      have hdir : fs.node (locate comps) = some .dir :=
        hdirs comps (List.prefix_append _ _) (by simp)
      simp only [hw, Except.bind, if_pos hdir, locate_concat]

/-- A path that leads past something missing is not found. -/
theorem walk_eq_notFound {fs : FileSystem α} {pre suf : List Component} {l : List String}
    (hpre : fs.walk pre = .ok l) (hnone : fs.node l = none) (hsuf : suf ≠ []) :
    fs.walk (pre ++ suf) = .error .notFound := by
  obtain ⟨c, rest, rfl⟩ := List.exists_cons_of_ne_nil hsuf
  rw [walk, List.foldlM_append, ← walk, hpre]
  simp [hnone, dirError, bind, Except.bind]

theorem fileName_eq_some {comps : List Component} {name : String}
    (h : fileName comps = some name) : comps = comps.dropLast ++ [.normal name] := by
  unfold fileName at h
  cases hlast : comps.getLast? with
  | none => simp [hlast] at h
  | some c =>
    obtain ⟨init, rfl⟩ := List.getLast?_eq_some_iff.mp hlast
    cases c <;> simp_all

/-! ### What the operations do -/

/-- What a successful `mkdir` found, and what it left behind. -/
theorem mkdir_inv {fs fs' : FileSystem α} {comps : List Component}
    (h : fs.mkdir comps = .ok fs') :
    ∃ name, fileName comps = some name ∧ hasNul comps = false ∧
      fs.walk comps.dropLast = .ok (locate comps.dropLast) ∧
      fs.node (locate comps.dropLast) = some .dir ∧ fs.node (locate comps) = none ∧
      fs'.node = Function.update fs.node (locate comps) (some .dir) ∧
      fs'.refuses = fs.refuses := by
  unfold mkdir at h
  split at h
  · exact absurd h (by simp)
  · rename_i hnul
    split at h
    · exact absurd h (by simp)
    · split at h
      · split at h <;> exact absurd h (by simp)
      · rename_i name hname
        split at h
        · exact absurd h (by simp)
        · rename_i l hwalk
          split at h
          · split at h
            · rename_i hdir hfree
              obtain rfl := Except.ok.inj h
              obtain ⟨rfl, -⟩ := walk_eq_ok_iff.mp hwalk
              have hloc : locate comps = locate comps.dropLast ++ [name] := by
                conv_lhs => rw [fileName_eq_some hname, locate_concat]
                rfl
              refine ⟨name, hname, by simpa using hnul, hwalk, hdir, by rw [hloc, hfree], ?_, rfl⟩
              rw [hloc]
              rfl
            · exact absurd h (by simp)
          · exact absurd h (by simp)

/-- **A directory that was made was missing in a directory**, and is now there. -/
theorem mkdir_eq_ok {fs fs' : FileSystem α} {comps : List Component}
    (h : fs.mkdir comps = .ok fs') :
    hasNul comps = false ∧ fs.node (locate comps) = none ∧
      fs'.node = Function.update fs.node (locate comps) (some .dir) ∧
      fs'.refuses = fs.refuses := by
  obtain ⟨name, -, hnul, -, -, hfree, hnode, hrefuses⟩ := mkdir_inv h
  exact ⟨hnul, hfree, hnode, hrefuses⟩

/-- A name missing in a directory can be made, if nothing is refused. -/
theorem mkdir_of_missing {fs : FileSystem α} {pre : List Component} {name : String}
    (hnul : hasNul (pre ++ [.normal name]) = false)
    (hrefuses : fs.refuses (pre ++ [.normal name]) = false)
    (hwalk : fs.walk pre = .ok (locate pre)) (hdir : fs.node (locate pre) = some .dir)
    (hfree : fs.node (locate pre ++ [name]) = none) :
    fs.mkdir (pre ++ [.normal name]) =
      .ok (fs.put (locate pre) name .dir hdir (by simp [hfree])) := by
  have hname : fileName (pre ++ [.normal name]) = some name := by simp [fileName]
  unfold mkdir
  simp [hnul, hrefuses, hname, hwalk, hdir, hfree]

/-- What lies past something missing cannot be made: it is not found. -/
theorem mkdir_eq_notFound {fs : FileSystem α} {pre suf : List Component} {c : Component}
    (hnul : hasNul (pre ++ suf ++ [c]) = false)
    (hrefuses : fs.refuses (pre ++ suf ++ [c]) = false)
    (hwalk : fs.walk pre = .ok (locate pre)) (hnone : fs.node (locate pre) = none) :
    fs.mkdir (pre ++ suf ++ [c]) = .error .notFound := by
  have hall : fs.walk (pre ++ suf ++ [c]) = .error .notFound := by
    rw [List.append_assoc]
    exact walk_eq_notFound hwalk hnone (by simp)
  unfold mkdir
  rw [hnul, hrefuses, hall]
  simp only [Bool.false_eq_true, if_false]
  split
  · rfl
  · rename_i name hname
    rw [List.dropLast_concat]
    cases suf with
    | nil => simp [hwalk, hnone, dirError]
    | cons d rest =>
      have hinit : fs.walk (pre ++ d :: rest) = .error .notFound :=
        walk_eq_notFound hwalk hnone (by simp)
      simp [hinit]

/-- A path with a NUL byte is invalid. -/
theorem mkdir_of_hasNul {fs : FileSystem α} {comps : List Component} (h : hasNul comps = true) :
    fs.mkdir comps = .error .invalidInput := by
  simp [mkdir, h]

/-- What a successful `write` found, and what it left behind. -/
theorem write_inv {fs fs' : FileSystem α} {path : String} {content : α}
    (h : fs.write path content = .ok fs') :
    ∃ name, openedName path = some name ∧ hasNul (components path) = false ∧
      fs.refuses (components path) = false ∧
      fs.walk (components path).dropLast = .ok (locate (components path).dropLast) ∧
      fs.node (locate (components path).dropLast) = some .dir ∧
      fs.node (locate (components path)) ≠ some .dir ∧
      fs'.node = Function.update fs.node (locate (components path)) (some (.file content)) ∧
      fs'.refuses = fs.refuses := by
  unfold write at h
  split at h
  · exact absurd h (by simp)
  · rename_i hnul
    split at h
    · exact absurd h (by simp)
    · rename_i hrefuses
      split at h
      · exact absurd h (by simp)
      · rename_i name hname
        split at h
        · exact absurd h (by simp)
        · rename_i l hwalk
          split at h
          · split at h
            · exact absurd h (by simp)
            · rename_i hdir hfree
              obtain rfl := Except.ok.inj h
              obtain ⟨rfl, -⟩ := walk_eq_ok_iff.mp hwalk
              have hloc : locate (components path) =
                  locate (components path).dropLast ++ [name] := by
                conv_lhs => rw [components_of_openedName hname, locate_concat]
                rfl
              refine ⟨name, hname, by simpa using hnul, by simpa using hrefuses, hwalk, hdir,
                by rwa [hloc], ?_, rfl⟩
              rw [hloc]
              rfl
          · exact absurd h (by simp)

/-- **A file that was written has a name in a directory**, where no directory was. -/
theorem write_eq_ok {fs fs' : FileSystem α} {path : String} {content : α}
    (h : fs.write path content = .ok fs') :
    ∃ name, openedName path = some name ∧ hasNul (components path) = false ∧
      fs.node (locate (components path)) ≠ some .dir ∧
      fs'.node = Function.update fs.node (locate (components path)) (some (.file content)) ∧
      fs'.refuses = fs.refuses := by
  obtain ⟨name, hname, hnul, -, -, -, hfree, hnode, hrefuses⟩ := write_inv h
  exact ⟨name, hname, hnul, hfree, hnode, hrefuses⟩

/-- The directory of a file that was written is there, and the path not refused. -/
theorem dir_of_write {fs fs' : FileSystem α} {path : String} {content : α}
    (h : fs.write path content = .ok fs') :
    fs.refuses (components path) = false ∧
      fs.walk (components path).dropLast = .ok (locate (components path).dropLast) ∧
      fs.node (locate (components path).dropLast) = some .dir := by
  obtain ⟨name, -, -, hrefuses, hwalk, hdir, -⟩ := write_inv h
  exact ⟨hrefuses, hwalk, hdir⟩

/-- A path that can be followed stays so when the directories stay. -/
theorem walk_of_dirs_kept {fs fs' : FileSystem α} {comps : List Component}
    (hdirs : ∀ loc, fs.node loc = some .dir → fs'.node loc = some .dir)
    (h : fs.walk comps = .ok (locate comps)) : fs'.walk comps = .ok (locate comps) := by
  obtain ⟨-, habove⟩ := walk_eq_ok_iff.mp h
  exact walk_eq_ok_iff.mpr ⟨rfl, fun p hp hne => hdirs _ (habove p hp hne)⟩

/-- A name in a directory that can be entered can be followed. -/
theorem walk_concat {fs : FileSystem α} {comps : List Component} (c : Component)
    (hwalk : fs.walk comps = .ok (locate comps)) (hdir : fs.node (locate comps) = some .dir) :
    fs.walk (comps ++ [c]) = .ok (locate (comps ++ [c])) := by
  rw [walk_append_singleton, hwalk, locate_concat]
  simp [Except.bind, hdir]

/-- A name in a directory can be written, unless it is a directory or refused. -/
theorem write_of_dir {fs : FileSystem α} {path name : String} {content : α}
    (hname : openedName path = some name) (hnul : hasNul (components path) = false)
    (hrefuses : fs.refuses (components path) = false)
    (hwalk : fs.walk (components path).dropLast = .ok (locate (components path).dropLast))
    (hdir : fs.node (locate (components path).dropLast) = some .dir)
    (hfree : fs.node (locate (components path).dropLast ++ [name]) ≠ some .dir) :
    fs.write path content =
      .ok (fs.put (locate (components path).dropLast) name (.file content) hdir hfree) := by
  unfold write
  simp [hname, hnul, hrefuses, hwalk, hdir, hfree]

/-! ### Creating all missing directories -/

/-- Where directories were or may be made: `fs'` has the nodes of `fs` and, where
`fs` has nothing, perhaps directories at the locations of `paths`. -/
structure Grown (fs fs' : FileSystem α) (paths : List (List Component)) : Prop where
  /-- What changed was missing, and is the location of one of the paths. -/
  node : ∀ loc, fs'.node loc = fs.node loc ∨
    fs.node loc = none ∧ fs'.node loc = some .dir ∧ ∃ p ∈ paths, locate p = loc
  /-- The same paths are refused. -/
  refuses : fs'.refuses = fs.refuses

theorem Grown.refl (fs : FileSystem α) : Grown fs fs [] :=
  ⟨fun _ => .inl rfl, rfl⟩

theorem Grown.mkdir {fs fs' fs'' : FileSystem α} {paths : List (List Component)}
    {comps : List Component} (h : Grown fs fs' paths) (hmk : fs'.mkdir comps = .ok fs'') :
    Grown fs fs'' (paths ++ [comps]) := by
  obtain ⟨-, hnone, hnode, hrefuses⟩ := mkdir_eq_ok hmk
  refine ⟨?_, hrefuses.trans h.refuses⟩
  intro loc
  rw [hnode]
  by_cases heq : loc = locate comps
  · subst heq
    rw [Function.update_self]
    rcases h.node (locate comps) with hsame | ⟨hold, hnew, -⟩
    · exact .inr ⟨hsame ▸ hnone, rfl, comps, by simp, rfl⟩
    · exact absurd hnone (by simp [hnew])
  · rw [Function.update_of_ne heq]
    rcases h.node loc with hsame | ⟨hold, hnew, p, hp, hloc⟩
    · exact .inl hsame
    · exact .inr ⟨hold, hnew, p, by simp [hp], hloc⟩

theorem createDirAll_concat (fs : FileSystem α) (comps : List Component) (c : Component) :
    fs.createDirAll (comps ++ [c]) =
      match fs.mkdir (comps ++ [c]) with
      | .ok fs' => ⟨fs', [comps ++ [c]], true⟩
      | .error .notFound =>
          if (fs.createDirAll comps).ok then
            match (fs.createDirAll comps).fs.mkdir (comps ++ [c]) with
            | .ok fs' => ⟨fs', (fs.createDirAll comps).created ++ [comps ++ [c]], true⟩
            | .error _ =>
                { fs.createDirAll comps with ok := (fs.createDirAll comps).fs.isDir (comps ++ [c]) }
          else fs.createDirAll comps
      | .error _ => ⟨fs, [], fs.isDir (comps ++ [c])⟩ := by
  rw [createDirAll, List.reverse_append, List.reverse_singleton, List.singleton_append,
    createDirAllRev, List.reverse_cons, List.reverse_reverse]
  rfl

/-- **What `createDirAll` does**: it makes missing directories, each an initial
part of the path, and none at all for a path with a NUL byte. -/
theorem createDirAll_spec (fs : FileSystem α) (comps : List Component) :
    Grown fs (fs.createDirAll comps).fs (fs.createDirAll comps).created ∧
      ∀ p ∈ (fs.createDirAll comps).created, p <+: comps ∧ hasNul comps = false := by
  induction comps using List.reverseRecOn with
  | nil => exact ⟨Grown.refl fs, by simp [createDirAll, createDirAllRev]⟩
  | append_singleton comps c ih =>
    obtain ⟨hgrown, hmem⟩ := ih
    rw [createDirAll_concat]
    cases hmk : fs.mkdir (comps ++ [c]) with
    | ok fs' =>
      refine ⟨by simpa using (Grown.refl fs).mkdir hmk, ?_⟩
      intro p hp
      obtain rfl := List.mem_singleton.mp hp
      exact ⟨List.prefix_rfl, (mkdir_eq_ok hmk).1⟩
    | error e =>
      by_cases he : e = .notFound
      · subst he
        -- a path with a NUL byte would have been invalid
        have hnul : hasNul (comps ++ [c]) = false := by
          by_contra hne
          rw [mkdir_of_hasNul (by simpa using hne)] at hmk
          exact absurd hmk (by simp)
        have hup : ∀ p ∈ (fs.createDirAll comps).created,
            p <+: comps ++ [c] ∧ hasNul (comps ++ [c]) = false :=
          fun p hp => ⟨(hmem p hp).1.trans (List.prefix_append _ _), hnul⟩
        by_cases hok : (fs.createDirAll comps).ok = true
        · cases hmk' : (fs.createDirAll comps).fs.mkdir (comps ++ [c]) with
          | error e' => simpa only [hok, if_true] using ⟨hgrown, hup⟩
          | ok fs' =>
            simp only [hok, if_true]
            refine ⟨hgrown.mkdir hmk', ?_⟩
            intro p hp
            rcases List.mem_append.mp hp with hp | hp
            · exact hup p hp
            · obtain rfl := List.mem_singleton.mp hp
              exact ⟨List.prefix_rfl, hnul⟩
        · simpa only [hok] using ⟨hgrown, hup⟩
      · cases e <;> first | exact absurd rfl he | exact ⟨Grown.refl fs, by simp⟩

theorem node_of_isDir {fs : FileSystem α} {comps : List Component}
    (h : fs.isDir comps = true) : fs.node (locate comps) = some .dir := by
  unfold isDir lookup at h
  cases hw : fs.walk comps with
  | error e => simp [hw] at h
  | ok loc =>
    obtain ⟨rfl, -⟩ := walk_eq_ok_iff.mp hw
    by_contra hne
    simp only [hw] at h
    split at h
    · rename_i hsome
      split at hsome
      · exact absurd hsome (by simp)
      · exact hne hsome
    · exact absurd h (by simp)

/-- What exists at a directory's place is that directory. -/
theorem isDir_of_pathExists {fs : FileSystem α} {comps : List Component}
    (hex : fs.pathExists comps = true) (hdir : fs.node (locate comps) = some .dir) :
    fs.isDir comps = true := by
  unfold pathExists lookup at hex
  unfold isDir lookup
  cases hw : fs.walk comps with
  | error e => simp [hw] at hex
  | ok loc =>
    obtain ⟨rfl, -⟩ := walk_eq_ok_iff.mp hw
    cases hnul : hasNul comps with
    | true => simp [hw, hnul] at hex
    | false => simp [hdir]

/-- A successful `createDirAll` made the directory, or it is there. -/
theorem createDirAll_made {fs : FileSystem α} {comps : List Component} {c : Component}
    (h : (fs.createDirAll (comps ++ [c])).ok = true) :
    (∃ before : FileSystem α,
        before.mkdir (comps ++ [c]) = .ok (fs.createDirAll (comps ++ [c])).fs) ∨
      (fs.createDirAll (comps ++ [c])).fs.isDir (comps ++ [c]) = true := by
  rw [createDirAll_concat] at h ⊢
  cases hmk : fs.mkdir (comps ++ [c]) with
  | ok fs' => exact .inl ⟨fs, hmk⟩
  | error e =>
    simp only [hmk] at h
    by_cases he : e = .notFound
    · subst he
      by_cases hok : (fs.createDirAll comps).ok = true
      · simp only [hok, if_true] at h ⊢
        cases hmk' : (fs.createDirAll comps).fs.mkdir (comps ++ [c]) with
        | ok fs' => exact .inl ⟨_, hmk'⟩
        | error e' =>
          simp only [hmk'] at h
          exact .inr h
      · simp only [hok] at h
        exact absurd h hok
    · cases e <;> first | exact absurd rfl he | exact .inr h

/-- After a successful `createDirAll` the directory is there. -/
theorem createDirAll_ok {fs : FileSystem α} {comps : List Component}
    (h : (fs.createDirAll comps).ok = true) :
    (fs.createDirAll comps).fs.node (locate comps) = some .dir := by
  cases comps using List.reverseRecOn with
  | nil => exact fs.node_nil
  | append_singleton comps c =>
    rcases createDirAll_made h with ⟨before, hmk⟩ | hdir
    · rw [(mkdir_eq_ok hmk).2.2.1, Function.update_self]
    · exact node_of_isDir hdir

/-- A directory that was made can be entered. -/
theorem walk_of_mkdir {fs fs' : FileSystem α} {comps : List Component}
    (h : fs.mkdir comps = .ok fs') : fs'.walk comps = .ok (locate comps) := by
  obtain ⟨name, hname, -, hwalk, hdir, hnone, hnode, -⟩ := mkdir_inv h
  have hkept : ∀ loc, fs.node loc = some .dir → fs'.node loc = some .dir := by
    intro loc hloc
    have hne : loc ≠ locate comps := by
      rintro rfl
      simp [hnone] at hloc
    rw [hnode, Function.update_of_ne hne, hloc]
  rw [fileName_eq_some hname]
  exact walk_concat _ (walk_of_dirs_kept hkept hwalk) (hkept _ hdir)

theorem walk_of_isDir {fs : FileSystem α} {comps : List Component}
    (h : fs.isDir comps = true) : fs.walk comps = .ok (locate comps) := by
  cases hw : fs.walk comps with
  | error e => simp [isDir, lookup, hw] at h
  | ok loc => rw [(walk_eq_ok_iff.mp hw).1]

/-- After a successful `createDirAll` the directory can be entered. -/
theorem walk_createDirAll {fs : FileSystem α} {comps : List Component}
    (h : (fs.createDirAll comps).ok = true) :
    (fs.createDirAll comps).fs.walk comps = .ok (locate comps) := by
  cases comps using List.reverseRecOn with
  | nil => rfl
  | append_singleton comps c =>
    rcases createDirAll_made h with ⟨before, hmk⟩ | hdir
    · exact walk_of_mkdir hmk
    · exact walk_of_isDir hdir

/-- Nothing is created where a directory is. -/
theorem createDirAll_of_isDir {fs : FileSystem α} {comps : List Component}
    (h : fs.isDir comps = true) : fs.createDirAll comps = ⟨fs, [], true⟩ := by
  obtain ⟨loc, hwalk⟩ : ∃ loc, fs.walk comps = .ok loc := by
    cases hw : fs.walk comps with
    | error e => simp [isDir, lookup, hw] at h
    | ok loc => exact ⟨loc, rfl⟩
  have hdir := node_of_isDir h
  induction comps using List.reverseRecOn with
  | nil => rfl
  | append_singleton comps c _ =>
    -- the attempt to make it fails, and not because something is missing
    have hmk : ∃ e, fs.mkdir (comps ++ [c]) = .error e ∧ e ≠ .notFound := by
      unfold mkdir
      split_ifs
      · exact ⟨_, rfl, by simp⟩
      · exact ⟨_, rfl, by simp⟩
      · split
        · rw [hwalk]
          exact ⟨_, rfl, by simp⟩
        · rename_i name hname
          obtain rfl : c = .normal name := by
            have := fileName_eq_some hname
            rw [List.dropLast_concat] at this
            simpa using this
          obtain ⟨-, hdirs⟩ := walk_eq_ok_iff.mp hwalk
          have hinit : fs.walk comps = .ok (locate comps) :=
            walk_eq_ok_iff.mpr ⟨rfl, fun p hp hne => hdirs p (hp.trans (List.prefix_append _ _))
              fun heq => absurd hp.length_le (by simp [heq])⟩
          have hparent := hdirs comps (List.prefix_append _ _) (by simp)
          rw [locate_concat] at hdir
          rw [List.dropLast_concat, hinit]
          simp only [hparent, enter] at hdir ⊢
          simp [hdir]
    obtain ⟨e, hmk, hne⟩ := hmk
    rw [createDirAll_concat, hmk]
    cases e <;> first | exact absurd rfl hne | rw [h]

/-- A directory that can be entered is there, whatever is said about its path. -/
theorem isDir_iff {fs : FileSystem α} {comps : List Component} :
    fs.isDir comps = true ↔
      hasNul comps = false ∧ ∀ p, p <+: comps → fs.node (locate p) = some .dir := by
  constructor
  · intro h
    obtain ⟨-, habove⟩ := walk_eq_ok_iff.mp (walk_of_isDir h)
    refine ⟨?_, fun p hp => ?_⟩
    · by_contra hnul
      simp [isDir, lookup, walk_of_isDir h, hnul] at h
    · by_cases heq : p = comps
      · rw [heq, node_of_isDir h]
      · exact habove p hp heq
  · rintro ⟨hnul, hdirs⟩
    have hwalk : fs.walk comps = .ok (locate comps) :=
      walk_eq_ok_iff.mpr ⟨rfl, fun p hp _ => hdirs p hp⟩
    simp [isDir, lookup, hwalk, hnul, hdirs comps List.prefix_rfl]

/-- A directory is there, or it may be made: its path is not refused, and no file is at its
place. -/
def MayEnter (fs : FileSystem α) (comps : List Component) : Prop :=
  fs.isDir comps = true ∨ fs.refuses comps = false ∧ ∀ a, fs.node (locate comps) ≠ some (.file a)

/-- No file is where a directory is or may be made. -/
theorem MayEnter.not_file {fs : FileSystem α} {comps : List Component} (h : fs.MayEnter comps)
    (a : α) : fs.node (locate comps) ≠ some (.file a) := by
  obtain h | ⟨-, h⟩ := h
  · simp [node_of_isDir h]
  · exact h a

/-- What exists where a directory is or may be made is a directory. -/
theorem MayEnter.isDir {fs : FileSystem α} {comps : List Component} (h : fs.MayEnter comps)
    (hex : fs.pathExists comps = true) : fs.isDir comps = true := by
  refine isDir_of_pathExists hex ?_
  unfold pathExists lookup at hex
  cases hw : fs.walk comps with
  | error e => simp [hw] at hex
  | ok loc =>
    obtain ⟨rfl, -⟩ := walk_eq_ok_iff.mp hw
    cases hn : fs.node (locate comps) with
    | none => simp [hw, hn] at hex
    | some n =>
      cases n with
      | dir => rfl
      | file a => exact absurd hn (h.not_file a)

/-- Where no file is in the way, a path can be followed or is not found. -/
theorem walk_cases_of_not_file {fs : FileSystem α} {comps : List Component}
    (hfile : ∀ p, p <+: comps → ∀ a, fs.node (locate p) ≠ some (.file a)) :
    fs.walk comps = .ok (locate comps) ∨ fs.walk comps = .error .notFound := by
  induction comps using List.reverseRecOn with
  | nil => exact .inl rfl
  | append_singleton comps c ih =>
    rcases ih fun p hp => hfile p (hp.trans (List.prefix_append _ _)) with hw | hw
    · cases hn : fs.node (locate comps) with
      | none => exact .inr (by simp [walk_append_singleton, hw, Except.bind, hn, dirError])
      | some n =>
        cases n with
        | dir => exact .inl (walk_concat c hw hn)
        | file a => exact absurd hn (hfile comps (List.prefix_append _ _) a)
    · exact .inr (by rw [walk_append_singleton, hw]; rfl)

/-- A step that is no name leads from a directory to one. -/
theorem node_enter_dir {fs : FileSystem α} {l : List String} {c : Component}
    (hdir : fs.node l = some .dir) (hc : ∀ name, c ≠ .normal name) :
    fs.node (enter l c) = some .dir := by
  cases c with
  | rootDir => exact fs.node_nil
  | curDir => exact hdir
  | normal name => exact absurd rfl (hc name)
  | parentDir =>
    by_cases heq : l.dropLast = l
    · rwa [enter, heq]
    · exact fs.node_of_prefix (List.dropLast_prefix l) heq (by rw [hdir]; rfl)

/-- Where no file is in the way and nothing is refused, a directory is made, something above
it is missing, or it is there. -/
theorem mkdir_cases {fs : FileSystem α} {comps : List Component} {c : Component}
    (hnul : hasNul (comps ++ [c]) = false) (hrefuses : fs.refuses (comps ++ [c]) = false)
    (hfile : ∀ p, p <+: comps ++ [c] → ∀ a, fs.node (locate p) ≠ some (.file a)) :
    (∃ fs', fs.mkdir (comps ++ [c]) = .ok fs') ∨ fs.mkdir (comps ++ [c]) = .error .notFound ∨
      fs.mkdir (comps ++ [c]) = .error .alreadyExists ∧ fs.isDir (comps ++ [c]) = true := by
  have habove : ∀ p, p <+: comps → ∀ a, fs.node (locate p) ≠ some (.file a) :=
    fun p hp => hfile p (hp.trans (List.prefix_append _ _))
  rcases walk_cases_of_not_file habove with hw | hw
  swap
  · -- something above is missing
    have hall : fs.walk (comps ++ [c]) = .error .notFound := by
      rw [walk_append_singleton, hw]
      rfl
    refine .inr (.inl ?_)
    unfold mkdir
    simp only [hnul, hrefuses, Bool.false_eq_true, if_false, hall, List.dropLast_concat, hw]
    split <;> rfl
  cases hdir : fs.node (locate comps) with
  | none =>
    have hall : fs.walk (comps ++ [c]) = .error .notFound := by
      simp [walk_append_singleton, hw, Except.bind, hdir, dirError]
    refine .inr (.inl ?_)
    unfold mkdir
    simp only [hnul, hrefuses, Bool.false_eq_true, if_false, hall, List.dropLast_concat, hw, hdir]
    split <;> rfl
  | some n =>
    cases n with
    | file a => exact absurd hdir (habove comps List.prefix_rfl a)
    | dir =>
      have hwalk := walk_concat c hw hdir
      have hthere : fs.node (locate (comps ++ [c])) = some .dir →
          fs.isDir (comps ++ [c]) = true := by
        intro h
        simp only [isDir, lookup, hwalk, hnul, Bool.false_eq_true, if_false, h]
      by_cases hc : ∃ name, c = .normal name
      · obtain ⟨name, rfl⟩ := hc
        cases hlast : fs.node (locate comps ++ [name]) with
        | none => exact .inl ⟨_, mkdir_of_missing hnul hrefuses hw hdir hlast⟩
        | some n =>
          cases n with
          | file a => exact absurd (by rw [locate_concat]; exact hlast) (hfile _ List.prefix_rfl a)
          | dir =>
            refine .inr (.inr ⟨?_, hthere (by rw [locate_concat]; exact hlast)⟩)
            have hname : fileName (comps ++ [.normal name]) = some name := by simp [fileName]
            unfold mkdir
            simp [hnul, hrefuses, hname, hw, hdir, hlast]
      · refine .inr (.inr ⟨?_, hthere ?_⟩)
        · have hname : fileName (comps ++ [c]) = none := by
            cases c <;> simp_all [fileName]
          unfold mkdir
          simp [hnul, hrefuses, hname, hwalk]
        · rw [locate_concat]
          exact node_enter_dir hdir fun name heq => hc ⟨name, heq⟩

/-- A path that is made, or past something missing, has no NUL byte and is not refused. -/
theorem mkdir_attempted {fs : FileSystem α} {comps : List Component}
    (h : (∃ fs', fs.mkdir comps = .ok fs') ∨ fs.mkdir comps = .error .notFound) :
    hasNul comps = false ∧ fs.refuses comps = false := by
  rw [← Bool.not_eq_true, ← Bool.not_eq_true]
  constructor <;> intro hbad <;> rcases h with ⟨fs', h⟩ | h
  · simp [mkdir, hbad] at h
  · simp [mkdir, hbad] at h
  all_goals
    rw [mkdir] at h
    by_cases hnul : hasNul comps = true
    · simp [hnul] at h
    · simp [hnul, hbad] at h

/-- Nothing is missing above a name in a directory. -/
theorem mkdir_ne_notFound {fs : FileSystem α} {comps : List Component} {c : Component}
    (hwalk : fs.walk comps = .ok (locate comps)) (hdir : fs.node (locate comps) = some .dir) :
    fs.mkdir (comps ++ [c]) ≠ .error .notFound := by
  have hall := walk_concat c hwalk hdir
  unfold mkdir
  rw [hall, List.dropLast_concat, hwalk]
  dsimp only
  split_ifs
  · simp
  · simp
  · cases fileName (comps ++ [c]) with
    | none => simp
    | some name =>
      dsimp only
      split <;> simp

/-- **When `createDirAll` succeeds**: every initial part of the path is a directory, or may be
made one. -/
theorem createDirAll_ok_iff {fs : FileSystem α} {comps : List Component} :
    (fs.createDirAll comps).ok = true ↔
      hasNul comps = false ∧ ∀ p, p <+: comps → fs.MayEnter p := by
  induction comps using List.reverseRecOn with
  | nil =>
    refine iff_of_true rfl ⟨rfl, fun p hp => ?_⟩
    rw [List.prefix_nil.mp hp]
    exact .inl (isDir_iff.mpr ⟨rfl, fun q hq => by rw [List.prefix_nil.mp hq]; exact fs.node_nil⟩)
  | append_singleton comps c ih =>
    by_cases hthere : fs.isDir (comps ++ [c]) = true
    · obtain ⟨hnul, hdirs⟩ := isDir_iff.mp hthere
      rw [createDirAll_of_isDir hthere]
      refine iff_of_true rfl ⟨hnul, fun p hp => .inl (isDir_iff.mpr ⟨?_, ?_⟩)⟩
      · exact hasNul_mono hp hnul
      · exact fun q hq => hdirs q (hq.trans hp)
    have hgrown := (createDirAll_spec fs comps).1
    have hparts : (∀ p, p <+: comps ++ [c] → fs.MayEnter p) ↔
        (∀ p, p <+: comps → fs.MayEnter p) ∧ fs.MayEnter (comps ++ [c]) := by
      constructor
      · exact fun h => ⟨fun p hp => h p (hp.trans (List.prefix_append _ _)), h _ List.prefix_rfl⟩
      · rintro ⟨habove, hlast⟩ p hp
        rcases List.prefix_concat_iff.mp hp with rfl | hp
        · exact hlast
        · exact habove p hp
    have hnul_init : hasNul (comps ++ [c]) = false → hasNul comps = false :=
      hasNul_mono (List.prefix_append _ _)
    rw [hparts]
    constructor
    · intro h
      rw [createDirAll_concat] at h
      cases hmk : fs.mkdir (comps ++ [c]) with
      | ok fs' =>
        obtain ⟨name, -, hnul, hwalk, hdir, hfree, -⟩ := mkdir_inv hmk
        rw [List.dropLast_concat] at hwalk hdir
        have hinit : fs.isDir comps = true := by
          simp only [isDir, lookup, hwalk, hnul_init hnul, Bool.false_eq_true, if_false, hdir]
        refine ⟨hnul, fun p hp => .inl (isDir_iff.mpr ⟨?_, ?_⟩),
          .inr ⟨?_, fun a => by rw [hfree]; simp⟩⟩
        · exact hasNul_mono hp (isDir_iff.mp hinit).1
        · exact fun q hq => (isDir_iff.mp hinit).2 q (hq.trans hp)
        · exact (mkdir_attempted (.inl ⟨fs', hmk⟩)).2
      | error e =>
        rw [hmk] at h
        by_cases he : e = .notFound
        · subst he
          obtain ⟨hnul, hrefuses⟩ := mkdir_attempted (.inr hmk)
          by_cases hok : (fs.createDirAll comps).ok = true
          · refine ⟨hnul, (ih.mp hok).2, .inr ⟨hrefuses, fun a hfile => ?_⟩⟩
            -- the file would be in the way of the second attempt too
            have hkept : (fs.createDirAll comps).fs.node (locate (comps ++ [c])) =
                some (.file a) := by
              rcases hgrown.node (locate (comps ++ [c])) with hsame | ⟨hnone, -⟩
              · rw [hsame, hfile]
              · rw [hfile] at hnone
                cases hnone
            simp only [hok, if_true] at h
            cases hmk' : (fs.createDirAll comps).fs.mkdir (comps ++ [c]) with
            | ok fs' =>
              have hfree := (mkdir_eq_ok hmk').2.1
              rw [hkept] at hfree
              cases hfree
            | error e' =>
              simp only [hmk'] at h
              have hdir := node_of_isDir h
              rw [hkept] at hdir
              cases hdir
          · simp only [hok] at h
            exact absurd h hok
        · cases e <;> first | exact absurd rfl he | exact absurd h hthere
    · rintro ⟨hnul, habove, hlast⟩
      obtain ⟨hrefuses, hfree⟩ := hlast.resolve_left hthere
      have hok := ih.mpr ⟨hnul_init hnul, habove⟩
      have hfile : ∀ p, p <+: comps ++ [c] → ∀ a, fs.node (locate p) ≠ some (.file a) :=
        fun p hp => ((hparts.mpr ⟨habove, hlast⟩) p hp).not_file
      rw [createDirAll_concat]
      rcases mkdir_cases hnul hrefuses hfile with ⟨fs', hmk⟩ | hmk | ⟨-, hdir⟩
      · rw [hmk]
      · rw [hmk]
        simp only [hok, if_true]
        have hfile' : ∀ p, p <+: comps ++ [c] → ∀ a,
            (fs.createDirAll comps).fs.node (locate p) ≠ some (.file a) := by
          intro p hp a
          rcases hgrown.node (locate p) with hsame | ⟨-, hnew, -⟩
          · rw [hsame]
            exact hfile p hp a
          · simp [hnew]
        rcases mkdir_cases hnul (by rw [hgrown.refuses, hrefuses]) hfile' with
          ⟨fs', hmk'⟩ | hmk' | ⟨hmk', hdir⟩
        · rw [hmk']
        · -- nothing above is missing any more
          have hwalk := walk_createDirAll hok
          have hdir := createDirAll_ok hok
          exact absurd hmk' (mkdir_ne_notFound hwalk hdir)
        · rw [hmk']
          exact hdir
      · exact absurd hdir hthere

/-- **After a successful `createDirAll`** the directories are those that were there, and all
on the path. -/
theorem node_createDirAll_eq_dir_iff {fs : FileSystem α} {comps : List Component}
    (h : (fs.createDirAll comps).ok = true) {l : List String} :
    (fs.createDirAll comps).fs.node l = some .dir ↔
      fs.node l = some .dir ∨ ∃ p, p <+: comps ∧ locate p = l := by
  obtain ⟨hgrown, hpaths⟩ := createDirAll_spec fs comps
  constructor
  · intro hdir
    rcases hgrown.node l with hsame | ⟨-, -, p, hp, hloc⟩
    · exact .inl (hsame ▸ hdir)
    · exact .inr ⟨p, (hpaths p hp).1, hloc⟩
  · rintro (hold | ⟨p, hp, rfl⟩)
    · rcases hgrown.node l with hsame | ⟨hnone, -⟩
      · rw [hsame, hold]
      · rw [hold] at hnone
        cases hnone
    · by_cases heq : p = comps
      · rw [heq]
        exact createDirAll_ok h
      · exact (walk_eq_ok_iff.mp (walk_createDirAll h)).2 p hp heq

/-- `createDirAll` leaves the files. -/
theorem node_createDirAll_eq_file_iff {fs : FileSystem α} {comps : List Component}
    {l : List String} {a : α} :
    (fs.createDirAll comps).fs.node l = some (.file a) ↔ fs.node l = some (.file a) := by
  rcases (createDirAll_spec fs comps).1.node l with hsame | ⟨hnone, hnew, -⟩
  · rw [hsame]
  · simp [hnone, hnew]

/-- **The first missing directory of a path is created**, if nothing is refused. -/
theorem mem_created {fs : FileSystem α} {pre : List Component} {name : String}
    (suf : List Component) (hnul : hasNul (pre ++ [.normal name] ++ suf) = false)
    (hrefuses : ∀ comps, fs.refuses comps = false)
    (hwalk : fs.walk pre = .ok (locate pre)) (hdir : fs.node (locate pre) = some .dir)
    (hfree : fs.node (locate pre ++ [name]) = none) :
    pre ++ [.normal name] ∈ (fs.createDirAll (pre ++ [.normal name] ++ suf)).created := by
  have hpath := walk_concat (.normal name) hwalk hdir
  have hnone : fs.node (locate (pre ++ [.normal name])) = none := by
    rw [locate_concat]
    exact hfree
  induction suf using List.reverseRecOn with
  | nil =>
    rw [List.append_nil] at hnul ⊢
    rw [createDirAll_concat, mkdir_of_missing hnul (hrefuses _) hwalk hdir hfree]
    exact List.mem_singleton_self _
  | append_singleton suf c ih =>
    rw [← List.append_assoc] at hnul ⊢
    have hinit : hasNul (pre ++ [.normal name] ++ suf) = false := by
      rw [hasNul, List.any_append, Bool.or_eq_false_iff] at hnul
      exact hnul.1
    have hmem := ih hinit
    rw [createDirAll_concat, mkdir_eq_notFound hnul (hrefuses _) hpath hnone]
    by_cases hok : (fs.createDirAll (pre ++ [.normal name] ++ suf)).ok = true
    · cases hmk : (fs.createDirAll (pre ++ [.normal name] ++ suf)).fs.mkdir
          (pre ++ [.normal name] ++ suf ++ [c]) with
      | ok fs' => simpa only [hok, if_true] using List.mem_append_left _ hmem
      | error e => simpa only [hok, if_true] using hmem
    · simpa only [hok, Bool.false_eq_true, if_false] using hmem

/-! ### Straight down from the root -/

/-- The path that leads down from the root through the given names. -/
def down (names : List String) : List Component := .rootDir :: names.map .normal

@[simp] theorem locate_down (names : List String) : locate (down names) = names := by
  have h := locate_append_normal [.rootDir] names
  simpa [down, locate, enter] using h

theorem down_concat (names : List String) (name : String) :
    down (names ++ [name]) = down names ++ [.normal name] := by
  simp [down]

theorem hasNul_down {names : List String} (h : ∀ n ∈ names, IsName n) :
    hasNul (down names) = false := by
  simp only [hasNul, down, List.any_cons, List.any_map, Bool.false_or, List.any_eq_false]
  intro n hn
  simpa using (h n hn).2.2.2.2

/-- An initial part of such a path leads above its end. -/
theorem locate_prefix_down {p : List Component} {names : List String} (h : p <+: down names) :
    locate p <+: names := by
  obtain ⟨rest, hrest⟩ := h
  cases p with
  | nil => exact List.nil_prefix
  | cons c p =>
    obtain ⟨rfl, htail⟩ := List.cons_eq_cons.mp hrest
    obtain ⟨ns, ns', hns, rfl, -⟩ := List.map_eq_append_iff.mp htail.symm
    have hloc : locate (.rootDir :: ns.map .normal) = ns := locate_down ns
    rw [hloc, hns]
    exact List.prefix_append _ _

/-- What leads to a directory can be followed. -/
theorem walk_down {fs : FileSystem α} {names : List String} (h : fs.node names = some .dir) :
    fs.walk (down names) = .ok names := by
  have hdirs : ∀ ns, ns <+: names → fs.node ns = some .dir := by
    intro ns hns
    by_cases heq : ns = names
    · rw [heq, h]
    · exact fs.node_of_prefix hns heq (by rw [h]; rfl)
  exact walk_eq_ok_iff.mpr ⟨by simp, fun p hp _ => hdirs _ (locate_prefix_down hp)⟩

/-- Making a directory makes nothing below it. -/
theorem node_createDirAll_concat {fs : FileSystem α} {names : List String} {name : String}
    (h : fs.node (names ++ [name]) = none) :
    (fs.createDirAll (down names)).fs.node (names ++ [name]) = none := by
  obtain ⟨hgrown, hmem⟩ := createDirAll_spec fs (down names)
  rcases hgrown.node (names ++ [name]) with hsame | ⟨-, -, p, hp, hloc⟩
  · rw [hsame, h]
  · -- a directory it makes is at most as deep
    have hdeep := (locate_prefix_down (hmem p hp).1).length_le
    rw [hloc, List.length_append, List.length_singleton] at hdeep
    omega

/-- **`createDirAll` succeeds where no file is in the way** and nothing is
refused. -/
theorem createDirAll_down {fs : FileSystem α} {names : List String}
    (hnames : ∀ n ∈ names, IsName n) (hrefuses : ∀ comps, fs.refuses comps = false)
    (hfile : ∀ ns, ns <+: names → ∀ a, fs.node ns ≠ some (.file a)) :
    (fs.createDirAll (down names)).ok = true :=
  createDirAll_ok_iff.mpr ⟨hasNul_down hnames, fun p hp =>
    .inr ⟨hrefuses p, hfile _ (locate_prefix_down hp)⟩⟩

/-! ### A file system of directories -/

/-- The file system that has the given directories, those above them, and nothing
else. -/
def ofDirs (dirs : List (List String)) : FileSystem α where
  node l := if l = [] ∨ ∃ d ∈ dirs, l <+: d then some .dir else none
  node_nil := by simp
  node_dir := by
    intro l name h
    by_cases hl : l ++ [name] = [] ∨ ∃ d ∈ dirs, l ++ [name] <+: d
    · obtain ⟨d, hd, hpre⟩ := hl.resolve_left (by simp)
      exact if_pos (.inr ⟨d, hd, (List.prefix_append _ _).trans hpre⟩)
    · rw [if_neg hl] at h
      exact absurd h (by simp)
  refuses _ := false

theorem node_ofDirs_of_mem {dirs : List (List String)} {d l : List String} (hd : d ∈ dirs)
    (hl : l <+: d) : (ofDirs dirs : FileSystem α).node l = some .dir :=
  if_pos (.inr ⟨d, hd, hl⟩)

theorem node_ofDirs_eq_none {dirs : List (List String)} {l : List String} (hne : l ≠ [])
    (h : ∀ d ∈ dirs, ¬ l <+: d) : (ofDirs dirs : FileSystem α).node l = none :=
  if_neg (by
    rintro (hl | ⟨d, hd, hl⟩)
    · exact hne hl
    · exact h d hd hl)

end FileSystem
