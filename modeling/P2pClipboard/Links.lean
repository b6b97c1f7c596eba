import P2pClipboard.Lib.Ways
import P2pClipboard.Selection

/-!
# Collecting a directory that has links in it

`collect_dir_files` of `src/main.rs` asks `is_file` and `is_dir` about the path of
each entry, and both follow symbolic links.  What it walks through is therefore a
graph and no tree.  A name goes into the entries as a text, in which whatever is not
Unicode has been replaced.

The file systems are graphs here: directories have entries, an entry is what it is
or a link to something else, and paths are resolved component by component.

## Main definitions

* `DirView`, `collectDirReads` — the code over any kind of path, each entry with the
  path it was read from.
* `LinkGraph`, `LinkGraph.resolve`, `LinkGraph.view` — file systems with links.
* `CollectsOnce` — the recursion ends, no file is read twice and no two entries have
  the same name.

## Main results

* `collectDirFiles_eq_collectDirReads` — on texts this is the code of the selection.
* `LinkGraph.collectDirReads_eq` — the code unfolds the graph.
* `collectsOnce_iff` — **a directory is collected once if and only if no cycle and no
  second way to a file lies below it, and its files have different names as texts.**
-/

namespace P2pClipboard

open UnixPath

/-! ### The functions -/

/-- What the file system answers, whatever a path is.  An entry of a directory comes
with its path, and with its name as a text. -/
structure DirView (π : Type*) where
  /-- `Path::is_file`. -/
  isFile : π → Bool
  /-- `Path::is_dir`. -/
  isDir : π → Bool
  /-- `fs::read`. -/
  read : π → Option Bytes
  /-- `fs::read_dir`, with `path()` and `file_name().to_string_lossy()` of each
  entry. -/
  readDir : π → Option (List (Option (π × String)))

variable {π : Type*}

/-- One entry of a directory. -/
def visitDirEntry (view : DirView π) (collect : π → String → Option (List (π × FileEntry)))
    (pfx : String) : Option (π × String) → Option (List (π × FileEntry))
  | none => some []
  | some (path, name) =>
      let relativeName := pfx ++ "/" ++ name
      if view.isFile path then
        some ((view.read path).toList.map fun bytes => (path, ⟨relativeName, bytes⟩))
      else if view.isDir path then collect path relativeName
      else some []

/-- `collect_dir_files`: the entries it appends, each with the path it was read from,
or `none` when the budget of nested calls runs out. -/
def collectDirReads (view : DirView π) : ℕ → π → String → Option (List (π × FileEntry))
  | 0, _, _ => none
  | fuel + 1, dir, pfx =>
      match view.readDir dir with
      | none => some []
      | some entries =>
          (entries.mapM (visitDirEntry view (collectDirReads view fuel) pfx)).map List.flatten

/-- The code at a directory that can be listed. -/
theorem collectDirReads_succ {view : DirView π} {dir : π} {entries : List (Option (π × String))}
    (h : view.readDir dir = some entries) (fuel : ℕ) (pfx : String) :
    collectDirReads view (fuel + 1) dir pfx =
      (entries.mapM (visitDirEntry view (collectDirReads view fuel) pfx)).map List.flatten := by
  rw [collectDirReads, h]

/-- Paths that are texts: an entry's path is its name joined to the directory. -/
def FsView.toDirView (view : FsView) : DirView String where
  isFile := view.isFile
  isDir := view.isDir
  read := view.read
  readDir dir := (view.readDir dir).map (List.map (Option.map fun name => (join dir name, name)))

@[simp] theorem FsView.isFile_toDirView (view : FsView) (path : String) :
    view.toDirView.isFile path = view.isFile path := rfl

@[simp] theorem FsView.isDir_toDirView (view : FsView) (path : String) :
    view.toDirView.isDir path = view.isDir path := rfl

@[simp] theorem FsView.read_toDirView (view : FsView) (path : String) :
    view.toDirView.read path = view.read path := rfl

@[simp] theorem FsView.readDir_toDirView (view : FsView) (dir : String) :
    view.toDirView.readDir dir =
      (view.readDir dir).map (List.map (Option.map fun name => (join dir name, name))) := rfl

/-- **On texts this is the code of the selection.** -/
theorem collectDirFiles_eq_collectDirReads (view : FsView) (fuel : ℕ) (dir pfx : String) :
    collectDirFiles view fuel dir pfx =
      (collectDirReads view.toDirView fuel dir pfx).map (List.map Prod.snd) := by
  induction fuel generalizing dir pfx with
  | zero => rfl
  | succ fuel ih =>
    cases hnames : view.readDir dir with
    | none => simp [collectDirFiles, collectDirReads, hnames]
    | some names =>
      have hentries : view.toDirView.readDir dir =
          some (names.filterMap fun entry => some (entry.map fun name => (join dir name, name))) := by
        simp [hnames]
      have hfiles : collectDirFiles view (fuel + 1) dir pfx =
          (names.mapM (visitEntry view (collectDirFiles view fuel) dir pfx)).map List.flatten := by
        rw [collectDirFiles, hnames]
      rw [hfiles, collectDirReads_succ hentries]
      refine Loops.mapM_flatten_filterMap (fun _ _ h => absurd h (by simp)) ?_
      intro entry _ d hd
      obtain rfl := Option.some.inj hd
      cases entry with
      | none => rfl
      | some name =>
        simp only [visitEntry, Option.map_some, visitDirEntry, FsView.isFile_toDirView,
          FsView.isDir_toDirView, FsView.read_toDirView]
        by_cases hfile : view.isFile (join dir name) = true
        · simp [hfile, Function.comp_def]
        · by_cases hdir : view.isDir (join dir name) = true
          · simpa [hfile, hdir] using ih (join dir name) (pfx ++ "/" ++ name)
          · simp [hfile, hdir]

/-! ### File systems with links -/

/-- A component of a path, names as the operating system has them. -/
inductive OsComponent
  | rootDir
  | curDir
  | parentDir
  | normal (name : Bytes)
  deriving DecidableEq, Repr

/-- A name of an entry: not empty, no dots alone, no slash and no NUL in it. -/
def IsOsName (name : Bytes) : Prop :=
  name ≠ [] ∧ name ≠ [0x2e] ∧ name ≠ [0x2e, 0x2e] ∧ (0x2f : UInt8) ∉ name ∧ (0 : UInt8) ∉ name

instance (name : Bytes) : Decidable (IsOsName name) :=
  inferInstanceAs (Decidable (_ ∧ _ ∧ _ ∧ _ ∧ _))

/-- An entry of a directory. -/
inductive LinkEntry (ν : Type*)
  /-- A file or a directory itself. -/
  | hard (v : ν)
  /-- A symbolic link; it may lead nowhere. -/
  | symlink (target : Option ν)
  deriving DecidableEq, Repr

/-- What the entry is once links are followed. -/
def LinkEntry.target {ν : Type*} : LinkEntry ν → Option ν
  | .hard v => some v
  | .symlink target => target

/-- What a node of a file system is. -/
inductive LinkNode (ν : Type*)
  /-- A regular file. -/
  | file (bytes : Bytes)
  /-- A directory, and the one above it. -/
  | dir (entries : List (Bytes × LinkEntry ν)) (parent : ν)
  /-- A device, a pipe or a socket. -/
  | other

namespace LinkNode

variable {ν : Type*}

/-- The entries, if it is a directory. -/
def entries : LinkNode ν → List (Bytes × LinkEntry ν)
  | .dir entries _ => entries
  | _ => []

def isFile : LinkNode ν → Bool
  | .file _ => true
  | _ => false

def isDir : LinkNode ν → Bool
  | .dir _ _ => true
  | _ => false

end LinkNode

/-- A file system whose directories may have links in them. -/
structure LinkGraph (ν : Type*) where
  /-- What each node is. -/
  node : ν → LinkNode ν
  /-- The files and directories that may be read. -/
  readable : ν → Bool
  /-- Where absolute paths start. -/
  root : ν
  /-- Where relative paths start. -/
  cwd : ν
  /-- The entries of a directory have names. -/
  isOsName : ∀ {v e}, e ∈ (node v).entries → IsOsName e.1
  /-- No two entries of a directory have the same name. -/
  nodup_names : ∀ v, ((node v).entries.map Prod.fst).Nodup

namespace LinkGraph

variable {ν : Type*} (G : LinkGraph ν)

/-- What a name in a directory leads to. -/
def child (v : ν) (name : Bytes) : Option ν :=
  ((G.node v).entries.lookup name).bind LinkEntry.target

/-- Where a component leads. -/
def enter (v : ν) : OsComponent → Option ν
  | .rootDir => some G.root
  | .curDir => if (G.node v).isDir then some v else none
  | .parentDir =>
      match G.node v with
      | .dir _ parent => some parent
      | _ => none
  | .normal name => G.child v name

/-- What a path leads to. -/
def resolve (path : List OsComponent) : Option ν := path.foldlM G.enter G.cwd

/-- What can be read of a file. -/
def content (v : ν) : Option Bytes :=
  match G.node v with
  | .file bytes => if G.readable v then some bytes else none
  | _ => none

/-- The answers of the file system. -/
def view : DirView (List OsComponent) where
  isFile path := (G.resolve path).any fun v => (G.node v).isFile
  isDir path := (G.resolve path).any fun v => (G.node v).isDir
  read path := (G.resolve path).bind G.content
  readDir path :=
    (G.resolve path).bind fun v =>
      if (G.node v).isDir && G.readable v then
        some ((G.node v).entries.map fun e => some (path ++ [.normal e.1], fromUtf8Lossy e.1))
      else none

/-- What reading the directories makes of the file system: its entries with links
followed. -/
def labelled : LabelledGraph ν Bytes where
  edges v :=
    if G.readable v then (G.node v).entries.filterMap fun e => e.2.target.map (e.1, ·) else []
  leaf v := (G.content v).isSome
  inner v := (G.node v).isDir
  nodup_edges v := by
    split_ifs
    · refine List.Nodup.sublist ?_ (G.nodup_names v)
      induction (G.node v).entries with
      | nil => exact List.Sublist.slnil
      | cons e es ih =>
        cases htarget : e.2.target with
        | none => simpa [List.filterMap_cons, htarget] using ih.cons e.1
        | some w => simpa [List.filterMap_cons, htarget] using ih
    · exact List.nodup_nil
  inner_of_mem := by
    intro v e h
    cases hnode : G.node v with
    | dir entries parent => rfl
    | file bytes => simp [hnode, LinkNode.entries] at h
    | other => simp [hnode, LinkNode.entries] at h
  inner_of_leaf := by
    intro v h
    cases hnode : G.node v with
    | dir entries parent => simp [content, hnode] at h
    | file bytes => rfl
    | other => rfl

/-- A way from a directory to a file that can be read, through names of entries. -/
def IsWay (v : ν) (names : List Bytes) (u : ν) : Prop :=
  (G.content u).isSome = true ∧ G.labelled.walk v names = some u

/-- No directory below `v` is below itself. -/
def Acyclic (v : ν) : Prop := G.labelled.Acyclic v

/-- Every file below `v` is there once only. -/
def OneWay (v : ν) : Prop :=
  ∀ names names' u, G.IsWay v names u → G.IsWay v names' u → names = names'

/-- The names on the ways to two files below `v` differ as texts too. -/
def ReadsApart (v : ν) : Prop :=
  ∀ names names' u u', G.IsWay v names u → G.IsWay v names' u' →
    names.map fromUtf8Lossy = names'.map fromUtf8Lossy → names = names'

end LinkGraph

/-- The recursion over a directory ends, no regular file is read twice, and no two
entries have the same name. -/
def CollectsOnce {ν : Type*} (G : LinkGraph ν) (dir : List OsComponent) (pfx : String) : Prop :=
  ∃ fuel reads, collectDirReads G.view fuel dir pfx = some reads ∧
    reads.Pairwise fun r s => G.resolve r.1 ≠ G.resolve s.1 ∧ r.2.name ≠ s.2.name

namespace LinkGraph

variable {ν : Type*} {G : LinkGraph ν}

/-! ### Following names -/

theorem resolve_concat (path : List OsComponent) (c : OsComponent) :
    G.resolve (path ++ [c]) = (G.resolve path).bind (G.enter · c) := by
  simp [resolve, List.foldlM_append]

/-- The name of an entry leads to what the entry is. -/
theorem child_of_mem {v : ν} {e : Bytes × LinkEntry ν} (h : e ∈ (G.node v).entries) :
    G.child v e.1 = e.2.target := by
  rw [child, (LabelledGraph.lookup_eq_some_iff_mem (G.nodup_names v)).mpr h]
  rfl

/-- An edge of the graph is a name in a directory that may be read. -/
theorem mem_edges {v w : ν} {name : Bytes} :
    (name, w) ∈ G.labelled.edges v ↔
      G.readable v = true ∧ ∃ entry, (name, entry) ∈ (G.node v).entries ∧
        entry.target = some w := by
  show (name, w) ∈ (if G.readable v then _ else _) ↔ _
  split_ifs with hread
  · simp [hread]
  · simp [hread]

/-- A way through names is followed by the path that ends in these names. -/
theorem resolve_of_walk {v u : ν} {names : List Bytes} {path : List OsComponent}
    (hpath : G.resolve path = some v) (h : G.labelled.walk v names = some u) :
    G.resolve (path ++ names.map .normal) = some u := by
  induction names generalizing v path with
  | nil =>
    obtain rfl := Option.some.inj h
    simpa using hpath
  | cons name names ih =>
    obtain ⟨w, hw, hwalk⟩ := LabelledGraph.walk_cons_eq_some _ |>.mp h
    obtain ⟨-, entry, hentry, htarget⟩ := mem_edges.mp hw
    have hnext : G.resolve (path ++ [.normal name]) = some w := by
      rw [resolve_concat, hpath, Option.bind_some, ← htarget]
      exact child_of_mem hentry
    simpa using ih hnext hwalk

/-- The names on a way are names of entries. -/
theorem isOsName_of_walk {v u : ν} {names : List Bytes} (h : G.labelled.walk v names = some u) :
    ∀ name ∈ names, IsOsName name := by
  induction names generalizing v with
  | nil => exact fun _ hname => absurd hname List.not_mem_nil
  | cons first names ih =>
    obtain ⟨w, hw, hwalk⟩ := LabelledGraph.walk_cons_eq_some _ |>.mp h
    obtain ⟨-, entry, hentry, -⟩ := mem_edges.mp hw
    intro name hname
    rcases List.mem_cons.mp hname with rfl | hname
    · exact G.isOsName hentry
    · exact ih hwalk name hname

/-! ### The code unfolds the graph -/

/-- The entry for a file below a directory, with the path it is read from. -/
def readAt (G : LinkGraph ν) (path : List OsComponent) (pfx : String) (p : List Bytes × ν) :
    List OsComponent × FileEntry :=
  (path ++ p.1.map .normal,
    ⟨pfx ++ "/" ++ "/".intercalate (p.1.map fromUtf8Lossy), (G.content p.2).getD []⟩)

/-- What is below a name is found through that name. -/
theorem readAt_cons {path : List OsComponent} {pfx : String} {name : Bytes}
    {p : List Bytes × ν} (hp : p.1 ≠ []) :
    G.readAt (path ++ [.normal name]) (pfx ++ "/" ++ fromUtf8Lossy name) p =
      G.readAt path pfx (Prod.map (name :: ·) id p) := by
  have hne : p.1.map fromUtf8Lossy ≠ [] := by simpa using hp
  simp [readAt, String.intercalate_cons_of_ne_nil hne, String.append_assoc]

/-- A name that leads nowhere is passed over. -/
theorem visitDirEntry_of_none {path : List OsComponent} {pfx name : String}
    (collect : List OsComponent → String → Option (List (List OsComponent × FileEntry)))
    (h : G.resolve path = none) :
    visitDirEntry G.view collect pfx (some (path, name)) = some [] := by
  simp [visitDirEntry, view, h]

/-- The code at a name that leads to a node. -/
theorem visitDirEntry_of_some {path : List OsComponent} {pfx name : String} {w : ν}
    (collect : List OsComponent → String → Option (List (List OsComponent × FileEntry)))
    (h : G.resolve path = some w) :
    visitDirEntry G.view collect pfx (some (path, name)) =
      if (G.node w).isFile then
        some ((G.content w).toList.map fun bytes => (path, ⟨pfx ++ "/" ++ name, bytes⟩))
      else if (G.node w).isDir then collect path (pfx ++ "/" ++ name)
      else some [] := by
  simp [visitDirEntry, view, h]

/-- The names that can be read of a directory. -/
theorem readDir_view {path : List OsComponent} {v : ν} (h : G.resolve path = some v)
    (hdir : (G.node v).isDir = true) (hread : G.readable v = true) :
    G.view.readDir path =
      some ((G.node v).entries.map fun e =>
        some (path ++ [.normal e.1], fromUtf8Lossy e.1)) := by
  simp [view, h, hdir, hread]

/-- One step of the unfolding: what an entry contributes is what the edge does. -/
theorem visitDirEntry_eq {path : List OsComponent} {v w : ν} {e : Bytes × LinkEntry ν}
    {fuel : ℕ} {pfx : String} (h : G.resolve path = some v) (he : e ∈ (G.node v).entries)
    (hw : e.2.target = some w)
    (hcollect : ∀ {path v}, G.resolve path = some v → (G.node v).isDir = true → ∀ pfx,
      collectDirReads G.view fuel path pfx =
        (G.labelled.ways fuel v).map (List.map (G.readAt path pfx))) :
    visitDirEntry G.view (collectDirReads G.view fuel) pfx
        (some (path ++ [.normal e.1], fromUtf8Lossy e.1)) =
      (G.labelled.below (G.labelled.ways fuel) (e.1, w)).map (List.map (G.readAt path pfx)) := by
  have hnext : G.resolve (path ++ [.normal e.1]) = some w := by
    rw [resolve_concat, h, Option.bind_some, ← hw]
    exact child_of_mem he
  have hleaf : G.labelled.leaf w = (G.content w).isSome := rfl
  have hinner : G.labelled.inner w = (G.node w).isDir := rfl
  rw [visitDirEntry_of_some _ hnext, LabelledGraph.below, hleaf, hinner]
  cases hnode : G.node w with
  | file bytes =>
    cases hread : G.readable w <;>
      simp [LinkNode.isFile, LinkNode.isDir, content, hnode, hread, readAt, String.intercalate_singleton]
  | other => simp [LinkNode.isFile, LinkNode.isDir, content, hnode]
  | dir entries parent =>
    have hdir : (G.node w).isDir = true := by rw [hnode]; rfl
    have hcontent : G.content w = none := by simp [content, hnode]
    rw [hcontent, hcollect hnext hdir]
    simp only [LinkNode.isFile, LinkNode.isDir, Option.isSome_none, Bool.false_eq_true, if_false,
      if_true, Option.map_map]
    cases hways : G.labelled.ways fuel w with
    | none => rfl
    | some l =>
      simp only [Option.map_some, Function.comp_apply, List.map_map]
      refine congrArg some (List.map_congr_left fun p hp => ?_)
      exact readAt_cons ((LabelledGraph.mem_ways hways).mp hp).1

/-- **The code unfolds the graph**, and writes down what it finds. -/
theorem collectDirReads_eq {path : List OsComponent} {v : ν} (h : G.resolve path = some v)
    (hdir : (G.node v).isDir = true) (fuel : ℕ) (pfx : String) :
    collectDirReads G.view fuel path pfx =
      (G.labelled.ways fuel v).map (List.map (G.readAt path pfx)) := by
  induction fuel generalizing path v pfx with
  | zero => rfl
  | succ fuel ih =>
    by_cases hread : G.readable v = true
    · have hedges : G.labelled.edges v =
          (G.node v).entries.filterMap fun e => e.2.target.map (e.1, ·) := if_pos hread
      rw [collectDirReads_succ (readDir_view h hdir hread), LabelledGraph.ways, hedges,
        List.mapM_map]
      -- a name that leads nowhere is no edge, and contributes nothing
      refine Loops.mapM_flatten_filterMap ?_ ?_
      · intro e he hnone
        refine visitDirEntry_of_none _ ?_
        rw [resolve_concat, h, Option.bind_some]
        exact (child_of_mem he).trans (Option.map_eq_none_iff.mp hnone)
      · intro e he d hd
        obtain ⟨w, hw, rfl⟩ := Option.map_eq_some_iff.mp hd
        exact visitDirEntry_eq h he hw ih
    · have hnone : G.view.readDir path = none := by simp [view, h, hread]
      have hedges : G.labelled.edges v = [] := if_neg hread
      rw [collectDirReads, hnone, LabelledGraph.ways, hedges]
      rfl

/-! ### Files and names -/

/-- The text of an entry tells the texts of the names on the way to it. -/
theorem map_fromUtf8Lossy_of_name_eq {path : List OsComponent} {pfx : String}
    {p q : List Bytes × ν} (hp : p.1 ≠ []) (hq : q.1 ≠ [])
    (hpname : ∀ name ∈ p.1, IsOsName name) (hqname : ∀ name ∈ q.1, IsOsName name)
    (h : (G.readAt path pfx p).2.name = (G.readAt path pfx q).2.name) :
    p.1.map fromUtf8Lossy = q.1.map fromUtf8Lossy := by
  have hslash : ∀ {names : List Bytes}, (∀ name ∈ names, IsOsName name) →
      ∀ text ∈ names.map fromUtf8Lossy, '/' ∉ text.toList := by
    intro names hnames text htext hmem
    obtain ⟨name, hname, rfl⟩ := List.mem_map.mp htext
    exact (hnames name hname).2.2.2.1 (mem_of_mem_fromUtf8Lossy (by decide) hmem)
  have hjoined : "/".intercalate (p.1.map fromUtf8Lossy) =
      "/".intercalate (q.1.map fromUtf8Lossy) := by
    simpa [readAt] using h
  rw [← segments_intercalate_of_not_mem (by simpa using hp) (hslash hpname), hjoined,
    segments_intercalate_of_not_mem (by simpa using hq) (hslash hqname)]

/-- The ways to the files below a directory are those that are unfolded. -/
theorem isWay_iff_mem {v u : ν} {fuel : ℕ} {l : List (List Bytes × ν)} {names : List Bytes}
    (hdir : (G.node v).isDir = true) (hl : G.labelled.ways fuel v = some l) :
    G.IsWay v names u ↔ (names, u) ∈ l := by
  rw [LabelledGraph.mem_ways hl]
  refine ⟨fun hway => ⟨?_, hway.1, hway.2⟩, fun hway => ⟨hway.2.1, hway.2.2⟩⟩
  rintro rfl
  obtain rfl := Option.some.inj hway.2
  have hinner : G.labelled.inner v = false := G.labelled.inner_of_leaf hway.1
  exact absurd (hinner.symm.trans hdir) (by simp)

/-- What is found is read from where it is. -/
theorem resolve_readAt {path : List OsComponent} {v : ν} {fuel : ℕ} {l : List (List Bytes × ν)}
    {p : List Bytes × ν} (h : G.resolve path = some v) (hl : G.labelled.ways fuel v = some l)
    (pfx : String) (hp : p ∈ l) : G.resolve (G.readAt path pfx p).1 = some p.2 :=
  resolve_of_walk h ((LabelledGraph.mem_ways hl).mp hp).2.2

/-- The files that an unfolding has found differ, and so do their names, if and only
if the graph has one way to each and the names on the ways differ. -/
theorem pairwise_readAt_iff {path : List OsComponent} {v : ν} {fuel : ℕ} {pfx : String}
    {l : List (List Bytes × ν)} (h : G.resolve path = some v) (hdir : (G.node v).isDir = true)
    (hl : G.labelled.ways fuel v = some l) :
    (l.map (G.readAt path pfx)).Pairwise (fun r s => G.resolve r.1 ≠ G.resolve s.1 ∧
      r.2.name ≠ s.2.name) ↔ G.OneWay v ∧ G.ReadsApart v := by
  rw [List.pairwise_map]
  constructor
  · intro hpair
    have hsymm : Std.Symm fun p q : List Bytes × ν =>
        G.resolve (G.readAt path pfx p).1 ≠ G.resolve (G.readAt path pfx q).1 ∧
          (G.readAt path pfx p).2.name ≠ (G.readAt path pfx q).2.name :=
      ⟨fun p q hpq => ⟨hpq.1.symm, hpq.2.symm⟩⟩
    constructor
    · intro names names' u hway hway'
      by_contra hne
      have hp := (isWay_iff_mem hdir hl).mp hway
      have hq := (isWay_iff_mem hdir hl).mp hway'
      have hpq := hpair.forall hp hq fun heq => hne (congrArg Prod.fst heq)
      exact hpq.1 ((resolve_readAt h hl pfx hp).trans (resolve_readAt h hl pfx hq).symm)
    · intro names names' u u' hway hway' htext
      by_contra hne
      have hp := (isWay_iff_mem hdir hl).mp hway
      have hq := (isWay_iff_mem hdir hl).mp hway'
      have hpq := hpair.forall hp hq fun heq => hne (congrArg Prod.fst heq)
      exact hpq.2 (by simp [readAt, htext])
  · rintro ⟨honce, hapart⟩
    have hnodup : l.Pairwise fun p q => p.1 ≠ q.1 :=
      List.pairwise_map.mp (LabelledGraph.nodup_ways hl)
    refine hnodup.imp_of_mem ?_
    rintro ⟨names, u⟩ ⟨names', u'⟩ hp hq hne
    have hway := (isWay_iff_mem hdir hl).mpr hp
    have hway' := (isWay_iff_mem hdir hl).mpr hq
    constructor
    · rw [resolve_readAt h hl pfx hp, resolve_readAt h hl pfx hq]
      intro heq
      obtain rfl : u = u' := Option.some.inj heq
      exact hne (honce names names' u hway hway')
    · intro hname
      have hpne := ((LabelledGraph.mem_ways hl).mp hp).1
      have hqne := ((LabelledGraph.mem_ways hl).mp hq).1
      have htext := map_fromUtf8Lossy_of_name_eq hpne hqne (isOsName_of_walk hway.2)
        (isOsName_of_walk hway'.2) hname
      exact hne (hapart names names' u u' hway hway' htext)

end LinkGraph

variable {ν : Type*} {G : LinkGraph ν}

/-- A directory with a cycle below it is never collected: every budget runs out. -/
theorem collectDirReads_eq_none [Finite ν] {path : List OsComponent} {v : ν}
    (h : G.resolve path = some v) (hdir : (G.node v).isDir = true) (hcycle : ¬ G.Acyclic v)
    (fuel : ℕ) (pfx : String) : collectDirReads G.view fuel path pfx = none := by
  rw [LinkGraph.collectDirReads_eq h hdir]
  cases hways : G.labelled.ways fuel v with
  | none => rfl
  | some l => exact absurd ((LabelledGraph.exists_ways_iff hdir).mp ⟨fuel, l, hways⟩) hcycle

/-- What a directory that is collected once must be like. -/
theorem CollectsOnce.spec [Finite ν] {dir : List OsComponent} {v : ν}
    (h : G.resolve dir = some v) (hdir : (G.node v).isDir = true) {pfx : String}
    (hcollects : CollectsOnce G dir pfx) : G.Acyclic v ∧ G.OneWay v ∧ G.ReadsApart v := by
  obtain ⟨fuel, reads, hreads, hpair⟩ := hcollects
  rw [LinkGraph.collectDirReads_eq h hdir] at hreads
  obtain ⟨l, hl, rfl⟩ := Option.map_eq_some_iff.mp hreads
  exact ⟨(LabelledGraph.exists_ways_iff hdir).mp ⟨fuel, l, hl⟩,
    (LinkGraph.pairwise_readAt_iff h hdir hl).mp hpair⟩

/-- **A directory is collected once if and only if nothing below it is below itself,
no file below it is there twice, and the names that lead to its files differ as
texts.** -/
theorem collectsOnce_iff [Finite ν] {dir : List OsComponent} {v : ν}
    (h : G.resolve dir = some v) (hdir : (G.node v).isDir = true) (pfx : String) :
    CollectsOnce G dir pfx ↔ G.Acyclic v ∧ G.OneWay v ∧ G.ReadsApart v := by
  constructor
  · exact CollectsOnce.spec h hdir
  · rintro ⟨hacyclic, hapart⟩
    obtain ⟨fuel, l, hl⟩ := (LabelledGraph.exists_ways_iff hdir).mpr hacyclic
    refine ⟨fuel, l.map (G.readAt dir pfx), ?_, ?_⟩
    · rw [LinkGraph.collectDirReads_eq h hdir, hl]
      rfl
    · exact (LinkGraph.pairwise_readAt_iff h hdir hl).mpr hapart

/-- A file `a` and a link `b` to a directory `c` with the file `a` in it, below
`docs`. -/
private def linkedDocs : LinkGraph (Fin 5) where
  node
    | 0 => .dir [(utf8 "docs", .hard 1), (utf8 "c", .hard 3)] 0
    | 1 => .dir [(utf8 "a", .hard 2), (utf8 "b", .symlink (some 3))] 0
    | 2 => .file [1]
    | 3 => .dir [(utf8 "a", .hard 4)] 0
    | 4 => .file [2]
  readable _ := true
  root := 0
  cwd := 0
  isOsName := by decide +kernel
  nodup_names := by decide +kernel

private def linkedDocsReads : List (List OsComponent × FileEntry) :=
  [([.rootDir, .normal (utf8 "docs"), .normal (utf8 "a")], ⟨"docs/a", [1]⟩),
    ([.rootDir, .normal (utf8 "docs"), .normal (utf8 "b"), .normal (utf8 "a")], ⟨"docs/b/a", [2]⟩)]

theorem collectsOnce_iff_linked :
    CollectsOnce linkedDocs [.rootDir, .normal (utf8 "docs")] "docs" ∧
      linkedDocs.Acyclic 1 ∧ linkedDocs.OneWay 1 ∧ linkedDocs.ReadsApart 1 := by
  have hdocs : linkedDocs.resolve [.rootDir, .normal (utf8 "docs")] = some 1 := by decide +kernel
  have hreads : CollectsOnce linkedDocs [.rootDir, .normal (utf8 "docs")] "docs" :=
    ⟨3, linkedDocsReads, by decide +kernel, by decide +kernel⟩
  exact ⟨hreads, (collectsOnce_iff hdocs (by decide +kernel) "docs").mp hreads⟩

/-- A directory `docs` with a link to itself. -/
private def selfLinked : LinkGraph Bool where
  node
    | false => .dir [(utf8 "docs", .hard true)] false
    | true => .dir [(utf8 "again", .symlink (some true))] false
  readable _ := true
  root := false
  cwd := false
  isOsName := by decide +kernel
  nodup_names := by decide +kernel

/-- A directory `docs` with a file `a` and a link `b` to it. -/
private def twiceLinked : LinkGraph (Fin 3) where
  node
    | 0 => .dir [(utf8 "docs", .hard 1)] 0
    | 1 => .dir [(utf8 "a", .hard 2), (utf8 "b", .symlink (some 2))] 0
    | 2 => .file [1]
  readable _ := true
  root := 0
  cwd := 0
  isOsName := by decide +kernel
  nodup_names := by decide +kernel

/-- **A link to the directory it is in** sends the recursion round and round, and **a link to
a file beside it** makes it read the file twice. -/
theorem not_collectsOnce_linked :
    ¬ CollectsOnce selfLinked [.rootDir, .normal (utf8 "docs")] "docs" ∧
      ¬ CollectsOnce twiceLinked [.rootDir, .normal (utf8 "docs")] "docs" := by
  constructor
  · rintro ⟨fuel, reads, hreads, -⟩
    have hcycle : ¬ selfLinked.Acyclic true := by
      intro hacyclic
      have hnil := hacyclic [] true rfl [utf8 "again"] (by decide +kernel)
      exact absurd hnil (by simp)
    rw [collectDirReads_eq_none (by decide +kernel : _ = some true) rfl hcycle] at hreads
    exact absurd hreads (by simp)
  · intro hcollects
    have hdocs : twiceLinked.resolve [.rootDir, .normal (utf8 "docs")] = some 1 := by
      decide +kernel
    obtain ⟨-, hone, -⟩ := hcollects.spec hdocs rfl
    have hsame := hone [utf8 "a"] [utf8 "b"] 2 ⟨by decide +kernel, by decide +kernel⟩
      ⟨by decide +kernel, by decide +kernel⟩
    exact absurd hsame (by decide)

end P2pClipboard
