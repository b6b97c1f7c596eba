import P2pClipboard.Lib.FileSystem

/-!
# A disk with links

A file system in which a name may also be a symbolic link, and in which a file may
have several names.  The tree of names is a `FileSystem`; a name that is no directory
is a link, with the path it stands for, or gives the number of a file.  What the
files hold is kept apart, so that writing through one name is seen through the others.

A write may fail after it has emptied the file and written some of the content.

## Main definitions

* `Disk` — the names, and what the files hold.
* `Disk.follow` — following a path and the links on it.
* `Disk.trace` — where a path leads if the directories on it are there.
* `Disk.Follows` — the same, as a relation.
* `Disk.mkdir`, `Disk.createDirAll`, `Disk.write` — the operations.
* `Disk.Extends` — what no operation undoes.
* `Disk.Made`, `Disk.Wrote` — what making directories and writing a file do.
* `Disk.Shows` — a disk without links, and the `FileSystem` it shows.

## Main results

* `Disk.createDirAll_made` — directories are made on the way of a path, and nothing else is.
* `Disk.write_cases` — a write changes the file its path leads to, and no other.
* `Disk.createDirAll_eq` — where no link is on the way, directories are made as in a
  `FileSystem`.
* `Disk.Shows.createDirAll`, `Disk.Shows.write` — a disk without links is a `FileSystem`.
-/

open UnixPath

/-- What a name is, if it is not a directory's. -/
inductive Leaf
  /-- A file's, by its number. -/
  | inode (number : ℕ)
  /-- A symbolic link's, with the path it stands for. -/
  | link (target : List Component)
  deriving DecidableEq, Repr

/-- A disk. -/
structure Disk (β : Type*) where
  /-- The names. -/
  names : FileSystem Leaf
  /-- What the files hold. -/
  content : ℕ → List β
  /-- The number of the next new file. -/
  next : ℕ
  /-- Every file has a number below it. -/
  number_lt : ∀ {l i}, names.node l = some (.file (.inode i)) → i < next
  /-- How many links are followed before the system gives up. -/
  maxLinks : ℕ
  /-- The paths on which a write fails after some of the content. -/
  cutsOff : List Component → Option ℕ

namespace Disk

open FileSystem

variable {β : Type*}

/-! ### Following a path -/

/-- The path a link stands for, where one is. -/
def linkAt (t : FileSystem Leaf) (l : List String) : Option (List Component) :=
  match t.node l with
  | some (.file (.link target)) => some target
  | _ => none

theorem linkAt_eq_some_iff {t : FileSystem Leaf} {l : List String} {target : List Component} :
    linkAt t l = some target ↔ t.node l = some (.file (.link target)) := by
  unfold linkAt
  split
  · rename_i heq
    simp [heq, eq_comm]
  · rename_i hno
    exact iff_of_false (by simp) (hno target)

/-- Follow a path from a location; what is behind a link is followed by `jump`. -/
def followFrom (t : FileSystem Leaf)
    (jump : List String → List Component → Except FsError (List String)) :
    List String → List Component → Except FsError (List String)
  | loc, [] => .ok loc
  | loc, c :: rest =>
      if t.node loc = some .dir then
        match linkAt t (enter loc c) with
        | some target => jump loc (target ++ rest)
        | none => followFrom t jump (enter loc c) rest
      else .error (dirError (t.node loc))

/-- Follow a path through at most `n` links. -/
def followLinks (t : FileSystem Leaf) : ℕ → List String → List Component →
    Except FsError (List String)
  | 0 => followFrom t fun _ _ => .error .refused
  | n + 1 => followFrom t (followLinks t n)

/-- Where a path leads, also past what is missing. -/
def traceFrom (t : FileSystem Leaf) (jump : List String → List Component → Option (List String)) :
    List String → List Component → Option (List String)
  | loc, [] => some loc
  | loc, c :: rest =>
      match linkAt t (enter loc c) with
      | some target => jump loc (target ++ rest)
      | none => traceFrom t jump (enter loc c) rest

/-- Where a path leads through at most `n` links. -/
def traceLinks (t : FileSystem Leaf) : ℕ → List String → List Component → Option (List String)
  | 0 => traceFrom t fun _ _ => none
  | n + 1 => traceFrom t (traceLinks t n)

/-- Follow a path from the root, the link at its end included. -/
def follow (d : Disk β) (comps : List Component) : Except FsError (List String) :=
  followLinks d.names d.maxLinks [] comps

/-- The location a path leads to if the directories on it are there. -/
def trace (d : Disk β) (comps : List Component) : Option (List String) :=
  traceLinks d.names d.maxLinks [] comps

/-- What a path leads to. -/
def lookup (d : Disk β) (comps : List Component) : Option (Node Leaf) :=
  match d.follow comps with
  | .ok loc => if hasNul comps then none else d.names.node loc
  | .error _ => none

/-- `Path::exists`. -/
def pathExists (d : Disk β) (comps : List Component) : Bool := (d.lookup comps).isSome

/-- `Path::is_dir`. -/
def isDir (d : Disk β) (comps : List Component) : Bool :=
  match d.lookup comps with
  | some .dir => true
  | _ => false

/-- The number of the file a path opens. -/
def opens (d : Disk β) (comps : List Component) : Option ℕ :=
  match d.lookup comps with
  | some (.file (.inode i)) => some i
  | _ => none

/-- `fs::read`. -/
def read (d : Disk β) (comps : List Component) : Option (List β) :=
  (d.opens comps).map d.content

/-! ### Changing a disk -/

/-- A new directory. -/
def addDir (d : Disk β) (l : List String) (name : String) (hdir : d.names.node l = some .dir)
    (hfree : d.names.node (l ++ [name]) = none) : Disk β where
  __ := d
  names := d.names.put l name .dir hdir (by simp [hfree])
  number_lt := by
    intro l' i h
    rw [node_put] at h
    by_cases heq : l' = l ++ [name]
    · simp [heq] at h
    · exact d.number_lt (by rwa [Function.update_of_ne heq] at h)

/-- A new empty file. -/
def addFile (d : Disk β) (l : List String) (name : String) (hdir : d.names.node l = some .dir)
    (hfree : d.names.node (l ++ [name]) = none) : Disk β where
  __ := d
  names := d.names.put l name (.file (.inode d.next)) hdir (by simp [hfree])
  content := Function.update d.content d.next []
  next := d.next + 1
  number_lt := by
    intro l' i h
    rw [node_put] at h
    by_cases heq : l' = l ++ [name]
    · simp only [heq, Function.update_self, Option.some.injEq, Node.file.injEq,
        Leaf.inode.injEq] at h
      omega
    · have := d.number_lt (by rwa [Function.update_of_ne heq] at h)
      omega

/-- Other content for a file. -/
def setContent (d : Disk β) (i : ℕ) (content : List β) : Disk β :=
  { d with content := Function.update d.content i content }

/-- `mkdir`; a link at the end of the path is not followed. -/
def mkdir (d : Disk β) (comps : List Component) : Except FsError (Disk β) :=
  if hasNul comps then .error .invalidInput
  else if d.names.refuses comps then .error .refused
  else
    match fileName comps with
    | none =>
        match d.follow comps with
        | .ok _ => .error .alreadyExists
        | .error e => .error e
    | some name =>
        match d.follow comps.dropLast with
        | .error e => .error e
        | .ok l =>
            if hdir : d.names.node l = some .dir then
              if hfree : d.names.node (l ++ [name]) = none then .ok (d.addDir l name hdir hfree)
              else .error .alreadyExists
            else .error (dirError (d.names.node l))

/-- The outcome of an operation that may fail half way. -/
structure Done (β : Type*) where
  /-- The disk afterwards. -/
  disk : Disk β
  /-- The call succeeded. -/
  ok : Bool

/-- `fs::create_dir_all`, on the components in reverse order. -/
def createDirAllRev (d : Disk β) : List Component → Done β
  | [] => ⟨d, true⟩
  | c :: rest =>
      match d.mkdir (c :: rest).reverse with
      | .ok d' => ⟨d', true⟩
      | .error .notFound =>
          let r := createDirAllRev d rest
          if r.ok then
            match r.disk.mkdir (c :: rest).reverse with
            | .ok d' => ⟨d', true⟩
            | .error _ => ⟨r.disk, r.disk.isDir (c :: rest).reverse⟩
          else r
      | .error _ => ⟨d, d.isDir (c :: rest).reverse⟩

/-- `fs::create_dir_all`. -/
def createDirAll (d : Disk β) (comps : List Component) : Done β :=
  d.createDirAllRev comps.reverse

/-- The file at a location, a new one if nothing is there. -/
def openAt (d : Disk β) (loc : List String) : Option (Disk β × ℕ) :=
  match d.names.node loc, loc.getLast? with
  | some (.file (.inode i)), _ => some (d, i)
  | none, some name =>
      if hdir : d.names.node loc.dropLast = some .dir then
        if hfree : d.names.node (loc.dropLast ++ [name]) = none then
          some (d.addFile loc.dropLast name hdir hfree, d.next)
        else none
      else none
  | _, _ => none

/-- `fs::write`: the file is opened and emptied, and the content written. -/
def write (d : Disk β) (path : String) (content : List β) : Done β :=
  if hasNul (components path) then ⟨d, false⟩
  else if d.names.refuses (components path) then ⟨d, false⟩
  else if openedName path = none then ⟨d, false⟩
  else
    match d.follow (components path) with
    | .error _ => ⟨d, false⟩
    | .ok loc =>
        match d.openAt loc with
        | none => ⟨d, false⟩
        | some (d', i) =>
            match d.cutsOff (components path) with
            | some n => ⟨d'.setContent i (content.take n), false⟩
            | none => ⟨d'.setContent i content, true⟩

/-! ### Where a path leads -/

theorem followLinks_cons (t : FileSystem Leaf) (n : ℕ) (l : List String) (c : Component)
    (cs : List Component) :
    followLinks t n l (c :: cs) =
      if t.node l = some .dir then
        match linkAt t (enter l c), n with
        | none, n => followLinks t n (enter l c) cs
        | some _, 0 => .error .refused
        | some target, n + 1 => followLinks t n l (target ++ cs)
      else .error (dirError (t.node l)) := by
  cases n <;> rw [followLinks, followFrom] <;> cases linkAt t (enter l c) <;> rfl

theorem traceLinks_cons (t : FileSystem Leaf) (n : ℕ) (l : List String) (c : Component)
    (cs : List Component) :
    traceLinks t n l (c :: cs) =
      match linkAt t (enter l c), n with
      | none, n => traceLinks t n (enter l c) cs
      | some _, 0 => none
      | some target, n + 1 => traceLinks t n l (target ++ cs) := by
  cases n <;> rw [traceLinks, traceFrom] <;> cases linkAt t (enter l c) <;> rfl

@[simp] theorem followLinks_nil (t : FileSystem Leaf) (n : ℕ) (l : List String) :
    followLinks t n l [] = .ok l := by
  cases n <;> rfl

@[simp] theorem traceLinks_nil (t : FileSystem Leaf) (n : ℕ) (l : List String) :
    traceLinks t n l [] = some l := by
  cases n <;> rfl

/-- A path leads from a location to another, through directories and at most `n` links. -/
inductive Follows (t : FileSystem Leaf) (loc : List String) :
    ℕ → List String → List Component → Prop
  /-- Nothing is left of the path. -/
  | done {n : ℕ} : Follows t loc n loc []
  /-- The next name is no link. -/
  | step {n : ℕ} {l : List String} {c : Component} {cs : List Component}
      (hdir : t.node l = some .dir) (hlink : linkAt t (enter l c) = none)
      (h : Follows t loc n (enter l c) cs) : Follows t loc n l (c :: cs)
  /-- The next name is a link, and its path is followed first. -/
  | jump {n : ℕ} {l : List String} {c : Component} {target cs : List Component}
      (hdir : t.node l = some .dir) (hlink : linkAt t (enter l c) = some target)
      (h : Follows t loc n l (target ++ cs)) : Follows t loc (n + 1) l (c :: cs)

theorem followLinks_eq_ok_iff {t : FileSystem Leaf} {n : ℕ} {l loc : List String}
    {cs : List Component} : followLinks t n l cs = .ok loc ↔ Follows t loc n l cs := by
  constructor
  · intro h
    induction n using Nat.strongRecOn generalizing l cs with
    | _ n ihn =>
      induction cs generalizing l with
      | nil =>
        obtain rfl := Except.ok.inj ((followLinks_nil t n l).symm.trans h)
        exact .done
      | cons c cs ih =>
        rw [followLinks_cons] at h
        split at h
        · rename_i hdir
          cases hlink : linkAt t (enter l c) with
          | none =>
            rw [hlink] at h
            exact .step hdir hlink (ih h)
          | some target =>
            rw [hlink] at h
            cases n with
            | zero => exact absurd h (by simp)
            | succ n => exact .jump hdir hlink (ihn n (by omega) h)
        · exact absurd h (by simp)
  · intro h
    induction h with
    | done => exact followLinks_nil t _ loc
    | step hdir hlink _ ih =>
      rw [followLinks_cons, if_pos hdir, hlink]
      exact ih
    | jump hdir hlink _ ih =>
      rw [followLinks_cons, if_pos hdir, hlink]
      exact ih

theorem follow_eq_ok_iff {d : Disk β} {comps : List Component} {loc : List String} :
    d.follow comps = .ok loc ↔ Follows d.names loc d.maxLinks [] comps := followLinks_eq_ok_iff

section Follows

variable {t : FileSystem Leaf} {n : ℕ} {l loc : List String} {c : Component}
  {cs : List Component}

theorem Follows.traceLinks_eq (h : Follows t loc n l cs) : traceLinks t n l cs = some loc := by
  induction h with
  | done => exact traceLinks_nil _ _ loc
  | step _ hlink _ ih =>
    rw [traceLinks_cons, hlink]
    exact ih
  | jump _ hlink _ ih =>
    rw [traceLinks_cons, hlink]
    exact ih

/-- All but the last name of a path lead to a directory. -/
theorem Follows.init (h : Follows t loc n l cs) {init : List Component}
    (heq : cs = init ++ [c]) : ∃ l', Follows t l' n l init ∧ t.node l' = some .dir := by
  induction h generalizing init with
  | done => exact absurd heq (by simp)
  | @step n l c' cs hdir hlink _ ih =>
    cases init with
    | nil => exact ⟨l, .done, hdir⟩
    | cons c'' init =>
      obtain ⟨rfl, rfl⟩ := List.cons_eq_cons.mp heq
      obtain ⟨l', hl', hnode⟩ := ih rfl
      exact ⟨l', .step hdir hlink hl', hnode⟩
  | @jump n l c' target cs hdir hlink _ ih =>
    cases init with
    | nil => exact ⟨l, .done, hdir⟩
    | cons c'' init =>
      obtain ⟨rfl, rfl⟩ := List.cons_eq_cons.mp heq
      -- the last name is behind the path of the link, too
      obtain ⟨l', hl', hnode⟩ := ih (List.append_assoc ..).symm
      exact ⟨l', .jump hdir hlink hl', hnode⟩

/-- One more name, if it is no link. -/
theorem Follows.append_singleton (h : Follows t loc n l cs) (hdir : t.node loc = some .dir)
    (hlink : linkAt t (enter loc c) = none) : Follows t (enter loc c) n l (cs ++ [c]) := by
  induction h with
  | done => exact .step hdir hlink .done
  | step hdir' hlink' _ ih => exact .step hdir' hlink' ih
  | jump hdir' hlink' _ ih => exact .jump hdir' hlink' (by rwa [List.append_assoc] at ih)

/-- What is no directory is a name in one. -/
theorem Follows.exists_name (h : Follows t loc n l cs) (hnode : t.node loc ≠ some .dir)
    (hl : t.node l = some .dir ∨ ∃ l' name, l = l' ++ [name] ∧ t.node l' = some .dir) :
    ∃ l' name, loc = l' ++ [name] ∧ t.node l' = some .dir := by
  induction h with
  | done => exact hl.resolve_left hnode
  | @step n l c cs hdir _ _ ih =>
    refine ih ?_
    by_cases hc : ∃ name, c = .normal name
    · obtain ⟨name, rfl⟩ := hc
      exact .inr ⟨l, name, rfl, hdir⟩
    · exact .inl (node_enter_dir hdir fun name heq => hc ⟨name, heq⟩)
  | jump hdir _ _ ih => exact ih (.inl hdir)

/-- No path ends at a link: the link is followed. -/
theorem Follows.linkAt_eq_none (h : Follows t loc n l cs) (hl : linkAt t l = none) :
    linkAt t loc = none := by
  induction h with
  | done => exact hl
  | step _ hlink _ ih => exact ih hlink
  | jump _ _ _ ih => exact ih hl

/-- Where directories stay and links are the same, a path leads where it led. -/
theorem Follows.mono {t' : FileSystem Leaf} (h : Follows t loc n l cs)
    (hdirs : ∀ {l}, t.node l = some .dir → t'.node l = some .dir)
    (hlinks : ∀ l, linkAt t' l = linkAt t l) : Follows t' loc n l cs := by
  induction h with
  | done => exact .done
  | step hdir hlink _ ih => exact .step (hdirs hdir) (by rw [hlinks, hlink]) ih
  | jump hdir hlink _ ih => exact .jump (hdirs hdir) (by rw [hlinks, hlink]) ih

end Follows

/-- **A path that can be followed leads where its links say.** -/
theorem trace_of_follow {d : Disk β} {comps : List Component} {loc : List String}
    (h : d.follow comps = .ok loc) : d.trace comps = some loc :=
  (follow_eq_ok_iff.mp h).traceLinks_eq

/-- The name at the end of a path is looked for in a directory. -/
theorem follow_concat {d : Disk β} {comps : List Component} {c : Component} {loc : List String}
    (h : d.follow (comps ++ [c]) = .ok loc) :
    ∃ l, d.follow comps = .ok l ∧ d.names.node l = some .dir := by
  obtain ⟨l, hl, hnode⟩ := (follow_eq_ok_iff.mp h).init rfl
  exact ⟨l, follow_eq_ok_iff.mpr hl, hnode⟩

/-- What is passed on the way is a directory. -/
theorem exists_dir_of_prefix {d : Disk β} {comps p : List Component} {loc : List String}
    (h : d.follow comps = .ok loc) (hp : p <+: comps) (hne : p ≠ comps) :
    ∃ l, d.follow p = .ok l ∧ d.names.node l = some .dir := by
  induction comps using List.reverseRecOn generalizing loc with
  | nil => exact absurd (List.prefix_nil.mp hp) hne
  | append_singleton comps c ih =>
    obtain ⟨l, hl, hdir⟩ := follow_concat h
    rcases List.prefix_concat_iff.mp hp with rfl | hp
    · exact absurd rfl hne
    · by_cases heq : p = comps
      · exact ⟨l, heq ▸ hl, hdir⟩
      · exact ih hl hp heq

/-- A path that leads to no directory ends in a name of one. -/
theorem exists_name_of_follow {d : Disk β} {comps : List Component} {loc : List String}
    (h : d.follow comps = .ok loc) (hnode : d.names.node loc ≠ some .dir) :
    ∃ l name, loc = l ++ [name] ∧ d.names.node l = some .dir :=
  (follow_eq_ok_iff.mp h).exists_name hnode (.inl d.names.node_nil)

/-! ### What no operation undoes -/

/-- **What no operation undoes**: directories and links stay, no link is made, and a name
keeps its file.  A file made since then has one name. -/
structure Extends (d d' : Disk β) : Prop where
  dirs : ∀ {l}, d.names.node l = some .dir → d'.names.node l = some .dir
  links : ∀ l, linkAt d'.names l = linkAt d.names l
  known : ∀ {l i}, i < d.next →
    (d'.names.node l = some (.file (.inode i)) ↔ d.names.node l = some (.file (.inode i)))
  own : ∀ {l l' i}, d.next ≤ i → d'.names.node l = some (.file (.inode i)) →
    d'.names.node l' = some (.file (.inode i)) → l = l'
  next : d.next ≤ d'.next
  refuses : d'.names.refuses = d.names.refuses
  maxLinks : d'.maxLinks = d.maxLinks
  cutsOff : d'.cutsOff = d.cutsOff

theorem Extends.refl (d : Disk β) : Extends d d where
  dirs h := h
  links _ := rfl
  known _ := Iff.rfl
  own hi h := absurd (d.number_lt h) (by omega)
  next := le_rfl
  refuses := rfl
  maxLinks := rfl
  cutsOff := rfl

theorem Extends.trans {d d' d'' : Disk β} (h : Extends d d') (h' : Extends d' d'') :
    Extends d d'' where
  dirs hl := h'.dirs (h.dirs hl)
  links l := (h'.links l).trans (h.links l)
  known hi := (h'.known (hi.trans_le h.next)).trans (h.known hi)
  own {l l' i} hi hl hl' := by
    by_cases hnew : d'.next ≤ i
    · exact h'.own hnew hl hl'
    · rw [h'.known (by omega)] at hl hl'
      exact h.own hi hl hl'
  next := h.next.trans h'.next
  refuses := h'.refuses.trans h.refuses
  maxLinks := h'.maxLinks.trans h.maxLinks
  cutsOff := h'.cutsOff.trans h.cutsOff

/-- A name keeps its file. -/
theorem Extends.inode {d d' : Disk β} (h : Extends d d') {l : List String} {i : ℕ}
    (hl : d.names.node l = some (.file (.inode i))) :
    d'.names.node l = some (.file (.inode i)) :=
  (h.known (d.number_lt hl)).mpr hl

/-- Paths lead where they led. -/
theorem Extends.trace {d d' : Disk β} (h : Extends d d') (comps : List Component) :
    d'.trace comps = d.trace comps := by
  have hlinks : ∀ n l cs, traceLinks d'.names n l cs = traceLinks d.names n l cs := by
    intro n
    induction n using Nat.strongRecOn with
    | _ n ihn =>
      intro l cs
      induction cs generalizing l with
      | nil => rw [traceLinks_nil, traceLinks_nil]
      | cons c cs ih =>
        rw [traceLinks_cons, traceLinks_cons, h.links]
        cases linkAt d.names (enter l c) with
        | none => exact ih _
        | some target =>
          cases n with
          | zero => rfl
          | succ n => exact ihn n (by omega) _ _
  rw [Disk.trace, Disk.trace, h.maxLinks, hlinks]

/-- A path that can be followed stays so. -/
theorem Extends.follow {d d' : Disk β} (h : Extends d d') {comps : List Component}
    {loc : List String} (hf : d.follow comps = .ok loc) : d'.follow comps = .ok loc := by
  rw [follow_eq_ok_iff, h.maxLinks]
  exact (follow_eq_ok_iff.mp hf).mono h.dirs h.links

/-- A new name is no link and no file of before. -/
theorem extends_of_put {d d' : Disk β} {l : List String} {n : Node Leaf}
    (hfree : d.names.node l = none)
    (hnode : d'.names.node = Function.update d.names.node l (some n))
    (hnew : n = .dir ∨ n = .file (.inode d.next)) (hnext : d.next ≤ d'.next)
    (hrefuses : d'.names.refuses = d.names.refuses) (hmaxLinks : d'.maxLinks = d.maxLinks)
    (hcutsOff : d'.cutsOff = d.cutsOff) : Extends d d' := by
  have hother : ∀ {loc}, loc ≠ l → d'.names.node loc = d.names.node loc := by
    intro loc hne
    rw [hnode, Function.update_of_ne hne]
  have hself : d'.names.node l = some n := by rw [hnode, Function.update_self]
  have hwas : ∀ {loc i}, d'.names.node loc = some (.file (.inode i)) → loc ≠ l → i < d.next :=
    fun h hne => d.number_lt (hother hne ▸ h)
  have hat : ∀ {i}, d'.names.node l = some (.file (.inode i)) → i = d.next := by
    intro i h
    rw [hself] at h
    obtain rfl | rfl := hnew
    · exact absurd h (by simp)
    · simpa using h.symm
  refine ⟨?_, ?_, ?_, ?_, hnext, hrefuses, hmaxLinks, hcutsOff⟩
  · -- nothing was at the new name, and so no directory
    intro loc hloc
    rwa [hother]
    rintro rfl
    simp [hfree] at hloc
  · intro loc
    by_cases heq : loc = l
    · subst heq
      obtain rfl | rfl := hnew <;> simp [linkAt, hself, hfree]
    · rw [linkAt, linkAt, hother heq]
  · intro loc i hi
    by_cases heq : loc = l
    · subst heq
      refine iff_of_false (fun h => ?_) (by simp [hfree])
      have := hat h
      omega
    · rw [hother heq]
  · -- every number from `d.next` on is that of the new name
    intro loc loc' i hi hloc hloc'
    by_cases heq : loc = l
    · by_cases heq' : loc' = l
      · rw [heq, heq']
      · have := hwas hloc' heq'
        omega
    · have := hwas hloc heq
      omega

theorem addDir_extends (d : Disk β) (l : List String) (name : String)
    (hdir : d.names.node l = some .dir) (hfree : d.names.node (l ++ [name]) = none) :
    Extends d (d.addDir l name hdir hfree) :=
  extends_of_put hfree rfl (.inl rfl) le_rfl rfl rfl rfl

theorem addFile_extends (d : Disk β) (l : List String) (name : String)
    (hdir : d.names.node l = some .dir) (hfree : d.names.node (l ++ [name]) = none) :
    Extends d (d.addFile l name hdir hfree) :=
  extends_of_put hfree rfl (.inr rfl) (Nat.le_succ _) rfl rfl rfl

theorem setContent_extends (d : Disk β) (i : ℕ) (content : List β) :
    Extends d (d.setContent i content) where
  __ := Extends.refl d

/-! ### What the operations do -/

/-- What a successful `mkdir` did: a directory where nothing was. -/
theorem mkdir_eq_ok {d d' : Disk β} {comps : List Component} (h : d.mkdir comps = .ok d') :
    ∃ l name, fileName comps = some name ∧ d.follow comps.dropLast = .ok l ∧
      d.names.node l = some .dir ∧ d.names.node (l ++ [name]) = none ∧
      d'.names.node = Function.update d.names.node (l ++ [name]) (some .dir) ∧
      d'.content = d.content ∧ Extends d d' := by
  unfold mkdir at h
  split at h
  · exact absurd h (by simp)
  split at h
  · exact absurd h (by simp)
  split at h
  · split at h <;> exact absurd h (by simp)
  rename_i name hname
  split at h
  · exact absurd h (by simp)
  rename_i l hfollow
  split at h
  swap
  · exact absurd h (by simp)
  rename_i hdir
  split at h
  · rename_i hfree
    obtain rfl := Except.ok.inj h
    exact ⟨l, name, hname, hfollow, hdir, hfree, rfl, rfl, addDir_extends d l name hdir hfree⟩
  · exact absurd h (by simp)

/-- A name in a directory can be followed, if it is no link. -/
theorem follow_append_singleton {d : Disk β} {comps : List Component} {c : Component}
    {l : List String} (h : d.follow comps = .ok l) (hdir : d.names.node l = some .dir)
    (hlink : linkAt d.names (enter l c) = none) : d.follow (comps ++ [c]) = .ok (enter l c) :=
  follow_eq_ok_iff.mpr ((follow_eq_ok_iff.mp h).append_singleton hdir hlink)

theorem linkAt_of_follow {d : Disk β} {comps : List Component} {loc : List String}
    (h : d.follow comps = .ok loc) : linkAt d.names loc = none :=
  (follow_eq_ok_iff.mp h).linkAt_eq_none (by simp [linkAt, d.names.node_nil])

/-- A directory's path can be followed. -/
theorem exists_follow_of_isDir {d : Disk β} {comps : List Component} (h : d.isDir comps = true) :
    ∃ loc, d.follow comps = .ok loc ∧ d.names.node loc = some .dir := by
  unfold isDir lookup at h
  split at h
  · rename_i heq
    split at heq
    · rename_i loc hfollow
      split at heq
      · exact absurd heq (by simp)
      · exact ⟨loc, hfollow, heq⟩
    · exact absurd heq (by simp)
  · exact absurd h (by simp)

theorem createDirAll_concat (d : Disk β) (comps : List Component) (c : Component) :
    d.createDirAll (comps ++ [c]) =
      match d.mkdir (comps ++ [c]) with
      | .ok d' => ⟨d', true⟩
      | .error .notFound =>
          if (d.createDirAll comps).ok then
            match (d.createDirAll comps).disk.mkdir (comps ++ [c]) with
            | .ok d' => ⟨d', true⟩
            | .error _ =>
                ⟨(d.createDirAll comps).disk, (d.createDirAll comps).disk.isDir (comps ++ [c])⟩
          else d.createDirAll comps
      | .error _ => ⟨d, d.isDir (comps ++ [c])⟩ := by
  rw [createDirAll, List.reverse_append, List.reverse_singleton, List.singleton_append,
    createDirAllRev, List.reverse_cons, List.reverse_reverse]
  rfl

/-- Directories are new on the way to `comps`, and nothing else is. -/
structure Made (d d' : Disk β) (comps : List Component) : Prop extends Extends d d' where
  content : d'.content = d.content
  node : ∀ l, d'.names.node l = d.names.node l ∨
    d'.names.node l = some .dir ∧ ∃ p, p <+: comps ∧ d.trace p = some l

theorem Made.refl (d : Disk β) (comps : List Component) : Made d d comps where
  __ := Extends.refl d
  content := rfl
  node _ := .inl rfl

theorem Made.mono {d d' : Disk β} {comps comps' : List Component} (h : Made d d' comps)
    (hp : comps <+: comps') : Made d d' comps' where
  __ := h
  node l := (h.node l).imp_right fun ⟨hdir, p, hpre, hl⟩ => ⟨hdir, p, hpre.trans hp, hl⟩

/-- One more directory. -/
theorem Made.mkdir {d d' d'' : Disk β} {comps : List Component} (h : Made d d' comps)
    (hmk : d'.mkdir comps = .ok d'') : Made d d'' comps := by
  obtain ⟨l, name, hname, hfollow, hdir, hfree, hnode, hcontent, hext⟩ := mkdir_eq_ok hmk
  refine ⟨h.toExtends.trans hext, hcontent.trans h.content, ?_⟩
  intro loc
  by_cases heq : loc = l ++ [name]
  · refine .inr ⟨by rw [hnode, heq, Function.update_self], comps, List.prefix_rfl, ?_⟩
    -- the name was free, so the path led there before
    have hlink : linkAt d'.names (enter l (.normal name)) = none := by
      simp [linkAt, enter, hfree]
    have hpath := follow_append_singleton hfollow hdir hlink
    rw [← fileName_eq_some hname] at hpath
    rw [heq, ← h.toExtends.trace, trace_of_follow hpath, enter]
  · rw [hnode, Function.update_of_ne heq]
    exact h.node loc

/-- **What `createDirAll` does**: it makes missing directories on its way, and nothing else. -/
theorem createDirAll_made (d : Disk β) (comps : List Component) :
    Made d (d.createDirAll comps).disk comps := by
  induction comps using List.reverseRecOn with
  | nil => exact Made.refl d []
  | append_singleton comps c ih =>
    have hup := ih.mono (List.prefix_append comps [c])
    rw [createDirAll_concat]
    cases hmk : d.mkdir (comps ++ [c]) with
    | ok d' => exact (Made.refl d _).mkdir hmk
    | error e =>
      by_cases he : e = .notFound
      · subst he
        by_cases hok : (d.createDirAll comps).ok = true
        · simp only [hok, if_true]
          cases hmk' : (d.createDirAll comps).disk.mkdir (comps ++ [c]) with
          | ok d' => exact hup.mkdir hmk'
          | error e' => exact hup
        · simp only [hok]
          exact hup
      · cases e <;> first | exact absurd rfl he | exact Made.refl d _

/-- Nothing is made where a directory is. -/
theorem createDirAll_of_isDir {d : Disk β} {comps : List Component}
    (h : d.isDir comps = true) : d.createDirAll comps = ⟨d, true⟩ := by
  cases comps using List.reverseRecOn with
  | nil => rfl
  | append_singleton comps c =>
    obtain ⟨loc, hfollow, hnode⟩ := exists_follow_of_isDir h
    obtain ⟨l, hinit, hdir⟩ := follow_concat hfollow
    -- the attempt to make it fails, and not because something is missing
    have hmk : ∃ e, d.mkdir (comps ++ [c]) = .error e ∧ e ≠ .notFound := by
      unfold mkdir
      split_ifs
      · exact ⟨_, rfl, by simp⟩
      · exact ⟨_, rfl, by simp⟩
      cases hname : fileName (comps ++ [c]) with
      | none => exact ⟨.alreadyExists, by rw [hfollow], by simp⟩
      | some name =>
        obtain rfl : c = .normal name := by
          have := fileName_eq_some hname
          rw [List.dropLast_concat] at this
          simpa using this
        have hthere : d.names.node (l ++ [name]) ≠ none := by
          intro hnone
          have hpath := follow_append_singleton (c := .normal name) hinit hdir
            (by simp [linkAt, enter, hnone])
          rw [hfollow] at hpath
          obtain rfl := Except.ok.inj hpath
          rw [enter, hnone] at hnode
          cases hnode
        refine ⟨.alreadyExists, ?_, by simp⟩
        rw [List.dropLast_concat, hinit]
        simp [hdir, hthere]
    obtain ⟨e, hmk, hne⟩ := hmk
    rw [createDirAll_concat, hmk]
    cases e <;> first | exact absurd rfl hne | rw [h]

/-! ### Writing -/

/-- What opening a file did: it is there, and only its content is touched from now on. -/
theorem openAt_eq_some {d d' : Disk β} {loc : List String} {i : ℕ}
    (h : d.openAt loc = some (d', i)) :
    Extends d d' ∧ d.names.node loc ≠ some .dir ∧ d'.names.node loc = some (.file (.inode i)) ∧
      (∀ l, l ≠ loc → d'.names.node l = d.names.node l) ∧
      ∀ j, j ≠ i → d'.content j = d.content j := by
  unfold openAt at h
  split at h
  · rename_i j hnode
    obtain ⟨rfl, rfl⟩ : d = d' ∧ j = i := by simpa using h
    exact ⟨Extends.refl d, by simp [hnode], hnode, fun _ _ => rfl, fun _ _ => rfl⟩
  · rename_i name hnode hname
    have hloc := (List.dropLast_append_getLast? _ hname).symm
    split at h
    swap
    · exact absurd h (by simp)
    rename_i hdir
    split at h
    swap
    · exact absurd h (by simp)
    rename_i hfree
    obtain ⟨rfl, rfl⟩ : d.addFile loc.dropLast name hdir hfree = d' ∧ d.next = i := by
      simpa using h
    refine ⟨addFile_extends d _ name hdir hfree, by simp [hnode], ?_, fun l hl => ?_,
      fun j hj => Function.update_of_ne hj _ _⟩
    · exact (congrArg _ hloc).trans (Function.update_self ..)
    · exact Function.update_of_ne (by rwa [← hloc]) ..
  · exact absurd h (by simp)

/-- A file can be opened where a path leads, unless a directory is there. -/
theorem exists_openAt {d : Disk β} {comps : List Component} {loc : List String}
    (h : d.follow comps = .ok loc) (hnode : d.names.node loc ≠ some .dir) :
    ∃ d' i, d.openAt loc = some (d', i) := by
  obtain ⟨l, name, rfl, hdir⟩ := exists_name_of_follow h hnode
  have hlink := linkAt_of_follow h
  unfold openAt
  cases hn : d.names.node (l ++ [name]) with
  | none => simp [hdir, hn]
  | some n =>
    cases n with
    | dir => exact absurd hn hnode
    | file leaf =>
      cases leaf with
      | inode i => simp
      | link target => simp [linkAt, hn] at hlink

/-- What a `write` that touches the disk found, and what it did: it has a file at the end of
its path, and changes the content of no other. -/
structure Wrote (d : Disk β) (path : String) (written : List β) (w : Done β)
    (loc : List String) (i : ℕ) : Prop extends Extends d w.disk where
  noNul : hasNul (components path) = false
  accepted : d.names.refuses (components path) = false
  opened : openedName path ≠ none
  follow : d.follow (components path) = .ok loc
  free : d.names.node loc ≠ some .dir
  node : w.disk.names.node loc = some (.file (.inode i))
  others : ∀ l, l ≠ loc → w.disk.names.node l = d.names.node l
  content : ∀ j, j ≠ i → w.disk.content j = d.content j
  ok : w.ok = true → w.disk.content i = written
  whole : d.cutsOff (components path) = none → w.ok = true

/-- **A `write` leaves the disk as it is, or changes the file its path leads to.** -/
theorem write_cases (d : Disk β) (path : String) (content : List β) :
    d.write path content = ⟨d, false⟩ ∨
      ∃ loc i, Wrote d path content (d.write path content) loc i := by
  unfold write
  split_ifs with hnul haccepted hopened
  · exact .inl rfl
  · exact .inl rfl
  · exact .inl rfl
  split
  · exact .inl rfl
  rename_i loc hfollow
  split
  · exact .inl rfl
  rename_i d' i hopen
  obtain ⟨hext, hfree, hnode, hothers, hcontent⟩ := openAt_eq_some hopen
  refine .inr ⟨loc, i, ?_⟩
  have hset : ∀ written j, j ≠ i → (d'.setContent i written).content j = d.content j :=
    fun written j hj => (Function.update_of_ne hj ..).trans (hcontent j hj)
  split
  · rename_i n hcut
    exact ⟨hext.trans (setContent_extends _ _ _), by simpa using hnul, by simpa using haccepted,
      hopened, hfollow, hfree, hnode, hothers, hset _, by simp, by simp [hcut]⟩
  · rename_i hcut
    exact ⟨hext.trans (setContent_extends _ _ _), by simpa using hnul, by simpa using haccepted,
      hopened, hfollow, hfree, hnode, hothers, hset _,
      fun _ => Function.update_self .., fun _ => rfl⟩

/-- **When a `write` succeeds.** -/
theorem write_ok {d : Disk β} {path : String} {content : List β} {loc : List String}
    (hnul : hasNul (components path) = false)
    (haccepted : d.names.refuses (components path) = false) (hopened : openedName path ≠ none)
    (hfollow : d.follow (components path) = .ok loc) (hfree : d.names.node loc ≠ some .dir)
    (hcut : d.cutsOff (components path) = none) : (d.write path content).ok = true := by
  obtain ⟨d', i, hopen⟩ := exists_openAt hfollow hfree
  simp [write, hnul, haccepted, hopened, hfollow, hopen, hcut]

/-! ### Where no link is on the way -/

/-- No initial part of a path leads to a link. -/
def LinkFree (t : FileSystem Leaf) (comps : List Component) : Prop :=
  ∀ p, p <+: comps → linkAt t (locate p) = none

/-- **Where no link is on the way**, following a path is walking down the tree. -/
theorem follow_eq_walk {d : Disk β} {comps : List Component} (h : LinkFree d.names comps) :
    d.follow comps = d.names.walk comps := by
  have hfrom : ∀ (cs : List Component) (l : List String),
      (∀ p, p <+: cs → linkAt d.names (p.foldl enter l) = none) →
      followLinks d.names d.maxLinks l cs = cs.foldlM
        (fun loc c =>
          if d.names.node loc = some .dir then .ok (enter loc c)
          else .error (dirError (d.names.node loc))) l := by
    intro cs
    induction cs with
    | nil => exact fun l _ => followLinks_nil _ _ l
    | cons c cs ih =>
      intro l hl
      have hlink : linkAt d.names (enter l c) = none := hl [c] (by simp)
      rw [followLinks_cons, List.foldlM_cons, hlink]
      split_ifs
      · exact ih _ fun p hp => hl (c :: p) (List.cons_prefix_cons.mpr ⟨rfl, hp⟩)
      · rfl
  exact hfrom comps [] h

theorem LinkFree.mono {t : FileSystem Leaf} {comps comps' : List Component}
    (h : LinkFree t comps) (hp : comps' <+: comps) : LinkFree t comps' :=
  fun p hpre => h p (hpre.trans hp)

theorem Extends.linkFree {d d' : Disk β} (h : Extends d d') {comps : List Component}
    (hfree : LinkFree d.names comps) : LinkFree d'.names comps :=
  fun p hp => by rw [h.links, hfree p hp]

theorem lookup_eq {d : Disk β} {comps : List Component} (h : LinkFree d.names comps) :
    d.lookup comps = d.names.lookup comps := by
  cases hwalk : d.names.walk comps <;>
    simp [lookup, FileSystem.lookup, follow_eq_walk h, hwalk]

theorem pathExists_eq {d : Disk β} {comps : List Component} (h : LinkFree d.names comps) :
    d.pathExists comps = d.names.pathExists comps := by
  rw [pathExists, FileSystem.pathExists, lookup_eq h]

theorem isDir_eq {d : Disk β} {comps : List Component} (h : LinkFree d.names comps) :
    d.isDir comps = d.names.isDir comps := by
  unfold isDir FileSystem.isDir
  rw [lookup_eq h]
  split
  · rename_i hdir
    simp [hdir]
  · rename_i hno
    split
    · rename_i hdir
      exact absurd hdir hno
    · rfl

theorem mkdir_eq {d : Disk β} {comps : List Component} (h : LinkFree d.names comps) :
    (d.mkdir comps).map Disk.names = d.names.mkdir comps := by
  unfold mkdir FileSystem.mkdir
  rw [follow_eq_walk h, follow_eq_walk (h.mono (List.dropLast_prefix comps))]
  split_ifs
  · rfl
  · rfl
  cases fileName comps with
  | none => cases d.names.walk comps <;> rfl
  | some name =>
    dsimp only
    cases d.names.walk comps.dropLast with
    | error e => rfl
    | ok l =>
      dsimp only
      split
      · split <;> rfl
      · rfl

/-- **Where no link is on the way**, missing directories are made as in a tree. -/
theorem createDirAll_eq {d : Disk β} {comps : List Component} (h : LinkFree d.names comps) :
    (d.createDirAll comps).disk.names = (d.names.createDirAll comps).fs ∧
      (d.createDirAll comps).ok = (d.names.createDirAll comps).ok := by
  induction comps using List.reverseRecOn with
  | nil => exact ⟨rfl, rfl⟩
  | append_singleton comps c ih =>
    obtain ⟨hnames, hok⟩ := ih (h.mono (List.prefix_append _ _))
    have hafter := (createDirAll_made d comps).toExtends.linkFree h
    have hmkdir := mkdir_eq h
    have hmkdir' := mkdir_eq hafter
    rw [hnames] at hmkdir'
    rw [createDirAll_concat, FileSystem.createDirAll_concat, ← hmkdir, ← hok, isDir_eq h]
    cases hmk : d.mkdir (comps ++ [c]) with
    | ok d' => exact ⟨rfl, rfl⟩
    | error e =>
      by_cases he : e = .notFound
      · subst he
        by_cases hup : (d.createDirAll comps).ok = true
        · simp only [Except.map, hup, if_true]
          rw [← hmkdir']
          cases hmk' : (d.createDirAll comps).disk.mkdir (comps ++ [c]) with
          | ok d' => exact ⟨rfl, rfl⟩
          | error e' => exact ⟨hnames, by rw [isDir_eq hafter, hnames]; rfl⟩
        · simp only [Except.map, hup]
          exact ⟨hnames, hok⟩
      · cases e <;> first | exact absurd rfl he | exact ⟨rfl, rfl⟩

/-- A directory that was made where no link is on the way can be entered. -/
theorem follow_createDirAll {d : Disk β} {comps : List Component} (h : LinkFree d.names comps)
    (hok : (d.createDirAll comps).ok = true) :
    (d.createDirAll comps).disk.follow comps = .ok (locate comps) ∧
      (d.createDirAll comps).disk.names.node (locate comps) = some .dir := by
  obtain ⟨hnames, hoks⟩ := createDirAll_eq h
  rw [hoks] at hok
  rw [follow_eq_walk ((createDirAll_made d comps).toExtends.linkFree h), hnames]
  exact ⟨walk_createDirAll hok, createDirAll_ok hok⟩

/-! ### A disk without links shows a file system -/

/-- What a name shows. -/
def shown (content : ℕ → List β) : Node Leaf → Option (Node (List β))
  | .dir => some .dir
  | .file (.inode i) => some (.file (content i))
  | .file (.link _) => none

/-- **A disk shows a file system**: it has no links, every file has one name, no write fails
half way, and its names hold what is there. -/
structure Shows (d : Disk β) (fs : FileSystem (List β)) : Prop where
  node : ∀ l, fs.node l = (d.names.node l).bind (shown d.content)
  noLinks : ∀ l, linkAt d.names l = none
  own : ∀ {l l' i}, d.names.node l = some (.file (.inode i)) →
    d.names.node l' = some (.file (.inode i)) → l = l'
  refuses : fs.refuses = d.names.refuses
  whole : ∀ comps, d.cutsOff comps = none

theorem Shows.node_cases {d : Disk β} {fs : FileSystem (List β)} (h : Shows d fs)
    (l : List String) : d.names.node l = none ∧ fs.node l = none ∨
      d.names.node l = some .dir ∧ fs.node l = some .dir ∨
      ∃ i, d.names.node l = some (.file (.inode i)) ∧ fs.node l = some (.file (d.content i)) := by
  have hnode := h.node l
  have hlink := h.noLinks l
  cases hn : d.names.node l with
  | none => exact .inl ⟨rfl, by rw [hnode, hn]; rfl⟩
  | some n =>
    cases n with
    | dir => exact .inr (.inl ⟨rfl, by rw [hnode, hn]; rfl⟩)
    | file leaf =>
      cases leaf with
      | inode i => exact .inr (.inr ⟨i, rfl, by rw [hnode, hn]; rfl⟩)
      | link target => simp [linkAt, hn] at hlink

theorem Shows.dir_iff {d : Disk β} {fs : FileSystem (List β)} (h : Shows d fs) (l : List String) :
    d.names.node l = some .dir ↔ fs.node l = some .dir := by
  rcases h.node_cases l with ⟨hd, hf⟩ | ⟨hd, hf⟩ | ⟨i, hd, hf⟩ <;> simp [hd, hf]

theorem Shows.none_iff {d : Disk β} {fs : FileSystem (List β)} (h : Shows d fs)
    (l : List String) : d.names.node l = none ↔ fs.node l = none := by
  rcases h.node_cases l with ⟨hd, hf⟩ | ⟨hd, hf⟩ | ⟨i, hd, hf⟩ <;> simp [hd, hf]

theorem Shows.dirError {d : Disk β} {fs : FileSystem (List β)} (h : Shows d fs)
    (l : List String) : dirError (d.names.node l) = dirError (fs.node l) := by
  rcases h.node_cases l with ⟨hd, hf⟩ | ⟨hd, hf⟩ | ⟨i, hd, hf⟩ <;> rw [hd, hf] <;> rfl

theorem Shows.linkFree {d : Disk β} {fs : FileSystem (List β)} (h : Shows d fs)
    (comps : List Component) : LinkFree d.names comps := fun _ _ => h.noLinks _

/-- A file made since has one name, too. -/
theorem Shows.own_of_extends {d d' : Disk β} {fs : FileSystem (List β)} (h : Shows d fs)
    (hext : Extends d d') {l l' : List String} {i : ℕ}
    (hl : d'.names.node l = some (.file (.inode i)))
    (hl' : d'.names.node l' = some (.file (.inode i))) : l = l' := by
  by_cases hnew : d.next ≤ i
  · exact hext.own hnew hl hl'
  · exact h.own ((hext.known (by omega)).mp hl) ((hext.known (by omega)).mp hl')

/-- Paths lead to the same places. -/
theorem Shows.follow {d : Disk β} {fs : FileSystem (List β)} (h : Shows d fs)
    (comps : List Component) : d.follow comps = fs.walk comps := by
  rw [follow_eq_walk (h.linkFree comps), FileSystem.walk, FileSystem.walk]
  congr 1
  funext loc c
  by_cases hdir : d.names.node loc = some .dir
  · rw [if_pos hdir, if_pos ((h.dir_iff loc).mp hdir)]
  · rw [if_neg hdir, if_neg fun hf => hdir ((h.dir_iff loc).mpr hf), h.dirError]

theorem Shows.pathExists {d : Disk β} {fs : FileSystem (List β)} (h : Shows d fs)
    (comps : List Component) : d.pathExists comps = fs.pathExists comps := by
  unfold Disk.pathExists FileSystem.pathExists lookup FileSystem.lookup
  rw [h.follow]
  cases fs.walk comps with
  | error e => rfl
  | ok loc =>
    cases hasNul comps with
    | true => rfl
    | false =>
      rcases h.node_cases loc with ⟨hd, hf⟩ | ⟨hd, hf⟩ | ⟨i, hd, hf⟩ <;> simp [hd, hf]

theorem Shows.isDir {d : Disk β} {fs : FileSystem (List β)} (h : Shows d fs)
    (comps : List Component) : d.isDir comps = fs.isDir comps := by
  unfold Disk.isDir FileSystem.isDir lookup FileSystem.lookup
  rw [h.follow]
  cases fs.walk comps with
  | error e => rfl
  | ok loc =>
    cases hasNul comps with
    | true => rfl
    | false =>
      rcases h.node_cases loc with ⟨hd, hf⟩ | ⟨hd, hf⟩ | ⟨i, hd, hf⟩ <;> simp [hd, hf]

/-- The outcomes of an operation on a disk and on what it shows. -/
inductive Shows.Result : Except FsError (Disk β) → Except FsError (FileSystem (List β)) → Prop
  | ok {d : Disk β} {fs : FileSystem (List β)} (h : Shows d fs) : Result (.ok d) (.ok fs)
  | error (e : FsError) : Result (.error e) (.error e)

/-- A new directory shows. -/
theorem Shows.addDir {d : Disk β} {fs : FileSystem (List β)} (h : Shows d fs) {l : List String}
    {name : String} (hdir : d.names.node l = some .dir)
    (hfree : d.names.node (l ++ [name]) = none) (hdir' : fs.node l = some .dir)
    (hfree' : fs.node (l ++ [name]) ≠ some .dir) :
    Shows (d.addDir l name hdir hfree) (fs.put l name .dir hdir' hfree') where
  node loc := by
    by_cases heq : loc = l ++ [name]
    · simp [Disk.addDir, heq, shown]
    · simpa [Disk.addDir, Function.update_of_ne heq] using h.node loc
  noLinks loc := ((addDir_extends d l name hdir hfree).links loc).trans (h.noLinks loc)
  own := h.own_of_extends (addDir_extends d l name hdir hfree)
  refuses := h.refuses
  whole := h.whole

theorem Shows.mkdir {d : Disk β} {fs : FileSystem (List β)} (h : Shows d fs)
    (comps : List Component) : Shows.Result (d.mkdir comps) (fs.mkdir comps) := by
  unfold Disk.mkdir FileSystem.mkdir
  rw [h.refuses, h.follow, h.follow]
  split_ifs
  · exact .error _
  · exact .error _
  cases fileName comps with
  | none => cases fs.walk comps <;> exact .error _
  | some name =>
    dsimp only
    cases fs.walk comps.dropLast with
    | error e => exact .error e
    | ok l =>
      dsimp only
      by_cases hdir : d.names.node l = some .dir
      · have hdir' := (h.dir_iff l).mp hdir
        rw [dif_pos hdir, dif_pos hdir']
        by_cases hfree : d.names.node (l ++ [name]) = none
        · rw [dif_pos hfree, dif_pos ((h.none_iff _).mp hfree)]
          exact .ok (h.addDir hdir hfree hdir' _)
        · rw [dif_neg hfree, dif_neg fun hf => hfree ((h.none_iff _).mpr hf)]
          exact .error _
      · rw [dif_neg hdir, dif_neg fun hf => hdir ((h.dir_iff l).mpr hf), h.dirError]
        exact .error _

/-- **Missing directories are made alike.** -/
theorem Shows.createDirAll {d : Disk β} {fs : FileSystem (List β)} (h : Shows d fs)
    (comps : List Component) :
    Shows (d.createDirAll comps).disk (fs.createDirAll comps).fs ∧
      (d.createDirAll comps).ok = (fs.createDirAll comps).ok := by
  induction comps using List.reverseRecOn with
  | nil => exact ⟨h, rfl⟩
  | append_singleton comps c ih =>
    obtain ⟨hshows, hok⟩ := ih
    rw [createDirAll_concat, FileSystem.createDirAll_concat, ← hok, h.isDir]
    have hmk := h.mkdir (comps ++ [c])
    have hmk' := hshows.mkdir (comps ++ [c])
    generalize d.mkdir (comps ++ [c]) = r, fs.mkdir (comps ++ [c]) = r' at hmk
    cases hmk with
    | ok h' => exact ⟨h', rfl⟩
    | error e =>
      by_cases he : e = .notFound
      · subst he
        by_cases hup : (d.createDirAll comps).ok = true
        · simp only [hup, if_true]
          rw [hshows.isDir]
          generalize (d.createDirAll comps).disk.mkdir (comps ++ [c]) = r,
            (fs.createDirAll comps).fs.mkdir (comps ++ [c]) = r' at hmk'
          cases hmk' with
          | ok h' => exact ⟨h', rfl⟩
          | error e' => exact ⟨hshows, rfl⟩
        · simp only [hup]
          exact ⟨hshows, hok⟩
      · cases e <;> first | exact absurd rfl he | exact ⟨h, rfl⟩

/-- A file that was opened shows what is written to it. -/
theorem Shows.setContent {d d' : Disk β} {fs : FileSystem (List β)} (h : Shows d fs)
    {l : List String} {name : String} {i : ℕ} (hopen : d.openAt (l ++ [name]) = some (d', i))
    (hdir : fs.node l = some .dir) (hfree : fs.node (l ++ [name]) ≠ some .dir)
    (content : List β) :
    Shows (d'.setContent i content) (fs.put l name (.file content) hdir hfree) := by
  obtain ⟨hext, -, hnode, hothers, hcontent⟩ := openAt_eq_some hopen
  refine ⟨fun loc => ?_, fun loc => (hext.links loc).trans (h.noLinks loc),
    h.own_of_extends hext, h.refuses.trans hext.refuses.symm,
    fun comps => (congrFun hext.cutsOff comps).trans (h.whole comps)⟩
  by_cases heq : loc = l ++ [name]
  · simp [heq, Disk.setContent, hnode, shown]
  · -- no other name gives that file
    have hother : ∀ j, d'.names.node loc = some (.file (.inode j)) → j ≠ i := by
      rintro j hj rfl
      exact heq (h.own_of_extends hext hj hnode)
    rw [node_put, Function.update_of_ne heq, h.node, ← hothers loc heq]
    change _ = (d'.names.node loc).bind (shown (Function.update d'.content i content))
    cases hn : d'.names.node loc with
    | none => rfl
    | some n =>
      cases n with
      | dir => rfl
      | file leaf =>
        cases leaf with
        | inode j =>
          have hj := hother j hn
          simp [shown, Function.update_of_ne hj, hcontent j hj]
        | link target => rfl

/-- **Files are written alike.** -/
theorem Shows.write {d : Disk β} {fs : FileSystem (List β)} (h : Shows d fs) (path : String)
    (content : List β) :
    (∃ fs', fs.write path content = .ok fs' ∧ (d.write path content).ok = true ∧
        Shows (d.write path content).disk fs') ∨
      ∃ e, fs.write path content = .error e ∧ d.write path content = ⟨d, false⟩ := by
  unfold Disk.write FileSystem.write
  rw [h.refuses]
  split_ifs with hnul haccepted hopened
  · exact .inr ⟨_, rfl, rfl⟩
  · exact .inr ⟨_, rfl, rfl⟩
  · exact .inr ⟨.isADirectory, by rw [hopened], rfl⟩
  obtain ⟨name, hname⟩ := Option.ne_none_iff_exists'.mp hopened
  have hcomps := components_of_openedName hname
  rw [h.follow, hname, hcomps, walk_append_singleton, List.dropLast_concat]
  dsimp only
  cases hwalk : fs.walk (components path).dropLast with
  | error e => exact .inr ⟨e, rfl, rfl⟩
  | ok l =>
    dsimp only [Except.bind]
    by_cases hdir : fs.node l = some .dir
    swap
    · rw [dif_neg hdir, if_neg hdir]
      exact .inr ⟨_, rfl, rfl⟩
    rw [dif_pos hdir, if_pos hdir]
    by_cases hfree : fs.node (l ++ [name]) = some .dir
    · have hopen : d.openAt (l ++ [name]) = none := by simp [openAt, (h.dir_iff _).mpr hfree]
      rw [dif_pos hfree]
      exact .inr ⟨_, rfl, by simp [enter, hopen]⟩
    · have hfollow : d.follow (components path) = .ok (l ++ [name]) := by
        rw [h.follow, hcomps, walk_append_singleton, hwalk]
        simp [Except.bind, hdir, enter]
      obtain ⟨d', i, hopen⟩ := exists_openAt hfollow fun hd => hfree ((h.dir_iff _).mp hd)
      rw [dif_neg hfree]
      refine .inl ⟨_, rfl, ?_, ?_⟩
      · simp [enter, hopen, h.whole]
      · simp only [enter, hopen, h.whole]
        exact h.setContent hopen hdir hfree content

end Disk
