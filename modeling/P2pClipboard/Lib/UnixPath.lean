import Mathlib.Data.List.Basic
import Mathlib.Data.List.Infix
import Mathlib.Tactic.Common

/-!
# Unix paths

A path is a text.  Its components are what stands between the slashes: empty ones
and single dots are skipped, double dots are kept.  `join`, `parent`, `fileName`
and `stripPrefix` are those of Rust's `std::path` on Unix.

A location is where a path leads when it is read from the root: a list of names,
in which a double dot has removed the name before it.

## Main definitions

* `UnixPath.components` — the components of a path.
* `UnixPath.join`, `UnixPath.parent`, `UnixPath.fileName`, `UnixPath.stripPrefix`.
* `UnixPath.locate` — lexical normalisation.

## Main results

* `UnixPath.components_join_intercalate` — names joined by slashes are the
  components again.
-/

/-- A component of a path. -/
inductive Component
  /-- The slash at the beginning. -/
  | rootDir
  /-- A dot at the beginning. -/
  | curDir
  /-- A double dot. -/
  | parentDir
  /-- A name. -/
  | normal (name : String)
  deriving DecidableEq, Repr

namespace UnixPath

/-! ### Components -/

/-- The pieces of a path between its slashes. -/
def segments (path : String) : List String := (path.toList.splitOn '/').map String.ofList

/-- What a list is split into does not contain the separator. -/
theorem not_mem_of_mem_splitOn {α : Type*} [DecidableEq α] {sep : α} {xs l : List α}
    (h : l ∈ xs.splitOn sep) : sep ∉ l := by
  induction xs generalizing l with
  | nil =>
    obtain rfl := List.mem_singleton.mp h
    exact List.not_mem_nil
  | cons x xs ih =>
    rw [List.splitOn_cons_eq_if_modifyHead] at h
    split at h
    · rcases List.mem_cons.mp h with rfl | h
      · exact List.not_mem_nil
      · exact ih h
    · rename_i hx
      obtain ⟨first, rest, hsplit⟩ := List.exists_cons_of_ne_nil (List.splitOn_ne_nil sep xs)
      rw [hsplit] at h ih
      rcases List.mem_cons.mp h with rfl | h
      · have hne : sep ≠ x := fun heq => hx (by simp [heq])
        simpa [hne] using ih List.mem_cons_self
      · exact ih (List.mem_cons_of_mem _ h)

theorem not_mem_of_mem_segments {path segment : String} (h : segment ∈ segments path) :
    '/' ∉ segment.toList := by
  obtain ⟨l, hl, rfl⟩ := List.mem_map.mp h
  simpa using not_mem_of_mem_splitOn hl

/-- A text without a slash is one piece. -/
theorem segments_of_not_mem {path : String} (h : '/' ∉ path.toList) : segments path = [path] := by
  rw [segments, List.splitOn_eq_singleton h]
  simp

/-- The component a piece stands for, wherever it is not the first. -/
def ofSegment (segment : String) : Option Component :=
  if segment = "" ∨ segment = "." then none
  else if segment = ".." then some .parentDir
  else some (.normal segment)

/-- A path that starts at the root. -/
def IsAbsolute (path : String) : Prop := path.toList.head? = some '/'

instance (path : String) : Decidable (IsAbsolute path) := inferInstanceAs (Decidable (_ = _))

/-- What a path starts with, if it is not a name: the root, or a dot. -/
def leading (path : String) : List Component :=
  if IsAbsolute path then [.rootDir]
  else if (segments path).head? = some "." then [.curDir]
  else []

/-- The components of a path. -/
def components (path : String) : List Component :=
  leading path ++ (segments path).filterMap ofSegment

/-- Every component but the first comes from a piece. -/
theorem mem_of_mem_drop_components {path : String} {c : Component}
    (h : c ∈ (components path).drop 1) : c ∈ (segments path).filterMap ofSegment := by
  rw [components, leading] at h
  split_ifs at h
  · simpa using h
  · simpa using h
  · exact List.mem_of_mem_drop h

/-- The path reached from `base`; an absolute path replaces it. -/
def join (base path : String) : String :=
  if IsAbsolute path then path
  else if base.toList.getLast?.any (· ≠ '/') then base ++ "/" ++ path
  else base ++ path

/-- The components without the last one; the root and the empty path have no
parent. -/
def parent (comps : List Component) : Option (List Component) :=
  match comps.getLast? with
  | none => none
  | some .rootDir => none
  | some _ => some comps.dropLast

/-- The last component, if it is a name. -/
def fileName (comps : List Component) : Option String :=
  match comps.getLast? with
  | some (.normal name) => some name
  | _ => none

/-- The components behind those of `base`. -/
def stripPrefix (base comps : List Component) : Option (List Component) :=
  if base <+: comps then some (comps.drop base.length) else none

/-- The name a path gives to the file it is opened as, if it can be one: a path
that ends in a slash or in dots is a directory's. -/
def openedName (path : String) : Option String :=
  match (segments path).getLast? with
  | none => none
  | some segment => if segment = "" ∨ segment = "." ∨ segment = ".." then none else some segment

/-- A path that ends in a name has it as its last component. -/
theorem components_of_openedName {path name : String} (h : openedName path = some name) :
    components path = (components path).dropLast ++ [.normal name] := by
  obtain ⟨init, hinit, hname⟩ : ∃ init, segments path = init ++ [name] ∧
      ofSegment name = some (.normal name) := by
    unfold openedName at h
    cases hlast : (segments path).getLast? with
    | none => simp [hlast] at h
    | some segment =>
      simp only [hlast] at h
      split at h
      · exact absurd h (by simp)
      · rename_i hseg
        obtain rfl := Option.some.inj h
        obtain ⟨init, hinit⟩ := List.getLast?_eq_some_iff.mp hlast
        rw [not_or, not_or] at hseg
        exact ⟨init, hinit, by simp [ofSegment, hseg]⟩
  have hlast : components path = (leading path ++ init.filterMap ofSegment) ++ [.normal name] := by
    simp [components, hinit, List.filterMap_append, hname]
  rw [hlast, List.dropLast_concat]

/-- A path that ends in a name has a parent. -/
theorem parent_of_openedName {path name : String} (h : openedName path = some name) :
    parent (components path) = some (components path).dropLast := by
  have hlast := components_of_openedName h
  unfold parent
  rw [hlast]
  simp

/-- A path of two components or more has a parent. -/
theorem parent_components {path : String} (h : (components path).dropLast ≠ []) :
    parent (components path) = some (components path).dropLast := by
  have hne : (segments path).filterMap ofSegment ≠ [] := by
    intro hnil
    have hle : (leading path).length ≤ 1 := by
      unfold leading
      split_ifs <;> simp
    refine h (List.eq_nil_of_length_eq_zero ?_)
    rw [components, hnil, List.append_nil, List.length_dropLast]
    omega
  obtain ⟨c, hc⟩ : ∃ c, (components path).getLast? = some c ∧ c ≠ .rootDir := by
    refine ⟨_, by rw [components, List.getLast?_append_of_ne_nil _ hne,
      List.getLast?_eq_some_getLast hne], ?_⟩
    obtain ⟨segment, -, hseg⟩ := List.mem_filterMap.mp (List.getLast_mem hne)
    intro hroot
    rw [hroot] at hseg
    unfold ofSegment at hseg
    split_ifs at hseg <;> simp at hseg
  obtain ⟨hlast, hroot⟩ := hc
  cases c <;> simp_all [parent]

/-! ### Locations -/

/-- Where one component leads. -/
def enter (loc : List String) : Component → List String
  | .rootDir => []
  | .curDir => loc
  | .parentDir => loc.dropLast
  | .normal name => loc ++ [name]

/-- Where a path leads when it is read from the root. -/
def locate (comps : List Component) : List String := comps.foldl enter []

@[simp] theorem locate_nil : locate [] = [] := rfl

@[simp] theorem locate_concat (comps : List Component) (c : Component) :
    locate (comps ++ [c]) = enter (locate comps) c := by
  simp [locate]

/-- Names lead straight down. -/
theorem locate_append_normal (comps : List Component) (names : List String) :
    locate (comps ++ names.map .normal) = locate comps ++ names := by
  induction names generalizing comps with
  | nil => simp
  | cons name names ih =>
    have := ih (comps ++ [.normal name])
    simpa [enter, List.append_assoc] using this

/-! ### Joining names by slashes -/

/-- A name that can stand between slashes and names an entry of a directory. -/
def IsName (name : String) : Prop :=
  name ≠ "" ∧ name ≠ "." ∧ name ≠ ".." ∧ '/' ∉ name.toList ∧ '\x00' ∉ name.toList

instance (name : String) : Decidable (IsName name) :=
  inferInstanceAs (Decidable (_ ∧ _ ∧ _ ∧ _ ∧ _))

theorem ofSegment_of_isName {name : String} (h : IsName name) :
    ofSegment name = some (.normal name) := by
  simp [ofSegment, h.1, h.2.1, h.2.2.1]

/-- What has no slash in it and is joined by slashes are the pieces again. -/
theorem segments_intercalate_of_not_mem {names : List String} (hne : names ≠ [])
    (h : ∀ n ∈ names, '/' ∉ n.toList) : segments ("/".intercalate names) = names := by
  have hsplit : ("/".intercalate names).toList.splitOn '/' = names.map String.toList := by
    rw [String.toList_intercalate]
    refine List.splitOn_intercalate '/' ?_ (by simpa using hne)
    intro l hl
    obtain ⟨n, hn, rfl⟩ := List.mem_map.mp hl
    exact h n hn
  rw [segments, hsplit, List.map_map]
  simp [Function.comp_def]

/-- Names joined by slashes are the pieces again. -/
theorem segments_intercalate {names : List String} (hne : names ≠ [])
    (h : ∀ n ∈ names, IsName n) : segments ("/".intercalate names) = names :=
  segments_intercalate_of_not_mem hne fun n hn => (h n hn).2.2.2.1

/-- Names joined by slashes are no absolute path. -/
theorem not_isAbsolute_intercalate {names : List String} (hne : names ≠ [])
    (h : ∀ n ∈ names, IsName n) : ¬ IsAbsolute ("/".intercalate names) := by
  obtain ⟨first, rest, rfl⟩ := List.exists_cons_of_ne_nil hne
  obtain ⟨hfirst, -, -, hslash, -⟩ := h first List.mem_cons_self
  obtain ⟨c, cs, hc⟩ : ∃ c cs, first.toList = c :: cs :=
    List.exists_cons_of_ne_nil (by simpa using hfirst)
  rw [hc] at hslash
  intro habs
  rw [IsAbsolute, String.toList_intercalate, List.map_cons, hc] at habs
  cases rest with
  | nil => simp_all [List.intercalate]
  | cons second rest => simp_all [List.intercalate]

section Join

variable {base path : String}

theorem join_eq (hsep : base.toList.getLast?.any (· ≠ '/') = true) (hpath : ¬ IsAbsolute path) :
    join base path = base ++ "/" ++ path := by
  rw [join, if_neg hpath, if_pos hsep]

theorem segments_join (hsep : base.toList.getLast?.any (· ≠ '/') = true)
    (hpath : ¬ IsAbsolute path) :
    segments (join base path) = segments base ++ segments path := by
  have htext : (join base path).toList = base.toList ++ '/' :: path.toList := by
    simp [join_eq hsep hpath, String.toList_append]
  rw [segments, htext, List.splitOn_append_cons_self, List.map_append]
  rfl

/-- What is joined to an absolute path follows its components. -/
theorem components_join (hbase : IsAbsolute base)
    (hsep : base.toList.getLast?.any (· ≠ '/') = true) (hpath : ¬ IsAbsolute path) :
    components (join base path) = components base ++ (segments path).filterMap ofSegment := by
  have habs : IsAbsolute (join base path) := by
    have hne : base.toList ≠ [] := by
      intro hnil
      simp [IsAbsolute, hnil] at hbase
    simpa [IsAbsolute, join_eq hsep hpath, List.head?_append_of_ne_nil _ hne] using hbase
  rw [components, components, leading, leading, if_pos habs, if_pos hbase,
    segments_join hsep hpath, List.filterMap_append, List.append_assoc]

variable {names : List String}

/-- **Names joined to an absolute path lead straight down from it.** -/
theorem components_join_intercalate (hbase : IsAbsolute base)
    (hsep : base.toList.getLast?.any (· ≠ '/') = true)
    (hne : names ≠ []) (h : ∀ n ∈ names, IsName n) :
    components (join base ("/".intercalate names)) = components base ++ names.map .normal := by
  have hnames : names.filterMap ofSegment = names.map .normal := by
    rw [← List.filterMap_eq_map]
    exact List.filterMap_congr fun n hn => ofSegment_of_isName (h n hn)
  rw [components_join hbase hsep (not_isAbsolute_intercalate hne h), segments_intercalate hne h,
    hnames]

/-- Such a path ends in its last name. -/
theorem openedName_join_intercalate (hsep : base.toList.getLast?.any (· ≠ '/') = true)
    {last : String} (h : ∀ n ∈ names ++ [last], IsName n) :
    openedName (join base ("/".intercalate (names ++ [last]))) = some last := by
  have hne : names ++ [last] ≠ [] := by simp
  obtain ⟨h₁, h₂, h₃, -⟩ := h last (by simp)
  rw [openedName, segments_join hsep (not_isAbsolute_intercalate hne h),
    segments_intercalate hne h, ← List.append_assoc, List.getLast?_concat]
  simp [h₁, h₂, h₃]

end Join

end UnixPath
