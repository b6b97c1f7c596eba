import Mathlib.Data.List.Pairwise
import Mathlib.Data.Set.Basic
import P2pClipboard.FileForms

/-!
# The top level of a list of paths

`deduplicate_to_top_level_paths` of `src/main.rs`, which decides what is pasted after
several files were received.  A path below the receive directory is cut behind its
first component there, so that a directory takes the place of the files in it; the
receive directory itself is dropped, and any other path stays as it is.  The results
meet in a hash set, in which paths are the same when their components are.

## Main definitions

* `topLevel` — one path, as a list of components.
* `pathSet` — a list of paths as a set.
* `TopLevelCover` — what the result is to the list.

## Main results

* `pathSet_deduplicateToTopLevelPaths` — the result, as a set, is the image of the list.
* `deduplicateToTopLevelPaths_spec` — **the result covers the list, depends on nothing
  but the set of its paths, and is its own top level.**
-/

namespace P2pClipboard

open UnixPath

/-! ### One path, as a list of components -/

section TopLevel

variable {α : Type*} {dir comps top : List α}

/-- Two prefixes with one component below the directory are the same. -/
theorem eq_of_prefix_of_below {c d : α} (hc : dir ++ [c] <+: comps) (hd : dir ++ [d] <+: comps) :
    dir ++ [c] = dir ++ [d] :=
  (List.prefix_of_prefix_length_le hc hd (by simp)).eq_of_length (by simp)

variable [DecidableEq α]

/-- Cut behind the first component below `dir`; `dir` itself has none, and what is not
below it stays. -/
def topLevel (dir comps : List α) : Option (List α) :=
  if dir <+: comps then if comps = dir then none else some (comps.take (dir.length + 1))
  else some comps

theorem topLevel_eq_none_iff : topLevel dir comps = none ↔ comps = dir := by
  unfold topLevel
  split_ifs with hbelow hdir
  · simp [hdir]
  · simp [hdir]
  · constructor
    · intro hsome
      exact absurd hsome (by simp)
    · rintro rfl
      exact absurd (List.prefix_refl _) hbelow

theorem prefix_of_topLevel (h : topLevel dir comps = some top) : top <+: comps := by
  unfold topLevel at h
  split_ifs at h with hbelow hdir
  · obtain rfl := Option.some.inj h
    exact List.take_prefix _ _
  · obtain rfl := Option.some.inj h
    exact List.prefix_refl _

/-- What is below the directory is cut to one component more. -/
theorem topLevel_of_below (h : topLevel dir comps = some top) (hbelow : dir <+: comps) :
    ∃ c, top = dir ++ [c] := by
  obtain ⟨rest, rfl⟩ := hbelow
  cases rest with
  | nil =>
    rw [List.append_nil, topLevel_eq_none_iff.mpr rfl] at h
    exact absurd h (by simp)
  | cons c rest =>
    rw [topLevel, if_pos (List.prefix_append _ _), if_neg (by simp)] at h
    obtain rfl := Option.some.inj h
    refine ⟨c, ?_⟩
    rw [List.take_append]
    simp

/-- Only what was below the directory is below it then. -/
theorem below_of_topLevel (h : topLevel dir comps = some top) (hbelow : dir <+: top) :
    dir <+: comps := hbelow.trans (prefix_of_topLevel h)

/-- **The top level is its own top level.** -/
theorem topLevel_topLevel (h : topLevel dir comps = some top) : topLevel dir top = some top := by
  by_cases hbelow : dir <+: comps
  · obtain ⟨c, rfl⟩ := topLevel_of_below h hbelow
    rw [topLevel, if_pos (List.prefix_append _ _), if_neg (by simp)]
    simp
  · rw [topLevel, if_neg hbelow] at h
    obtain rfl := Option.some.inj h
    rw [topLevel, if_neg hbelow]

end TopLevel

/-! ### Sets of paths -/

/-- A list of paths as a set. -/
def pathSet (paths : List String) : Set (List Component) :=
  {comps | ∃ p ∈ paths, components p = comps}

theorem mem_pathSet {paths : List String} {comps : List Component} :
    comps ∈ pathSet paths ↔ ∃ p ∈ paths, components p = comps := Iff.rfl

/-- No two paths of a list are the same. -/
def DistinctPaths (paths : List String) : Prop :=
  paths.Pairwise fun p q => components p ≠ components q

/-- Paths of a list without repeats are the same when their components are. -/
theorem DistinctPaths.eq_of_components {paths : List String} (h : DistinctPaths paths)
    {p q : String} (hp : p ∈ paths) (hq : q ∈ paths) (heq : components p = components q) :
    p = q := by
  by_contra hne
  have hsymm : Std.Symm fun p q : String => components p ≠ components q :=
    ⟨fun _ _ h => h.symm⟩
  exact h.forall hp hq hne heq

theorem mem_pathSet_insertPath {paths : List String} {path : String} {comps : List Component} :
    comps ∈ pathSet (insertPath paths path) ↔ comps ∈ pathSet paths ∨ components path = comps := by
  unfold insertPath
  split_ifs with hany
  · obtain ⟨p, hp, heq⟩ := List.any_eq_true.mp hany
    constructor
    · exact fun h => .inl h
    · rintro (h | rfl)
      · exact h
      · exact ⟨p, hp, of_decide_eq_true heq⟩
  · simp [mem_pathSet, or_and_right, exists_or]

theorem distinctPaths_insertPath {paths : List String} (h : DistinctPaths paths) (path : String) :
    DistinctPaths (insertPath paths path) := by
  unfold insertPath
  split_ifs with hany
  · exact h
  · refine List.pairwise_append.mpr ⟨h, List.pairwise_singleton _ _, ?_⟩
    intro p hp q hq heq
    obtain rfl := List.mem_singleton.mp hq
    exact hany (List.any_eq_true.mpr ⟨p, hp, decide_eq_true heq⟩)

/-- **Inserting paths one after the other** gives the set of them. -/
theorem pathSet_foldl_insertPath (paths acc : List String) :
    pathSet (paths.foldl insertPath acc) = pathSet acc ∪ pathSet paths := by
  induction paths generalizing acc with
  | nil =>
    ext comps
    simp [mem_pathSet]
  | cons path paths ih =>
    rw [List.foldl_cons, ih]
    ext comps
    rw [Set.mem_union, mem_pathSet_insertPath, Set.mem_union, or_assoc]
    simp [mem_pathSet]

theorem distinctPaths_foldl_insertPath {paths acc : List String} (h : DistinctPaths acc) :
    DistinctPaths (paths.foldl insertPath acc) := by
  induction paths generalizing acc with
  | nil => exact h
  | cons path paths ih => exact ih (distinctPaths_insertPath h path)

/-! ### The code on one path -/

/-- What the loop inserts for a path, if anything. -/
def topLevelPath (path : String) : Option String :=
  match stripPrefix (components getFileReceiveDir) (components path) with
  | none => some path
  | some [] => none
  | some (first :: _) => some (join getFileReceiveDir (componentText first))

theorem deduplicateToTopLevelPaths_eq (paths : List String) :
    deduplicateToTopLevelPaths paths = (paths.filterMap topLevelPath).foldl insertPath [] := by
  rw [List.foldl_filterMap]
  unfold deduplicateToTopLevelPaths
  congr 1
  funext acc path
  unfold topLevelPath
  cases stripPrefix (components getFileReceiveDir) (components path) with
  | none => rfl
  | some rest => cases rest <;> rfl

/-- A component below the receive directory is joined to it as itself, dots and names
alike. -/
theorem components_join_componentText {path : String} {first : Component}
    (h : first ∈ (components path).drop (components getFileReceiveDir).length) :
    components (join getFileReceiveDir (componentText first)) =
      components getFileReceiveDir ++ [first] := by
  obtain ⟨segment, hmem, hseg⟩ := List.mem_filterMap.mp (mem_segments_of_below h)
  have hslash := not_mem_of_mem_segments hmem
  rw [componentText_of_ofSegment hseg, components_join isAbsolute_getFileReceiveDir
    getFileReceiveDir_sep (not_isAbsolute_of_not_mem hslash), segments_of_not_mem hslash]
  simp [hseg]

/-- **The code cuts the components of a path.** -/
theorem topLevelPath_components (path : String) :
    (topLevelPath path).map components =
      topLevel (components getFileReceiveDir) (components path) := by
  unfold topLevelPath topLevel stripPrefix
  by_cases hbelow : components getFileReceiveDir <+: components path
  swap
  · simp [hbelow]
  rw [if_pos hbelow, if_pos hbelow]
  obtain ⟨rest, hrest⟩ := hbelow
  have hdrop : (components path).drop (components getFileReceiveDir).length = rest := by
    rw [← hrest, List.drop_left]
  rw [hdrop]
  cases rest with
  | nil =>
    rw [List.append_nil] at hrest
    rw [if_pos hrest.symm]
    rfl
  | cons first rest =>
    have hne : components path ≠ components getFileReceiveDir := by
      intro heq
      rw [heq] at hrest
      exact absurd (List.append_right_eq_self.mp hrest) (by simp)
    have htop := components_join_componentText (hdrop ▸ List.mem_cons_self)
    rw [if_neg hne, ← hrest, List.take_append]
    simp [htop]

/-- **As a set, the result is the image of the list.** -/
theorem pathSet_deduplicateToTopLevelPaths (paths : List String) :
    pathSet (deduplicateToTopLevelPaths paths) =
      {top | ∃ comps ∈ pathSet paths, topLevel (components getFileReceiveDir) comps = some top} := by
  rw [deduplicateToTopLevelPaths_eq, pathSet_foldl_insertPath]
  ext top
  simp only [Set.mem_union, mem_pathSet, List.not_mem_nil, false_and, exists_false, false_or,
    List.mem_filterMap, Set.mem_ofPred_eq]
  constructor
  · rintro ⟨t, ⟨p, hp, ht⟩, rfl⟩
    exact ⟨components p, ⟨p, hp, rfl⟩, by rw [← topLevelPath_components, ht]; rfl⟩
  · rintro ⟨_, ⟨p, hp, rfl⟩, htop⟩
    rw [← topLevelPath_components] at htop
    obtain ⟨t, ht, rfl⟩ := Option.map_eq_some_iff.mp htop
    exact ⟨t, ⟨p, hp, ht⟩, rfl⟩

/-! ### What the result is to the list -/

/-- What the paths pasted are to the paths received.  A path is below the receive
directory when it begins with its components. -/
structure TopLevelCover (paths tops : List String) : Prop where
  /-- No two are the same. -/
  distinct : DistinctPaths tops
  /-- Each is a path received, or above one. -/
  sound : ∀ t ∈ tops, ∃ p ∈ paths, components t <+: components p
  /-- Those below the receive directory are directly in it. -/
  single : ∀ t ∈ tops, components getFileReceiveDir <+: components t →
    ∃ c, components t = components getFileReceiveDir ++ [c]
  /-- Every path received is covered, the receive directory itself apart. -/
  covers : ∀ p ∈ paths, components p ≠ components getFileReceiveDir →
    ∃ t ∈ tops, components t <+: components p
  /-- A path below the receive directory is covered once from there. -/
  unique : ∀ p ∈ paths, components getFileReceiveDir <+: components p →
    components p ≠ components getFileReceiveDir →
      ∃! t, t ∈ tops ∧ components getFileReceiveDir <+: components t ∧
        components t <+: components p

theorem topLevelCover_deduplicateToTopLevelPaths (paths : List String) :
    TopLevelCover paths (deduplicateToTopLevelPaths paths) := by
  have hset := pathSet_deduplicateToTopLevelPaths paths
  have hdistinct : DistinctPaths (deduplicateToTopLevelPaths paths) := by
    rw [deduplicateToTopLevelPaths_eq]
    exact distinctPaths_foldl_insertPath List.Pairwise.nil
  have hfrom : ∀ t ∈ deduplicateToTopLevelPaths paths, ∃ p ∈ paths,
      topLevel (components getFileReceiveDir) (components p) = some (components t) := by
    intro t ht
    have hmem : components t ∈ pathSet (deduplicateToTopLevelPaths paths) := ⟨t, ht, rfl⟩
    rw [hset] at hmem
    obtain ⟨_, ⟨p, hp, rfl⟩, htop⟩ := hmem
    exact ⟨p, hp, htop⟩
  have hto : ∀ p ∈ paths, components p ≠ components getFileReceiveDir →
      ∃ t ∈ deduplicateToTopLevelPaths paths,
        topLevel (components getFileReceiveDir) (components p) = some (components t) := by
    intro p hp hne
    obtain ⟨top, htop⟩ := Option.ne_none_iff_exists'.mp (mt topLevel_eq_none_iff.mp hne)
    have hmem : top ∈ pathSet (deduplicateToTopLevelPaths paths) := by
      rw [hset]
      exact ⟨_, ⟨p, hp, rfl⟩, htop⟩
    obtain ⟨t, ht, rfl⟩ := hmem
    exact ⟨t, ht, htop⟩
  have hsingle : ∀ t ∈ deduplicateToTopLevelPaths paths,
      components getFileReceiveDir <+: components t →
        ∃ c, components t = components getFileReceiveDir ++ [c] := by
    intro t ht hbelow
    obtain ⟨p, -, htop⟩ := hfrom t ht
    exact topLevel_of_below htop (below_of_topLevel htop hbelow)
  refine ⟨hdistinct, ?_, hsingle, ?_, ?_⟩
  · intro t ht
    obtain ⟨p, hp, htop⟩ := hfrom t ht
    exact ⟨p, hp, prefix_of_topLevel htop⟩
  · intro p hp hne
    obtain ⟨t, ht, htop⟩ := hto p hp hne
    exact ⟨t, ht, prefix_of_topLevel htop⟩
  · intro p hp hbelow hne
    obtain ⟨t, ht, htop⟩ := hto p hp hne
    obtain ⟨c, hc⟩ := topLevel_of_below htop hbelow
    refine ⟨t, ⟨ht, hc ▸ List.prefix_append _ _, prefix_of_topLevel htop⟩, ?_⟩
    rintro t' ⟨ht', hbelow', hpre'⟩
    obtain ⟨d, hd⟩ := hsingle t' ht' hbelow'
    refine hdistinct.eq_of_components ht' ht ?_
    rw [hd, hc]
    exact eq_of_prefix_of_below (hd ▸ hpre') (hc ▸ prefix_of_topLevel htop)

/-- **The top-level paths are a sound cover.**  They cover the list without repeats,
those below the receive directory directly in it; as a set they depend on the set of
paths only; and taking the top level again changes nothing. -/
theorem deduplicateToTopLevelPaths_spec (paths : List String) :
    TopLevelCover paths (deduplicateToTopLevelPaths paths) ∧
      (∀ paths', pathSet paths' = pathSet paths →
        pathSet (deduplicateToTopLevelPaths paths') =
          pathSet (deduplicateToTopLevelPaths paths)) ∧
      pathSet (deduplicateToTopLevelPaths (deduplicateToTopLevelPaths paths)) =
        pathSet (deduplicateToTopLevelPaths paths) := by
  refine ⟨topLevelCover_deduplicateToTopLevelPaths paths, ?_, ?_⟩
  · intro paths' hset
    rw [pathSet_deduplicateToTopLevelPaths, pathSet_deduplicateToTopLevelPaths, hset]
  · rw [pathSet_deduplicateToTopLevelPaths (deduplicateToTopLevelPaths paths),
      pathSet_deduplicateToTopLevelPaths paths]
    ext top
    constructor
    · rintro ⟨comps, ⟨comps', hmem, hcomps⟩, htop⟩
      obtain rfl : comps = top := Option.some.inj ((topLevel_topLevel hcomps).symm.trans htop)
      exact ⟨comps', hmem, hcomps⟩
    · rintro ⟨comps, hmem, htop⟩
      exact ⟨top, ⟨comps, hmem, htop⟩, topLevel_topLevel htop⟩

example : deduplicateToTopLevelPaths ["/tmp/dir/a.txt", "/tmp/dir/b.txt", "/tmp/file.txt"] =
    ["/tmp/dir", "/tmp/file.txt"] := by decide +kernel

end P2pClipboard
