import P2pClipboard.UriList

/-!
# The clipboard tools

On Linux the file list is written and read by command line tools, of which some may be
missing or fail.  `set_clipboard_file_list` tries `wl-copy` with the type that GNOME file
managers use, `wl-copy` with `text/uri-list`, and `xclip` with `text/uri-list`; each of them
replaces what was on the clipboard.  `get_clipboard_file_list` asks `xclip`, `xsel` and
`wl-paste`, and only for `text/uri-list` and plain text.  So a list that went out as the first
type is not found again.

## Main definitions

* `ClipboardTools` — the tools, over the state of a desktop.
* `setClipboardFileList`, `getClipboardFileListLinux` — the two functions.
* `ClipboardTools.Lawful` — what the tools do, in terms of what the clipboard offers.

## Main results

* `getClipboardFileListLinux_spec` — **when a list that was written is read back.**
-/

namespace P2pClipboard

open Lines

/-! ### The tools -/

/-- A command that ran, and what it printed. -/
structure CommandOutput where
  /-- Its status is zero. -/
  success : Bool
  /-- What it printed. -/
  stdout : Bytes
  deriving DecidableEq, Repr

/-- A command that was started and fed. -/
structure PipedRun where
  /-- It took all of its input. -/
  written : Bool
  /-- Its status is zero; `none` when it could not be waited for. -/
  status : Option Bool
  deriving DecidableEq, Repr

/-- A run counts when the input was taken and the status is zero. -/
def PipedRun.succeeded (run : PipedRun) : Bool := run.written && run.status == some true

/-- What a command printed, if it ran and its status is zero. -/
def printed (output : Option CommandOutput) : Option Bytes :=
  (output.filter CommandOutput.success).map CommandOutput.stdout

/-- The tools; one that cannot be started yields `none`. -/
structure ClipboardTools (σ : Type*) where
  /-- `xclip -selection clipboard -t text/uri-list -o`. -/
  xclipOut : σ → Option CommandOutput
  /-- `xsel --clipboard --output`. -/
  xselOut : σ → Option CommandOutput
  /-- `wl-paste --type text/uri-list`. -/
  wlPaste : σ → Option CommandOutput
  /-- `wl-copy --type`, with its input. -/
  wlCopy : String → Bytes → σ → Option PipedRun × σ
  /-- `xclip -selection clipboard -t … -i`, with its input. -/
  xclipIn : String → Bytes → σ → Option PipedRun × σ

/-- The type of GNOME file managers. -/
def gnomeCopiedFiles : String := "x-special/gnome-copied-files"

/-- The type of file lists. -/
def textUriList : String := "text/uri-list"

section Functions

variable {σ : Type*} (tools : ClipboardTools σ)

/-- A tool that was fed, and whether it succeeded. -/
def feed (run : Option PipedRun × σ) : Bool × σ := (run.1.any PipedRun.succeeded, run.2)

/-- `set_clipboard_mime_xclip`. -/
def setClipboardMimeXclip (mimeType content : String) (s : σ) : Bool × σ :=
  feed (tools.xclipIn mimeType (utf8 content) s)

/-- `set_clipboard_wayland`: the two types are tried one after the other. -/
def setClipboardWayland (paths : List String) (s : σ) : Bool × σ :=
  let gnomeFiles := "copy\n" ++ uriList paths
  let gnome := feed (tools.wlCopy gnomeCopiedFiles (utf8 gnomeFiles) s)
  if gnome.1 then (true, gnome.2)
  else feed (tools.wlCopy textUriList (utf8 (uriList paths)) gnome.2)

/-- `set_clipboard_file_list_linux`. -/
def setClipboardFileListLinux (paths : List String) (s : σ) : Bool × σ :=
  let wayland := setClipboardWayland tools paths s
  if wayland.1 then (true, wayland.2)
  else setClipboardMimeXclip tools textUriList (uriList paths) wayland.2

/-- `set_clipboard_file_list`, on Linux. -/
def setClipboardFileList (paths : List String) (s : σ) : Bool × σ :=
  if paths.isEmpty then (false, s) else setClipboardFileListLinux tools paths s

/-- The text of a tool that succeeded, unless it is blank. -/
def nonBlank (stdout : Bytes) : Option String :=
  let text := fromUtf8Lossy stdout
  if (trim text.toList).isEmpty then none else some text

/-- `try_read_uri_list_x11`: `xsel` is asked only when `xclip` fails. -/
def tryReadUriListX11 (s : σ) : Option String :=
  match printed (tools.xclipOut s) with
  | some stdout => nonBlank stdout
  | none =>
      match printed (tools.xselOut s) with
      | some stdout =>
          let text := fromUtf8Lossy stdout
          -- `xsel` cannot be asked for a type
          if "file://".toList.isPrefixOf text.toList then some text else none
      | none => none

/-- `try_read_uri_list_wayland`. -/
def tryReadUriListWayland (s : σ) : Option String :=
  match printed (tools.wlPaste s) with
  | some stdout => nonBlank stdout
  | none => none

/-- `get_clipboard_file_list_linux`. -/
def getClipboardFileListLinux (pathExists : String → Bool) (s : σ) : Option (List String) :=
  ((tryReadUriListX11 tools s).or (tryReadUriListWayland tools s)).bind (parseUriList pathExists)

end Functions

/-! ### What the tools do -/

/-- **What the tools do**, in terms of what the clipboard offers under each type.  A tool
that succeeds in writing replaces what was there, `wl-copy` possibly under the types of plain
text as well if its type is one of text.  Those that succeed in reading print what is offered,
`wl-paste` possibly with a line break behind it; `xsel` prints nothing when there is no plain
text. -/
structure ClipboardTools.Lawful {σ : Type*} (tools : ClipboardTools σ)
    (offers : σ → String → Option Bytes) : Prop where
  wlCopy : ∀ mimeType data s s', feed (tools.wlCopy mimeType data s) = (true, s') →
    offers s' mimeType = some data ∧ ∀ other, other ≠ mimeType → offers s' other = none ∨
      ("text/".toList.isPrefixOf mimeType.toList = true ∧ offers s' other = some data)
  xclipIn : ∀ mimeType data s s', feed (tools.xclipIn mimeType data s) = (true, s') →
    offers s' mimeType = some data ∧ ∀ other, other ≠ mimeType → offers s' other = none
  xclipOut : ∀ s out, printed (tools.xclipOut s) = some out → offers s textUriList = some out
  xselOut : ∀ s out, printed (tools.xselOut s) = some out →
    out = (offers s "UTF8_STRING").getD []
  wlPaste : ∀ s out, printed (tools.wlPaste s) = some out → ∃ data,
    offers s textUriList = some data ∧ (out = data ∨ out = data ++ utf8 "
")

/-- A tool can be had that prints the file list: `xclip`, or `xsel` if it prints anything, or
`wl-paste`. -/
def Readable {σ : Type*} (tools : ClipboardTools σ) (s : σ) : Prop :=
  (∃ out, printed (tools.xclipOut s) = some out) ∨
    (∃ out, printed (tools.xselOut s) = some out ∧ out ≠ []) ∨
      ∃ out, printed (tools.wlPaste s) = some out

/-! ### A line break behind the list -/

/-- A line break behind a text adds no path. -/
theorem filterMap_lines_append_newline (pathExists : String → Bool) (cs : List Char) :
    (lines (cs ++ ['\n'])).filterMap (parseUriLine pathExists) =
      (lines cs).filterMap (parseUriLine pathExists) := by
  rcases List.eq_nil_or_concat (cs.splitOn '\n') with hnil | ⟨init, last, hsplit⟩
  · exact absurd hnil (List.splitOn_ne_nil '\n' cs)
  · rw [List.concat_eq_append] at hsplit
    have hmore : (cs ++ ['\n']).splitOn '\n' = (init ++ [last]) ++ [[]] := by
      rw [List.splitOn_append_cons_self, hsplit]
      rfl
    have hline : [stripCr last].filterMap (parseUriLine pathExists) =
        (if last.isEmpty then [] else [last]).filterMap (parseUriLine pathExists) := by
      cases last with
      | nil => rfl
      | cons c last =>
        simp only [List.filterMap_cons, List.isEmpty_cons, parseUriLine, trim_stripCr]
        rfl
    rw [lines_of_splitOn hmore, lines_of_splitOn hsplit, List.map_append, List.filterMap_append,
      List.filterMap_append, List.filterMap_append, ← hline]
    exact List.append_nil _

/-- The texts a file list is read from. -/
def ListText (paths : List String) (text : String) : Prop :=
  text = uriList paths ∨ text = uriList paths ++ "\n"

/-- **The paths come back from either text exactly when each of them reads back.** -/
theorem parseUriList_listText_iff (pathExists : String → Bool) {paths : List String}
    (hne : paths ≠ []) (hexists : ∀ p ∈ paths, pathExists p = true) {text : String}
    (htext : ListText paths text) :
    parseUriList pathExists text = some paths ↔ ∀ p ∈ paths, ReadsBack p := by
  have hlines : (lines text.toList).filterMap (parseUriLine pathExists) =
      (lines (uriList paths).toList).filterMap (parseUriLine pathExists) := by
    rcases htext with rfl | rfl
    · rfl
    · rw [String.toList_append]
      exact filterMap_lines_append_newline pathExists _
  have hparse : parseUriList pathExists text = some paths ↔
      (lines (uriList paths).toList).filterMap (parseUriLine pathExists) = paths := by
    rw [parseUriList, hlines]
    constructor
    · intro h
      exact Option.some.inj (Option.ite_none_left_eq_some.mp h).2
    · intro h
      simp [h, hne]
  have hself : ∀ f : String → Option String,
      paths.filterMap f = paths ↔ ∀ p ∈ paths, f p = some p := fun f => by
    simpa using List.filterMap_eq_map_iff_forall_eq_some (f := f) (g := id) (l := paths)
  rw [hparse]
  constructor
  · intro h p hp
    have hbreaks := newline_not_mem_of_filterMap_eq hne h
    rw [filterMap_lines_uriList pathExists hne hbreaks, hself] at h
    exact ⟨hbreaks p hp, (parseUriLine_eq_some_iff (hexists p hp)).mp (h p hp)⟩
  · intro h
    rw [filterMap_lines_uriList pathExists hne fun p hp => (h p hp).1, hself]
    exact fun p hp => (parseUriLine_eq_some_iff (hexists p hp)).mpr (h p hp).2

/-- A file list begins with `file://`. -/
theorem exists_listText_eq {paths : List String} (hne : paths ≠ []) {text : String}
    (htext : ListText paths text) : ∃ rest, text.toList = "file://".toList ++ rest := by
  obtain ⟨p, paths, rfl⟩ := List.exists_cons_of_ne_nil hne
  have hlist : ∃ rest, (uriList (p :: paths)).toList = "file://".toList ++ rest := by
    rw [toList_uriList, uriLines, List.map_cons, String.toList_append]
    cases paths with
    | nil => exact ⟨p.toList, by simp⟩
    | cons q paths =>
      rw [List.map_cons, List.intercalate_cons_cons, List.append_assoc, List.append_assoc]
      exact ⟨_, rfl⟩
  obtain ⟨rest, hrest⟩ := hlist
  rcases htext with rfl | rfl
  · exact ⟨rest, hrest⟩
  · exact ⟨rest ++ "\n".toList, by rw [String.toList_append, hrest, List.append_assoc]⟩

/-- It is not blank. -/
theorem nonBlank_of_listText {paths : List String} (hne : paths ≠ []) {text : String}
    (htext : ListText paths text) : nonBlank (utf8 text) = some text := by
  obtain ⟨rest, hrest⟩ := exists_listText_eq hne htext
  have htrim : trim text.toList = "file://".toList ++ trimEnd rest := by
    have hend : trimEnd text.toList = "file://".toList ++ trimEnd rest := by
      rw [hrest]
      exact trimEnd_append "file:/".toList rest (c := '/') (by decide)
    rw [trim, hend]
    rfl
  simp only [nonBlank, fromUtf8Lossy_utf8, htrim]
  rfl

/-! ### What is found after a list was written -/

section Spec

variable {σ : Type*} {tools : ClipboardTools σ} {offers : σ → String → Option Bytes}

/-- The type of GNOME file managers is not one of text. -/
theorem not_text_gnomeCopiedFiles :
    "text/".toList.isPrefixOf gnomeCopiedFiles.toList = false := by decide

/-- **What is offered after a list was written**: the list, and under other types at most
the list; or, when `wl-copy` took it for GNOME, neither a file list nor plain text. -/
theorem offers_setClipboardFileList (hl : tools.Lawful offers) {paths : List String} {s s' : σ}
    (h : setClipboardFileList tools paths s = (true, s')) :
    paths ≠ [] ∧
      (((feed (tools.wlCopy gnomeCopiedFiles (utf8 ("copy\n" ++ uriList paths)) s)).1 = true ∧
          offers s' textUriList = none ∧ offers s' "UTF8_STRING" = none) ∨
        ((feed (tools.wlCopy gnomeCopiedFiles (utf8 ("copy\n" ++ uriList paths)) s)).1 = false ∧
          offers s' textUriList = some (utf8 (uriList paths)) ∧
          (offers s' "UTF8_STRING" = none ∨
            offers s' "UTF8_STRING" = some (utf8 (uriList paths))))) := by
  have hne : paths ≠ [] := by
    rintro rfl
    cases (Prod.mk.inj h).1
  refine ⟨hne, ?_⟩
  rw [setClipboardFileList, if_neg (by simpa using hne), setClipboardFileListLinux,
    setClipboardWayland] at h
  cases hgnome : feed (tools.wlCopy gnomeCopiedFiles (utf8 ("copy\n" ++ uriList paths)) s) with
  | mk took s₁ =>
    rw [hgnome] at h
    cases took with
    | true =>
      obtain ⟨-, rfl⟩ := Prod.mk.inj h
      obtain ⟨-, hother⟩ := hl.wlCopy _ _ _ _ hgnome
      have hnone : ∀ other, other ≠ gnomeCopiedFiles → offers s₁ other = none := by
        intro other hne
        rcases hother other hne with hnone | ⟨htext, -⟩
        · exact hnone
        · rw [not_text_gnomeCopiedFiles] at htext
          cases htext
      exact .inl ⟨rfl, hnone _ (by decide), hnone _ (by decide)⟩
    | false =>
      refine .inr ⟨rfl, ?_⟩
      simp only [Bool.false_eq_true, if_false] at h
      cases hlist : feed (tools.wlCopy textUriList (utf8 (uriList paths)) s₁) with
      | mk took s₂ =>
        rw [hlist] at h
        cases took with
        | true =>
          obtain ⟨-, rfl⟩ := Prod.mk.inj h
          obtain ⟨hoffered, hother⟩ := hl.wlCopy _ _ _ _ hlist
          exact ⟨hoffered, (hother _ (by decide)).imp_right And.right⟩
        | false =>
          obtain ⟨hoffered, hother⟩ := hl.xclipIn _ _ _ _ h
          exact ⟨hoffered, .inl (hother _ (by decide))⟩

section Readers

variable {paths : List String} {s : σ}

/-- What `wl-paste` makes of a list. -/
theorem tryReadUriListWayland_of_offers (hl : tools.Lawful offers) (hne : paths ≠ [])
    (hlist : offers s textUriList = some (utf8 (uriList paths))) :
    ((∃ out, printed (tools.wlPaste s) = some out) ∧
        ∃ text, ListText paths text ∧ tryReadUriListWayland tools s = some text) ∨
      ((¬ ∃ out, printed (tools.wlPaste s) = some out) ∧
        tryReadUriListWayland tools s = none) := by
  unfold tryReadUriListWayland
  cases hwl : printed (tools.wlPaste s) with
  | none => exact .inr ⟨by simp, rfl⟩
  | some out =>
    obtain ⟨data, hdata, hout⟩ := hl.wlPaste s out hwl
    obtain rfl := Option.some.inj (hdata.symm.trans hlist)
    refine .inl ⟨⟨out, rfl⟩, ?_⟩
    rcases hout with rfl | rfl
    · exact ⟨_, .inl rfl, nonBlank_of_listText hne (.inl rfl)⟩
    · refine ⟨_, .inr rfl, ?_⟩
      rw [← utf8_append]
      exact nonBlank_of_listText hne (.inr rfl)

/-- What `xclip` and `xsel` make of it. -/
theorem tryReadUriListX11_of_offers (hl : tools.Lawful offers) (hne : paths ≠ [])
    (hlist : offers s textUriList = some (utf8 (uriList paths)))
    (htext : offers s "UTF8_STRING" = none ∨
      offers s "UTF8_STRING" = some (utf8 (uriList paths))) :
    (((∃ out, printed (tools.xclipOut s) = some out) ∨
          ∃ out, printed (tools.xselOut s) = some out ∧ out ≠ []) ∧
        tryReadUriListX11 tools s = some (uriList paths)) ∨
      (¬ ((∃ out, printed (tools.xclipOut s) = some out) ∨
          ∃ out, printed (tools.xselOut s) = some out ∧ out ≠ []) ∧
        tryReadUriListX11 tools s = none) := by
  unfold tryReadUriListX11
  cases hxclip : printed (tools.xclipOut s) with
  | some out =>
    obtain rfl := Option.some.inj ((hl.xclipOut s out hxclip).symm.trans hlist)
    exact .inl ⟨.inl ⟨_, rfl⟩, nonBlank_of_listText hne (.inl rfl)⟩
  | none =>
    cases hxsel : printed (tools.xselOut s) with
    | none => exact .inr ⟨by simp, rfl⟩
    | some out =>
      have hout := hl.xselOut s out hxsel
      rcases htext with hnone | hsame
      · -- without plain text `xsel` prints nothing
        rw [hnone] at hout
        obtain rfl : out = [] := hout
        exact .inr ⟨by simp, rfl⟩
      · rw [hsame] at hout
        obtain rfl : out = utf8 (uriList paths) := hout
        obtain ⟨rest, hrest⟩ := exists_listText_eq hne (.inl rfl)
        refine .inl ⟨.inr ⟨_, rfl, fun hnil => ?_⟩, ?_⟩
        · have hempty : uriList paths = "" := utf8_injective hnil
          rw [hempty] at hrest
          cases hrest
        · simp only [fromUtf8Lossy_utf8]
          exact if_pos (List.isPrefixOf_iff_prefix.mpr ⟨rest, hrest.symm⟩)

/-- **What the readers make of the clipboard** when it offers a list. -/
theorem getClipboardFileListLinux_of_offers (hl : tools.Lawful offers) (hne : paths ≠ [])
    (hlist : offers s textUriList = some (utf8 (uriList paths)))
    (htext : offers s "UTF8_STRING" = none ∨
      offers s "UTF8_STRING" = some (utf8 (uriList paths))) (pathExists : String → Bool) :
    (Readable tools s ∧ ∃ text, ListText paths text ∧
        getClipboardFileListLinux tools pathExists s = parseUriList pathExists text) ∨
      (¬ Readable tools s ∧ getClipboardFileListLinux tools pathExists s = none) := by
  unfold getClipboardFileListLinux
  rcases tryReadUriListX11_of_offers hl hne hlist htext with ⟨hx11, hsome⟩ | ⟨hx11, hnone⟩
  · refine .inl ⟨?_, _, .inl rfl, by rw [hsome, Option.some_or, Option.bind_some]⟩
    rcases hx11 with hxclip | hxsel
    · exact .inl hxclip
    · exact .inr (.inl hxsel)
  · rw [hnone, Option.none_or]
    rcases tryReadUriListWayland_of_offers hl hne hlist with ⟨hwl, text, htext, hsome⟩ |
      ⟨hwl, hnone⟩
    · exact .inl ⟨.inr (.inr hwl), text, htext, by rw [hsome, Option.bind_some]⟩
    · refine .inr ⟨?_, by rw [hnone, Option.bind_none]⟩
      rintro (hxclip | hxsel | hpaste)
      · exact hx11 (.inl hxclip)
      · exact hx11 (.inr hxsel)
      · exact hwl hpaste

/-- Nothing is found when the clipboard offers neither a list nor plain text. -/
theorem getClipboardFileListLinux_eq_none (hl : tools.Lawful offers)
    (hlist : offers s textUriList = none) (htext : offers s "UTF8_STRING" = none)
    (pathExists : String → Bool) : getClipboardFileListLinux tools pathExists s = none := by
  have hxclip : printed (tools.xclipOut s) = none := by
    rw [Option.eq_none_iff_forall_ne_some]
    intro out h
    cases hlist.symm.trans (hl.xclipOut s out h)
  have hpaste : printed (tools.wlPaste s) = none := by
    rw [Option.eq_none_iff_forall_ne_some]
    intro out h
    obtain ⟨data, hdata, -⟩ := hl.wlPaste s out h
    cases hlist.symm.trans hdata
  have hx11 : tryReadUriListX11 tools s = none := by
    unfold tryReadUriListX11
    rw [hxclip]
    cases hxsel : printed (tools.xselOut s) with
    | none => rfl
    | some out =>
      have hout := hl.xselOut s out hxsel
      rw [htext] at hout
      obtain rfl : out = [] := hout
      rfl
  rw [getClipboardFileListLinux, hx11, tryReadUriListWayland, hpaste]
  rfl

end Readers

/-- **When a list that was written is read back.**  If `wl-copy` took it under the type of
GNOME file managers, no file list is found at all.  Otherwise the list itself is found exactly
when a tool prints it and each of its paths, which exist, reads back. -/
theorem getClipboardFileListLinux_spec (hl : tools.Lawful offers) {paths : List String}
    {s s' : σ} (h : setClipboardFileList tools paths s = (true, s')) (pathExists : String → Bool)
    (hexists : ∀ p ∈ paths, pathExists p = true) :
    ((feed (tools.wlCopy gnomeCopiedFiles (utf8 ("copy\n" ++ uriList paths)) s)).1 = true →
        getClipboardFileListLinux tools pathExists s' = none) ∧
      (getClipboardFileListLinux tools pathExists s' = some paths ↔
        (feed (tools.wlCopy gnomeCopiedFiles (utf8 ("copy\n" ++ uriList paths)) s)).1 = false ∧
          Readable tools s' ∧ ∀ p ∈ paths, ReadsBack p) := by
  obtain ⟨hne, ⟨hgnome, hlist, htext⟩ | ⟨hgnome, hlist, htext⟩⟩ :=
    offers_setClipboardFileList hl h
  · have hnone := getClipboardFileListLinux_eq_none hl hlist htext pathExists
    rw [hnone, hgnome]
    simp
  · rw [hgnome]
    refine ⟨nofun, ?_⟩
    rcases getClipboardFileListLinux_of_offers hl hne hlist htext pathExists with
      ⟨hreadable, text, hlistText, hget⟩ | ⟨hunreadable, hget⟩
    · rw [hget, parseUriList_listText_iff pathExists hne hexists hlistText]
      exact ⟨fun hback => ⟨rfl, hreadable, hback⟩, fun hall => hall.2.2⟩
    · rw [hget]
      exact ⟨nofun, fun hall => absurd hall.2.1 hunreadable⟩

end Spec

/-! ### A desktop with `xclip` -/

/-- Only `xclip` is installed; the clipboard offers what it was given last. -/
private def xclipTools : ClipboardTools (Option (String × Bytes)) where
  xclipOut s := some ⟨s.any (·.1 == textUriList), (s.map Prod.snd).getD []⟩
  xselOut _ := none
  wlPaste _ := none
  wlCopy _ _ s := (none, s)
  xclipIn mimeType data _ := (some ⟨true, some true⟩, some (mimeType, data))

private def xclipOffers (s : Option (String × Bytes)) (mimeType : String) : Option Bytes :=
  (s.filter (·.1 == mimeType)).map Prod.snd

private theorem xclipTools_lawful : xclipTools.Lawful xclipOffers := by
  refine ⟨?_, ?_, ?_, nofun, nofun⟩
  · intro mimeType data s s' h
    cases (Prod.mk.inj h).1
  · intro mimeType data s s' h
    obtain rfl : some (mimeType, data) = s' := (Prod.mk.inj h).2
    exact ⟨by simp [xclipOffers], fun other hne => by simpa [xclipOffers] using hne.symm⟩
  · intro s out h
    cases s with
    | none => cases h
    | some p =>
      by_cases hlist : p.1 = textUriList
      · obtain ⟨mimeType, data⟩ := p
        obtain rfl : mimeType = textUriList := hlist
        obtain rfl : data = out := by simpa [xclipTools, printed] using h
        simp [xclipOffers]
      · simp [xclipTools, printed, hlist] at h

/-- A plain path comes back. -/
theorem getClipboardFileListLinux_spec_plain : xclipTools.Lawful xclipOffers ∧
    ∃ s', setClipboardFileList xclipTools ["/tmp/a.txt"] none = (true, s') ∧
      getClipboardFileListLinux xclipTools (fun _ => true) s' = some ["/tmp/a.txt"] := by
  have hset : setClipboardFileList xclipTools ["/tmp/a.txt"] none =
      (true, some (textUriList, utf8 (uriList ["/tmp/a.txt"]))) := rfl
  refine ⟨xclipTools_lawful, _, hset, ?_⟩
  refine (getClipboardFileListLinux_spec xclipTools_lawful hset (fun _ => true)
    (fun _ _ => rfl)).2.mpr ⟨rfl, .inl ⟨_, rfl⟩, ?_⟩
  intro p hp
  obtain rfl := List.mem_singleton.mp hp
  exact ⟨by decide, by decide, readsVerbatim_of_ascii (List.all_eq_true.mp (by decide +kernel))⟩

end P2pClipboard
