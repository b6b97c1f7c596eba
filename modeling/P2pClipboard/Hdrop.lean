import P2pClipboard.Lib.Codec
import P2pClipboard.Lib.Terminated
import P2pClipboard.Lib.Utf16

/-!
# The file list on the Windows clipboard

`set_clipboard_file_list_windows` and `get_clipboard_file_list_windows` of
`src/native_clipboard.rs`.  The list is handed over in a block of global memory: a
`DROPFILES` header, then the UTF-16 units of each path with a zero behind it, and
one more zero.  Both sides work with raw pointers; here an address counts bytes
from the start of the block, and an access outside the block is a fault.

## Main definitions

* `DropFiles`, `GlobalBlock` — the header, and a block of memory.
* `fillDropFiles`, `setClipboardFileListWindows` — the writer.
* `getClipboardFileListWindows` — the reader, for both encodings.

## Main results

* `fillDropFiles_eq` — the writer fills the block from its start to its end.
* `dropFiles_round_trip` — **what is written is read back, within the block.**
-/

namespace P2pClipboard

open Terminated

/-! ### Memory -/

/-- `DROPFILES`. -/
structure DropFiles where
  /-- The offset of the paths, in bytes. -/
  pFiles : UInt32
  ptX : Int32
  ptY : Int32
  fNC : Int32
  /-- Whether the paths are UTF-16. -/
  fWide : Int32
  deriving DecidableEq, Repr

/-- `size_of::<DROPFILES>()`: five fields of four bytes. -/
def dropfilesSize : ℕ := 4 + 4 + 4 + 4 + 4

/-- A block of global memory: a header and 16-bit units behind it. -/
structure GlobalBlock where
  header : DropFiles
  units : List UInt16
  deriving DecidableEq, Repr

namespace GlobalBlock

/-- The size of a block in bytes. -/
def size (block : GlobalBlock) : ℕ := dropfilesSize + block.units.length * 2

/-- The unit at an address behind the header. -/
def unitAt (block : GlobalBlock) (addr : ℕ) : Option UInt16 :=
  if addr < dropfilesSize || addr % 2 != 0 then none
  else block.units[(addr - dropfilesSize) / 2]?

/-- The byte at an address behind the header. -/
def byteAt (block : GlobalBlock) (addr : ℕ) : Option UInt8 :=
  if addr < dropfilesSize then none
  else
    block.units[(addr - dropfilesSize) / 2]?.map fun (u : UInt16) =>
      if addr % 2 = 0 then u.toUInt8 else (u >>> 8).toUInt8

/-- Write a unit at an address behind the header. -/
def setUnit (block : GlobalBlock) (addr : ℕ) (u : UInt16) : Option GlobalBlock :=
  if (block.unitAt addr).isSome then
    some { block with units := block.units.set ((addr - dropfilesSize) / 2) u }
  else none

/-- `GlobalAlloc` with `GMEM_ZEROINIT`, for a size in bytes. -/
def alloc (size : ℕ) : GlobalBlock :=
  ⟨⟨0, 0, 0, 0, 0⟩, List.replicate ((size - dropfilesSize) / 2) 0⟩

end GlobalBlock

/-! ### The writer -/

/-- The units of a path, with the zero behind it. -/
def widePath (path : String) : List UInt16 := Utf16.encode path ++ [0]

/-- The units of all paths, and one for the last zero. -/
def totalChars (paths : List String) : ℕ :=
  ((paths.map widePath).map List.length).sum + 1

/-- The size of the block, in bytes. -/
def totalSize (paths : List String) : ℕ := dropfilesSize + totalChars paths * 2

/-- The writer on its way: the block, where it writes next, and where it has
written. -/
structure Filling where
  block : GlobalBlock
  dest : ℕ
  written : List ℕ

/-- Write one unit and move on. -/
def pushUnit (f : Filling) (u : UInt16) : Option Filling :=
  (f.block.setUnit f.dest u).map fun block => ⟨block, f.dest + 2, f.written ++ [f.dest]⟩

/-- The part of `set_clipboard_file_list_windows` that allocates the block and fills
it; `none` is a write outside the block. -/
def fillDropFiles (paths : List String) : Option Filling := do
  let block := GlobalBlock.alloc (totalSize paths)
  let header : DropFiles := ⟨UInt32.ofNat dropfilesSize, 0, 0, 0, 1⟩
  let f ← (paths.map widePath).foldlM (fun f wide => wide.foldlM pushUnit f)
    ⟨{ block with header := header }, dropfilesSize, []⟩
  let block ← f.block.setUnit f.dest 0
  some ⟨block, f.dest, f.written ++ [f.dest]⟩

/-- Which calls of the writer succeed. -/
structure WriteCalls where
  openClipboard : Bool
  emptyClipboard : Bool
  globalAlloc : Bool
  globalLock : Bool
  setClipboardData : Bool

/-- `set_clipboard_file_list_windows`: its result, and the block handed over. -/
def setClipboardFileListWindows (calls : WriteCalls) (paths : List String) :
    Option (Bool × Option GlobalBlock) :=
  if calls.openClipboard && calls.emptyClipboard && calls.globalAlloc && calls.globalLock then
    (fillDropFiles paths).map fun f =>
      if calls.setClipboardData then (true, some f.block) else (false, none)
  else some (false, none)

/-! ### The reader -/

/-- `get_clipboard_file_list_windows`, for the block the clipboard hands out, if it
does.  The loops are given a number of steps. -/
def getClipboardFileListWindows (data : Option GlobalBlock) (fuel : ℕ) :
    Except ReadFault (Option (List String)) :=
  match data with
  | none => .ok none
  | some block =>
      let base := block.header.pFiles.toNat
      let files :=
        if block.header.fWide != 0 then
          readAll block.unitAt (· == 0) 2 Utf16.fromUtf16Lossy fuel base []
        else readAll block.byteAt (· == 0) 1 fromUtf8Lossy fuel base []
      files.map fun files => if files.isEmpty then none else some files

/-! ### Filling the block -/

/-- The writer when it has written `units` and has `n` units to go. -/
def filledTo (header : DropFiles) (units : List UInt16) (n : ℕ) : Filling :=
  ⟨⟨header, units ++ List.replicate n 0⟩, dropfilesSize + 2 * units.length,
    (List.range units.length).map fun i => dropfilesSize + 2 * i⟩

theorem unitAt_eq_getElem (block : GlobalBlock) (i : ℕ) :
    block.unitAt (dropfilesSize + 2 * i) = block.units[i]? := by
  have heven : (dropfilesSize + 2 * i) % 2 = 0 := by
    unfold dropfilesSize
    omega
  have hbehind : ¬ dropfilesSize + 2 * i < dropfilesSize := by omega
  simp [GlobalBlock.unitAt, heven, hbehind]

/-- A unit is written where the writer is, as long as there is room. -/
theorem setUnit_filledTo (header : DropFiles) (units : List UInt16) (n : ℕ) (u : UInt16) :
    (filledTo header units (n + 1)).block.setUnit (filledTo header units (n + 1)).dest u =
      some ⟨header, units ++ u :: List.replicate n 0⟩ := by
  have hroom : ((filledTo header units (n + 1)).block.unitAt
      (filledTo header units (n + 1)).dest).isSome = true := by
    simp [filledTo, unitAt_eq_getElem, List.replicate_succ]
  rw [GlobalBlock.setUnit, if_pos hroom]
  simp [filledTo, List.replicate_succ]

theorem pushUnit_filledTo (header : DropFiles) (units : List UInt16) (n : ℕ) (u : UInt16) :
    pushUnit (filledTo header units (n + 1)) u = some (filledTo header (units ++ [u]) n) := by
  rw [pushUnit, setUnit_filledTo]
  simp [filledTo, List.range_succ, Nat.mul_add, Nat.add_assoc]

/-- The units of one path are written one after the other. -/
theorem foldlM_pushUnit (header : DropFiles) (units wide : List UInt16) (n : ℕ) :
    wide.foldlM pushUnit (filledTo header units (wide.length + n)) =
      some (filledTo header (units ++ wide) n) := by
  induction wide generalizing units with
  | nil => simp
  | cons u wide ih =>
    have hroom : (u :: wide).length + n = (wide.length + n) + 1 := by
      simp only [List.length_cons]
      omega
    rw [List.foldlM_cons, hroom, pushUnit_filledTo]
    simpa using ih (units ++ [u])

/-- And so are the units of all paths. -/
theorem foldlM_foldlM_pushUnit (header : DropFiles) (units : List UInt16)
    (wides : List (List UInt16)) (n : ℕ) :
    wides.foldlM (fun f wide => wide.foldlM pushUnit f)
        (filledTo header units ((wides.map List.length).sum + n)) =
      some (filledTo header (units ++ wides.flatten) n) := by
  induction wides generalizing units with
  | nil => simp
  | cons wide wides ih =>
    have hroom : ((wide :: wides).map List.length).sum + n =
        wide.length + ((wides.map List.length).sum + n) := by
      simp only [List.map_cons, List.sum_cons]
      omega
    rw [List.foldlM_cons, hroom, foldlM_pushUnit]
    simpa using ih (units ++ wide)

/-- **The writer fills the block from its start to its end**: behind the header every
unit is written once, in order, and nothing outside. -/
theorem fillDropFiles_eq (paths : List String) :
    fillDropFiles paths =
      some ⟨⟨⟨20, 0, 0, 0, 1⟩, layout 0 (paths.map Utf16.encode)⟩,
        dropfilesSize + 2 * (totalChars paths - 1),
        (List.range (totalChars paths)).map fun i => dropfilesSize + 2 * i⟩ := by
  have hroom : (totalSize paths - dropfilesSize) / 2 =
      ((paths.map widePath).map List.length).sum + 1 := by
    unfold totalSize totalChars
    omega
  have hstart : (⟨{ GlobalBlock.alloc (totalSize paths) with header := ⟨20, 0, 0, 0, 1⟩ },
      dropfilesSize, []⟩ : Filling) =
      filledTo ⟨20, 0, 0, 0, 1⟩ [] (((paths.map widePath).map List.length).sum + 1) := by
    simp only [GlobalBlock.alloc, hroom]
    rfl
  have hlayout : (paths.map widePath).flatten ++ [0] = layout 0 (paths.map Utf16.encode) := by
    rw [layout, List.flatMap_map, ← List.flatMap_def]
    rfl
  have hlength : ((paths.map widePath).flatten).length + 1 = totalChars paths := by
    rw [List.length_flatten, totalChars]
  have hloop := foldlM_foldlM_pushUnit ⟨20, 0, 0, 0, 1⟩ [] (paths.map widePath) 1
  rw [← hstart] at hloop
  have hlast := setUnit_filledTo ⟨20, 0, 0, 0, 1⟩ ([] ++ (paths.map widePath).flatten) 0 0
  have hheader : UInt32.ofNat dropfilesSize = 20 := rfl
  unfold fillDropFiles
  simp only [hheader, hloop, Option.bind_eq_bind, Option.bind_some, hlast]
  simp only [filledTo, List.nil_append, List.replicate_zero, hlayout, ← hlength,
    Nat.add_sub_cancel, List.range_succ, List.map_append, List.map_cons, List.map_nil]

/-- So the writer never faults, whatever the system calls do, and it reports success
exactly when it has handed a block over. -/
theorem setClipboardFileListWindows_isSome (calls : WriteCalls) (paths : List String) :
    ∃ result, setClipboardFileListWindows calls paths = some result ∧
      result.1 = result.2.isSome := by
  unfold setClipboardFileListWindows
  rw [fillDropFiles_eq]
  split_ifs
  · exact ⟨_, rfl, rfl⟩
  · exact ⟨_, rfl, rfl⟩
  · exact ⟨_, rfl, rfl⟩

theorem length_layout (paths : List String) :
    (layout 0 (paths.map Utf16.encode)).length = totalChars paths := by
  rw [layout, List.length_append, List.length_flatMap, List.map_map, totalChars, List.map_map]
  rfl

/-- **What is written is read back, within the block.**  For every list of paths that
are not empty and have no NUL, the writer writes every byte of the block it has
allocated and no other, and the reader ends within as many steps as there are
units and returns the same list. -/
theorem dropFiles_round_trip {paths : List String} (hne : paths ≠ [])
    (hpaths : ∀ p ∈ paths, p ≠ "" ∧ '\x00' ∉ p.toList) :
    ∃ f, fillDropFiles paths = some f ∧ f.block.size = totalSize paths ∧
      f.written = (List.range f.block.units.length).map (fun i => dropfilesSize + 2 * i) ∧
      ∀ fuel, f.block.units.length ≤ fuel →
        getClipboardFileListWindows (some f.block) fuel = .ok (some paths) := by
  have hlength := length_layout paths
  refine ⟨_, fillDropFiles_eq paths, ?_, ?_, ?_⟩
  · simp only [GlobalBlock.size, totalSize, hlength]
  · simp only [hlength]
  · intro fuel hfuel
    have hholds : HoldsAt (GlobalBlock.unitAt ⟨⟨20, 0, 0, 0, 1⟩, layout 0 (paths.map Utf16.encode)⟩)
        2 dropfilesSize (layout 0 (paths.map Utf16.encode)) := by
      refine holdsAt_of_getElem fun i u hu => ?_
      rw [unitAt_eq_getElem]
      exact hu
    have hstrings : ∀ cs ∈ paths.map Utf16.encode, cs ≠ [] ∧ ∀ u ∈ cs, (u == 0) = false := by
      intro cs hcs
      obtain ⟨p, hp, rfl⟩ := List.mem_map.mp hcs
      obtain ⟨hempty, hnul⟩ := hpaths p hp
      refine ⟨Utf16.encode_ne_nil hempty, fun u hu => ?_⟩
      rw [beq_eq_false_iff_ne]
      rintro rfl
      exact Utf16.zero_not_mem_encode hnul hu
    have hread : readAll
        (GlobalBlock.unitAt ⟨⟨20, 0, 0, 0, 1⟩, layout 0 (paths.map Utf16.encode)⟩) (· == 0) 2
        Utf16.fromUtf16Lossy fuel dropfilesSize [] = .ok ([] ++ _) :=
      readAll_layout Utf16.fromUtf16Lossy rfl hstrings hholds hfuel []
    have hback : (paths.map Utf16.encode).map Utf16.fromUtf16Lossy = paths := by
      simp [Function.comp_def]
    rw [hback, List.nil_append] at hread
    have hbase : (20 : UInt32).toNat = dropfilesSize := rfl
    have hwide : ((1 : Int32) != 0) = true := by decide
    have hfiles : paths.isEmpty = false := by simpa using hne
    simp only [getClipboardFileListWindows, hbase, hwide, if_true, hread, Except.map, hfiles]
    rfl

/-- Two paths, one with a character outside the basic plane. -/
theorem dropFiles_round_trip_emoji :
    ∃ f, fillDropFiles ["C:\\a.txt", "C:\\😀"] = some f ∧
      getClipboardFileListWindows (some f.block) 40 = .ok (some ["C:\\a.txt", "C:\\😀"]) := by
  have hpaths : ∀ p ∈ ["C:\\a.txt", "C:\\😀"], p ≠ "" ∧ '\x00' ∉ p.toList := by
    decide +kernel
  obtain ⟨f, hfill, hsize, -, hread⟩ := dropFiles_round_trip (by decide) hpaths
  have hunits : totalSize ["C:\\a.txt", "C:\\😀"] = 52 := by decide +kernel
  refine ⟨f, hfill, hread 40 ?_⟩
  rw [hunits, GlobalBlock.size, dropfilesSize] at hsize
  omega

end P2pClipboard
