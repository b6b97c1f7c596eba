import Mathlib.Algebra.Order.BigOperators.Group.List
import Mathlib.Algebra.Order.Monoid.Unbundled.Basic
import Mathlib.Algebra.Order.Ring.Nat
import Mathlib.Data.List.Basic
import Mathlib.Data.List.DropRight
import P2pClipboard.Lib.UnixPath

/-!
# Lines of a text

A text as a list of characters: `str::lines` and `str::trim` of Rust's standard
library, and how many characters of a kind the lines of a text can have.

## Main definitions

* `Lines.isWhitespace`, `Lines.trim` — white space, and a text without it at its
  ends.
* `Lines.lines` — the lines of a text.

## Main results

* `Lines.countP_lines_le` — the lines have no more characters of a kind than the
  text has beside its line breaks.
* `Lines.map_trim_lines_intercalate` — lines joined by line breaks are, up to white
  space, the lines again.
-/

namespace Lines

/-! ### White space -/

/-- `char::is_whitespace`, the Unicode property `White_Space`. -/
def isWhitespace (c : Char) : Bool :=
  (9 ≤ c.toNat && c.toNat ≤ 13) || c.toNat == 0x20 || c.toNat == 0x85 || c.toNat == 0xA0 ||
    c.toNat == 0x1680 || (0x2000 ≤ c.toNat && c.toNat ≤ 0x200A) || c.toNat == 0x2028 ||
    c.toNat == 0x2029 || c.toNat == 0x202F || c.toNat == 0x205F || c.toNat == 0x3000

/-- `str::trim_end`. -/
def trimEnd (cs : List Char) : List Char := cs.rdropWhile isWhitespace

/-- `str::trim`. -/
def trim (cs : List Char) : List Char := (trimEnd cs).dropWhile isWhitespace

theorem trim_sublist (cs : List Char) : (trim cs).Sublist cs :=
  (List.dropWhile_sublist _).trans (List.rdropWhile_prefix isWhitespace cs).sublist

/-- Nothing is trimmed where no white space is at the end. -/
theorem trimEnd_eq_self_iff (cs : List Char) :
    trimEnd cs = cs ↔ cs.getLast?.any isWhitespace = false := by
  cases cs using List.reverseRecOn with
  | nil => simp [trimEnd]
  | append_singleton cs c =>
    rw [trimEnd, List.rdropWhile_eq_self_iff, List.getLast?_concat]
    simp

/-- Behind a character that is no white space only the rest is trimmed. -/
theorem trimEnd_append (pre cs : List Char) {c : Char} (hc : isWhitespace c = false) :
    trimEnd (pre ++ c :: cs) = pre ++ c :: trimEnd cs := by
  induction cs using List.reverseRecOn with
  | nil =>
    have hend : ¬ isWhitespace c = true := by simp [hc]
    rw [trimEnd, List.rdropWhile_concat_neg _ _ _ hend]
    rfl
  | append_singleton cs d ih =>
    rw [← List.cons_append, ← List.append_assoc]
    by_cases hd : isWhitespace d = true
    · rw [trimEnd, List.rdropWhile_concat_pos _ _ _ hd, trimEnd,
        List.rdropWhile_concat_pos _ _ _ hd]
      exact ih
    · rw [trimEnd, List.rdropWhile_concat_neg _ _ _ hd, trimEnd,
        List.rdropWhile_concat_neg _ _ _ hd]
      simp

/-! ### Lines -/

/-- A line without the carriage return before its line break. -/
def stripCr (line : List Char) : List Char :=
  if line.getLast? = some '\r' then line.dropLast else line

/-- `str::lines`: what stands between the line breaks, and behind the last one if
there is anything. -/
def lines (text : List Char) : List (List Char) :=
  (text.splitOn '\n').dropLast.map stripCr ++
    (text.splitOn '\n').getLast?.toList.filter fun line => !line.isEmpty

theorem stripCr_sublist (line : List Char) : (stripCr line).Sublist line := by
  unfold stripCr
  split_ifs
  · exact List.dropLast_sublist line
  · exact List.Sublist.refl line

/-- A carriage return is white space. -/
theorem trim_stripCr (line : List Char) : trim (stripCr line) = trim line := by
  unfold stripCr
  split_ifs with hcr
  · obtain ⟨init, rfl⟩ := List.getLast?_eq_some_iff.mp hcr
    rw [List.dropLast_concat, trim, trim, trimEnd, trimEnd,
      List.rdropWhile_concat_pos _ _ _ (by decide)]
  · rfl

/-- Pieces joined by separators have the characters of the pieces, and the
separators. -/
theorem countP_intercalate (q : Char → Bool) {sep : Char} (hsep : q sep = true)
    {pieces : List (List Char)} (hne : pieces ≠ []) :
    ([sep].intercalate pieces).countP q + 1 =
      (pieces.map (List.countP q)).sum + pieces.length := by
  induction pieces with
  | nil => exact absurd rfl hne
  | cons piece pieces ih =>
    cases pieces with
    | nil => simp [List.intercalate]
    | cons next pieces =>
      have := ih (by simp)
      simp only [List.intercalate, List.intersperse_cons_cons, List.flatten_cons, List.countP_append,
        List.map_cons, List.sum_cons, List.length_cons, List.countP_singleton, hsep, if_true]
        at this ⊢
      omega

/-- A text has one piece more than line breaks. -/
theorem length_splitOn (text : List Char) :
    (text.splitOn '\n').length = text.countP (· == '\n') + 1 := by
  have hpieces := countP_intercalate (· == '\n') (beq_self_eq_true '\n')
    (List.splitOn_ne_nil '\n' text)
  have hzero : ((text.splitOn '\n').map (List.countP (· == '\n'))).sum = 0 := by
    refine List.sum_eq_zero fun n hn => ?_
    obtain ⟨piece, hpiece, rfl⟩ := List.mem_map.mp hn
    rw [List.countP_eq_zero]
    rintro c hc hbreak
    rw [eq_of_beq hbreak] at hc
    exact UnixPath.not_mem_of_mem_splitOn hpiece hc
  rw [List.intercalate_splitOn] at hpieces
  omega

/-- The pieces of a text and its lines, up to the last of them. -/
theorem lines_of_splitOn {text last : List Char} {init : List (List Char)}
    (h : text.splitOn '\n' = init ++ [last]) :
    lines text = init.map stripCr ++ if last.isEmpty then [] else [last] := by
  rw [lines, h, List.dropLast_concat, List.getLast?_concat]
  cases hlast : last.isEmpty <;> simp [hlast]

/-- **The lines have no more characters of a kind than the text**, less its line
breaks if these are of the kind. -/
theorem countP_lines_le (q : Char → Bool) (hbreak : q '\n' = true) (text : List Char) :
    ((lines text).map (List.countP q)).sum + (text.splitOn '\n').length ≤ text.countP q + 1 := by
  have hpieces := countP_intercalate q hbreak (List.splitOn_ne_nil '\n' text)
  rw [List.intercalate_splitOn] at hpieces
  rcases List.eq_nil_or_concat (text.splitOn '\n') with hnil | ⟨init, last, hsplit⟩
  · exact absurd hnil (List.splitOn_ne_nil '\n' text)
  · rw [List.concat_eq_append] at hsplit
    have hinit : ((init.map stripCr).map (List.countP q)).sum ≤
        (init.map (List.countP q)).sum := by
      rw [List.map_map]
      exact List.sum_le_sum fun line _ => (stripCr_sublist line).countP_le
    rw [lines_of_splitOn hsplit]
    rw [hsplit, List.map_append, List.sum_append] at hpieces
    rw [hsplit, List.map_append, List.sum_append]
    split_ifs
    · simp only [List.map_nil, List.sum_nil, List.map_cons, List.sum_cons] at hpieces ⊢
      omega
    · simp only [List.map_nil, List.sum_nil, List.map_cons, List.sum_cons] at hpieces ⊢
      omega

/-- **Lines joined by line breaks are the lines again**, up to white space. -/
theorem map_trim_lines_intercalate {pieces : List (List Char)} (hne : pieces ≠ [])
    (h : ∀ piece ∈ pieces, piece ≠ [] ∧ '\n' ∉ piece) :
    (lines (['\n'].intercalate pieces)).map trim = pieces.map trim := by
  rcases List.eq_nil_or_concat pieces with hnil | ⟨init, last, hpieces⟩
  · exact absurd hnil hne
  · rw [List.concat_eq_append] at hpieces
    have hsplit : (['\n'].intercalate pieces).splitOn '\n' = init ++ [last] := by
      rw [List.splitOn_intercalate '\n' (fun l hl => (h l hl).2) hne, hpieces]
    have hlast : last.isEmpty = false := by
      have := (h last (by simp [hpieces])).1
      simpa using this
    rw [lines_of_splitOn hsplit, hlast, hpieces, List.map_append, List.map_append, List.map_map]
    simp [Function.comp_def, trim_stripCr]

end Lines
