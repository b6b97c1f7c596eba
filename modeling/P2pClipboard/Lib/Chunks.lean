import Mathlib.Data.List.Basic
import Mathlib.Tactic.Common

/-!
# Cutting a list into pieces

`chunks n l` cuts `l` into consecutive pieces of `n` elements, the last one
possibly shorter.  Two facts are all a transfer protocol needs: the pieces put
together are the list (`flatten_chunks`), and there are as many of them as the
rounded-up quotient says (`length_chunks`), also when `n` divides the length.

A loop that collects elements and sends them off whenever it has `n` of them cuts
its input in the same way.  `Filled` is the invariant of such a loop, and
`Filled.chunks_eq` what it has cut in the end.
-/

variable {α : Type*}

/-- The pieces of `l`; the second argument bounds their number. -/
def chunksAux (n : ℕ) : ℕ → List α → List (List α)
  | 0, _ => []
  | _ + 1, [] => []
  | k + 1, a :: l => (a :: l).take n :: chunksAux n k ((a :: l).drop n)

/-- Consecutive pieces of `n` elements, the last one possibly shorter. -/
def chunks (n : ℕ) (l : List α) : List (List α) := chunksAux n l.length l

theorem flatten_chunksAux {n : ℕ} (hn : 0 < n) :
    ∀ (k : ℕ) (l : List α), l.length ≤ k → (chunksAux n k l).flatten = l := by
  intro k
  induction k with
  | zero =>
    intro l hl
    obtain rfl := List.eq_nil_of_length_eq_zero (Nat.le_zero.mp hl)
    rfl
  | succ k ih =>
    intro l hl
    cases l with
    | nil => rfl
    | cons a l =>
      have hdrop : ((a :: l).drop n).length ≤ k := by
        rw [List.length_drop]
        omega
      rw [chunksAux, List.flatten_cons, ih _ hdrop, List.take_append_drop]

/-- The pieces put together are the list. -/
theorem flatten_chunks {n : ℕ} (hn : 0 < n) (l : List α) : (chunks n l).flatten = l :=
  flatten_chunksAux hn l.length l (Nat.le_refl _)

theorem length_chunksAux {n : ℕ} (hn : 0 < n) :
    ∀ (k : ℕ) (l : List α), l.length ≤ k →
      (chunksAux n k l).length = (l.length + n - 1) / n := by
  intro k
  induction k with
  | zero =>
    intro l hl
    obtain rfl := List.eq_nil_of_length_eq_zero (Nat.le_zero.mp hl)
    rw [chunksAux, List.length_nil, List.length_nil, Nat.div_eq_of_lt (by omega)]
  | succ k ih =>
    intro l hl
    cases l with
    | nil =>
      rw [chunksAux, List.length_nil, List.length_nil, Nat.div_eq_of_lt (by omega)]
    | cons a l =>
      have hdrop : ((a :: l).drop n).length ≤ k := by
        rw [List.length_drop]
        omega
      rw [chunksAux, List.length_cons, ih _ hdrop, List.length_drop]
      -- one piece is taken off: the quotient drops by one, or the list was short
      rcases Nat.le_total n (a :: l).length with hle | hle
      · have hsub : (a :: l).length + n - 1 = (a :: l).length - n + n - 1 + n := by omega
        rw [hsub, Nat.add_div_right _ hn]
      · have hzero : (a :: l).length - n + n - 1 < n := by omega
        have hpos : 0 < (a :: l).length := Nat.succ_pos _
        have hone : (a :: l).length + n - 1 = (a :: l).length - 1 + n := by omega
        rw [Nat.div_eq_of_lt hzero, hone, Nat.add_div_right _ hn,
          Nat.div_eq_of_lt (by omega)]

/-- There are as many pieces as the rounded-up quotient says. -/
theorem length_chunks {n : ℕ} (hn : 0 < n) (l : List α) :
    (chunks n l).length = (l.length + n - 1) / n :=
  length_chunksAux hn l.length l (Nat.le_refl _)

/-- No piece is longer than it may be. -/
theorem length_le_of_mem_chunks {n : ℕ} {l piece : List α} (h : piece ∈ chunks n l) :
    piece.length ≤ n := by
  have haux : ∀ (k : ℕ) (l : List α), piece ∈ chunksAux n k l → piece.length ≤ n := by
    intro k
    induction k with
    | zero =>
      intro l hmem
      simp [chunksAux] at hmem
    | succ k ih =>
      intro l hmem
      cases l with
      | nil => simp [chunksAux] at hmem
      | cons a l =>
        rw [chunksAux, List.mem_cons] at hmem
        rcases hmem with rfl | hmem
        · exact List.length_take_le _ _
        · exact ih _ hmem
  exact haux _ _ h

/-- A piece is a part of the list. -/
theorem sublist_of_mem_chunks {n : ℕ} (hn : 0 < n) {l piece : List α} (h : piece ∈ chunks n l) :
    piece.Sublist l := by
  have hsub := List.sublist_flatten_of_mem h
  rwa [flatten_chunks hn] at hsub

/-! ### Cutting piece by piece -/

/-- The bound on the number of pieces does not matter when it is large enough. -/
theorem chunksAux_eq_of_le {n : ℕ} (hn : 0 < n) :
    ∀ (j k : ℕ) (l : List α), l.length ≤ j → l.length ≤ k →
      chunksAux n j l = chunksAux n k l := by
  intro j
  induction j with
  | zero =>
    intro k l hj _
    obtain rfl := List.eq_nil_of_length_eq_zero (Nat.le_zero.mp hj)
    cases k <;> rfl
  | succ j ih =>
    intro k l hj hk
    cases l with
    | nil => cases k <;> rfl
    | cons a l =>
      obtain ⟨k, rfl⟩ : ∃ k', k = k' + 1 := Nat.exists_eq_succ_of_ne_zero (by
        rintro rfl
        exact absurd hk (Nat.not_le.mpr (Nat.succ_pos _)))
      have hdrop : ((a :: l).drop n).length ≤ l.length := by
        rw [List.length_drop, List.length_cons]
        omega
      rw [List.length_cons] at hj hk
      rw [chunksAux, chunksAux, ih k _ (by omega) (by omega)]

/-- A full piece in front is cut off. -/
theorem chunks_append {n : ℕ} (hn : 0 < n) {piece : List α} (hpiece : piece.length = n)
    (l : List α) : chunks n (piece ++ l) = piece :: chunks n l := by
  cases piece with
  | nil => exact absurd hpiece (Nat.ne_of_lt hn)
  | cons a piece =>
    have hlength : ((a :: piece) ++ l).length = (piece ++ l).length + 1 := rfl
    have hle : l.length ≤ (piece ++ l).length := by
      rw [List.length_append]
      omega
    have htake : ((a :: piece) ++ l).take n = a :: piece := List.take_left' hpiece
    have hdrop : ((a :: piece) ++ l).drop n = l := List.drop_left' hpiece
    rw [chunks, hlength, List.cons_append, chunksAux, ← List.cons_append, htake, hdrop, chunks,
      chunksAux_eq_of_le hn _ l.length l hle (Nat.le_refl _)]

/-- A list that is short enough is one piece. -/
theorem chunks_of_length_le {n : ℕ} {a : α} {l : List α} (h : (a :: l).length ≤ n) :
    chunks n (a :: l) = [a :: l] := by
  rw [chunks, List.length_cons, chunksAux, List.take_of_length_le h, List.drop_of_length_le h]
  cases l.length <;> rfl

/-! ### Filling pieces -/

/-- A loop that has seen `l`, has sent off `full` and holds `pending`. -/
structure Filled (n : ℕ) (l : List α) (full : List (List α)) (pending : List α) : Prop where
  /-- Nothing is lost. -/
  flatten : full.flatten ++ pending = l
  /-- What was sent off was full. -/
  full : ∀ piece ∈ full, piece.length = n
  /-- What is held is not. -/
  pending : pending.length < n

namespace Filled

variable {n : ℕ} {l : List α} {full : List (List α)} {pending : List α}

theorem nil (hn : 0 < n) : Filled n ([] : List α) [] [] := ⟨rfl, by simp, hn⟩

/-- One more element is held... -/
theorem push (h : Filled n l full pending) {a : α} (hroom : (pending ++ [a]).length ≠ n) :
    Filled n (l ++ [a]) full (pending ++ [a]) where
  flatten := by rw [← List.append_assoc, h.flatten]
  full := h.full
  pending := by
    have hpending := h.pending
    rw [List.length_append, List.length_singleton] at hroom ⊢
    omega

/-- ... or completes a piece, which is sent off. -/
theorem push_full (h : Filled n l full pending) {a : α} (hfull : (pending ++ [a]).length = n) :
    Filled n (l ++ [a]) (full ++ [pending ++ [a]]) [] where
  flatten := by
    rw [← h.flatten]
    simp
  full := List.forall_mem_append.mpr ⟨h.full, List.forall_mem_singleton.mpr hfull⟩
  pending := Nat.lt_of_le_of_lt (Nat.zero_le _) h.pending

/-- What was sent off and what is held, if anything, are the pieces. -/
theorem chunks_eq (h : Filled n l full pending) :
    chunks n l = full ++ if pending = [] then [] else [pending] := by
  have hn : 0 < n := Nat.lt_of_le_of_lt (Nat.zero_le _) h.pending
  obtain ⟨rfl, hfull, hpending⟩ := h
  induction full with
  | nil =>
    cases pending with
    | nil => rfl
    | cons a pending => exact chunks_of_length_le (Nat.le_of_lt hpending)
  | cons piece full ih =>
    have hpiece := hfull piece List.mem_cons_self
    rw [List.flatten_cons, List.append_assoc, chunks_append hn hpiece,
      ih fun b hb => hfull b (List.mem_cons_of_mem piece hb), List.cons_append]

end Filled
