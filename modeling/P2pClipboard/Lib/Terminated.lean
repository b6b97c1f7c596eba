import Mathlib.Data.List.Basic
import Mathlib.Tactic.Common

/-!
# Zero-terminated strings in memory

A list of strings in memory: the cells of each string, a cell that is zero behind
each, and one more zero behind the last.  Reading it back moves a pointer from cell
to cell, and has no bound of its own: it ends where it finds the zeros.  What is
read is a partial function from addresses to cells, so reading past the end is a
fault, and a count of steps says when the loops end.

## Main definitions

* `Terminated.scan`, `Terminated.slice`, `Terminated.readAll` — the end of a
  string, its cells, and all strings.
* `Terminated.HoldsAt` — what the memory holds from an address on.
* `Terminated.layout` — the cells of a list of strings.

## Main results

* `Terminated.readAll_layout` — **a list of strings that are not empty and have no
  zero is read back**, and nothing past it is read.
-/

/-- Why reading memory failed. -/
inductive ReadFault
  /-- The address is outside the memory. -/
  | pastEnd
  /-- The loop has not ended within the steps it was given. -/
  | outOfFuel
  deriving DecidableEq, Repr

namespace Terminated

variable {κ σ : Type*} (cell : ℕ → Option κ) (isZero : κ → Bool) (width : ℕ)

/-! ### Reading -/

/-- Move on to the first zero, and count the cells before it. -/
def scan : ℕ → ℕ → ℕ → Except ReadFault (ℕ × ℕ)
  | 0, _, _ => .error .outOfFuel
  | fuel + 1, pos, len =>
      match cell pos with
      | none => .error .pastEnd
      | some c => if isZero c then .ok (pos, len) else scan fuel (pos + width) (len + 1)

/-- The cells from an address on. -/
def slice : ℕ → ℕ → Except ReadFault (List κ)
  | _, 0 => .ok []
  | start, len + 1 =>
      match cell start with
      | none => .error .pastEnd
      | some c => (slice (start + width) len).map (c :: ·)

/-- Read strings until there is a zero where the next would start. -/
def readAll (decode : List κ → σ) : ℕ → ℕ → List σ → Except ReadFault (List σ)
  | 0, _, _ => .error .outOfFuel
  | fuel + 1, pos, strings =>
      match cell pos with
      | none => .error .pastEnd
      | some c =>
          if isZero c then .ok strings
          else
            match scan cell isZero width fuel pos 0 with
            | .error e => .error e
            | .ok (stop, len) =>
                match slice cell width pos len with
                | .error e => .error e
                | .ok cells => readAll decode fuel (stop + width) (strings ++ [decode cells])

/-! ### What the memory holds -/

/-- The memory holds these cells, one after the other. -/
def HoldsAt : ℕ → List κ → Prop
  | _, [] => True
  | pos, c :: cs => cell pos = some c ∧ HoldsAt (pos + width) cs

variable {cell isZero width}

theorem holdsAt_append {pos : ℕ} {cs ds : List κ} :
    HoldsAt cell width pos (cs ++ ds) ↔
      HoldsAt cell width pos cs ∧ HoldsAt cell width (pos + width * cs.length) ds := by
  induction cs generalizing pos with
  | nil => simp [HoldsAt]
  | cons c cs ih =>
    have haddr : pos + width * (cs.length + 1) = pos + width + width * cs.length := by
      rw [Nat.mul_add, Nat.mul_one]
      omega
    rw [List.cons_append, HoldsAt, HoldsAt, ih, List.length_cons, haddr, and_assoc]

/-- A memory holds the cells that are found at their addresses. -/
theorem holdsAt_of_getElem {pos : ℕ} {cs : List κ}
    (h : ∀ i c, cs[i]? = some c → cell (pos + width * i) = some c) : HoldsAt cell width pos cs := by
  induction cs generalizing pos with
  | nil => trivial
  | cons c cs ih =>
    refine ⟨h 0 c rfl, ih ?_⟩
    intro i d hd
    have haddr : pos + width + width * i = pos + width * (i + 1) := by
      rw [Nat.mul_add, Nat.mul_one]
      omega
    rw [haddr]
    exact h (i + 1) d hd

/-- The cells of a list of strings, with a zero behind each and behind the last. -/
def layout (zero : κ) (strings : List (List κ)) : List κ :=
  strings.flatMap (· ++ [zero]) ++ [zero]

/-- **The end of a string is found at its zero.** -/
theorem scan_of_holdsAt {fuel pos : ℕ} {cs : List κ} {zero : κ} (len : ℕ)
    (h : HoldsAt cell width pos (cs ++ [zero])) (hzero : isZero zero = true)
    (hcs : ∀ c ∈ cs, isZero c = false) (hfuel : cs.length < fuel) :
    scan cell isZero width fuel pos len = .ok (pos + width * cs.length, len + cs.length) := by
  induction cs generalizing fuel pos len with
  | nil =>
    obtain ⟨fuel, rfl⟩ := Nat.exists_eq_add_one_of_ne_zero (Nat.ne_of_gt hfuel)
    have hcell : cell pos = some zero := h.1
    simp [scan, hcell, hzero]
  | cons c cs ih =>
    obtain ⟨fuel, rfl⟩ := Nat.exists_eq_add_one_of_ne_zero (Nat.ne_of_gt (Nat.zero_lt_of_lt hfuel))
    have hcell : cell pos = some c := h.1
    have hrest := ih (len + 1) h.2 (fun d hd => hcs d (List.mem_cons_of_mem _ hd))
      (Nat.lt_of_succ_lt_succ hfuel)
    rw [scan, hcell]
    simp only [hcs c List.mem_cons_self, Bool.false_eq_true, if_false, hrest, List.length_cons,
      Nat.mul_add, Nat.mul_one]
    congr 2 <;> omega

theorem slice_of_holdsAt {pos : ℕ} {cs : List κ} (h : HoldsAt cell width pos cs) :
    slice cell width pos cs.length = .ok cs := by
  induction cs generalizing pos with
  | nil => rfl
  | cons c cs ih =>
    rw [List.length_cons, slice, h.1]
    simp only [ih h.2]
    rfl

/-- **A list of strings is read back**, if none is empty or has a zero.  The steps
needed are no more than there are cells. -/
theorem readAll_layout (decode : List κ → σ) {zero : κ} (hzero : isZero zero = true)
    {strings : List (List κ)}
    (hstrings : ∀ cs ∈ strings, cs ≠ [] ∧ ∀ c ∈ cs, isZero c = false) {pos fuel : ℕ}
    (h : HoldsAt cell width pos (layout zero strings))
    (hfuel : (layout zero strings).length ≤ fuel) (before : List σ) :
    readAll cell isZero width decode fuel pos before = .ok (before ++ strings.map decode) := by
  induction strings generalizing pos fuel before with
  | nil =>
    obtain ⟨fuel, rfl⟩ := Nat.exists_eq_add_one_of_ne_zero (Nat.ne_of_gt hfuel)
    have hcell : cell pos = some zero := h.1
    simp [readAll, hcell, hzero]
  | cons cs strings ih =>
    obtain ⟨hne, hcs⟩ := hstrings cs List.mem_cons_self
    have hlayout : layout zero (cs :: strings) = (cs ++ [zero]) ++ layout zero strings := by
      simp [layout]
    rw [hlayout] at h hfuel
    rw [List.length_append, List.length_append, List.length_singleton] at hfuel
    obtain ⟨hhead, htail⟩ := holdsAt_append.mp h
    have hlast : 0 < (layout zero strings).length := by simp [layout]
    obtain ⟨fuel, rfl⟩ : ∃ n, fuel = n + 1 :=
      Nat.exists_eq_add_one_of_ne_zero (by omega)
    have hscan := scan_of_holdsAt 0 hhead hzero hcs (by omega : cs.length < fuel)
    have hslice := slice_of_holdsAt (holdsAt_append.mp hhead).1
    -- the first cell of the string is no zero, so the loop goes on
    obtain ⟨c, rest, rfl⟩ := List.exists_cons_of_ne_nil hne
    have hcell : cell pos = some c := hhead.1
    have hnext : pos + width * (c :: rest).length + width =
        pos + width * (c :: rest ++ [zero]).length := by
      rw [List.length_append, List.length_singleton, Nat.mul_add, Nat.mul_one]
      omega
    have hrest := ih (fun ds hds => hstrings ds (List.mem_cons_of_mem _ hds)) htail
      (by omega : _ ≤ fuel) (before ++ [decode (c :: rest)])
    rw [readAll, hcell]
    simp only [hcs c List.mem_cons_self, Bool.false_eq_true, if_false, hscan, Nat.zero_add, hslice,
      hnext, hrest]
    simp

end Terminated
