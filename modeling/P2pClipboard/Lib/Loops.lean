import Mathlib.Data.List.Basic
import Mathlib.Tactic.Common

/-!
# Loops that append

A loop that may fail and appends the result of every round is
`(l.mapM g).map List.flatten`.

## Main results

* `Loops.mapM_flatten_cons` — one round after the other.
* `Loops.mapM_eq_none` — the loop fails if a round does.
* `Loops.mapM_flatten_ne_nil` — it appends something if a round does.
* `Loops.mapM_flatten_filterMap` — two loops give the same when their rounds do.
-/

namespace Loops

variable {α β γ δ : Type*}

/-- A loop fails if one of its rounds does. -/
theorem mapM_eq_none {g : γ → Option β} {l : List γ} :
    l.mapM g = none ↔ ∃ a ∈ l, g a = none := by
  induction l with
  | nil => simp
  | cons a l ih =>
    rw [List.mapM_cons, List.exists_mem_cons_iff, ← ih]
    cases g a with
    | none => simp
    | some b => cases l.mapM g <;> simp

/-- One round after the other. -/
theorem mapM_flatten_cons (g : γ → Option (List β)) (a : γ) (l : List γ) :
    ((a :: l).mapM g).map List.flatten =
      (g a).bind fun first => ((l.mapM g).map List.flatten).map (first ++ ·) := by
  rw [List.mapM_cons]
  cases g a with
  | none => rfl
  | some first => cases l.mapM g <;> simp

/-- A round that succeeds before others that do. -/
theorem mapM_flatten_cons_some {g : γ → Option (List β)} {a : γ} {l : List γ}
    {bs bs' : List β} (ha : g a = some bs) (hl : (l.mapM g).map List.flatten = some bs') :
    ((a :: l).mapM g).map List.flatten = some (bs ++ bs') := by
  rw [mapM_flatten_cons, ha, hl]
  rfl

/-- What a loop that succeeds is made of. -/
theorem mapM_flatten_eq_some {g : γ → Option (List β)} {a : γ} {l : List γ} {bs : List β}
    (h : ((a :: l).mapM g).map List.flatten = some bs) :
    ∃ first rest, g a = some first ∧ (l.mapM g).map List.flatten = some rest ∧
      bs = first ++ rest := by
  rw [mapM_flatten_cons] at h
  obtain ⟨first, hfirst, h⟩ := Option.bind_eq_some_iff.mp h
  obtain ⟨rest, hrest, rfl⟩ := Option.map_eq_some_iff.mp h
  exact ⟨first, rest, hfirst, hrest, rfl⟩

/-- Whatever a loop appends is appended in some round. -/
theorem mem_mapM_flatten {g : γ → Option (List β)} {l : List γ} {bs : List β}
    (h : (l.mapM g).map List.flatten = some bs) {b : β} :
    b ∈ bs ↔ ∃ a ∈ l, ∃ bs', g a = some bs' ∧ b ∈ bs' := by
  induction l generalizing bs with
  | nil =>
    obtain rfl : bs = [] := by simpa using h.symm
    simp
  | cons a l ih =>
    obtain ⟨first, rest, hfirst, hrest, rfl⟩ := mapM_flatten_eq_some h
    rw [List.mem_append, ih hrest, List.exists_mem_cons_iff, hfirst]
    simp

/-- Every round of a loop that succeeds does. -/
theorem exists_of_mem_mapM {g : γ → Option β} {l : List γ} {bs : List β}
    (h : l.mapM g = some bs) {a : γ} (ha : a ∈ l) : ∃ b, g a = some b := by
  rw [← Option.ne_none_iff_exists']
  intro hnone
  rw [mapM_eq_none.mpr ⟨a, ha, hnone⟩] at h
  cases h

/-- A loop appends something exactly when one of its rounds does. -/
theorem mapM_flatten_ne_nil {g : γ → Option (List β)} {l : List γ} {bs : List β}
    (h : (l.mapM g).map List.flatten = some bs) :
    bs ≠ [] ↔ ∃ a ∈ l, ∃ bs', g a = some bs' ∧ bs' ≠ [] := by
  constructor
  · intro hne
    obtain ⟨b, hb⟩ := List.exists_mem_of_ne_nil bs hne
    obtain ⟨a, ha, bs', hbs', hmem⟩ := (mem_mapM_flatten h).mp hb
    exact ⟨a, ha, bs', hbs', List.ne_nil_of_mem hmem⟩
  · rintro ⟨a, ha, bs', hbs', hne⟩
    obtain ⟨b, hb⟩ := List.exists_mem_of_ne_nil bs' hne
    exact List.ne_nil_of_mem ((mem_mapM_flatten h).mpr ⟨a, ha, bs', hbs', hb⟩)

/-- Two loops give the same when their rounds do; rounds that append nothing may be left
out. -/
theorem mapM_flatten_filterMap {g : γ → Option (List α)} {t : γ → Option δ}
    {g' : δ → Option (List β)} {h : β → α} {l : List γ}
    (hnone : ∀ c ∈ l, t c = none → g c = some [])
    (hsome : ∀ c ∈ l, ∀ d, t c = some d → g c = (g' d).map (List.map h)) :
    (l.mapM g).map List.flatten =
      (((l.filterMap t).mapM g').map List.flatten).map (List.map h) := by
  induction l with
  | nil => rfl
  | cons c l ih =>
    have hrest := ih (fun c hc => hnone c (List.mem_cons_of_mem _ hc))
      (fun c hc => hsome c (List.mem_cons_of_mem _ hc))
    rw [mapM_flatten_cons, hrest]
    cases hc : t c with
    | none =>
      rw [hnone c List.mem_cons_self hc, List.filterMap_cons_none hc]
      cases ((l.filterMap t).mapM g').map List.flatten <;> simp
    | some d =>
      rw [hsome c List.mem_cons_self d hc, List.filterMap_cons_some hc, mapM_flatten_cons]
      cases g' d with
      | none => rfl
      | some first => cases ((l.filterMap t).mapM g').map List.flatten <;> simp

end Loops
