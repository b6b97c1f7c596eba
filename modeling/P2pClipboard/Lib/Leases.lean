import Mathlib.Data.List.Induction
import Mathlib.Data.List.Nodup
import Mathlib.Data.Option.Basic
import Mathlib.Order.Lattice
import Mathlib.Tactic.Common
import Mathlib.Tactic.Order

/-!
# Leases

A table lists keys with the time their lease ends.  A lease is renewed, which never
shortens it; leases that are over are swept out of the table every now and then; and
the leases of some keys may be cut short.

A table that is swept late still lists leases that are over, so what it lists depends on
when it was swept.  The leases that run past a time do not: they are those of the
deadlines, which the history of renewals and cuts decides key by key (`Agrees`).  Right
after a sweep the table lists nothing else.

## Main definitions

* `Leases.renew`, `Leases.sweep`, `Leases.cut` — the operations on a table.
* `Leases.deadlines` — the end of each lease, from the history of renewals and cuts.
* `Leases.Agrees` — the leases that run past a time are those of the deadlines.

## Main results

* `Leases.nodup_keys_renew`, `Leases.nodup_keys_sweep`, `Leases.keys_cut` — no key is
  listed twice.
* `Leases.Agrees.renew`, `Leases.Agrees.sweep`, `Leases.Agrees.cut` — **what every
  operation keeps.**
-/

namespace Leases

variable {κ T : Type*}

/-! ### The operations -/

/-- The keys listed. -/
def keys (table : List (κ × T)) : List κ := table.map Prod.fst

@[simp] theorem keys_nil : keys ([] : List (κ × T)) = [] := rfl

@[simp] theorem keys_append (table table' : List (κ × T)) :
    keys (table ++ table') = keys table ++ keys table' := List.map_append

theorem mem_keys {table : List (κ × T)} {k : κ} : k ∈ keys table ↔ ∃ e, (k, e) ∈ table := by
  simp [keys]

/-- A key has one lease. -/
theorem eq_of_mem {table : List (κ × T)} (h : (keys table).Nodup) {k : κ} {e e' : T}
    (he : (k, e) ∈ table) (he' : (k, e') ∈ table) : e = e' :=
  congrArg Prod.snd (List.inj_on_of_nodup_map h he he' rfl)

/-- Let the leases of some keys end at a given time. -/
def cut (P : κ → Bool) (now : T) (table : List (κ × T)) : List (κ × T) :=
  table.map fun n => if P n.1 then (n.1, now) else n

@[simp] theorem keys_cut (P : κ → Bool) (now : T) (table : List (κ × T)) :
    keys (cut P now table) = keys table := by
  rw [keys, cut, List.map_map]
  refine List.map_congr_left fun n _ => ?_
  show (if P n.1 then (n.1, now) else n).1 = n.1
  split <;> rfl

section Update

variable [DecidableEq κ]

/-- Change the end of the first lease of a key. -/
def update (k : κ) (f : T → T) : List (κ × T) → List (κ × T)
  | [] => []
  | (k', e) :: table => if k' = k then (k', f e) :: table else (k', e) :: update k f table

@[simp] theorem keys_update (k : κ) (f : T → T) (table : List (κ × T)) :
    keys (update k f table) = keys table := by
  induction table with
  | nil => rfl
  | cons n table ih =>
    rw [update]
    split
    · rfl
    · show n.1 :: keys (update k f table) = n.1 :: keys table
      rw [ih]

/-- What is listed after the end of one lease was changed. -/
theorem mem_update {table : List (κ × T)} (h : (keys table).Nodup) {k k' : κ} {f : T → T}
    {e' : T} : (k', e') ∈ update k f table ↔
      k' ≠ k ∧ (k', e') ∈ table ∨ k' = k ∧ ∃ e, (k, e) ∈ table ∧ e' = f e := by
  induction table with
  | nil => simp [update]
  | cons n table ih =>
    obtain ⟨hn, hrest⟩ := List.nodup_cons.mp h
    obtain ⟨kn, en⟩ := n
    rw [update]
    by_cases hkn : kn = k
    · -- the first lease of the key is its only one
      subst hkn
      have hnone : ∀ e, (kn, e) ∉ table := fun e he => hn (mem_keys.mpr ⟨e, he⟩)
      rw [if_pos rfl]
      by_cases hk' : k' = kn
      · subst hk'
        simp [hnone]
      · simp [hk']
    · rw [if_neg hkn, List.mem_cons, List.mem_cons, ih hrest]
      by_cases hk' : k' = k
      · subst hk'
        simp [Ne.symm hkn]
      · simp [hk']

end Update

variable [DecidableEq κ] [LinearOrder T]

/-- Renew the lease of a key, or begin one. -/
def renew (table : List (κ × T)) (k : κ) (e : T) : List (κ × T) :=
  if k ∈ keys table then update k (max · e) table else table ++ [(k, e)]

/-- Renew many leases, one after the other. -/
def renewAll (table entries : List (κ × T)) : List (κ × T) :=
  entries.foldl (fun table n => renew table n.1 n.2) table

/-- Drop the leases that are over. -/
def sweep (now : T) (table : List (κ × T)) : List (κ × T) := table.filter fun n => now < n.2

/-- The keys of the leases that are over. -/
def ended (now : T) (table : List (κ × T)) : List κ :=
  (table.filter fun n => n.2 ≤ now).map Prod.fst

@[simp] theorem renewAll_nil (table : List (κ × T)) : renewAll table [] = table := rfl

theorem renewAll_cons (table : List (κ × T)) (n : κ × T) (entries : List (κ × T)) :
    renewAll table (n :: entries) = renewAll (renew table n.1 n.2) entries := rfl

theorem keys_renew_of_mem {table : List (κ × T)} {k : κ} (h : k ∈ keys table) (e : T) :
    keys (renew table k e) = keys table := by
  rw [renew, if_pos h, keys_update]

theorem keys_renew_of_notMem {table : List (κ × T)} {k : κ} (h : k ∉ keys table) (e : T) :
    keys (renew table k e) = keys table ++ [k] := by
  rw [renew, if_neg h, keys_append]
  rfl

/-- A renewed lease ends when it did or at the time it was given. -/
theorem mem_of_mem_renew {table : List (κ × T)} {k : κ} {e : T} {n : κ × T}
    (h : n ∈ renew table k e) : n ∈ table ∨ n = (k, e) := by
  have hupdate : ∀ table : List (κ × T), n ∈ update k (max · e) table →
      n ∈ table ∨ n = (k, e) := by
    intro table h
    induction table with
    | nil => cases h
    | cons m table ih =>
      rw [update] at h
      split at h
      · rename_i hk
        obtain rfl | hrest := List.mem_cons.mp h
        · obtain hmax | hmax := le_total m.2 e
          · exact .inr (Prod.ext hk (max_eq_right hmax))
          · exact .inl (List.mem_cons.mpr (.inl (Prod.ext rfl (max_eq_left hmax))))
        · exact .inl (List.mem_cons_of_mem _ hrest)
      · obtain rfl | hrest := List.mem_cons.mp h
        · exact .inl List.mem_cons_self
        · exact (ih hrest).imp (List.mem_cons_of_mem _) id
  rw [renew] at h
  split at h
  · exact hupdate table h
  · simpa using h

/-- So do many. -/
theorem mem_of_mem_renewAll {table entries : List (κ × T)} {n : κ × T}
    (h : n ∈ renewAll table entries) : n ∈ table ∨ n ∈ entries := by
  induction entries generalizing table with
  | nil => exact .inl h
  | cons m entries ih =>
    obtain h | h := ih h
    · exact (mem_of_mem_renew h).imp id fun (heq : n = m) => List.mem_cons.mpr (.inl heq)
    · exact .inr (List.mem_cons_of_mem _ h)

/-! ### No key twice -/

theorem nodup_keys_renew {table : List (κ × T)} (h : (keys table).Nodup) (k : κ) (e : T) :
    (keys (renew table k e)).Nodup := by
  by_cases hk : k ∈ keys table
  · rwa [keys_renew_of_mem hk]
  · rw [keys_renew_of_notMem hk]
    exact h.append (List.nodup_singleton k) (by simpa using hk)

theorem nodup_keys_renewAll {table : List (κ × T)} (h : (keys table).Nodup)
    (entries : List (κ × T)) : (keys (renewAll table entries)).Nodup := by
  induction entries generalizing table with
  | nil => exact h
  | cons n entries ih => exact ih (nodup_keys_renew h n.1 n.2)

omit [DecidableEq κ] in
theorem nodup_keys_sweep {table : List (κ × T)} (h : (keys table).Nodup) (now : T) :
    (keys (sweep now table)).Nodup :=
  h.sublist (List.filter_sublist.map _)

/-- The keys dropped by a sweep are those of the leases that are over. -/
theorem keys_sweep {table : List (κ × T)} (h : (keys table).Nodup) (now : T) :
    keys (sweep now table) = (keys table).filter fun k => k ∉ ended now table := by
  rw [keys, keys, List.filter_map, sweep]
  congr 1
  refine List.filter_congr fun n hn => ?_
  have hover : n.1 ∈ ended now table ↔ n.2 ≤ now := by
    constructor
    · intro hmem
      obtain ⟨m, hm, heq⟩ := List.mem_map.mp hmem
      obtain ⟨hm, hle⟩ := List.mem_filter.mp hm
      have hend : m.2 = n.2 := eq_of_mem (k := n.1) h (heq ▸ hm) hn
      exact hend ▸ of_decide_eq_true hle
    · intro hle
      exact List.mem_map.mpr ⟨n, List.mem_filter.mpr ⟨hn, decide_eq_true hle⟩, rfl⟩
  simp [hover, ← not_le]

omit [DecidableEq κ] in
theorem ended_subset_keys (now : T) (table : List (κ × T)) : ended now table ⊆ keys table :=
  List.map_subset _ (List.filter_subset_self _)

omit [DecidableEq κ] in
theorem nodup_ended {table : List (κ × T)} (h : (keys table).Nodup) (now : T) :
    (ended now table).Nodup :=
  h.sublist (List.filter_sublist.map _)

omit [DecidableEq κ] in
/-- Where nothing is over a sweep changes nothing. -/
theorem sweep_eq_self {now : T} {table : List (κ × T)} (h : ended now table = []) :
    sweep now table = table := by
  refine List.filter_eq_self.mpr fun n hn => decide_eq_true (lt_of_not_ge fun hle => ?_)
  have hmem : n.1 ∈ ended now table :=
    List.mem_map.mpr ⟨n, List.mem_filter.mpr ⟨hn, decide_eq_true hle⟩, rfl⟩
  rw [h] at hmem
  exact List.not_mem_nil hmem

/-! ### The deadlines -/

/-- What happens to leases. -/
inductive Note (κ T : Type*)
  /-- The lease of a key is to run until a time at least. -/
  | renewed (k : κ) (e : T)
  /-- The leases of some keys end by a time. -/
  | cut (P : κ → Bool) (now : T)

/-- The end of each lease after one more note. -/
def deadlineStep (d : κ → Option T) : Note κ T → κ → Option T
  | .renewed k e, k' => if k' = k then some (((d k).map (max · e)).getD e) else d k'
  | .cut P now, k' => if P k' then (d k').map (min · now) else d k'

/-- The end of each lease, from the history of renewals and cuts.  What is over is never
forgotten here. -/
def deadlines (history : List (Note κ T)) : κ → Option T :=
  history.foldl deadlineStep fun _ => none

@[simp] theorem deadlines_nil (k : κ) : deadlines ([] : List (Note κ T)) k = none := rfl

theorem deadlines_concat (history : List (Note κ T)) (note : Note κ T) :
    deadlines (history ++ [note]) = deadlineStep (deadlines history) note := by
  simp [deadlines]

/-- Where nothing is cut short the deadline of a key is the latest end it was given, and there
is none where it was given none. -/
theorem deadlines_renewals (entries : List (κ × T)) (k : κ) :
    (∀ e, deadlines (entries.map fun n => .renewed n.1 n.2) k = some e →
        (k, e) ∈ entries ∧ ∀ e', (k, e') ∈ entries → e' ≤ e) ∧
      (deadlines (entries.map fun n => Note.renewed n.1 n.2) k = none →
        ∀ e', (k, e') ∉ entries) := by
  induction entries using List.reverseRecOn with
  | nil => simp
  | append_singleton entries n ih =>
    obtain ⟨hsome, hnone⟩ := ih
    obtain ⟨kn, en⟩ := n
    rw [List.map_append, List.map_singleton, deadlines_concat, deadlineStep]
    simp only [List.mem_append, List.mem_singleton, Prod.mk.injEq]
    by_cases hk : k = kn
    · subst hk
      rw [if_pos rfl]
      refine ⟨fun e he => ?_, fun h => by cases h⟩
      cases hd : deadlines (entries.map fun n => Note.renewed n.1 n.2) k with
      | none =>
        obtain rfl : en = e := by simpa [hd] using he
        exact ⟨.inr ⟨rfl, rfl⟩, fun e' he' => he'.elim (fun h => absurd h (hnone hd e'))
          fun h => h.2.le⟩
      | some ed =>
        obtain rfl : max ed en = e := by simpa [hd] using he
        obtain ⟨hmem, hle⟩ := hsome ed hd
        refine ⟨?_, fun e' he' => he'.elim (fun h => (hle e' h).trans (le_max_left _ _))
          fun h => h.2.le.trans (le_max_right _ _)⟩
        obtain hmax | hmax := le_total en ed
        · exact .inl (by rwa [max_eq_left hmax])
        · exact .inr ⟨rfl, max_eq_right hmax⟩
    · rw [if_neg hk]
      simpa [hk] using And.intro hsome hnone

/-- Some deadline is still to come exactly when some end is. -/
theorem exists_deadline_iff (entries : List (κ × T)) (k : κ) (now : T) :
    (∃ e, deadlines (entries.map fun n => .renewed n.1 n.2) k = some e ∧ now < e) ↔
      ∃ e, (k, e) ∈ entries ∧ now < e := by
  obtain ⟨hsome, hnone⟩ := deadlines_renewals entries k
  constructor
  · rintro ⟨e, he, hlater⟩
    exact ⟨e, (hsome e he).1, hlater⟩
  · rintro ⟨e, hmem, hlater⟩
    cases hd : deadlines (entries.map fun n => Note.renewed n.1 n.2) k with
    | none => exact absurd hmem (hnone hd e)
    | some ed => exact ⟨ed, rfl, hlater.trans_le ((hsome ed hd).2 e hmem)⟩

/-- The leases that run past a time are those of the deadlines. -/
def Agrees (now : T) (table : List (κ × T)) (d : κ → Option T) : Prop :=
  ∀ k e, now < e → ((k, e) ∈ table ↔ d k = some e)

omit [DecidableEq κ] in
theorem agrees_nil (now : T) : Agrees now ([] : List (κ × T)) fun _ => none := by
  simp [Agrees]

namespace Agrees

variable {now : T} {table : List (κ × T)} {d : κ → Option T}

/-- A lease that runs past a time after its renewal, seen from the table and from the
deadlines. -/
theorem renew (h : Agrees now table d) (hnodup : (keys table).Nodup) (k : κ) (e : T) :
    Agrees now (renew table k e) (deadlineStep d (.renewed k e)) := by
  intro k' e' hlater
  by_cases hk' : k' = k
  · subst hk'
    simp only [deadlineStep, if_pos, Option.some.injEq]
    by_cases hk : k' ∈ keys table
    · obtain ⟨en, hen⟩ := mem_keys.mp hk
      -- the renewed lease ends at the later of two times, on both sides
      have hmem : (k', e') ∈ Leases.renew table k' e ↔ e' = max en e := by
        rw [Leases.renew, if_pos hk, mem_update hnodup]
        refine ⟨?_, fun he' => .inr ⟨rfl, en, hen, he'⟩⟩
        rintro (⟨hne, -⟩ | ⟨-, e₁, he₁, rfl⟩)
        · exact absurd rfl hne
        · rw [eq_of_mem hnodup he₁ hen]
      rw [hmem]
      by_cases hen' : now < en
      · rw [(h k' en hen').mp hen]
        exact eq_comm
      · -- the old lease is over, so the new end decides
        cases hd : d k' with
        | none =>
          rw [Option.map_none, Option.getD_none]
          constructor <;> intro heq <;> order
        | some ed =>
          have hed : ¬now < ed := by
            intro hlt
            exact hen' (eq_of_mem hnodup hen ((h k' ed hlt).mpr hd) ▸ hlt)
          rw [Option.map_some, Option.getD_some]
          constructor <;> intro heq <;> order
    · have hmem : (k', e') ∈ Leases.renew table k' e ↔ e' = e := by
        have hnone : (k', e') ∉ table := fun hmem => hk (mem_keys.mpr ⟨e', hmem⟩)
        simp [Leases.renew, hk, hnone]
      rw [hmem]
      cases hd : d k' with
      | none =>
        rw [Option.map_none, Option.getD_none]
        exact eq_comm
      | some ed =>
        have hed : ¬now < ed := fun hlt => hk (mem_keys.mpr ⟨ed, (h k' ed hlt).mpr hd⟩)
        rw [Option.map_some, Option.getD_some]
        constructor <;> intro heq <;> order
  · have hmem : (k', e') ∈ Leases.renew table k e ↔ (k', e') ∈ table := by
      rw [Leases.renew]
      split
      · simp [mem_update hnodup, hk']
      · simp [hk']
    rw [hmem, h k' e' hlater, deadlineStep, if_neg hk']

/-- The same for many renewals. -/
theorem renewAll {history : List (Note κ T)} (h : Agrees now table (deadlines history))
    (hnodup : (keys table).Nodup) (entries : List (κ × T)) :
    Agrees now (renewAll table entries)
      (deadlines (history ++ entries.map fun n => .renewed n.1 n.2)) := by
  induction entries generalizing table history with
  | nil => simpa using h
  | cons n entries ih =>
    have hfirst : Agrees now (Leases.renew table n.1 n.2)
        (deadlines (history ++ [.renewed n.1 n.2])) := by
      rw [deadlines_concat]
      exact h.renew hnodup n.1 n.2
    have hall := ih hfirst (nodup_keys_renew hnodup n.1 n.2)
    rw [List.append_assoc] at hall
    exact hall

omit [DecidableEq κ] in
/-- What a sweep drops is over. -/
theorem sweep (h : Agrees now table d) {now' : T} (hle : now ≤ now') :
    Agrees now' (sweep now' table) d := by
  intro k e hlater
  rw [Leases.sweep, List.mem_filter, ← h k e (hle.trans_lt hlater)]
  exact and_iff_left (decide_eq_true hlater)

/-- A lease that is cut short is over on both sides. -/
theorem cut (h : Agrees now table d) {now' : T} (hle : now ≤ now') (P : κ → Bool) :
    Agrees now' (cut P now' table) (deadlineStep d (.cut P now')) := by
  intro k e hlater
  rw [Leases.cut, List.mem_map]
  cases hP : P k with
  | true =>
    have hover : ∀ n ∈ table, ¬(if P n.1 then (n.1, now') else n) = (k, e) := by
      intro n _ heq
      split at heq
      · exact hlater.ne (congrArg Prod.snd heq)
      · rename_i hP'
        rw [heq] at hP'
        exact hP' hP
    simp only [deadlineStep, hP, if_true]
    refine ⟨fun ⟨n, hn, heq⟩ => absurd heq (hover n hn), fun heq => ?_⟩
    obtain ⟨ed, -, rfl⟩ := Option.map_eq_some_iff.mp heq
    exact absurd hlater (not_lt.mpr (min_le_right ed now'))
  | false =>
    simp only [deadlineStep, hP, Bool.false_eq_true, if_false]
    rw [← h k e (hle.trans_lt hlater)]
    constructor
    · rintro ⟨n, hn, heq⟩
      split at heq
      · exact absurd (congrArg Prod.snd heq) hlater.ne
      · exact heq ▸ hn
    · intro hmem
      exact ⟨(k, e), hmem, by simp [hP]⟩

omit [DecidableEq κ] in
/-- Time goes by. -/
theorem mono (h : Agrees now table d) {now' : T} (hle : now ≤ now') : Agrees now' table d :=
  fun k e hlater => h k e (hle.trans_lt hlater)

end Agrees

end Leases
