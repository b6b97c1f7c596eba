import Mathlib.Data.Finset.Card
import Mathlib.Data.List.AList

/-!
# Inserting many entries into a finite map

A finite map filled by a sequence of insertions holds, at each key, the value
inserted last, and has as many keys as the sequence has distinct ones.  Both
facts are stated for the map built from any starting point, so that they follow
a run of a program step by step.
-/

namespace Assoc

variable {κ ν : Type*} [DecidableEq κ]

/-- Insert the entries of a list from left to right. -/
def insertAll (l : List (κ × ν)) (s : AList fun _ : κ => ν) : AList fun _ : κ => ν :=
  l.foldl (fun s p => s.insert p.1 p.2) s

@[simp] theorem insertAll_nil (s : AList fun _ : κ => ν) : insertAll [] s = s := rfl

@[simp] theorem insertAll_cons (p : κ × ν) (l : List (κ × ν)) (s : AList fun _ : κ => ν) :
    insertAll (p :: l) s = insertAll l (s.insert p.1 p.2) := rfl

theorem insertAll_append (l l' : List (κ × ν)) (s : AList fun _ : κ => ν) :
    insertAll (l ++ l') s = insertAll l' (insertAll l s) := by
  simp [insertAll]

/-- The values a list of entries holds at a key, in order. -/
def valuesAt (k : κ) (l : List (κ × ν)) : List ν :=
  l.filterMap fun p => if p.1 = k then some p.2 else none

/-- **The last insertion at a key wins.** -/
theorem lookup_insertAll (k : κ) (l : List (κ × ν)) (s : AList fun _ : κ => ν) :
    (insertAll l s).lookup k = (valuesAt k l).getLast?.or (s.lookup k) := by
  induction l generalizing s with
  | nil => simp [valuesAt]
  | cons p l ih =>
    rw [insertAll_cons, ih]
    by_cases hk : p.1 = k
    · subst hk
      have hv : valuesAt p.1 (p :: l) = p.2 :: valuesAt p.1 l := by simp [valuesAt]
      rw [AList.lookup_insert, hv, List.getLast?_cons]
      cases (valuesAt p.1 l).getLast? <;> rfl
    · have hv : valuesAt k (p :: l) = valuesAt k l := by simp [valuesAt, hk]
      rw [AList.lookup_insert_ne (Ne.symm hk), hv]

theorem mem_insertAll {k : κ} {l : List (κ × ν)} {s : AList fun _ : κ => ν} :
    k ∈ insertAll l s ↔ k ∈ l.map Prod.fst ∨ k ∈ s := by
  induction l generalizing s with
  | nil => simp
  | cons p l ih =>
    rw [insertAll_cons, ih, AList.mem_insert, List.map_cons, List.mem_cons]
    tauto

/-- **There are as many keys as distinct keys inserted.** -/
theorem length_keys_insertAll (l : List (κ × ν)) :
    (insertAll l (∅ : AList fun _ : κ => ν)).keys.length = (l.map Prod.fst).toFinset.card := by
  rw [← List.toFinset_card_of_nodup (AList.keys_nodup _)]
  congr 1
  ext k
  rw [List.mem_toFinset, ← AList.mem_keys, mem_insertAll, List.mem_toFinset]
  simp

end Assoc
