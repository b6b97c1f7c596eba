import Mathlib.Data.Fintype.Pigeonhole
import Mathlib.Data.List.Basic
import Mathlib.Data.List.Nodup
import Mathlib.Tactic.Common
import P2pClipboard.Lib.Loops

/-!
# Unfolding a graph

A graph whose edges have labels, no two edges of a node with the same one.  From a
node every way is followed: a leaf at the end of a way is written down together
with the labels that lead to it, an inner node is entered.  Nothing remembers where
a way has been before, so the unfolding has a budget.

## Main definitions

* `LabelledGraph` — nodes, their edges, leaves and inner nodes.
* `LabelledGraph.walk` — where a list of labels leads.
* `LabelledGraph.ways` — the unfolding, or `none` when the budget runs out.
* `LabelledGraph.Acyclic` — no way leads to a node that a way leads back to.

## Main results

* `LabelledGraph.mem_ways`, `LabelledGraph.nodup_ways` — **the unfolding has each way
  to a leaf, once.**
* `LabelledGraph.exists_ways_iff` — **it ends if and only if there is no cycle.**
-/

/-- A graph whose edges have labels. -/
structure LabelledGraph (ν α : Type*) where
  /-- The edges from a node, each with its label and where it leads. -/
  edges : ν → List (α × ν)
  /-- A node that is written down. -/
  leaf : ν → Bool
  /-- A node that is entered. -/
  inner : ν → Bool
  /-- No two edges from a node have the same label. -/
  nodup_edges : ∀ v, ((edges v).map Prod.fst).Nodup
  /-- Only inner nodes have edges. -/
  inner_of_mem : ∀ {v e}, e ∈ edges v → inner v = true
  /-- A leaf is not entered. -/
  inner_of_leaf : ∀ {v}, leaf v = true → inner v = false

namespace LabelledGraph

variable {ν α : Type*} (G : LabelledGraph ν α)

/-! ### Ways -/

/-- In a list of pairs without a repeated first part, looking up is finding. -/
theorem lookup_eq_some_iff_mem [BEq α] [LawfulBEq α] {l : List (α × ν)}
    (h : (l.map Prod.fst).Nodup) {a : α} {w : ν} : l.lookup a = some w ↔ (a, w) ∈ l := by
  induction l with
  | nil => simp
  | cons e l ih =>
    obtain ⟨b, u⟩ := e
    rw [List.map_cons, List.nodup_cons] at h
    rw [List.lookup_cons, List.mem_cons]
    by_cases hab : a = b
    · subst hab
      have hnot : (a, w) ∉ l := fun hmem => h.1 (List.mem_map.mpr ⟨_, hmem, rfl⟩)
      simp [hnot, eq_comm]
    · have hbeq : (a == b) = false := beq_eq_false_iff_ne.mpr hab
      simp only [hbeq, ih h.2, Prod.mk.injEq, hab, false_and, false_or]

section Walk

variable [DecidableEq α]

/-- Where an edge leads. -/
def follow (v : ν) (a : α) : Option ν := (G.edges v).lookup a

theorem follow_eq_some {v w : ν} {a : α} : G.follow v a = some w ↔ (a, w) ∈ G.edges v :=
  lookup_eq_some_iff_mem (G.nodup_edges v)

/-- Where a list of labels leads. -/
def walk (v : ν) (as : List α) : Option ν := as.foldlM G.follow v

@[simp] theorem walk_nil (v : ν) : G.walk v [] = some v := rfl

theorem walk_append (v : ν) (as bs : List α) :
    G.walk v (as ++ bs) = (G.walk v as).bind (G.walk · bs) := by
  simp [walk, List.foldlM_append]

/-- The first label leads along an edge. -/
theorem walk_cons_eq_some {v u : ν} {a : α} {as : List α} :
    G.walk v (a :: as) = some u ↔ ∃ w, (a, w) ∈ G.edges v ∧ G.walk w as = some u := by
  simp [walk, List.foldlM_cons, ← follow_eq_some, Option.bind_eq_some_iff]

/-- Whatever a way leads on from is entered. -/
theorem inner_of_walk {v u : ν} {as : List α} (h : G.walk v as = some u) (hne : as ≠ []) :
    G.inner v = true := by
  obtain ⟨a, as, rfl⟩ := List.exists_cons_of_ne_nil hne
  obtain ⟨w, hw, -⟩ := G.walk_cons_eq_some.mp h
  exact G.inner_of_mem hw

/-- From any other node no way leads on. -/
theorem eq_of_walk_of_not_inner {v u : ν} {as : List α} (h : G.walk v as = some u)
    (hinner : G.inner v = false) : as = [] ∧ u = v := by
  have has : as = [] := by
    by_contra hne
    exact absurd (hinner.symm.trans (G.inner_of_walk h hne)) (by simp)
  subst has
  exact ⟨rfl, (Option.some.inj h).symm⟩

/-- No way leads to a node that a way leads back to. -/
def Acyclic (v : ν) : Prop :=
  ∀ as w, G.walk v as = some w → ∀ bs, G.walk w bs = some w → bs = []

end Walk

/-! ### The unfolding -/

/-- What an edge contributes: a leaf itself, an inner node what is below it. -/
def below (unfold : ν → Option (List (List α × ν))) (e : α × ν) : Option (List (List α × ν)) :=
  if G.leaf e.2 then some [([e.1], e.2)]
  else if G.inner e.2 then (unfold e.2).map (List.map (Prod.map (e.1 :: ·) id))
  else some []

/-- The leaves below a node, each with the labels that lead to it; `none` when the
budget of nested calls runs out. -/
def ways : ℕ → ν → Option (List (List α × ν))
  | 0, _ => none
  | n + 1, v => ((G.edges v).mapM (G.below (ways n))).map List.flatten

section Ways

variable {G}

/-- What an edge to an inner node contributes is found through its label. -/
theorem below_eq_some {unfold : ν → Option (List (List α × ν))} {e : α × ν}
    {l : List (List α × ν)} (h : G.below unfold e = some l) :
    (G.leaf e.2 = true ∧ l = [([e.1], e.2)]) ∨
    (G.inner e.2 = true ∧ ∃ l', unfold e.2 = some l' ∧ l = l'.map (Prod.map (e.1 :: ·) id)) ∨
    (G.leaf e.2 = false ∧ G.inner e.2 = false ∧ l = []) := by
  unfold below at h
  split_ifs at h with hleaf hinner
  · exact .inl ⟨hleaf, (Option.some.inj h).symm⟩
  · obtain ⟨l', hl', rfl⟩ := Option.map_eq_some_iff.mp h
    exact .inr (.inl ⟨hinner, l', hl', rfl⟩)
  · exact .inr (.inr ⟨by simpa using hleaf, by simpa using hinner, (Option.some.inj h).symm⟩)

/-- Whatever an edge contributes begins with its label. -/
theorem exists_cons_of_mem_below {unfold : ν → Option (List (List α × ν))} {e : α × ν}
    {l : List (List α × ν)} (h : G.below unfold e = some l) {p : List α × ν} (hp : p ∈ l) :
    ∃ as, p.1 = e.1 :: as := by
  rcases below_eq_some h with ⟨-, rfl⟩ | ⟨-, l', -, rfl⟩ | ⟨-, -, rfl⟩
  · obtain rfl := List.mem_singleton.mp hp
    exact ⟨[], rfl⟩
  · obtain ⟨q, -, rfl⟩ := List.mem_map.mp hp
    exact ⟨q.1, rfl⟩
  · exact absurd hp List.not_mem_nil

/-- What an edge contributes, given what the nodes do. -/
theorem mem_below [DecidableEq α] {unfold : ν → Option (List (List α × ν))} {a : α} {w u : ν}
    {as : List α} {l : List (List α × ν)} (h : G.below unfold (a, w) = some l)
    (hunfold : ∀ l', unfold w = some l' → ∀ p : List α × ν,
      p ∈ l' ↔ p.1 ≠ [] ∧ G.leaf p.2 = true ∧ G.walk w p.1 = some p.2) :
    (a :: as, u) ∈ l ↔ G.leaf u = true ∧ G.walk w as = some u := by
  rcases below_eq_some h with ⟨hw, rfl⟩ | ⟨hw, l', hl', rfl⟩ | ⟨hw, hinner, rfl⟩
  · -- no way leads on from a leaf
    constructor
    · intro hp
      obtain ⟨hcons, rfl⟩ := Prod.mk.inj (List.mem_singleton.mp hp)
      obtain rfl := (List.cons.inj hcons).2
      exact ⟨hw, G.walk_nil u⟩
    · rintro ⟨-, hwalk⟩
      obtain ⟨rfl, rfl⟩ := G.eq_of_walk_of_not_inner hwalk (G.inner_of_leaf hw)
      exact List.mem_singleton_self _
  · have hcons : (a :: as, u) ∈ l'.map (Prod.map (a :: ·) id) ↔ (as, u) ∈ l' := by
      simp [Prod.map]
    rw [hcons, hunfold l' hl']
    refine ⟨fun hp => hp.2, fun hp => ⟨?_, hp⟩⟩
    -- an inner node is no leaf, so the way leads on
    rintro rfl
    obtain rfl := Option.some.inj hp.2
    exact absurd (hw.symm.trans (G.inner_of_leaf hp.1)) (by simp)
  · refine ⟨fun hp => absurd hp List.not_mem_nil, ?_⟩
    rintro ⟨hleaf, hwalk⟩
    obtain ⟨-, rfl⟩ := G.eq_of_walk_of_not_inner hwalk hinner
    exact absurd (hleaf.symm.trans hw) (by simp)

/-- **Every way to a leaf is unfolded**, and nothing else. -/
theorem mem_ways [DecidableEq α] {n : ℕ} {v : ν} {l : List (List α × ν)}
    (h : G.ways n v = some l) {p : List α × ν} :
    p ∈ l ↔ p.1 ≠ [] ∧ G.leaf p.2 = true ∧ G.walk v p.1 = some p.2 := by
  induction n generalizing v l p with
  | zero => exact absurd h (by simp [ways])
  | succ n ih =>
    rw [ways] at h
    rw [Loops.mem_mapM_flatten h]
    obtain ⟨as, u⟩ := p
    constructor
    · rintro ⟨⟨a, w⟩, he, l', hl', hp⟩
      obtain ⟨as', has⟩ := exists_cons_of_mem_below hl' hp
      obtain rfl : as = a :: as' := has
      obtain ⟨hleaf, hwalk⟩ := (mem_below hl' fun _ hw _ => ih hw).mp hp
      exact ⟨List.cons_ne_nil _ _, hleaf, G.walk_cons_eq_some.mpr ⟨w, he, hwalk⟩⟩
    · rintro ⟨hne, hleaf, hwalk⟩
      obtain ⟨a, as', has⟩ := List.exists_cons_of_ne_nil hne
      obtain rfl : as = a :: as' := has
      obtain ⟨w, he, hwalk⟩ := G.walk_cons_eq_some.mp hwalk
      -- the edge was visited, since the whole unfolding ended
      obtain ⟨l', hl'⟩ : ∃ l', G.below (G.ways n) (a, w) = some l' := by
        refine Option.ne_none_iff_exists'.mp fun hnone => ?_
        rw [Loops.mapM_eq_none.mpr ⟨_, he, hnone⟩] at h
        exact absurd h (by simp)
      exact ⟨(a, w), he, l', hl', (mem_below hl' fun _ hw _ => ih hw).mpr ⟨hleaf, hwalk⟩⟩

/-- **No way is unfolded twice.** -/
theorem nodup_ways {n : ℕ} {v : ν} {l : List (List α × ν)} (h : G.ways n v = some l) :
    (l.map Prod.fst).Nodup := by
  induction n generalizing v l with
  | zero => exact absurd h (by simp [ways])
  | succ n ih =>
    rw [ways] at h
    have hedges := G.nodup_edges v
    generalize G.edges v = es at h hedges
    induction es generalizing l with
    | nil =>
      obtain rfl : l = [] := by simpa using h.symm
      exact List.nodup_nil
    | cons e es ihes =>
      obtain ⟨first, rest, hfirst, hrest, rfl⟩ := Loops.mapM_flatten_eq_some h
      rw [List.map_cons, List.nodup_cons] at hedges
      rw [List.map_append]
      refine List.Nodup.append ?_ (ihes hrest hedges.2) ?_
      · rcases below_eq_some hfirst with ⟨-, rfl⟩ | ⟨-, l', hl', rfl⟩ | ⟨-, -, rfl⟩
        · exact List.nodup_singleton _
        · have hcons : (l'.map (Prod.map (e.1 :: ·) id)).map Prod.fst =
              (l'.map Prod.fst).map (e.1 :: ·) := by
            simp [Function.comp_def]
          rw [hcons]
          exact (ih hl').map (List.cons_injective)
        · exact List.nodup_nil
      · -- the ways through the other edges begin with other labels
        intro as has has'
        obtain ⟨p, hp, rfl⟩ := List.mem_map.mp has
        obtain ⟨q, hq, hpq⟩ := List.mem_map.mp has'
        obtain ⟨ps, hps⟩ := exists_cons_of_mem_below hfirst hp
        obtain ⟨e', he', l', hl', hq⟩ := (Loops.mem_mapM_flatten hrest).mp hq
        obtain ⟨qs, hqs⟩ := exists_cons_of_mem_below hl' hq
        rw [hps, hqs] at hpq
        obtain ⟨hlabel, -⟩ := List.cons.inj hpq
        exact hedges.1 (List.mem_map.mpr ⟨e', he', hlabel⟩)

end Ways

/-! ### Whether the unfolding ends -/

section Ends

variable {G} [DecidableEq α]

/-- The budget runs out on a way that is as long. -/
theorem ways_eq_none_iff {n : ℕ} {v : ν} (hv : G.inner v = true) :
    G.ways n v = none ↔
      ∃ as u, as.length = n ∧ G.inner u = true ∧ G.walk v as = some u := by
  induction n generalizing v with
  | zero =>
    refine ⟨fun _ => ⟨[], v, rfl, hv, rfl⟩, fun _ => rfl⟩
  | succ n ih =>
    rw [ways, Option.map_eq_none_iff, Loops.mapM_eq_none]
    constructor
    · rintro ⟨⟨a, w⟩, he, hnone⟩
      unfold below at hnone
      split_ifs at hnone with hleaf hinner
      obtain ⟨as, u, hlen, hu, hwalk⟩ := (ih hinner).mp (Option.map_eq_none_iff.mp hnone)
      exact ⟨a :: as, u, by simp [hlen], hu, G.walk_cons_eq_some.mpr ⟨w, he, hwalk⟩⟩
    · rintro ⟨as, u, hlen, hu, hwalk⟩
      obtain ⟨a, as, rfl⟩ := List.exists_cons_of_length_eq_add_one hlen
      obtain ⟨w, he, hwalk⟩ := G.walk_cons_eq_some.mp hwalk
      have hinner : G.inner w = true := by
        cases as with
        | nil =>
          obtain rfl := Option.some.inj hwalk
          exact hu
        | cons b as => exact G.inner_of_walk hwalk (List.cons_ne_nil b as)
      have hleaf : G.leaf w = false := by
        by_contra hleaf
        rw [G.inner_of_leaf (by simpa using hleaf)] at hinner
        exact absurd hinner (by simp)
      refine ⟨(a, w), he, ?_⟩
      have hnone := (ih hinner).mpr ⟨as, u, by simpa using hlen, hu, hwalk⟩
      simp [below, hleaf, hinner, hnone]

/-- A way can be cut at any length. -/
theorem exists_walk_take {v u : ν} {as : List α} (h : G.walk v as = some u) (n : ℕ) :
    ∃ w, G.walk v (as.take n) = some w ∧ G.walk w (as.drop n) = some u := by
  rw [← List.take_append_drop n as, walk_append] at h
  simpa using Option.bind_eq_some_iff.mp h

/-- Around a cycle a way gets as long as one likes. -/
theorem exists_long_walk {w : ν} {bs : List α} (h : G.walk w bs = some w) (hne : bs ≠ [])
    (n : ℕ) : ∃ cs, n < cs.length ∧ G.walk w cs = some w := by
  induction n with
  | zero => exact ⟨bs, List.length_pos_iff.mpr hne, h⟩
  | succ n ih =>
    obtain ⟨cs, hlen, hwalk⟩ := ih
    have hpos := List.length_pos_iff.mpr hne
    exact ⟨cs ++ bs, by rw [List.length_append]; omega, by simp [walk_append, hwalk, h]⟩

/-- **The unfolding of a finite graph ends if and only if there is no cycle.** -/
theorem exists_ways_iff [Finite ν] {v : ν} (hv : G.inner v = true) :
    (∃ n l, G.ways n v = some l) ↔ G.Acyclic v := by
  constructor
  · rintro ⟨n, l, hl⟩ as w has bs hbs
    by_contra hne
    obtain ⟨cs, hlen, hcs⟩ := exists_long_walk hbs hne n
    have hlong : G.walk v (as ++ cs) = some w := by simp [walk_append, has, hcs]
    obtain ⟨u, hu, hrest⟩ := exists_walk_take hlong n
    have hinner : G.inner u = true := by
      refine G.inner_of_walk hrest (List.ne_nil_of_length_pos ?_)
      rw [List.length_drop, List.length_append]
      omega
    have htake : ((as ++ cs).take n).length = n := by
      rw [List.length_take, List.length_append]
      omega
    have hnone := (ways_eq_none_iff hv).mpr ⟨(as ++ cs).take n, u, htake, hinner, hu⟩
    rw [hl] at hnone
    exact absurd hnone (by simp)
  · intro hacyclic
    have : Fintype ν := Fintype.ofFinite ν
    by_contra hnone
    have hnone : G.ways (Fintype.card ν) v = none := by
      refine Option.eq_none_iff_forall_ne_some.mpr fun l hl => hnone ⟨_, l, hl⟩
    obtain ⟨as, u, hlen, -, hwalk⟩ := (ways_eq_none_iff hv).mp hnone
    -- one node more than there are, so one of them twice
    choose node hnode _ using fun i : Fin (as.length + 1) => exists_walk_take hwalk i
    obtain ⟨i, j, hne, heq⟩ := Fintype.exists_ne_map_eq_of_card_lt node (by simp [hlen])
    have hcycle : ∀ i j : Fin (as.length + 1), i < j → node i ≠ node j := by
      intro i j hij heq
      have hsplit : as.take j = as.take i ++ (as.take j).drop i := by
        have htake : (as.take j).take i = as.take i := by
          rw [List.take_take, Nat.min_eq_left hij.le]
        rw [← htake, List.take_append_drop]
      have hj := hnode j
      rw [hsplit, walk_append, hnode i, ← heq, Option.bind_some] at hj
      have hnil := hacyclic _ _ (hnode i) _ hj
      have hlength := congrArg List.length hnil
      rw [List.length_drop, List.length_take, List.length_nil] at hlength
      have := i.isLt
      have := j.isLt
      have : (i : ℕ) < j := hij
      omega
    rcases lt_or_gt_of_ne hne with hij | hij
    · exact hcycle i j hij heq
    · exact hcycle j i hij heq.symm

end Ends

end LabelledGraph
