import Mathlib.Data.Option.Basic

/-!
# Runs of a partial step function

A system is a step function that may have no next state.  A run is a sequence of
actions, each possible in the state the ones before it lead to.  What is to be shown of
every state reached is shown by an invariant, which may depend on the state before each
action (`Along`) and on a record that is kept beside the run.

## Main definitions

* `Runs.run` — the state after a sequence of actions.
* `Runs.Along` — a condition on the state before each action of a run.

## Main results

* `Runs.run_recorded` — **the invariant rule**, with a record kept beside the run.
* `Runs.run_invariant` — the same without one.
-/

namespace Runs

variable {σ α γ : Type*} {step : σ → α → Option σ} {C D : σ → α → Prop}

/-- The state after a sequence of actions, if each of them is possible. -/
def run (step : σ → α → Option σ) (s : σ) (actions : List α) : Option σ :=
  actions.foldlM step s

/-- A condition on the state before each action of a run. -/
def Along (step : σ → α → Option σ) (C : σ → α → Prop) : σ → List α → Prop
  | _, [] => True
  | s, a :: actions => C s a ∧ ∀ s', step s a = some s' → Along step C s' actions

instance decidableAlong (step : σ → α → Option σ) (C : σ → α → Prop)
    [∀ s a, Decidable (C s a)] : (s : σ) → (actions : List α) → Decidable (Along step C s actions)
  | _, [] => .isTrue trivial
  | s, a :: actions =>
      match h : step s a with
      | none => decidable_of_iff (C s a) ⟨fun hc => ⟨hc, by simp [h]⟩, And.left⟩
      | some s' =>
          have := decidableAlong step C s' actions
          decidable_of_iff (C s a ∧ Along step C s' actions) <| by simp [Along, h]

/-- A weaker condition along a run. -/
theorem Along.imp {s : σ} {actions : List α} (h : Along step C s actions)
    (himp : ∀ s, ∀ a ∈ actions, C s a → D s a) : Along step D s actions := by
  induction actions generalizing s with
  | nil => exact trivial
  | cons a actions ih =>
    refine ⟨himp s a List.mem_cons_self h.1, ?_⟩
    intro s' hstep
    exact ih (h.2 s' hstep) fun s a' ha' => himp s a' (List.mem_cons_of_mem _ ha')

/-- A condition on the actions alone. -/
theorem along_of_forall {s : σ} {actions : List α} (h : ∀ s, ∀ a ∈ actions, C s a) :
    Along step C s actions := by
  induction actions generalizing s with
  | nil => exact trivial
  | cons a actions ih =>
    refine ⟨h s a List.mem_cons_self, ?_⟩
    intro s' _
    exact ih fun s a' ha' => h s a' (List.mem_cons_of_mem _ ha')

/-- A run that goes on. -/
theorem Along.append {s : σ} {before after : List α} (hbefore : Along step C s before)
    (hafter : ∀ s', run step s before = some s' → Along step C s' after) :
    Along step C s (before ++ after) := by
  induction before generalizing s with
  | nil => exact hafter s rfl
  | cons a before ih =>
    refine ⟨hbefore.1, fun s₁ hfirst => ?_⟩
    apply ih (hbefore.2 s₁ hfirst)
    intro s' hrest
    apply hafter s'
    exact Option.bind_eq_some_iff.mpr ⟨s₁, hfirst, hrest⟩

/-- **The invariant rule.**  If every action keeps the invariant and updates the record,
the invariant holds after a run for the record of the run. -/
theorem run_recorded {I : γ → σ → Prop} (record : γ → α → γ)
    (hstep : ∀ g s a s', I g s → C s a → step s a = some s' → I (record g a) s')
    {g : γ} {s s' : σ} {actions : List α} (hs : I g s) (halong : Along step C s actions)
    (hrun : run step s actions = some s') : I (actions.foldl record g) s' := by
  induction actions generalizing g s with
  | nil =>
    obtain rfl := Option.some.inj hrun
    exact hs
  | cons a actions ih =>
    obtain ⟨s₁, hfirst, hrest⟩ := Option.bind_eq_some_iff.mp hrun
    exact ih (hstep g s a s₁ hs halong.1 hfirst) (halong.2 s₁ hfirst) hrest

/-- The invariant rule without a record. -/
theorem run_invariant {I : σ → Prop}
    (hstep : ∀ s a s', I s → C s a → step s a = some s' → I s') {s s' : σ} {actions : List α}
    (hs : I s) (halong : Along step C s actions) (hrun : run step s actions = some s') :
    I s' := by
  have hunit : ∀ (_ : Unit) s a s', I s → C s a → step s a = some s' → I s' := fun _ => hstep
  exact run_recorded (I := fun _ => I) (fun g _ => g) hunit (g := ()) hs halong hrun

end Runs
