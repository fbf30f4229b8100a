import Mathlib.Algebra.Order.BigOperators.Group.Finset
import Mathlib.Tactic.Abel

/-!
# Interleavings

The goroutines of one call are a step function: in a state, an event (one goroutine's step, or a
send meeting its receive) is enabled or not, and gives the next state. The scheduler may pick any
enabled event. This module holds what the two worker pools share: the states some interleaving
reaches and induction over them, the states where nothing can move, and the argument that no
interleaving runs forever when a measure drops at every step.
-/

namespace KopiaMetadata

variable {σ ε : Type}

/-- The states some interleaving reaches from `start`. -/
inductive Reachable (step : σ → ε → Option σ) (start : σ) : σ → Prop
  | start : Reachable step start start
  | step {s s' : σ} (e : ε) : Reachable step start s → step s e = some s' → Reachable step start s'

/-- No event is enabled: every goroutine has returned or is blocked for good. -/
def Stuck (step : σ → ε → Option σ) (s : σ) : Prop := ∀ e, step s e = none

namespace Reachable

variable {step : σ → ε → Option σ} {start : σ}

/-- What holds at the start and is kept by every step holds in every reachable state. -/
theorem invariant (P : σ → Prop) (hstart : P start)
    (hstep : ∀ s e s', P s → step s e = some s' → P s') {s : σ} (h : Reachable step start s) :
    P s := by
  induction h with
  | start => exact hstart
  | step e _ he ih => exact hstep _ e _ ih he

/-- From a reachable state, scheduling enabled events for as long as there are any ends in a
reachable stuck state, when a measure drops at every step. -/
theorem exists_stuck (μ : σ → Nat) (hμ : ∀ s e s', step s e = some s' → μ s' < μ s) {s : σ}
    (h : Reachable step start s) : ∃ s', Reachable step start s' ∧ Stuck step s' := by
  obtain ⟨m, hm⟩ : ∃ m, μ s = m := ⟨_, rfl⟩
  induction m using Nat.strong_induction_on generalizing s with
  | _ m ih =>
    by_cases hstuck : Stuck step s
    · exact ⟨s, h, hstuck⟩
    · simp only [Stuck, not_forall, Option.ne_none_iff_exists'] at hstuck
      obtain ⟨e, s', he⟩ := hstuck
      exact ih (μ s') (hm ▸ hμ s e s' he) (h.step e he) rfl

end Reachable

/-- **No run is infinite** when a measure drops at every step, whatever the scheduler does. -/
theorem no_infinite_run {step : σ → ε → Option σ} (μ : σ → Nat)
    (hμ : ∀ s e s', step s e = some s' → μ s' < μ s) (run : ℕ → σ) :
    ¬ ∀ i, ∃ e, step (run i) e = some (run (i + 1)) := by
  intro hrun
  have hbound : ∀ i, μ (run i) + i ≤ μ (run 0) := by
    intro i
    induction i with
    | zero => simp
    | succ i ih =>
      obtain ⟨e, he⟩ := hrun i
      have := hμ _ e _ he
      omega
  have := hbound (μ (run 0) + 1)
  omega

/-- **The program's own steps end** while others act too: when a measure drops at every step of
the program's goroutines and no step of the others raises it, from some point on every step of a
run is one of the others'. -/
theorem own_steps_end {step : σ → ε → Option σ} (μ : σ → Nat) (own : ε → Prop)
    (hle : ∀ s e s', step s e = some s' → μ s' ≤ μ s)
    (hlt : ∀ s e s', own e → step s e = some s' → μ s' < μ s) (run : ℕ → σ) (evs : ℕ → ε)
    (hrun : ∀ i, step (run i) (evs i) = some (run (i + 1))) :
    ∃ N, ∀ i ≥ N, ¬ own (evs i) := by
  have hmono : ∀ i j, i ≤ j → μ (run j) ≤ μ (run i) := by
    intro i j hij
    induction hij with
    | refl => exact le_rfl
    | step _ ih => exact (hle _ _ _ (hrun _)).trans ih
  by_contra hnot
  push_neg at hnot
  have hdrop : ∀ m, ∃ i, μ (run i) + m ≤ μ (run 0) := by
    intro m
    induction m with
    | zero => exact ⟨0, le_rfl⟩
    | succ m ih =>
      obtain ⟨i, hi⟩ := ih
      obtain ⟨j, hij, hown⟩ := hnot i
      have hlt := hlt _ _ _ hown (hrun j)
      exact ⟨j + 1, by have := hmono i j hij; omega⟩
  obtain ⟨i, hi⟩ := hdrop (μ (run 0) + 1)
  omega

/-- A goroutine that a step did not replace is as it was. -/
theorem eq_of_update_eq {k : Nat} {W : Type} {g : Fin k → W} {w v : Fin k} {x y : W}
    (hv : Function.update g w x v = y) (hx : x ≠ y) : g v = y := by
  by_cases hvw : v = w
  · subst hvw
    exact absurd (Function.update_same v x g ▸ hv) hx
  · rwa [Function.update_noteq hvw] at hv

/-- Replacing one goroutine of a pool changes a sum over the pool by the difference at that
goroutine. -/
theorem sum_update_add {k : Nat} {W M : Type} [AddCommMonoid M] (g : Fin k → W) (φ : W → M)
    (w : Fin k) (x : W) :
    ∑ v, φ (Function.update g w x v) + φ (g w) = ∑ v, φ (g v) + φ x := by
  have hupdate : (fun v => φ (Function.update g w x v))
      = Function.update (fun v => φ (g v)) w (φ x) := by
    funext v
    exact Function.apply_update (fun _ => φ) g w x v
  rw [hupdate, Finset.sum_update_of_mem (Finset.mem_univ w),
    Finset.sum_eq_add_sum_diff_singleton (Finset.mem_univ w) (fun v => φ (g v))]
  abel

end KopiaMetadata
