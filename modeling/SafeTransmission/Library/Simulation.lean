import SafeTransmission.Library.Runs

/-!
# Simulation of runs

If every step of a system is matched by steps of another one, a run is matched by a run
(`exists_run_of_simulates`).  A step may be matched by no step at all.
-/

namespace SafeTransmission

open Outcome

variable {σ ε τ δ : Type} {step : σ → ε → Outcome σ} {next : τ → δ → Outcome τ}

theorem run_append (es es' : List ε) (s : σ) :
    run step (es ++ es') s = run step es s >>= run step es' := by
  induction es generalizing s with
  | nil => rfl
  | cons e es ih =>
      rw [List.cons_append, run, run, bind_bind]
      congr 1
      funext s'
      exact ih s'

theorem run_append_of_ok {es es' : List ε} {s s₁ : σ} (h : run step es s = ok s₁) :
    run step (es ++ es') s = run step es' s₁ := by
  rw [run_append, h, ok_bind]

/-- Each step between related states can be followed. -/
def Simulates (step : σ → ε → Outcome σ) (next : τ → δ → Outcome τ) (R : σ → τ → Prop) : Prop :=
  ∀ s t e s', R s t → step s e = ok s' → ∃ ds t', run next ds t = ok t' ∧ R s' t'

theorem exists_run_of_simulates {R : σ → τ → Prop} (h : Simulates step next R) {es : List ε}
    {s s' : σ} {t : τ} (hst : R s t) (hrun : run step es s = ok s') :
    ∃ ds t', run next ds t = ok t' ∧ R s' t' := by
  induction es generalizing s t with
  | nil =>
      cases hrun
      exact ⟨[], t, rfl, hst⟩
  | cons e es ih =>
      rw [run] at hrun
      obtain ⟨s₁, hstep, hrest⟩ := bind_eq_ok.mp hrun
      obtain ⟨ds, t₁, hds, hst₁⟩ := h s t e s₁ hst hstep
      obtain ⟨ds', t', hds', hst'⟩ := ih hst₁ hrest
      refine ⟨ds ++ ds', t', ?_, hst'⟩
      rw [run_append_of_ok hds, hds']

end SafeTransmission
