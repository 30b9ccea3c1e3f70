import SafeTransmission.Library.Runs

/-!
# Runs that come to rest

Some steps are the work of a system, and others come from outside or undo it.  If every
piece of work makes a measure smaller, a run of work is not longer than the measure
(`length_le_of_decreases`) and can be continued until no work can be done (`exists_rest`).

How such runs end is decided at their beginning by a property that work neither gains nor
loses (`ends_iff`).
-/

namespace SafeTransmission

open Outcome

variable {σ ε : Type} {step : σ → ε → Outcome σ} {works : σ → ε → Prop}

/-- No work can be done. -/
def AtRest (step : σ → ε → Outcome σ) (works : σ → ε → Prop) (s : σ) : Prop :=
  ∀ e s', works s e → step s e ≠ ok s'

/-- A run of work. -/
def WorksTo (step : σ → ε → Outcome σ) (works : σ → ε → Prop) (es : List ε) (s s' : σ) : Prop :=
  EachStep step works es s ∧ run step es s = ok s'

theorem worksTo_nil (s : σ) : WorksTo step works [] s s :=
  ⟨trivial, rfl⟩

theorem worksTo_cons {e : ε} {es : List ε} {s s' : σ} :
    WorksTo step works (e :: es) s s' ↔
      ∃ s₁, works s e ∧ step s e = ok s₁ ∧ WorksTo step works es s₁ s' := by
  unfold WorksTo
  rw [run, EachStep]
  constructor
  · intro h
    obtain ⟨s₁, hnext, hrest⟩ := bind_eq_ok.mp h.2
    exact ⟨s₁, h.1.1, hnext, h.1.2 s₁ hnext, hrest⟩
  · intro h
    obtain ⟨s₁, he, hnext, hes, hrest⟩ := h
    refine ⟨⟨he, ?_⟩, ?_⟩
    · intro s₂ hsame
      cases hnext.symm.trans hsame
      exact hes
    · rw [hnext, ok_bind]
      exact hrest

/-- What one piece of work keeps, a run of work keeps. -/
theorem WorksTo.keeps (inv : σ → Prop)
    (hkeep : ∀ s e s', inv s → works s e → step s e = ok s' → inv s') {es : List ε} {s s' : σ}
    (h : WorksTo step works es s s') (hs : inv s) : inv s' :=
  inv_of_eachStep inv hkeep hs h.1 h.2

section Measure

variable {inv : σ → Prop} {measure : σ → ℕ}

variable (measure) in
/-- Each piece of work pays at least one unit of the measure. -/
theorem length_le_of_decreases
    (hkeep : ∀ s e s', inv s → works s e → step s e = ok s' → inv s')
    (hdecrease : ∀ s e s', inv s → works s e → step s e = ok s' → measure s' < measure s)
    {es : List ε} {s s' : σ} (hs : inv s) (h : WorksTo step works es s s') :
    es.length + measure s' ≤ measure s := by
  induction es generalizing s with
  | nil =>
      cases h.2
      exact (Nat.zero_add _).le
  | cons e es ih =>
      obtain ⟨s₁, he, hnext, hrest⟩ := worksTo_cons.mp h
      have hlt := hdecrease s e s₁ hs he hnext
      have hle := ih (hkeep s e s₁ hs he hnext) hrest
      rw [List.length_cons]
      omega

/-- Work comes to an end. -/
theorem exists_rest
    (hkeep : ∀ s e s', inv s → works s e → step s e = ok s' → inv s')
    (hdecrease : ∀ s e s', inv s → works s e → step s e = ok s' → measure s' < measure s)
    {s : σ} (hs : inv s) : ∃ es s', WorksTo step works es s s' ∧ AtRest step works s' := by
  induction hm : measure s using Nat.strong_induction_on generalizing s with
  | _ n ih =>
      by_cases hrest : AtRest step works s
      · exact ⟨[], s, worksTo_nil s, hrest⟩
      · unfold AtRest at hrest
        push Not at hrest
        obtain ⟨e, s₁, he, hnext⟩ := hrest
        have hlt := hdecrease s e s₁ hs he hnext
        obtain ⟨es, s', hes, hend⟩ := ih (measure s₁) (by omega) (hkeep s e s₁ hs he hnext) rfl
        exact ⟨e :: es, s', worksTo_cons.mpr ⟨s₁, he, hnext, hes⟩, hend⟩

/-- If work neither gains nor loses a property, and the property tells which states of rest
are good ones, then all runs of work that come to rest end well exactly if the first state
has it. -/
theorem ends_iff {ready done : σ → Prop}
    (hkeep : ∀ s e s', inv s → works s e → step s e = ok s' → inv s')
    (hdecrease : ∀ s e s', inv s → works s e → step s e = ok s' → measure s' < measure s)
    (hready : ∀ s e s', inv s → works s e → step s e = ok s' → (ready s' ↔ ready s))
    (hrest : ∀ s, inv s → AtRest step works s → (done s ↔ ready s)) {s : σ} (hs : inv s) :
    (∀ es s', WorksTo step works es s s' → AtRest step works s' → done s') ↔ ready s := by
  have hkept : ∀ {es s'}, WorksTo step works es s s' → inv s' ∧ (ready s' ↔ ready s) := by
    intro es s' h
    apply h.keeps (fun s' => inv s' ∧ (ready s' ↔ ready s)) ?_ ⟨hs, Iff.rfl⟩
    intro s₁ e s₂ hs₁ he hnext
    exact ⟨hkeep s₁ e s₂ hs₁.1 he hnext, (hready s₁ e s₂ hs₁.1 he hnext).trans hs₁.2⟩
  constructor
  · intro hall
    obtain ⟨es, s', hes, hend⟩ := exists_rest hkeep hdecrease hs
    obtain ⟨hinv, hiff⟩ := hkept hes
    exact hiff.mp ((hrest s' hinv hend).mp (hall es s' hes hend))
  · intro hs₀ es s' hes hend
    obtain ⟨hinv, hiff⟩ := hkept hes
    exact (hrest s' hinv hend).mpr (hiff.mpr hs₀)

end Measure

end SafeTransmission
