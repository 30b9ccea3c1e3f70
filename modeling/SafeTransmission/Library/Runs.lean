import SafeTransmission.Library.Outcome

/-!
# Runs of a system

A system takes a state and an event to the next state.  A run is a list of events.
Facts about all runs come from facts about one step: an invariant is kept
(`exists_run`), and what is to be shown of every step of a run is equivalent to a
condition on every step if it is for states that meet the invariant
(`eachStep_iff`).

Where several threads take steps in any order, an event says which of them takes its
next step.  An event that cannot happen in a state is `disabled` there.
-/

namespace SafeTransmission

open Outcome

variable {σ ε : Type} {step : σ → ε → Outcome σ}

/-- The state after the events. -/
def run (step : σ → ε → Outcome σ) : List ε → σ → Outcome σ
  | [], s => ok s
  | e :: es, s => do
      let s ← step s e
      run step es s

/-- `R` holds of every state of the run and the event that it meets. -/
def EachStep (step : σ → ε → Outcome σ) (R : σ → ε → Prop) : List ε → σ → Prop
  | [], _ => True
  | e :: es, s => R s e ∧ ∀ s', step s e = ok s' → EachStep step R es s'

/-- The event does not happen in this state. -/
abbrev disabled {α : Type} : Outcome α :=
  err 0

/-- What an event needs in order to happen. -/
def require (p : Prop) [Decidable p] : Outcome Unit :=
  if p then ok () else disabled

theorem require_bind_eq_ok {α : Type} {p : Prop} [Decidable p] {next : Unit → Outcome α} {a : α} :
    (require p >>= next) = ok a ↔ p ∧ next () = ok a := by
  unfold require
  split <;> simp_all

theorem require_bind_eq_fault {α : Type} {p : Prop} [Decidable p] {next : Unit → Outcome α}
    {kind : Fault} : (require p >>= next) = fault kind ↔ p ∧ next () = fault kind := by
  unfold require
  split <;> simp_all

theorem require_bind_of {α : Type} {p : Prop} [Decidable p] (h : p) (next : Unit → Outcome α) :
    (require p >>= next) = next () := by
  rw [require, if_pos h, ok_bind]

theorem require_bind_of_not {α : Type} {p : Prop} [Decidable p] (h : ¬p)
    (next : Unit → Outcome α) : (require p >>= next) = disabled := by
  rw [require, if_neg h, err_bind]

/-- The step does not happen, or leads to a state with the property. -/
def Goes {α : Type} (x : Outcome α) (Q : α → Prop) : Prop :=
  x = disabled ∨ ∃ a, x = ok a ∧ Q a

theorem goes_ok {α : Type} {Q : α → Prop} {a : α} (h : Q a) : Goes (ok a) Q :=
  Or.inr ⟨a, rfl, h⟩

theorem goes_disabled {α : Type} {Q : α → Prop} : Goes disabled Q :=
  Or.inl rfl

theorem goes_require {α : Type} {Q : α → Prop} {p : Prop} [Decidable p] {next : Unit → Outcome α}
    (h : p → Goes (next ()) Q) : Goes (require p >>= next) Q := by
  by_cases hp : p
  · rw [require_bind_of hp]
    exact h hp
  · rw [require_bind_of_not hp]
    exact goes_disabled

/-- Where every step that meets a condition goes on with the invariant, every run of such steps
does. -/
theorem goes_run {inv : σ → Prop} {condition : σ → ε → Prop}
    (hkeep : ∀ s e, inv s → condition s e → Goes (step s e) inv) {es : List ε} {s : σ} (hs : inv s)
    (hes : EachStep step condition es s) : Goes (run step es s) inv := by
  induction es generalizing s with
  | nil => exact goes_ok hs
  | cons e es ih =>
      rw [run]
      rcases hkeep s e hs hes.1 with hnext | ⟨s', hnext, hs'⟩
      · rw [hnext]
        exact goes_disabled
      · rw [hnext, ok_bind]
        exact ih hs' (hes.2 s' hnext)

/-- A test of every step of a run. -/
def testEach (step : σ → ε → Outcome σ) (p : σ → ε → Bool) : List ε → σ → Bool
  | [], _ => true
  | e :: es, s => p s e && match step s e with
    | ok s' => testEach step p es s'
    | _ => true

theorem EachStep.of_test {R : σ → ε → Prop} {p : σ → ε → Bool} (hp : ∀ s e, p s e = true → R s e)
    {es : List ε} {s : σ} (h : testEach step p es s = true) : EachStep step R es s := by
  induction es generalizing s with
  | nil => trivial
  | cons e es ih =>
      rw [testEach, Bool.and_eq_true] at h
      refine ⟨hp s e h.1, fun s' hnext => ih ?_⟩
      have hrest := h.2
      rwa [hnext] at hrest

/-- A test of the state that a run reaches. -/
def reaches (step : σ → ε → Outcome σ) (es : List ε) (s : σ) (p : σ → Bool) : Bool :=
  match run step es s with
  | ok s' => p s'
  | _ => false

theorem exists_of_reaches {es : List ε} {s : σ} {p : σ → Bool} (h : reaches step es s p = true) :
    ∃ s', run step es s = ok s' ∧ p s' = true := by
  unfold reaches at h
  split at h
  · rename_i s' hrun
    exact ⟨s', hrun, h⟩
  · cases h

theorem EachStep.last {R : σ → ε → Prop} {es : List ε} {e : ε} {s s' : σ}
    (h : EachStep step R (es ++ [e]) s) (hrun : run step es s = ok s') : R s' e := by
  induction es generalizing s with
  | nil =>
      cases hrun
      exact h.1
  | cons e' es ih =>
      rw [run] at hrun
      obtain ⟨s₁, hnext, hrest⟩ := bind_eq_ok.mp hrun
      exact ih (h.2 s₁ hnext) hrest

/-- Where every admissible step succeeds and keeps the invariant, every run does. -/
theorem exists_run (inv : σ → Prop) {admissible : ε → Prop}
    (hstep : ∀ s e, inv s → admissible e → ∃ s', step s e = ok s' ∧ inv s') {es : List ε}
    (hes : ∀ e ∈ es, admissible e) {s : σ} (hs : inv s) : ∃ s', run step es s = ok s' ∧ inv s' := by
  induction es generalizing s with
  | nil => exact ⟨s, rfl, hs⟩
  | cons e es ih =>
      obtain ⟨s₁, hnext, hs₁⟩ := hstep s e hs (hes e List.mem_cons_self)
      obtain ⟨s', hrun, hs'⟩ := ih (fun e' he' => hes e' (List.mem_cons_of_mem _ he')) hs₁
      exact ⟨s', by rw [run, hnext, ok_bind, hrun], hs'⟩

/-- Every step of a run behaves exactly if every step meets the condition, provided
that this is so for single steps from states that meet the invariant, and that
steps that meet the condition keep the invariant. -/
theorem eachStep_iff (inv : σ → Prop) {admissible : ε → Prop} {behaves condition : σ → ε → Prop}
    (hiff : ∀ s e, inv s → admissible e → (behaves s e ↔ condition s e))
    (hkeep : ∀ s e s', inv s → admissible e → condition s e → step s e = ok s' → inv s')
    {es : List ε} (hes : ∀ e ∈ es, admissible e) {s : σ} (hs : inv s) :
    EachStep step behaves es s ↔ EachStep step condition es s := by
  induction es generalizing s with
  | nil => exact Iff.rfl
  | cons e es ih =>
      have he := hes e List.mem_cons_self
      have hrest := fun e' he' => hes e' (List.mem_cons_of_mem _ he')
      rw [EachStep, EachStep, hiff s e hs he]
      refine and_congr_right fun hcondition => forall₂_congr fun s' hnext => ?_
      exact ih hrest (hkeep s e s' hs he hcondition hnext)

/-- What follows from the condition where an invariant holds, follows for every step of a run
that keeps it. -/
theorem EachStep.imp (inv : σ → Prop) {condition behaves : σ → ε → Prop}
    (himp : ∀ s e, inv s → condition s e → behaves s e)
    (hkeep : ∀ s e s', inv s → condition s e → step s e = ok s' → inv s') {es : List ε} {s : σ}
    (hs : inv s) (hes : EachStep step condition es s) : EachStep step behaves es s := by
  induction es generalizing s with
  | nil => trivial
  | cons e es ih =>
      refine ⟨himp s e hs hes.1, fun s' hnext => ?_⟩
      exact ih (hkeep s e s' hs hes.1 hnext) (hes.2 s' hnext)

/-- An invariant that is kept by the steps that meet a condition holds in every state
that a run of such steps reaches. -/
theorem inv_of_eachStep (inv : σ → Prop) {condition : σ → ε → Prop}
    (hkeep : ∀ s e s', inv s → condition s e → step s e = ok s' → inv s') {es : List ε} {s s' : σ}
    (hs : inv s) (hes : EachStep step condition es s) (hrun : run step es s = ok s') : inv s' := by
  induction es generalizing s with
  | nil =>
      cases hrun
      exact hs
  | cons e es ih =>
      rw [run] at hrun
      obtain ⟨s₁, hnext, hrest⟩ := bind_eq_ok.mp hrun
      exact ih (hkeep s e s₁ hs hes.1 hnext) (hes.2 s₁ hnext) hrest

/-- What is known of all events is known at each step. -/
theorem EachStep.and {R : σ → ε → Prop} {Q : ε → Prop} {es : List ε} {s : σ}
    (h : EachStep step R es s) (hes : ∀ e ∈ es, Q e) :
    EachStep step (fun s e => R s e ∧ Q e) es s := by
  induction es generalizing s with
  | nil => trivial
  | cons e es ih =>
      obtain ⟨he, hrest⟩ := List.forall_mem_cons.mp hes
      exact ⟨⟨h.1, he⟩, fun s' hnext => ih (h.2 s' hnext) hrest⟩

/-- Where every step keeps the invariant, every run does. -/
theorem inv_of_run (inv : σ → Prop) (hkeep : ∀ s e s', inv s → step s e = ok s' → inv s')
    {es : List ε} {s s' : σ} (hs : inv s) (hrun : run step es s = ok s') : inv s' := by
  induction es generalizing s with
  | nil =>
      cases hrun
      exact hs
  | cons e es ih =>
      rw [run] at hrun
      obtain ⟨s₁, hnext, hrest⟩ := bind_eq_ok.mp hrun
      exact ih (hkeep s e s₁ hs hnext) hrest

end SafeTransmission
