import SafeTransmission.Library.Outcome

/-!
# Refinement of calls

A call refines an abstract one if both end in the same way: with results that stand in
a relation, with one code, or in one undefined step.  The relation is carried through a
sequence of calls (`Refines.bind`).
-/

namespace SafeTransmission

open Outcome

/-- The call `x` ends as the abstract call `y` does. -/
inductive Refines {α β : Type} (R : α → β → Prop) : Outcome α → Outcome β → Prop where
  | ok {a : α} {b : β} (h : R a b) : Refines R (.ok a) (.ok b)
  | err (code : ℤ) : Refines R (.err code) (.err code)
  | fault (kind : Fault) : Refines R (.fault kind) (.fault kind)

namespace Refines

variable {α β γ δ : Type} {R : α → β → Prop} {S : γ → δ → Prop} {x : Outcome α} {y : Outcome β}

theorem bind (h : Refines R x y) {next : α → Outcome γ} {next' : β → Outcome δ}
    (hnext : ∀ a b, R a b → Refines S (next a) (next' b)) :
    Refines S (x >>= next) (y >>= next') := by
  cases h with
  | ok hab => exact hnext _ _ hab
  | err code => exact .err code
  | fault kind => exact .fault kind

theorem exists_of_ok (h : Refines R x y) {a : α} (hx : x = .ok a) : ∃ b, y = .ok b ∧ R a b := by
  cases h with
  | ok hab =>
      cases hx
      exact ⟨_, rfl, hab⟩
  | err code => cases hx
  | fault kind => cases hx

theorem exists_of_abstract_ok (h : Refines R x y) {b : β} (hy : y = .ok b) :
    ∃ a, x = .ok a ∧ R a b := by
  cases h with
  | ok hab =>
      cases hy
      exact ⟨_, rfl, hab⟩
  | err code => cases hy
  | fault kind => cases hy

theorem eq_fault_iff (h : Refines R x y) {kind : Fault} : x = .fault kind ↔ y = .fault kind := by
  cases h <;> simp

end Refines

end SafeTransmission
