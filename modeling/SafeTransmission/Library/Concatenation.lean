import Mathlib.Data.List.Basic
import Mathlib.Tactic.Common

/-!
# Texts put together from parts

Parts that are written one after the other can be told apart only if it is known where
each of them ends.  A separator helps as long as it does not occur inside the parts: two
texts with a separator between their parts are equal exactly if the parts are, or if a
piece with its own separator has moved from one part to the other (`append_sep_eq_iff`).
Around a common middle part without separators the same holds of a piece that moves past
the middle part (`append_middle_eq_iff`).
-/

namespace SafeTransmission

variable {α : Type*} {a b c d m t : List α} {sep : α}

/-- A piece `t` has moved from the front of `b` to the end of `a`, which gives `c` and `d`. -/
def MovesOverSep (sep : α) (a b c d : List α) : Prop :=
  ∃ t, c = a ++ sep :: t ∧ b = t ++ sep :: d

/-- A piece `t` that is not empty has moved over the middle part `m` to the end of `a`. -/
def MovesOverMiddle (m a b c d : List α) : Prop :=
  ∃ t, t ≠ [] ∧ c = a ++ t ∧ m ++ b = t ++ (m ++ d)

theorem MovesOverSep.length_lt (h : MovesOverSep sep a b c d) : a.length < c.length := by
  obtain ⟨t, rfl, -⟩ := h
  simp

theorem MovesOverMiddle.length_lt (h : MovesOverMiddle m a b c d) : a.length < c.length := by
  obtain ⟨t, ht, rfl, -⟩ := h
  have hpos := List.length_pos_of_ne_nil ht
  rw [List.length_append]
  omega

theorem append_sep_eq_of_movesOverSep (h : MovesOverSep sep a b c d) :
    a ++ sep :: b = c ++ sep :: d := by
  obtain ⟨t, rfl, rfl⟩ := h
  simp

/-- Two texts with a separator are equal if their parts are, or if a piece has moved. -/
theorem append_sep_eq_iff : a ++ sep :: b = c ++ sep :: d ↔
    a = c ∧ b = d ∨ MovesOverSep sep a b c d ∨ MovesOverSep sep c d a b := by
  constructor
  · intro heq
    rcases List.append_eq_append_iff.mp heq with ⟨u, rfl, hu⟩ | ⟨u, rfl, hu⟩
    · cases u with
      | nil => exact Or.inl ⟨(List.append_nil a).symm, (List.cons.inj hu).2⟩
      | cons x u =>
          obtain ⟨rfl, rfl⟩ := List.cons.inj hu
          exact Or.inr (Or.inl ⟨u, rfl, rfl⟩)
    · cases u with
      | nil => exact Or.inl ⟨List.append_nil c, (List.cons.inj hu).2.symm⟩
      | cons x u =>
          obtain ⟨rfl, rfl⟩ := List.cons.inj hu
          exact Or.inr (Or.inr ⟨u, rfl, rfl⟩)
  · rintro (⟨rfl, rfl⟩ | hmoves | hmoves)
    · rfl
    · exact append_sep_eq_of_movesOverSep hmoves
    · exact (append_sep_eq_of_movesOverSep hmoves).symm

theorem append_middle_eq_of_movesOverMiddle (h : MovesOverMiddle m a b c d) :
    a ++ (m ++ b) = c ++ (m ++ d) := by
  obtain ⟨t, -, rfl, hb⟩ := h
  rw [hb, List.append_assoc]

/-- Two texts around a common middle part are equal if their other parts are, or if a piece
has moved over the middle part. -/
theorem append_middle_eq_iff : a ++ (m ++ b) = c ++ (m ++ d) ↔
    a = c ∧ b = d ∨ MovesOverMiddle m a b c d ∨ MovesOverMiddle m c d a b := by
  constructor
  · intro heq
    rcases List.append_eq_append_iff.mp heq with ⟨u, rfl, hu⟩ | ⟨u, rfl, hu⟩
    · by_cases hnil : u = []
      · subst hnil
        exact Or.inl ⟨(List.append_nil a).symm, List.append_cancel_left hu⟩
      · exact Or.inr (Or.inl ⟨u, hnil, rfl, hu⟩)
    · by_cases hnil : u = []
      · subst hnil
        exact Or.inl ⟨List.append_nil c, (List.append_cancel_left hu).symm⟩
      · exact Or.inr (Or.inr ⟨u, hnil, rfl, hu⟩)
  · rintro (⟨rfl, rfl⟩ | hmoves | hmoves)
    · rfl
    · exact append_middle_eq_of_movesOverMiddle hmoves
    · exact (append_middle_eq_of_movesOverMiddle hmoves).symm

end SafeTransmission
