import Mathlib.Algebra.GroupWithZero.Nat
import Mathlib.Data.List.Basic

/-!
# The local states of threads

The threads of a program are numbered in the order of their creation, and a list
holds the local state of each of them.  A step of a thread replaces its own entry; a
new thread adds one at the end.
-/

namespace SafeTransmission

variable {α β : Type} {l : List α} {i : ℕ} {a b : α}

/-! ## Looking up a thread -/

/-- After the step of a thread, it and the others. -/
theorem getElem?_set_of_some (h : l[i]? = some a) (b : α) (j : ℕ) :
    (l.set i b)[j]? = if j = i then some b else l[j]? := by
  have hlt : i < l.length := (List.getElem?_eq_some_iff.mp h).1
  rw [List.getElem?_set]
  by_cases hji : j = i
  · subst hji
    simp [hlt]
  · rw [if_neg (Ne.symm hji), if_neg hji]

/-- What is to be shown of all threads after the step of one. -/
theorem forall_getElem?_set (h : l[i]? = some a) {P : ℕ → α → Prop} (hi : P i b)
    (hothers : ∀ j x, j ≠ i → l[j]? = some x → P j x) : ∀ j x, (l.set i b)[j]? = some x → P j x := by
  intro j x hj
  rw [getElem?_set_of_some h] at hj
  split at hj
  · rename_i hji
    cases hj
    exact hji ▸ hi
  · rename_i hji
    exact hothers j x hji hj

theorem getElem?_concat {j : ℕ} {x : α} (h : (l ++ [b])[j]? = some x) :
    l[j]? = some x ∨ j = l.length ∧ x = b := by
  rcases Nat.lt_or_ge j l.length with hlt | hge
  · rw [List.getElem?_append_left hlt] at h
    exact Or.inl h
  · rw [List.getElem?_append_right hge, List.getElem?_singleton] at h
    split at h
    · rename_i hzero
      cases h
      exact Or.inr ⟨by omega, rfl⟩
    · cases h

/-- What is to be shown of all threads after a new one came. -/
theorem forall_getElem?_concat {P : ℕ → α → Prop} (hold : ∀ j x, l[j]? = some x → P j x)
    (hnew : P l.length b) : ∀ j x, (l ++ [b])[j]? = some x → P j x := by
  intro j x hj
  rcases getElem?_concat hj with hj | ⟨rfl, rfl⟩
  · exact hold j x hj
  · exact hnew

theorem getElem?_append_of_some (h : l[i]? = some a) (m : List α) : (l ++ m)[i]? = some a := by
  rw [List.getElem?_append_left (List.getElem?_eq_some_iff.mp h).1, h]

/-! ## Facts about all threads -/

theorem forall_mem_set {P : α → Prop} (h : ∀ x ∈ l, P x) (hb : P b) (i : ℕ) :
    ∀ x ∈ l.set i b, P x := by
  intro x hx
  rcases List.mem_or_eq_of_mem_set hx with hx | rfl
  · exact h x hx
  · exact hb

theorem forall_mem_concat {P : α → Prop} (h : ∀ x ∈ l, P x) (hb : P b) : ∀ x ∈ l ++ [b], P x := by
  intro x hx
  rcases List.mem_append.mp hx with hx | hx
  · exact h x hx
  · rw [List.mem_singleton.mp hx]
    exact hb

theorem exists_split (h : l[i]? = some a) :
    ∃ before behind, l = before ++ a :: behind ∧ ∀ b, l.set i b = before ++ b :: behind := by
  obtain ⟨hlt, rfl⟩ := List.getElem?_eq_some_iff.mp h
  refine ⟨l.take i, l.drop (i + 1), ?_, fun b => ?_⟩
  · rw [← List.drop_eq_getElem_cons hlt, List.take_append_drop]
  · rw [List.set_eq_take_append_cons_drop, if_pos hlt]

theorem map_set_of_eq {f : α → β} (h : l[i]? = some a) (hf : f b = f a) :
    (l.set i b).map f = l.map f := by
  obtain ⟨before, behind, hl, hset⟩ := exists_split h
  rw [hset, hl, List.map_append, List.map_append, List.map_cons, List.map_cons, hf]

/-! ## What the threads have in hand -/

variable {f : α → Option β} {x : β}

theorem filterMap_set_of_eq (h : l[i]? = some a) (hf : f b = f a) :
    (l.set i b).filterMap f = l.filterMap f := by
  obtain ⟨before, behind, hl, hset⟩ := exists_split h
  rw [hset, hl, List.filterMap_append, List.filterMap_append, List.filterMap_cons,
    List.filterMap_cons, hf]

/-- A step in which the thread takes something. -/
theorem filterMap_set_of_some (h : l[i]? = some a) (ha : f a = none) (hb : f b = some x) :
    ((l.set i b).filterMap f).Perm (x :: l.filterMap f) := by
  obtain ⟨before, behind, hl, hset⟩ := exists_split h
  rw [hset, hl, List.filterMap_append, List.filterMap_append, List.filterMap_cons_some hb,
    List.filterMap_cons_none ha]
  exact List.perm_middle

/-- A step in which the thread lets go of it. -/
theorem filterMap_set_of_none (h : l[i]? = some a) (ha : f a = some x) (hb : f b = none) :
    (l.filterMap f).Perm (x :: (l.set i b).filterMap f) := by
  obtain ⟨before, behind, hl, hset⟩ := exists_split h
  rw [hset, hl, List.filterMap_append, List.filterMap_append, List.filterMap_cons_some ha,
    List.filterMap_cons_none hb]
  exact List.perm_middle

/-! ## Counting threads -/

variable {p : α → Bool}

/-- A step that does not change how the thread counts. -/
theorem countP_set_of_eq (h : l[i]? = some a) (hp : p b = p a) :
    (l.set i b).countP p = l.countP p := by
  obtain ⟨before, behind, hl, hset⟩ := exists_split h
  rw [hset, hl, List.countP_append, List.countP_append, List.countP_cons, List.countP_cons, hp]

theorem countP_set_of_true (h : l[i]? = some a) (ha : p a = false) (hb : p b = true) :
    (l.set i b).countP p = l.countP p + 1 := by
  obtain ⟨before, behind, hl, hset⟩ := exists_split h
  rw [hset, hl, List.countP_append, List.countP_append, List.countP_cons_of_pos hb,
    List.countP_cons_of_neg (by simp [ha]), Nat.add_assoc]

theorem countP_set_of_false (h : l[i]? = some a) (ha : p a = true) (hb : p b = false) :
    (l.set i b).countP p + 1 = l.countP p := by
  obtain ⟨before, behind, hl, hset⟩ := exists_split h
  rw [hset, hl, List.countP_append, List.countP_append, List.countP_cons_of_pos ha,
    List.countP_cons_of_neg (by simp [hb]), Nat.add_assoc]

/-! ## Adding up over the threads -/

/-- What one step adds to a sum over all threads, and takes away from it. -/
theorem sum_map_set (h : l[i]? = some a) (f : α → ℕ) (b : α) :
    ((l.set i b).map f).sum + f a = (l.map f).sum + f b := by
  obtain ⟨before, behind, hl, hset⟩ := exists_split h
  rw [hset, hl, List.map_append, List.map_append, List.map_cons, List.map_cons, List.sum_append,
    List.sum_append, List.sum_cons, List.sum_cons]
  omega

end SafeTransmission
