import SafeTransmission.Library.Outcome

/-!
# Blocks that are freed

The trace of a program that frees memory: the blocks that it has freed, one after the other.  To
free a block that is in the trace, or to read it, is an undefined step.

So a list of blocks can be freed exactly if they are different ones, and none of them is in the
trace (`freeAll_eq_ok`).  Nodes that point at each other are read one after the other as long as
none of them is (`Chained`).
-/

namespace SafeTransmission

open Outcome

namespace Freeing

variable {β : Type} [DecidableEq β]

/-- `free`. -/
def free (b : β) (freed : List β) : Outcome (List β) :=
  if b ∈ freed then fault .doubleFree else ok (freed ++ [b])

/-- `free` for each block of a list. -/
def freeAll : List β → List β → Outcome (List β)
  | [], freed => ok freed
  | b :: bs, freed => do
      let freed ← free b freed
      freeAll bs freed

/-- What is in a block. -/
def read {α : Type} (b : β) (content : Outcome α) (freed : List β) : Outcome α :=
  if b ∈ freed then fault .useAfterFree else content

section FreeAll

variable {α : Type} {b : β} {bs bs' freed freed' : List β} {content : Outcome α}

theorem free_eq_ok : free b freed = ok freed' ↔ b ∉ freed ∧ freed' = freed ++ [b] := by
  rw [free, ← ite_not, guard_eq_ok]

theorem read_of_notMem (h : b ∉ freed) : read b content freed = content :=
  if_neg h

theorem read_of_mem (h : b ∈ freed) : read b content freed = fault .useAfterFree :=
  if_pos h

theorem freeAll_append (bs bs' freed : List β) :
    freeAll (bs ++ bs') freed = (freeAll bs freed >>= freeAll bs') := by
  induction bs generalizing freed with
  | nil => rfl
  | cons b bs ih =>
      rw [List.cons_append, freeAll, freeAll, bind_bind]
      simp only [ih]

/-- Different blocks can be freed that were not freed before, and no others. -/
theorem freeAll_eq_ok : freeAll bs freed = ok freed' ↔
    bs.Nodup ∧ (∀ b ∈ bs, b ∉ freed) ∧ freed' = freed ++ bs := by
  induction bs generalizing freed with
  | nil => simp [freeAll, eq_comm]
  | cons b bs ih =>
      rw [freeAll, bind_eq_ok]
      simp only [free_eq_ok, ih]
      constructor
      · rintro ⟨-, ⟨hb, rfl⟩, hnodup, hfresh, rfl⟩
        have hnew : ∀ c ∈ bs, c ∉ freed ∧ c ≠ b := by
          intro c hc
          simpa [not_or] using hfresh c hc
        refine ⟨List.nodup_cons.mpr ⟨fun hmem => (hnew b hmem).2 rfl, hnodup⟩, ?_, ?_⟩
        · exact List.forall_mem_cons.mpr ⟨hb, fun c hc => (hnew c hc).1⟩
        · rw [List.append_assoc, List.singleton_append]
      · rintro ⟨hnodup, hfresh, rfl⟩
        obtain ⟨hb, hrest⟩ := List.forall_mem_cons.mp hfresh
        obtain ⟨hnotMem, hnodup⟩ := List.nodup_cons.mp hnodup
        refine ⟨_, ⟨hb, rfl⟩, hnodup, fun c hc => ?_, ?_⟩
        · rw [List.mem_append, List.mem_singleton, not_or]
          exact ⟨hrest c hc, fun heq => hnotMem (heq ▸ hc)⟩
        · rw [List.append_assoc, List.singleton_append]

end FreeAll

/-! ## Nodes that point at each other -/

variable {ν : Type}

/-- At the addresses there are nodes, and each points at the next one; the last pointer is null. -/
def Chained (next : ν → Option ℕ) (memory : List ν) : List ℕ → Prop
  | [] => True
  | a :: as => (∃ node, memory[a]? = some node ∧ next node = as.head?) ∧ Chained next memory as

variable {next : ν → Option ℕ} {memory : List ν} {as : List ℕ}

theorem Chained.lt_length (h : Chained next memory as) : ∀ a ∈ as, a < memory.length := by
  induction as with
  | nil => simp
  | cons a as ih =>
      obtain ⟨⟨node, hnode, -⟩, hrest⟩ := h
      exact List.forall_mem_cons.mpr ⟨(List.getElem?_eq_some_iff.mp hnode).1, ih hrest⟩

/-- Different nodes are not more than there is memory. -/
theorem Chained.length_le (h : Chained next memory as) (hnodup : as.Nodup) :
    as.length ≤ memory.length := by
  have hinside : as.Subperm (List.range memory.length) :=
    List.subperm_of_subset hnodup fun a ha => List.mem_range.mpr (h.lt_length a ha)
  exact hinside.length_le.trans_eq List.length_range

end Freeing

end SafeTransmission
