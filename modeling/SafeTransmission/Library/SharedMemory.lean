import Mathlib

/-!
# System V shared memory

A kernel has segments, each an array of slots, and a table that says which segment a key refers to.

* `shmget` opens the segment of the key, or creates one.  The key zero is `IPC_PRIVATE`: whoever
  asks for it gets a new segment each time, and no key refers to that.
* Sizes are counted in bytes.  A segment has as many whole slots as fit into its size, and a rest
  behind them; a segment is never opened for more bytes than it has.
* `IPC_RMID` takes a segment out of the table at once; its memory stays until the last process
  detaches it.

Processes take turns: between `shmat` and `shmdt` of one call no other process runs.  There is
always memory for a segment whose size is less than half of an address space.

Programs speak of a segment by `Has`: it is there, and has this content.  `shmget_open` and
`shmget_create` say which segment a caller gets, the lemmas on `Has` what the other calls leave.  Where no
process has a segment attached between two calls (`Detached`), `shmat` fails exactly for what was
removed, and attaching, writing and detaching is one write (`shmdt_write_shmat`).
-/

namespace SafeTransmission

variable {κ β : Type}

/-- A segment: its slots, the bytes behind them, the number of attaches, and whether it was marked
for removal. -/
structure Segment (β : Type) where
  content : List β
  rest : ℕ
  nattch : ℕ
  dest : Bool
deriving DecidableEq, Repr

/-- All segments that were ever created, and the identifier that each key refers to. -/
structure Kernel (κ β : Type) where
  segments : List (Segment β)
  idOf : κ → Option ℕ

namespace Kernel

/-- A kernel without segments. -/
def boot : Kernel κ β :=
  ⟨[], fun _ => none⟩

/-- A new segment of `size` bytes, in slots of `slot` bytes that are `blank`.  No key refers to it. -/
def newseg (blank : β) (slot size : ℕ) (k : Kernel κ β) : Option ℕ × Kernel κ β :=
  if 0 < size ∧ size < 2 ^ 63 then
    (some k.segments.length,
      { k with segments := k.segments ++ [⟨List.replicate (size / slot) blank, size % slot, 0, false⟩] })
  else (none, k)

/-- `shmget` for `size` bytes, with the flags `IPC_CREAT` and `IPC_EXCL`; a failure is `none`. -/
def shmget [DecidableEq κ] [Zero κ] (blank : β) (slot : ℕ) (key : κ) (size : ℕ) (creat excl : Bool)
    (k : Kernel κ β) : Option ℕ × Kernel κ β :=
  -- IPC_PRIVATE
  if key = 0 then k.newseg blank slot size
  else
    match k.idOf key with
    | some id =>
        match k.segments[id]? with
        | some seg =>
            if creat && excl then (none, k)
            else if size ≤ slot * seg.content.length + seg.rest then (some id, k)
            else (none, k)
        | none => (none, k)
    | none =>
        if creat then
          match k.newseg blank slot size with
          | (some id, k) => (some id, { k with idOf := Function.update k.idOf key (some id) })
          | (none, k) => (none, k)
        else (none, k)

/-- `shmat`: the memory of the segment. -/
def shmat (id : ℕ) (k : Kernel κ β) : Option (List β × Kernel κ β) :=
  match k.segments[id]? with
  | some seg =>
      if seg.dest && seg.nattch = 0 then none
      else
        some (seg.content,
          { k with segments := k.segments.modify id fun seg => { seg with nattch := seg.nattch + 1 } })
  | none => none

/-- Writing to attached memory. -/
def write (id : ℕ) (content : List β) (k : Kernel κ β) : Kernel κ β :=
  { k with segments := k.segments.modify id fun seg => { seg with content := content } }

/-- `shmdt`. -/
def shmdt (id : ℕ) (k : Kernel κ β) : Kernel κ β :=
  { k with segments := k.segments.modify id fun seg => { seg with nattch := seg.nattch - 1 } }

/-- `shmctl` with `IPC_RMID`: no key refers to the segment any more. -/
def rmid (id : ℕ) (k : Kernel κ β) : Kernel κ β where
  segments := k.segments.modify id fun seg => { seg with dest := true }
  idOf key := if k.idOf key = some id then none else k.idOf key

/-- The segment is there, not marked for removal, and has the content. -/
def Has (k : Kernel κ β) (id : ℕ) (content : List β) : Prop :=
  ∃ rest nattch, k.segments[id]? = some ⟨content, rest, nattch, false⟩

variable {k : Kernel κ β} {id : ℕ} {content content' : List β} {key : κ} {blank : β} {slot size : ℕ}
  {creat excl : Bool}

theorem Has.unique (h : k.Has id content) (h' : k.Has id content') : content = content' := by
  obtain ⟨rest, nattch, hseg⟩ := h
  obtain ⟨rest', nattch', hseg'⟩ := h'
  exact congrArg Segment.content (Option.some.inj (hseg.symm.trans hseg'))

theorem Has.shmat (h : k.Has id content) : ∃ k', k.shmat id = some (content, k') ∧
    k'.Has id content ∧ k'.idOf = k.idOf := by
  obtain ⟨rest, nattch, hseg⟩ := h
  refine ⟨{ k with segments := k.segments.modify id fun seg => { seg with nattch := seg.nattch + 1 } },
    by simp [Kernel.shmat, hseg], ⟨rest, nattch + 1, ?_⟩, rfl⟩
  simp [hseg]

theorem Has.write (h : k.Has id content) (content' : List β) : (k.write id content').Has id content' := by
  obtain ⟨rest, nattch, hseg⟩ := h
  exact ⟨rest, nattch, by simp [Kernel.write, hseg]⟩

theorem Has.write_self (h : k.Has id content) : k.write id content = k := by
  obtain ⟨rest, nattch, hseg⟩ := h
  unfold Kernel.write
  congr 1
  apply List.ext_getElem?
  intro j
  by_cases hj : id = j
  · subst hj
    rw [List.getElem?_modify_eq, hseg]
    rfl
  · rw [List.getElem?_modify_ne _ _ hj]

theorem Has.shmdt (h : k.Has id content) : (k.shmdt id).Has id content := by
  obtain ⟨rest, nattch, hseg⟩ := h
  exact ⟨rest, nattch - 1, by simp [Kernel.shmdt, hseg]⟩

@[simp] theorem idOf_write : (k.write id content).idOf = k.idOf := rfl

@[simp] theorem idOf_shmdt : (k.shmdt id).idOf = k.idOf := rfl

theorem idOf_rmid (hid : k.idOf key = some id) : (k.rmid id).idOf key = none := if_pos hid

/-! ### Segments that nobody has attached -/

/-- No process has attached a segment. -/
def Detached (k : Kernel κ β) : Prop :=
  ∀ seg ∈ k.segments, seg.nattch = 0

/-- A segment can be attached exactly as long as it is there. -/
theorem Detached.shmat_eq_none_iff (h : k.Detached) :
    k.shmat id = none ↔ ∀ content, ¬k.Has id content := by
  unfold shmat Has
  cases hseg : k.segments[id]? with
  | none => simp
  | some seg =>
      obtain ⟨content, rest, nattch, dest⟩ := seg
      have hnattch : nattch = 0 := h _ (List.mem_of_getElem? hseg)
      cases dest with
      | true => simp [hnattch]
      | false => simp

theorem eq_of_shmat {k' : Kernel κ β} (h : k.shmat id = some (content, k')) :
    k' = { k with segments := k.segments.modify id fun seg => { seg with nattch := seg.nattch + 1 } } := by
  unfold Kernel.shmat at h
  split at h
  · split at h
    · cases h
    · cases h
      rfl
  · cases h

/-- Attaching, writing and detaching is writing. -/
theorem shmdt_write_shmat {k' : Kernel κ β} (h : k.shmat id = some (content, k'))
    (content' : List β) : (k'.write id content').shmdt id = k.write id content' := by
  rw [eq_of_shmat h]
  unfold Kernel.write Kernel.shmdt
  dsimp only
  congr 1
  apply List.ext_getElem?
  intro j
  by_cases hj : id = j
  · subst hj
    simp only [List.getElem?_modify_eq]
    cases k.segments[id]? with
    | none => rfl
    | some seg => rfl
  · simp only [List.getElem?_modify_ne _ _ hj]

theorem Detached.of_modify (h : k.Detached) {k' : Kernel κ β} {f : Segment β → Segment β}
    (hsegments : k'.segments = k.segments.modify id f)
    (hkept : ∀ seg, (f seg).nattch = seg.nattch) : k'.Detached := by
  intro seg hmem
  obtain ⟨j, hj⟩ := List.mem_iff_getElem?.mp hmem
  rw [hsegments, List.getElem?_modify] at hj
  obtain ⟨old, hold, rfl⟩ := Option.map_eq_some_iff.mp hj
  have hnattch := h old (List.mem_of_getElem? hold)
  split
  · rw [hkept, hnattch]
  · exact hnattch

theorem Detached.write (h : k.Detached) (id : ℕ) (content : List β) : (k.write id content).Detached :=
  h.of_modify rfl fun _ => rfl

theorem Detached.rmid (h : k.Detached) (id : ℕ) : (k.rmid id).Detached :=
  h.of_modify rfl fun _ => rfl

theorem exists_has_of_write {id' : ℕ} (h : (k.write id content).Has id' content') :
    ∃ old, k.Has id' old := by
  obtain ⟨rest, nattch, hseg⟩ := h
  unfold Kernel.write at hseg
  rw [List.getElem?_modify] at hseg
  obtain ⟨⟨old, rest', nattch', dest⟩, hold, hsame⟩ := Option.map_eq_some_iff.mp hseg
  -- a write does not change the mark
  have hdest : dest = false := by
    split at hsame
    · exact congrArg Segment.dest hsame
    · exact congrArg Segment.dest hsame
  rw [hdest] at hold
  exact ⟨old, rest', nattch', hold⟩

theorem has_rmid_iff {id' : ℕ} : (k.rmid id).Has id' content ↔ id' ≠ id ∧ k.Has id' content := by
  unfold Has rmid
  dsimp only
  by_cases hid : id = id'
  · subst hid
    simp only [List.getElem?_modify_eq, ne_eq, not_true_eq_false, false_and, iff_false]
    rintro ⟨rest, nattch, hseg⟩
    obtain ⟨old, -, hsame⟩ := Option.map_eq_some_iff.mp hseg
    cases hsame
  · simp only [List.getElem?_modify_ne _ _ hid, ne_eq, Ne.symm hid, not_false_eq_true, true_and]

theorem Detached.newseg (h : k.Detached) (blank : β) (slot size : ℕ) :
    (k.newseg blank slot size).2.Detached := by
  unfold Kernel.newseg
  split
  · intro seg hmem
    rcases List.mem_append.mp hmem with hold | hnew
    · exact h seg hold
    · rw [List.mem_singleton.mp hnew]
  · exact h

variable [DecidableEq κ] [Zero κ]

theorem shmget_open (hkey : key ≠ 0) (hid : k.idOf key = some id) (h : k.Has id content)
    (hflags : (creat && excl) = false) (hsize : size ≤ slot * content.length) :
    k.shmget blank slot key size creat excl = (some id, k) := by
  obtain ⟨rest, nattch, hseg⟩ := h
  have hroom : size ≤ slot * content.length + rest := hsize.trans (Nat.le_add_right _ _)
  simp [shmget, hkey, hid, hseg, hflags, hroom]

/-- Creating exclusively fails for a key that refers to a segment. -/
theorem shmget_excl (hkey : key ≠ 0) (hid : k.idOf key = some id) (h : k.Has id content) :
    k.shmget blank slot key size true true = (none, k) := by
  obtain ⟨rest, nattch, hseg⟩ := h
  simp [shmget, hkey, hid, hseg]

section Create

variable (hkey : key ≠ 0) (hid : k.idOf key = none)
include hkey hid

/-- Creating a segment of `n` slots for a key that refers to none. -/
theorem shmget_create (blank : β) (excl : Bool) {n : ℕ} (hpos : 0 < slot * n)
    (hsize : slot * n < 2 ^ 63) :
    ∃ id k', k.shmget blank slot key (slot * n) true excl = (some id, k') ∧ k'.idOf key = some id ∧
      k'.Has id (List.replicate n blank) := by
  have hslot : 0 < slot := Nat.pos_of_mul_pos_right hpos
  refine ⟨k.segments.length,
    { segments := k.segments ++ [⟨List.replicate n blank, 0, 0, false⟩]
      idOf := Function.update k.idOf key (some k.segments.length) },
    ?_, Function.update_self .., 0, 0, by simp⟩
  simp only [shmget, hkey, hid, newseg, hpos, hsize, Nat.mul_div_cancel_left n hslot, Nat.mul_mod_right,
    and_self, reduceIte]

/-- What is there behind a creation was there before, or was created. -/
theorem has_of_shmget_create {k' : Kernel κ β} {id' : ℕ}
    (hget : k.shmget blank slot key size true excl = (some id, k')) (h : k'.Has id' content) :
    id' = id ∨ k.Has id' content := by
  simp only [Kernel.shmget, hkey, hid, newseg, reduceIte] at hget
  by_cases hsize : 0 < size ∧ size < 2 ^ 63
  · simp only [hsize, and_self, reduceIte, Prod.mk.injEq, Option.some.injEq] at hget
    obtain ⟨rfl, rfl⟩ := hget
    obtain ⟨rest, nattch, hseg⟩ := h
    rcases Nat.lt_or_ge id' k.segments.length with hlt | hge
    · rw [List.getElem?_append_left hlt] at hseg
      exact Or.inr ⟨rest, nattch, hseg⟩
    · have hle := (List.getElem?_eq_some_iff.mp hseg).1
      rw [List.length_append, List.length_singleton] at hle
      exact Or.inl (by omega)
  · simp only [hsize, reduceIte, Prod.mk.injEq, reduceCtorEq, false_and] at hget

end Create

theorem Detached.shmget (h : k.Detached) (blank : β) (slot : ℕ) (key : κ) (size : ℕ)
    (creat excl : Bool) : (k.shmget blank slot key size creat excl).2.Detached := by
  unfold Kernel.shmget
  split
  · exact h.newseg blank slot size
  · split
    · split
      · split
        · exact h
        · split
          · exact h
          · exact h
      · exact h
    · split
      · have hnew := h.newseg blank slot size
        split
        · rename_i id k' hget
          rw [hget] at hnew
          exact hnew
        · rename_i k' hget
          rw [hget] at hnew
          exact hnew
      · exact h

end Kernel

end SafeTransmission
