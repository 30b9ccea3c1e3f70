import Mathlib

/-!
# How a call of a C function ends

A C function in this development is a pure function into `Outcome`.  A call can

* return zero, with its output parameters set: `ok`;
* return a non-zero code, with its output parameters as they were: `err`;
* never return in a meaningful way, because some step of it is undefined: `fault`.

The sequencing of `Outcome` stops at the first `err` or `fault`.  A caller that
throws away a return code therefore cannot use `>>=` for that call: it has to
match on the result, and the places where the code does so stay visible.
-/

namespace SafeTransmission

/-- A byte sequence, or what a pointer points at: the bytes from the pointer to
the end of its allocation.  The null pointer is the empty sequence. -/
abbrev Bytes := List UInt8

/-- The undefined steps that are told apart. -/
inductive Fault where
  /-- A byte before or after its allocation is read. -/
  | readOutOfBounds
  /-- A byte before or after its allocation is written. -/
  | writeOutOfBounds
  /-- A null pointer is followed. -/
  | nullDeref
  /-- A pointer to freed memory is followed. -/
  | useAfterFree
  /-- A block is freed a second time. -/
  | doubleFree
  /-- An address is freed that is not the one of a block. -/
  | invalidFree
  /-- A variable is used before it is assigned. -/
  | uninitialised
  /-- The call does not return. -/
  | diverges
deriving DecidableEq, Repr

/-- The result of a call with outputs in `α`. -/
inductive Outcome (α : Type) where
  | ok (value : α)
  | err (code : Int)
  | fault (kind : Fault)
deriving DecidableEq, Repr

namespace Outcome

variable {α β : Type}

/-- Go on with `next` after a call that returned zero. -/
def andThen : Outcome α → (α → Outcome β) → Outcome β
  | ok a, next => next a
  | err code, _ => err code
  | fault kind, _ => fault kind

instance : Monad Outcome where
  pure := ok
  bind := andThen

@[simp] theorem ok_bind (a : α) (next : α → Outcome β) : (ok a >>= next) = next a := rfl

@[simp] theorem err_bind (code : Int) (next : α → Outcome β) : (err code >>= next) = err code := rfl

@[simp] theorem fault_bind (kind : Fault) (next : α → Outcome β) :
    (fault kind >>= next) = fault kind := rfl

theorem bind_bind {γ : Type} (x : Outcome α) (next : α → Outcome β) (last : β → Outcome γ) :
    (x >>= next >>= last) = (x >>= fun a => next a >>= last) := by
  cases x with
  | ok a => rfl
  | err code => rfl
  | fault kind => rfl

theorem bind_eq_ok {x : Outcome α} {next : α → Outcome β} {b : β} :
    (x >>= next) = ok b ↔ ∃ a, x = ok a ∧ next a = ok b := by
  cases x <;> simp

/-- A sequence of two calls ends in an undefined step when the first or the second does. -/
theorem bind_eq_fault {x : Outcome α} {next : α → Outcome β} {kind : Fault} :
    (x >>= next) = fault kind ↔ x = fault kind ∨ ∃ a, x = ok a ∧ next a = fault kind := by
  cases x <;> simp

theorem guard_eq_ok {p : Prop} [Decidable p] {a b : α} {kind : Fault} :
    (if p then ok a else fault kind) = ok b ↔ p ∧ b = a := by
  split
  · rename_i hp
    rw [ok.injEq, and_iff_right hp]
    exact eq_comm
  · rename_i hp
    exact iff_of_false (fun h => by cases h) fun h => hp h.1

/-- What a call returns, and its output parameter, which held `before`. -/
def returned (x : Outcome α) (before : α) : Outcome (ℤ × α) :=
  match x with
  | ok a => ok (0, a)
  | err code => ok (code, before)
  | fault kind => fault kind

end Outcome

/-! ## Reading through a pointer -/

open Outcome

/-- `*p`. -/
def deref : Bytes → Outcome UInt8
  | [] => fault .readOutOfBounds
  | b :: _ => ok b

/-- The `n` bytes that `memcpy` takes from `p`. -/
def memcpy (p : Bytes) (n : ℕ) : Outcome Bytes :=
  if n ≤ p.length then ok (p.take n) else fault .readOutOfBounds

@[simp] theorem deref_nil : deref [] = fault .readOutOfBounds := rfl

@[simp] theorem deref_cons (b : UInt8) (p : Bytes) : deref (b :: p) = ok b := rfl

theorem memcpy_eq_ok {p d : Bytes} {n : ℕ} : memcpy p n = ok d ↔ n ≤ p.length ∧ p.take n = d := by
  rw [memcpy, guard_eq_ok, eq_comm (a := d)]

/-- What is done with copied bytes may depend on how many they are. -/
theorem memcpy_bind_congr {α : Type} {p : Bytes} {n : ℕ} {next next' : Bytes → Outcome α}
    (h : ∀ d : Bytes, d.length = n → next d = next' d) :
    (memcpy p n >>= next) = memcpy p n >>= next' := by
  cases hcopy : memcpy p n with
  | err code => rfl
  | fault kind => rfl
  | ok d =>
      obtain ⟨hle, rfl⟩ := memcpy_eq_ok.mp hcopy
      exact h _ (List.length_take_of_le hle)

/-- Copying exactly the bytes a pointer was set to point at. -/
theorem memcpy_append {d : Bytes} {n : ℕ} (hn : d.length = n) (rest : Bytes) :
    memcpy (d ++ rest) n = ok d := by
  subst hn
  simp [memcpy]

theorem memcpy_self (d : Bytes) : memcpy d d.length = ok d := by
  simp [memcpy]

theorem memcpy_of_lt {p : Bytes} {n : ℕ} (h : p.length < n) :
    memcpy p n = fault .readOutOfBounds := by
  simp [memcpy, Nat.not_le.mpr h]

end SafeTransmission
