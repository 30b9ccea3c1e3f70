import Mathlib

/-!
# Queues in a ring of slots

A ring of `n` slots holds a queue between two indices that run round the ring.  The
number of elements is counted apart, since the indices are equal both for an empty and
for a full ring.

A slot keeps its element after the element has left the queue, until it is written
again.  At any time the ring therefore holds the last `n` elements that were put in,
preceded by what was in the slots at the beginning (`Window`); the queue is the part
behind the elements that were taken out (`Window.contents_eq`).
-/

namespace SafeTransmission

variable {α : Type}

structure RingBuffer (α : Type) where
  slots : List α
  front : ℕ
  rear : ℕ
  size : ℤ
deriving DecidableEq, Repr

namespace RingBuffer

/-- The number of slots. -/
def capacity (r : RingBuffer α) : ℕ :=
  r.slots.length

/-- Write the slot at the rear. -/
def push (r : RingBuffer α) (a : α) : RingBuffer α where
  slots := r.slots.set r.rear a
  front := r.front
  rear := (r.rear + 1) % r.capacity
  size := r.size + 1

/-- Leave the slot at the front behind. -/
def pop (r : RingBuffer α) : RingBuffer α where
  slots := r.slots
  front := (r.front + 1) % r.capacity
  rear := r.rear
  size := r.size - 1

/-- The elements from the front on. -/
def contents (r : RingBuffer α) : List α :=
  (List.range r.size.toNat).filterMap fun i => r.slots[(r.front + i) % r.capacity]?

/-- The ring with `initial` in its slots, after the elements `added` were put in and
`popped` of them were taken out. -/
structure Window (r : RingBuffer α) (initial added : List α) (popped : ℕ) : Prop where
  capacity : r.slots.length = initial.length
  popped_le : popped ≤ added.length
  length_le : added.length ≤ popped + initial.length
  front : r.front = popped % initial.length
  rear : r.rear = added.length % initial.length
  size : r.size = (added.length : ℤ) - popped
  slots : ∀ j, added.length ≤ j → j < added.length + initial.length →
    r.slots[j % initial.length]? = (initial ++ added)[j]?

variable {r : RingBuffer α} {initial added : List α} {popped : ℕ}

theorem window_init (initial : List α) : Window ⟨initial, 0, 0, 0⟩ initial [] 0 where
  capacity := rfl
  popped_le := le_rfl
  length_le := Nat.zero_le _
  front := (Nat.zero_mod _).symm
  rear := (Nat.zero_mod _).symm
  size := rfl
  slots j _ hj := by
    have hlt : j < initial.length := by simpa using hj
    rw [Nat.mod_eq_of_lt hlt, List.append_nil]

namespace Window

/-- Different positions of one round are different slots. -/
theorem mod_ne {n j k : ℕ} (hlt : k < j) (hround : j < k + n) : j % n ≠ k % n := by
  intro heq
  have hzero : (j - k) % n = 0 := Nat.sub_mod_eq_zero_of_mod_eq heq
  rw [Nat.mod_eq_of_lt (by omega)] at hzero
  omega

theorem slot_rear (h : r.Window initial added popped) (hpos : 0 < initial.length) :
    r.slots[r.rear]? = (initial ++ added)[added.length]? := by
  rw [h.rear]
  exact h.slots added.length le_rfl (by omega)

theorem slot_front (h : r.Window initial added popped) (hlt : popped < added.length) :
    r.slots[r.front]? = added[popped]? := by
  have hslot := h.slots (popped + initial.length) h.length_le (by omega)
  rw [Nat.add_mod_right] at hslot
  rw [h.front, hslot, List.getElem?_append_right (Nat.le_add_left _ _), Nat.add_sub_cancel]

theorem push (h : r.Window initial added popped) (hroom : added.length < popped + initial.length)
    (a : α) : (r.push a).Window initial (added ++ [a]) popped where
  capacity := by rw [RingBuffer.push, List.length_set, h.capacity]
  popped_le := by
    rw [List.length_append]
    exact Nat.le_add_right_of_le h.popped_le
  length_le := by simpa using hroom
  front := h.front
  rear := by
    change (r.rear + 1) % r.slots.length = _
    rw [h.rear, h.capacity, Nat.mod_add_mod, List.length_append, List.length_singleton]
  size := by
    change r.size + 1 = _
    rw [h.size, List.length_append, List.length_singleton]
    push_cast
    ring
  slots := by
    have hpopped := h.popped_le
    intro j hle hlt
    simp only [List.length_append, List.length_singleton] at hle hlt
    change (r.slots.set r.rear a)[j % initial.length]? = _
    rcases Nat.lt_or_ge j (added.length + initial.length) with hold | hnew
    · -- a slot that keeps its element
      have hne : r.rear ≠ j % initial.length := by
        rw [h.rear]
        exact (mod_ne hle (by omega)).symm
      have hrange : j < (initial ++ added).length := by
        rw [List.length_append]
        omega
      rw [List.getElem?_set_ne hne, h.slots j (by omega) hold, ← List.append_assoc]
      exact (List.getElem?_append_left hrange).symm
    · -- the slot at the rear
      obtain rfl : j = added.length + initial.length := by omega
      have hslot : r.rear < r.slots.length := by
        rw [h.rear, h.capacity]
        exact Nat.mod_lt _ (by omega)
      rw [Nat.add_mod_right, ← h.rear, List.getElem?_set_self hslot, ← List.append_assoc,
        List.getElem?_append_right (by rw [List.length_append]; omega), List.length_append,
        Nat.add_comm initial.length, Nat.sub_self]
      rfl

theorem pop (h : r.Window initial added popped) (hlt : popped < added.length) :
    r.pop.Window initial added (popped + 1) where
  capacity := h.capacity
  popped_le := hlt
  length_le := by
    have hle := h.length_le
    omega
  front := by
    change (r.front + 1) % r.slots.length = _
    rw [h.front, h.capacity, Nat.mod_add_mod]
  rear := h.rear
  size := by
    change r.size - 1 = _
    rw [h.size]
    push_cast
    ring
  slots := h.slots

/-! ## What the ring promises -/

theorem size_nonneg (h : r.Window initial added popped) : 0 ≤ r.size := by
  have hle := h.popped_le
  rw [h.size]
  omega

theorem size_le (h : r.Window initial added popped) : r.size ≤ initial.length := by
  have hle := h.length_le
  rw [h.size]
  omega

theorem rear_eq (h : r.Window initial added popped) :
    (r.rear : ℤ) = (r.front + r.size) % initial.length := by
  rw [h.rear, h.front, h.size, Int.natCast_mod, Int.natCast_mod, Int.emod_add_emod, add_sub_cancel]

theorem filterMap_range_getElem? (l : List α) :
    ((List.range l.length).filterMap fun i => l[i]?) = l := by
  induction l using List.reverseRecOn with
  | nil => rfl
  | append_singleton l a ih =>
      have hold : ∀ i ∈ List.range l.length, (l ++ [a])[i]? = l[i]? := fun i hi =>
        List.getElem?_append_left (List.mem_range.mp hi)
      rw [List.length_append, List.length_singleton, List.range_succ, List.filterMap_append,
        List.filterMap_congr hold, ih]
      simp

/-- The queue is what was put in and not taken out. -/
theorem contents_eq (h : r.Window initial added popped) : r.contents = added.drop popped := by
  have hsize : r.size.toNat = added.length - popped := by
    rw [h.size]
    omega
  have hslot : ∀ i < added.length - popped,
      r.slots[(r.front + i) % r.slots.length]? = added[popped + i]? := by
    intro i hi
    have hle := h.length_le
    have hj := h.slots (popped + i + initial.length) (by omega) (by omega)
    rw [Nat.add_mod_right] at hj
    rw [h.front, h.capacity, Nat.mod_add_mod, hj,
      List.getElem?_append_right (Nat.le_add_left _ _), Nat.add_sub_cancel]
  have hqueue : ∀ i ∈ List.range (added.length - popped),
      r.slots[(r.front + i) % r.capacity]? = (added.drop popped)[i]? := by
    intro i hi
    rw [List.getElem?_drop]
    exact hslot i (List.mem_range.mp hi)
  have hlength : added.length - popped = (added.drop popped).length := List.length_drop.symm
  rw [contents, hsize, List.filterMap_congr hqueue, hlength, filterMap_range_getElem?]

end Window

end RingBuffer

end SafeTransmission
