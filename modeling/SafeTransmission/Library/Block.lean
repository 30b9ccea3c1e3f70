import SafeTransmission.Library.Outcome

/-!
# Blocks that are written front to back

A block that was allocated with a size, and the bytes that have been written through a
pointer that moves on.  A write behind the end is an undefined step.
-/

namespace SafeTransmission

open Outcome

/-- An allocated block. -/
structure Block where
  size : ℕ
  written : Bytes
  fits : written.length ≤ size

namespace Block

/-- A new block. -/
def alloc (size : ℕ) : Block := ⟨size, [], Nat.zero_le size⟩

/-- The next bytes are written. -/
def write (block : Block) (bs : Bytes) : Outcome Block :=
  if h : (block.written ++ bs).length ≤ block.size then ok ⟨block.size, block.written ++ bs, h⟩
  else fault .writeOutOfBounds

/-- Every byte of the block has been written. -/
def Full (block : Block) : Prop :=
  block.written.length = block.size

variable {size : ℕ} {bs : Bytes}

/-- What fits behind what was written can be written. -/
theorem write_of_le {block : Block} (h : (block.written ++ bs).length ≤ block.size) :
    block.write bs = ok ⟨block.size, block.written ++ bs, h⟩ :=
  dif_pos h

theorem write_write (block : Block) (bs cs : Bytes) :
    (block.write bs >>= fun block => block.write cs) = block.write (bs ++ cs) := by
  by_cases hall : (block.written ++ (bs ++ cs)).length ≤ block.size
  · have hfirst : (block.written ++ bs).length ≤ block.size := by
      simp only [List.length_append] at hall ⊢
      omega
    have hsecond : ((block.written ++ bs) ++ cs).length ≤ block.size := by
      rwa [List.append_assoc]
    rw [write_of_le hfirst, ok_bind, write_of_le hall, write, dif_pos hsecond]
    simp only [List.append_assoc]
  · rw [show block.write (bs ++ cs) = fault .writeOutOfBounds from dif_neg hall]
    by_cases hfirst : (block.written ++ bs).length ≤ block.size
    · rw [write_of_le hfirst, ok_bind, write, dif_neg (by rwa [List.append_assoc])]
    · rw [write, dif_neg hfirst]
      rfl

theorem write_alloc (h : bs.length ≤ size) : (alloc size).write bs = ok ⟨size, bs, h⟩ :=
  dif_pos h

end Block

end SafeTransmission
