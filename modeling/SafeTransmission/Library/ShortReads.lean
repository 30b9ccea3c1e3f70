import SafeTransmission.Library.Outcome

/-!
# Short reads that are not noticed

A reader asks for the next `n` bytes of a stream, and takes its memory for these bytes although
fewer of them may be there.  The memory was zeroed.

`there` is what has arrived and is not read, `coming` what arrives later.  A reader that once did
not get enough is behind: some bytes that it takes for read are still ahead of it.  As long as it
does not find anything else than it expects, these bytes are zeros
(`drop_append_eq_of_read`), and so is every piece that it reads as a whole
(`eq_replicate_of_behind`).
-/

namespace SafeTransmission

/-- Zeroed memory for `n` bytes after a read. -/
def zeroPadded (n : ℕ) (there : Bytes) : Bytes :=
  there.take n ++ List.replicate (n - there.length) 0

@[simp] theorem length_zeroPadded (n : ℕ) (there : Bytes) : (zeroPadded n there).length = n := by
  rw [zeroPadded, List.length_append, List.length_take, List.length_replicate]
  omega

theorem zeroPadded_nil (n : ℕ) : zeroPadded n [] = List.replicate n 0 := by
  simp [zeroPadded]

@[simp] theorem zeroPadded_succ_cons (n : ℕ) (b : UInt8) (there : Bytes) :
    zeroPadded (n + 1) (b :: there) = b :: zeroPadded n there := by
  simp [zeroPadded]

section Reads

variable {n d : ℕ} {there coming piece rest : Bytes}

/-- If enough bytes are there, the next ones are read. -/
theorem zeroPadded_eq_of_le (hlen : piece.length = n) (hahead : there ++ coming = piece ++ rest)
    (hthere : n ≤ there.length) : zeroPadded n there = piece := by
  have htake := congrArg (List.take n) hahead
  rw [List.take_append_of_le_length hthere, ← hlen, List.take_left, hlen] at htake
  rw [zeroPadded, htake, Nat.sub_eq_zero_of_le hthere, List.replicate_zero, List.append_nil]

/-- The reader has found the next byte of the piece, and is as far behind as before. -/
theorem append_eq_of_cons {x : UInt8}
    (hahead : x :: there ++ coming = List.replicate d 0 ++ (x :: piece ++ rest)) :
    there ++ coming = List.replicate d 0 ++ (piece ++ rest) := by
  cases d with
  | zero => exact (List.cons.inj hahead).2
  | succ d =>
      obtain ⟨hzero, htail⟩ := List.cons.inj hahead
      have htail' : there ++ coming = List.replicate d 0 ++ ([x] ++ (piece ++ rest)) := htail
      calc
        there ++ coming = List.replicate d 0 ++ ([0] ++ (piece ++ rest)) := by rw [htail', hzero]
        _ = List.replicate (d + 1) 0 ++ (piece ++ rest) := by
          rw [List.replicate_succ', List.append_assoc]

/-- A reader that finds what it expects has only zeros more between its place and what is behind
the piece, one for each missing byte. -/
theorem drop_append_eq_of_read (hlen : piece.length = n)
    (hahead : there ++ coming = List.replicate d 0 ++ (piece ++ rest))
    (hread : zeroPadded n there = piece) :
    there.drop n ++ coming = List.replicate (d + (n - there.length)) 0 ++ rest := by
  induction piece generalizing n there with
  | nil =>
      obtain rfl : n = 0 := hlen.symm
      rw [List.drop_zero, hahead, Nat.zero_sub, Nat.add_zero, List.nil_append]
  | cons x piece ih =>
      obtain ⟨n, rfl⟩ : ∃ k, n = k + 1 := ⟨piece.length, hlen.symm⟩
      cases there with
      | nil =>
          -- nothing is read, so that the piece is the zeroed memory
          rw [zeroPadded_nil] at hread
          rw [List.nil_append] at hahead
          rw [List.drop_nil, List.nil_append, hahead, ← hread, ← List.append_assoc,
            List.replicate_append_replicate, List.length_nil, Nat.sub_zero]
      | cons b there =>
          rw [zeroPadded_succ_cons, List.cons.injEq] at hread
          obtain ⟨rfl, hread⟩ := hread
          rw [List.drop_succ_cons, ih (Nat.succ.inj hlen) (append_eq_of_cons hahead) hread,
            List.length_cons, Nat.add_sub_add_right]

/-- A piece that is found by a reader that is behind is all zeros. -/
theorem eq_replicate_of_behind (hd : 0 < d) (hlen : piece.length = n)
    (hahead : there ++ coming = List.replicate d 0 ++ (piece ++ rest))
    (hread : zeroPadded n there = piece) : piece = List.replicate n 0 := by
  induction piece generalizing n there with
  | nil =>
      obtain rfl : n = 0 := hlen.symm
      rfl
  | cons x piece ih =>
      obtain ⟨n, rfl⟩ : ∃ k, n = k + 1 := ⟨piece.length, hlen.symm⟩
      cases there with
      | nil =>
          rw [← hread, zeroPadded_nil]
      | cons b there =>
          rw [zeroPadded_succ_cons, List.cons.injEq] at hread
          obtain ⟨rfl, hread⟩ := hread
          have hzero : b = 0 := by
            obtain ⟨d, rfl⟩ := Nat.exists_eq_succ_of_ne_zero hd.ne'
            exact (List.cons.inj hahead).1
          rw [ih (Nat.succ.inj hlen) (append_eq_of_cons hahead) hread, hzero]
          rfl

end Reads

end SafeTransmission
