import SafeTransmission.Library.Outcome

/-!
# Byte streams that come and go in pieces

A process at one end of a stream of bytes calls `read` and `write`, and neither
has to transfer as much as it is asked to.  A call can also fail, and fails with
`EINTR` if a signal comes first, after which it is repeated.

What a process reads is a list of `Arrival`s, one for each answer that a `read`
can get; `carried` is the bytes in it.  How its bytes are taken is a list of
`Acceptance`s, one for the answer to each `write`.  The two loops that read and
write a fixed number of bytes do not see how the bytes were cut:

* `readLoop_eq`: enough bytes arrive, and they are stored in order;
* `readLoop_of_lt`: too few arrive, and the way the stream ends decides;
* `writeLoop_eq`: nothing fails, and all bytes are written in order.

A `read` that is asked for more than `ssizeMax` bytes is refused before it looks at the
stream (`readBlock_of_refused`), so there the loop ends with its first call.
-/

namespace SafeTransmission

open Outcome

/-- The values of `errno` that are told apart. -/
inductive Errno where
  | eintr
  | etimedout
  | other
deriving DecidableEq, Repr

/-- What the next `read` meets. -/
inductive Arrival where
  /-- Bytes are there; a shorter `read` leaves the rest to the next one. -/
  | bytes (first : UInt8) (rest : Bytes)
  /-- The peer has closed the stream. -/
  | closed
  | failed (errno : Errno)
deriving DecidableEq, Repr

/-- The answer to a `write`. -/
inductive Acceptance where
  /-- As many bytes are taken, or all if there are fewer. -/
  | accepted (k : ℕ)
  | failed (errno : Errno)
deriving DecidableEq, Repr

/-- The bytes that can be read before the stream ends or fails. -/
def carried : List Arrival → Bytes
  | [] => []
  | .bytes first rest :: as => first :: (rest ++ carried as)
  | .failed .eintr :: as => carried as
  | _ => []

/-- What is behind the bytes that can be read. -/
inductive Ending where
  /-- The stream stays open, and nothing comes any more. -/
  | silent
  | closed
  | failed (errno : Errno)
deriving DecidableEq, Repr

/-- How the stream ends. -/
def ending : List Arrival → Ending
  | [] => .silent
  | .bytes _ _ :: as => ending as
  | .closed :: _ => .closed
  | .failed .eintr :: as => ending as
  | .failed errno :: _ => .failed errno

theorem carried_map_bytes (b : Bytes) (as : List Arrival) :
    carried ((b.map fun c => .bytes c []) ++ as) = b ++ carried as := by
  induction b with
  | nil => rfl
  | cons c b ih => rw [List.map_cons, List.cons_append, carried, ih, List.nil_append, List.cons_append]

theorem ending_map_bytes (b : Bytes) (as : List Arrival) :
    ending ((b.map fun c => .bytes c []) ++ as) = ending as := by
  induction b with
  | nil => rfl
  | cons c b ih => exact ih

/-! ## Reading -/

/-- How the reading of a fixed number of bytes ends. -/
inductive ReadEnd where
  | complete
  /-- The stream ended, with `nleft` bytes still to be read. -/
  | closed (nleft : ℕ)
  | failed
deriving DecidableEq, Repr

/-- The result of reading: how it ended, the bytes stored, and what is still to arrive. -/
structure Reading where
  stop : ReadEnd
  stored : Bytes
  incoming : List Arrival
deriving DecidableEq, Repr

/-- Read until `nleft` further bytes are stored behind the bytes `stored`, in a block of
`room` bytes.  Without a further arrival the last `read` never returns. -/
def readLoop (room : ℕ) : ℕ → Bytes → List Arrival → Outcome Reading
  | 0, stored, as => ok ⟨.complete, stored, as⟩
  | _ + 1, _, [] => fault .diverges
  | nleft + 1, stored, .failed .eintr :: as => readLoop room (nleft + 1) stored as
  | _ + 1, stored, .failed _ :: as => ok ⟨.failed, stored, as⟩
  | nleft + 1, stored, .closed :: as => ok ⟨.closed (nleft + 1), stored, .closed :: as⟩
  | nleft + 1, stored, .bytes first rest :: as =>
      let chunk := (first :: rest).take (nleft + 1)
      if stored.length + chunk.length ≤ room then
        match rest.drop nleft with
        | [] => readLoop room (nleft + 1 - chunk.length) (stored ++ chunk) as
        -- more has arrived than was asked for, so nothing is left to be read
        | first' :: rest' => ok ⟨.complete, stored ++ chunk, .bytes first' rest' :: as⟩
      else fault .writeOutOfBounds

theorem readLoop_bytes_of_le {room nleft : ℕ} {stored rest : Bytes} {first : UInt8}
    {as : List Arrival} (hle : rest.length ≤ nleft)
    (hroom : stored.length + (first :: rest).length ≤ room) :
    readLoop room (nleft + 1) stored (.bytes first rest :: as) =
      readLoop room (nleft + 1 - (first :: rest).length) (stored ++ first :: rest) as := by
  have htake : (first :: rest).take (nleft + 1) = first :: rest :=
    List.take_of_length_le (Nat.succ_le_succ hle)
  rw [readLoop, htake, if_pos hroom, List.drop_eq_nil_of_le hle]

/-- Of a longer piece as much is stored as is to be read. -/
theorem readLoop_bytes_of_lt {room nleft : ℕ} {stored rest : Bytes} {first : UInt8}
    {as : List Arrival} (hlt : nleft < rest.length) (hroom : stored.length + (nleft + 1) ≤ room) :
    ∃ first' rest', rest.drop nleft = first' :: rest' ∧
      readLoop room (nleft + 1) stored (.bytes first rest :: as) =
        ok ⟨.complete, stored ++ first :: rest.take nleft, .bytes first' rest' :: as⟩ := by
  have hchunk : ((first :: rest).take (nleft + 1)).length ≤ nleft + 1 := List.length_take_le _ _
  cases hdrop : rest.drop nleft with
  | nil =>
      have hle := List.drop_eq_nil_iff.mp hdrop
      exact absurd hlt (Nat.not_lt.mpr hle)
  | cons first' rest' =>
      refine ⟨first', rest', rfl, ?_⟩
      rw [readLoop, if_pos (by omega), hdrop]
      rfl

/-- If enough bytes arrive and there is room for them, they are stored in order, and
the others are still there. -/
theorem readLoop_eq {room n : ℕ} {stored : Bytes} {as : List Arrival}
    (hn : n ≤ (carried as).length) (hroom : stored.length + n ≤ room) :
    ∃ rest, readLoop room n stored as = ok ⟨.complete, stored ++ (carried as).take n, rest⟩ ∧
      carried rest = (carried as).drop n ∧ ending rest = ending as := by
  induction as generalizing n stored with
  | nil =>
      obtain rfl : n = 0 := by simpa [carried] using hn
      exact ⟨[], by simp [readLoop], rfl, rfl⟩
  | cons a as ih =>
      cases n with
      | zero => exact ⟨a :: as, by simp [readLoop], rfl, rfl⟩
      | succ n =>
          cases a with
          | closed => simp [carried] at hn
          | failed errno =>
              cases errno with
              | eintr => exact ih hn hroom
              | etimedout => simp [carried] at hn
              | other => simp [carried] at hn
          | bytes first more =>
              have hcarried : carried (.bytes first more :: as) = first :: more ++ carried as := rfl
              rcases Nat.lt_or_ge n more.length with hlt | hle
              · -- the piece is longer than what is left to be read
                obtain ⟨first', more', hdrop, hread⟩ := @readLoop_bytes_of_lt room n stored more
                  first as hlt hroom
                refine ⟨.bytes first' more' :: as, ?_, ?_, rfl⟩
                · rw [hread, hcarried, List.take_append_of_le_length (Nat.succ_le_succ hlt.le)]
                  rfl
                · rw [hcarried, List.drop_append_of_le_length (Nat.succ_le_succ hlt.le)]
                  simp [carried, hdrop]
              · have hpiece : (first :: more).length ≤ n + 1 := Nat.succ_le_succ hle
                rw [hcarried, List.length_append] at hn
                obtain ⟨rest, hread, hrest, hending⟩ := @ih (n + 1 - (first :: more).length)
                  (stored ++ first :: more) (by omega) (by rw [List.length_append]; omega)
                refine ⟨rest, ?_, ?_, hending⟩
                · rw [readLoop_bytes_of_le hle (by omega), hread, hcarried, List.take_append,
                    List.take_of_length_le hpiece, List.append_assoc]
                · rw [hrest, hcarried, List.drop_append, List.drop_eq_nil_of_le hpiece,
                    List.nil_append]

/-- If too few bytes arrive, all of them are stored, and the way the stream ends decides. -/
theorem readLoop_of_lt {room n : ℕ} {stored : Bytes} {as : List Arrival}
    (hn : (carried as).length < n) (hroom : stored.length + (carried as).length ≤ room) :
    match ending as with
    | .silent => readLoop room n stored as = fault .diverges
    | .closed => ∃ rest, readLoop room n stored as =
        ok ⟨.closed (n - (carried as).length), stored ++ carried as, rest⟩
    | .failed _ => ∃ rest, readLoop room n stored as = ok ⟨.failed, stored ++ carried as, rest⟩ := by
  induction as generalizing n stored with
  | nil =>
      obtain ⟨n, rfl⟩ := Nat.exists_eq_succ_of_ne_zero (Nat.ne_of_gt hn)
      rfl
  | cons a as ih =>
      obtain ⟨n, rfl⟩ := Nat.exists_eq_succ_of_ne_zero (Nat.ne_of_gt (Nat.zero_lt_of_lt hn))
      cases a with
      | closed => exact ⟨.closed :: as, by simp [readLoop, carried]⟩
      | failed errno =>
          cases errno with
          | eintr => exact ih hn hroom
          | etimedout => exact ⟨as, by simp [readLoop, carried]⟩
          | other => exact ⟨as, by simp [readLoop, carried]⟩
      | bytes first more =>
          have hcarried : carried (.bytes first more :: as) = first :: more ++ carried as := rfl
          rw [hcarried, List.length_append] at hn hroom
          have hle : more.length ≤ n := by
            rw [List.length_cons] at hn
            omega
          have hrest := @ih (n + 1 - (first :: more).length) (stored ++ first :: more) (by omega)
            (by rw [List.length_append]; omega)
          rw [readLoop_bytes_of_le hle (by omega), hcarried, List.length_append, ← Nat.sub_sub,
            ← List.append_assoc]
          exact hrest

/-- `SSIZE_MAX` of a system with 64 bits. -/
def ssizeMax : ℕ := 2 ^ 63 - 1

/-- Read `n` bytes into a block of `room` bytes.  The first `read` is refused if `n` is not a
`ssize_t`, and then there is no second one. -/
def readBlock (room n : ℕ) (as : List Arrival) : Outcome Reading :=
  if n ≤ ssizeMax then readLoop room n [] as else ok ⟨.failed, [], as⟩

theorem readBlock_of_le {n : ℕ} (hn : n ≤ ssizeMax) (room : ℕ) (as : List Arrival) :
    readBlock room n as = readLoop room n [] as :=
  if_pos hn

theorem readBlock_of_refused {n : ℕ} (hn : ssizeMax < n) (room : ℕ) (as : List Arrival) :
    readBlock room n as = ok ⟨.failed, [], as⟩ :=
  if_neg (Nat.not_le.mpr hn)

/-! ## Writing -/

/-- The result of writing: whether all was taken, all bytes sent so far, and the answers to
later calls. -/
structure Writing where
  complete : Bool
  sent : Bytes
  writes : List Acceptance
deriving DecidableEq, Repr

/-- Write the bytes `p` behind the bytes `sent`.  A `write` beyond the answers in the list
takes all it is given. -/
def writeLoop : Bytes → Bytes → List Acceptance → Writing
  | [], sent, ws => ⟨true, sent, ws⟩
  | b :: p, sent, [] => ⟨true, sent ++ b :: p, []⟩
  | b :: p, sent, .failed .eintr :: ws => writeLoop (b :: p) sent ws
  | _ :: _, sent, .failed _ :: ws => ⟨false, sent, ws⟩
  -- `k = 0` is the case that the code repeats the call for
  | b :: p, sent, .accepted k :: ws => writeLoop ((b :: p).drop k) (sent ++ (b :: p).take k) ws

/-- The answer is no failure, or one that goes away. -/
def Acceptance.Transient (a : Acceptance) : Prop :=
  ∀ errno, a = .failed errno → errno = .eintr

/-- As long as nothing fails, all bytes are written in order. -/
theorem writeLoop_eq {p sent : Bytes} {ws : List Acceptance} (hws : ∀ a ∈ ws, a.Transient) :
    ∃ rest, writeLoop p sent ws = ⟨true, sent ++ p, rest⟩ ∧ ∀ a ∈ rest, a.Transient := by
  induction ws generalizing p sent with
  | nil =>
      cases p with
      | nil => exact ⟨[], by simp [writeLoop], hws⟩
      | cons b p => exact ⟨[], rfl, hws⟩
  | cons w ws ih =>
      have hrest : ∀ a ∈ ws, a.Transient := fun a ha => hws a (List.mem_cons_of_mem _ ha)
      cases p with
      | nil => exact ⟨w :: ws, by simp [writeLoop], hws⟩
      | cons b p =>
          cases w with
          | failed errno =>
              obtain rfl := hws _ List.mem_cons_self errno rfl
              exact ih hrest
          | accepted k =>
              obtain ⟨rest, hwrite, htransient⟩ := @ih ((b :: p).drop k)
                (sent ++ (b :: p).take k) hrest
              refine ⟨rest, ?_, htransient⟩
              rw [writeLoop, hwrite, List.append_assoc, List.take_append_drop]

end SafeTransmission
