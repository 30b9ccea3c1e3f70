import SafeTransmission.Library.CObject
import SafeTransmission.Library.Runs
import SafeTransmission.Library.ShortReads

/-!
# `Epoll::recvdata`: frames on a socket that does not block

A client sends every payload behind its length (`senddata`).  The server gets an event for each
arrival of bytes, and handles it with one call of `recvdata`, which calls `recv` for the length
and then for every byte.

`recvdata` only looks whether `recv` returns `0`.  Where nothing has arrived, `recv` returns `-1`
and leaves the zeroed memory as it is; where only some bytes of the length have arrived, it
returns how many.  Both are taken for what was asked for.

The steps are the arrivals, the end of the connection, and the calls of `recv`, in any order.
The tasks come one after the other.  Left out are what `working` does with a payload, the
descriptor's number, and failures of `malloc` and of the sending of an empty reply.

Where the client sends frames, each call returns the next payload exactly if `recv` finds what it
is asked for every time, and there are as many arrivals as frames (`delivers_iff`).

## Strategy

* `Acts` lists what a step does to an open connection.  A task goes on with what it has begun, so
  once something was returned that was not sent, this stays so (`Acts.fits`).
* `Behind` counts how many zeros have been taken for bytes.  A task that is not behind and finds
  enough bytes stays in step (`Behind.acts_of_ready`).
* A task that finds too few is behind from then on, and the number of zeros never gets smaller
  (`Behind.acts`).  Its payloads then contain zeros that were not sent, or the last one is missing
  (`not_fits_of_behind`).
* Each arrival gives one call (`Acts.events_add_calls`), so there have to be as many as frames.
-/

namespace SafeTransmission

open Outcome

/-! ## Frames -/

/-- What `senddata` sends for a payload. -/
def senddata (data : Bytes) : Bytes :=
  intBytes data.length ++ data

/-- What a client can send: `senddata` counts the length and the payload in an `int`. -/
structure Payload where
  data : Bytes
  ne_nil : data ≠ []
  length_lt : data.length + 4 < 2 ^ 31

def Payload.frame (p : Payload) : Bytes :=
  senddata p.data

/-! ## The socket -/

/-- What the task of the last event does next in `recvdata`. -/
inductive RecvdataPhase where
  /-- There is no task. -/
  | idle
  /-- It is in the loop, with `len`, and has the bytes in front of `temp`. -/
  | body (len : ℕ) (tbuf : Bytes)
deriving DecidableEq, Repr

/-- The socket of a client, with the calls of `recvdata` for it. -/
structure ClientFd where
  /-- What has arrived and is not read. -/
  pending : Bytes
  /-- The client has closed the connection. -/
  hungUp : Bool
  /-- The server has not. -/
  fdOpen : Bool
  /-- The events for which there was no task yet. -/
  events : ℕ
  phase : RecvdataPhase
  /-- `*buf` for each call that has returned; the result is its length. -/
  returned : List Bytes
  /-- The number of empty replies. -/
  blanks : ℕ
deriving DecidableEq, Repr

/-- What happens at the socket. -/
inductive FdEvent where
  | arrive (first : UInt8) (rest : Bytes)
  /-- The client closes the connection. -/
  | hangUp
  /-- The next call of `recv`. -/
  | recv
deriving DecidableEq, Repr

namespace ClientFd

/-- A new connection. -/
def accepted : ClientFd :=
  ⟨[], false, true, 0, .idle, [], 0⟩

/-- `recv` for `n` bytes into zeroed memory: what it returns, the memory, and the socket. -/
def recv (s : ClientFd) (n : ℕ) : ℤ × Bytes × ClientFd :=
  let ret : ℤ :=
    if s.fdOpen = false then -1
    else if s.pending = [] then (if s.hungUp = true then 0 else -1)
    else (s.pending.take n).length
  (ret, zeroPadded n s.pending, { s with pending := s.pending.drop n })

/-- `recvdata` behind the test of the first `recv`, up to the loop. -/
def begin (s : ClientFd) (len : ℤ) : Outcome ClientFd :=
  -- a negative length is too large for `malloc`, and `memset` gets a null pointer
  if len < 0 then fault .nullDeref
  else if len = 0 then ok { s with
    returned := s.returned ++ [[]]
    blanks := if s.fdOpen = true then s.blanks + 1 else s.blanks }
  else ok { s with phase := .body len.toNat [] }

/-- The next task calls `recvdata`. -/
def recvLength (s : ClientFd) : Outcome ClientFd := do
  require (0 < s.events)
  let (ret, clen, s) := s.recv 4
  let s := { s with events := s.events - 1 }
  if ret = 0 then ok { s with fdOpen := false, returned := s.returned ++ [[]] }
  else s.begin (toInt32 (beNat clen.reverse))

/-- A round of the loop. -/
def recvByte (s : ClientFd) (len : ℕ) (tbuf : Bytes) : ClientFd :=
  let (ret, byte, s) := s.recv 1
  let s := if ret = 0 then { s with fdOpen := false } else s
  let tbuf := tbuf ++ byte
  if tbuf.length = len then { s with phase := .idle, returned := s.returned ++ [tbuf] }
  else { s with phase := .body len tbuf }

def step (s : ClientFd) : FdEvent → Outcome ClientFd
  | .arrive first rest => do
      require (s.hungUp = false)
      ok { s with pending := s.pending ++ first :: rest, events := s.events + 1 }
  | .hangUp => do
      require (s.hungUp = false)
      ok { s with hungUp := true, events := s.events + 1 }
  | .recv => match s.phase with
    | .idle => s.recvLength
    | .body len tbuf => ok (s.recvByte len tbuf)

/-! ## What can still be returned -/

/-- The connection is open on both sides. -/
def Live (s : ClientFd) : Prop :=
  s.hungUp = false ∧ s.fdOpen = true

/-- What has been returned is the beginning of `datas`, and so it is with a text that begins with
what the task has read, if there is one. -/
def Fits (datas : List Bytes) (s : ClientFd) : Prop :=
  match s.phase with
  | .idle => s.returned <+: datas
  | .body len tbuf => ∃ data, s.returned ++ [data] <+: datas ∧ data.length = len ∧ tbuf <+: data

/-! ## What a step does -/

/-- The length that the next task puts together. -/
def lengthRead (s : ClientFd) : ℤ :=
  toInt32 (beNat (zeroPadded 4 s.pending).reverse)

/-- The states that the steps of an open connection lead to. -/
inductive Acts (s : ClientFd) : FdEvent → ClientFd → Prop where
  | arrive (first : UInt8) (rest : Bytes) : Acts s (.arrive first rest)
      { s with pending := s.pending ++ first :: rest, events := s.events + 1 }
  /-- A task gets the length 0 and sends an empty reply. -/
  | blank (hphase : s.phase = .idle) (hevents : 0 < s.events) (hlen : s.lengthRead = 0) :
      Acts s .recv { s with
        pending := s.pending.drop 4
        events := s.events - 1
        returned := s.returned ++ [[]]
        blanks := s.blanks + 1 }
  /-- A task gets another length, and goes on to the loop. -/
  | length (len : ℕ) (hphase : s.phase = .idle) (hevents : 0 < s.events)
      (hlen : s.lengthRead = len) (hpos : 0 < len) :
      Acts s .recv { s with
        pending := s.pending.drop 4
        events := s.events - 1
        phase := .body len [] }
  /-- The last round of the loop. -/
  | last (len : ℕ) (tbuf : Bytes) (hphase : s.phase = .body len tbuf)
      (hfull : (tbuf ++ zeroPadded 1 s.pending).length = len) :
      Acts s .recv { s with
        pending := s.pending.drop 1
        phase := .idle
        returned := s.returned ++ [tbuf ++ zeroPadded 1 s.pending] }
  /-- Another round of the loop. -/
  | byte (len : ℕ) (tbuf : Bytes) (hphase : s.phase = .body len tbuf)
      (hmore : (tbuf ++ zeroPadded 1 s.pending).length ≠ len) :
      Acts s .recv { s with
        pending := s.pending.drop 1
        phase := .body len (tbuf ++ zeroPadded 1 s.pending) }

section Acts

variable {s s' : ClientFd} {e : FdEvent}

theorem recv_ret_ne_zero (hlive : s.Live) {n : ℕ} (hn : 0 < n) : (s.recv n).1 ≠ 0 := by
  obtain ⟨hhung, hopen⟩ := hlive
  simp only [recv, hhung, hopen, Bool.true_eq_false, Bool.false_eq_true, reduceIte]
  split
  · decide
  · rename_i hne
    have hpos := List.length_pos_of_ne_nil hne
    rw [List.length_take]
    omega

theorem recvLength_eq_ok (hlive : s.Live) : s.recvLength = ok s' ↔ 0 < s.events ∧
    begin { s with pending := s.pending.drop 4, events := s.events - 1 } s.lengthRead = ok s' := by
  rw [recvLength, require_bind_eq_ok]
  dsimp only
  rw [if_neg (recv_ret_ne_zero hlive (by norm_num))]
  rfl

theorem recvByte_eq (hlive : s.Live) (len : ℕ) (tbuf : Bytes) : s.recvByte len tbuf =
    if (tbuf ++ zeroPadded 1 s.pending).length = len then
      { s with
        pending := s.pending.drop 1
        phase := .idle
        returned := s.returned ++ [tbuf ++ zeroPadded 1 s.pending] }
    else { s with
      pending := s.pending.drop 1
      phase := .body len (tbuf ++ zeroPadded 1 s.pending) } := by
  rw [recvByte]
  dsimp only
  rw [if_neg (recv_ret_ne_zero hlive one_pos)]
  rfl

/-- A step of an open connection is one of these. -/
theorem acts_of_step (hlive : s.Live) (he : e ≠ .hangUp) (hnext : s.step e = ok s') :
    Acts s e s' := by
  cases e with
  | arrive first rest =>
      obtain ⟨-, hnext⟩ := require_bind_eq_ok.mp hnext
      obtain rfl := ok.inj hnext
      exact .arrive first rest
  | hangUp => exact absurd rfl he
  | recv =>
      rw [step] at hnext
      split at hnext
      · rename_i hphase
        obtain ⟨hevents, hbegin⟩ := (recvLength_eq_ok hlive).mp hnext
        rw [begin] at hbegin
        split at hbegin
        · cases hbegin
        · rename_i hnonneg
          split at hbegin
          · rename_i hzero
            obtain rfl := ok.inj hbegin
            dsimp only
            rw [if_pos hlive.2]
            exact .blank hphase hevents hzero
          · rename_i hne
            obtain rfl := ok.inj hbegin
            exact .length _ hphase hevents (Int.toNat_of_nonneg (not_lt.mp hnonneg)).symm (by omega)
      · rename_i len tbuf hphase
        obtain rfl := ok.inj hnext
        rw [recvByte_eq hlive]
        split
        · rename_i hfull
          exact .last len tbuf hphase hfull
        · rename_i hmore
          exact .byte len tbuf hphase hmore

theorem step_of_idle (hphase : s.phase = .idle) : s.step .recv = s.recvLength := by
  rw [step, hphase]

theorem step_of_body {len : ℕ} {tbuf : Bytes} (hphase : s.phase = .body len tbuf) :
    s.step .recv = ok (s.recvByte len tbuf) := by
  rw [step, hphase]

theorem Acts.step_eq (h : Acts s e s') (hlive : s.Live) : s.step e = ok s' := by
  cases h with
  | arrive first rest => exact require_bind_of hlive.1 _
  | blank hphase hevents hlen =>
      rw [step_of_idle hphase]
      refine (recvLength_eq_ok hlive).mpr ⟨hevents, ?_⟩
      rw [hlen, begin, if_neg (lt_irrefl 0), if_pos rfl, if_pos hlive.2]
  | length len hphase hevents hlen hpos =>
      rw [step_of_idle hphase]
      refine (recvLength_eq_ok hlive).mpr ⟨hevents, ?_⟩
      rw [hlen, begin, if_neg (by omega), if_neg (by omega), Int.toNat_natCast]
  | last len tbuf hphase hfull =>
      rw [step_of_body hphase, recvByte_eq hlive, if_pos hfull]
  | byte len tbuf hphase hmore =>
      rw [step_of_body hphase, recvByte_eq hlive, if_neg hmore]

theorem Acts.live (h : Acts s e s') (hlive : s.Live) : s'.Live := by
  cases h <;> exact hlive

/-- A call of `recv` only goes on with what was begun. -/
theorem Acts.fits {datas : List Bytes} (h : Acts s e s') (hfits : s'.Fits datas) : s.Fits datas := by
  cases h with
  | arrive first rest => exact hfits
  | blank hphase hevents hlen =>
      have hdone : s.returned ++ [[]] <+: datas := by
        rw [Fits] at hfits
        dsimp only at hfits
        rwa [hphase] at hfits
      rw [Fits, hphase]
      exact (List.prefix_append _ _).trans hdone
  | length len hphase hevents hlen hpos =>
      obtain ⟨data, hdata, -⟩ := hfits
      rw [Fits, hphase]
      exact (List.prefix_append _ _).trans hdata
  | last len tbuf hphase hfull =>
      rw [Fits, hphase]
      exact ⟨_, hfits, hfull, List.prefix_append _ _⟩
  | byte len tbuf hphase hmore =>
      obtain ⟨data, hdata, hlen, hread⟩ := hfits
      rw [Fits, hphase]
      exact ⟨data, hdata, hlen, (List.prefix_append _ _).trans hread⟩

/-- The bytes that `recv` is asked for. -/
def asked (s : ClientFd) : ℕ :=
  match s.phase with
  | .idle => 4
  | .body _ _ => 1

/-- What a call of `recv` leaves of the bytes that are there. -/
theorem Acts.pending (h : Acts s .recv s') : s'.pending = s.pending.drop s.asked := by
  cases h with
  | blank hphase hevents hlen => rw [asked, hphase]
  | length len hphase hevents hlen hpos => rw [asked, hphase]
  | last len tbuf hphase hfull => rw [asked, hphase]
  | byte len tbuf hphase hmore => rw [asked, hphase]

/-- The number of calls of `recvdata` that were begun. -/
def calls (s : ClientFd) : ℕ :=
  s.returned.length + match s.phase with
    | .idle => 0
    | .body _ _ => 1

theorem calls_of_idle (hphase : s.phase = .idle) : s.calls = s.returned.length := by
  rw [calls, hphase]
  rfl

/-- The number of arrivals of an event. -/
def arrivals : FdEvent → ℕ
  | .arrive _ _ => 1
  | _ => 0

theorem Acts.events_add_calls (h : Acts s e s') :
    s'.events + s'.calls = s.events + s.calls + arrivals e := by
  cases h with
  | arrive first rest => exact Nat.add_right_comm s.events 1 s.calls
  | blank hphase hevents hlen =>
      simp only [calls, hphase, arrivals, List.length_append, List.length_singleton]
      omega
  | length len hphase hevents hlen hpos =>
      simp only [calls, hphase, arrivals]
      omega
  | last len tbuf hphase hfull =>
      simp only [calls, hphase, arrivals, List.length_append, List.length_singleton]
      omega
  | byte len tbuf hphase hmore => simp only [calls, hphase, arrivals, Nat.add_zero]

end Acts

/-! ## How far the calls are behind -/

/-- What was sent is there or comes, behind `d` zeros that are taken for read. -/
def Behind (payloads : List Payload) (d : ℕ) (coming : Bytes) (s : ClientFd) : Prop :=
  ∃ (left : Bytes) (rest : List Payload), s.pending ++ coming =
      List.replicate d 0 ++ (left ++ rest.flatMap Payload.frame) ∧
    match s.phase with
    | .idle => left = [] ∧ payloads.map Payload.data = s.returned ++ rest.map Payload.data
    | .body len tbuf => left ≠ [] ∧ len = (tbuf ++ left).length ∧
        payloads.map Payload.data = s.returned ++ (tbuf ++ left) :: rest.map Payload.data

section Calls

variable {s : ClientFd} {payloads rest : List Payload} {d len : ℕ} {coming tbuf left : Bytes}
  {x : UInt8}

theorem toInt32_length (p : Payload) : toInt32 (p.data.length : ℤ) = p.data.length := by
  have hlt := p.length_lt
  exact toInt32_of_range (by omega) (by omega)

theorem intBytes_length_ne_zeros (p : Payload) :
    intBytes p.data.length ≠ List.replicate 4 0 := by
  intro hzeros
  have hpos := List.length_pos_of_ne_nil p.ne_nil
  have hlen := toInt32_intBytes p.data.length
  have hzero : toInt32 (beNat (List.replicate 4 (0 : UInt8)).reverse) = 0 := by decide
  rw [hzeros, toInt32_length, hzero] at hlen
  omega

theorem singleton_prefix_iff {done rest : List Bytes} {data : Bytes} :
    done ++ [data] <+: done ++ rest ↔ ∃ rest', rest = data :: rest' := by
  rw [List.prefix_append_right_inj]
  constructor
  · rintro ⟨rest', hrest⟩
    exact ⟨rest', hrest.symm⟩
  · rintro ⟨rest', rfl⟩
    exact ⟨rest', rfl⟩

/-- What is returned next can only be the next payload. -/
theorem exists_payload_of_prefix {data : Bytes}
    (hrest : payloads.map Payload.data = s.returned ++ rest.map Payload.data)
    (hdata : s.returned ++ [data] <+: payloads.map Payload.data) :
    ∃ p rest', rest = p :: rest' ∧ p.data = data := by
  rw [hrest] at hdata
  obtain ⟨rest', hmap⟩ := singleton_prefix_iff.mp hdata
  obtain ⟨p, rest'', rfl, hp, -⟩ := List.map_eq_cons_iff.mp hmap
  exact ⟨p, rest'', rfl, hp⟩

theorem behind_of_length {p : Payload}
    (hbytes : s.pending ++ coming = List.replicate d 0 ++
      (intBytes p.data.length ++ (p.data ++ rest.flatMap Payload.frame)))
    (hrest : payloads.map Payload.data = s.returned ++ (p :: rest).map Payload.data)
    (hread : zeroPadded 4 s.pending = intBytes p.data.length) :
    Behind payloads (d + (4 - s.pending.length)) coming { s with
      pending := s.pending.drop 4
      events := s.events - 1
      phase := .body p.data.length [] } :=
  ⟨p.data, rest, drop_append_eq_of_read (length_intBytes _) hbytes hread, p.ne_nil, rfl, hrest⟩

theorem zeroPadded_eq_iff (p : Payload) :
    zeroPadded 4 s.pending = intBytes p.data.length ↔ s.lengthRead = p.data.length := by
  constructor
  · intro hread
    rw [lengthRead, hread, toInt32_intBytes, toInt32_length]
  · intro hlen
    exact eq_intBytes (length_zeroPadded _ _) hlen

section Loop

variable
  (hbytes : s.pending ++ coming = List.replicate d 0 ++ (x :: left ++ rest.flatMap Payload.frame))
  (hlen : len = (tbuf ++ x :: left).length)
  (hrest : payloads.map Payload.data = s.returned ++ (tbuf ++ x :: left) :: rest.map Payload.data)
  (hread : zeroPadded 1 s.pending = [x])

include hbytes hread in
/-- What is left of the payload and behind it, when the next byte has been found. -/
theorem drop_append_eq_of_byte : s.pending.drop 1 ++ coming =
    List.replicate (d + (1 - s.pending.length)) 0 ++ (left ++ rest.flatMap Payload.frame) := by
  have hahead : s.pending ++ coming =
      List.replicate d 0 ++ ([x] ++ (left ++ rest.flatMap Payload.frame)) := hbytes
  exact drop_append_eq_of_read rfl hahead hread

include hbytes hlen hrest hread

theorem behind_of_last (hfull : (tbuf ++ zeroPadded 1 s.pending).length = len) :
    Behind payloads (d + (1 - s.pending.length)) coming { s with
      pending := s.pending.drop 1
      phase := .idle
      returned := s.returned ++ [tbuf ++ zeroPadded 1 s.pending] } := by
  have hnil : left = [] := by
    rw [hlen, hread] at hfull
    simp only [List.length_append, List.length_cons, List.length_nil] at hfull
    exact List.length_eq_zero_iff.mp (by omega)
  have hbehind := drop_append_eq_of_byte hbytes hread
  rw [hnil] at hbehind hrest
  refine ⟨[], rest, hbehind, rfl, ?_⟩
  rw [hrest, hread, List.append_assoc]
  rfl

theorem behind_of_byte (hmore : (tbuf ++ zeroPadded 1 s.pending).length ≠ len) :
    Behind payloads (d + (1 - s.pending.length)) coming { s with
      pending := s.pending.drop 1
      phase := .body len (tbuf ++ zeroPadded 1 s.pending) } := by
  have hsplit : tbuf ++ x :: left = tbuf ++ [x] ++ left := List.append_cons tbuf x left
  refine ⟨left, rest, drop_append_eq_of_byte hbytes hread, ?_, ?_, ?_⟩
  · rintro rfl
    rw [hread] at hmore
    exact hmore hlen.symm
  · rw [hlen, hread, hsplit]
  · rw [hrest, hread, hsplit]

end Loop

/-- The next byte of a payload is found, if what has been read with it is a beginning of it. -/
theorem read_of_prefix (hread : tbuf ++ zeroPadded 1 s.pending <+: tbuf ++ x :: left) :
    zeroPadded 1 s.pending = [x] := by
  obtain ⟨more, hmore⟩ := (List.prefix_append_right_inj tbuf).mp hread
  have htake := congrArg (List.take 1) hmore
  rw [List.take_append_of_le_length (length_zeroPadded _ _).ge,
    List.take_of_length_le (length_zeroPadded _ _).le] at htake
  exact htake

end Calls

/-! ## Steps -/

/-- `recv` finds as many bytes as it is asked for. -/
def Ready (s : ClientFd) : FdEvent → Prop
  | .recv => s.asked ≤ s.pending.length
  | _ => True

/-- The bytes that arrive. -/
def arrived : FdEvent → Bytes
  | .arrive first rest => first :: rest
  | _ => []

/-- The bytes that are missing. -/
def missing (s : ClientFd) : FdEvent → ℕ
  | .recv => s.asked - s.pending.length
  | _ => 0

section Steps

variable {s s' : ClientFd} {payloads : List Payload} {d : ℕ} {coming : Bytes} {e : FdEvent}

theorem behind_of_arrive {first : UInt8} {rest : Bytes}
    (h : s.Behind payloads d (first :: rest ++ coming)) :
    Behind payloads d coming
      { s with pending := s.pending ++ first :: rest, events := s.events + 1 } := by
  obtain ⟨left, more, hbytes, hexpected⟩ := h
  exact ⟨left, more, by rw [← hbytes, List.append_assoc], hexpected⟩

theorem flatMap_frame_cons (p : Payload) (rest : List Payload) :
    (p :: rest).flatMap Payload.frame =
      intBytes p.data.length ++ (p.data ++ rest.flatMap Payload.frame) := by
  rw [List.flatMap_cons, Payload.frame, senddata, List.append_assoc]

/-- As long as what is returned can be what was sent, a missing byte is taken for a zero.  A task
that is behind does not find the length of its payload. -/
theorem Behind.acts (h : s.Behind payloads d (arrived e ++ coming)) (hacts : Acts s e s')
    (hfits : s'.Fits (payloads.map Payload.data)) :
    s'.Behind payloads (d + s.missing e) coming ∧
      (0 < d → 0 < s.events ∨ arrived e ++ coming ≠ [] → 0 < s'.events ∨ coming ≠ []) := by
  cases hacts with
  | arrive first rest => exact ⟨behind_of_arrive h, fun _ _ => Or.inl (Nat.succ_pos _)⟩
  | blank hphase hevents hlen =>
      -- an empty payload is returned, and none was sent
      obtain ⟨left, rest, -, hexpected⟩ := h
      rw [Fits] at hfits
      dsimp only at hfits
      rw [hphase] at hfits hexpected
      obtain ⟨p, rest', -, hdata⟩ := exists_payload_of_prefix hexpected.2 hfits
      exact absurd hdata p.ne_nil
  | length len hphase hevents hlen hpos =>
      obtain ⟨left, rest, hbytes, hexpected⟩ := h
      rw [hphase] at hexpected
      obtain ⟨rfl, hrest⟩ := hexpected
      obtain ⟨data, hdata, hdataLen, -⟩ := hfits
      obtain ⟨p, rest', rfl, rfl⟩ := exists_payload_of_prefix hrest hdata
      subst hdataLen
      have hread := (zeroPadded_eq_iff p).mpr hlen
      have hahead : s.pending ++ coming = List.replicate d 0 ++
          (intBytes p.data.length ++ (p.data ++ rest'.flatMap Payload.frame)) := by
        rw [← flatMap_frame_cons]
        exact hbytes
      rw [missing, asked, hphase]
      refine ⟨behind_of_length hahead hrest hread, fun hd => ?_⟩
      exact absurd (eq_replicate_of_behind hd (length_intBytes _) hahead hread)
        (intBytes_length_ne_zeros p)
  | last len tbuf hphase hfull =>
      obtain ⟨left, rest, hbytes, hexpected⟩ := h
      rw [hphase] at hexpected
      obtain ⟨hleft, hlen, hrest⟩ := hexpected
      obtain ⟨x, left, rfl⟩ := List.exists_cons_of_ne_nil hleft
      have hdone : s.returned ++ [tbuf ++ zeroPadded 1 s.pending] <+: payloads.map Payload.data :=
        hfits
      rw [hrest] at hdone
      obtain ⟨rest', hcons⟩ := singleton_prefix_iff.mp hdone
      have hread := read_of_prefix (by rw [(List.cons.inj hcons).1])
      rw [missing, asked, hphase]
      exact ⟨behind_of_last hbytes hlen hrest hread hfull, fun _ hmore => hmore⟩
  | byte len tbuf hphase hmore =>
      obtain ⟨left, rest, hbytes, hexpected⟩ := h
      rw [hphase] at hexpected
      obtain ⟨hleft, hlen, hrest⟩ := hexpected
      obtain ⟨x, left, rfl⟩ := List.exists_cons_of_ne_nil hleft
      obtain ⟨data, hdata, -, hprefix⟩ := hfits
      dsimp only at hdata
      rw [hrest] at hdata
      obtain ⟨rest', hcons⟩ := singleton_prefix_iff.mp hdata
      rw [← (List.cons.inj hcons).1] at hprefix
      have hread := read_of_prefix hprefix
      rw [missing, asked, hphase]
      exact ⟨behind_of_byte hbytes hlen hrest hread hmore, fun _ hevents => hevents⟩

/-- A task that is not behind and finds enough bytes goes on. -/
theorem Behind.acts_of_ready (h : s.Behind payloads 0 (arrived e ++ coming)) (he : e ≠ .hangUp)
    (hready : s.Ready e) : s.step e = disabled ∨
      ∃ s', Acts s e s' ∧ s'.blanks = s.blanks ∧ s'.Behind payloads 0 coming := by
  cases e with
  | arrive first rest => exact Or.inr ⟨_, .arrive first rest, rfl, behind_of_arrive h⟩
  | hangUp => exact absurd rfl he
  | recv =>
      obtain ⟨left, rest, hbytes, hexpected⟩ := h
      have hbytes : s.pending ++ coming = left ++ rest.flatMap Payload.frame := hbytes
      rw [Ready, asked] at hready
      cases hphase : s.phase with
      | idle =>
          rw [hphase] at hready hexpected
          obtain ⟨rfl, hrest⟩ := hexpected
          by_cases hevents : 0 < s.events
          · cases rest with
            | nil =>
                -- nothing more comes, so `recv` cannot find a length
                rw [List.flatMap_nil, List.append_nil, List.append_eq_nil_iff] at hbytes
                rw [hbytes.1] at hready
                exact absurd hready (by decide)
            | cons p rest =>
                rw [List.nil_append, flatMap_frame_cons] at hbytes
                -- all four bytes are those of the next length
                have hread := zeroPadded_eq_of_le (length_intBytes _) hbytes hready
                have hbehind := @behind_of_length s payloads rest 0 coming p hbytes hrest hread
                rw [Nat.sub_eq_zero_of_le hready] at hbehind
                exact Or.inr ⟨_, .length _ hphase hevents ((zeroPadded_eq_iff p).mp hread)
                  (List.length_pos_of_ne_nil p.ne_nil), rfl, hbehind⟩
          · rw [step_of_idle hphase]
            exact Or.inl (require_bind_of_not hevents _)
      | body len tbuf =>
          rw [hphase] at hready hexpected
          obtain ⟨hleft, hlen, hrest⟩ := hexpected
          obtain ⟨x, left, rfl⟩ := List.exists_cons_of_ne_nil hleft
          have hread : zeroPadded 1 s.pending = [x] := zeroPadded_eq_of_le rfl hbytes hready
          by_cases hfull : (tbuf ++ zeroPadded 1 s.pending).length = len
          · have hbehind := @behind_of_last s payloads rest 0 len coming tbuf left x hbytes hlen hrest
              hread hfull
            rw [Nat.sub_eq_zero_of_le hready] at hbehind
            exact Or.inr ⟨_, .last len tbuf hphase hfull, rfl, hbehind⟩
          · have hbehind := @behind_of_byte s payloads rest 0 len coming tbuf left x hbytes hlen hrest
              hread hfull
            rw [Nat.sub_eq_zero_of_le hready] at hbehind
            exact Or.inr ⟨_, .byte len tbuf hphase hfull, rfl, hbehind⟩

end Steps

/-! ## Runs -/

/-- No task runs, and there is one for every event. -/
def Processed (s : ClientFd) : Prop :=
  s.phase = .idle ∧ s.events = 0

section Runs

variable {s s' : ClientFd} {payloads : List Payload} {d : ℕ} {es : List FdEvent}

/-- The first step of a run on an open connection. -/
theorem acts_of_run {e : FdEvent} (hlive : s.Live) (hes : .hangUp ∉ e :: es)
    (hrun : run step (e :: es) s = ok s') : ∃ s₁, s.step e = ok s₁ ∧ Acts s e s₁ ∧ s₁.Live ∧
      .hangUp ∉ es ∧ run step es s₁ = ok s' := by
  obtain ⟨s₁, hnext, hrest⟩ := bind_eq_ok.mp hrun
  have he : e ≠ .hangUp := fun h => hes (h ▸ List.mem_cons_self)
  have hacts := acts_of_step hlive he hnext
  exact ⟨s₁, hnext, hacts, hacts.live hlive, fun h => hes (List.mem_cons_of_mem _ h), hrest⟩

theorem fits_of_run {datas : List Bytes} (hlive : s.Live) (hes : .hangUp ∉ es)
    (hrun : run step es s = ok s') (hfits : s'.Fits datas) : s.Fits datas := by
  induction es generalizing s with
  | nil =>
      cases hrun
      exact hfits
  | cons e es ih =>
      obtain ⟨s₁, -, hacts, hlive₁, hes', hrest⟩ := acts_of_run hlive hes hrun
      exact hacts.fits (ih hlive₁ hes' hrest)

theorem events_add_calls_of_run (hlive : s.Live) (hes : .hangUp ∉ es)
    (hrun : run step es s = ok s') :
    s'.events + s'.calls = s.events + s.calls + (es.map arrivals).sum := by
  induction es generalizing s with
  | nil =>
      cases hrun
      rfl
  | cons e es ih =>
      obtain ⟨s₁, -, hacts, hlive₁, hes', hrest⟩ := acts_of_run hlive hes hrun
      rw [ih hlive₁ hes' hrest, hacts.events_add_calls, List.map_cons, List.sum_cons, Nat.add_assoc]

/-- Tasks that are behind, with another one to come, return something that was not sent. -/
theorem not_fits_of_behind (hd : 0 < d) (hlive : s.Live) (hes : .hangUp ∉ es)
    (h : s.Behind payloads d (es.flatMap arrived)) (hmore : 0 < s.events ∨ es.flatMap arrived ≠ [])
    (hrun : run step es s = ok s') (hprocessed : s'.Processed) :
    ¬s'.Fits (payloads.map Payload.data) := by
  induction es generalizing s d with
  | nil =>
      cases hrun
      rcases hmore with hevents | hcoming
      · exact absurd hprocessed.2 hevents.ne'
      · exact absurd rfl hcoming
  | cons e es ih =>
      intro hfits
      obtain ⟨s₁, -, hacts, hlive₁, hes', hrest⟩ := acts_of_run hlive hes hrun
      rw [List.flatMap_cons] at h hmore
      obtain ⟨hbehind, hlater⟩ := h.acts hacts (fits_of_run hlive₁ hes' hrest hfits)
      exact ih (by omega) hlive₁ hes' hbehind (hlater hd hmore) hrest hfits

/-- If everything is returned that was sent, `recv` has always found what it was asked for. -/
theorem ready_of_fits (hlive : s.Live) (hes : .hangUp ∉ es)
    (h : s.Behind payloads 0 (es.flatMap arrived)) (hrun : run step es s = ok s')
    (hprocessed : s'.Processed) (hfits : s'.Fits (payloads.map Payload.data)) :
    EachStep step Ready es s := by
  induction es generalizing s with
  | nil => trivial
  | cons e es ih =>
      obtain ⟨s₁, hnext, hacts, hlive₁, hes', hrest⟩ := acts_of_run hlive hes hrun
      rw [List.flatMap_cons] at h
      obtain ⟨hbehind, -⟩ := h.acts hacts (fits_of_run hlive₁ hes' hrest hfits)
      rw [Nat.zero_add] at hbehind
      by_cases hready : s.Ready e
      · have hnone : s.missing e = 0 := by
          cases e with
          | recv => exact Nat.sub_eq_zero_of_le hready
          | arrive first rest => rfl
          | hangUp => rfl
        rw [hnone] at hbehind
        refine ⟨hready, fun s'' hnext' => ?_⟩
        obtain rfl := ok.inj (hnext.symm.trans hnext')
        exact ih hlive₁ hes' hbehind hrest
      · -- the missing bytes come later, with an event of their own
        refine absurd hfits ?_
        cases e with
        | arrive first rest => exact absurd trivial hready
        | hangUp => cases hacts
        | recv =>
            have hshort : s.pending.length < s.asked := not_le.mp hready
            have hd : 0 < s.missing .recv := Nat.sub_pos_of_lt hshort
            refine not_fits_of_behind hd hlive₁ hes' hbehind (Or.inr ?_) hrest hprocessed
            intro hnothing
            obtain ⟨left, more, hbytes, -⟩ := hbehind
            rw [hnothing, hacts.pending, List.drop_eq_nil_of_le hshort.le] at hbytes
            obtain ⟨k, hk⟩ := Nat.exists_eq_succ_of_ne_zero hd.ne'
            rw [hk, List.replicate_succ] at hbytes
            cases hbytes

/-- If `recv` always finds what it is asked for, no task crashes, and none is behind. -/
theorem run_of_ready (hlive : s.Live) (hes : .hangUp ∉ es)
    (h : s.Behind payloads 0 (es.flatMap arrived)) (hready : EachStep step Ready es s) :
    (∀ kind, run step es s ≠ fault kind) ∧
      ∀ s', run step es s = ok s' → s'.Behind payloads 0 [] ∧ s'.blanks = s.blanks := by
  induction es generalizing s with
  | nil =>
      refine ⟨fun kind hfault => ?_, fun s' hrun => ?_⟩
      · cases hfault
      · cases hrun
        exact ⟨h, rfl⟩
  | cons e es ih =>
      have he : e ≠ .hangUp := fun h => hes (h ▸ List.mem_cons_self)
      have hes' : .hangUp ∉ es := fun h => hes (List.mem_cons_of_mem _ h)
      rw [List.flatMap_cons] at h
      rw [run]
      rcases h.acts_of_ready he hready.1 with hdisabled | ⟨s₁, hacts, hblanks, hbehind⟩
      · rw [hdisabled]
        refine ⟨fun kind hfault => ?_, fun s' hrun => ?_⟩
        · cases hfault
        · cases hrun
      · have hnext := hacts.step_eq hlive
        rw [hnext, ok_bind, ← hblanks]
        exact ih (hacts.live hlive) hes' hbehind (hready.2 s₁ hnext)

/-- The client sends the payloads, and the network cuts their frames into the arrivals. -/
def Carries (payloads : List Payload) (es : List FdEvent) : Prop :=
  .hangUp ∉ es ∧ es.flatMap arrived = payloads.flatMap Payload.frame

/-- All events are handled at the end, unless a task crashes before. -/
def Complete (es : List FdEvent) : Prop :=
  match run step es accepted with
  | ok s => s.Processed
  | err _ => False
  | fault _ => True

/-- Each call of `recvdata` has returned the next payload, and there was no empty reply. -/
def Delivers (payloads : List Payload) (es : List FdEvent) : Prop :=
  ∃ s, run step es accepted = ok s ∧ s.returned = payloads.map Payload.data ∧ s.blanks = 0

/-- The payloads are delivered exactly if `recv` always finds as many bytes as it is asked for, and
there are as many arrivals as frames. -/
theorem delivers_iff (hcarries : Carries payloads es) (hcomplete : Complete es) :
    Delivers payloads es ↔
      EachStep step Ready es accepted ∧ (es.map arrivals).sum = payloads.length := by
  obtain ⟨hhang, hsent⟩ := hcarries
  have hlive : accepted.Live := ⟨rfl, rfl⟩
  have hbehind : accepted.Behind payloads 0 (es.flatMap arrived) := ⟨[], payloads, hsent, rfl, rfl⟩
  have hstart : accepted.events + accepted.calls = 0 := rfl
  constructor
  · rintro ⟨s, hrun, hreturned, -⟩
    rw [Complete, hrun] at hcomplete
    obtain ⟨hphase, hevents⟩ := hcomplete
    have hfits : s.Fits (payloads.map Payload.data) := by
      rw [Fits, hphase, hreturned]
    -- every arrival was an event, and every event a call
    have hcount := events_add_calls_of_run hlive hhang hrun
    rw [hevents, calls_of_idle hphase, hreturned, List.length_map, hstart] at hcount
    exact ⟨ready_of_fits hlive hhang hbehind hrun ⟨hphase, hevents⟩ hfits, by omega⟩
  · rintro ⟨hready, hframes⟩
    obtain ⟨hnoFault, hend⟩ := run_of_ready hlive hhang hbehind hready
    rw [Complete] at hcomplete
    cases hrun : run step es accepted with
    | err code =>
        rw [hrun] at hcomplete
        exact hcomplete.elim
    | fault kind => exact absurd hrun (hnoFault kind)
    | ok s =>
        rw [hrun] at hcomplete
        obtain ⟨hphase, hevents⟩ := hcomplete
        obtain ⟨⟨left, rest, -, hexpected⟩, hblanks⟩ := hend s hrun
        rw [hphase] at hexpected
        have hcount := events_add_calls_of_run hlive hhang hrun
        rw [hevents, calls_of_idle hphase, hframes, hstart] at hcount
        -- as many calls as payloads, so none is left
        have hlength := congrArg List.length hexpected.2
        rw [List.length_map, List.length_append, List.length_map] at hlength
        have hnil : rest = [] := List.length_eq_zero_iff.mp (by omega)
        refine ⟨s, hrun, ?_, hblanks⟩
        rw [hexpected.2, hnil, List.map_nil, List.append_nil]

end Runs

/-- The payload of one byte `1`. -/
def payloadOne : Payload :=
  ⟨[1], by decide, by decide⟩

/-- Its frame in two arrivals: the length, and the byte. -/
def splitFrame : List FdEvent :=
  [.arrive 1 [0, 0, 0], .recv, .recv, .arrive 1 [], .recv, .recv]

/-- The byte is not there when it is read, and then it is read as a length. -/
theorem run_splitFrame : run step splitFrame accepted =
    ok ⟨[], false, true, 0, .idle, [[0], [0]], 0⟩ := by
  decide +kernel

theorem complete_splitFrame : Complete splitFrame := by
  rw [Complete, run_splitFrame]
  exact ⟨rfl, rfl⟩

theorem carries_splitFrame : Carries [payloadOne] splitFrame :=
  ⟨by decide, by decide +kernel⟩

/-- The payload of the bytes `2` and `3`. -/
def payloadTwoThree : Payload :=
  ⟨[2, 3], by decide, by decide⟩

/-- The first arrival brings a frame and three bytes of the next one, which are there before they are
read. -/
def overlappingFrames : List FdEvent :=
  [.arrive 1 [0, 0, 0, 1, 2, 0, 0], .recv, .recv, .arrive 0 [2, 3], .recv, .recv, .recv]

theorem delivers_overlappingFrames : Delivers [payloadOne, payloadTwoThree] overlappingFrames := by
  have hcarries : Carries [payloadOne, payloadTwoThree] overlappingFrames :=
    ⟨by decide, by decide +kernel⟩
  have hcomplete : Complete overlappingFrames := by
    rw [Complete, show run step overlappingFrames accepted =
      ok ⟨[], false, true, 0, .idle, [[1], [2, 3]], 0⟩ by decide +kernel]
    exact ⟨rfl, rfl⟩
  refine (delivers_iff hcarries hcomplete).mpr ⟨?_, rfl⟩
  refine EachStep.of_test (p := fun s e => e ≠ .recv || decide (s.asked ≤ s.pending.length))
    (fun s e hready => ?_) (by decide +kernel)
  cases e with
  | recv => simpa [Ready] using hready
  | _ => trivial

theorem not_delivers_splitFrame : Carries [payloadOne] splitFrame ∧ Complete splitFrame ∧
    ¬Delivers [payloadOne] splitFrame := by
  refine ⟨carries_splitFrame, complete_splitFrame, ?_⟩
  rintro ⟨s, hrun, hreturned, -⟩
  obtain rfl := ok.inj (run_splitFrame.symm.trans hrun)
  cases hreturned

end ClientFd

end SafeTransmission
