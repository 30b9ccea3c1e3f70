import SafeTransmission.Server.Recvdata

/-!
# Heartbeats and a request on one socket

`initcli` starts a thread that sends an empty frame from time to time, and receives up to ten
bytes of what comes back.  The main thread sends its request on the same socket and receives the
reply with `recvdata`.  The server answers the frames in order, an empty one by an empty one.

Only the heartbeat thread takes the mutex, and it keeps it when the connection is closed.  So the
threads read from one stream of bytes in any order.

As long as each thread finds its own bytes when it calls `recv`, the main thread gets the reply to
its request, and the heartbeat thread only empty ones (`sound_of_apart`).

## The model

* The steps are those of both threads, the answers of the server, and arrivals of any number of
  bytes.  Each byte on its way to the client is marked by what its frame answers.
* `recv` waits until bytes have arrived, or the server has closed the connection and all it sent has
  been read, or it fails.
* The heartbeat thread gets the address of `pdata`, a variable of `initcli`, which returns at once.
  The socket is there only until the memory is used again (`reuse`).
* `SIGPIPE` is ignored: a frame that is sent on a closed connection is lost.
* Left out are the time between two heartbeats, and what the server does in order to get the frames.

## Strategy

* `stream` is all that the client can still receive.  What is left of the reply stands in it between
  bytes of empty frames (`Expects`), and only the threads of the client take bytes away.
* A thread that finds its own bytes takes them from the right place (`goes_heartbeatRecv`,
  `goes_recv_length`, `goes_recv_byte`).
* The server stays until it has answered the request, so `recvdata` never finds the end.
-/

namespace SafeTransmission

open Outcome

/-- What a frame of the server answers. -/
inductive Origin where
  | heartbeat
  | request
deriving DecidableEq, Repr

/-- A byte of a frame of the server. -/
structure MarkedByte where
  origin : Origin
  byte : UInt8
deriving DecidableEq, Repr

/-- How a call of `recv` ends. -/
inductive RecvEnd where
  | bytes
  | closed
  | failed
deriving DecidableEq, Repr

/-- What the heartbeat thread does next. -/
inductive HeartbeatPhase where
  | sleeping
  /-- It has locked the mutex, and calls `senddata`. -/
  | locked
  /-- It is in `recv`. -/
  | waiting
  /-- `recv` has returned `ret`, and it unlocks the mutex. -/
  | received (ret : ℤ)
  | returned
deriving DecidableEq, Repr

/-- What the main thread does next. -/
inductive MainPhase where
  | building
  /-- It has sent the request, and receives the length of the reply. -/
  | length (request : Bytes)
  /-- It is in the loop, with `len`, and has the bytes in front of `temp`. -/
  | body (request : Bytes) (len : ℕ) (tbuf : Bytes)
  /-- `recvdata` has returned `len`, with `*buf`. -/
  | returned (request : Bytes) (len : ℤ) (buf : Bytes)
deriving DecidableEq, Repr

/-- The socket of a client with its two threads, and the server at the other end. -/
structure ClientSocket where
  /-- The payloads of the frames that the server has not answered. -/
  toServer : List Bytes
  /-- What the server has sent and has not arrived. -/
  inFlight : List MarkedByte
  /-- What has arrived and is not read. -/
  pending : List MarkedByte
  /-- The server has closed the connection. -/
  closed : Bool
  /-- `fd` is open. -/
  fdOpen : Bool
  /-- `mtx_t` is locked. -/
  mutex : Bool
  flag : ℕ
  heartbeat : HeartbeatPhase
  main : MainPhase
  /-- The memory of `pdata` in `initcli` has not been used again. -/
  pdata : Bool
  /-- What the heartbeat thread has received. -/
  taken : List MarkedByte
deriving DecidableEq, Repr

/-- A step of one of the threads, of the server, or of the network. -/
inductive SocketStep where
  | lock
  | heartbeatSend
  | heartbeatRecv (stop : RecvEnd)
  | unlock
  | request (data : Bytes)
  | recv (stop : RecvEnd)
  | answer
  | arrive (k : ℕ)
  | close
  /-- The main thread calls a function that uses the memory of `pdata`. -/
  | reuse
deriving DecidableEq, Repr

namespace ClientSocket

/-- Behind `initcli`. -/
def connected : ClientSocket :=
  ⟨[], [], [], false, true, false, 0, .sleeping, .building, true, []⟩

/-- `senddata`.  Its result is not used. -/
def send (s : ClientSocket) (data : Bytes) : ClientSocket :=
  if s.fdOpen = true ∧ s.closed = false then { s with toServer := s.toServer ++ [data] } else s

/-- `recv` for up to `n` bytes: its result, the bytes, and the socket. -/
def recv (s : ClientSocket) (n : ℕ) : RecvEnd → Outcome (ℤ × List MarkedByte × ClientSocket)
  | .bytes => do
      require (s.fdOpen = true ∧ s.pending ≠ [])
      ok ((s.pending.take n).length, s.pending.take n, { s with pending := s.pending.drop n })
  | .closed => do
      require (s.fdOpen = true ∧ s.closed = true ∧ s.pending = [] ∧ s.inFlight = [])
      ok (0, [], s)
  | .failed => ok (-1, [], s)

/-! ## The heartbeat thread -/

def lock (s : ClientSocket) : Outcome ClientSocket := do
  require (s.heartbeat = .sleeping ∧ s.mutex = false)
  ok { s with mutex := true, heartbeat := .locked }

/-- `data->cfd`. -/
def readPdata (s : ClientSocket) : Outcome Unit :=
  if s.pdata = true then ok () else fault .useAfterFree

def heartbeatSend (s : ClientSocket) : Outcome ClientSocket := do
  require (s.heartbeat = .locked)
  s.readPdata
  ok { s.send [] with flag := s.flag + 1, heartbeat := .waiting }

/-- `recv(data->cfd, &buf, 10, 0)`.  If the connection is closed, the thread ends here. -/
def heartbeatRecv (s : ClientSocket) (stop : RecvEnd) : Outcome ClientSocket := do
  require (s.heartbeat = .waiting)
  s.readPdata
  let (ret, buf, s) ← s.recv 10 stop
  let s := { s with taken := s.taken ++ buf }
  if ret = 0 then ok { s with heartbeat := .returned }
  else ok { s with heartbeat := .received ret }

/-- `pthread_mutex_unlock`, and the tests behind it. -/
def unlock (s : ClientSocket) : Outcome ClientSocket :=
  match s.heartbeat with
  | .received ret =>
      let flag := if ret > 0 then 0 else s.flag
      ok { s with
        mutex := false
        flag := flag
        heartbeat := if flag ≥ 3 then .returned else .sleeping }
  | _ => disabled

/-! ## The main thread -/

/-- `senddata`, with a request that is not empty. -/
def request (s : ClientSocket) (data : Bytes) : Outcome ClientSocket := do
  require (s.main = .building ∧ data ≠ [])
  ok { s.send data with main := .length data }

/-- `recvdata` behind the tests of the first `recv`, up to the loop. -/
def begin (s : ClientSocket) (data : Bytes) (len : ℤ) : Outcome ClientSocket :=
  -- a negative length is too large for `malloc`, and `memset` gets a null pointer
  if len < 0 then fault .nullDeref
  else if len = 0 then ok { s with main := .returned data 0 [] }
  else ok { s with main := .body data len.toNat [] }

/-- The next `recv` in `recvdata`. -/
def recvdata (s : ClientSocket) (stop : RecvEnd) : Outcome ClientSocket :=
  match s.main with
  | .length data => do
      let (ret, clen, s) ← s.recv 4 stop
      if ret = -1 then ok { s with fdOpen := false, main := .returned data (-1) [] }
      else if ret = 0 then ok { s with main := .returned data 0 [] }
      else s.begin data (toInt32 (beNat (zeroPadded 4 (clen.map MarkedByte.byte)).reverse))
  | .body data len tbuf => do
      let (ret, byte, s) ← s.recv 1 stop
      if ret = -1 then ok { s with fdOpen := false, main := .returned data (-1) [] }
      else if ret = 0 then ok { s with main := .returned data 0 [] }
      else
        let tbuf := tbuf ++ byte.map MarkedByte.byte
        if tbuf.length = len then ok { s with main := .returned data len tbuf }
        else ok { s with main := .body data len tbuf }
  | _ => disabled

/-! ## The server and the network -/

/-- The frame that answers a payload: an empty one, or the reply to a request. -/
def answerTo (reply : Bytes → Payload) (data : Bytes) : List MarkedByte :=
  if data = [] then (senddata []).map (⟨.heartbeat, ·⟩)
  else (reply data).frame.map (⟨.request, ·⟩)

def answer (reply : Bytes → Payload) (s : ClientSocket) : Outcome ClientSocket := do
  require (s.closed = false)
  match s.toServer with
  | [] => disabled
  | data :: rest => ok { s with toServer := rest, inFlight := s.inFlight ++ answerTo reply data }

def arrive (s : ClientSocket) (k : ℕ) : Outcome ClientSocket := do
  require (0 < k ∧ k ≤ s.inFlight.length)
  ok { s with inFlight := s.inFlight.drop k, pending := s.pending ++ s.inFlight.take k }

def step (reply : Bytes → Payload) (s : ClientSocket) : SocketStep → Outcome ClientSocket
  | .lock => s.lock
  | .heartbeatSend => s.heartbeatSend
  | .heartbeatRecv stop => s.heartbeatRecv stop
  | .unlock => s.unlock
  | .request data => s.request data
  | .recv stop => s.recvdata stop
  | .answer => s.answer reply
  | .arrive k => s.arrive k
  | .close => ok { s with closed := true }
  | .reuse => ok { s with pdata := false }

/-! ## The stream to the client -/

/-- What the client can still receive if the server answers all it was sent. -/
def stream (reply : Bytes → Payload) (s : ClientSocket) : List MarkedByte :=
  s.pending ++ (s.inFlight ++ s.toServer.flatMap (answerTo reply))

/-- All of them are bytes of empty frames. -/
def Heartbeats (bs : List MarkedByte) : Prop :=
  ∀ b ∈ bs, b.origin = .heartbeat

/-- The main thread has read the reply up to `rest`, and is behind the bytes `before`. -/
def Reads (reply : Bytes → Payload) (before : List MarkedByte) (rest : Bytes) : MainPhase → Prop
  | .building => rest = []
  | .length data => rest = (reply data).frame
  | .body data len tbuf => before = [] ∧ rest ≠ [] ∧ len = (reply data).data.length ∧
      (reply data).data = tbuf ++ rest
  | .returned data len buf => rest = [] ∧ len = (reply data).data.length ∧ buf = (reply data).data

/-- `recvdata` has not returned. -/
def Receiving (s : ClientSocket) : Prop :=
  match s.main with
  | .length _ => True
  | .body _ _ _ => True
  | _ => False

/-- What is left of the reply is in the stream, between bytes of empty frames. -/
def Expects (reply : Bytes → Payload) (s : ClientSocket) : Prop :=
  ∃ before rest after, Heartbeats before ∧ Heartbeats after ∧
    s.stream reply = before ++ (rest.map (⟨.request, ·⟩) ++ after) ∧ Reads reply before rest s.main

/-- No request waits for its answer: the server has only empty frames left. -/
def Answered (s : ClientSocket) : Prop :=
  ∀ data ∈ s.toServer, data = []

/-- The server has not closed the connection too early, and the heartbeat thread has received empty
frames only. -/
structure Inv (reply : Bytes → Payload) (s : ClientSocket) : Prop where
  fdOpen : s.fdOpen = true
  closed : s.closed = true → s.Answered
  taken : Heartbeats s.taken
  expects : s.Expects reply

/-- The server does not close the connection while the request waits for its answer, nor is the
request sent later.  Each thread finds its own bytes: the heartbeat thread none of the reply to the
request among those it takes, and `recvdata` four of that reply.  The heartbeat thread finds the
socket where `initcli` left it, and `recvdata` gets no error. -/
def Apart (s : ClientSocket) : SocketStep → Prop
  | .heartbeatSend => s.pdata = true
  | .heartbeatRecv stop => s.pdata = true ∧ (stop = .bytes → Heartbeats (s.pending.take 10))
  | .recv stop => match s.main with
    | .length _ => stop ≠ .failed ∧ (stop = .bytes →
        4 ≤ s.pending.length ∧ ∀ b ∈ s.pending.take 4, b.origin = .request)
    | .body _ _ _ => stop ≠ .failed
    | _ => True
  | .request _ => s.closed = false
  | .close => s.Answered
  | _ => True

section Streams

variable {reply : Bytes → Payload} {s s' : ClientSocket} {bs before after bs' : List MarkedByte}
  {rest : Bytes}

theorem heartbeats_nil : Heartbeats [] :=
  fun _ hb => absurd hb List.not_mem_nil

theorem Heartbeats.append (hbs : Heartbeats bs) (hbs' : Heartbeats bs') : Heartbeats (bs ++ bs') :=
  List.forall_mem_append.mpr ⟨hbs, hbs'⟩

/-- Bytes in front of the reply do not matter to the main thread. -/
theorem Reads.of_append {main : MainPhase} (h : Reads reply (bs ++ before) rest main) :
    Reads reply before rest main := by
  cases main with
  | building => exact h
  | length data => exact h
  | body data len tbuf => exact ⟨(List.append_eq_nil_iff.mp h.1).2, h.2⟩
  | returned data len buf => exact h

theorem Reads.of_nil {main : MainPhase} (h : Reads reply before [] main) :
    Reads reply bs [] main := by
  cases main with
  | building => exact h
  | length data => exact h
  | body data len tbuf => exact absurd rfl h.2.1
  | returned data len buf => exact h

theorem Reads.ne_nil (h : Reads reply before rest s.main) (hreceiving : s.Receiving) : rest ≠ [] := by
  unfold Receiving at hreceiving
  cases hmain : s.main with
  | building | returned =>
      rw [hmain] at hreceiving
      exact hreceiving.elim
  | length data =>
      rw [hmain] at h
      rintro rfl
      have hframe : intBytes (reply data).data.length ++ (reply data).data = [] := h.symm
      exact (reply data).ne_nil (List.append_eq_nil_iff.mp hframe).2
  | body data len tbuf =>
      rw [hmain] at h
      exact h.2.1

theorem heartbeats_answerTo_nil : Heartbeats (answerTo reply []) := by
  rw [answerTo, if_pos rfl]
  exact List.forall_mem_map.mpr fun _ _ => rfl

/-- Bytes of empty frames in front of the stream are all in front of the reply, unless nothing is
left of it. -/
theorem eq_nil_or_of_heartbeats (hbs : Heartbeats bs)
    (hstream : bs ++ bs' = before ++ (rest.map (⟨.request, ·⟩) ++ after)) :
    rest = [] ∨ ∃ before', before = bs ++ before' ∧
      bs' = before' ++ (rest.map (⟨.request, ·⟩) ++ after) := by
  cases rest with
  | nil => exact Or.inl rfl
  | cons x rest =>
      rcases List.append_eq_append_iff.mp hstream with ⟨more, hbefore, hmore⟩ | ⟨more, hmore, hafter⟩
      · exact Or.inr ⟨more, hbefore, hmore⟩
      · cases more with
        | nil =>
            rw [List.append_nil] at hmore
            rw [List.nil_append] at hafter
            exact Or.inr ⟨[], by rw [hmore, List.append_nil], by rw [← hafter]; rfl⟩
        | cons y more =>
            obtain ⟨rfl, -⟩ := List.cons.inj hafter
            have hheartbeat := hbs ⟨.request, x⟩ (by rw [hmore]; simp)
            cases hheartbeat

/-- A byte of the reply in front of the stream is the next one of the reply. -/
theorem eq_nil_of_request {b : MarkedByte} (hb : b.origin = .request) (hbefore : Heartbeats before)
    (hafter : Heartbeats after)
    (hstream : b :: bs = before ++ (rest.map (⟨.request, ·⟩) ++ after)) :
    before = [] ∧ ∃ rest', rest = b.byte :: rest' ∧ bs = rest'.map (⟨.request, ·⟩) ++ after := by
  cases before with
  | cons b' before =>
      obtain ⟨rfl, -⟩ := List.cons.inj hstream
      have hheartbeat := hbefore b List.mem_cons_self
      rw [hb] at hheartbeat
      cases hheartbeat
  | nil =>
      refine ⟨rfl, ?_⟩
      cases rest with
      | nil =>
          have hheartbeat := hafter b (by
            rw [← show b :: bs = after from hstream]
            exact List.mem_cons_self)
          rw [hb] at hheartbeat
          cases hheartbeat
      | cons x rest =>
          obtain ⟨rfl, hbs⟩ := List.cons.inj hstream
          exact ⟨rest, rfl, hbs⟩

theorem eq_nil_of_requests (hbs : ∀ b ∈ bs, b.origin = .request) (hne : bs ≠ [])
    (hbefore : Heartbeats before) (hafter : Heartbeats after)
    (hstream : bs ++ bs' = before ++ (rest.map (⟨.request, ·⟩) ++ after)) :
    before = [] ∧ ∃ rest', rest = bs.map MarkedByte.byte ++ rest' ∧
      bs' = rest'.map (⟨.request, ·⟩) ++ after := by
  induction bs generalizing before rest with
  | nil => exact absurd rfl hne
  | cons b bs ih =>
      obtain ⟨rfl, rest', rfl, hnext⟩ := eq_nil_of_request (hbs b List.mem_cons_self) hbefore hafter
        hstream
      refine ⟨rfl, ?_⟩
      by_cases hbs' : bs = []
      · subst hbs'
        exact ⟨rest', rfl, hnext⟩
      · have hnext' : bs ++ bs' = [] ++ (rest'.map (⟨.request, ·⟩) ++ after) := hnext
        obtain ⟨-, rest'', rfl, hlast⟩ := ih (fun b' hb' => hbs b' (List.mem_cons_of_mem _ hb')) hbs'
          heartbeats_nil hnext'
        exact ⟨rest'', rfl, hlast⟩

end Streams

/-! ## Steps -/

section Steps

variable {reply : Bytes → Payload} {s s' : ClientSocket}

/-- What neither the stream nor the main thread notices keeps the invariant. -/
theorem Inv.of_stream_eq (h : s.Inv reply) (hmain : s'.main = s.main)
    (hstream : s'.stream reply = s.stream reply) (hopen : s'.fdOpen = s.fdOpen)
    (hclosed : s'.closed = true → s'.Answered) (htaken : s'.taken = s.taken) : s'.Inv reply := by
  obtain ⟨before, rest, after, hbefore, hafter, hsplit, hrest⟩ := h.expects
  refine ⟨hopen.trans h.fdOpen, hclosed, ?_, before, rest, after, hbefore, hafter,
    hstream.trans hsplit, ?_⟩
  · rw [htaken]
    exact h.taken
  · rw [hmain]
    exact hrest

theorem goes_lock (h : s.Inv reply) : Goes s.lock (Inv reply) :=
  goes_require fun _ => goes_ok (h.of_stream_eq rfl rfl rfl h.closed rfl)

theorem goes_unlock (h : s.Inv reply) : Goes s.unlock (Inv reply) := by
  rw [unlock]
  split
  · exact goes_ok (h.of_stream_eq rfl rfl rfl h.closed rfl)
  · exact goes_disabled

theorem goes_answer (h : s.Inv reply) : Goes (s.answer reply) (Inv reply) := by
  refine goes_require fun hopen => ?_
  cases hserver : s.toServer with
  | nil => exact goes_disabled
  | cons data rest =>
      refine goes_ok (h.of_stream_eq rfl ?_ rfl (fun hclosed => ?_) rfl)
      · rw [stream, stream, hserver, List.flatMap_cons, List.append_assoc s.inFlight]
      · cases hopen.symm.trans hclosed

theorem goes_arrive (h : s.Inv reply) (k : ℕ) : Goes (s.arrive k) (Inv reply) := by
  refine goes_require fun _ => goes_ok (h.of_stream_eq rfl ?_ rfl h.closed rfl)
  rw [stream, stream, List.append_assoc s.pending, ← List.append_assoc (s.inFlight.take k),
    List.take_append_drop]

/-- A frame is answered behind everything else, or lost. -/
theorem stream_send (h : s.Inv reply) (hopen : s.closed = false) (data : Bytes) :
    (s.send data).stream reply = s.stream reply ++ answerTo reply data := by
  rw [send, if_pos ⟨h.fdOpen, hopen⟩, stream, stream, List.flatMap_append, List.flatMap_singleton,
    List.append_assoc, List.append_assoc]

theorem readPdata_bind_of {α : Type} (hpdata : s.pdata = true) (next : Unit → Outcome α) :
    (s.readPdata >>= next) = next () := by
  rw [readPdata, if_pos hpdata, ok_bind]

theorem goes_heartbeatSend (h : s.Inv reply) (hpdata : s.pdata = true) :
    Goes s.heartbeatSend (Inv reply) := by
  refine goes_require fun _ => ?_
  rw [readPdata_bind_of hpdata]
  apply goes_ok
  cases hclosed : s.closed with
  | true =>
      rw [send, if_neg (by simp [hclosed])]
      exact h.of_stream_eq rfl rfl rfl h.closed rfl
  | false =>
      obtain ⟨before, rest, after, hbefore, hafter, hsplit, hrest⟩ := h.expects
      have hstream := stream_send h hclosed []
      rw [hsplit, List.append_assoc, List.append_assoc] at hstream
      rw [send, if_pos ⟨h.fdOpen, hclosed⟩] at *
      refine ⟨h.fdOpen, fun hclosed' => ?_, h.taken, before, rest, after ++ answerTo reply [],
        hbefore, hafter.append heartbeats_answerTo_nil, hstream, hrest⟩
      cases hclosed.symm.trans hclosed'

/-- The request is sent when nothing but empty frames is in the stream. -/
theorem goes_request (h : s.Inv reply) {data : Bytes} (hclosed : s.closed = false) :
    Goes (s.request data) (Inv reply) := by
  refine goes_require fun ⟨hmain, hdata⟩ => goes_ok ?_
  obtain ⟨before, rest, after, hbefore, hafter, hsplit, hrest⟩ := h.expects
  rw [hmain] at hrest
  obtain rfl : rest = [] := hrest
  have hstream := stream_send h hclosed data
  rw [hsplit, List.map_nil, List.nil_append, answerTo, if_neg hdata] at hstream
  rw [send, if_pos ⟨h.fdOpen, hclosed⟩] at *
  refine ⟨h.fdOpen, fun hclosed' => ?_, h.taken, before ++ after, (reply data).frame, [],
    hbefore.append hafter, heartbeats_nil, ?_, rfl⟩
  · cases hclosed.symm.trans hclosed'
  · rw [List.append_nil]
    exact hstream

theorem goes_recv_bytes {n : ℕ} {next : ℤ × List MarkedByte × ClientSocket → Outcome ClientSocket}
    {Q : ClientSocket → Prop}
    (h : s.pending ≠ [] → Goes (next ((s.pending.take n).length, s.pending.take n,
      { s with pending := s.pending.drop n })) Q) : Goes (s.recv n .bytes >>= next) Q := by
  rw [recv, bind_bind]
  exact goes_require fun hthere => h hthere.2

/-- While the reply is not read, there is something to read. -/
theorem Inv.not_at_end (h : s.Inv reply) (hreceiving : s.Receiving)
    (hserver : s.toServer = [] ∨ s.closed = true) (hflight : s.inFlight = []) : s.pending ≠ [] := by
  intro hpending
  obtain ⟨before, rest, after, -, -, hsplit, hrest⟩ := h.expects
  have hunread : rest ≠ [] := hrest.ne_nil hreceiving
  have hempty : Heartbeats (s.stream reply) := by
    rw [stream, hpending, hflight, List.nil_append, List.nil_append]
    intro b hb
    obtain ⟨data, hdata, hb⟩ := List.mem_flatMap.mp hb
    rcases hserver with hserver | hclosed
    · rw [hserver] at hdata
      cases hdata
    · rw [h.closed hclosed data hdata] at hb
      exact heartbeats_answerTo_nil b hb
  obtain ⟨x, rest, rfl⟩ := List.exists_cons_of_ne_nil hunread
  have hheartbeat := hempty ⟨.request, x⟩ (by rw [hsplit]; simp)
  cases hheartbeat

theorem goes_recv_closed (h : s.Inv reply) (hreceiving : s.Receiving) {n : ℕ}
    {next : ℤ × List MarkedByte × ClientSocket → Outcome ClientSocket} {Q : ClientSocket → Prop} :
    Goes (s.recv n .closed >>= next) Q := by
  rw [recv, bind_bind]
  refine goes_require fun ⟨_, hclosed, hpending, hflight⟩ => ?_
  exact absurd hpending (h.not_at_end hreceiving (Or.inr hclosed) hflight)

theorem take_append_stream (reply : Bytes → Payload) (s : ClientSocket) (n : ℕ) :
    s.pending.take n ++ { s with pending := s.pending.drop n }.stream reply = s.stream reply := by
  rw [stream, stream, ← List.append_assoc, List.take_append_drop]

theorem Inv.heartbeat_bytes (h : s.Inv reply) (hown : Heartbeats (s.pending.take 10)) :
    { s with pending := s.pending.drop 10, taken := s.taken ++ s.pending.take 10 }.Inv reply := by
  obtain ⟨before, rest, after, hbefore, hafter, hsplit, hrest⟩ := h.expects
  have hread := (take_append_stream reply s 10).trans hsplit
  refine ⟨h.fdOpen, h.closed, Heartbeats.append h.taken hown, ?_⟩
  rcases eq_nil_or_of_heartbeats hown hread with rfl | ⟨before', rfl, hleft⟩
  · -- nothing is left of the reply, so that all of the stream are empty frames
    have hall : Heartbeats ({ s with pending := s.pending.drop 10 }.stream reply) := by
      intro b hb
      have hmem : b ∈ before ++ after := by
        rw [List.map_nil, List.nil_append] at hread
        rw [← hread]
        exact List.mem_append_right _ hb
      exact Heartbeats.append hbefore hafter b hmem
    exact ⟨_, [], [], hall, heartbeats_nil, (List.append_nil _).symm, hrest.of_nil⟩
  · exact ⟨before', rest, after, fun b hb => hbefore b (List.mem_append_right _ hb), hafter, hleft,
      hrest.of_append⟩

theorem goes_heartbeatRecv (h : s.Inv reply) {stop : RecvEnd}
    (hapart : s.Apart (.heartbeatRecv stop)) : Goes (s.heartbeatRecv stop) (Inv reply) := by
  obtain ⟨hpdata, hown⟩ := hapart
  refine goes_require fun _ => ?_
  rw [readPdata_bind_of hpdata]
  cases stop with
  | bytes =>
      refine goes_recv_bytes fun hthere => ?_
      dsimp only
      have hne : s.pending.take 10 ≠ [] := by simpa using hthere
      have hret : ((s.pending.take 10).length : ℤ) ≠ 0 := by
        rw [Nat.cast_ne_zero]
        exact (List.length_pos_of_ne_nil hne).ne'
      rw [if_neg hret]
      have hkept := h.heartbeat_bytes (hown rfl)
      exact goes_ok (hkept.of_stream_eq rfl rfl rfl hkept.closed rfl)
  | closed =>
      rw [recv, bind_bind]
      refine goes_require fun _ => goes_ok ?_
      exact h.of_stream_eq rfl rfl rfl h.closed (List.append_nil _)
  | failed => exact goes_ok (h.of_stream_eq rfl rfl rfl h.closed (List.append_nil _))

theorem begin_length (s : ClientSocket) (data : Bytes) (p : Payload) {clen : List MarkedByte}
    (hclen : clen.map MarkedByte.byte = intBytes p.data.length) :
    s.begin data (toInt32 (beNat (zeroPadded 4 (clen.map MarkedByte.byte)).reverse)) =
      ok { s with main := .body data p.data.length [] } := by
  have hpos := List.length_pos_of_ne_nil p.ne_nil
  have hread : zeroPadded 4 (intBytes p.data.length) = intBytes p.data.length :=
    zeroPadded_eq_of_le (length_intBytes _) (List.append_nil _) (length_intBytes _).ge
  have hlen : toInt32 (p.data.length : ℤ) = p.data.length := ClientFd.toInt32_length p
  rw [hclen, hread, toInt32_intBytes, hlen, begin, if_neg (by omega), if_neg (by omega),
    Int.toNat_natCast]

theorem goes_recv_length (h : s.Inv reply) {data : Bytes} (hmain : s.main = .length data)
    (hfour : 4 ≤ s.pending.length) (hreply : ∀ b ∈ s.pending.take 4, b.origin = .request) :
    Goes (s.recvdata .bytes) (Inv reply) := by
  obtain ⟨before, rest, after, hbefore, hafter, hsplit, hrest⟩ := h.expects
  rw [hmain] at hrest
  rw [recvdata, hmain]
  refine goes_recv_bytes fun _ => ?_
  have hlen : (s.pending.take 4).length = 4 := List.length_take_of_le hfour
  have hread := (take_append_stream reply s 4).trans hsplit
  obtain ⟨rfl, left, hframe, hleft⟩ := eq_nil_of_requests hreply
    (List.ne_nil_of_length_pos (by omega)) hbefore hafter hread
  have hparts : intBytes (reply data).data.length ++ (reply data).data =
      (s.pending.take 4).map MarkedByte.byte ++ left := hrest.symm.trans hframe
  obtain ⟨hclen, hdata⟩ := List.append_inj hparts (by rw [length_intBytes, List.length_map, hlen])
  dsimp only
  rw [hlen, if_neg (by norm_num), if_neg (by norm_num), begin_length _ data _ hclen.symm]
  refine goes_ok ⟨h.fdOpen, h.closed, h.taken, [], left, after, heartbeats_nil, hafter, hleft, rfl,
    ?_, rfl, hdata⟩
  rw [← hdata]
  exact (reply data).ne_nil

theorem goes_recv_byte (h : s.Inv reply) {data tbuf : Bytes} {len : ℕ}
    (hmain : s.main = .body data len tbuf) : Goes (s.recvdata .bytes) (Inv reply) := by
  obtain ⟨before, rest, after, hbefore, hafter, hsplit, hrest⟩ := h.expects
  rw [hmain] at hrest
  rw [recvdata, hmain]
  obtain ⟨rfl, hne, hlen, hdata⟩ := hrest
  obtain ⟨x, left, rfl⟩ := List.exists_cons_of_ne_nil hne
  refine goes_recv_bytes fun hthere => ?_
  obtain ⟨b, pending, hpending⟩ := List.exists_cons_of_ne_nil hthere
  have hread := (take_append_stream reply s 1).trans hsplit
  have htake : s.pending.take 1 = [b] := by rw [hpending]; rfl
  rw [htake] at hread ⊢
  obtain ⟨rfl, hleft⟩ := List.cons.inj hread
  dsimp only
  rw [List.length_singleton, if_neg (by norm_num), if_neg (by norm_num)]
  split
  · rename_i hfull
    have hnil : left = [] := by
      rw [hlen, hdata] at hfull
      simp only [List.map_cons, List.map_nil, List.length_append, List.length_cons,
        List.length_nil] at hfull
      exact List.length_eq_zero_iff.mp (by omega)
    subst hnil
    refine goes_ok ⟨h.fdOpen, h.closed, h.taken, [], [], after, heartbeats_nil, hafter, hleft, rfl,
      ?_, ?_⟩
    · rw [hlen]
    · exact hdata.symm
  · rename_i hmore
    refine goes_ok ⟨h.fdOpen, h.closed, h.taken, [], left, after, heartbeats_nil, hafter, hleft, rfl,
      ?_, hlen, ?_⟩
    · rintro rfl
      exact hmore (by rw [hlen, hdata]; rfl)
    · rw [hdata, List.append_assoc]
      rfl

theorem goes_recvdata (h : s.Inv reply) {stop : RecvEnd} (hapart : s.Apart (.recv stop)) :
    Goes (s.recvdata stop) (Inv reply) := by
  cases hmain : s.main with
  | building | returned =>
      rw [recvdata, hmain]
      exact goes_disabled
  | length data =>
      rw [Apart, hmain] at hapart
      cases stop with
      | bytes =>
          obtain ⟨hfour, hreply⟩ := hapart.2 rfl
          exact goes_recv_length h hmain hfour hreply
      | closed =>
          rw [recvdata, hmain]
          exact goes_recv_closed h (by rw [Receiving, hmain]; trivial)
      | failed => exact absurd rfl hapart.1
  | body data len tbuf =>
      rw [Apart, hmain] at hapart
      cases stop with
      | bytes => exact goes_recv_byte h hmain
      | closed =>
          rw [recvdata, hmain]
          exact goes_recv_closed h (by rw [Receiving, hmain]; trivial)
      | failed => exact absurd rfl hapart

theorem goes_step (h : s.Inv reply) {e : SocketStep} (hapart : s.Apart e) :
    Goes (s.step reply e) (Inv reply) := by
  cases e with
  | lock => exact goes_lock h
  | heartbeatSend => exact goes_heartbeatSend h hapart
  | heartbeatRecv stop => exact goes_heartbeatRecv h hapart
  | unlock => exact goes_unlock h
  | request data => exact goes_request h hapart
  | recv stop => exact goes_recvdata h hapart
  | answer => exact goes_answer h
  | arrive k => exact goes_arrive h k
  | close => exact goes_ok (h.of_stream_eq rfl rfl rfl (fun _ => hapart) rfl)
  | reuse => exact goes_ok (h.of_stream_eq rfl rfl rfl h.closed rfl)

end Steps

/-! ## Runs -/

/-- `recvdata` returns the reply to the request, and does not wait when nothing more comes; the
heartbeat thread receives bytes of empty frames only. -/
structure Sound (reply : Bytes → Payload) (s : ClientSocket) : Prop where
  returned : ∀ data len buf, s.main = .returned data len buf →
    len = (reply data).data.length ∧ buf = (reply data).data
  waits : s.Receiving → s.toServer = [] ∨ s.closed = true → s.inFlight = [] → s.pending ≠ []
  heartbeat : Heartbeats s.taken

theorem inv_connected (reply : Bytes → Payload) : connected.Inv reply :=
  ⟨rfl, by simp [connected], heartbeats_nil, [], [], [], heartbeats_nil, heartbeats_nil, rfl, rfl⟩

theorem Inv.sound {reply : Bytes → Payload} {s : ClientSocket} (h : s.Inv reply) :
    s.Sound reply := by
  obtain ⟨before, rest, after, -, -, -, hrest⟩ := h.expects
  refine ⟨fun data len buf hmain => ?_, h.not_at_end, h.taken⟩
  rw [hmain] at hrest
  exact hrest.2

/-- As long as each thread finds its own bytes, no step of the client crashes, `recvdata` returns
the reply to the request, and the heartbeat thread receives empty frames only. -/
theorem sound_of_apart (reply : Bytes → Payload) {es : List SocketStep}
    (hes : EachStep (step reply) Apart es connected) :
    (∀ kind, run (step reply) es connected ≠ fault kind) ∧
      ∀ s, run (step reply) es connected = ok s → s.Sound reply := by
  rcases goes_run (fun _ _ h hapart => goes_step h hapart) (inv_connected reply) hes with
    hdisabled | ⟨s', hrun, hinv⟩
  · rw [hdisabled]
    exact ⟨nofun, nofun⟩
  · rw [hrun]
    refine ⟨nofun, fun s hs => ?_⟩
    obtain rfl := ok.inj hs
    exact hinv.sound

instance (s : ClientSocket) : Decidable s.Answered :=
  inferInstanceAs (Decidable (∀ data ∈ s.toServer, data = []))

instance (bs : List MarkedByte) : Decidable (Heartbeats bs) :=
  inferInstanceAs (Decidable (∀ b ∈ bs, b.origin = .heartbeat))

instance (s : ClientSocket) (e : SocketStep) : Decidable (s.Apart e) :=
  match e with
  | .heartbeatSend => inferInstanceAs (Decidable (s.pdata = true))
  | .heartbeatRecv stop => inferInstanceAs
      (Decidable (s.pdata = true ∧ (stop = .bytes → Heartbeats (s.pending.take 10))))
  | .recv stop =>
      match hmain : s.main with
      | .length _ => decidable_of_iff (stop ≠ .failed ∧ (stop = .bytes →
          4 ≤ s.pending.length ∧ ∀ b ∈ s.pending.take 4, b.origin = .request)) (by rw [Apart, hmain])
      | .body _ _ _ => decidable_of_iff (stop ≠ .failed) (by rw [Apart, hmain])
      | .building | .returned _ _ _ => isTrue (by rw [Apart, hmain]; trivial)
  | .request _ => inferInstanceAs (Decidable (s.closed = false))
  | .close => inferInstanceAs (Decidable s.Answered)
  | .lock | .unlock | .answer | .arrive _ | .reuse => inferInstanceAs (Decidable True)

/-- A server that replies with one byte. -/
def replySeven (_request : Bytes) : Payload :=
  ⟨[7], by decide, by decide⟩

/-- A heartbeat, and then a request.  The server closes the connection behind its reply, and another
heartbeat finds the end. -/
def heartbeatThenRequest : List SocketStep :=
  [.lock, .heartbeatSend, .answer, .arrive 4, .heartbeatRecv .bytes, .unlock, .request [1], .answer,
    .close, .arrive 5, .recv .bytes, .recv .bytes, .lock, .heartbeatSend, .heartbeatRecv .closed]

theorem sound_of_apart_heartbeatThenRequest :
    ∃ s, run (step replySeven) heartbeatThenRequest connected = ok s ∧
      s.main = .returned [1] 1 [7] ∧ s.Sound replySeven := by
  have hapart : EachStep (step replySeven) Apart heartbeatThenRequest connected :=
    .of_test (p := fun s e => decide (s.Apart e)) (fun _ _ => of_decide_eq_true) (by decide +kernel)
  have hrun : run (step replySeven) heartbeatThenRequest connected =
      ok ⟨[], [], [], true, true, true, 1, .returned, .returned [1] 1 [7], true,
        List.replicate 4 ⟨.heartbeat, 0⟩⟩ := by
    decide +kernel
  exact ⟨_, hrun, rfl, (sound_of_apart replySeven hapart).2 _ hrun⟩

/-- A heartbeat and a request, and `recvdata` comes first. -/
def emptyFrameFirst : List SocketStep :=
  [.lock, .heartbeatSend, .request [1], .answer, .arrive 4, .recv .bytes]

/-- The answer to the heartbeat is returned for the request. -/
theorem not_sound_emptyFrameFirst :
    ∃ s, run (step replySeven) emptyFrameFirst connected = ok s ∧ ¬s.Sound replySeven := by
  refine ⟨⟨[[1]], [], [], false, true, true, 1, .waiting, .returned [1] 0 [], true, []⟩, by decide +kernel,
    fun hsound => ?_⟩
  have hreturned := (hsound.returned [1] 0 [] rfl).2
  cases hreturned

end ClientSocket

end SafeTransmission
