import SafeTransmission.Library.ByteStream
import SafeTransmission.Library.Octets

/-!
# `TcpSocket`: messages over a stream of bytes

A message goes over the stream as a frame: its length in four octets, and the
message.  `sendMsg` writes a frame and `recvMsg` reads one; both first wait with
`select` until the socket is ready, and both work through `readn` and `writen`,
which repeat `read` and `write`.

The class exists twice, in the client and in the server.  The copies differ in the
first test of `recvMsg`, where that of the client compares the length with `NULL`.

A block of memory is allocated unless its size is a negative `int`, which is more
than `malloc` can give once it is converted to `size_t`.

## Strategy

For each function there are lemmas for the ways in which it can end, in terms of the bytes that
arrive (`carried`) and of how the stream ends (`ending`): `readn_eq`, `readn_of_lt` and
`readn_of_closed`; and `receive_eq`, `receive_of_short_header`, `receive_of_no_block` and
`receive_of_short_body`.  Other modules use only these.
-/

namespace SafeTransmission

open Outcome

/-- The answer to a `select` on one descriptor. -/
inductive Selected where
  | ready
  /-- The time is over. -/
  | expired
  | failed (errno : Errno)
deriving DecidableEq, Repr

/-- The descriptor is ready, or the call is repeated. -/
def Selected.Transient (a : Selected) : Prop :=
  a = .ready ∨ a = .failed .eintr

/-- `TcpSocket`: what the next calls of the kernel meet, and what was sent. -/
structure TcpSocket where
  /-- The answers to `select` before reading; later answers are `ready`. -/
  readable : List Selected
  /-- The answers to `select` before writing; later answers are `ready`. -/
  writable : List Selected
  incoming : List Arrival
  writes : List Acceptance
  sent : Bytes
  connected : Bool
deriving DecidableEq, Repr

namespace TcpSocket

/-! ## Codes -/

def paramError : ℤ := 3001

def timeoutError : ℤ := 3002

def peerCloseError : ℤ := 3003

def mallocError : ℤ := 3004

/-- `TIMEOUT`. -/
def timeoutSeconds : ℕ := 1000

/-! ## The functions -/

/-- The loop over `select`: `none` if the descriptor is ready, else the `errno` with
which the function returns `-1`. -/
def selectLoop : List Selected → Option Errno × List Selected
  | [] => (none, [])
  | .ready :: answers => (none, answers)
  | .expired :: answers => (some .etimedout, answers)
  | .failed .eintr :: answers => selectLoop answers
  | .failed errno :: answers => (some errno, answers)

/-- `readTimeout`. -/
def readTimeout (s : TcpSocket) (waitSeconds : ℕ) : Option Errno × TcpSocket :=
  if 0 < waitSeconds then
    ((selectLoop s.readable).1, { s with readable := (selectLoop s.readable).2 })
  else (none, s)

/-- `writeTimeout`. -/
def writeTimeout (s : TcpSocket) (waitSeconds : ℕ) : Option Errno × TcpSocket :=
  if 0 < waitSeconds then
    ((selectLoop s.writable).1, { s with writable := (selectLoop s.writable).2 })
  else (none, s)

/-- `readn` into a block of `room` bytes: what it returns, and what it stores.  The count is
converted to `size_t`. -/
def readn (s : TcpSocket) (room : ℕ) (count : ℤ) : Outcome (ℤ × Bytes × TcpSocket) := do
  let reading ← readBlock room (count % 2 ^ 64).toNat s.incoming
  let ret := match reading.stop with
    | .complete => count
    -- `count - nleft` is unsigned, and is converted to the `int` that is returned
    | .closed nleft => toInt32 (count - nleft)
    | .failed => -1
  ok (ret, reading.stored, { s with incoming := reading.incoming })

/-- `writen` of a whole block. -/
def writen (s : TcpSocket) (buf : Bytes) : ℤ × TcpSocket :=
  let writing := writeLoop buf s.sent s.writes
  (if writing.complete then buf.length else -1,
    { s with sent := writing.sent, writes := writing.writes })

/-- `sendMsg`: what it returns. -/
def sendMsg (s : TcpSocket) (sendData : Bytes) (dataLen : ℤ) (timeout : ℕ) :
    Outcome (ℤ × TcpSocket) :=
  if sendData = [] ∨ dataLen ≤ 0 then ok (paramError, s)
  else
    match s.writeTimeout timeout with
    | (some .etimedout, s) => ok (timeoutError, s)
    | (some _, s) => ok (-1, s)
    | (none, s) =>
        if toInt32 (dataLen + 4) < 0 then ok (mallocError, s)
        else do
          let data ← memcpy sendData dataLen.toNat
          let (writed, s) := s.writen (beBytes 4 dataLen.toNat ++ data)
          ok (if writed < dataLen + 4 then writed else 0, s)

/-- What `recvMsg` returns, and `*recvData` and `recvLen` if it assigns them. -/
structure Received where
  ret : ℤ
  output : Option (Bytes × ℤ)
  socket : TcpSocket
deriving DecidableEq, Repr

/-- `recvMsg` behind its first test. -/
def receive (s : TcpSocket) (timeout : ℕ) : Outcome Received :=
  match s.readTimeout timeout with
  | (some _, s) => ok ⟨timeoutError, none, s⟩
  | (none, s) => do
      let (ret, netdatalen, s) ← s.readn 4 4
      if ret = -1 then ok ⟨ret, none, s⟩
      else if ret < 4 then ok ⟨peerCloseError, none, s⟩
      else
        let n := toInt32 (beNat netdatalen)
        if toInt32 (n + 1) < 0 then ok ⟨mallocError, none, s⟩
        else do
          let (ret, tmpBuf, s) ← s.readn (n + 1).toNat n
          if ret = -1 then ok ⟨ret, none, s⟩
          else if ret < n then ok ⟨peerCloseError, none, s⟩
          else if n < 0 then fault .writeOutOfBounds
          else ok ⟨0, some (tmpBuf ++ [0], n), s⟩

/-- `recvMsg` of the server.  Its callers pass the address of a variable. -/
def recvMsgServer (s : TcpSocket) (timeout : ℕ) : Outcome Received :=
  s.receive timeout

/-- `recvMsg` of the client, where `recvLen` is the value before the call. -/
def recvMsgClient (s : TcpSocket) (recvLen : ℤ) (timeout : ℕ) : Outcome Received :=
  if recvLen = 0 then ok ⟨paramError, none, s⟩ else s.receive timeout

/-- `disConnect`. -/
def disConnect (s : TcpSocket) : TcpSocket :=
  { s with connected := false }

/-! ## Frames -/

/-- A message as it goes over the stream. -/
def frame (b : Bytes) : Bytes :=
  beBytes 4 b.length ++ b

variable {s : TcpSocket}

theorem selectLoop_eq {answers : List Selected} (h : ∀ a ∈ answers, a.Transient) :
    ∃ later, selectLoop answers = (none, later) ∧ ∀ a ∈ later, a.Transient := by
  induction answers with
  | nil => exact ⟨[], rfl, h⟩
  | cons a answers ih =>
      have hlater : ∀ a ∈ answers, a.Transient := fun a ha => h a (List.mem_cons_of_mem _ ha)
      rcases h a List.mem_cons_self with rfl | rfl
      · exact ⟨answers, rfl, hlater⟩
      · exact ih hlater

theorem readTimeout_eq (h : ∀ a ∈ s.readable, a.Transient) (waitSeconds : ℕ) :
    ∃ readable, s.readTimeout waitSeconds = (none, { s with readable := readable }) ∧
      ∀ a ∈ readable, a.Transient := by
  obtain ⟨later, hloop, hlater⟩ := selectLoop_eq h
  unfold readTimeout
  split
  · exact ⟨later, by rw [hloop], hlater⟩
  · exact ⟨s.readable, rfl, h⟩

theorem readTimeout_snd (s : TcpSocket) (waitSeconds : ℕ) :
    ∃ readable, (s.readTimeout waitSeconds).2 = { s with readable := readable } := by
  unfold readTimeout
  split
  · exact ⟨_, rfl⟩
  · exact ⟨s.readable, rfl⟩

theorem writeTimeout_eq (h : ∀ a ∈ s.writable, a.Transient) (waitSeconds : ℕ) :
    ∃ writable, s.writeTimeout waitSeconds = (none, { s with writable := writable }) ∧
      ∀ a ∈ writable, a.Transient := by
  obtain ⟨later, hloop, hlater⟩ := selectLoop_eq h
  unfold writeTimeout
  split
  · exact ⟨later, by rw [hloop], hlater⟩
  · exact ⟨s.writable, rfl, h⟩

theorem readn_eq {n : ℕ} {b rest : Bytes} (hb : b.length = n) (hn : n < 2 ^ 63)
    (hcarried : carried s.incoming = b ++ rest) {room : ℕ} (hroom : n ≤ room) :
    ∃ incoming, s.readn room n = ok ((n : ℤ), b, { s with incoming := incoming }) ∧
      carried incoming = rest ∧ ending incoming = ending s.incoming := by
  have hcount : ((n : ℤ) % 2 ^ 64).toNat = n := by omega
  have hsize : n ≤ ssizeMax := Nat.le_pred_of_lt hn
  obtain ⟨incoming, hread, hrest, hending⟩ := @readLoop_eq room n [] s.incoming
    (by rw [hcarried, List.length_append]; omega) (by simpa using hroom)
  refine ⟨incoming, ?_, ?_, hending⟩
  · rw [readn, hcount, readBlock_of_le hsize, hread, hcarried, ← hb, List.take_left]
    rfl
  · rw [hrest, hcarried, ← hb, List.drop_left]

/-- `readn` where too few bytes arrive, if there is room for them. -/
theorem readn_of_lt {room size : ℕ} {count : ℤ} (hsize : (count % 2 ^ 64).toNat = size)
    (hle : size ≤ ssizeMax) (hlt : (carried s.incoming).length < size)
    (hroom : (carried s.incoming).length ≤ room) :
    match ending s.incoming with
    | .silent => s.readn room count = fault .diverges
    | .closed => ∃ incoming, s.readn room count =
        ok (toInt32 (count - (size - (carried s.incoming).length : ℕ)), carried s.incoming,
          { s with incoming := incoming })
    | .failed _ => ∃ incoming, s.readn room count =
        ok (-1, carried s.incoming, { s with incoming := incoming }) := by
  have hread := @readLoop_of_lt room size [] s.incoming hlt (by rwa [List.length_nil, Nat.zero_add])
  rw [readn, hsize, readBlock_of_le hle]
  cases hending : ending s.incoming with
  | silent =>
      rw [hending] at hread
      dsimp only at hread ⊢
      rw [hread, fault_bind]
  | closed =>
      rw [hending] at hread
      obtain ⟨incoming, hread⟩ := hread
      exact ⟨incoming, by rw [hread, ok_bind, List.nil_append]⟩
  | failed errno =>
      rw [hending] at hread
      obtain ⟨incoming, hread⟩ := hread
      exact ⟨incoming, by rw [hread, ok_bind, List.nil_append]⟩

/-- `readn` of a stream that ends too early returns how many bytes came. -/
theorem readn_of_closed {n room : ℕ} (hlt : (carried s.incoming).length < n) (hsize : n < 2 ^ 31)
    (hroom : n ≤ room) (hending : ending s.incoming = .closed) :
    ∃ incoming, s.readn room n =
      ok (((carried s.incoming).length : ℤ), carried s.incoming, { s with incoming := incoming }) := by
  have hcount : ((n : ℤ) % 2 ^ 64).toNat = n := by omega
  have hsize' : n ≤ ssizeMax := by
    rw [ssizeMax]
    omega
  have hread := @readn_of_lt s room n n hcount hsize' hlt (by omega)
  have hret : toInt32 ((n : ℤ) - ((n - (carried s.incoming).length : ℕ) : ℤ)) =
      (carried s.incoming).length := by
    rw [Nat.cast_sub hlt.le, sub_sub_cancel]
    exact toInt32_of_range (by omega) (by omega)
  rw [hending] at hread
  dsimp only at hread
  rwa [hret] at hread

/-- `sendMsg` puts the frame of the message behind what was sent. -/
theorem sendMsg_eq {b : Bytes} (hne : b ≠ []) (hlen : b.length < 2 ^ 31 - 4)
    (hwritable : ∀ a ∈ s.writable, a.Transient) (hwrites : ∀ a ∈ s.writes, a.Transient)
    (timeout : ℕ) :
    ∃ writable writes, s.sendMsg b b.length timeout =
        ok (0, { s with writable := writable, writes := writes, sent := s.sent ++ frame b }) ∧
      (∀ a ∈ writable, a.Transient) ∧ ∀ a ∈ writes, a.Transient := by
  obtain ⟨writable, hwait, hwritable'⟩ := writeTimeout_eq hwritable timeout
  obtain ⟨writes, hwrite, hwrites'⟩ := @writeLoop_eq (frame b) s.sent s.writes hwrites
  have hpos : ¬(b = [] ∨ (b.length : ℤ) ≤ 0) := by
    rintro (rfl | hle)
    · exact hne rfl
    · exact hne (List.length_eq_zero_iff.mp (by omega))
  have hmalloc : ¬toInt32 ((b.length : ℤ) + 4) < 0 := by
    rw [toInt32_of_range (by omega) (by omega)]
    omega
  have hframe : beBytes 4 (b.length : ℤ).toNat ++ b = frame b := rfl
  have htotal : ((frame b).length : ℤ) = b.length + 4 := by
    simp [frame]
    omega
  refine ⟨writable, writes, ?_, hwritable', hwrites'⟩
  rw [sendMsg, if_neg hpos, hwait]
  simp only [if_neg hmalloc, Int.toNat_natCast, memcpy_self, ok_bind, writen]
  rw [show beBytes 4 b.length ++ b = frame b from rfl, hwrite]
  simp [htotal]

theorem exists_sendMsg (s : TcpSocket) (b : Bytes) (timeout : ℕ) :
    ∃ sent, s.sendMsg b b.length timeout = ok sent := by
  rw [sendMsg]
  split
  · exact ⟨_, rfl⟩
  · split
    · exact ⟨_, rfl⟩
    · exact ⟨_, rfl⟩
    · split
      · exact ⟨_, rfl⟩
      · rw [Int.toNat_natCast, memcpy_self]
        exact ⟨_, rfl⟩

theorem receive_of_header_failed {s₁ s₂ : TcpSocket} {b : Bytes} {timeout : ℕ}
    (hwait : s.readTimeout timeout = (none, s₁)) (hheader : s₁.readn 4 4 = ok (-1, b, s₂)) :
    s.receive timeout = ok ⟨-1, none, s₂⟩ := by
  rw [receive, hwait]
  dsimp only
  rw [hheader, ok_bind]
  dsimp only
  rw [if_pos rfl]

theorem receive_of_header_fault {s₁ : TcpSocket} {kind : Fault} {timeout : ℕ}
    (hwait : s.readTimeout timeout = (none, s₁)) (hheader : s₁.readn 4 4 = fault kind) :
    s.receive timeout = fault kind := by
  rw [receive, hwait]
  dsimp only
  rw [hheader, fault_bind]

theorem receive_of_short_header {s₁ s₂ : TcpSocket} {b : Bytes} {ret : ℤ} {timeout : ℕ}
    (hwait : s.readTimeout timeout = (none, s₁)) (hheader : s₁.readn 4 4 = ok (ret, b, s₂))
    (hnonneg : 0 ≤ ret) (hret : ret < 4) :
    s.receive timeout = ok ⟨peerCloseError, none, s₂⟩ := by
  rw [receive, hwait]
  dsimp only
  rw [hheader, ok_bind]
  dsimp only
  rw [if_neg (by omega), if_pos hret]

theorem receive_of_no_block {s₁ s₂ : TcpSocket} {netdatalen : Bytes} {timeout : ℕ}
    (hwait : s.readTimeout timeout = (none, s₁)) (hheader : s₁.readn 4 4 = ok (4, netdatalen, s₂))
    (hsize : toInt32 (toInt32 (beNat netdatalen) + 1) < 0) :
    s.receive timeout = ok ⟨mallocError, none, s₂⟩ := by
  rw [receive, hwait]
  dsimp only
  rw [hheader, ok_bind]
  dsimp only
  rw [if_neg (by norm_num : ¬(4 : ℤ) = -1), if_neg (by norm_num : ¬(4 : ℤ) < 4), if_pos hsize]

/-- What `recvMsg` does behind a header `n` for which it gets a block. -/
theorem receive_of_header {s₁ s₂ : TcpSocket} {netdatalen : Bytes} {n : ℤ} {timeout : ℕ}
    (hwait : s.readTimeout timeout = (none, s₁)) (hheader : s₁.readn 4 4 = ok (4, netdatalen, s₂))
    (hn : toInt32 (beNat netdatalen) = n) (hsize : ¬toInt32 (n + 1) < 0) :
    s.receive timeout = (do
      let (ret, tmpBuf, s) ← s₂.readn (n + 1).toNat n
      if ret = -1 then ok ⟨ret, none, s⟩
      else if ret < n then ok ⟨peerCloseError, none, s⟩
      else if n < 0 then fault .writeOutOfBounds
      else ok ⟨0, some (tmpBuf ++ [0], n), s⟩) := by
  rw [receive, hwait]
  dsimp only
  rw [hheader, ok_bind]
  dsimp only
  rw [if_neg (by norm_num : ¬(4 : ℤ) = -1), if_neg (by norm_num : ¬(4 : ℤ) < 4), hn, if_neg hsize]

theorem malloc_of_lt {n : ℤ} (hnonneg : -1 ≤ n) (hmalloc : n < 2 ^ 31 - 1) :
    ¬toInt32 (n + 1) < 0 := by
  rw [toInt32_of_range (by omega) (by omega)]
  omega

/-- `recvMsg` returns zero after it has read a header, and as many bytes as it says. -/
theorem receive_of_reads {s₁ s₂ s₃ : TcpSocket} {netdatalen tmpBuf : Bytes} {n : ℤ} {timeout : ℕ}
    (hwait : s.readTimeout timeout = (none, s₁)) (hheader : s₁.readn 4 4 = ok (4, netdatalen, s₂))
    (hn : toInt32 (beNat netdatalen) = n) (hnonneg : 0 ≤ n) (hmalloc : n < 2 ^ 31 - 1)
    (hbody : s₂.readn (n + 1).toNat n = ok (n, tmpBuf, s₃)) :
    s.receive timeout = ok ⟨0, some (tmpBuf ++ [0], n), s₃⟩ := by
  rw [receive_of_header hwait hheader hn (malloc_of_lt (by omega) hmalloc), hbody, ok_bind]
  dsimp only
  rw [if_neg (by omega), if_neg (lt_irrefl n), if_neg (by omega)]

/-- `recvMsg` is told of the end of the stream if fewer bytes come than the header says. -/
theorem receive_of_short_body {s₁ s₂ s₃ : TcpSocket} {netdatalen b : Bytes} {n ret : ℤ}
    {timeout : ℕ} (hwait : s.readTimeout timeout = (none, s₁))
    (hheader : s₁.readn 4 4 = ok (4, netdatalen, s₂)) (hn : toInt32 (beNat netdatalen) = n)
    (hmalloc : n < 2 ^ 31 - 1) (hbody : s₂.readn (n + 1).toNat n = ok (ret, b, s₃))
    (hnonneg : 0 ≤ ret) (hret : ret < n) :
    s.receive timeout = ok ⟨peerCloseError, none, s₃⟩ := by
  rw [receive_of_header hwait hheader hn (malloc_of_lt (by omega) hmalloc), hbody, ok_bind]
  dsimp only
  rw [if_neg (by omega), if_pos hret]

theorem receive_eq {b rest : Bytes} (hlen : b.length < 2 ^ 31 - 1)
    (hreadable : ∀ a ∈ s.readable, a.Transient) (hcarried : carried s.incoming = frame b ++ rest)
    (timeout : ℕ) :
    ∃ readable incoming, s.receive timeout = ok ⟨0, some (b ++ [0], b.length),
        { s with readable := readable, incoming := incoming }⟩ ∧ carried incoming = rest ∧
      ending incoming = ending s.incoming ∧ ∀ a ∈ readable, a.Transient := by
  obtain ⟨readable, hwait, hreadable'⟩ := readTimeout_eq hreadable timeout
  rw [frame, List.append_assoc] at hcarried
  obtain ⟨incoming₁, hheader, hcarried₁, hending₁⟩ :=
    @readn_eq { s with readable := readable } 4 _ _ (length_beBytes 4 b.length) (by norm_num)
      hcarried 4 le_rfl
  obtain ⟨incoming, hbody, hrest, hending⟩ :=
    @readn_eq { s with readable := readable, incoming := incoming₁ } b.length b rest rfl (by omega)
      hcarried₁ (b.length + 1) (Nat.le_succ _)
  have hn : toInt32 (beNat (beBytes 4 b.length)) = b.length := by
    rw [beNat_beBytes_of_lt (by norm_num; omega), toInt32_of_range (by omega) (by omega)]
  have hroom : ((b.length : ℤ) + 1).toNat = b.length + 1 := by omega
  refine ⟨readable, incoming, ?_, hrest, hending.trans hending₁, hreadable'⟩
  apply receive_of_reads hwait hheader hn (by omega) (by omega)
  rw [hroom]
  exact hbody

end TcpSocket

/-! ## Reliable channels -/

/-- One direction of a connection that loses nothing and is not kept waiting for too
long: how its writer is served, and how its reader gets the bytes that were written.
The bytes arrive in any pieces, and signals may interrupt both sides. -/
structure Channel where
  writable : List Selected
  writes : List Acceptance
  readable : List Selected
  deliver : Bytes → List Arrival
  writable_transient : ∀ a ∈ writable, a.Transient
  writes_transient : ∀ a ∈ writes, a.Transient
  readable_transient : ∀ a ∈ readable, a.Transient
  carried_deliver : ∀ b, carried (deliver b) = b

/-- A channel that a signal interrupts once, and that takes and delivers single bytes. -/
def Channel.bytewise : Channel where
  writable := [.failed .eintr]
  writes := [.failed .eintr, .accepted 0, .accepted 1]
  readable := [.ready]
  deliver b := .failed .eintr :: b.map fun c => .bytes c []
  writable_transient := by simp [Selected.Transient]
  writes_transient := by simp [Acceptance.Transient]
  readable_transient := by simp [Selected.Transient]
  carried_deliver b := by simpa [carried] using carried_map_bytes b []

end SafeTransmission
