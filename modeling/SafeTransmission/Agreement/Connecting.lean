import SafeTransmission.Agreement.TcpSocket

/-!
# Accepting and connecting with a timeout

`TcpServer::acceptTimeout` waits with `select`, and calls `accept` when a connection is there.  It
returns `-1` where the waiting fails, but `errno` where `accept` does.  `acceptConn` only takes a
negative number for a failure, and so makes a socket of the number of an error.  It returns the
accepted connection exactly if `accept` is not called, or does not fail (`wrapsAccepted_iff`).

`TcpSocket::connectTimeout` sets `O_NONBLOCK` before `connect` if there is a timeout, and clears it
in its last lines.  Where `select` fails, or `getsockopt`, it returns before them.  All results are
right, but the socket is left in blocking mode exactly if it does not return there
(`connectsBlocking_iff`).  The names of `blockIO` and `noBlockIO` are the wrong way round.

## Strategy

Both functions are straight-line code, so each result is one lemma for each way out: with a
connection or without (`acceptTimeout_of_reaches`, `acceptTimeout_of_not_reaches`), and through the
last lines or past them (`flags_of_breaks`, `flags_of_not_breaks`).
-/

namespace SafeTransmission

/-- The answer that ends the loop over `select`, which is repeated after a signal. -/
def selectAnswer : List Selected → Selected
  | [] => .ready
  | .failed .eintr :: answers => selectAnswer answers
  | answer :: _ => answer

/-! ## `TcpServer` -/

/-- What `accept` returns: a descriptor, or `-1` with `errno`. -/
inductive Accepted where
  | connection (fd : ℕ)
  | failed (errno : ℕ)
deriving DecidableEq, Repr

namespace TcpServer

/-- What `acceptTimeout` returns, and what `accept` has returned if it was called. -/
structure AcceptEnd where
  ret : ℤ
  accepted : Option Accepted
deriving DecidableEq, Repr

/-- The end of `acceptTimeout`, where `accept` gives `answer`. -/
def accept (answer : Accepted) : AcceptEnd :=
  match answer with
  | .connection fd => ⟨fd, some answer⟩
  | .failed errno => ⟨errno, some answer⟩

/-- `acceptTimeout`. -/
def acceptTimeout (answers : List Selected) (answer : Accepted) (waitSeconds : ℤ) : AcceptEnd :=
  if 0 < waitSeconds then
    match selectAnswer answers with
    | .ready => accept answer
    | .expired => ⟨-1, none⟩
    | .failed _ => ⟨-1, none⟩
  else accept answer

/-- `acceptConn`: the descriptor in the new `TcpSocket`, or `NULL`. -/
def acceptConn (answers : List Selected) (answer : Accepted) (timeout : ℤ) : Option ℤ :=
  let connfd := (acceptTimeout answers answer timeout).ret
  if connfd < 0 then none else some connfd

/-- The waiting ends with a connection, or there is none. -/
def Reaches (answers : List Selected) (waitSeconds : ℤ) : Prop :=
  0 < waitSeconds → selectAnswer answers = .ready

/-- A socket is returned exactly if `accept` has returned a descriptor, and wraps this one. -/
def WrapsAccepted (answers : List Selected) (answer : Accepted) (timeout : ℤ) : Prop :=
  ∀ connfd : ℤ, acceptConn answers answer timeout = some connfd ↔
    ∃ fd : ℕ, (acceptTimeout answers answer timeout).accepted = some (.connection fd) ∧ connfd = fd

section Accepting

variable {answers : List Selected} {answer : Accepted} {waitSeconds : ℤ}

theorem acceptTimeout_of_reaches (h : Reaches answers waitSeconds) :
    acceptTimeout answers answer waitSeconds = accept answer := by
  rw [acceptTimeout]
  split
  · rename_i hwait
    rw [h hwait]
  · rfl

theorem acceptTimeout_of_not_reaches (h : ¬Reaches answers waitSeconds) :
    acceptTimeout answers answer waitSeconds = ⟨-1, none⟩ := by
  obtain ⟨hwait, hanswer⟩ := Classical.not_imp.mp h
  rw [acceptTimeout, if_pos hwait]
  split
  · rename_i hready
    exact absurd hready hanswer
  · rfl
  · rfl

theorem acceptConn_of_failed {errno : ℕ} (h : Reaches answers waitSeconds) :
    acceptConn answers (.failed errno) waitSeconds = some errno := by
  rw [acceptConn, acceptTimeout_of_reaches h]
  exact if_neg (by simp [accept])

theorem acceptConn_of_connection {fd : ℕ} (h : Reaches answers waitSeconds) :
    acceptConn answers (.connection fd) waitSeconds = some fd := by
  rw [acceptConn, acceptTimeout_of_reaches h]
  exact if_neg (by simp [accept])

theorem acceptConn_of_not_reaches (h : ¬Reaches answers waitSeconds) :
    acceptConn answers answer waitSeconds = none := by
  rw [acceptConn, acceptTimeout_of_not_reaches h]
  rfl

end Accepting

/-- The accepted connection is returned, and nothing else, exactly if `accept` is not reached or
does not fail. -/
theorem wrapsAccepted_iff (answers : List Selected) (answer : Accepted) (timeout : ℤ) :
    WrapsAccepted answers answer timeout ↔
      ¬(Reaches answers timeout ∧ ∃ errno, answer = .failed errno) := by
  constructor
  · rintro hwraps ⟨hreaches, errno, rfl⟩
    obtain ⟨fd, haccepted, -⟩ := (hwraps errno).mp (acceptConn_of_failed hreaches)
    rw [acceptTimeout_of_reaches hreaches] at haccepted
    cases haccepted
  · intro hnot connfd
    by_cases hreaches : Reaches answers timeout
    · cases answer with
      | failed errno => exact absurd ⟨hreaches, errno, rfl⟩ hnot
      | connection fd =>
          rw [acceptConn_of_connection hreaches, acceptTimeout_of_reaches hreaches]
          constructor
          · intro h
            exact ⟨fd, rfl, (Option.some.inj h).symm⟩
          · rintro ⟨fd', haccepted, rfl⟩
            cases haccepted
            rfl
    · rw [acceptConn_of_not_reaches hreaches, acceptTimeout_of_not_reaches hreaches]
      constructor
      · intro h
        cases h
      · rintro ⟨fd, haccepted, -⟩
        cases haccepted

/-- `accept` fails with `EMFILE`, after a signal and a wait of the length that the server uses. -/
theorem not_wrapsAccepted_emfile :
    ¬WrapsAccepted [.failed .eintr, .ready] (.failed 24) 5 := by
  intro hwraps
  obtain ⟨fd, haccepted, -⟩ := (hwraps 24).mp rfl
  cases haccepted

end TcpServer

/-! ## `connectTimeout` -/

/-- What `connect` returns: `0`, or `-1` with `errno`. -/
inductive Connected where
  | established
  /-- `EINPROGRESS`. -/
  | inProgress
  | failed (errno : Errno)
deriving DecidableEq, Repr

/-- What `getsockopt` returns: `0` with the error of the socket, if there is one, or `-1`. -/
inductive SocketError where
  | value (err : Option Errno)
  | failed (errno : Errno)
deriving DecidableEq, Repr

/-- What the calls of `connectTimeout` meet. -/
structure Connecting where
  connect : Connected
  /-- The answers to `select`; later answers are `ready`. -/
  writable : List Selected
  socketError : SocketError
deriving DecidableEq, Repr

namespace Connecting

/-- There is a connection when the calls are over: at once, or when the socket is writable, and
without an error. -/
def Established (x : Connecting) : Prop :=
  x.connect = .established ∨
    x.connect = .inProgress ∧ selectAnswer x.writable = .ready ∧ x.socketError = .value none

/-- `O_NONBLOCK`. -/
def nonblock : BitVec 32 := 0x800

/-- The flags of a descriptor in blocking mode. -/
def Blocking (flags : BitVec 32) : Prop :=
  flags &&& nonblock = 0
deriving Decidable

/-- `blockIO`, on the flags of the descriptor. -/
def blockIo (flags : BitVec 32) : BitVec 32 :=
  flags ||| nonblock

/-- `noBlockIO`. -/
def noBlockIo (flags : BitVec 32) : BitVec 32 :=
  flags &&& ~~~nonblock

/-- What `connectTimeout` returns, `errno`, if a call has set it, and the descriptor's flags. -/
structure ConnectEnd where
  ret : ℤ
  errno : Option Errno
  flags : BitVec 32
deriving DecidableEq, Repr

/-- The last lines of `connectTimeout`. -/
def restore (waitSeconds : ℕ) (flags : BitVec 32) (ret : ℤ) (errno : Option Errno) : ConnectEnd :=
  ⟨ret, errno, if 0 < waitSeconds then noBlockIo flags else flags⟩

/-- `connectTimeout` behind `connect`. -/
def finish (x : Connecting) (waitSeconds : ℕ) (flags : BitVec 32) : ConnectEnd :=
  match x.connect with
  | .established => restore waitSeconds flags 0 none
  | .failed errno => restore waitSeconds flags (-1) (some errno)
  | .inProgress =>
      match selectAnswer x.writable with
      | .expired => restore waitSeconds flags (-1) (some .etimedout)
      | .failed errno => ⟨-1, some errno, flags⟩
      | .ready =>
          match x.socketError with
          | .failed errno => ⟨-1, some errno, flags⟩
          | .value none => restore waitSeconds flags 0 none
          | .value (some errno) => restore waitSeconds flags (-1) (some errno)

/-- `connectTimeout` on a descriptor with these flags. -/
def connectTimeout (x : Connecting) (waitSeconds : ℕ) (flags : BitVec 32) : ConnectEnd :=
  x.finish waitSeconds (if 0 < waitSeconds then blockIo flags else flags)

/-- `select` or `getsockopt` fails while the connection is being made. -/
def Breaks (x : Connecting) : Prop :=
  x.connect = .inProgress ∧ ((∃ errno, selectAnswer x.writable = .failed errno) ∨
    selectAnswer x.writable = .ready ∧ ∃ errno, x.socketError = .failed errno)

/-- `0` is returned for a connection and `-1` otherwise, `errno` tells of a wait that has expired,
and the socket is in blocking mode. -/
structure ConnectsBlocking (x : Connecting) (waitSeconds : ℕ) (flags : BitVec 32) : Prop where
  ret_eq_zero_iff : (x.connectTimeout waitSeconds flags).ret = 0 ↔ x.Established
  ret_eq_neg_one_iff : (x.connectTimeout waitSeconds flags).ret = -1 ↔ ¬x.Established
  timedOut : x.connect = .inProgress → selectAnswer x.writable = .expired →
    (x.connectTimeout waitSeconds flags).errno = some .etimedout
  blocking : Blocking (x.connectTimeout waitSeconds flags).flags

section Connect

variable {x : Connecting} {waitSeconds : ℕ} {flags : BitVec 32}

theorem blocking_noBlockIo (flags : BitVec 32) : Blocking (noBlockIo flags) := by
  have hclear : ~~~nonblock &&& nonblock = 0 := by decide
  rw [Blocking, noBlockIo, BitVec.and_assoc, hclear]
  exact BitVec.and_zero

theorem not_blocking_blockIo (flags : BitVec 32) : ¬Blocking (blockIo flags) := by
  intro h
  have hset : nonblock[11] = true := by decide
  have hbit := congrArg (·[11]) h
  simp [blockIo, hset] at hbit

theorem ret_finish (x : Connecting) (waitSeconds : ℕ) (flags : BitVec 32) :
    (x.finish waitSeconds flags).ret = 0 ∧ x.Established ∨
      (x.finish waitSeconds flags).ret = -1 ∧ ¬x.Established := by
  rw [finish, Established]
  cases hconnect : x.connect with
  | established => exact Or.inl ⟨rfl, Or.inl rfl⟩
  | failed errno => exact Or.inr ⟨rfl, by simp⟩
  | inProgress =>
      dsimp only
      cases hselect : selectAnswer x.writable with
      | expired => exact Or.inr ⟨rfl, by simp⟩
      | failed errno => exact Or.inr ⟨rfl, by simp⟩
      | ready =>
          dsimp only
          rcases hsocket : x.socketError with (_ | errno) | errno
          · exact Or.inl ⟨rfl, by simp⟩
          · exact Or.inr ⟨rfl, by simp⟩
          · exact Or.inr ⟨rfl, by simp⟩

theorem errno_finish (hconnect : x.connect = .inProgress)
    (hselect : selectAnswer x.writable = .expired) :
    (x.finish waitSeconds flags).errno = some .etimedout := by
  rw [finish, hconnect]
  dsimp only
  rw [hselect]
  rfl

theorem flags_of_breaks (h : x.Breaks) : (x.finish waitSeconds flags).flags = flags := by
  obtain ⟨hconnect, ⟨errno, hselect⟩ | ⟨hselect, errno, hsocket⟩⟩ := h
  · rw [finish, hconnect]
    dsimp only
    rw [hselect]
  · rw [finish, hconnect]
    dsimp only
    rw [hselect]
    dsimp only
    rw [hsocket]

/-- Everywhere else the last lines are reached. -/
theorem flags_of_not_breaks (h : ¬x.Breaks) : (x.finish waitSeconds flags).flags =
    if 0 < waitSeconds then noBlockIo flags else flags := by
  rw [finish]
  cases hconnect : x.connect with
  | established => rfl
  | failed errno => rfl
  | inProgress =>
      dsimp only
      cases hselect : selectAnswer x.writable with
      | expired => rfl
      | failed errno => exact absurd ⟨hconnect, Or.inl ⟨errno, hselect⟩⟩ h
      | ready =>
          dsimp only
          rcases hsocket : x.socketError with (_ | errno) | errno
          · rfl
          · rfl
          · exact absurd ⟨hconnect, Or.inr ⟨hselect, errno, hsocket⟩⟩ h

end Connect

/-- The flags of a new socket, which is in blocking mode. -/
structure NewSocket where
  flags : BitVec 32
  blocking : Blocking flags

/-- A new socket is connected as it should be, and in blocking mode afterwards, exactly if there is
no timeout, or neither `select` nor `getsockopt` fails. -/
theorem connectsBlocking_iff (x : Connecting) (waitSeconds : ℕ) (socket : NewSocket) :
    ConnectsBlocking x waitSeconds socket.flags ↔ ¬(0 < waitSeconds ∧ x.Breaks) := by
  constructor
  · rintro ⟨-, -, -, hblocking⟩ ⟨hwait, hbreaks⟩
    rw [connectTimeout, flags_of_breaks hbreaks, if_pos hwait] at hblocking
    exact not_blocking_blockIo _ hblocking
  · intro hnot
    rw [not_and] at hnot
    have hret := x.ret_finish waitSeconds
      (if 0 < waitSeconds then blockIo socket.flags else socket.flags)
    refine ⟨?_, ?_, fun hconnect hselect => errno_finish hconnect hselect, ?_⟩
    · rcases hret with ⟨hret, hestablished⟩ | ⟨hret, hnone⟩
      · exact iff_of_true hret hestablished
      · exact iff_of_false (by rw [connectTimeout, hret]; decide) hnone
    · rcases hret with ⟨hret, hestablished⟩ | ⟨hret, hnone⟩
      · exact iff_of_false (by rw [connectTimeout, hret]; decide) (not_not_intro hestablished)
      · exact iff_of_true hret hnone
    · rw [connectTimeout]
      by_cases hwait : 0 < waitSeconds
      · rw [flags_of_not_breaks (hnot hwait), if_pos hwait]
        exact blocking_noBlockIo _
      · have hsame : (x.finish waitSeconds socket.flags).flags = socket.flags := by
          by_cases hbreaks : x.Breaks
          · exact flags_of_breaks hbreaks
          · rw [flags_of_not_breaks hbreaks, if_neg hwait]
        rw [if_neg hwait, hsame]
        exact socket.blocking

/-- `select` fails with an error other than `EINTR`. -/
def selectFails : Connecting :=
  ⟨.inProgress, [.failed .eintr, .failed .other], .value none⟩

/-- The socket of `selectFails` stays in non-blocking mode. -/
theorem not_connectsBlocking_selectFails :
    ¬ConnectsBlocking selectFails TcpSocket.timeoutSeconds (NewSocket.mk 2 (by decide)).flags := by
  rintro ⟨-, -, -, hblocking⟩
  revert hblocking
  decide

end Connecting

end SafeTransmission
