import SafeTransmission.Agreement.TcpSocket

/-!
# The two copies of `recvMsg`

`TcpSocket` exists in the client and in the server.  Both test the address of the variable for the
data, but the copy of the client also compares `recvLen` with `NULL`.  It is a reference, and so its
value is compared: a variable that holds `0` is refused, although `recvMsg` only assigns it.

Everything behind the tests is the same, and never refuses its parameters
(`ret_ne_paramError`).  So the copies agree, and the client's does not depend on the value, exactly
if it is not `0` (`copiesAgree_iff`).
-/

namespace SafeTransmission

open Outcome

namespace TcpSocket

/-- What a caller has when `recvMsg` returns: the code, its two variables, and the socket. -/
structure RecvMsgEnd where
  ret : ℤ
  recvData : Bytes
  recvLen : ℤ
  socket : TcpSocket
deriving DecidableEq, Repr

/-- The variables held `recvData` and `recvLen` before the call. -/
def Received.into (recvData : Bytes) (recvLen : ℤ) (r : Received) : RecvMsgEnd :=
  let (data, len) := r.output.getD (recvData, recvLen)
  ⟨r.ret, data, len, r.socket⟩

/-- A call of the client's `recvMsg` with its variables. -/
def callClient (s : TcpSocket) (recvData : Bytes) (recvLen : ℤ) (timeout : ℕ) :
    Outcome RecvMsgEnd := do
  let r ← s.recvMsgClient recvLen timeout
  ok (r.into recvData recvLen)

/-- A call of the server's. -/
def callServer (s : TcpSocket) (recvData : Bytes) (recvLen : ℤ) (timeout : ℕ) :
    Outcome RecvMsgEnd := do
  let r ← s.recvMsgServer timeout
  ok (r.into recvData recvLen)

/-- On one socket both copies return the same and assign the same, and with another value of
`recvLen` before the call that of the client does not do anything else. -/
structure CopiesAgree (s : TcpSocket) (timeout : ℕ) (recvData : Bytes) (recvLen recvLen' : ℤ) :
    Prop where
  same : s.callClient recvData recvLen timeout = s.callServer recvData recvLen timeout
  independent : s.recvMsgClient recvLen timeout = s.recvMsgClient recvLen' timeout

section Copies

variable {s : TcpSocket} {timeout : ℕ} {recvData : Bytes} {recvLen recvLen' : ℤ} {r : Received}

/-- Nothing behind the tests refuses the parameters. -/
theorem ret_ne_paramError (h : s.receive timeout = ok r) : r.ret ≠ paramError := by
  rw [receive] at h
  split at h
  · obtain rfl := ok.inj h
    exact (by decide : timeoutError ≠ paramError)
  · obtain ⟨⟨ret, netdatalen, s₁⟩, -, h⟩ := bind_eq_ok.mp h
    dsimp only at h
    split at h
    · rename_i hfailed
      obtain rfl := ok.inj h
      rw [hfailed]
      exact (by decide : (-1 : ℤ) ≠ paramError)
    split at h
    · obtain rfl := ok.inj h
      exact (by decide : peerCloseError ≠ paramError)
    split at h
    · obtain rfl := ok.inj h
      exact (by decide : mallocError ≠ paramError)
    obtain ⟨⟨ret', tmpBuf, s₂⟩, -, h⟩ := bind_eq_ok.mp h
    dsimp only at h
    split at h
    · rename_i hfailed
      obtain rfl := ok.inj h
      rw [hfailed]
      exact (by decide : (-1 : ℤ) ≠ paramError)
    split at h
    · obtain rfl := ok.inj h
      exact (by decide : peerCloseError ≠ paramError)
    split at h
    · cases h
    · obtain rfl := ok.inj h
      exact (by decide : (0 : ℤ) ≠ paramError)

theorem recvMsgClient_zero (s : TcpSocket) (timeout : ℕ) :
    s.recvMsgClient 0 timeout = ok ⟨paramError, none, s⟩ :=
  if_pos rfl

theorem recvMsgClient_of_ne (hrecvLen : recvLen ≠ 0) :
    s.recvMsgClient recvLen timeout = s.recvMsgServer timeout :=
  if_neg hrecvLen

/-- The client's copy refuses a call that the server's does not refuse. -/
theorem recvMsgClient_zero_ne : s.recvMsgClient 0 timeout ≠ s.recvMsgServer timeout := by
  rw [recvMsgClient_zero]
  intro h
  exact ret_ne_paramError h.symm rfl

theorem callClient_zero_ne : s.callClient recvData 0 timeout ≠ s.callServer recvData 0 timeout := by
  rw [callClient, recvMsgClient_zero, ok_bind]
  intro h
  obtain ⟨r, hserver, hinto⟩ := bind_eq_ok.mp h.symm
  have hret : r.ret = paramError := congrArg RecvMsgEnd.ret (ok.inj hinto)
  exact ret_ne_paramError hserver hret

end Copies

/-- The copies agree, and the value of `recvLen` does not matter, exactly if it is not zero. -/
theorem copiesAgree_iff (s : TcpSocket) (timeout : ℕ) (recvData : Bytes) (recvLen recvLen' : ℤ) :
    CopiesAgree s timeout recvData recvLen recvLen' ↔ recvLen ≠ 0 ∧ recvLen' ≠ 0 := by
  constructor
  · rintro ⟨hsame, hindependent⟩
    have hrecvLen : recvLen ≠ 0 := by
      rintro rfl
      exact callClient_zero_ne hsame
    refine ⟨hrecvLen, ?_⟩
    rintro rfl
    rw [recvMsgClient_of_ne hrecvLen] at hindependent
    exact recvMsgClient_zero_ne hindependent.symm
  · rintro ⟨hrecvLen, hrecvLen'⟩
    refine ⟨?_, ?_⟩
    · rw [callClient, recvMsgClient_of_ne hrecvLen, callServer]
    · rw [recvMsgClient_of_ne hrecvLen, recvMsgClient_of_ne hrecvLen']

/-- A socket on which the frame of one byte arrives. -/
def oneByteFrame : TcpSocket :=
  ⟨[], [], [.bytes 0 [0, 0, 1], .bytes 7 []], [], [], true⟩

/-- The server gets the byte, and the client, whose variable holds `0`, an error. -/
theorem not_copiesAgree_zero : ¬CopiesAgree oneByteFrame timeoutSeconds [] 0 0 := by
  rintro ⟨hsame, -⟩
  exact callClient_zero_ne hsame

end TcpSocket

end SafeTransmission
