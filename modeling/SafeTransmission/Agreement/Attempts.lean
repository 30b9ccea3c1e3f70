import SafeTransmission.Agreement.CleanUp
import SafeTransmission.Agreement.KeyAgreement
import SafeTransmission.Library.Runs

/-!
# Attempts of a client

`ClientOperation::secKeyAgree` throws away what `connectToHost`, `sendMsg` and `recvMsg`
return, and takes every `rv` but `-1` for a success.  A call that fails therefore ends well
only by chance.  With `rv = -1` it returns before `disConnect`, and the socket stays open.

An attempt is a call with whatever the network does in it.  Every call of a run reports its
failure, leaves the shared memory alone then and closes the socket that it has opened, exactly
if every call gets a response, and the response is either a success after no failure or a
refusal over a socket that the call has not opened (`atomic_iff`).

## Strategy

* `secKeyAgree_eq_parts` cuts a call into its parts: the encoding of the request, the exchange, the
  decoding, and what the client does with the response.
* Without a message there is nothing to decode (`decodeResponse_of_none`), and sockets stay open in
  between (`exchange_inv`), so only the last part can close the socket (`acceptResponse_inv`).
* `atomic_iff_answered` is the equivalence for one call.  A call that is answered so leaves a client
  with a table in order (`sound_call`), so it goes on along a run.
-/

namespace SafeTransmission

open Outcome Codec

/-! ## Sockets stay open -/

namespace TcpSocket

variable {s s' : TcpSocket} {timeout : ℕ}

theorem connected_sendMsg {sendData : Bytes} {dataLen ret : ℤ}
    (hsend : s.sendMsg sendData dataLen timeout = ok (ret, s')) : s'.connected = s.connected := by
  have hwait : (s.writeTimeout timeout).2.connected = s.connected := by
    unfold writeTimeout
    split
    · rfl
    · rfl
  generalize hstate : s.writeTimeout timeout = state at hwait
  obtain ⟨expired, s₁⟩ := state
  dsimp only at hwait
  rw [sendMsg, hstate] at hsend
  split at hsend
  · cases hsend
    rfl
  · cases expired with
    | some errno =>
        cases errno <;> · cases hsend; exact hwait
    | none =>
        dsimp only at hsend
        split at hsend
        · cases hsend
          exact hwait
        · obtain ⟨data, -, hsend⟩ := bind_eq_ok.mp hsend
          cases hsend
          exact hwait

theorem connected_readn {room : ℕ} {count ret : ℤ} {b : Bytes}
    (hread : s.readn room count = ok (ret, b, s')) : s'.connected = s.connected := by
  obtain ⟨reading, -, hread⟩ := bind_eq_ok.mp hread
  cases hread
  rfl

theorem connected_receive {received : Received} (hreceive : s.receive timeout = ok received) :
    received.socket.connected = s.connected := by
  obtain ⟨readable, hkept⟩ := readTimeout_snd s timeout
  generalize hstate : s.readTimeout timeout = state at hkept
  obtain ⟨expired, s₁⟩ := state
  dsimp only at hkept
  obtain rfl := hkept
  rw [receive, hstate] at hreceive
  cases expired with
  | some errno =>
      cases hreceive
      rfl
  | none =>
      obtain ⟨⟨ret, netdatalen, s₂⟩, hheader, hreceive⟩ := bind_eq_ok.mp hreceive
      have hfirst := connected_readn hheader
      dsimp only at hreceive
      split_ifs at hreceive
      · cases hreceive
        exact hfirst
      · cases hreceive
        exact hfirst
      · cases hreceive
        exact hfirst
      all_goals
        obtain ⟨⟨ret', tmpBuf, s₃⟩, hbody, hreceive⟩ := bind_eq_ok.mp hreceive
        have hsecond := (connected_readn hbody).trans hfirst
        dsimp only at hreceive
        split_ifs at hreceive
        all_goals
          cases hreceive
          exact hsecond

end TcpSocket

/-! ## The parts of a call -/

/-- A call of `secKeyAgree` of the client: its memory, its random numbers, and what
`connectToHost` returns and leaves.  With `ParamError` it leaves the socket of an earlier
call. -/
structure Attempt where
  memory : ClientMemory
  rand : ℕ → ℕ
  connectRet : ℤ
  socket : TcpSocket
  /-- Whether `connectToHost` has opened the socket. -/
  opened : Bool
  connected_of_opened : opened = true → socket.connected = true
  arriving : Bytes → List Arrival

namespace Attempt

/-- The connection, whatever `connectToHost` returns. -/
def connection (x : Attempt) : Connection where
  socket := x.socket
  arriving sent := ok (x.arriving sent)

/-- The request and its encoding: steps 1 and 2. -/
def encodeRequest (h : Hashes) (mInfo : ClientInfo) (x : Attempt) :
    Outcome (RequestMsg × Bytes × ℤ) := do
  let reqMsg ← ClientOperation.request h mInfo x.rand x.memory.reqMsg
  let codec ← RequestCodec.ofMsg .seckey x.memory.requestCodec reqMsg
  let encoded ← RequestCodec.msgEncode .seckey codec
  ok (reqMsg, encoded)

/-- Sending and receiving: steps 3 and 4, with what both calls return. -/
def exchange (x : Attempt) (outData : Bytes) (outLen : ℤ) : Outcome (ℤ × TcpSocket.Received) := do
  let (ret, socket) ← x.socket.sendMsg outData outLen TcpSocket.timeoutSeconds
  let received ← { socket with incoming := x.arriving socket.sent }.recvMsgClient outLen
    TcpSocket.timeoutSeconds
  ok (ret, received)

/-- Decoding: step 5. -/
def decodeResponse (x : Attempt) (outLen : ℤ) (received : TcpSocket.Received) :
    Outcome RespondMsg := do
  let (recvBuf, recvLen) := received.output.getD ([], outLen)
  let decoded ← RespondCodec.msgDecode .seckey (RespondCodec.new x.memory.respondCodec) recvBuf
    recvLen
  match decoded.result with
  | none => fault .nullDeref
  | some resMsg => ok resMsg

theorem secKeyAgree_eq_parts (h : Hashes) (client : ClientOperation) (x : Attempt) :
    client.secKeyAgree h x.memory x.rand x.connection = (do
      let request ← x.encodeRequest h client.mInfo
      let answer ← x.exchange request.2.1 request.2.2
      let resMsg ← x.decodeResponse request.2.2 answer.2
      ClientOperation.acceptResponse h x.memory request.1 resMsg
        { client with mSocket := answer.2.socket }) := by
  simp only [ClientOperation.secKeyAgree, encodeRequest, exchange, decodeResponse, connection,
    bind_bind, ok_bind]
  iterate 5 refine congrArg _ (funext fun _ => ?_)
  refine congrArg _ (funext fun decoded => ?_)
  cases decoded.result with
  | none => rw [fault_bind]
  | some resMsg => rw [ok_bind]

/-- Without a message there is nothing to decode at the null pointer. -/
theorem decodeResponse_of_none (x : Attempt) {outLen : ℤ} {received : TcpSocket.Received}
    (hpos : 0 < outLen) (hnone : received.output = none) :
    x.decodeResponse outLen received = fault .readOutOfBounds := by
  have hempty : ¬outLen.toNat ≤ ([] : Bytes).length := by
    rw [List.length_nil]
    omega
  rw [decodeResponse, hnone, Option.getD_none]
  dsimp only
  rw [RespondCodec.msgDecode, msgDecode, SequenceASN1.unpackSequence, derItcastStringToAnyBuf, memcpy,
    if_neg hempty]
  rfl

/-- Neither call closes the socket, and `recvMsg` gives a message only with a zero. -/
theorem exchange_inv {x : Attempt} {outData : Bytes} {outLen : ℤ} {answer : ℤ × TcpSocket.Received}
    (hpos : 0 < outLen) (hexchange : x.exchange outData outLen = ok answer) :
    answer.2.socket.connected = x.socket.connected ∧ (answer.2.output ≠ none → answer.2.ret = 0) := by
  obtain ⟨⟨ret, socket⟩, hsend, hexchange⟩ := bind_eq_ok.mp hexchange
  dsimp only at hexchange
  obtain ⟨received, hreceive, hanswer⟩ := bind_eq_ok.mp hexchange
  obtain rfl := ok.inj hanswer
  rw [TcpSocket.recvMsgClient, if_neg hpos.ne'] at hreceive
  constructor
  · have hsent : socket.connected = x.socket.connected := TcpSocket.connected_sendMsg hsend
    exact (TcpSocket.connected_receive hreceive).trans hsent
  · intro houtput
    obtain ⟨output, houtput⟩ := Option.ne_none_iff_exists'.mp houtput
    exact (TcpSocket.receive_inv hreceive houtput).1

theorem encodeRequest_eq (h : Hashes) {mInfo : ClientInfo} (hids : mInfo.IdsTerminated) (x : Attempt) :
    ∃ reqMsg b, x.encodeRequest h mInfo = ok (reqMsg, b, (b.length : ℤ)) ∧
      Conveys RequestMsg.members b reqMsg ∧ 0 ∈ reqMsg.chars RequestMsg.r1.off RequestMsg.r1.cap := by
  obtain ⟨reqMsg, hrequest, hreq⟩ := ClientOperation.request_eq hids h x.rand x.memory.reqMsg
  obtain ⟨codec, b, hofMsg, hencode, hb⟩ :=
    RequestCodec.exists_conveys x.memory.requestCodec hreq.encodable
  refine ⟨reqMsg, b, ?_, hb, hreq.terminated RequestMsg.r1 (by decide) rfl⟩
  rw [encodeRequest, hrequest, ok_bind, hofMsg, ok_bind, hencode, ok_bind]

end Attempt

/-! ## What the client does with a response -/

namespace ClientOperation

/-- A client whose ids end, and whose table, if it is attached, has its nodes. -/
structure Sound (client : ClientOperation) : Prop where
  ids : client.mInfo.IdsTerminated
  nodes : ∀ table, client.mShm = some table → table.length = client.mInfo.nodes
  terminated : ∀ table, client.mShm = some table → ∀ info ∈ table, info.IdsTerminated

section Responses

variable {h : Hashes} {memory : ClientMemory} {reqMsg : RequestMsg} {resMsg : RespondMsg}
  {client : ClientOperation}

/-- With `rv = -1` the client only returns; otherwise it closes its socket. -/
theorem acceptResponse_inv {ret : ℤ} {client' : ClientOperation}
    (haccept : acceptResponse h memory reqMsg resMsg client = ok (ret, client')) :
    resMsg.int RespondMsg.rv.off = -1 ∧ ret = -1 ∧ client' = client ∨
      ¬resMsg.int RespondMsg.rv.off = -1 ∧ ret = 0 ∧ client'.mSocket.connected = false ∧
        0 ∈ resMsg.ptr RespondMsg.r2.off := by
  rw [acceptResponse] at haccept
  split at haccept
  · rename_i hrefused
    cases haccept
    exact Or.inl ⟨hrefused, rfl, rfl⟩
  · rename_i hrv
    refine Or.inr ⟨hrv, ?_⟩
    obtain ⟨tmpBuf1, hkey, haccept⟩ := bind_eq_ok.mp haccept
    obtain ⟨info, -, haccept⟩ := bind_eq_ok.mp haccept
    obtain ⟨written, -, haccept⟩ := bind_eq_ok.mp haccept
    cases haccept
    refine ⟨rfl, rfl, ?_⟩
    by_contra hends
    obtain ⟨r1, -, hkey⟩ := bind_eq_ok.mp hkey
    rw [stringAt, if_neg hends, fault_bind] at hkey
    cases hkey

theorem Sound.shmWrite (hsound : client.Sound) {info : NodeSHMInfo} (hinfo : info.IdsTerminated) :
    ∃ ret mShm, SecKeyShm.shmWrite client.mInfo.nodes client.mShm info = ok (ret, mShm) ∧
      ∀ socket, Sound ⟨client.mInfo, socket, mShm⟩ := by
  cases hshm : client.mShm with
  | none => exact ⟨-1, none, rfl, fun socket => ⟨hsound.ids, nofun, nofun⟩⟩
  | some table =>
      have hwrite := SecKeyShm.shmWrite_eq (hsound.terminated table hshm) hinfo
      rw [hsound.nodes table hshm] at hwrite
      cases hput : SlotTable.put NodeSHMInfo.ids .empty table info with
      | none =>
          rw [hput] at hwrite
          refine ⟨-1, some table, hwrite, fun socket => ?_⟩
          rw [← hshm]
          exact ⟨hsound.ids, hsound.nodes, hsound.terminated⟩
      | some table' =>
          rw [hput] at hwrite
          refine ⟨0, some table', hwrite, fun socket => ⟨hsound.ids, ?_, ?_⟩⟩
          · intro t ht
            obtain rfl := Option.some.inj ht
            exact (SlotTable.length_put hput).trans (hsound.nodes table hshm)
          · intro t ht x hx
            obtain rfl := Option.some.inj ht
            obtain ⟨i, -, rfl⟩ := SlotTable.put_eq_some.mp hput
            rcases List.mem_or_eq_of_mem_set hx with hold | rfl
            · exact hsound.terminated table hshm x hold
            · exact hinfo

theorem exists_acceptResponse (hsound : client.Sound)
    (hr1 : 0 ∈ reqMsg.chars RequestMsg.r1.off RequestMsg.r1.cap)
    (hrv : ¬resMsg.int RespondMsg.rv.off = -1) (hr2 : 0 ∈ resMsg.ptr RespondMsg.r2.off) :
    ∃ client', acceptResponse h memory reqMsg resMsg client = ok (0, client') ∧ client'.Sound ∧
      client'.mSocket.connected = false := by
  have hr1Len : (cString (reqMsg.ptr RequestMsg.r1.off)).length < 64 := length_str_lt hr1
  have hr2Len : (cString (resMsg.ptr RespondMsg.r2.off)).length < 68 := by
    have hlt := length_cString_lt hr2
    rwa [CObject.length_ptr] at hlt
  have hkey := agreedKey_eq (h := h) (zero_mem_ptr hr1) hr2 (by omega)
  obtain ⟨info, hrecord, hinfo⟩ := keyRecord_eq hsound.ids (zero_notMem_keyText h
      (cString (reqMsg.ptr RequestMsg.r1.off)) (cString (resMsg.ptr RespondMsg.r2.off)))
    (by rw [length_keyText]; norm_num) (resMsg.int RespondMsg.seckeyid.off) memory.info
  obtain ⟨ret, mShm, hwrite, hsound'⟩ := hsound.shmWrite hinfo.terminated
  refine ⟨_, ?_, hsound' client.mSocket.disConnect, rfl⟩
  rw [acceptResponse, if_neg hrv, hkey, ok_bind, hrecord, ok_bind, ← ClientInfo.nodes, hwrite, ok_bind]

end Responses

/-! ## Runs of attempts -/

/-- A call of a run: the object that it leaves. -/
def call (h : Hashes) (client : ClientOperation) (x : Attempt) : Outcome ClientOperation := do
  let result ← client.secKeyAgree h x.memory x.rand x.connection
  ok result.2

/-- The agreement completes: no call fails, and the response says so. -/
def Completes (h : Hashes) (client : ClientOperation) (x : Attempt) : Prop :=
  ∃ request answer resMsg, x.encodeRequest h client.mInfo = ok request ∧
    x.exchange request.2.1 request.2.2 = ok answer ∧
    x.decodeResponse request.2.2 answer.2 = ok resMsg ∧
    x.connectRet = 0 ∧ answer.1 = 0 ∧ answer.2.ret = 0 ∧ resMsg.int RespondMsg.rv.off = 0

/-- A call that does not complete the agreement returns a non-zero value and leaves the shared
memory as it was, and every call closes the socket that it opened.  A call that decodes data
that are absent does not return at all. -/
def Atomic (h : Hashes) (client : ClientOperation) (x : Attempt) : Prop :=
  ∃ ret client', client.secKeyAgree h x.memory x.rand x.connection = ok (ret, client') ∧
    (¬Completes h client x → ret ≠ 0 ∧ client'.mShm = client.mShm) ∧
    (x.opened = true → client'.mSocket.connected = false)

/-- `recvMsg` receives a response, and this is either a success after no failure, with an
`r2` that ends, or a refusal over a socket that the call has not opened. -/
def Answered (h : Hashes) (client : ClientOperation) (x : Attempt) : Prop :=
  ∃ request answer resMsg, x.encodeRequest h client.mInfo = ok request ∧
    x.exchange request.2.1 request.2.2 = ok answer ∧ answer.2.ret = 0 ∧
    x.decodeResponse request.2.2 answer.2 = ok resMsg ∧
    (resMsg.int RespondMsg.rv.off = 0 ∧ x.connectRet = 0 ∧ answer.1 = 0 ∧
        0 ∈ resMsg.ptr RespondMsg.r2.off ∨
      resMsg.int RespondMsg.rv.off = -1 ∧ x.opened = false)

section Runs

variable {h : Hashes} {client client' : ClientOperation} {x : Attempt}

theorem exists_of_secKeyAgree (hsound : client.Sound) {ret : ℤ}
    (hcall : client.secKeyAgree h x.memory x.rand x.connection = ok (ret, client')) :
    ∃ request answer resMsg, x.encodeRequest h client.mInfo = ok request ∧
      x.exchange request.2.1 request.2.2 = ok answer ∧ answer.2.ret = 0 ∧
      x.decodeResponse request.2.2 answer.2 = ok resMsg ∧
      answer.2.socket.connected = x.socket.connected ∧
      0 ∈ request.1.chars RequestMsg.r1.off RequestMsg.r1.cap ∧
      acceptResponse h x.memory request.1 resMsg { client with mSocket := answer.2.socket } =
        ok (ret, client') := by
  obtain ⟨reqMsg, b, hencode, hb, hr1⟩ := x.encodeRequest_eq h hsound.ids
  have hne := hb.ne_nil
  have hpos : 0 < (b.length : ℤ) := by
    have hlen := List.length_pos_of_ne_nil hne
    omega
  rw [x.secKeyAgree_eq_parts, hencode, ok_bind] at hcall
  dsimp only at hcall
  obtain ⟨answer, hexchange, hcall⟩ := bind_eq_ok.mp hcall
  obtain ⟨resMsg, hdecode, haccept⟩ := bind_eq_ok.mp hcall
  obtain ⟨hconnected, hret⟩ := Attempt.exchange_inv hpos hexchange
  refine ⟨_, answer, resMsg, hencode, hexchange, hret ?_, hdecode, hconnected, hr1, haccept⟩
  intro hnone
  rw [x.decodeResponse_of_none hpos hnone] at hdecode
  cases hdecode

theorem accept_of_encodeRequest (hsound : client.Sound) {request : RequestMsg × Bytes × ℤ}
    (hencode : x.encodeRequest h client.mInfo = ok request) {resMsg : RespondMsg}
    (hrv : resMsg.int RespondMsg.rv.off = 0) (hends : 0 ∈ resMsg.ptr RespondMsg.r2.off)
    (socket : TcpSocket) :
    ∃ client', acceptResponse h x.memory request.1 resMsg { client with mSocket := socket } =
      ok (0, client') ∧ client'.Sound ∧ client'.mSocket.connected = false := by
  obtain ⟨reqMsg, b, hencode', -, hr1⟩ := x.encodeRequest_eq h hsound.ids
  obtain rfl := ok.inj (hencode.symm.trans hencode')
  have hsuccess : ¬resMsg.int RespondMsg.rv.off = -1 := by
    rw [hrv]
    decide
  exact exists_acceptResponse ⟨hsound.ids, hsound.nodes, hsound.terminated⟩ hr1 hsuccess hends

/-- A single call is atomic exactly if it is answered so. -/
theorem atomic_iff_answered (hsound : client.Sound) : Atomic h client x ↔ Answered h client x := by
  constructor
  · rintro ⟨ret, client', hcall, hfailed, hclosed⟩
    obtain ⟨request, answer, resMsg, hencode, hexchange, hret, hdecode, hconnected, -, haccept⟩ :=
      exists_of_secKeyAgree hsound hcall
    refine ⟨request, answer, resMsg, hencode, hexchange, hret, hdecode, ?_⟩
    rcases acceptResponse_inv haccept with ⟨hrv, -, rfl⟩ | ⟨-, rfl, -, hends⟩
    · refine Or.inr ⟨hrv, ?_⟩
      -- a refusal leaves the socket as it is, so the call must not have opened it
      by_contra hopened
      have hopened : x.opened = true := by simpa using hopened
      have hopen : answer.2.socket.connected = true :=
        hconnected.trans (x.connected_of_opened hopened)
      exact absurd ((hclosed hopened).symm.trans hopen) (by decide)
    · -- the call returns zero, and so it has to complete the agreement
      have hcompletes : Completes h client x := by
        by_contra hnot
        exact (hfailed hnot).1 rfl
      obtain ⟨request', answer', resMsg', hencode', hexchange', hdecode', hconnect, hsent, -, hrv⟩ :=
        hcompletes
      obtain rfl := ok.inj (hencode'.symm.trans hencode)
      obtain rfl := ok.inj (hexchange'.symm.trans hexchange)
      obtain rfl := ok.inj (hdecode'.symm.trans hdecode)
      exact Or.inl ⟨hrv, hconnect, hsent, hends⟩
  · rintro ⟨request, answer, resMsg, hencode, hexchange, hret, hdecode, hresponse⟩
    have hcall : client.secKeyAgree h x.memory x.rand x.connection =
        acceptResponse h x.memory request.1 resMsg { client with mSocket := answer.2.socket } := by
      rw [x.secKeyAgree_eq_parts, hencode, ok_bind, hexchange, ok_bind, hdecode, ok_bind]
    rcases hresponse with ⟨hrv, hconnect, hsent, hends⟩ | ⟨hrv, hopened⟩
    · obtain ⟨client', haccept, -, hclosed⟩ :=
        accept_of_encodeRequest hsound hencode hrv hends answer.2.socket
      refine ⟨0, client', hcall.trans haccept, fun hnot => ?_, fun _ => hclosed⟩
      exact absurd ⟨_, answer, resMsg, hencode, hexchange, hdecode, hconnect, hsent, hret, hrv⟩ hnot
    · refine ⟨-1, { client with mSocket := answer.2.socket }, ?_, fun _ => ⟨by decide, rfl⟩, ?_⟩
      · rw [hcall, acceptResponse, if_pos hrv]
      · rw [hopened]
        exact fun hopen => absurd hopen Bool.false_ne_true

theorem sound_call (hsound : client.Sound) (hanswered : Answered h client x)
    (hcall : call h client x = ok client') : client'.Sound := by
  obtain ⟨request, answer, resMsg, hencode, hexchange, -, hdecode, hresponse⟩ := hanswered
  have hsound' : Sound { client with mSocket := answer.2.socket } :=
    ⟨hsound.ids, hsound.nodes, hsound.terminated⟩
  rw [call, x.secKeyAgree_eq_parts, hencode, ok_bind, hexchange, ok_bind, hdecode, ok_bind] at hcall
  obtain ⟨⟨ret, left⟩, haccept, hleft⟩ := bind_eq_ok.mp hcall
  obtain rfl := ok.inj hleft
  rcases hresponse with ⟨hrv, -, -, hends⟩ | ⟨hrv, -⟩
  · obtain ⟨accepted, haccept', hkept, -⟩ :=
      accept_of_encodeRequest hsound hencode hrv hends answer.2.socket
    obtain ⟨-, rfl⟩ := Prod.mk.inj (ok.inj (haccept.symm.trans haccept'))
    exact hkept
  · rw [acceptResponse, if_pos hrv] at haccept
    obtain ⟨-, rfl⟩ := Prod.mk.inj (ok.inj haccept)
    exact hsound'

/-- Every call of a run is atomic exactly if every one is answered with a success after no
failure, or with a refusal over a socket that it has not opened. -/
theorem atomic_iff (h : Hashes) (attempts : List Attempt) {client : ClientOperation}
    (hsound : client.Sound) :
    EachStep (call h) (Atomic h) attempts client ↔ EachStep (call h) (Answered h) attempts client :=
  eachStep_iff Sound (fun _ _ hs (_ : True) => atomic_iff_answered hs)
    (fun _ _ _ hs (_ : True) => sound_call hs) (fun _ _ => trivial) hsound

end Runs

/-- The client `1` of the server `2`, with a table for one node. -/
def clientOne : ClientOperation :=
  ⟨Session.oneInfo, ⟨[], [], [], [], [], false⟩, some [.empty]⟩

theorem sound_clientOne : clientOne.Sound := by
  have hids : NodeSHMInfo.empty.IdsTerminated := ⟨by decide +kernel, by decide +kernel⟩
  refine ⟨⟨by decide +kernel, by decide +kernel⟩, ?_, ?_⟩
  · intro table htable
    obtain rfl := Option.some.inj htable
    decide +kernel
  · intro table htable info hinfo
    obtain rfl := Option.some.inj htable
    rw [List.mem_singleton.mp hinfo]
    exact hids

/-- The server accepts the connection, and nothing more happens until the time is over. -/
def silent : Attempt where
  memory := ⟨.zero 160, .zero 160, .zero 96, .zero 160⟩
  rand i := i
  connectRet := 0
  socket := ⟨[.expired], [.expired], [], [], [], true⟩
  opened := true
  connected_of_opened _ := rfl
  arriving _ := []

/-- Neither the request nor a response gets through. -/
theorem exchange_silent {b : Bytes} (hne : b ≠ []) : silent.exchange b b.length =
    ok (TcpSocket.timeoutError, ⟨TcpSocket.timeoutError, none, ⟨[], [], [], [], [], true⟩⟩) := by
  have hpos := List.length_pos_of_ne_nil hne
  have hdata : ¬(b = [] ∨ (b.length : ℤ) ≤ 0) := by
    rintro (hnil | hle)
    · exact hne hnil
    · omega
  have hlen : ¬(b.length : ℤ) = 0 := by omega
  have hsend : silent.socket.sendMsg b b.length TcpSocket.timeoutSeconds =
      ok (TcpSocket.timeoutError, ⟨[.expired], [], [], [], [], true⟩) := by
    rw [TcpSocket.sendMsg, if_neg hdata]
    rfl
  have hreceive : TcpSocket.recvMsgClient ⟨[.expired], [], [], [], [], true⟩ b.length
      TcpSocket.timeoutSeconds = ok ⟨TcpSocket.timeoutError, none, ⟨[], [], [], [], [], true⟩⟩ := by
    rw [TcpSocket.recvMsgClient, if_neg hlen]
    rfl
  rw [Attempt.exchange, hsend, ok_bind]
  dsimp only
  exact congrArg (· >>= _) hreceive

/-- The encoding of a response to the client `1`, with the value in `rv`. -/
def responseOctets (rv : ℕ) : Bytes :=
  sequenceOctets (messageElements rv [[0x31, 0], [0x32, 0], [0x72, 0]] ++ [integerElement 1])

/-- A response to whatever was sent, over a socket that is ready. -/
def responded (rv : ℕ) (opened : Bool) : Attempt where
  memory := ⟨.zero 160, .zero 160, .zero 96, .zero 160⟩
  rand i := i
  connectRet := 0
  socket := ⟨[], [], [], [], [], true⟩
  opened := opened
  connected_of_opened _ := rfl
  arriving _ := (TcpSocket.frame (responseOctets rv)).map (.bytes · [])

theorem exchange_responded {rv : ℕ} {opened : Bool} {b : Bytes} {reqMsg : RequestMsg}
    (hb : Conveys RequestMsg.members b reqMsg) (hlen : (responseOctets rv).length < 2 ^ 31 - 1) :
    ∃ socket, (responded rv opened).exchange b b.length =
      ok (0, ⟨0, some (responseOctets rv ++ [0], (responseOctets rv).length), socket⟩) := by
  obtain ⟨writable, writes, hsend, -, -⟩ := @TcpSocket.sendMsg_eq (responded rv opened).socket b
    hb.ne_nil hb.length_lt (by simp [responded]) (by simp [responded]) TcpSocket.timeoutSeconds
  have hcarried : carried ((responded rv opened).arriving (TcpSocket.frame b)) =
      TcpSocket.frame (responseOctets rv) ++ [] := by
    simpa [responded, carried] using carried_map_bytes (TcpSocket.frame (responseOctets rv)) []
  obtain ⟨socket, hreceive⟩ : ∃ socket, TcpSocket.receive ⟨[], writable,
      (responded rv opened).arriving (TcpSocket.frame b), writes, TcpSocket.frame b, true⟩
      TcpSocket.timeoutSeconds = ok ⟨0,
        some (responseOctets rv ++ [0], (responseOctets rv).length), socket⟩ := by
    obtain ⟨readable, incoming, hreceive, -, -, -⟩ := @TcpSocket.receive_eq ⟨[], writable,
      (responded rv opened).arriving (TcpSocket.frame b), writes, TcpSocket.frame b, true⟩
      _ _ hlen (by simp) hcarried TcpSocket.timeoutSeconds
    exact ⟨_, hreceive⟩
  refine ⟨socket, ?_⟩
  have hpos : ¬(b.length : ℤ) = 0 := by
    rw [Nat.cast_eq_zero, List.length_eq_zero_iff]
    exact hb.ne_nil
  rw [Attempt.exchange, hsend, ok_bind]
  dsimp only [responded, List.nil_append]
  rw [TcpSocket.recvMsgClient, if_neg hpos]
  exact congrArg (· >>= _) hreceive

theorem answered_responded {client : ClientOperation} (hsound : client.Sound) {rv : ℕ}
    {opened : Bool} {resMsg : RespondMsg} (hlen : (responseOctets rv).length < 2 ^ 31 - 1)
    (hdecode : (responded rv opened).decodeResponse 0 ⟨0,
      some (responseOctets rv ++ [0], (responseOctets rv).length), (responded rv opened).socket⟩ =
        ok resMsg)
    (hresponse : resMsg.int RespondMsg.rv.off = 0 ∧ 0 ∈ resMsg.ptr RespondMsg.r2.off ∨
      resMsg.int RespondMsg.rv.off = -1 ∧ opened = false) :
    Answered ServerOperation.zeroHashes client (responded rv opened) := by
  obtain ⟨reqMsg, b, hencode, hb, -⟩ :=
    (responded rv opened).encodeRequest_eq ServerOperation.zeroHashes hsound.ids
  obtain ⟨socket, hexchange⟩ := @exchange_responded rv opened b reqMsg hb hlen
  refine ⟨_, _, resMsg, hencode, hexchange, rfl, hdecode, ?_⟩
  exact hresponse.imp (fun ⟨hrv, hends⟩ => ⟨hrv, rfl, rfl, hends⟩) id

/-- A success over a new socket, and then a refusal while none is opened. -/
def successThenRefusal : List Attempt :=
  [responded 0 true, responded 0xFFFFFFFF false]

/-- What the client decodes. -/
def hasResponse (rv : ℕ) (p : RespondMsg → Bool) : Bool :=
  match (responded rv true).decodeResponse 0 ⟨0,
      some (responseOctets rv ++ [0], (responseOctets rv).length), (responded rv true).socket⟩ with
  | .ok resMsg => p resMsg
  | _ => false

theorem exists_of_hasResponse {rv : ℕ} {p : RespondMsg → Bool} (h : hasResponse rv p = true)
    (opened : Bool) : ∃ resMsg, (responded rv opened).decodeResponse 0 ⟨0,
      some (responseOctets rv ++ [0], (responseOctets rv).length), (responded rv opened).socket⟩ =
        ok resMsg ∧ p resMsg = true := by
  unfold hasResponse at h
  split at h
  · rename_i resMsg hdecode
    exact ⟨resMsg, hdecode, h⟩
  · cases h

theorem atomic_successThenRefusal :
    EachStep (call ServerOperation.zeroHashes) (Atomic ServerOperation.zeroHashes) successThenRefusal
      clientOne := by
  refine (atomic_iff ServerOperation.zeroHashes successThenRefusal sound_clientOne).mpr ?_
  obtain ⟨accepted, hdecode, haccepted⟩ := @exists_of_hasResponse 0
    (fun m => m.int RespondMsg.rv.off = 0 ∧ 0 ∈ m.ptr RespondMsg.r2.off) (by decide +kernel) true
  obtain ⟨refused, hdecode', hrefused⟩ := @exists_of_hasResponse 0xFFFFFFFF
    (fun m => m.int RespondMsg.rv.off = -1) (by decide +kernel) false
  have hfirst : Answered ServerOperation.zeroHashes clientOne (responded 0 true) :=
    answered_responded sound_clientOne (by decide +kernel) hdecode
      (Or.inl (of_decide_eq_true haccepted))
  refine ⟨hfirst, fun client hcall => ⟨?_, fun _ _ => trivial⟩⟩
  exact answered_responded (sound_call sound_clientOne hfirst hcall) (by decide +kernel) hdecode'
    (Or.inr ⟨of_decide_eq_true hrefused, rfl⟩)

/-- `recvMsg` returns `TimeoutError`, and the client decodes at the null pointer. -/
theorem not_atomic_silent : ¬EachStep (call ServerOperation.zeroHashes)
    (Atomic ServerOperation.zeroHashes) [silent] clientOne := by
  rintro ⟨⟨ret, client', hcall, -⟩, -⟩
  obtain ⟨request, answer, resMsg, hencode, hexchange, hret, -⟩ :=
    exists_of_secKeyAgree sound_clientOne hcall
  obtain ⟨reqMsg, b, hencode', hb, -⟩ := silent.encodeRequest_eq ServerOperation.zeroHashes
    sound_clientOne.ids
  obtain rfl := ok.inj (hencode.symm.trans hencode')
  dsimp only at hexchange
  obtain rfl := ok.inj (hexchange.symm.trans (exchange_silent hb.ne_nil))
  cases hret

end ClientOperation

end SafeTransmission
