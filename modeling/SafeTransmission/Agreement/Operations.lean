import SafeTransmission.Agreement.Keys
import SafeTransmission.Agreement.TcpSocket
import SafeTransmission.Codec.Messages
import SafeTransmission.Store.SecKeyShm

/-!
# `ClientOperation` and `ServerOperation`

The client sends a request with its ids, a random string `r1` and an authentication
code.  The worker of the server receives it, `secKeyAgree` of the server checks the
code and answers with a random string `r2`, and both compute the key from the two
strings.  The client then writes the key into its shared memory.

Neither program looks at the return codes of the socket.  A variable that the socket
does not assign keeps its value, and one without a value is used nevertheless.
Memory that nobody has initialised is given as an argument.
-/

namespace SafeTransmission

open Outcome

/-- `RequestCodec::NewOrUpdate`. -/
def RequestCodec.newOrUpdate : ℤ := 1

/-! ## The client -/

/-- `ClientInfo`. -/
abbrev ClientInfo := CObject 68

namespace ClientInfo

def clinetID : Member := ⟨.chars, 0, 12⟩

def serverID : Member := ⟨.chars, 12, 12⟩

def maxNode : Member := ⟨.int, 60, 4⟩

end ClientInfo

/-- `ClientOperation`: `mShm` is the memory that its `m_shm` attaches. -/
structure ClientOperation where
  mInfo : ClientInfo
  mSocket : TcpSocket
  mShm : Option (List NodeSHMInfo)

/-- What the memory holds that a call of `secKeyAgree` gets: on the stack `reqMsg` and
`info`, and on the heap the two codecs. -/
structure ClientMemory where
  reqMsg : RequestMsg
  requestCodec : RequestMsg
  respondCodec : RespondMsg
  info : NodeSHMInfo

/-- What `connectToHost` leaves, whatever it returns: a socket, and what arrives at it
after the given bytes were sent. -/
structure Connection where
  socket : TcpSocket
  arriving : Bytes → Outcome (List Arrival)

namespace ClientOperation

/-- The request: step 1 of `secKeyAgree`. -/
def request (h : Hashes) (mInfo : ClientInfo) (rand : ℕ → ℕ) (memory : RequestMsg) :
    Outcome RequestMsg := do
  let reqMsg := RequestMsg.declared .seckey memory
  let reqMsg ← reqMsg.strcpy RequestMsg.clientId.off (mInfo.ptr ClientInfo.clinetID.off)
  let reqMsg ← reqMsg.strcpy RequestMsg.serverId.off (mInfo.ptr ClientInfo.serverID.off)
  let reqMsg ← reqMsg.store RequestMsg.cmdType.off (intBytes RequestCodec.newOrUpdate)
  let reqMsg ← reqMsg.store RequestMsg.r1.off (getRandString RequestMsg.r1.cap rand)
  let md1 ← authenticationCode h (reqMsg.ptr RequestMsg.clientId.off)
    (reqMsg.ptr RequestMsg.serverId.off) (reqMsg.ptr RequestMsg.r1.off)
  reqMsg.strcpy RequestMsg.authCode.off md1

/-- The record for the shared memory: step 8 of `secKeyAgree`. -/
def keyRecord (mInfo : ClientInfo) (seckeyid : ℤ) (seckey : Bytes) (memory : NodeSHMInfo) :
    Outcome NodeSHMInfo := do
  let info ← memory.store NodeSHMInfo.status.off (intBytes 0)
  let info ← info.store NodeSHMInfo.seckeyID.off (intBytes seckeyid)
  let info ← info.strcpy NodeSHMInfo.clientID.off (mInfo.ptr ClientInfo.clinetID.off)
  let info ← info.strcpy NodeSHMInfo.serverID.off (mInfo.ptr ClientInfo.serverID.off)
  info.strcpy NodeSHMInfo.seckey.off seckey

/-- Steps 6 to 10 of `secKeyAgree`, with the decoded response. -/
def acceptResponse (h : Hashes) (memory : ClientMemory) (reqMsg : RequestMsg) (resMsg : RespondMsg)
    (client : ClientOperation) : Outcome (ℤ × ClientOperation) :=
  if resMsg.int RespondMsg.rv.off = -1 then ok (-1, client)
  else do
    let tmpBuf1 ← agreedKey h (reqMsg.ptr RequestMsg.r1.off) (resMsg.ptr RespondMsg.r2.off)
    let info ← keyRecord client.mInfo (resMsg.int RespondMsg.seckeyid.off) tmpBuf1 memory.info
    let (_, mShm) ← SecKeyShm.shmWrite (client.mInfo.int ClientInfo.maxNode.off).toNat
      client.mShm info
    ok (0, { client with mShm := mShm, mSocket := client.mSocket.disConnect })

/-- `ClientOperation::secKeyAgree`: what it returns, and the object it leaves. -/
def secKeyAgree (h : Hashes) (memory : ClientMemory) (rand : ℕ → ℕ) (connection : Connection)
    (client : ClientOperation) : Outcome (ℤ × ClientOperation) := do
  let reqMsg ← request h client.mInfo rand memory.reqMsg
  let codec ← RequestCodec.ofMsg .seckey memory.requestCodec reqMsg
  let (outData, outLen) ← RequestCodec.msgEncode .seckey codec
  let (_, socket) ← connection.socket.sendMsg outData outLen TcpSocket.timeoutSeconds
  let incoming ← connection.arriving socket.sent
  let received ← { socket with incoming := incoming }.recvMsgClient outLen TcpSocket.timeoutSeconds
  -- `recvBuf` was null, and `outLen` is still the length of the request
  let (recvBuf, recvLen) := received.output.getD ([], outLen)
  let decoded ← RespondCodec.msgDecode .seckey (RespondCodec.new memory.respondCodec) recvBuf recvLen
  match decoded.result with
  | none => fault .nullDeref
  | some resMsg => acceptResponse h memory reqMsg resMsg { client with mSocket := received.socket }

end ClientOperation

/-! ## The server -/

/-- `ServerInfo`. -/
abbrev ServerInfo := CObject 96

def ServerInfo.serverID : Member := ⟨.chars, 0, 12⟩

/-- What the memory holds that a worker gets: its codec, and `resMsg` and the codec of
`secKeyAgree`. -/
structure ServerMemory where
  requestCodec : RequestMsg
  resMsg : RespondMsg
  respondCodec : RespondMsg

/-- What a successful `secKeyAgree` of the server makes: `*outData` and `outLen`, the
response that they encode, and the key that it prints. -/
structure Agreement where
  outData : Bytes
  outLen : ℤ
  resMsg : RespondMsg
  seckey : Bytes

namespace ServerOperation

/-- The response: `secKeyAgree` puts `r2` into it first. -/
def respond (mInfo : ServerInfo) (reqmsg : RequestMsg) (resMsg : RespondMsg) :
    Outcome RespondMsg := do
  let resMsg ← resMsg.strcpy RespondMsg.clientId.off (reqmsg.ptr RequestMsg.clientId.off)
  let resMsg ← resMsg.store RespondMsg.rv.off (intBytes 0)
  let resMsg ← resMsg.store RespondMsg.seckeyid.off (intBytes 100)
  resMsg.strcpy RespondMsg.serverId.off (mInfo.ptr ServerInfo.serverID.off)

/-- `ServerOperation::secKeyAgree`: what it returns, and what it makes if it accepts the
authentication code. -/
def secKeyAgree (h : Hashes) (memory : ServerMemory) (rand : ℕ → ℕ) (mInfo : ServerInfo)
    (reqmsg : RequestMsg) : Outcome (ℤ × Option Agreement) := do
  let md1 ← authenticationCode h (reqmsg.ptr RequestMsg.clientId.off)
    (mInfo.ptr ServerInfo.serverID.off) (reqmsg.ptr RequestMsg.r1.off)
  let differs ← strcmp (reqmsg.ptr RequestMsg.authCode.off) md1
  if differs ≠ 0 then ok (-1, none)
  else do
    let resMsg ← memory.resMsg.store RespondMsg.r2.off (getRandString RespondMsg.r2.cap rand)
    let tmpBuf1 ← agreedKey h (reqmsg.ptr RequestMsg.r1.off) (resMsg.ptr RespondMsg.r2.off)
    let resMsg ← respond mInfo reqmsg resMsg
    let codec ← RespondCodec.ofMsg .seckey memory.respondCodec resMsg
    let (outData, outLen) ← RespondCodec.msgEncode .seckey codec
    ok (0, some ⟨outData, outLen, resMsg, cString tmpBuf1⟩)

/-- The end of a worker: the result of its call of `secKeyAgree`, and its socket. -/
structure WorkerEnd where
  agreement : ℤ × Option Agreement
  socket : TcpSocket

/-- `working`, with the socket that it has looked up.  Without a message the length, and
without an agreement the answer, has no value. -/
def working (h : Hashes) (memory : ServerMemory) (rand : ℕ → ℕ) (mInfo : ServerInfo)
    (socket : TcpSocket) : Outcome WorkerEnd := do
  let received ← socket.recvMsgServer TcpSocket.timeoutSeconds
  match received.output with
  | none => fault .uninitialised
  | some (recvBuf, recvLen) => do
      let decoded ← RequestCodec.msgDecode .seckey (RequestCodec.new .seckey memory.requestCodec)
        recvBuf recvLen
      match decoded.result with
      | none => fault .nullDeref
      | some reqmsg =>
          if reqmsg.int RequestMsg.cmdType.off = RequestCodec.newOrUpdate then do
            let (ret, agreement) ← secKeyAgree h memory rand mInfo reqmsg
            match agreement with
            | none => fault .uninitialised
            | some agreement => do
                let (_, socket) ← received.socket.sendMsg agreement.outData agreement.outLen
                  TcpSocket.timeoutSeconds
                ok ⟨(ret, some agreement), socket.disConnect⟩
          -- the cases `Check`, `Revoke` and `View` do nothing, nor does any other value
          else fault .uninitialised

end ServerOperation

end SafeTransmission
