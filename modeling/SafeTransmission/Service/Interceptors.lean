import SafeTransmission.Service.Strangers

/-!
# Somebody between the client and the server

The response carries nothing that only the server could have made, and the client checks nothing in
it but `rv`.  Somebody who passes the request on, keeps the response back and sends one of his
own gets both sides to report success, each with a key of its own, and knows both keys
(`intercepted`).  He needs no id and no number of either side.

The client is one that is configured for the server, and the channels on both of his sides are
reliable, as in `Service`.
-/

namespace SafeTransmission

open Outcome Codec

/-- What he does with the bytes to the server and those back: he answers the request as the server
would, without an id and with random numbers of his own.  He ends up with the bytes for the client,
the key of the server and the one of the client. -/
def intercept (h : Hashes) (rand : ℕ → ℕ) (up down : Bytes) : Outcome (Bytes × Bytes × Bytes) := do
  let serverKey ← overhear h up down
  let request ← RequestCodec.msgDecode .seckey (RequestCodec.new .seckey (.zero 160)) (up.drop 4)
    (up.drop 4).length
  match request.result with
  | none => err 0
  | some reqmsg => do
      let resMsg ← CObject.store (.zero 96) RespondMsg.r2.off (getRandString RespondMsg.r2.cap rand)
      let resMsg ← ServerOperation.respond (.zero 96) reqmsg resMsg
      let codec ← RespondCodec.ofMsg .seckey (.zero 96) resMsg
      let (outData, _) ← RespondCodec.msgEncode .seckey codec
      let clientKey ← overhear h up (TcpSocket.frame outData)
      ok (TcpSocket.frame outData, serverKey, clientKey)

/-- His response is one that the client understands. -/
theorem intercept_eq {h : Hashes} {client server random random' : Bytes} {reqMsg : RequestMsg}
    {b : Bytes} {agreement : Agreement} (hrequest : IsRequest h client server random reqMsg)
    (hconveys : Conveys RequestMsg.members b reqMsg)
    (hanswers : ServerOperation.Answers h client server random random' agreement) (rand : ℕ → ℕ) :
    ∃ own, ServerOperation.Answers h client [] random (randText 63 rand) own ∧
      intercept h rand (TcpSocket.frame b) (TcpSocket.frame agreement.outData) =
        ok (TcpSocket.frame own.outData, agreement.seckey, own.seckey) := by
  obtain ⟨request, reqMsg', hdecode, hresult, hsame, hterm⟩ :=
    hconveys.decoded (RequestMsg.declared .seckey (.zero 160)) []
  rw [List.append_nil] at hdecode
  have hreq := hrequest.of_same hsame hterm
  have hzero : 0 ∈ (CObject.zero 96).chars ServerInfo.serverID.off ServerInfo.serverID.cap := by
    decide +kernel
  obtain ⟨resMsg₁, resMsg, hstore, -, hrespond, hresponse⟩ :=
    ServerOperation.respond_eq hzero
      (hreq.terminated RequestMsg.clientId (by decide) rfl) rand (.zero 96)
  have hempty : CObject.str (.zero 96) ServerInfo.serverID.off = [] := by decide +kernel
  rw [hreq.clientId, hempty] at hresponse
  obtain ⟨codec, out, hofMsg, hencode, hout⟩ :=
    RespondCodec.exists_conveys (.zero 96) hresponse.encodable
  have hown : ServerOperation.Answers h client [] random (randText 63 rand)
      ⟨out, out.length, resMsg, keyText h random (randText 63 rand)⟩ :=
    ⟨rfl, hout, hresponse, rfl⟩
  refine ⟨_, hown, ?_⟩
  rw [intercept, overhear_eq hrequest hconveys hanswers, ok_bind, drop_frame,
    RequestCodec.msgDecode, RequestCodec.new, hdecode, ok_bind, hresult]
  dsimp only
  rw [hstore, ok_bind, hrespond, ok_bind, hofMsg, ok_bind, hencode, ok_bind]
  dsimp only
  rw [overhear_eq hrequest hconveys hown, ok_bind]

namespace Session

/-- The connection of the client, with somebody between it and the worker. -/
def intercepting (x : Session) (rand : ℕ → ℕ) : Connection where
  socket := x.clientSocket
  arriving sent := do
    let worker ← x.worker sent
    let (reply, _, _) ← intercept x.hashes rand sent worker.socket.sent
    ok (x.down.deliver reply)

/-- The client returns zero and the server accepts, and the keys of both are known to the one
between them. -/
def Intercepted (x : Session) (rand : ℕ → ℕ) (c : ClientOperation) : Prop :=
  ∃ c' table worker agreement info reply,
    c.secKeyAgree x.hashes x.clientMemory x.clientRand (x.intercepting rand) = ok (0, c') ∧
    c'.mShm = some table ∧
    x.worker c'.mSocket.sent = ok worker ∧ worker.agreement = (0, some agreement) ∧
    (∀ out, SecKeyShm.shmRead c.mInfo.nodes (some table) (c.mInfo.ptr ClientInfo.clinetID.off)
      (c.mInfo.ptr ClientInfo.serverID.off) out = ok (0, info)) ∧
    intercept x.hashes rand c'.mSocket.sent worker.socket.sent =
      ok (reply, agreement.seckey, info.str NodeSHMInfo.seckey.off)

/-- Every session can be intercepted. -/
theorem intercepted (x : Session) {c : ClientOperation} {table : List NodeSHMInfo}
    (hconf : x.Configured c) (htable : c.mInfo.OwnTable table) (hshm : c.mShm = some table)
    (rand : ℕ → ℕ) : x.Intercepted rand c := by
  obtain ⟨reqMsg, b, hreq, hb, hclient⟩ := ClientOperation.secKeyAgree_eq hconf.valid htable hshm
    x.hashes x.clientMemory x.clientRand (x.intercepting rand) x.down.readable_transient
    x.up.writable_transient x.up.writes_transient
  rw [← hconf.sameServer] at hreq
  obtain ⟨agreement, socket, hworker, hsent, hanswers⟩ := ServerOperation.working_eq hconf.serverID
    hreq hb (s := x.serverSocket (TcpSocket.frame b)) x.up.readable_transient
    x.down.writable_transient x.down.writes_transient (x.up.carried_deliver _) x.serverMemory
    x.serverRand
  have hdown : socket.sent = TcpSocket.frame agreement.outData := hsent.trans (List.nil_append _)
  obtain ⟨own, hown, hintercept⟩ := intercept_eq hreq hb hanswers rand
  rw [← hdown] at hintercept
  have harriving : (x.intercepting rand).arriving (TcpSocket.frame b) =
      ok (x.down.deliver (TcpSocket.frame own.outData)) := by
    simp only [intercepting, worker, hworker, ok_bind, hintercept]
  -- for the client it makes no difference whose response it is
  obtain ⟨c', table', info, hrun, hup, hstored⟩ := hclient (x.down.carried_deliver _) harriving
    hown.conveys hown.response
  have hup' : c'.mSocket.sent = TcpSocket.frame b := hup
  refine ⟨c', table', ⟨(0, some agreement), socket⟩, agreement, info, TcpSocket.frame own.outData, hrun,
    hstored.mShm, ?_, rfl, hstored.read, ?_⟩
  · rw [hup']
    exact hworker
  · rw [hup', hintercept, hown.seckey, hstored.record.seckey]

theorem intercepted_oneTwo : oneTwo.Intercepted id
    ⟨oneInfo, oneTwo.clientSocket, some (List.replicate oneInfo.nodes .empty)⟩ :=
  intercepted oneTwo
    ⟨⟨⟨by decide +kernel, by decide +kernel⟩, by decide +kernel, by decide +kernel⟩,
      by decide +kernel, by decide +kernel⟩ .zeroed rfl id

end Session

end SafeTransmission
