import SafeTransmission.Agreement.Replies

/-!
# The client and the server agree on a key

A session is a call of `secKeyAgree` of the client over two reliable channels, with a
worker of the server at the other end.  Whatever the ids, the random strings, the
hash functions and the pieces in which the bytes arrive, the worker accepts the
authentication code, and the client stores the key that the server has computed.

The proof follows the bytes.  The request that the client builds arrives at the worker
(`working_eq`), which recomputes the code from its own id; the response arrives at
the client, and both keys are the digits of the hash of the same two strings
(`acceptResponse_eq`).  The table has a slot for the record, because nobody but the
client has written into it (`OwnTable`).
-/

namespace SafeTransmission

open Outcome Codec

/-! ## The server -/

namespace ServerOperation

section Server

variable {h : Hashes} {mInfo : ServerInfo} {client random : Bytes} {reqmsg : RequestMsg}

/-- The server accepts a request whose code was made with its own id. -/
theorem secKeyAgree_eq (hserver : 0 ∈ mInfo.chars ServerInfo.serverID.off ServerInfo.serverID.cap)
    (hreq : IsRequest h client (mInfo.str ServerInfo.serverID.off) random reqmsg)
    (memory : ServerMemory) (rand : ℕ → ℕ) :
    ∃ agreement, secKeyAgree h memory rand mInfo reqmsg = ok (0, some agreement) ∧
      Answers h client (mInfo.str ServerInfo.serverID.off) random (randText 63 rand) agreement := by
  have hauth : Authentic h mInfo reqmsg := by
    refine (authentic_iff hserver).mpr ⟨hreq.zero_mem (m := RequestMsg.clientId) (by decide) rfl,
      hreq.zero_mem (m := RequestMsg.r1) (by decide) rfl, ?_⟩
    rw [hreq.authCode, hreq.clientId, hreq.r1]
  have hagree := secKeyAgree_of_authentic hserver hauth
    (hreq.terminated RequestMsg.clientId (by decide) rfl) memory rand
  rwa [hreq.clientId, hreq.r1] at hagree

theorem working_eq (hserver : 0 ∈ mInfo.chars ServerInfo.serverID.off ServerInfo.serverID.cap)
    (hreq : IsRequest h client (mInfo.str ServerInfo.serverID.off) random reqmsg) {b : Bytes}
    (hb : Conveys RequestMsg.members b reqmsg) {s : TcpSocket}
    (hreadable : ∀ a ∈ s.readable, a.Transient) (hwritable : ∀ a ∈ s.writable, a.Transient)
    (hwrites : ∀ a ∈ s.writes, a.Transient) (hcarried : carried s.incoming = TcpSocket.frame b)
    (memory : ServerMemory) (rand : ℕ → ℕ) :
    ∃ agreement socket, working h memory rand mInfo s = ok ⟨(0, some agreement), socket⟩ ∧
      socket.sent = s.sent ++ TcpSocket.frame agreement.outData ∧
      Answers h client (mInfo.str ServerInfo.serverID.off) random (randText 63 rand) agreement := by
  have hlen := hb.length_lt
  obtain ⟨readable, incoming, hreceive, -, -, -⟩ := @TcpSocket.receive_eq s b [] (by omega) hreadable
    (by rw [hcarried, List.append_nil]) TcpSocket.timeoutSeconds
  obtain ⟨d, msg, hdecode, hresult, hsame, hterm⟩ :=
    hb.decoded (RequestMsg.declared .seckey memory.requestCodec) [0]
  have hmsg := hreq.of_same hsame hterm
  obtain ⟨agreement, hagree, hanswers⟩ := secKeyAgree_eq hserver hmsg memory rand
  obtain ⟨writable, writes, hsend, -, -⟩ := @TcpSocket.sendMsg_eq
    { s with readable := readable, incoming := incoming } agreement.outData hanswers.conveys.ne_nil
    hanswers.conveys.length_lt hwritable hwrites TcpSocket.timeoutSeconds
  rw [← hanswers.outLen] at hsend
  refine ⟨agreement, ⟨readable, writable, incoming, writes,
    s.sent ++ TcpSocket.frame agreement.outData, false⟩, ?_, rfl, hanswers⟩
  rw [working, TcpSocket.recvMsgServer, hreceive, ok_bind]
  dsimp only
  rw [RequestCodec.msgDecode, RequestCodec.new, hdecode, ok_bind, hresult]
  dsimp only
  rw [if_pos hmsg.cmdType, hagree, ok_bind]
  dsimp only
  rw [hsend, ok_bind]
  rfl

end Server

end ServerOperation

/-! ## The table of the client -/

namespace ClientInfo

/-- The ids of the client as strings. -/
def ids (mInfo : ClientInfo) : Bytes × Bytes :=
  (mInfo.str clinetID.off, mInfo.str serverID.off)

/-- The number of nodes of the table. -/
def nodes (mInfo : ClientInfo) : ℕ :=
  (mInfo.int maxNode.off).toNat

/-- A record that the client may write: its ids end, and are those of the client. -/
def Owns (mInfo : ClientInfo) (info : NodeSHMInfo) : Prop :=
  info.IdsTerminated ∧ info.ids = mInfo.ids

/-- The tables that only the client has written to. -/
inductive OwnTable (mInfo : ClientInfo) : List NodeSHMInfo → Prop where
  | zeroed : OwnTable mInfo (List.replicate mInfo.nodes .empty)
  | written {table table' : List NodeSHMInfo} {info : NodeSHMInfo} {ret : ℤ} (h : OwnTable mInfo table)
      (hinfo : mInfo.Owns info)
      (hwrite : SecKeyShm.shmWrite mInfo.nodes (some table) info = ok (ret, some table')) :
      OwnTable mInfo table'

/-- The ids of a client that takes part: they end, and are not both empty. -/
structure Valid (mInfo : ClientInfo) : Prop extends mInfo.IdsTerminated where
  ids_ne : mInfo.ids ≠ ([], [])
  maxNode_pos : 1 ≤ mInfo.int maxNode.off

variable {mInfo : ClientInfo} {table : List NodeSHMInfo} {info : NodeSHMInfo}

theorem Valid.storable (hvalid : mInfo.Valid) (hinfo : mInfo.Owns info) :
    SecKeyShm.Storable info :=
  ⟨hinfo.1, hinfo.2 ▸ hvalid.ids_ne⟩

theorem OwnTable.exists_holding (hvalid : mInfo.Valid) (h : OwnTable mInfo table) :
    ∃ written, SecKeyShm.Holding mInfo.nodes written table ∧ ∀ r ∈ written, r.ids = mInfo.ids := by
  induction h with
  | zeroed => exact ⟨[], SecKeyShm.holding_replicate _, by simp⟩
  | @written table table' info ret _ hinfo hwrite ih =>
      obtain ⟨written, hholding, hids⟩ := ih
      have hstorable := hvalid.storable hinfo
      rcases hholding.shmWrite_cases hstorable with ⟨t', hput, hwrite'⟩ | ⟨-, hwrite'⟩
      · obtain ⟨-, rfl⟩ : ret = 0 ∧ table' = t' := by simpa using hwrite.symm.trans hwrite'
        exact ⟨info :: written, hholding.put hstorable hput, List.forall_mem_cons.mpr ⟨hinfo.2, hids⟩⟩
      · obtain ⟨-, rfl⟩ : ret = -1 ∧ table' = table := by simpa using hwrite.symm.trans hwrite'
        exact ⟨written, hholding, hids⟩

/-- There is a slot for a record of the client: its own, or any one if there is none yet. -/
theorem Valid.put_ne_none (hvalid : mInfo.Valid) {written : List NodeSHMInfo}
    (hholding : SecKeyShm.Holding mInfo.nodes written table) (hids : ∀ r ∈ written, r.ids = mInfo.ids)
    (hinfo : mInfo.Owns info) : SlotTable.put NodeSHMInfo.ids .empty table info ≠ none := by
  intro hfull
  obtain ⟨hnew, hcard⟩ := (hholding.put_eq_none_iff (hvalid.storable hinfo)).mp hfull
  have hnone : written = [] := by
    refine List.eq_nil_iff_forall_not_mem.mpr fun r hr => ?_
    have hother := List.find?_eq_none.mp hnew r hr
    rw [hids r hr, hinfo.2] at hother
    simp at hother
  have hpos := hvalid.maxNode_pos
  rw [hnone] at hcard
  simp only [List.map_nil, List.toFinset_nil, Finset.card_empty, nodes] at hcard
  omega

theorem OwnTable.exists_shmWrite (hvalid : mInfo.Valid) (h : OwnTable mInfo table)
    (hinfo : mInfo.Owns info) :
    ∃ table', SecKeyShm.shmWrite mInfo.nodes (some table) info = ok (0, some table') ∧
      OwnTable mInfo table' ∧
      ∀ out, SecKeyShm.shmRead mInfo.nodes (some table') (mInfo.ptr clinetID.off)
        (mInfo.ptr serverID.off) out = ok (0, info) := by
  obtain ⟨written, hholding, hids⟩ := h.exists_holding hvalid
  have hstorable := hvalid.storable hinfo
  rcases hholding.shmWrite_cases hstorable with ⟨table', hput, hwrite⟩ | ⟨hput, -⟩
  · refine ⟨table', hwrite, h.written hinfo hwrite, fun out => ?_⟩
    have hown : info.ids = (cString (mInfo.ptr clinetID.off), cString (mInfo.ptr serverID.off)) :=
      hinfo.2
    rw [(hholding.put hstorable hput).shmRead_eq (zero_mem_ptr hvalid.clinetID)
      (zero_mem_ptr hvalid.serverID) hvalid.ids_ne, SlotTable.latest_cons, if_pos hown]
    rfl
  · exact absurd hput (hvalid.put_ne_none hholding hids hinfo)

end ClientInfo

/-! ## The client -/

namespace ClientOperation

section Client

variable {h : Hashes} {client : ClientOperation} {table : List NodeSHMInfo} {reqMsg : RequestMsg}
  {resMsg : RespondMsg} {server server' random random' : Bytes}

/-- The client takes the key of a response over into its table. -/
theorem acceptResponse_eq (hvalid : client.mInfo.Valid) (htable : client.mInfo.OwnTable table)
    (hshm : client.mShm = some table)
    (hreq : IsRequest h (client.mInfo.str ClientInfo.clinetID.off) server random reqMsg)
    (hres : IsResponse (client.mInfo.str ClientInfo.clinetID.off) server' random' resMsg)
    (memory : ClientMemory) :
    ∃ info table', acceptResponse h memory reqMsg resMsg client =
        ok (0, ⟨client.mInfo, client.mSocket.disConnect, some table'⟩) ∧
      client.mInfo.OwnTable table' ∧
      IsKeyRecord (client.mInfo.str ClientInfo.clinetID.off)
        (client.mInfo.str ClientInfo.serverID.off) 100 (keyText h random random') info ∧
      ∀ out, SecKeyShm.shmRead client.mInfo.nodes (some table')
        (client.mInfo.ptr ClientInfo.clinetID.off) (client.mInfo.ptr ClientInfo.serverID.off) out =
          ok (0, info) := by
  have hr1 := hreq.terminated RequestMsg.r1 (by decide) rfl
  have hr2 := hres.terminated RespondMsg.r2 (by decide) rfl
  have hr1Len : (cString (reqMsg.ptr RequestMsg.r1.off)).length < 64 := length_str_lt hr1
  have hr2Len : (cString (resMsg.ptr RespondMsg.r2.off)).length < 64 := length_str_lt hr2
  have hr1Str : cString (reqMsg.ptr RequestMsg.r1.off) = random := hreq.r1
  have hr2Str : cString (resMsg.ptr RespondMsg.r2.off) = random' := hres.r2
  have hkey := agreedKey_eq (h := h) (zero_mem_ptr hr1) (zero_mem_ptr hr2) (by omega)
  rw [hr1Str, hr2Str] at hkey
  obtain ⟨info, hrecord, hinfo⟩ := keyRecord_eq hvalid.toIdsTerminated
    (zero_notMem_keyText h random random') (by rw [length_keyText]; norm_num) 100 memory.info
  obtain ⟨table', hwrite, htable', hread⟩ := htable.exists_shmWrite hvalid
    ⟨hinfo.terminated, hinfo.ids⟩
  have hsuccess : ¬resMsg.int RespondMsg.rv.off = -1 := by
    rw [hres.rv]
    decide
  refine ⟨info, table', ?_, htable', hinfo, hread⟩
  rw [acceptResponse, if_neg hsuccess, hkey, ok_bind, hres.seckeyid, hrecord, ok_bind, hshm,
    ← ClientInfo.nodes, hwrite, ok_bind]

/-- What the client has at the end: a zero, a table that is still its own, and a record
with the key for its ids. -/
structure Stored (h : Hashes) (client client' : ClientOperation) (random random' : Bytes)
    (table : List NodeSHMInfo) (info : NodeSHMInfo) : Prop where
  mShm : client'.mShm = some table
  ownTable : client.mInfo.OwnTable table
  read : ∀ out, SecKeyShm.shmRead client.mInfo.nodes (some table)
    (client.mInfo.ptr ClientInfo.clinetID.off) (client.mInfo.ptr ClientInfo.serverID.off) out =
      ok (0, info)
  record : IsKeyRecord (client.mInfo.str ClientInfo.clinetID.off)
    (client.mInfo.str ClientInfo.serverID.off) 100 (keyText h random random') info

/-- The client sends a request, and stores the key of any response to it that arrives. -/
theorem secKeyAgree_eq (hvalid : client.mInfo.Valid) (htable : client.mInfo.OwnTable table)
    (hshm : client.mShm = some table) (h : Hashes) (memory : ClientMemory) (rand : ℕ → ℕ)
    (connection : Connection) (hreadable : ∀ a ∈ connection.socket.readable, a.Transient)
    (hwritable : ∀ a ∈ connection.socket.writable, a.Transient)
    (hwrites : ∀ a ∈ connection.socket.writes, a.Transient) :
    ∃ reqMsg b, IsRequest h (client.mInfo.str ClientInfo.clinetID.off)
        (client.mInfo.str ClientInfo.serverID.off) (randText 63 rand) reqMsg ∧
      Conveys RequestMsg.members b reqMsg ∧
      ∀ {incoming out resMsg server}, carried incoming = TcpSocket.frame out →
        connection.arriving (connection.socket.sent ++ TcpSocket.frame b) = ok incoming →
        Conveys RespondMsg.members out resMsg →
        IsResponse (client.mInfo.str ClientInfo.clinetID.off) server random' resMsg →
        ∃ client' table' info, secKeyAgree h memory rand connection client = ok (0, client') ∧
          client'.mSocket.sent = connection.socket.sent ++ TcpSocket.frame b ∧
          Stored h client client' (randText 63 rand) random' table' info := by
  obtain ⟨reqMsg, hrequest, hreq⟩ := request_eq hvalid.toIdsTerminated h rand memory.reqMsg
  obtain ⟨codec, b, hofMsg, hencode, hb⟩ :=
    RequestCodec.exists_conveys memory.requestCodec hreq.encodable
  obtain ⟨writable, writes, hsend, -, -⟩ := TcpSocket.sendMsg_eq hb.ne_nil hb.length_lt hwritable hwrites
    TcpSocket.timeoutSeconds
  refine ⟨reqMsg, b, hreq, hb, ?_⟩
  intro incoming out resMsg server hcarried harriving hout hres
  have hlen := hout.length_lt
  obtain ⟨readable, incoming', hreceive, -, -, -⟩ := @TcpSocket.receive_eq
    { connection.socket with
      writable := writable, writes := writes, incoming := incoming
      sent := connection.socket.sent ++ TcpSocket.frame b } out [] (by omega) hreadable
    (by rw [List.append_nil, ← hcarried]) TcpSocket.timeoutSeconds
  obtain ⟨d, msg, hdecode, hresult, hsame, hterm⟩ := hout.decoded memory.respondCodec [0]
  have hmsg := hres.of_same hsame hterm
  obtain ⟨info, table', haccept, htable', hinfo, hread⟩ := @acceptResponse_eq h
    ⟨client.mInfo, ⟨readable, writable, incoming', writes,
      connection.socket.sent ++ TcpSocket.frame b, connection.socket.connected⟩, client.mShm⟩
    table reqMsg msg _ _ _ _ hvalid htable hshm hreq hmsg memory
  have hrecvLen : ¬(b.length : ℤ) = 0 := by
    have hpos := List.length_pos_of_ne_nil hb.ne_nil
    omega
  refine ⟨⟨client.mInfo, ⟨readable, writable, incoming', writes,
    connection.socket.sent ++ TcpSocket.frame b, false⟩, some table'⟩, table', info, ?_, rfl,
    ⟨rfl, htable', hread, hinfo⟩⟩
  rw [secKeyAgree, hrequest, ok_bind, hofMsg, ok_bind, hencode, ok_bind]
  dsimp only
  rw [hsend, ok_bind]
  dsimp only
  rw [harriving, ok_bind, TcpSocket.recvMsgClient, if_neg hrecvLen, hreceive, ok_bind]
  dsimp only [Option.getD]
  rw [RespondCodec.msgDecode, RespondCodec.new, hdecode, ok_bind, hresult]
  exact haccept

end Client

end ClientOperation

/-! ## Sessions -/

/-- What two programs run with: the hash functions, the channel to the server and the one
back, the random numbers and the memory of both, and the configuration of the server. -/
structure Session where
  hashes : Hashes
  up : Channel
  down : Channel
  clientRand : ℕ → ℕ
  clientMemory : ClientMemory
  serverRand : ℕ → ℕ
  serverMemory : ServerMemory
  serverInfo : ServerInfo

namespace Session

/-- The socket of the client once it is connected. -/
def clientSocket (x : Session) : TcpSocket :=
  ⟨x.down.readable, x.up.writable, [], x.up.writes, [], true⟩

/-- The socket of the worker to which the client has sent the bytes `sent`. -/
def serverSocket (x : Session) (sent : Bytes) : TcpSocket :=
  ⟨x.up.readable, x.down.writable, x.up.deliver sent, x.down.writes, [], true⟩

/-- The worker, on what the client has sent. -/
def worker (x : Session) (sent : Bytes) : Outcome ServerOperation.WorkerEnd :=
  ServerOperation.working x.hashes x.serverMemory x.serverRand x.serverInfo (x.serverSocket sent)

/-- The connection of the client: what arrives at it is what the worker sends. -/
def connection (x : Session) : Connection where
  socket := x.clientSocket
  arriving sent := do
    let worker ← x.worker sent
    ok (x.down.deliver worker.socket.sent)

/-- The call of `secKeyAgree` of the client. -/
def client (x : Session) (c : ClientOperation) : Outcome (ℤ × ClientOperation) :=
  c.secKeyAgree x.hashes x.clientMemory x.clientRand x.connection

/-- The session ends with both sides holding one key: the worker has accepted the
authentication code and sent a response, and the client has returned zero and has a record
for its ids in its table, with the number and the key of the server. -/
def Agrees (x : Session) (c : ClientOperation) : Prop :=
  ∃ c' table worker agreement info,
    x.client c = ok (0, c') ∧ c'.mShm = some table ∧
    x.worker c'.mSocket.sent = ok worker ∧ worker.agreement = (0, some agreement) ∧
    worker.socket.sent = TcpSocket.frame agreement.outData ∧
    Conveys RespondMsg.members agreement.outData agreement.resMsg ∧
    (∀ out, SecKeyShm.shmRead c.mInfo.nodes (some table) (c.mInfo.ptr ClientInfo.clinetID.off)
      (c.mInfo.ptr ClientInfo.serverID.off) out = ok (0, info)) ∧
    info.int NodeSHMInfo.status.off = 0 ∧
    info.int NodeSHMInfo.seckeyID.off = agreement.resMsg.int RespondMsg.seckeyid.off ∧
    info.str NodeSHMInfo.seckey.off = agreement.seckey ∧ agreement.seckey.length = 40

/-- The configurations fit together: the client is valid, and the two programs know the
server under one id. -/
structure Configured (x : Session) (c : ClientOperation) : Prop where
  valid : c.mInfo.Valid
  serverID : 0 ∈ x.serverInfo.chars ServerInfo.serverID.off ServerInfo.serverID.cap
  sameServer : x.serverInfo.str ServerInfo.serverID.off = c.mInfo.str ClientInfo.serverID.off

/-- Every session agrees on a key. -/
theorem keyAgreement (x : Session) {c : ClientOperation} {table : List NodeSHMInfo}
    (hconf : x.Configured c) (htable : c.mInfo.OwnTable table) (hshm : c.mShm = some table) :
    x.Agrees c := by
  obtain ⟨reqMsg, b, hreq, hb, hclient⟩ := ClientOperation.secKeyAgree_eq hconf.valid htable hshm
    x.hashes x.clientMemory x.clientRand x.connection x.down.readable_transient
    x.up.writable_transient x.up.writes_transient
  -- the server makes the code from its own id, which is the one that the client has sent
  rw [← hconf.sameServer] at hreq
  obtain ⟨agreement, socket, hworker, hsent, hanswers⟩ := ServerOperation.working_eq hconf.serverID
    hreq hb (s := x.serverSocket (TcpSocket.frame b)) x.up.readable_transient
    x.down.writable_transient x.down.writes_transient (x.up.carried_deliver _) x.serverMemory
    x.serverRand
  have harriving : x.connection.arriving (TcpSocket.frame b) = ok (x.down.deliver socket.sent) := by
    simp only [connection, worker, hworker, ok_bind]
  have hcarried : carried (x.down.deliver socket.sent) = TcpSocket.frame agreement.outData := by
    rw [x.down.carried_deliver, hsent]
    rfl
  obtain ⟨c', table', info, hrun, hup, hstored⟩ := hclient hcarried harriving hanswers.conveys
    hanswers.response
  refine ⟨c', table', ⟨(0, some agreement), socket⟩, agreement, info, hrun, hstored.mShm, ?_, rfl,
    hsent.trans (List.nil_append _), hanswers.conveys, hstored.read, hstored.record.status, ?_, ?_, ?_⟩
  · rw [hup]
    exact hworker
  · rw [hstored.record.seckeyID, hanswers.response.seckeyid]
    rfl
  · rw [hstored.record.seckey, hanswers.seckey]
  · rw [hanswers.seckey, length_keyText]

/-- A session of a client `1` with a server `2`. -/
def oneTwo : Session where
  hashes := ⟨fun key data => .ofFn fun i => (key ++ data).getD i 0, fun data => .ofFn fun i => data.getD i 0⟩
  up := .bytewise
  down := .bytewise
  clientRand i := i
  clientMemory := ⟨.zero 160, .zero 160, .zero 96, .zero 160⟩
  serverRand i := 7 * i
  serverMemory := ⟨.zero 160, .zero 96, .zero 96⟩
  serverInfo := ⟨0x32 :: List.replicate 95 0, by simp⟩

/-- The configuration of the client `1`, with one node. -/
def oneInfo : ClientInfo :=
  ⟨0x31 :: List.replicate 11 0 ++ 0x32 :: List.replicate 47 0 ++ intBytes 1 ++ intBytes 0, by simp⟩

theorem keyAgreement_oneTwo :
    oneTwo.Agrees ⟨oneInfo, oneTwo.clientSocket, some (List.replicate oneInfo.nodes .empty)⟩ :=
  keyAgreement oneTwo
    ⟨⟨⟨by decide +kernel, by decide +kernel⟩, by decide +kernel, by decide +kernel⟩,
      by decide +kernel, by decide +kernel⟩ .zeroed rfl

end Session

end SafeTransmission
