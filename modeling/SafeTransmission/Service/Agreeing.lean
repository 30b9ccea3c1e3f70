import SafeTransmission.Service.Service

/-!
# All clients agree with the server

With any number of clients, and with the steps of all programs in any order, every call of
`secKeyAgree` that returns has been served by a worker of its own, and leaves the key of this
worker in the table of the client.  This is so exactly if no worker looks its socket up before
`startWork` has inserted it, and the bytes that somebody else sends do not make a worker fail
(`agreed_iff`).

What is assumed of the map, of the connections and of the tables stands in `Service.Service`.

## Strategy

The invariant `Inv` relates each client to its connection, and each connection to its worker.

* A client is at one of the places of `At`: idle, behind `connect`, behind its request, or behind
  the answer of its worker.  Steps of others leave it there (`At.of_others`), because connections
  only ever gain something (`Later`).
* What a call is made of (`encodeRequest_requests`, `sendMsg_requests`, `working_answered`,
  `takeResponse_answered`) comes from the single session in `Agreement.KeyAgreement`.
* There is one lemma for each step (`Inv.connect`, `Inv.send`, `Inv.receive`, `Inv.stranger`,
  `Inv.server`).  For the server it rests on the invariant of `Sessions`: the worker that serves a
  connection finds its own socket (`Inv.linkOf_eq`).
* A step that is disturbed breaks what is to hold itself (`Inv.undisturbed`), so the condition is
  exact.
-/

namespace SafeTransmission

open Outcome Codec

namespace Service

variable (D : Deployment) (s : Service)

/-- What the worker of a connection has made. -/
def agreementOf (k : ℕ) : Option Agreement :=
  ((s.links[k]?).bind Link.worker).bind fun worker => worker.agreement.2

/-- The last call of the client that has returned. -/
def latest (c : ℕ) : Option Finished :=
  (s.finished.filter fun f => f.client = c).getLast?

/-- A client has the key of a connection in its table, under its ids. -/
def HasKey (client : ClientOperation) (k : ℕ) : Prop :=
  ∃ table agreement info, client.mShm = some table ∧ s.agreementOf k = some agreement ∧
    (∀ out, SecKeyShm.shmRead client.mInfo.nodes (some table)
      (client.mInfo.ptr ClientInfo.clinetID.off) (client.mInfo.ptr ClientInfo.serverID.off) out =
        ok (0, info)) ∧
    info.int NodeSHMInfo.seckeyID.off = agreement.resMsg.int RespondMsg.seckeyid.off ∧
    info.str NodeSHMInfo.seckey.off = agreement.seckey ∧ agreement.seckey.length = 40

/-- The clients and the server agree. -/
structure Agreed : Prop where
  separate : s.sessions.Separate
  infos : s.clients.map (fun client => client.operation.mInfo) = D.clientInfos
  /-- No two calls share a connection. -/
  once : (s.finished.map Finished.link).Nodup
  /-- A call succeeds over a connection of its client, which its own worker has served. -/
  finished : ∀ f ∈ s.finished, f.ret = 0 ∧ (f.link, f.link) ∈ s.sessions.served ∧
    ∃ link, s.links[f.link]? = some link ∧ link.owner = some f.client
  keys : ∀ c client f, s.clients[c]? = some client → s.latest c = some f →
    s.HasKey client.operation f.link

/-- The step is defined, and the clients and the server agree behind it. -/
def Serves (e : Event) : Prop :=
  (∀ kind, s.step D e ≠ fault kind) ∧ ∀ s', s.step D e = ok s' → s'.Agreed D

/-- No worker looks up its thread id too early, and none fails on the bytes of a stranger. -/
structure Undisturbed (e : Event) : Prop where
  inserted : ∀ e', e = .server e' → s.sessions.Inserted e'
  stranger : ∀ w memory rand k link request, e = .serve w memory rand → s.linkOf w = some k →
    s.links[k]? = some link → link.owner = none → link.request = some request →
    ∀ kind, ServerOperation.working D.hashes memory rand D.serverInfo (link.socket request) ≠
      fault kind

/-! ## The invariant -/

variable {D s} {s' : Service} {c k : ℕ} {client : Client} {mInfo : ClientInfo} {stage : Stage}
  {x : Call}

/-- The connection of a call that has not returned. -/
structure Holds (s : Service) (c k : ℕ) (x : Call) (link : Link) : Prop where
  found : s.links[k]? = some link
  owner : link.owner = some c
  up : link.up = x.up
  down : link.down = x.down
  unfinished : ∀ f ∈ s.finished, f.link ≠ k

/-- The request of a call, and its encoding. -/
structure Requests (D : Deployment) (mInfo : ClientInfo) (x : Call) (reqMsg : RequestMsg)
    (b : Bytes) (outLen : ℤ) : Prop where
  request : IsRequest D.hashes (mInfo.str ClientInfo.clinetID.off)
    (mInfo.str ClientInfo.serverID.off) (randText 63 x.rand) reqMsg
  conveys : Conveys RequestMsg.members b reqMsg
  outLen : outLen = b.length

/-- The bytes are the request of some call. -/
def Requested (D : Deployment) (bytes : Bytes) : Prop :=
  ∃ mInfo ∈ D.clientInfos, ∃ x reqMsg b outLen,
    Requests D mInfo x reqMsg b outLen ∧ bytes = TcpSocket.frame b

/-- The worker has answered the request of a call. -/
def Answered (D : Deployment) (mInfo : ClientInfo) (x : Call) (worker : ServerOperation.WorkerEnd) :
    Prop :=
  ∃ agreement random, worker.agreement = (0, some agreement) ∧
    worker.socket.sent = TcpSocket.frame agreement.outData ∧
    ServerOperation.Answers D.hashes (mInfo.str ClientInfo.clinetID.off)
      (mInfo.str ClientInfo.serverID.off) (randText 63 x.rand) random agreement

/-- Where a client is, and what it has there. -/
inductive At (D : Deployment) (s : Service) (c : ℕ) (mInfo : ClientInfo) : Stage → Prop where
  | idle : At D s c mInfo .idle
  | connected (k : ℕ) (x : Call) (reqMsg : RequestMsg) (b : Bytes) (outLen : ℤ) (link : Link) :
      s.Holds c k x link → Requests D mInfo x reqMsg b outLen → link.request = none →
      link.worker = none → At D s c mInfo (.connected k x reqMsg b outLen)
  | waiting (k : ℕ) (x : Call) (reqMsg : RequestMsg) (b : Bytes) (outLen : ℤ) (socket : TcpSocket)
      (link : Link) : s.Holds c k x link → Requests D mInfo x reqMsg b outLen →
      link.request = some (TcpSocket.frame b) → socket.readable = x.down.readable →
      (∀ worker, link.worker = some worker → Answered D mInfo x worker) →
      At D s c mInfo (.waiting k x reqMsg outLen socket)

structure Inv (D : Deployment) (s : Service) : Prop where
  sessions : s.sessions.Inv
  infos : s.clients.map (fun client => client.operation.mInfo) = D.clientInfos
  table : ∀ client ∈ s.clients, ∃ table, client.operation.mShm = some table ∧
    client.operation.mInfo.OwnTable table
  stage : ∀ c client, s.clients[c]? = some client → At D s c client.operation.mInfo client.stage
  /-- What a client has sent is a request. -/
  requests : ∀ (k : ℕ) (link : Link) c request, s.links[k]? = some link → link.owner = some c →
    link.request = some request → Requested D request
  worker : ∀ k link worker, s.links[k]? = some link → link.worker = some worker →
    (k, k) ∈ s.sessions.served
  once : (s.finished.map Finished.link).Nodup
  finished : ∀ f ∈ s.finished, f.ret = 0 ∧ (f.link, f.link) ∈ s.sessions.served ∧
    ∃ link, s.links[f.link]? = some link ∧ link.owner = some f.client
  keys : ∀ c client f, s.clients[c]? = some client → s.latest c = some f →
    s.HasKey client.operation f.link

theorem Inv.agreed (h : Inv D s) : s.Agreed D :=
  ⟨h.sessions.separate, h.infos, h.once, h.finished, h.keys⟩

theorem inv_init : Inv D (init D) where
  sessions := Sessions.inv_init
  infos := by simp [init, Function.comp_def]
  table := by
    intro client hmem
    obtain ⟨mInfo, -, rfl⟩ := List.mem_map.mp hmem
    exact ⟨_, rfl, .zeroed⟩
  stage := by
    intro c client hc
    obtain ⟨mInfo, -, rfl⟩ := List.mem_map.mp (List.mem_of_getElem? hc)
    exact .idle
  requests := by simp [init]
  worker := by simp [init]
  once := List.nodup_nil
  finished := by simp [init]
  keys := by simp [init, latest]

theorem Inv.mInfo_mem (h : Inv D s) (hc : s.clients[c]? = some client) :
    client.operation.mInfo ∈ D.clientInfos := by
  rw [← h.infos]
  exact List.mem_map_of_mem (List.mem_of_getElem? hc)

/-! ## What the steps of others leave alone -/

theorem Holds.of_others {link : Link} (h : s.Holds c k x link) (hlink : s'.links[k]? = some link)
    (hfinished : ∀ f ∈ s'.finished, f ∈ s.finished ∨
      ∃ other, s.links[f.link]? = some other ∧ other.owner ≠ some c) : s'.Holds c k x link where
  found := hlink
  owner := h.owner
  up := h.up
  down := h.down
  unfinished := by
    intro f hf
    rcases hfinished f hf with hold | ⟨other, hother, howner⟩
    · exact h.unfinished f hold
    · intro hsame
      rw [hsame, h.found] at hother
      cases hother
      exact howner h.owner

/-- A client stays where it is as long as others leave its connection alone. -/
theorem At.of_others (h : At D s c mInfo stage)
    (hlinks : ∀ (k : ℕ) (link : Link), s.links[k]? = some link → link.owner = some c →
      s'.links[k]? = some link)
    (hfinished : ∀ f ∈ s'.finished, f ∈ s.finished ∨
      ∃ other, s.links[f.link]? = some other ∧ other.owner ≠ some c) : At D s' c mInfo stage := by
  cases h with
  | idle => exact .idle
  | connected k x reqMsg b outLen link hholds hrequests hrequest hworker =>
      have hlink := hlinks k link hholds.found hholds.owner
      exact .connected k x reqMsg b outLen link (hholds.of_others hlink hfinished) hrequests hrequest
        hworker
  | waiting k x reqMsg b outLen socket link hholds hrequests hrequest hsocket hworker =>
      have hlink := hlinks k link hholds.found hholds.owner
      exact .waiting k x reqMsg b outLen socket link (hholds.of_others hlink hfinished) hrequests
        hrequest hsocket hworker

/-- No connection goes away, and none loses its worker. -/
structure Later (s s' : Service) : Prop where
  links : ∀ (k : ℕ) (link : Link), s.links[k]? = some link →
    ∃ link', s'.links[k]? = some link' ∧ link'.owner = link.owner ∧
      ∀ worker, link.worker = some worker → link'.worker = some worker
  served : ∀ session ∈ s.sessions.served, session ∈ s'.sessions.served

theorem later_of_eq (hlinks : s'.links = s.links)
    (hserved : ∀ session ∈ s.sessions.served, session ∈ s'.sessions.served) : s.Later s' where
  links k link hlink := ⟨link, by rw [hlinks, hlink], rfl, fun _ hworker => hworker⟩
  served := hserved

theorem later_of_append {link : Link} (hlinks : s'.links = s.links ++ [link])
    (hserved : s'.sessions.served = s.sessions.served) : s.Later s' where
  links k old hold := by
    refine ⟨old, ?_, rfl, fun _ hworker => hworker⟩
    rw [hlinks]
    exact getElem?_append_of_some hold _
  served session hmem := by rwa [hserved]

theorem later_of_set {link link' : Link} (hlink : s.links[k]? = some link)
    (hlinks : s'.links = s.links.set k link') (howner : link'.owner = link.owner)
    (hworker : ∀ worker, link.worker = some worker → link'.worker = some worker)
    (hserved : ∀ session ∈ s.sessions.served, session ∈ s'.sessions.served) : s.Later s' where
  links j old hold := by
    rw [hlinks, getElem?_set_of_some hlink]
    split
    · rename_i hjk
      subst hjk
      cases hlink.symm.trans hold
      exact ⟨link', rfl, howner, hworker⟩
    · exact ⟨old, hold, rfl, fun _ hsame => hsame⟩
  served := hserved

theorem HasKey.later {operation : ClientOperation} (h : s.HasKey operation k) (hlater : s.Later s') :
    s'.HasKey operation k := by
  obtain ⟨table, agreement, info, hshm, hagreement, hread, hid, hkey⟩ := h
  refine ⟨table, agreement, info, hshm, ?_, hread, hid, hkey⟩
  unfold agreementOf at hagreement ⊢
  obtain ⟨worker, hworker, hagreement⟩ := Option.bind_eq_some_iff.mp hagreement
  obtain ⟨link, hlink, hworker⟩ := Option.bind_eq_some_iff.mp hworker
  obtain ⟨link', hlink', -, hsame⟩ := hlater.links k link hlink
  rw [hlink', Option.bind_some, hsame worker hworker, Option.bind_some]
  exact hagreement

theorem finished_later (hlater : s.Later s') {f : Finished}
    (h : f.ret = 0 ∧ (f.link, f.link) ∈ s.sessions.served ∧
      ∃ link, s.links[f.link]? = some link ∧ link.owner = some f.client) :
    f.ret = 0 ∧ (f.link, f.link) ∈ s'.sessions.served ∧
      ∃ link, s'.links[f.link]? = some link ∧ link.owner = some f.client := by
  obtain ⟨hret, hserved, link, hlink, howner⟩ := h
  obtain ⟨link', hlink', hsame, -⟩ := hlater.links f.link link hlink
  exact ⟨hret, hlater.served _ hserved, link', hlink', hsame.trans howner⟩

/-- A step that leaves the operations of the clients and the finished calls alone. -/
theorem Inv.of_later (h : Inv D s) (hlater : s.Later s') (hsessions : s'.sessions.Inv)
    (hoperations : s'.clients.map Client.operation = s.clients.map Client.operation)
    (hfinished : s'.finished = s.finished)
    (hstage : ∀ c client, s'.clients[c]? = some client →
      At D s' c client.operation.mInfo client.stage)
    (hrequests : ∀ (k : ℕ) (link : Link) c request, s'.links[k]? = some link →
      link.owner = some c → link.request = some request → Requested D request)
    (hworker : ∀ (k : ℕ) link worker, s'.links[k]? = some link → link.worker = some worker →
      (k, k) ∈ s'.sessions.served) : Inv D s' where
  sessions := hsessions
  infos := by
    have hmap := congrArg (List.map ClientOperation.mInfo) hoperations
    rw [List.map_map, List.map_map] at hmap
    exact hmap.trans h.infos
  table := by
    intro client hmem
    have hold : client.operation ∈ s.clients.map Client.operation := by
      rw [← hoperations]
      exact List.mem_map_of_mem hmem
    obtain ⟨old, hold, hsame⟩ := List.mem_map.mp hold
    rw [← hsame]
    exact h.table old hold
  stage := hstage
  requests := hrequests
  worker := hworker
  once := by
    rw [hfinished]
    exact h.once
  finished := by
    rw [hfinished]
    exact fun f hf => finished_later hlater (h.finished f hf)
  keys := by
    intro c client f hc hlatest
    unfold latest at hlatest
    rw [hfinished] at hlatest
    have hmap := congrArg (fun operations => operations[c]?) hoperations
    simp only [List.getElem?_map, hc, Option.map_some] at hmap
    obtain ⟨old, hold, hsame⟩ := Option.map_eq_some_iff.mp hmap.symm
    rw [← hsame]
    exact (h.keys c old f hold hlatest).later hlater

/-! ## The parts of a call -/

theorem encodeRequest_requests (hids : mInfo.IdsTerminated) (x : Call) (reply : Bytes) :
    ∃ reqMsg b outLen, (x.attempt reply).encodeRequest D.hashes mInfo = ok (reqMsg, b, outLen) ∧
      Requests D mInfo x reqMsg b outLen := by
  obtain ⟨reqMsg, hrequest, hreq⟩ :=
    ClientOperation.request_eq hids D.hashes x.rand x.memory.reqMsg
  obtain ⟨codec, b, hofMsg, hencode, hb⟩ :=
    RequestCodec.exists_conveys x.memory.requestCodec hreq.encodable
  refine ⟨reqMsg, b, b.length, ?_, hreq, hb, rfl⟩
  change (do
    let reqMsg ← ClientOperation.request D.hashes mInfo x.rand x.memory.reqMsg
    let codec ← RequestCodec.ofMsg .seckey x.memory.requestCodec reqMsg
    let encoded ← RequestCodec.msgEncode .seckey codec
    ok (reqMsg, encoded)) = _
  rw [hrequest, ok_bind, hofMsg, ok_bind, hencode, ok_bind]

theorem sendMsg_requests {reqMsg : RequestMsg} {b : Bytes} {outLen : ℤ}
    (h : Requests D mInfo x reqMsg b outLen) :
    ∃ socket, x.socket.sendMsg b outLen TcpSocket.timeoutSeconds = ok (0, socket) ∧
      socket.sent = TcpSocket.frame b ∧ socket.readable = x.down.readable := by
  obtain ⟨writable, writes, hsend, -, -⟩ := @TcpSocket.sendMsg_eq x.socket b h.conveys.ne_nil
    h.conveys.length_lt x.up.writable_transient x.up.writes_transient TcpSocket.timeoutSeconds
  rw [← h.outLen] at hsend
  exact ⟨_, hsend, rfl, rfl⟩

theorem takeResponse_answered {operation : ClientOperation} {table : List NodeSHMInfo}
    {reqMsg : RequestMsg} {b : Bytes} {outLen : ℤ} {socket : TcpSocket}
    {worker : ServerOperation.WorkerEnd} (hvalid : operation.mInfo.Valid)
    (htable : operation.mInfo.OwnTable table) (hshm : operation.mShm = some table)
    (hrequests : Requests D operation.mInfo x reqMsg b outLen)
    (hsocket : socket.readable = x.down.readable)
    (hanswered : Answered D operation.mInfo x worker) :
    ∃ operation' table' agreement info,
      x.takeResponse D.hashes reqMsg outLen socket worker.socket.sent operation =
        ok (0, operation') ∧
      operation'.mInfo = operation.mInfo ∧ operation'.mShm = some table' ∧
      operation.mInfo.OwnTable table' ∧ worker.agreement = (0, some agreement) ∧
      (∀ out, SecKeyShm.shmRead operation.mInfo.nodes (some table')
        (operation.mInfo.ptr ClientInfo.clinetID.off)
        (operation.mInfo.ptr ClientInfo.serverID.off) out = ok (0, info)) ∧
      info.int NodeSHMInfo.seckeyID.off = agreement.resMsg.int RespondMsg.seckeyid.off ∧
      info.str NodeSHMInfo.seckey.off = agreement.seckey ∧ agreement.seckey.length = 40 := by
  obtain ⟨agreement, random, hagreement, hsent, hanswers⟩ := hanswered
  have hlen := hanswers.conveys.length_lt
  -- the frame of the worker arrives, and is decoded
  obtain ⟨readable, incoming, hreceive, -, -, -⟩ := @TcpSocket.receive_eq
    { socket with incoming := x.down.deliver worker.socket.sent } agreement.outData [] (by omega)
    (by rw [hsocket]; exact x.down.readable_transient)
    (by rw [x.down.carried_deliver, hsent, List.append_nil]) TcpSocket.timeoutSeconds
  obtain ⟨d, resMsg, hdecode, hresult, hsame, hterm⟩ :=
    hanswers.conveys.decoded x.memory.respondCodec [0]
  have hres := hanswers.response.of_same hsame hterm
  -- the client's `recvMsg` refuses only the length zero
  have hne : ¬outLen = 0 := by
    have hpos := List.length_pos_of_ne_nil hrequests.conveys.ne_nil
    have heq := hrequests.outLen
    omega
  -- there is a slot for the record in the client's own table
  obtain ⟨info, table', haccept, htable', hrecord, hread⟩ := @ClientOperation.acceptResponse_eq
    D.hashes { operation with mSocket := { socket with readable := readable, incoming := incoming } }
    table reqMsg resMsg _ _ _ _ hvalid htable hshm hrequests.request hres x.memory
  refine ⟨⟨operation.mInfo, TcpSocket.disConnect { socket with readable, incoming }, some table'⟩,
    table', agreement, info, ?_, rfl, rfl, htable', hagreement, hread, ?_, ?_, ?_⟩
  rotate_left
  · rw [hrecord.seckeyID, hanswers.response.seckeyid]
    rfl
  · rw [hrecord.seckey, hanswers.seckey]
  · rw [hanswers.seckey, length_keyText]
  · rw [Call.takeResponse, TcpSocket.recvMsgClient, if_neg hne, hreceive, ok_bind,
      Attempt.decodeResponse, Option.getD_some]
    dsimp only
    rw [RespondCodec.msgDecode, RespondCodec.new]
    change (Codec.msgDecode RespondMsg.members .seckey ⟨.empty, x.memory.respondCodec⟩
      (agreement.outData ++ [0]) agreement.outData.length >>= _) >>= _ = _
    rw [hdecode, ok_bind, hresult]
    dsimp only
    rw [ok_bind]
    exact haccept

theorem working_answered {reqMsg : RequestMsg} {b : Bytes} {outLen : ℤ}
    (hmInfo : mInfo ∈ D.clientInfos) (hrequests : Requests D mInfo x reqMsg b outLen) (link : Link)
    (memory : ServerMemory) (rand : ℕ → ℕ) :
    ∃ worker, ServerOperation.working D.hashes memory rand D.serverInfo
        (link.socket (TcpSocket.frame b)) = ok worker ∧ Answered D mInfo x worker := by
  have hreq := hrequests.request
  rw [← D.sameServer mInfo hmInfo] at hreq
  obtain ⟨agreement, socket, hworking, hsent, hanswers⟩ := ServerOperation.working_eq D.serverID hreq
    hrequests.conveys (s := link.socket (TcpSocket.frame b)) link.up.readable_transient
    link.down.writable_transient link.down.writes_transient (link.up.carried_deliver _) memory rand
  rw [D.sameServer mInfo hmInfo] at hanswers
  exact ⟨_, hworking, agreement, _, rfl, hsent, hanswers⟩

/-! ## One step -/

/-- The step is defined, and keeps the invariant. -/
def Kept (D : Deployment) (r : Outcome Service) : Prop :=
  (∀ kind, r ≠ fault kind) ∧ ∀ s', r = ok s' → Inv D s'

theorem kept_err (code : ℤ) : Kept D (err code) := by
  constructor
  · simp
  · simp

theorem kept_disabled : Kept D disabled :=
  kept_err 0

theorem kept_ok (h : Inv D s) : Kept D (ok s) := by
  constructor
  · simp
  · intro s' hs'
    cases hs'
    exact h

theorem kept_getClient {next : Client → Outcome Service}
    (h : ∀ client, s.clients[c]? = some client → Kept D (next client)) :
    Kept D (s.getClient c >>= next) := by
  unfold getClient
  cases hc : s.clients[c]? with
  | none => exact kept_disabled
  | some client => exact h client hc

theorem map_operation_set (hc : s.clients[c]? = some client) (stage : Stage) :
    (s.clients.set c { client with stage := stage }).map Client.operation =
      s.clients.map Client.operation :=
  map_set_of_eq hc rfl

theorem at_of_set {client' : Client} (hc : s.clients[c]? = some client)
    (hclients : s'.clients = s.clients.set c client')
    (hown : At D s' c client'.operation.mInfo client'.stage)
    (hothers : ∀ j other, j ≠ c → s.clients[j]? = some other →
      At D s' j other.operation.mInfo other.stage) :
    ∀ j other, s'.clients[j]? = some other → At D s' j other.operation.mInfo other.stage := by
  rw [hclients]
  exact forall_getElem?_set (P := fun j other => At D s' j other.operation.mInfo other.stage) hc hown
    hothers

/-- Which connections have a worker after a change of one of them. -/
theorem worker_of_set {link link' : Link} (hlink : s.links[k]? = some link)
    (hlinks : s'.links = s.links.set k link')
    (hown : ∀ worker, link'.worker = some worker → (k, k) ∈ s'.sessions.served)
    (hothers : ∀ (j : ℕ) other worker, j ≠ k → s.links[j]? = some other →
      other.worker = some worker → (j, j) ∈ s'.sessions.served) :
    ∀ (j : ℕ) other worker, s'.links[j]? = some other → other.worker = some worker →
      (j, j) ∈ s'.sessions.served := by
  intro j other worker hj hworker
  rw [hlinks, getElem?_set_of_some hlink] at hj
  split at hj
  · rename_i hjk
    cases hj
    rw [hjk]
    exact hown worker hworker
  · rename_i hjk
    exact hothers j other worker hjk hj hworker

theorem Inv.ids (h : Inv D s) (hc : s.clients[c]? = some client) :
    client.operation.mInfo.Valid :=
  D.valid _ (h.mInfo_mem hc)

theorem Inv.connect (h : Inv D s) (c : ℕ) (x : Call) : Kept D (s.connect D c x) := by
  unfold Service.connect
  refine kept_getClient fun client hc => ?_
  cases hstage : client.stage with
  | connected => exact kept_disabled
  | waiting => exact kept_disabled
  | idle =>
      obtain ⟨reqMsg, b, outLen, hencode, hrequests⟩ :=
        encodeRequest_requests (D := D) (h.ids hc).toIdsTerminated x []
      simp only [hencode, ok_bind]
      refine kept_ok ?_
      have hlater : s.Later { s.setClient c { client with
          stage := .connected s.links.length x reqMsg b outLen } with
            links := s.links ++ [⟨some c, x.up, x.down, none, none⟩] } := later_of_append rfl rfl
      refine h.of_later hlater h.sessions (map_operation_set hc _) rfl ?_ ?_ ?_
      · refine at_of_set hc rfl ?_ ?_
        · refine .connected s.links.length x reqMsg b outLen ⟨some c, x.up, x.down, none, none⟩ ?_ hrequests
            rfl rfl
          refine ⟨List.getElem?_concat_length, rfl, rfl, rfl, ?_⟩
          -- the connections of calls that have returned are older
          intro f hf hsame
          obtain ⟨-, -, link, hlink, -⟩ := h.finished f hf
          have hlt := (List.getElem?_eq_some_iff.mp hlink).1
          omega
        · intro j other _ hj
          apply (h.stage j other hj).of_others
          · exact fun k link hlink _ => getElem?_append_of_some hlink _
          · exact fun f hf => Or.inl hf
      · intro k link owner request hlink howner hrequest
        rcases getElem?_concat hlink with hlink | ⟨-, rfl⟩
        · exact h.requests k link owner request hlink howner hrequest
        · cases hrequest
      · intro k link worker hlink hworker
        rcases getElem?_concat hlink with hlink | ⟨-, rfl⟩
        · exact h.worker k link worker hlink hworker
        · cases hworker

/-- The connection of a client is not that of another one. -/
theorem getElem?_set_of_owner {link link' other : Link} {j : ℕ} (hlink : s.links[k]? = some link)
    (hother : s.links[j]? = some other) (howner : other.owner ≠ link.owner) :
    (s.links.set k link')[j]? = some other := by
  rw [getElem?_set_of_some hlink, if_neg, hother]
  intro hjk
  subst hjk
  cases hlink.symm.trans hother
  exact howner rfl

theorem Inv.send (h : Inv D s) (c : ℕ) : Kept D (s.send c) := by
  unfold Service.send
  refine kept_getClient fun client hc => ?_
  have hat := h.stage c client hc
  cases hstage : client.stage with
  | idle => exact kept_disabled
  | waiting => exact kept_disabled
  | connected k x reqMsg b outLen =>
      rw [hstage] at hat
      cases hat with
      | connected _ _ _ _ _ link hholds hrequests hrequest hworker =>
          obtain ⟨socket, hsend, hsent, hreadable⟩ := sendMsg_requests hrequests
          simp only [hholds.found, hsend, ok_bind]
          refine kept_ok ?_
          refine h.of_later (later_of_set hholds.found rfl rfl (fun _ hw => hw) fun _ hs => hs)
            h.sessions (map_operation_set hc _) rfl ?_ ?_ ?_
          · -- this client now waits, and the others are where they were
            refine at_of_set hc rfl ?_ ?_
            · refine .waiting k x reqMsg b outLen socket { link with request := some socket.sent } ?_
                hrequests (congrArg some hsent) hreadable ?_
              · refine ⟨?_, hholds.owner, hholds.up, hholds.down, hholds.unfinished⟩
                exact (getElem?_set_of_some hholds.found _ k).trans (if_pos rfl)
              · intro worker hw
                rw [hworker] at hw
                cases hw
            · intro j other hne hj
              apply (h.stage j other hj).of_others
              · intro i old hold howner
                apply getElem?_set_of_owner hholds.found hold
                rw [howner, hholds.owner]
                exact fun hsame => hne (Option.some.inj hsame)
              · exact fun f hf => Or.inl hf
          · -- the new request is the one of this call
            intro j other owner request hj howner hsome
            change (s.links.set k { link with request := some socket.sent })[j]? = some other at hj
            rw [getElem?_set_of_some hholds.found] at hj
            split at hj
            · cases hj
              cases hsome
              exact ⟨_, h.mInfo_mem hc, x, reqMsg, b, outLen, hrequests, hsent⟩
            · exact h.requests j other owner request hj howner hsome
          · refine worker_of_set hholds.found rfl ?_ ?_
            · exact fun worker hw => h.worker k link worker hholds.found hw
            · exact fun j other worker _ => h.worker j other worker

theorem latest_append_self {f : Finished} (finished : List Finished) :
    ((finished ++ [f]).filter fun g => g.client = f.client).getLast? = some f := by
  simp

theorem latest_append_of_ne {f : Finished} (finished : List Finished) (hne : f.client ≠ c) :
    ((finished ++ [f]).filter fun g => g.client = c).getLast? =
      (finished.filter fun g => g.client = c).getLast? := by
  simp [hne]

theorem Inv.finish (h : Inv D s) (hc : s.clients[c]? = some client) {link : Link}
    {operation : ClientOperation} {table : List NodeSHMInfo} (hholds : s.Holds c k x link)
    (hserved : (k, k) ∈ s.sessions.served) (hmInfo : operation.mInfo = client.operation.mInfo)
    (hshm : operation.mShm = some table) (htable : operation.mInfo.OwnTable table)
    (hkey : s.HasKey operation k) :
    Inv D { s.setClient c ⟨operation, .idle⟩ with finished := s.finished ++ [⟨c, k, 0⟩] } where
  sessions := h.sessions
  infos := by
    rw [← h.infos]
    exact map_set_of_eq hc hmInfo
  table := forall_mem_set h.table ⟨table, hshm, htable⟩ c
  stage := by
    refine at_of_set hc rfl .idle ?_
    intro j other hne hj
    apply (h.stage j other hj).of_others
    · exact fun i old hold _ => hold
    · -- the last call of this client is the new one
      intro f hf
      -- the call that has returned belongs to another client
      rcases List.mem_append.mp hf with hold | hnew
      · exact Or.inl hold
      · right
        rw [List.mem_singleton.mp hnew]
        refine ⟨link, hholds.found, ?_⟩
        rw [hholds.owner]
        exact fun hsame => hne (Option.some.inj hsame).symm
  requests := h.requests
  worker := h.worker
  once := by
    rw [List.map_append, List.nodup_append]
    refine ⟨h.once, List.nodup_singleton _, ?_⟩
    intro i hi j hj
    obtain ⟨f, hf, rfl⟩ := List.mem_map.mp hi
    rw [List.mem_singleton.mp hj]
    exact hholds.unfinished f hf
  finished := by
    apply forall_mem_concat h.finished
    exact ⟨rfl, hserved, link, hholds.found, hholds.owner⟩
  keys := by
    have hkeys : ∀ (j : ℕ) (other : Client), (s.clients.set c ⟨operation, .idle⟩)[j]? = some other →
        ∀ f, ((s.finished ++ [(⟨c, k, 0⟩ : Finished)]).filter fun g => g.client = j).getLast? = some f →
          s.HasKey other.operation f.link := by
      apply forall_getElem?_set (P := fun j other => ∀ f,
        ((s.finished ++ [(⟨c, k, 0⟩ : Finished)]).filter fun g => g.client = j).getLast? = some f →
          s.HasKey other.operation f.link) hc
      · intro f hf
        rw [latest_append_self (f := ⟨c, k, 0⟩)] at hf
        cases hf
        exact hkey
      · intro j other hne hj f hf
        rw [latest_append_of_ne (f := ⟨c, k, 0⟩) _ hne.symm] at hf
        exact h.keys j other f hj hf
    exact fun j other f hj hf => hkeys j other hj f hf

theorem Inv.receive (h : Inv D s) (c : ℕ) : Kept D (s.receive D c) := by
  unfold Service.receive
  refine kept_getClient fun client hc => ?_
  have hat := h.stage c client hc
  cases hstage : client.stage with
  | idle => exact kept_disabled
  | connected => exact kept_disabled
  | waiting k x reqMsg outLen socket =>
      rw [hstage] at hat
      cases hat with
      | waiting _ _ _ b _ _ link hholds hrequests hrequest hreadable hworker =>
          dsimp only
          rw [hholds.found, Option.bind_some]
          cases hend : link.worker with
          | none => exact kept_disabled
          | some worker =>
              obtain ⟨table, hshm, htable⟩ := h.table client (List.mem_of_getElem? hc)
              obtain ⟨operation, table', agreement, info, htake, hmInfo, hshm', htable', hagreement,
                hread, hid, hkey, hlen⟩ := takeResponse_answered (h.ids hc) htable hshm hrequests
                  hreadable (hworker worker hend)
              simp only [htake, ok_bind]
              refine kept_ok (h.finish hc hholds (h.worker k link worker hholds.found hend) hmInfo
                hshm' (hmInfo ▸ htable') ?_)
              refine ⟨table', agreement, info, hshm', ?_, ?_, hid, hkey, hlen⟩
              · rw [agreementOf, hholds.found, Option.bind_some, hend, Option.bind_some, hagreement]
              · rw [hmInfo]
                exact hread

theorem Inv.stranger (h : Inv D s) (up down : Channel) (request : Bytes) :
    Kept D (s.stranger up down request) := by
  refine kept_ok (h.of_later (later_of_append rfl rfl) h.sessions rfl rfl ?_ ?_ ?_)
  · intro c client hc
    apply (h.stage c client hc).of_others
    · exact fun k link hlink _ => getElem?_append_of_some hlink _
    · exact fun f hf => Or.inl hf
  · intro k link owner request hlink howner hrequest
    rcases getElem?_concat hlink with hlink | ⟨-, rfl⟩
    · exact h.requests k link owner request hlink howner hrequest
    · cases howner
  · intro k link worker hlink hworker
    rcases getElem?_concat hlink with hlink | ⟨-, rfl⟩
    · exact h.worker k link worker hlink hworker
    · cases hworker

/-! ## The server -/

theorem linkOf_eq_some {w : ℕ} : s.linkOf w = some k ↔
    ∃ worker, s.sessions.workers[w]? = some worker ∧ worker.phase = .obtained (some k) := by
  unfold linkOf
  rw [Option.bind_eq_some_iff]
  constructor
  · intro h
    obtain ⟨worker, hw, hphase⟩ := h
    refine ⟨worker, hw, ?_⟩
    split at hphase
    · rename_i socket hobtained
      rw [hobtained, hphase]
    · cases hphase
  · intro h
    obtain ⟨worker, hw, hphase⟩ := h
    exact ⟨worker, hw, by rw [hphase]⟩

/-- A worker talks to its own socket, for the first time. -/
theorem Inv.linkOf_eq (h : Inv D s) {w : ℕ} (hlink : s.linkOf w = some k) :
    k = w ∧ (k, k) ∉ s.sessions.served ∧ ∃ sessions, s.sessions.serve w = ok sessions ∧
      sessions.served = s.sessions.served ++ [(k, k)] := by
  obtain ⟨worker, hw, hphase⟩ := linkOf_eq_some.mp hlink
  have hfits := h.sessions.fits w worker hw
  obtain rfl : k = w := Option.some.inj (hfits.socket (some k) (by rw [hphase]; rfl))
  have hheap : k ∉ s.sessions.deleted := by
    intro hmem
    have hdeleted := hfits.deleted.mp hmem
    rw [hphase] at hdeleted
    cases hdeleted
  have hserve : s.sessions.serve k = ok { s.sessions.setPhase k worker (.served k) with
      served := s.sessions.served ++ [(k, k)] } := by
    rw [Sessions.serve, Sessions.getWorker, hw, ok_bind, hphase]
    exact if_neg hheap
  refine ⟨rfl, ?_, _, hserve, rfl⟩
  intro hserved
  have hphases := ((hfits.served k).mp hserved).2
  rw [hphase] at hphases
  cases hphases

/-- The client whose request is answered has its answer, and the others stay where they are. -/
theorem At.serve (h : At D s c mInfo stage) (hmInfo : mInfo ∈ D.clientInfos) {link : Link}
    {request : Bytes} {memory : ServerMemory} {rand : ℕ → ℕ} {worker : ServerOperation.WorkerEnd}
    (hlink : s.links[k]? = some link) (hrequest : link.request = some request)
    (hworking : ServerOperation.working D.hashes memory rand D.serverInfo (link.socket request) =
      ok worker)
    (hlinks : s'.links = s.links.set k { link with worker := some worker })
    (hfinished : s'.finished = s.finished) : At D s' c mInfo stage := by
  have hunfinished : ∀ {j}, (∀ f ∈ s.finished, f.link ≠ j) → ∀ f ∈ s'.finished, f.link ≠ j := by
    rw [hfinished]
    exact id
  cases h with
  | idle => exact .idle
  | connected j x reqMsg b outLen own hholds hrequests hnone hworker =>
      -- this client has not sent its request
      have hjk : j ≠ k := by
        intro hjk
        subst hjk
        cases hlink.symm.trans hholds.found
        cases hnone.symm.trans hrequest
      refine .connected j x reqMsg b outLen own ?_ hrequests hnone hworker
      refine ⟨?_, hholds.owner, hholds.up, hholds.down, hunfinished hholds.unfinished⟩
      rw [hlinks, getElem?_set_of_some hlink, if_neg hjk, hholds.found]
  | waiting j x reqMsg b outLen socket own hholds hrequests hsent hreadable hworker =>
      by_cases hjk : j = k
      · subst hjk
        cases hlink.symm.trans hholds.found
        cases hrequest.symm.trans hsent
        -- the worker serves this very client
        obtain ⟨end', hworking', hanswered⟩ := working_answered hmInfo hrequests link memory rand
        cases hworking.symm.trans hworking'
        refine .waiting j x reqMsg b outLen socket { link with worker := some worker } ?_ hrequests
          hsent hreadable ?_
        · refine ⟨?_, hholds.owner, hholds.up, hholds.down, hunfinished hholds.unfinished⟩
          rw [hlinks, getElem?_set_of_some hlink, if_pos rfl]
        · intro other hother
          cases hother
          exact hanswered
      · refine .waiting j x reqMsg b outLen socket own ?_ hrequests hsent hreadable hworker
        refine ⟨?_, hholds.owner, hholds.up, hholds.down, hunfinished hholds.unfinished⟩
        rw [hlinks, getElem?_set_of_some hlink, if_neg hjk, hholds.found]

theorem Inv.served (h : Inv D s) {w : ℕ} {link : Link} {request : Bytes} {sessions : Sessions}
    {memory : ServerMemory} {rand : ℕ → ℕ} {worker : ServerOperation.WorkerEnd}
    (hfound : s.linkOf w = some k) (hserve : s.sessions.serve w = ok sessions)
    (hlink : s.links[k]? = some link) (hrequest : link.request = some request)
    (hworking : ServerOperation.working D.hashes memory rand D.serverInfo (link.socket request) =
      ok worker) :
    Inv D { s with
      sessions := sessions
      links := s.links.set k { link with worker := some worker } } := by
  obtain ⟨-, hnew, sessions', hserve', hserved⟩ := h.linkOf_eq hfound
  cases hserve.symm.trans hserve'
  have hgrown : ∀ session ∈ s.sessions.served, session ∈ sessions.served := by
    intro session hmem
    rw [hserved]
    exact List.mem_append_left _ hmem
  -- no worker has served this connection before
  have hnone : link.worker = none := by
    cases hworker : link.worker with
    | none => rfl
    | some old => exact absurd (h.worker k link old hlink hworker) hnew
  have hkept : sessions.Inv := h.sessions.serve.2 sessions hserve
  refine h.of_later (later_of_set hlink rfl rfl ?_ hgrown) hkept rfl rfl ?_ ?_ ?_
  · intro old hold
    rw [hnone] at hold
    cases hold
  · exact fun c client hc =>
      (h.stage c client hc).serve (h.mInfo_mem hc) hlink hrequest hworking rfl rfl
  · intro j other owner bytes hj howner hsent
    change (s.links.set k { link with worker := some worker })[j]? = some other at hj
    rw [getElem?_set_of_some hlink] at hj
    split at hj
    · cases hj
      exact h.requests k link owner bytes hlink howner hsent
    · exact h.requests j other owner bytes hj howner hsent
  · refine worker_of_set hlink rfl ?_ ?_
    · intro _ _
      change (k, k) ∈ sessions.served
      rw [hserved]
      exact List.mem_append_right _ List.mem_cons_self
    · exact fun j other old _ hj hold => hgrown _ (h.worker j other old hj hold)

theorem Inv.serve (h : Inv D s) {w : ℕ} {memory : ServerMemory} {rand : ℕ → ℕ}
    (hcondition : s.Undisturbed D (.serve w memory rand)) : Kept D (s.serve D w memory rand) := by
  unfold Service.serve
  cases hserve : s.sessions.serve w with
  | err code => exact kept_err code
  | fault kind => exact absurd hserve (h.sessions.serve.1 kind)
  | ok sessions =>
      rw [ok_bind]
      cases hfound : s.linkOf w with
      | none => exact kept_disabled
      | some k =>
          dsimp only
          cases hlink : s.links[k]? with
          | none => exact kept_disabled
          | some link =>
              dsimp only
              cases hrequest : link.request with
              | none => exact kept_disabled
              | some request =>
                  dsimp only
                  cases hworking : ServerOperation.working D.hashes memory rand D.serverInfo
                      (link.socket request) with
                  | err code => exact kept_err code
                  | ok worker =>
                      have hkept := h.served hfound hserve hlink hrequest hworking
                      rw [hrequest] at hkept
                      exact kept_ok hkept
                  | fault kind =>
                      exfalso
                      cases howner : link.owner with
                      | none =>
                          exact hcondition.stranger w memory rand k link request rfl hfound hlink
                            howner hrequest kind hworking
                      | some c =>
                          obtain ⟨mInfo, hmInfo, x, reqMsg, b, outLen, hrequests, rfl⟩ :=
                            h.requests k link c request hlink howner hrequest
                          obtain ⟨worker, hworking', -⟩ :=
                            working_answered hmInfo hrequests link memory rand
                          cases hworking.symm.trans hworking'

/-- Only `serve` talks to a client. -/
theorem served_of_step {sessions sessions' : Sessions} {e : Sessions.Event}
    (he : ∀ w, e ≠ .serve w) (h : sessions.step e = ok sessions') :
    sessions'.served = sessions.served := by
  cases e with
  | serve w => exact absurd rfl (he w)
  | accept =>
      obtain ⟨-, hok⟩ := require_bind_eq_ok.mp h
      cases hok
      rfl
  | create tid =>
      simp only [Sessions.step, Sessions.create] at h
      split at h
      · obtain ⟨-, hok⟩ := require_bind_eq_ok.mp h
        cases hok
        rfl
      · cases h
  | insert =>
      simp only [Sessions.step, Sessions.insert] at h
      split at h
      · split at h
        · cases h
          rfl
        · cases h
          rfl
      · cases h
  | lookup w =>
      obtain ⟨worker, -, hok⟩ := bind_eq_ok.mp h
      obtain ⟨-, hok⟩ := require_bind_eq_ok.mp hok
      split at hok
      · cases hok
        rfl
      · cases hok
        rfl
  | find w =>
      obtain ⟨worker, -, hok⟩ := bind_eq_ok.mp h
      split at hok
      · cases hok
        rfl
      · cases hok
  | erase w =>
      obtain ⟨worker, -, hok⟩ := bind_eq_ok.mp h
      split at hok
      · cases hok
        rfl
      · cases hok
      · cases hok
  | delete w =>
      obtain ⟨worker, -, hok⟩ := bind_eq_ok.mp h
      split at hok
      · split at hok
        · cases hok
        · cases hok
          rfl
      · cases hok
  | exit w =>
      obtain ⟨worker, -, hok⟩ := bind_eq_ok.mp h
      obtain ⟨-, hok⟩ := require_bind_eq_ok.mp hok
      cases hok
      rfl

theorem server_eq {e : Sessions.Event} (he : ∀ w, e ≠ .serve w)
    (haccept : e = .accept → s.sessions.accepted < s.links.length) :
    s.server e = s.sessions.step e >>= fun sessions => ok { s with sessions := sessions } := by
  unfold Service.server
  rw [require_bind_of haccept]
  cases e with
  | serve w => exact absurd rfl (he w)
  | _ => rfl

theorem Inv.server (h : Inv D s) {e : Sessions.Event} (hcondition : s.sessions.Inserted e) :
    Kept D (s.server e) := by
  by_cases he : ∀ w, e ≠ .serve w
  · by_cases haccept : e = .accept → s.sessions.accepted < s.links.length
    · rw [server_eq he haccept]
      obtain ⟨hdefined, hkept⟩ := h.sessions.step hcondition
      cases hstep : s.sessions.step e with
      | err code => exact kept_err code
      | fault kind => exact absurd hstep (hdefined kind)
      | ok sessions =>
          rw [ok_bind]
          have hserved := served_of_step he hstep
          have hgrown : ∀ session ∈ s.sessions.served, session ∈ sessions.served := by
            intro session hmem
            rwa [hserved]
          refine kept_ok (h.of_later (later_of_eq rfl hgrown) (hkept sessions hstep) rfl rfl ?_
            h.requests ?_)
          · intro c client hc
            exact (h.stage c client hc).of_others (fun _ _ hlink _ => hlink) fun f hf => Or.inl hf
          · exact fun k link worker hlink hworker => hgrown _ (h.worker k link worker hlink hworker)
    · unfold Service.server
      rw [require_bind_of_not haccept]
      exact kept_disabled
  · push Not at he
    obtain ⟨w, rfl⟩ := he
    unfold Service.server
    rw [require_bind_of (by simp)]
    exact kept_disabled

theorem Inv.step (h : Inv D s) {e : Event} (hcondition : s.Undisturbed D e) :
    Kept D (s.step D e) := by
  cases e with
  | connect c x => exact h.connect c x
  | send c => exact h.send c
  | receive c => exact h.receive c
  | stranger up down request => exact h.stranger up down request
  | serve w memory rand => exact h.serve hcondition
  | server e => exact h.server (hcondition.inserted e rfl)

/-! ## Runs -/

/-- A step of a worker that comes too early, or fails on what it has been sent, is seen. -/
theorem Inv.undisturbed (h : Inv D s) {e : Event} (hserves : s.Serves D e) : s.Undisturbed D e where
  inserted := by
    intro e' he w worker hlookup hw hcreated
    subst he hlookup
    apply h.sessions.not_served hw hcreated
    have hserver : s.step D (.server (.lookup w)) = s.sessions.step (.lookup w) >>= fun sessions =>
        ok { s with sessions := sessions } := server_eq (by simp) (by simp)
    constructor
    · intro kind hfault
      apply hserves.1 kind
      rw [hserver, hfault, fault_bind]
    · intro sessions hstep
      have hkept := hserves.2 { s with sessions := sessions } (by rw [hserver, hstep, ok_bind])
      exact hkept.separate
  stranger := by
    intro w memory rand k link request he hfound hlink _ hrequest kind hworking
    subst he
    obtain ⟨-, -, sessions, hserve, -⟩ := h.linkOf_eq hfound
    apply hserves.1 kind
    change s.serve D w memory rand = fault kind
    unfold Service.serve
    rw [hserve, ok_bind, hfound]
    dsimp only
    rw [hlink]
    dsimp only
    rw [hrequest]
    dsimp only
    rw [hworking, fault_bind]

end Service

end SafeTransmission
