import SafeTransmission.Agreement.Attempts
import SafeTransmission.Server.Sessions

/-!
# Many clients and one server

Any number of clients call `secKeyAgree` over and over.  Each call opens a connection of
its own; the server accepts the connections in the order in which they were made, and
creates a worker for each of them, as in `Sessions`.  Somebody else may connect as well,
and send any bytes.

A call takes three steps: the client builds its request and connects, it sends the request,
and it receives the response.  The steps of all programs come in any order.  A socket that
the server accepts, and the connection that it belongs to, have the same number.

## What is assumed

* The operations of `m_listSocket` are atomic.  It is a `std::map` that `startWork` and the workers
  use without a lock.
* Connections are reliable: nobody breaks one, `connect`, `accept`, `select` and the creation of a
  thread do not fail, and no wait runs into its time limit.  Whoever waits for bytes that do not come
  takes no step.
* Each client has a table of its own.  Programs that share one are in `Store.Sharing` and
  `Service.Programs`.
-/

namespace SafeTransmission

open Outcome

/-- What a call of `secKeyAgree` runs with: the memory and the random numbers of the client,
and the channels of its connection. -/
structure Call where
  memory : ClientMemory
  rand : ℕ → ℕ
  up : Channel
  down : Channel

namespace Call

/-- The socket that `connectToHost` leaves. -/
def socket (x : Call) : TcpSocket :=
  ⟨x.down.readable, x.up.writable, [], x.up.writes, [], true⟩

/-- The call as an attempt whose connection is made, and at which the bytes `reply` arrive. -/
def attempt (x : Call) (reply : Bytes) : Attempt where
  memory := x.memory
  rand := x.rand
  connectRet := 0
  socket := x.socket
  opened := true
  connected_of_opened _ := rfl
  arriving _ := x.down.deliver reply

/-- Steps 4 to 10 of `secKeyAgree`, when the bytes `reply` arrive. -/
def takeResponse (h : Hashes) (x : Call) (reqMsg : RequestMsg) (outLen : ℤ) (socket : TcpSocket)
    (reply : Bytes) (client : ClientOperation) : Outcome (ℤ × ClientOperation) := do
  let received ← { socket with incoming := x.down.deliver reply }.recvMsgClient outLen
    TcpSocket.timeoutSeconds
  let resMsg ← (x.attempt reply).decodeResponse outLen received
  ClientOperation.acceptResponse h x.memory reqMsg resMsg { client with mSocket := received.socket }

/-- The steps of a client, one after the other, are a call of `secKeyAgree`. -/
theorem secKeyAgree_eq (h : Hashes) (x : Call) (reply : Bytes) (client : ClientOperation) :
    client.secKeyAgree h x.memory x.rand (x.attempt reply).connection = (do
      let (reqMsg, outData, outLen) ← (x.attempt []).encodeRequest h client.mInfo
      let (_, socket) ← x.socket.sendMsg outData outLen TcpSocket.timeoutSeconds
      x.takeResponse h reqMsg outLen socket reply client) := by
  rw [show client.secKeyAgree h x.memory x.rand (x.attempt reply).connection = _ from
    Attempt.secKeyAgree_eq_parts h client (x.attempt reply)]
  simp only [Attempt.exchange, takeResponse, bind_bind, ok_bind]
  rfl

end Call

/-- Where a client is in `secKeyAgree`, with its local variables. -/
inductive Stage where
  /-- It waits for a choice in its menu. -/
  | idle
  | connected (link : ℕ) (x : Call) (reqMsg : RequestMsg) (outData : Bytes) (outLen : ℤ)
  /-- It has sent its request, and is in `recvMsg`. -/
  | waiting (link : ℕ) (x : Call) (reqMsg : RequestMsg) (outLen : ℤ) (socket : TcpSocket)

structure Client where
  operation : ClientOperation
  stage : Stage

/-- A connection to the server, of a client or of somebody else. -/
structure Link where
  owner : Option ℕ
  up : Channel
  down : Channel
  /-- The bytes that were sent to the server. -/
  request : Option Bytes
  /-- The end of the worker that has served the connection. -/
  worker : Option ServerOperation.WorkerEnd

/-- The socket of the worker when it has been sent the bytes. -/
def Link.socket (link : Link) (request : Bytes) : TcpSocket :=
  ⟨link.up.readable, link.down.writable, link.up.deliver request, link.down.writes, [], true⟩

/-- A call of `secKeyAgree` that has returned. -/
structure Finished where
  client : ℕ
  link : ℕ
  ret : ℤ
deriving DecidableEq, Repr

/-- The configurations of a server and of its clients, which fit together. -/
structure Deployment where
  hashes : Hashes
  serverInfo : ServerInfo
  clientInfos : List ClientInfo
  serverID : 0 ∈ serverInfo.chars ServerInfo.serverID.off ServerInfo.serverID.cap
  valid : ∀ mInfo ∈ clientInfos, mInfo.Valid
  sameServer : ∀ mInfo ∈ clientInfos,
    serverInfo.str ServerInfo.serverID.off = mInfo.str ClientInfo.serverID.off

structure Service where
  sessions : Sessions
  clients : List Client
  links : List Link
  finished : List Finished

namespace Service

/-- A step of a client, of somebody else, or of a thread of the server.  A worker that serves
a connection gets its memory and its random numbers. -/
inductive Event where
  | connect (c : ℕ) (x : Call)
  | send (c : ℕ)
  | receive (c : ℕ)
  | stranger (up down : Channel) (request : Bytes)
  | serve (w : ℕ) (memory : ServerMemory) (rand : ℕ → ℕ)
  | server (e : Sessions.Event)

variable (D : Deployment)

/-- The programs when they have started: the table of each client is empty. -/
def init : Service where
  sessions := .init
  clients := D.clientInfos.map fun mInfo =>
    ⟨⟨mInfo, ⟨[], [], [], [], [], false⟩, some (List.replicate mInfo.nodes .empty)⟩, .idle⟩
  links := []
  finished := []

variable (s : Service)

/-! ## Clients -/

/-- Take the client with number `c`. -/
def getClient (c : ℕ) : Outcome Client :=
  match s.clients[c]? with
  | none => disabled
  | some client => ok client

def setClient (c : ℕ) (client : Client) : Service :=
  { s with clients := s.clients.set c client }

/-- Steps 1 and 2 of `secKeyAgree`, and `connectToHost`. -/
def connect (c : ℕ) (x : Call) : Outcome Service := do
  let client ← s.getClient c
  match client.stage with
  | .idle => do
      let (reqMsg, outData, outLen) ← (x.attempt []).encodeRequest D.hashes client.operation.mInfo
      ok { s.setClient c { client with stage := .connected s.links.length x reqMsg outData outLen } with
        links := s.links ++ [⟨some c, x.up, x.down, none, none⟩] }
  | _ => disabled

/-- `sendMsg`. -/
def send (c : ℕ) : Outcome Service := do
  let client ← s.getClient c
  match client.stage with
  | .connected k x reqMsg outData outLen =>
      match s.links[k]? with
      | none => disabled
      | some link => do
          let (_, socket) ← x.socket.sendMsg outData outLen TcpSocket.timeoutSeconds
          ok { s.setClient c { client with stage := .waiting k x reqMsg outLen socket } with
            links := s.links.set k { link with request := some socket.sent } }
  | _ => disabled

/-- The rest of `secKeyAgree`, when the worker has answered. -/
def receive (c : ℕ) : Outcome Service := do
  let client ← s.getClient c
  match client.stage with
  | .waiting k x reqMsg outLen socket =>
      match (s.links[k]?).bind Link.worker with
      | none => disabled
      | some worker => do
          let (ret, operation) ← x.takeResponse D.hashes reqMsg outLen socket worker.socket.sent
            client.operation
          ok { s.setClient c ⟨operation, .idle⟩ with finished := s.finished ++ [⟨c, k, ret⟩] }
  | _ => disabled

/-- Somebody connects and sends bytes. -/
def stranger (up down : Channel) (request : Bytes) : Outcome Service :=
  ok { s with links := s.links ++ [⟨none, up, down, some request, none⟩] }

/-! ## The server -/

/-- The connection to which a worker is about to talk. -/
def linkOf (w : ℕ) : Option ℕ :=
  (s.sessions.workers[w]?).bind fun worker =>
    match worker.phase with
    | .obtained socket => socket
    | _ => none

/-- `working` of the server, from `recvMsg` to `disConnect`. -/
def serve (w : ℕ) (memory : ServerMemory) (rand : ℕ → ℕ) : Outcome Service := do
  let sessions ← s.sessions.serve w
  match s.linkOf w with
  | none => disabled
  | some k =>
      match s.links[k]? with
      | none => disabled
      | some link =>
          match link.request with
          -- it waits in `recvMsg`
          | none => disabled
          | some request => do
              let worker ← ServerOperation.working D.hashes memory rand D.serverInfo
                (link.socket request)
              ok { s with
                sessions := sessions
                links := s.links.set k { link with worker := some worker } }

/-- The other steps of the server.  A connection is accepted when it has been made. -/
def server (e : Sessions.Event) : Outcome Service := do
  require (e = .accept → s.sessions.accepted < s.links.length)
  match e with
  | .serve _ => disabled
  | _ => do
      let sessions ← s.sessions.step e
      ok { s with sessions := sessions }

def step (s : Service) : Event → Outcome Service
  | .connect c x => s.connect D c x
  | .send c => s.send c
  | .receive c => s.receive D c
  | .stranger up down request => s.stranger up down request
  | .serve w memory rand => s.serve D w memory rand
  | .server e => s.server e

/-! ## What the steps do -/

variable {D s} {s' : Service} {c w : ℕ} {client : Client} {x : Call}

theorem getClient_eq_ok : s.getClient c = ok client ↔ s.clients[c]? = some client := by
  unfold getClient
  cases s.clients[c]? with
  | none => simp
  | some other => simp

theorem exists_of_connect (h : s.connect D c x = ok s') :
    ∃ client reqMsg outData outLen, s.clients[c]? = some client ∧ client.stage = .idle ∧
      (x.attempt []).encodeRequest D.hashes client.operation.mInfo = ok (reqMsg, outData, outLen) ∧
      s' = { s.setClient c { client with stage := .connected s.links.length x reqMsg outData outLen } with
        links := s.links ++ [⟨some c, x.up, x.down, none, none⟩] } := by
  obtain ⟨client, hclient, h⟩ := bind_eq_ok.mp h
  split at h
  · rename_i hidle
    obtain ⟨⟨reqMsg, outData, outLen⟩, hencode, h⟩ := bind_eq_ok.mp h
    cases h
    exact ⟨client, reqMsg, outData, outLen, getClient_eq_ok.mp hclient, hidle, hencode, rfl⟩
  · cases h

theorem exists_of_send (h : s.send c = ok s') :
    ∃ client k x reqMsg outData outLen link ret socket, s.clients[c]? = some client ∧
      client.stage = .connected k x reqMsg outData outLen ∧ s.links[k]? = some link ∧
      x.socket.sendMsg outData outLen TcpSocket.timeoutSeconds = ok (ret, socket) ∧
      s' = { s.setClient c { client with stage := .waiting k x reqMsg outLen socket } with
        links := s.links.set k { link with request := some socket.sent } } := by
  obtain ⟨client, hclient, h⟩ := bind_eq_ok.mp h
  split at h
  · rename_i k x reqMsg outData outLen hstage
    split at h
    · cases h
    · rename_i link hlink
      obtain ⟨⟨ret, socket⟩, hsend, h⟩ := bind_eq_ok.mp h
      cases h
      exact ⟨client, k, x, reqMsg, outData, outLen, link, ret, socket, getClient_eq_ok.mp hclient,
        hstage, hlink, hsend, rfl⟩
  · cases h

theorem exists_of_receive (h : s.receive D c = ok s') :
    ∃ client k x reqMsg outLen socket worker ret operation, s.clients[c]? = some client ∧
      client.stage = .waiting k x reqMsg outLen socket ∧
      (s.links[k]?).bind Link.worker = some worker ∧
      x.takeResponse D.hashes reqMsg outLen socket worker.socket.sent client.operation =
        ok (ret, operation) ∧
      s' = { s.setClient c ⟨operation, .idle⟩ with finished := s.finished ++ [⟨c, k, ret⟩] } := by
  obtain ⟨client, hclient, h⟩ := bind_eq_ok.mp h
  split at h
  · rename_i k x reqMsg outLen socket hstage
    split at h
    · cases h
    · rename_i worker hworker
      obtain ⟨⟨ret, operation⟩, htake, h⟩ := bind_eq_ok.mp h
      cases h
      exact ⟨client, k, x, reqMsg, outLen, socket, worker, ret, operation,
        getClient_eq_ok.mp hclient, hstage, hworker, htake, rfl⟩
  · cases h

theorem exists_of_serve {memory : ServerMemory} {rand : ℕ → ℕ} (h : s.serve D w memory rand = ok s') :
    ∃ sessions k link request worker, s.sessions.serve w = ok sessions ∧ s.linkOf w = some k ∧
      s.links[k]? = some link ∧ link.request = some request ∧
      ServerOperation.working D.hashes memory rand D.serverInfo (link.socket request) = ok worker ∧
      s' = { s with sessions := sessions, links := s.links.set k { link with worker := some worker } } := by
  obtain ⟨sessions, hsessions, h⟩ := bind_eq_ok.mp h
  split at h
  · cases h
  · rename_i k hk
    split at h
    · cases h
    · rename_i link hlink
      split at h
      · cases h
      · rename_i request hrequest
        obtain ⟨worker, hworking, h⟩ := bind_eq_ok.mp h
        cases h
        exact ⟨sessions, k, link, request, worker, hsessions, hk, hlink, hrequest, hworking, rfl⟩

theorem exists_of_server {e : Sessions.Event} (h : s.server e = ok s') :
    (e = .accept → s.sessions.accepted < s.links.length) ∧ (∀ w, e ≠ .serve w) ∧
      ∃ sessions, s.sessions.step e = ok sessions ∧ s' = { s with sessions := sessions } := by
  obtain ⟨haccept, h⟩ := require_bind_eq_ok.mp h
  split at h
  · cases h
  · rename_i hserve
    obtain ⟨sessions, hstep, h⟩ := bind_eq_ok.mp h
    cases h
    exact ⟨haccept, hserve, sessions, hstep, rfl⟩

/-- Two clients `1` of the server `2`. -/
def twoClients : Deployment where
  hashes := Session.oneTwo.hashes
  serverInfo := Session.oneTwo.serverInfo
  clientInfos := [Session.oneInfo, Session.oneInfo]
  serverID := by decide +kernel
  valid := by
    intro mInfo hmem
    have hone : mInfo = Session.oneInfo := by simpa using hmem
    rw [hone]
    exact ⟨⟨by decide +kernel, by decide +kernel⟩, by decide +kernel, by decide +kernel⟩
  sameServer := by
    intro mInfo hmem
    have hone : mInfo = Session.oneInfo := by simpa using hmem
    rw [hone]
    decide +kernel

/-- A call with these random numbers, over channels that take and deliver single bytes. -/
def bytewiseCall (rand : ℕ → ℕ) : Call :=
  ⟨Session.oneTwo.clientMemory, rand, .bytewise, .bytewise⟩

/-- Both clients connect, and the call of the second one returns. -/
def secondReturns : List Event :=
  [.connect 0 (bytewiseCall id), .connect 1 (bytewiseCall (· + 5)), .send 1, .server .accept,
    .server (.create 5), .server .insert, .server (.lookup 0), .server .accept, .server (.create 6),
    .server .insert, .server (.lookup 1), .serve 1 Session.oneTwo.serverMemory (7 * ·), .receive 1]

end Service

end SafeTransmission
