import SafeTransmission.Library.Simulation
import SafeTransmission.Service.Agreeing

/-!
# Calls one after the other

However the steps of the clients and of the server are interleaved, and whatever strangers
send, the clients end as if each call of `secKeyAgree` had been a session of its own, in which
nothing happens but the client's part and that of one worker (`serializable`).  The sessions
stand in the order in which the calls return.

This rests on the tables: each client has one of its own.  In a shared one the records stand in the
order in which they were written, which need not be that of the returns.

## Strategy

* `Traced` says where the values in a state come from: the request on a connection from its client,
  the answer from a worker that ran on this request.
* Only a return is a turn of the serial run (`Traced.exists_turn`); all other steps leave the
  operations and the returns alone.  This is a simulation (`simulates_serial`).
-/

namespace SafeTransmission

open Outcome Codec

/-- A call that nothing comes between: the client, its call, and what its worker runs with. -/
structure Turn where
  client : ℕ
  call : Call
  serverMemory : ServerMemory
  serverRand : ℕ → ℕ

/-- The turn as a session. -/
def Turn.session (D : Deployment) (turn : Turn) : Session where
  hashes := D.hashes
  up := turn.call.up
  down := turn.call.down
  clientRand := turn.call.rand
  clientMemory := turn.call.memory
  serverRand := turn.serverRand
  serverMemory := turn.serverMemory
  serverInfo := D.serverInfo

/-- The clients between their calls, and what the calls of which client have returned. -/
structure Serial where
  operations : List ClientOperation
  returns : List (ℕ × ℤ)

namespace Serial

def init (D : Deployment) : Serial :=
  ⟨(Service.init D).clients.map Client.operation, []⟩

def step (D : Deployment) (s : Serial) (turn : Turn) : Outcome Serial :=
  match s.operations[turn.client]? with
  | none => disabled
  | some operation => do
      let (ret, operation) ← (turn.session D).client operation
      ok ⟨s.operations.set turn.client operation, s.returns ++ [(turn.client, ret)]⟩

end Serial

/-- The parts of a call, one after the other, are the call of a session with its worker. -/
theorem Session.client_eq {D : Deployment} (turn : Turn) {operation : ClientOperation}
    {reqMsg : RequestMsg} {outData : Bytes} {outLen ret : ℤ} {socket : TcpSocket}
    {worker : ServerOperation.WorkerEnd}
    (hencode : (turn.call.attempt []).encodeRequest D.hashes operation.mInfo =
      ok (reqMsg, outData, outLen))
    (hsend : turn.call.socket.sendMsg outData outLen TcpSocket.timeoutSeconds = ok (ret, socket))
    (hworker : (turn.session D).worker socket.sent = ok worker) :
    (turn.session D).client operation =
      turn.call.takeResponse D.hashes reqMsg outLen socket worker.socket.sent operation := by
  have hcall := turn.call.secKeyAgree_eq D.hashes worker.socket.sent operation
  rw [hencode, ok_bind] at hcall
  dsimp only at hcall
  rw [hsend, ok_bind] at hcall
  rw [← hcall]
  obtain ⟨request, hrequest, hencode⟩ := bind_eq_ok.mp hencode
  obtain ⟨codec, hcodec, hencode⟩ := bind_eq_ok.mp hencode
  obtain ⟨encoded, hencoded, hencode⟩ := bind_eq_ok.mp hencode
  cases hencode
  -- the two calls differ only in how they say what arrives
  have harriving : (turn.session D).connection.arriving socket.sent =
      (turn.call.attempt worker.socket.sent).connection.arriving socket.sent := by
    change ((turn.session D).worker socket.sent >>= fun worker =>
      ok (turn.call.down.deliver worker.socket.sent)) = _
    rw [hworker, ok_bind]
    rfl
  have hsends : (turn.session D).connection.socket.sendMsg outData outLen TcpSocket.timeoutSeconds =
      ok (ret, socket) := hsend
  have hsends' : (turn.call.attempt worker.socket.sent).connection.socket.sendMsg outData outLen
      TcpSocket.timeoutSeconds = ok (ret, socket) := hsend
  have hrequests : ClientOperation.request (turn.session D).hashes operation.mInfo
      (turn.session D).clientRand (turn.session D).clientMemory.reqMsg = ok reqMsg := hrequest
  have hrequests' : ClientOperation.request D.hashes operation.mInfo turn.call.rand
      turn.call.memory.reqMsg = ok reqMsg := hrequest
  have hcodecs : RequestCodec.ofMsg .seckey (turn.session D).clientMemory.requestCodec reqMsg =
      ok codec := hcodec
  have hcodecs' : RequestCodec.ofMsg .seckey turn.call.memory.requestCodec reqMsg = ok codec :=
    hcodec
  unfold Session.client ClientOperation.secKeyAgree
  rw [hrequests, hrequests', ok_bind, ok_bind, hcodecs, hcodecs', ok_bind, ok_bind, hencoded, ok_bind,
    ok_bind]
  dsimp only
  rw [hsends, hsends', ok_bind, ok_bind]
  dsimp only
  rw [harriving]
  rfl

namespace Service

variable {D : Deployment} {s s' : Service} {c k : ℕ} {client : Client} {mInfo : ClientInfo}
  {stage : Stage} {link link' : Link}

/-! ## Where the values in a state come from -/

/-- Whoever has been served has been served on the request. -/
structure Link.Worked (D : Deployment) (link : Link) : Prop where
  worked : ∀ worker, link.worker = some worker → ∃ request memory rand, link.request = some request ∧
    ServerOperation.working D.hashes memory rand D.serverInfo (link.socket request) = ok worker

/-- The connection is one of the client, over the channels of its call. -/
structure Carries (s : Service) (c k : ℕ) (x : Call) (link : Link) : Prop where
  found : s.links[k]? = some link
  owner : link.owner = some c
  up : link.up = x.up
  down : link.down = x.down

/-- The variables of a call have the values that its parts have given them. -/
inductive Begun (D : Deployment) (s : Service) (c : ℕ) (mInfo : ClientInfo) : Stage → Prop where
  | idle : Begun D s c mInfo .idle
  | connected (k : ℕ) (x : Call) (reqMsg : RequestMsg) (outData : Bytes) (outLen : ℤ) (link : Link) :
      s.Carries c k x link →
      (x.attempt []).encodeRequest D.hashes mInfo = ok (reqMsg, outData, outLen) →
      link.request = none → Begun D s c mInfo (.connected k x reqMsg outData outLen)
  | waiting (k : ℕ) (x : Call) (reqMsg : RequestMsg) (outData : Bytes) (outLen ret : ℤ)
      (socket : TcpSocket) (link : Link) : s.Carries c k x link →
      (x.attempt []).encodeRequest D.hashes mInfo = ok (reqMsg, outData, outLen) →
      x.socket.sendMsg outData outLen TcpSocket.timeoutSeconds = ok (ret, socket) →
      link.request = some socket.sent → Begun D s c mInfo (.waiting k x reqMsg outLen socket)

structure Traced (D : Deployment) (s : Service) : Prop where
  worked : ∀ link ∈ s.links, Link.Worked D link
  begun : ∀ c client, s.clients[c]? = some client → Begun D s c client.operation.mInfo client.stage

theorem traced_init : Traced D (init D) where
  worked := by simp [init]
  begun := by
    intro c client hc
    obtain ⟨mInfo, -, rfl⟩ := List.mem_map.mp (List.mem_of_getElem? hc)
    exact .idle

/-- A client stays where it is while its connection keeps its request. -/
theorem Begun.of_links (h : Begun D s c mInfo stage)
    (hlinks : ∀ (k : ℕ) (link : Link), s.links[k]? = some link → link.owner = some c →
      ∃ link', s'.links[k]? = some link' ∧ link'.owner = link.owner ∧ link'.up = link.up ∧
        link'.down = link.down ∧ link'.request = link.request) : Begun D s' c mInfo stage := by
  have hcarries : ∀ {k x link}, s.Carries c k x link →
      ∃ link', s'.Carries c k x link' ∧ link'.request = link.request := by
    intro k x link hold
    obtain ⟨link', hfound, howner, hup, hdown, hrequest⟩ := hlinks k link hold.found hold.owner
    exact ⟨link', ⟨hfound, howner.trans hold.owner, hup.trans hold.up, hdown.trans hold.down⟩,
      hrequest⟩
  cases h with
  | idle => exact .idle
  | connected k x reqMsg outData outLen link hold hencode hrequest =>
      obtain ⟨link', hnew, hsame⟩ := hcarries hold
      exact .connected k x reqMsg outData outLen link' hnew hencode (hsame.trans hrequest)
  | waiting k x reqMsg outData outLen ret socket link hold hencode hsend hrequest =>
      obtain ⟨link', hnew, hsame⟩ := hcarries hold
      exact .waiting k x reqMsg outData outLen ret socket link' hnew hencode hsend (hsame.trans hrequest)

theorem Begun.of_append (h : Begun D s c mInfo stage) (hlinks : s'.links = s.links ++ [link]) :
    Begun D s' c mInfo stage := by
  apply h.of_links
  intro k old hold _
  refine ⟨old, ?_, rfl, rfl, rfl, rfl⟩
  rw [hlinks]
  exact getElem?_append_of_some hold _

theorem Begun.of_set (h : Begun D s c mInfo stage) (hlink : s.links[k]? = some link)
    (hlinks : s'.links = s.links.set k link') (hsame : link.owner = some c → link'.owner = link.owner ∧
      link'.up = link.up ∧ link'.down = link.down ∧ link'.request = link.request) :
    Begun D s' c mInfo stage := by
  apply h.of_links
  intro j old hold howner
  rw [hlinks, getElem?_set_of_some hlink]
  by_cases hjk : j = k
  · subst hjk
    cases hlink.symm.trans hold
    exact ⟨link', if_pos rfl, hsame howner⟩
  · exact ⟨old, by rw [if_neg hjk, hold], rfl, rfl, rfl, rfl⟩

theorem begun_of_set {client' : Client} (hc : s.clients[c]? = some client)
    (hclients : s'.clients = s.clients.set c client')
    (hown : Begun D s' c client'.operation.mInfo client'.stage)
    (hothers : ∀ j other, j ≠ c → s.clients[j]? = some other →
      Begun D s' j other.operation.mInfo other.stage) :
    ∀ j other, s'.clients[j]? = some other → Begun D s' j other.operation.mInfo other.stage := by
  rw [hclients]
  exact forall_getElem?_set (P := fun j other => Begun D s' j other.operation.mInfo other.stage) hc
    hown hothers

theorem Traced.connect (h : Traced D s) {x : Call} (hstep : s.connect D c x = ok s') :
    Traced D s' := by
  obtain ⟨client, reqMsg, outData, outLen, hc, -, hencode, rfl⟩ := exists_of_connect hstep
  constructor
  · apply forall_mem_concat h.worked
    exact ⟨by simp⟩
  · refine begun_of_set hc rfl ?_ ?_
    · refine .connected s.links.length x reqMsg outData outLen ⟨some c, x.up, x.down, none, none⟩ ?_
        hencode rfl
      exact ⟨List.getElem?_concat_length, rfl, rfl, rfl⟩
    · exact fun j other _ hj => (h.begun j other hj).of_append rfl

theorem Traced.send (h : Traced D s) (hstep : s.send c = ok s') : Traced D s' := by
  obtain ⟨client, k, x, reqMsg, outData, outLen, link, ret, socket, hc, hstage, hlink, hsend, rfl⟩ :=
    exists_of_send hstep
  have hbegun := h.begun c client hc
  rw [hstage] at hbegun
  cases hbegun with
  | connected _ _ _ _ _ own hcarries hencode hrequest =>
      cases hlink.symm.trans hcarries.found
      constructor
      · apply forall_mem_set h.worked
        -- without a request there was no worker
        constructor
        intro worker hworker
        obtain ⟨request, -, -, hsome, -⟩ :=
          (h.worked link (List.mem_of_getElem? hlink)).worked worker hworker
        rw [hrequest] at hsome
        cases hsome
      · refine begun_of_set hc rfl ?_ ?_
        · refine .waiting k x reqMsg outData outLen ret socket { link with request := some socket.sent }
            ?_ hencode hsend rfl
          refine ⟨?_, hcarries.owner, hcarries.up, hcarries.down⟩
          exact (getElem?_set_of_some hlink _ k).trans (if_pos rfl)
        · intro j other hne hj
          apply (h.begun j other hj).of_set hlink rfl
          intro howner
          rw [hcarries.owner] at howner
          exact absurd (Option.some.inj howner).symm hne

theorem Traced.receive (h : Traced D s) (hstep : s.receive D c = ok s') : Traced D s' := by
  obtain ⟨client, k, x, reqMsg, outLen, socket, worker, ret, operation, hc, -, -, -, rfl⟩ :=
    exists_of_receive hstep
  constructor
  · exact h.worked
  · refine begun_of_set hc rfl .idle ?_
    exact fun j other _ hj => (h.begun j other hj).of_links
      fun k link hlink _ => ⟨link, hlink, rfl, rfl, rfl, rfl⟩

theorem Traced.serve (h : Traced D s) {w : ℕ} {memory : ServerMemory} {rand : ℕ → ℕ}
    (hstep : s.serve D w memory rand = ok s') : Traced D s' := by
  obtain ⟨sessions, k, link, request, worker, -, -, hlink, hrequest, hworking, rfl⟩ :=
    exists_of_serve hstep
  constructor
  · apply forall_mem_set h.worked
    constructor
    intro other hother
    cases hother
    exact ⟨request, memory, rand, hrequest, hworking⟩
  · intro j other hj
    exact (h.begun j other hj).of_set hlink rfl fun _ => ⟨rfl, rfl, rfl, rfl⟩

theorem Traced.step (h : Traced D s) {e : Event} (hstep : s.step D e = ok s') : Traced D s' := by
  cases e with
  | connect c x => exact h.connect hstep
  | send c => exact h.send hstep
  | receive c => exact h.receive hstep
  | serve w memory rand => exact h.serve hstep
  | stranger up down request =>
      cases hstep
      constructor
      · apply forall_mem_concat h.worked
        exact ⟨by simp⟩
      · exact fun j other hj => (h.begun j other hj).of_append rfl
  | server e =>
      obtain ⟨-, -, sessions, -, rfl⟩ := exists_of_server hstep
      constructor
      · exact h.worked
      · exact fun j other hj => (h.begun j other hj).of_links
          fun k link hlink _ => ⟨link, hlink, rfl, rfl, rfl, rfl⟩

/-! ## The simulation -/

/-- The serial system has made the calls that have returned. -/
structure Serializes (D : Deployment) (s : Service) (t : Serial) : Prop where
  traced : Traced D s
  operations : t.operations = s.clients.map Client.operation
  returns : t.returns = s.finished.map fun f => (f.client, f.ret)

/-- What a call leaves that returns is what a session leaves. -/
theorem Traced.exists_turn (h : Traced D s) (hstep : s.receive D c = ok s') :
    ∃ turn : Turn, turn.client = c ∧ ∃ client k ret operation, s.clients[c]? = some client ∧
      (turn.session D).client client.operation = ok (ret, operation) ∧
      s' = { s.setClient c ⟨operation, .idle⟩ with finished := s.finished ++ [⟨c, k, ret⟩] } := by
  obtain ⟨client, k, x, reqMsg, outLen, socket, worker, ret, operation, hc, hstage, hworker, htake,
    rfl⟩ := exists_of_receive hstep
  have hbegun := h.begun c client hc
  rw [hstage] at hbegun
  cases hbegun with
  | waiting _ _ _ outData _ sent _ link hcarries hencode hsend hrequest =>
      rw [hcarries.found, Option.bind_some] at hworker
      obtain ⟨request, memory, rand, hsome, hworking⟩ :=
        (h.worked link (List.mem_of_getElem? hcarries.found)).worked worker hworker
      cases hrequest.symm.trans hsome
      unfold Link.socket at hworking
      rw [hcarries.up, hcarries.down] at hworking
      let turn : Turn := ⟨c, x, memory, rand⟩
      have hserved : (turn.session D).worker socket.sent = ok worker := hworking
      have hclient := (Session.client_eq turn hencode hsend hserved).trans htake
      exact ⟨turn, rfl, client, k, ret, operation, hc, hclient, rfl⟩

theorem simulates_serial (D : Deployment) :
    Simulates (Service.step D) (Serial.step D) (Serializes D) := by
  intro s t e s' h hstep
  have htraced := h.traced.step hstep
  cases e with
  | receive c =>
      obtain ⟨turn, hturn, client, k, ret, operation, hc, hclient, rfl⟩ := h.traced.exists_turn hstep
      have hfound : t.operations[turn.client]? = some client.operation := by
        rw [h.operations, hturn, List.getElem?_map, hc]
        rfl
      refine ⟨[turn], ⟨t.operations.set turn.client operation,
        t.returns ++ [(turn.client, ret)]⟩, ?_, htraced, ?_, ?_⟩
      · simp only [run, Serial.step, hfound, hclient, ok_bind]
      · simp only [h.operations, hturn, setClient, List.map_set]
      · simp only [h.returns, hturn, List.map_append, List.map_cons, List.map_nil]
  | connect c x =>
      obtain ⟨client, reqMsg, outData, outLen, hc, -, -, rfl⟩ := exists_of_connect hstep
      exact ⟨[], t, rfl, htraced, h.operations.trans (map_operation_set hc _).symm, h.returns⟩
  | send c =>
      obtain ⟨client, k, x, reqMsg, outData, outLen, link, ret, socket, hc, -, -, -, rfl⟩ :=
        exists_of_send hstep
      exact ⟨[], t, rfl, htraced, h.operations.trans (map_operation_set hc _).symm, h.returns⟩
  | serve w memory rand =>
      obtain ⟨sessions, k, link, request, worker, -, -, -, -, -, rfl⟩ := exists_of_serve hstep
      exact ⟨[], t, rfl, htraced, h.operations, h.returns⟩
  | stranger up down request =>
      cases hstep
      exact ⟨[], t, rfl, htraced, h.operations, h.returns⟩
  | server e =>
      obtain ⟨-, -, sessions, -, rfl⟩ := exists_of_server hstep
      exact ⟨[], t, rfl, htraced, h.operations, h.returns⟩

/-- Every run of the service, with whatever interleaving and whatever strangers, leaves the
clients as a run of sessions does that come one after the other, in the order in which the
calls have returned and with the same results. -/
theorem serializable {es : List Event} (hrun : run (step D) es (init D) = ok s) :
    ∃ turns t, run (Serial.step D) turns (Serial.init D) = ok t ∧
      t.operations = s.clients.map Client.operation ∧
      t.returns = s.finished.map fun f => (f.client, f.ret) := by
  have hinit : Serializes D (init D) (Serial.init D) := ⟨traced_init, rfl, rfl⟩
  obtain ⟨turns, t, hturns, h⟩ := exists_run_of_simulates (simulates_serial D) hinit hrun
  exact ⟨turns, t, hturns, h.operations, h.returns⟩

/-- The call of one client has returned, while another one has connected. -/
theorem serializable_secondReturns : ∃ s, run (step twoClients) secondReturns (init twoClients) = ok s ∧
    ∃ turns t, run (Serial.step twoClients) turns (Serial.init twoClients) = ok t ∧
      t.operations = s.clients.map Client.operation ∧
      t.returns = s.finished.map fun f => (f.client, f.ret) := by
  have hreached : reaches (step twoClients) secondReturns (init twoClients)
      (fun s => s.finished = [⟨1, 1, 0⟩]) = true := by
    decide +kernel
  obtain ⟨s, hrun, -⟩ := exists_of_reaches hreached
  exact ⟨s, hrun, serializable hrun⟩

end Service

end SafeTransmission
