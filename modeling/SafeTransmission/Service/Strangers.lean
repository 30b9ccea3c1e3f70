import SafeTransmission.Service.Serial

/-!
# What strangers can do

Both random strings go over the wire as they are, and the key is made of nothing else.  Whoever
sees the bytes of a connection in both directions computes the key that the client has put into
its table (`overheard`).

A request is answered whoever sends it and how often.  Strangers who send again what they have
seen of the clients get agreements of their own, and disturb nobody (`agreed_of_replays`), as long as
they do nothing else: they do not break connections, and leave descriptors for others
(`Service.Service`).
-/

namespace SafeTransmission

open Outcome Codec

/-- What an eavesdropper does with the bytes to the server and those back: it decodes both
messages, and computes the key as the two programs do. -/
def overhear (h : Hashes) (up down : Bytes) : Outcome Bytes := do
  let request ← RequestCodec.msgDecode .seckey (RequestCodec.new .seckey (.zero 160)) (up.drop 4)
    (up.drop 4).length
  let response ← RespondCodec.msgDecode .seckey (RespondCodec.new (.zero 96)) (down.drop 4)
    (down.drop 4).length
  match request.result, response.result with
  | some reqMsg, some resMsg => do
      let key ← agreedKey h (reqMsg.ptr RequestMsg.r1.off) (resMsg.ptr RespondMsg.r2.off)
      ok (cString key)
  | _, _ => err 0

theorem drop_frame (b : Bytes) : (TcpSocket.frame b).drop 4 = b := by
  rw [TcpSocket.frame]
  exact List.drop_left' (length_beBytes 4 _)

/-- The key of a request and its answer. -/
theorem overhear_eq {h : Hashes} {client server server' random random' : Bytes} {reqMsg : RequestMsg}
    {b : Bytes} {agreement : Agreement} (hrequest : IsRequest h client server random reqMsg)
    (hconveys : Conveys RequestMsg.members b reqMsg)
    (hanswers : ServerOperation.Answers h client server' random random' agreement) :
    overhear h (TcpSocket.frame b) (TcpSocket.frame agreement.outData) = ok agreement.seckey := by
  obtain ⟨request, reqMsg', hdecode, hresult, hsame, hterm⟩ :=
    hconveys.decoded (RequestMsg.declared .seckey (.zero 160)) []
  obtain ⟨response, resMsg', hdecode', hresult', hsame', hterm'⟩ :=
    hanswers.conveys.decoded (.zero 96) []
  rw [List.append_nil] at hdecode hdecode'
  have hreq := hrequest.of_same hsame hterm
  have hres := hanswers.response.of_same hsame' hterm'
  have hr1 : 0 ∈ reqMsg'.chars RequestMsg.r1.off RequestMsg.r1.cap :=
    hreq.terminated _ (by decide) rfl
  have hr2 : 0 ∈ resMsg'.chars RespondMsg.r2.off RespondMsg.r2.cap :=
    hres.terminated _ (by decide) rfl
  have hlen : random.length < 64 := by
    rw [← hreq.r1]
    exact length_str_lt hr1
  have hlen' : random'.length < 64 := by
    rw [← hres.r2]
    exact length_str_lt hr2
  have htext : cString (reqMsg'.ptr RequestMsg.r1.off) = random := hreq.r1
  have htext' : cString (resMsg'.ptr RespondMsg.r2.off) = random' := hres.r2
  -- both strings are there, and the key is made of nothing else
  have hkey : agreedKey h (reqMsg'.ptr RequestMsg.r1.off) (resMsg'.ptr RespondMsg.r2.off) =
      ok (agreement.seckey ++ [0]) := by
    rw [agreedKey_eq (zero_mem_ptr hr1) (zero_mem_ptr hr2) (by rw [htext, htext']; omega), htext,
      htext', hanswers.seckey]
  have hzero : 0 ∉ agreement.seckey := by
    rw [hanswers.seckey]
    exact zero_notMem_keyText _ _ _
  unfold overhear
  rw [drop_frame, drop_frame, RequestCodec.msgDecode, RequestCodec.new, hdecode, ok_bind,
    RespondCodec.msgDecode, RespondCodec.new, hdecode', ok_bind, hresult, hresult']
  dsimp only
  rw [hkey, ok_bind, cString_terminated hzero]

namespace Service

variable {D : Deployment} {s s' : Service} {c : ℕ} {client : Client}

/-! ## Sending again -/

/-- Nobody looks its thread id up too early, and a stranger sends what a client has sent. -/
structure Replays (D : Deployment) (s : Service) (e : Event) : Prop where
  inserted : ∀ e', e = .server e' → s.sessions.Inserted e'
  seen : ∀ up down request, e = .stranger up down request →
    ∃ link ∈ s.links, link.owner ≠ none ∧ link.request = some request

/-- A test of the condition. -/
def replaysTest (s : Service) : Event → Bool
  | .server (.lookup w) => match s.sessions.workers[w]? with
    | none => true
    | some worker => s.sessions.acceptor ≠ .created worker.tid worker.own
  | .stranger _ _ request => s.links.any fun link => link.owner ≠ none ∧ link.request = some request
  | _ => true

theorem replays_of_test {e : Event} (h : s.replaysTest e = true) : s.Replays D e where
  inserted := by
    intro e' he w worker hlookup hw
    subst he hlookup
    simp only [replaysTest, hw] at h
    exact of_decide_eq_true h
  seen := by
    intro up down request he
    subst he
    obtain ⟨link, hmem, hlink⟩ := List.any_eq_true.mp h
    exact ⟨link, hmem, of_decide_eq_true hlink⟩

/-- All requests are requests of clients, whoever sends them. -/
structure Replayed (D : Deployment) (s : Service) : Prop where
  inv : Inv D s
  requests : ∀ link ∈ s.links, ∀ request, link.request = some request → Requested D request

theorem Replayed.undisturbed (h : Replayed D s) {e : Event} (he : s.Replays D e) :
    s.Undisturbed D e where
  inserted := he.inserted
  stranger := by
    intro w memory rand k link request _ _ hlink _ hrequest kind hworking
    obtain ⟨mInfo, hmInfo, x, reqMsg, b, outLen, hrequests, rfl⟩ :=
      h.requests link (List.mem_of_getElem? hlink) request hrequest
    obtain ⟨worker, hworking', -⟩ := working_answered hmInfo hrequests link memory rand
    cases hworking.symm.trans hworking'

theorem Replayed.step (h : Replayed D s) {e : Event} (he : s.Replays D e)
    (hstep : s.step D e = ok s') : Replayed D s' where
  inv := (h.inv.step (h.undisturbed he)).2 s' hstep
  requests := by
    have hinv := (h.inv.step (h.undisturbed he)).2 s' hstep
    cases e with
    | connect c x =>
        obtain ⟨client, reqMsg, outData, outLen, -, -, -, rfl⟩ := exists_of_connect hstep
        apply forall_mem_concat h.requests
        simp
    | send c =>
        obtain ⟨client, k, x, reqMsg, outData, outLen, link, ret, socket, hc, hstage, hlink, -, rfl⟩ :=
          exists_of_send hstep
        apply forall_mem_set h.requests
        intro request hrequest
        have hat := h.inv.stage c client hc
        rw [hstage] at hat
        cases hat with
        | connected _ _ _ _ _ own hholds =>
            cases hlink.symm.trans hholds.found
            refine hinv.requests k { link with request := some socket.sent } c request ?_ hholds.owner
              hrequest
            exact (getElem?_set_of_some hlink _ k).trans (if_pos rfl)
    | receive c =>
        obtain ⟨client, k, x, reqMsg, outLen, socket, worker, ret, operation, -, -, -, -, rfl⟩ :=
          exists_of_receive hstep
        exact h.requests
    | serve w memory rand =>
        obtain ⟨sessions, k, link, request, worker, -, -, hlink, hrequest, -, rfl⟩ :=
          exists_of_serve hstep
        apply forall_mem_set h.requests
        exact h.requests link (List.mem_of_getElem? hlink)
    | stranger up down request =>
        cases hstep
        apply forall_mem_concat h.requests
        intro request' hsame
        cases hsame
        -- the request of the stranger is one that a client has sent
        obtain ⟨link, hmem, -, hrequest⟩ := he.seen up down request rfl
        exact h.requests link hmem request hrequest
    | server e =>
        obtain ⟨-, -, sessions, -, rfl⟩ := exists_of_server hstep
        exact h.requests

theorem replayed_init : Replayed D (init D) where
  inv := inv_init
  requests := by simp [init]

theorem undisturbed_of_replays {es : List Event}
    (hes : EachStep (step D) (Replays D) es (init D)) :
    EachStep (step D) (Undisturbed D) es (init D) :=
  hes.imp (Replayed D) (fun _ _ h he => h.undisturbed he) (fun _ _ _ h he => h.step he) replayed_init

/-- What stands in the table of a client can be computed from the bytes of a connection. -/
def Overheard (D : Deployment) (s : Service) (client : ClientOperation) (k : ℕ) : Prop :=
  ∃ table link request worker info, client.mShm = some table ∧ s.links[k]? = some link ∧
    link.request = some request ∧ link.worker = some worker ∧
    (∀ out, SecKeyShm.shmRead client.mInfo.nodes (some table)
      (client.mInfo.ptr ClientInfo.clinetID.off) (client.mInfo.ptr ClientInfo.serverID.off) out =
        ok (0, info)) ∧
    overhear D.hashes request worker.socket.sent = ok (info.str NodeSHMInfo.seckey.off)

theorem Inv.key_overheard (h : Inv D s) (htraced : Traced D s) {f : Finished}
    (hc : s.clients[c]? = some client) (hlatest : s.latest c = some f) :
    Overheard D s client.operation f.link := by
  obtain ⟨table, agreement, info, hshm, hagreement, hread, -, hkey, -⟩ := h.keys c client f hc hlatest
  unfold agreementOf at hagreement
  obtain ⟨worker, hworker, hagreement⟩ := Option.bind_eq_some_iff.mp hagreement
  obtain ⟨link, hlink, hworker⟩ := Option.bind_eq_some_iff.mp hworker
  obtain ⟨request, memory, rand, hrequest, hworking⟩ :=
    (htraced.worked link (List.mem_of_getElem? hlink)).worked worker hworker
  refine ⟨table, link, request, worker, info, hshm, hlink, hrequest, hworker, hread, ?_⟩
  -- the connection is one of the client
  have hfinished : f ∈ s.finished := by
    have hmem := List.mem_of_getLast? hlatest
    exact (List.mem_filter.mp hmem).1
  obtain ⟨-, -, link', hlink', howner⟩ := h.finished f hfinished
  cases hlink.symm.trans hlink'
  obtain ⟨mInfo, hmInfo, x, reqMsg, b, outLen, hrequests, rfl⟩ :=
    h.requests f.link link f.client request hlink howner hrequest
  obtain ⟨worker', hworking', agreement', random, hagreement', hsent, hanswers⟩ :=
    working_answered hmInfo hrequests link memory rand
  cases hworking.symm.trans hworking'
  rw [hagreement'] at hagreement
  cases hagreement
  rw [hsent, hkey]
  exact overhear_eq hrequests.request hrequests.conveys hanswers

/-- In every state of every run, the key in the table of a client is the one that an
eavesdropper computes from the connection of its last call. -/
theorem overheard {es : List Event} (hes : EachStep (step D) (Undisturbed D) es (init D))
    (hrun : run (step D) es (init D) = ok s) {f : Finished} (hc : s.clients[c]? = some client)
    (hlatest : s.latest c = some f) : Overheard D s client.operation f.link := by
  have hkeep : ∀ s e s', Inv D s ∧ Traced D s → s.Undisturbed D e → s.step D e = ok s' →
      Inv D s' ∧ Traced D s' :=
    fun s e s' h he hstep => ⟨(h.1.step he).2 s' hstep, h.2.step hstep⟩
  obtain ⟨hinv, htraced⟩ := inv_of_eachStep (fun s => Inv D s ∧ Traced D s) hkeep
    ⟨inv_init, traced_init⟩ hes hrun
  exact hinv.key_overheard htraced hc hlatest

theorem undisturbed_secondReturns :
    EachStep (step twoClients) (Undisturbed twoClients) secondReturns (init twoClients) :=
  undisturbed_of_replays (.of_test (fun _ _ => replays_of_test) (by decide +kernel))

/-- The call of the second client is the last one that has returned. -/
theorem latest_secondReturns : ∃ s client,
    run (step twoClients) secondReturns (init twoClients) = ok s ∧ s.clients[1]? = some client ∧
      s.latest 1 = some ⟨1, 1, 0⟩ := by
  have hreached : reaches (step twoClients) secondReturns (init twoClients)
      (fun s => s.finished = [⟨1, 1, 0⟩] ∧ s.clients.length = 2) = true := by
    decide +kernel
  obtain ⟨s, hrun, hs⟩ := exists_of_reaches hreached
  obtain ⟨hfinished, hclients⟩ := of_decide_eq_true hs
  refine ⟨s, s.clients[1], hrun, List.getElem?_eq_getElem (by omega), ?_⟩
  rw [latest, hfinished]
  rfl

/-- The key of the second client. -/
theorem overheard_secondReturns : ∃ s client,
    run (step twoClients) secondReturns (init twoClients) = ok s ∧ s.clients[1]? = some client ∧
      s.latest 1 = some ⟨1, 1, 0⟩ ∧ Overheard twoClients s client.operation 1 := by
  obtain ⟨s, client, hrun, hc, hlatest⟩ := latest_secondReturns
  exact ⟨s, client, hrun, hc, hlatest, overheard undisturbed_secondReturns hrun hc hlatest⟩

end Service

end SafeTransmission
