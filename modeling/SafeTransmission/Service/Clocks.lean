import SafeTransmission.Agreement.Nonces
import SafeTransmission.Service.Strangers

/-!
# What the clocks give away

Both programs call `srand(time(NULL))` before they draw a random string.  Whoever knows in which
seconds the clients and the workers have drawn computes all keys, without a byte of any connection:
there is one key for each pair of seconds, whichever client it belongs to (`guessed`).

`rand()` has one state in a process.  It is assumed that nobody else draws between the characters
of a random string, and that nobody seeds the state again: the numbers of each client and of each
worker are one stream of the second in which it has called `srand` (`Draws`).
-/

namespace SafeTransmission

open Outcome Codec

/-- The key of the two strings that are drawn in these seconds, computed as the programs do it. -/
def guess (h : Hashes) (stream : Stream) (now now' : ℤ) : Outcome Bytes := do
  let r1 := (Rand.getRandStringAt stream now 64 .new).1
  let r2 := (Rand.getRandStringAt stream now' 64 .new).1
  let key ← agreedKey h r1 r2
  ok (cString key)

theorem guess_eq (h : Hashes) (stream : Stream) (now now' : ℤ) : guess h stream now now' =
    ok (keyText h (randText 63 (stream (Rand.seedAt now)))
      (randText 63 (stream (Rand.seedAt now')))) := by
  have htext : ∀ rand, 0 ∈ getRandString 64 rand ∧ cString (getRandString 64 rand) = randText 63 rand :=
    fun rand => ⟨by simp [getRandString], cString_terminated (zero_notMem_randText 63 rand) []⟩
  obtain ⟨hr1, htext1⟩ := htext (stream (Rand.seedAt now))
  obtain ⟨hr2, htext2⟩ := htext (stream (Rand.seedAt now'))
  have hfits : (cString (getRandString 64 (stream (Rand.seedAt now)))).length +
      (cString (getRandString 64 (stream (Rand.seedAt now')))).length < 1000 := by
    rw [htext1, htext2, length_randText, length_randText]
    norm_num
  unfold guess
  dsimp only
  rw [Rand.getRandStringAt_fst, Rand.getRandStringAt_fst, agreedKey_eq hr1 hr2 hfits, htext1, htext2,
    ok_bind, cString_terminated (zero_notMem_keyText _ _ _)]

namespace Service

variable {D : Deployment} {s s' : Service} {c k : ℕ} {client : Client}

/-! ## Where the random numbers come from -/

/-- The random numbers of a step are such as clients and workers draw. -/
structure Draws (ofClient ofWorker : (ℕ → ℕ) → Prop) (e : Event) : Prop where
  connect : ∀ c x, e = .connect c x → ofClient x.rand
  serve : ∀ w memory rand, e = .serve w memory rand → ofWorker rand

/-- A call draws its numbers when it begins. -/
def Stage.DrawnBy (ofClient : (ℕ → ℕ) → Prop) : Stage → Prop
  | .idle => True
  | .connected _ x _ _ _ => ofClient x.rand
  | .waiting _ x _ _ _ => ofClient x.rand

/-- The request of a connection, and the answer, come from such numbers. -/
structure Link.DrawnBy (D : Deployment) (ofClient ofWorker : (ℕ → ℕ) → Prop) (link : Link) : Prop where
  request : ∀ c request, link.owner = some c → link.request = some request →
    ∃ mInfo ∈ D.clientInfos, ∃ x reqMsg b outLen, Requests D mInfo x reqMsg b outLen ∧
      request = TcpSocket.frame b ∧ ofClient x.rand
  worker : ∀ worker, link.worker = some worker → ∃ request memory rand, ofWorker rand ∧
    link.request = some request ∧
    ServerOperation.working D.hashes memory rand D.serverInfo (link.socket request) = ok worker

structure DrawnBy (D : Deployment) (ofClient ofWorker : (ℕ → ℕ) → Prop) (s : Service) : Prop where
  inv : Inv D s
  stage : ∀ client ∈ s.clients, Stage.DrawnBy ofClient client.stage
  links : ∀ link ∈ s.links, Link.DrawnBy D ofClient ofWorker link

section Drawing

variable {ofClient ofWorker : (ℕ → ℕ) → Prop}

theorem drawnBy_init : DrawnBy D ofClient ofWorker (init D) where
  inv := inv_init
  stage := by
    intro client hmem
    obtain ⟨mInfo, -, rfl⟩ := List.mem_map.mp hmem
    trivial
  links := by simp [init]

theorem DrawnBy.step (h : DrawnBy D ofClient ofWorker s) {e : Event} (he : s.Undisturbed D e)
    (hdraws : Draws ofClient ofWorker e) (hstep : s.step D e = ok s') :
    DrawnBy D ofClient ofWorker s' := by
  have hinv := (h.inv.step he).2 s' hstep
  cases e with
  | connect c x =>
      obtain ⟨client, reqMsg, outData, outLen, -, -, -, rfl⟩ := exists_of_connect hstep
      refine ⟨hinv, ?_, ?_⟩
      · apply forall_mem_set h.stage
        exact hdraws.connect c x rfl
      · apply forall_mem_concat h.links
        exact ⟨by simp, by simp⟩
  | send c =>
      -- the request carries the string that the client has drawn
      obtain ⟨client, k, x, reqMsg, outData, outLen, link, ret, socket, hc, hstage, hlink, hsend, rfl⟩ :=
        exists_of_send hstep
      have hdrawn := h.stage client (List.mem_of_getElem? hc)
      rw [hstage] at hdrawn
      refine ⟨hinv, ?_, ?_⟩
      · apply forall_mem_set h.stage
        exact hdrawn
      · apply forall_mem_set h.links
        have hat := h.inv.stage c client hc
        have hmInfo := h.inv.mInfo_mem hc
        rw [hstage] at hat
        cases hat with
        | connected _ _ _ _ _ own hholds hrequests _ hworker =>
            cases hlink.symm.trans hholds.found
            obtain ⟨socket', hsend', hsent, -⟩ := sendMsg_requests hrequests
            cases hsend.symm.trans hsend'
            constructor
            · intro c' request _ hrequest
              refine ⟨_, hmInfo, x, reqMsg, outData, outLen, hrequests, ?_, hdrawn⟩
              exact (Option.some.inj hrequest).symm.trans hsent
            · intro worker hsome
              cases hworker.symm.trans hsome
  | receive c =>
      obtain ⟨client, k, x, reqMsg, outLen, socket, worker, ret, operation, -, -, -, -, rfl⟩ :=
        exists_of_receive hstep
      refine ⟨hinv, ?_, h.links⟩
      apply forall_mem_set h.stage
      trivial
  | serve w memory rand =>
      -- the worker draws the other string
      obtain ⟨sessions, k, link, request, worker, -, -, hlink, hrequest, hworking, rfl⟩ :=
        exists_of_serve hstep
      have hold := h.links link (List.mem_of_getElem? hlink)
      refine ⟨hinv, h.stage, ?_⟩
      apply forall_mem_set h.links
      constructor
      · exact hold.request
      · intro other hother
        cases hother
        exact ⟨request, memory, rand, hdraws.serve w memory rand rfl, hrequest, hworking⟩
  | stranger up down request =>
      cases hstep
      refine ⟨hinv, h.stage, ?_⟩
      apply forall_mem_concat h.links
      exact ⟨by simp, by simp⟩
  | server e =>
      obtain ⟨-, -, sessions, -, rfl⟩ := exists_of_server hstep
      exact ⟨hinv, h.stage, h.links⟩

theorem seckey_of_working {mInfo : ClientInfo} {x : Call} {reqMsg : RequestMsg} {b : Bytes}
    {outLen : ℤ} (hmInfo : mInfo ∈ D.clientInfos) (hrequests : Requests D mInfo x reqMsg b outLen)
    {link : Link} {memory : ServerMemory} {rand : ℕ → ℕ} {worker : ServerOperation.WorkerEnd}
    (hworking : ServerOperation.working D.hashes memory rand D.serverInfo
      (link.socket (TcpSocket.frame b)) = ok worker) {agreement : Agreement}
    (hagreement : worker.agreement.2 = some agreement) :
    agreement.seckey = keyText D.hashes (randText 63 x.rand) (randText 63 rand) := by
  have hreq := hrequests.request
  rw [← D.sameServer mInfo hmInfo] at hreq
  obtain ⟨agreement', socket, hworking', -, hanswers⟩ := ServerOperation.working_eq D.serverID hreq
    hrequests.conveys (s := link.socket (TcpSocket.frame b)) link.up.readable_transient
    link.down.writable_transient link.down.writes_transient (link.up.carried_deliver _) memory rand
  cases hworking.symm.trans hworking'
  cases hagreement
  exact hanswers.seckey

/-- The key of a client is made of a string that a client has drawn, and one of a worker. -/
theorem DrawnBy.key_eq (h : DrawnBy D ofClient ofWorker s) {f : Finished}
    (hc : s.clients[c]? = some client) (hlatest : s.latest c = some f) :
    ∃ table info rand rand', client.operation.mShm = some table ∧
      (∀ out, SecKeyShm.shmRead client.operation.mInfo.nodes (some table)
        (client.operation.mInfo.ptr ClientInfo.clinetID.off)
        (client.operation.mInfo.ptr ClientInfo.serverID.off) out = ok (0, info)) ∧
      ofClient rand ∧ ofWorker rand' ∧
      info.str NodeSHMInfo.seckey.off = keyText D.hashes (randText 63 rand) (randText 63 rand') := by
  obtain ⟨table, agreement, info, hshm, hagreement, hread, -, hkey, -⟩ :=
    h.inv.keys c client f hc hlatest
  unfold agreementOf at hagreement
  obtain ⟨worker, hworker, hagreement⟩ := Option.bind_eq_some_iff.mp hagreement
  obtain ⟨link, hlink, hworker⟩ := Option.bind_eq_some_iff.mp hworker
  have hdrawn := h.links link (List.mem_of_getElem? hlink)
  have hfinished : f ∈ s.finished := by
    have hmem := List.mem_of_getLast? hlatest
    exact (List.mem_filter.mp hmem).1
  obtain ⟨-, -, link', hlink', howner⟩ := h.inv.finished f hfinished
  cases hlink.symm.trans hlink'
  obtain ⟨request, memory, rand', hofWorker, hrequest, hworking⟩ := hdrawn.worker worker hworker
  obtain ⟨mInfo, hmInfo, x, reqMsg, b, outLen, hrequests, rfl, hofClient⟩ :=
    hdrawn.request f.client request howner hrequest
  refine ⟨table, info, x.rand, rand', hshm, hread, hofClient, hofWorker, ?_⟩
  rw [hkey]
  exact seckey_of_working hmInfo hrequests hworking hagreement

end Drawing

/-! ## Seconds -/

/-- The numbers that are drawn behind `srand(time(NULL))` in one of the seconds. -/
def InSecond (stream : Stream) (seconds : Set ℤ) (rand : ℕ → ℕ) : Prop :=
  ∃ now ∈ seconds, rand = stream (Rand.seedAt now)

/-- The key in the table of the client is the guess for two of the seconds. -/
def Guessed (D : Deployment) (stream : Stream) (ofClients ofWorkers : Set ℤ)
    (client : ClientOperation) : Prop :=
  ∃ table info, client.mShm = some table ∧
    (∀ out, SecKeyShm.shmRead client.mInfo.nodes (some table)
      (client.mInfo.ptr ClientInfo.clinetID.off) (client.mInfo.ptr ClientInfo.serverID.off) out =
        ok (0, info)) ∧
    ∃ now ∈ ofClients, ∃ now' ∈ ofWorkers,
      guess D.hashes stream now now' = ok (info.str NodeSHMInfo.seckey.off)

/-- In every state of every run, the key of a client is among the guesses for the seconds in which
clients and workers have drawn. -/
theorem guessed (stream : Stream) (ofClients ofWorkers : Set ℤ) {es : List Event}
    (hes : EachStep (step D) (Undisturbed D) es (init D))
    (hdraws : ∀ e ∈ es, Draws (InSecond stream ofClients) (InSecond stream ofWorkers) e)
    (hrun : run (step D) es (init D) = ok s) {f : Finished} (hc : s.clients[c]? = some client)
    (hlatest : s.latest c = some f) : Guessed D stream ofClients ofWorkers client.operation := by
  have hdrawn := inv_of_eachStep (DrawnBy D (InSecond stream ofClients) (InSecond stream ofWorkers))
    (fun _ _ _ h he hstep => h.step he.1 he.2 hstep) drawnBy_init (hes.and hdraws) hrun
  obtain ⟨table, info, rand, rand', hshm, hread, ⟨now, hnow, rfl⟩, ⟨now', hnow', rfl⟩, hkey⟩ :=
    hdrawn.key_eq hc hlatest
  refine ⟨table, info, hshm, hread, now, hnow, now', hnow', ?_⟩
  rw [guess_eq, hkey]

/-- Streams that begin apart. -/
def threeSeeds (seed i : ℕ) : ℕ :=
  match seed with
  | 0 => i
  | 1 => i + 5
  | _ => 7 * i

/-- The clients draw in the seconds 0 and 1, and the worker in second 2. -/
theorem draws_secondReturns : ∀ e ∈ secondReturns,
    Draws (InSecond threeSeeds {0, 1}) (InSecond threeSeeds {2}) e := by
  intro e he
  constructor
  · intro c x hconnect
    subst hconnect
    simp only [secondReturns, List.mem_cons, Event.connect.injEq, reduceCtorEq, List.not_mem_nil,
      or_false, or_self] at he
    rcases he with ⟨-, rfl⟩ | ⟨-, rfl⟩
    · exact ⟨0, by simp, rfl⟩
    · exact ⟨1, by simp, rfl⟩
  · intro w memory rand hserve
    subst hserve
    simp only [secondReturns, List.mem_cons, Event.serve.injEq, reduceCtorEq, List.not_mem_nil,
      or_false, false_or] at he
    obtain ⟨-, -, rfl⟩ := he
    exact ⟨2, rfl, rfl⟩

theorem guessed_secondReturns : ∃ s client,
    run (step twoClients) secondReturns (init twoClients) = ok s ∧ s.clients[1]? = some client ∧
      s.latest 1 = some ⟨1, 1, 0⟩ ∧ Guessed twoClients threeSeeds {0, 1} {2} client.operation := by
  obtain ⟨s, client, hrun, hc, hlatest⟩ := latest_secondReturns
  exact ⟨s, client, hrun, hc, hlatest,
    guessed threeSeeds {0, 1} {2} undisturbed_secondReturns draws_secondReturns hrun hc hlatest⟩

end Service

end SafeTransmission
