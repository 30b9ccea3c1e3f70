import SafeTransmission.Library.Progress
import SafeTransmission.Service.Agreeing

/-!
# Every call returns

The calls that have begun and the threads of the server take a bounded number of steps, in
whatever order, and then all clients have returned with a success (`answered`).  Nobody has
to wait for somebody else: not for another client, and not for a stranger, unless a worker
fails on what the stranger has sent.

This is so with reliable connections and an atomic map (`Service.Service`).

## Strategy

* `potential` counts the steps that the calls and the threads have before them.  A connection that
  is accepted brings the steps of a worker, and is counted for them before (`toServe_of_step`).
  Every step that begins nothing makes it smaller (`potential_lt`).
* `Live` is the invariant of `Agreeing`, together with the connection that each client in a call
  holds.
* At rest each thread has to be at its end: `startWork` has accepted everything
  (`acceptor_of_rest`), so every connection has a worker (`workers_of_rest`), which has served it
  (`served_of_rest`), and then the client could go on if it were in a call (`idle_of_rest`).
-/

namespace SafeTransmission

open Outcome

/-- The steps that a client has still to take in its call. -/
def Stage.toReturn : Stage → ℕ
  | .idle => 0
  | .connected .. => 2
  | .waiting .. => 1

/-- The connection of a call that has not returned. -/
def Stage.link : Stage → Option ℕ
  | .idle => none
  | .connected link .. => some link
  | .waiting link .. => some link

/-- The steps that a worker has still to take. -/
def WorkerPhase.toExit : WorkerPhase → ℕ
  | .created => 6
  | .obtained _ => 5
  | .served _ => 4
  | .located .. => 3
  | .erased _ => 2
  | .deleted => 1
  | .exited => 0

/-- The steps before the next connection can be accepted, with those of the new worker. -/
def Acceptor.toAccept : Acceptor → ℕ
  | .accepting => 0
  | .accepted _ => 8
  | .created .. => 1

/-- The steps that the threads of the server have still to take for what they have accepted. -/
def Sessions.toServe (s : Sessions) : ℕ :=
  s.acceptor.toAccept + (s.workers.map fun worker => worker.phase.toExit).sum

namespace Service

variable (D : Deployment) (s : Service)

/-- A step that does not begin something new. -/
def Event.goesOn : Event → Prop
  | .connect .. | .stranger .. => False
  | _ => True

/-- A step of a call that has begun or of a thread of the server, which goes well. -/
def Works (e : Event) : Prop :=
  e.goesOn ∧ s.Undisturbed D e

/-- A bound on the steps of the calls that have begun and of the server. -/
def potential : ℕ :=
  (s.clients.map fun client => client.stage.toReturn).sum +
    9 * (s.links.length - s.sessions.accepted) + s.sessions.toServe

/-- All calls have returned. -/
structure Complete : Prop where
  idle : ∀ client ∈ s.clients, client.stage = .idle
  /-- Whoever has connected has succeeded. -/
  returned : ∀ (k : ℕ) (link : Link) c, s.links[k]? = some link → link.owner = some c →
    ⟨c, k, 0⟩ ∈ s.finished

variable {D s} {s' : Service} {c k w : ℕ} {client : Client} {x : Call}

/-! ## The steps that are left -/

theorem getWorker_eq_ok {sessions : Sessions} {worker : Worker} :
    sessions.getWorker w = ok worker ↔ sessions.workers[w]? = some worker := by
  unfold Sessions.getWorker
  cases sessions.workers[w]? with
  | none => simp
  | some other => simp

theorem toServe_setPhase {sessions : Sessions} {worker : Worker}
    (hw : sessions.workers[w]? = some worker) (phase : WorkerPhase)
    (hphase : phase.toExit + 1 = worker.phase.toExit) :
    (sessions.setPhase w worker phase).toServe + 1 = sessions.toServe := by
  have hsum := sum_map_set hw (fun worker => worker.phase.toExit) { worker with phase := phase }
  dsimp only at hsum
  simp only [Sessions.toServe, Sessions.setPhase]
  omega

/-- A connection that is accepted brings the work of a worker; other steps do some of it. -/
theorem toServe_of_step {sessions sessions' : Sessions} {e : Sessions.Event}
    (h : sessions.step e = ok sessions') :
    (e = .accept ∧ sessions'.accepted = sessions.accepted + 1 ∧
        sessions'.toServe = sessions.toServe + 8) ∨
      (e ≠ .accept ∧ sessions'.accepted = sessions.accepted ∧
        sessions'.toServe + 1 = sessions.toServe) := by
  cases e with
  | accept =>
      -- the steps of `startWork` and of the new worker
      left
      obtain ⟨haccepting, hok⟩ := require_bind_eq_ok.mp h
      cases hok
      refine ⟨rfl, rfl, ?_⟩
      simp only [Sessions.toServe, haccepting, Acceptor.toAccept]
      omega
  | create tid =>
      -- those of the worker go over from `startWork` to the worker
      right
      simp only [Sessions.step, Sessions.create] at h
      split at h
      · rename_i socket haccepted
        obtain ⟨-, hok⟩ := require_bind_eq_ok.mp h
        cases hok
        refine ⟨by simp, rfl, ?_⟩
        simp only [Sessions.toServe, haccepted, Acceptor.toAccept, List.map_append, List.sum_append,
          List.map_cons, List.map_nil, List.sum_cons, List.sum_nil, WorkerPhase.toExit]
        omega
      · cases h
  | insert =>
      right
      simp only [Sessions.step, Sessions.insert] at h
      split at h
      · rename_i tid socket hcreated
        have hdone : ∀ listSocket, Sessions.toServe { sessions with
            acceptor := .accepting, listSocket := listSocket } + 1 = sessions.toServe := by
          intro listSocket
          simp only [Sessions.toServe, hcreated, Acceptor.toAccept]
          omega
        split at h
        · cases h
          exact ⟨by simp, rfl, hdone _⟩
        · cases h
          exact ⟨by simp, rfl, hdone _⟩
      · cases h
  | lookup w =>
      -- from here on a worker goes on by one phase
      right
      obtain ⟨worker, hworker, hok⟩ := bind_eq_ok.mp h
      obtain ⟨hphase, hok⟩ := require_bind_eq_ok.mp hok
      have hw := getWorker_eq_ok.mp hworker
      split at hok
      · rename_i socket _
        cases hok
        exact ⟨by simp, rfl, toServe_setPhase hw _ (by rw [hphase]; rfl)⟩
      · cases hok
        exact ⟨by simp, rfl, toServe_setPhase hw (.obtained none) (by rw [hphase]; rfl)⟩
  | serve w =>
      right
      obtain ⟨worker, hworker, hok⟩ := bind_eq_ok.mp h
      have hw := getWorker_eq_ok.mp hworker
      split at hok
      · cases hok
      · rename_i socket hphase
        split at hok
        · cases hok
        · cases hok
          exact ⟨by simp, rfl, toServe_setPhase hw (.served socket) (by rw [hphase]; rfl)⟩
      · cases hok
  | find w =>
      right
      obtain ⟨worker, hworker, hok⟩ := bind_eq_ok.mp h
      have hw := getWorker_eq_ok.mp hworker
      split at hok
      · rename_i socket hphase
        cases hok
        exact ⟨by simp, rfl, toServe_setPhase hw _ (by rw [hphase]; rfl)⟩
      · cases hok
  | erase w =>
      right
      obtain ⟨worker, hworker, hok⟩ := bind_eq_ok.mp h
      have hw := getWorker_eq_ok.mp hworker
      split at hok
      · rename_i socket hphase
        cases hok
        exact ⟨by simp, rfl, toServe_setPhase hw (.erased socket) (by rw [hphase]; rfl)⟩
      · cases hok
      · cases hok
  | delete w =>
      right
      obtain ⟨worker, hworker, hok⟩ := bind_eq_ok.mp h
      have hw := getWorker_eq_ok.mp hworker
      split at hok
      · rename_i socket hphase
        split at hok
        · cases hok
        · cases hok
          exact ⟨by simp, rfl, toServe_setPhase hw .deleted (by rw [hphase]; rfl)⟩
      · cases hok
  | exit w =>
      right
      obtain ⟨worker, hworker, hok⟩ := bind_eq_ok.mp h
      obtain ⟨hphase, hok⟩ := require_bind_eq_ok.mp hok
      cases hok
      exact ⟨by simp, rfl, toServe_setPhase (getWorker_eq_ok.mp hworker) _ (by rw [hphase]; rfl)⟩

/-- Steps that begin nothing use up the potential. -/
theorem potential_lt {e : Event} (hgoes : e.goesOn) (h : s.step D e = ok s') :
    s'.potential < s.potential := by
  cases e with
  | connect c x => exact absurd hgoes id
  | stranger up down request => exact absurd hgoes id
  | send c =>
      obtain ⟨client, k, x, reqMsg, outData, outLen, link, ret, socket, hc, hstage, hlink, -, rfl⟩ :=
        exists_of_send h
      have hsum := sum_map_set hc (fun client => client.stage.toReturn)
        { client with stage := .waiting k x reqMsg outLen socket }
      have hless : (Stage.waiting k x reqMsg outLen socket).toReturn + 1 = client.stage.toReturn := by
        rw [hstage]
        rfl
      dsimp only at hsum
      simp only [potential, setClient, List.length_set]
      omega
  | receive c =>
      obtain ⟨client, k, x, reqMsg, outLen, socket, worker, ret, operation, hc, hstage, -, -, rfl⟩ :=
        exists_of_receive h
      have hsum := sum_map_set hc (fun client => client.stage.toReturn) ⟨operation, .idle⟩
      have hless : Stage.idle.toReturn + 1 = client.stage.toReturn := by
        rw [hstage]
        rfl
      dsimp only at hsum
      simp only [potential, setClient]
      omega
  | serve w memory rand =>
      -- the worker goes on, and clients are where they were
      obtain ⟨sessions, k, link, request, worker, hserve, -, -, -, -, rfl⟩ := exists_of_serve h
      rcases toServe_of_step (e := .serve w) hserve with ⟨haccept, -, -⟩ | ⟨-, haccepted, hless⟩
      · cases haccept
      · simp only [potential, List.length_set, haccepted]
        omega
  | server e =>
      obtain ⟨hroom, -, sessions, hstep, rfl⟩ := exists_of_server h
      simp only [potential]
      rcases toServe_of_step hstep with ⟨haccept, haccepted, hmore⟩ | ⟨-, haccepted, hless⟩
      · -- the steps of the worker were counted with the connection before
        have hlt := hroom haccept
        omega
      · rw [haccepted]
        omega

/-! ## The calls that have begun -/

/-- Every connection of a client belongs to a call, and whoever was served has an answer. -/
structure Live (D : Deployment) (s : Service) : Prop where
  inv : Inv D s
  accepted_le : s.sessions.accepted ≤ s.links.length
  answered : ∀ k, (k, k) ∈ s.sessions.served →
    ∃ link worker, s.links[k]? = some link ∧ link.worker = some worker
  held : ∀ (k : ℕ) (link : Link) c, s.links[k]? = some link → link.owner = some c →
    ⟨c, k, 0⟩ ∈ s.finished ∨ ∃ client, s.clients[c]? = some client ∧ client.stage.link = some k

theorem live_init : Live D (init D) where
  inv := inv_init
  accepted_le := le_rfl
  answered := by simp [init, Sessions.init]
  held := by simp [init]

theorem held_of_set {client client' : Client} (hc : s.clients[c]? = some client)
    (hlink : client'.stage.link = client.stage.link) {j : ℕ}
    (h : ∃ other, s.clients[j]? = some other ∧ other.stage.link = some k) :
    ∃ other, (s.clients.set c client')[j]? = some other ∧ other.stage.link = some k := by
  obtain ⟨other, hj, hother⟩ := h
  rw [getElem?_set_of_some hc]
  by_cases hjc : j = c
  · subst hjc
    cases hc.symm.trans hj
    exact ⟨client', if_pos rfl, hlink.trans hother⟩
  · exact ⟨other, by rw [if_neg hjc, hj], hother⟩

theorem Live.connect (h : Live D s) (hstep : s.connect D c x = ok s') : Live D s' where
  inv := (h.inv.connect c x).2 s' hstep
  accepted_le := by
    obtain ⟨client, reqMsg, outData, outLen, hc, hidle, -, rfl⟩ := exists_of_connect hstep
    simp only [List.length_append, setClient]
    exact Nat.le_add_right_of_le h.accepted_le
  answered := by
    obtain ⟨client, reqMsg, outData, outLen, hc, hidle, -, rfl⟩ := exists_of_connect hstep
    intro k hk
    obtain ⟨link, worker, hlink, hworker⟩ := h.answered k hk
    exact ⟨link, worker, getElem?_append_of_some hlink _, hworker⟩
  held := by
    obtain ⟨client, reqMsg, outData, outLen, hc, hidle, -, rfl⟩ := exists_of_connect hstep
    intro k link j hlink howner
    rcases getElem?_concat hlink with hlink | ⟨rfl, rfl⟩
    · rcases h.held k link j hlink howner with hfinished | ⟨other, hj, hother⟩
      · exact Or.inl hfinished
      · have hjc : j ≠ c := by
          intro hjc
          subst hjc
          cases hc.symm.trans hj
          rw [hidle] at hother
          cases hother
        refine Or.inr ⟨other, ?_, hother⟩
        exact (getElem?_set_of_some hc _ j).trans ((if_neg hjc).trans hj)
    · cases howner
      right
      refine ⟨_, (getElem?_set_of_some hc _ c).trans (if_pos rfl), rfl⟩

theorem Live.send (h : Live D s) (hstep : s.send c = ok s') : Live D s' where
  inv := (h.inv.send c).2 s' hstep
  accepted_le := by
    obtain ⟨client, k, x, reqMsg, outData, outLen, link, ret, socket, hc, hstage, hlink, -, rfl⟩ :=
      exists_of_send hstep
    simp only [List.length_set]
    exact h.accepted_le
  answered := by
    obtain ⟨client, k, x, reqMsg, outData, outLen, link, ret, socket, hc, hstage, hlink, -, rfl⟩ :=
      exists_of_send hstep
    intro j hj
    obtain ⟨other, worker, hother, hworker⟩ := h.answered j hj
    by_cases hjk : j = k
    · subst hjk
      cases hlink.symm.trans hother
      exact ⟨_, worker, (getElem?_set_of_some hlink _ j).trans (if_pos rfl), hworker⟩
    · exact ⟨other, worker, (getElem?_set_of_some hlink _ j).trans ((if_neg hjk).trans hother), hworker⟩
  held := by
    obtain ⟨client, k, x, reqMsg, outData, outLen, link, ret, socket, hc, hstage, hlink, -, rfl⟩ :=
      exists_of_send hstep
    intro j other i hj howner
    have hold : ∃ old : Link, s.links[j]? = some old ∧ old.owner = some i := by
      change (s.links.set k { link with request := some socket.sent })[j]? = some other at hj
      rw [getElem?_set_of_some hlink] at hj
      split at hj
      · rename_i hjk
        cases hj
        exact ⟨link, by rw [hjk, hlink], howner⟩
      · exact ⟨other, hj, howner⟩
    obtain ⟨old, hold, howner⟩ := hold
    apply (h.held j old i hold howner).imp_right
    exact held_of_set hc (by rw [hstage]; rfl)

theorem Live.receive (h : Live D s) (hstep : s.receive D c = ok s') : Live D s' where
  inv := (h.inv.receive c).2 s' hstep
  accepted_le := by
    obtain ⟨client, k, x, reqMsg, outLen, socket, worker, ret, operation, hc, hstage, -, -, rfl⟩ :=
      exists_of_receive hstep
    exact h.accepted_le
  answered := by
    obtain ⟨client, k, x, reqMsg, outLen, socket, worker, ret, operation, hc, hstage, -, -, rfl⟩ :=
      exists_of_receive hstep
    exact h.answered
  held := by
    have hinv := (h.inv.receive c).2 s' hstep
    obtain ⟨client, k, x, reqMsg, outLen, socket, worker, ret, operation, hc, hstage, -, -, rfl⟩ :=
      exists_of_receive hstep
    have hret : ret = 0 :=
      (hinv.finished ⟨c, k, ret⟩ (List.mem_append_right _ List.mem_cons_self)).1
    intro j other i hj howner
    rcases h.held j other i hj howner with hfinished | ⟨holder, hi, hholds⟩
    · exact Or.inl (List.mem_append_left _ hfinished)
    · by_cases hic : i = c
      · subst hic
        cases hc.symm.trans hi
        rw [hstage] at hholds
        cases hholds
        left
        rw [hret]
        exact List.mem_append_right _ List.mem_cons_self
      · right
        exact ⟨holder, (getElem?_set_of_some hc _ i).trans ((if_neg hic).trans hi), hholds⟩

theorem Live.stranger (h : Live D s) (up down : Channel) (request : Bytes) :
    Live D { s with links := s.links ++ [⟨none, up, down, some request, none⟩] } where
  inv := (h.inv.stranger up down request).2 _ rfl
  accepted_le := by
    rw [List.length_append]
    exact Nat.le_add_right_of_le h.accepted_le
  answered := by
    intro k hk
    obtain ⟨link, worker, hlink, hworker⟩ := h.answered k hk
    exact ⟨link, worker, getElem?_append_of_some hlink _, hworker⟩
  held := by
    intro k link j hlink howner
    rcases getElem?_concat hlink with hlink | ⟨-, rfl⟩
    · exact h.held k link j hlink howner
    · cases howner

theorem Live.serve (h : Live D s) {memory : ServerMemory} {rand : ℕ → ℕ}
    (hcondition : s.Undisturbed D (.serve w memory rand)) (hstep : s.serve D w memory rand = ok s') :
    Live D s' where
  inv := (h.inv.serve hcondition).2 s' hstep
  accepted_le := by
    obtain ⟨sessions, k, link, request, worker, hserve, hk, hlink, -, -, rfl⟩ := exists_of_serve hstep
    rcases toServe_of_step (e := .serve w) hserve with ⟨haccept, -, -⟩ | ⟨-, haccepted, -⟩
    · cases haccept
    · simp only [List.length_set, haccepted]
      exact h.accepted_le
  answered := by
    obtain ⟨sessions, k, link, request, worker, hserve, hk, hlink, -, -, rfl⟩ := exists_of_serve hstep
    obtain ⟨rfl, -, sessions', hserve', hserved⟩ := h.inv.linkOf_eq hk
    cases hserve.symm.trans hserve'
    intro j hj
    by_cases hjk : j = k
    · subst hjk
      exact ⟨_, worker, (getElem?_set_of_some hlink _ j).trans (if_pos rfl), rfl⟩
    · change (j, j) ∈ sessions.served at hj
      rw [hserved] at hj
      have hold : (j, j) ∈ s.sessions.served := by
        rcases List.mem_append.mp hj with hold | hnew
        · exact hold
        · cases List.mem_singleton.mp hnew
          exact absurd rfl hjk
      obtain ⟨other, old, hother, hworker⟩ := h.answered j hold
      exact ⟨other, old, (getElem?_set_of_some hlink _ j).trans ((if_neg hjk).trans hother), hworker⟩
  held := by
    obtain ⟨sessions, k, link, request, worker, hserve, hk, hlink, -, -, rfl⟩ := exists_of_serve hstep
    intro j other i hj howner
    change (s.links.set k { link with worker := some worker })[j]? = some other at hj
    rw [getElem?_set_of_some hlink] at hj
    split at hj
    · rename_i hjk
      cases hj
      subst hjk
      exact h.held j link i hlink howner
    · exact h.held j other i hj howner

theorem Live.server (h : Live D s) {e : Sessions.Event} (hcondition : s.sessions.Inserted e)
    (hstep : s.server e = ok s') : Live D s' where
  inv := (h.inv.server hcondition).2 s' hstep
  accepted_le := by
    obtain ⟨hroom, hserve, sessions, hsessions, rfl⟩ := exists_of_server hstep
    have hle := h.accepted_le
    rcases toServe_of_step hsessions with ⟨haccept, haccepted, -⟩ | ⟨-, haccepted, -⟩
    · have hlt := hroom haccept
      dsimp only
      omega
    · rw [← haccepted] at hle
      exact hle
  answered := by
    obtain ⟨hroom, hserve, sessions, hsessions, rfl⟩ := exists_of_server hstep
    intro k hk
    change (k, k) ∈ sessions.served at hk
    rw [served_of_step hserve hsessions] at hk
    exact h.answered k hk
  held := by
    obtain ⟨hroom, hserve, sessions, hsessions, rfl⟩ := exists_of_server hstep
    exact h.held

theorem Live.step (h : Live D s) {e : Event} (hcondition : s.Undisturbed D e)
    (hstep : s.step D e = ok s') : Live D s' := by
  cases e with
  | connect c x => exact h.connect hstep
  | send c => exact h.send hstep
  | receive c => exact h.receive hstep
  | stranger up down request =>
      cases hstep
      exact h.stranger up down request
  | serve w memory rand => exact h.serve hcondition hstep
  | server e => exact h.server (hcondition.inserted e rfl) hstep

/-! ## At rest -/

theorem undisturbed_server {e : Sessions.Event} (h : s.sessions.Inserted e) :
    s.Undisturbed D (.server e) := by
  constructor
  · intro e' he
    cases he
    exact h
  · simp

theorem undisturbed_serve {link : Link} (hk : s.linkOf w = some k) (hlink : s.links[k]? = some link)
    (howner : link.owner = some c) (memory : ServerMemory) (rand : ℕ → ℕ) :
    s.Undisturbed D (.serve w memory rand) := by
  constructor
  · simp
  · intro w' memory' rand' k' link' request he hk' hlink' hnone
    cases he
    cases hk.symm.trans hk'
    cases hlink.symm.trans hlink'
    rw [howner] at hnone
    cases hnone

section AtRest

variable (h : Live D s) (hrest : AtRest (step D) (Works D) s)

include hrest

theorem not_works {e : Event} (hworks : s.Works D e) : ¬∃ s', s.step D e = ok s' := by
  intro hexists
  obtain ⟨s', hstep⟩ := hexists
  exact hrest e s' hworks hstep

/-- No step of the server can be taken, when it is not for a lookup that comes too early. -/
theorem not_server {e : Sessions.Event} (hinserted : s.sessions.Inserted e)
    (hserve : ∀ w, e ≠ .serve w) (hroom : e = .accept → s.sessions.accepted < s.links.length) :
    ¬∃ sessions, s.sessions.step e = ok sessions := by
  intro hexists
  obtain ⟨sessions, hstep⟩ := hexists
  apply not_works hrest (e := .server e) ⟨trivial, undisturbed_server hinserted⟩
  refine ⟨{ s with sessions := sessions }, ?_⟩
  change s.server e = _
  rw [server_eq hserve hroom, hstep, ok_bind]

theorem acceptor_of_rest : s.sessions.acceptor = .accepting := by
  cases hacceptor : s.sessions.acceptor with
  | accepting => rfl
  | accepted socket =>
      obtain ⟨tid, hcreate⟩ := Sessions.exists_create hacceptor
      exact absurd hcreate
        (not_server hrest (e := .create tid) (by simp [Sessions.Inserted]) (by simp) (by simp))
  | created tid socket =>
      exact absurd (Sessions.exists_insert hacceptor)
        (not_server hrest (e := .insert) (by simp [Sessions.Inserted]) (by simp) (by simp))

include h

theorem workers_of_rest : s.sessions.workers.length = s.links.length := by
  have hacceptor := acceptor_of_rest hrest
  have haccepted := h.inv.sessions.acceptor
  rw [hacceptor] at haccepted
  rw [← haccepted]
  apply h.accepted_le.antisymm
  by_contra hlt
  refine not_server hrest (e := .accept) (by simp [Sessions.Inserted]) (by simp)
    (fun _ => not_le.mp hlt) ⟨_, require_bind_of hacceptor _⟩

/-- The connection of a client has been served, as soon as it has a request. -/
theorem served_of_rest {link : Link} {request : Bytes} (hlink : s.links[k]? = some link)
    (howner : link.owner = some c) (hrequest : link.request = some request) :
    (k, k) ∈ s.sessions.served := by
  have hlt : k < s.sessions.workers.length := by
    rw [workers_of_rest h hrest]
    exact (List.getElem?_eq_some_iff.mp hlink).1
  have hw := List.getElem?_eq_getElem hlt
  have hfits := h.inv.sessions.fits k _ hw
  apply (hfits.served k).mpr
  refine ⟨rfl, ?_⟩
  cases hphase : s.sessions.workers[k].phase with
  | created =>
      exfalso
      -- `startWork` is behind `insert`, so the lookup is not too early
      have hinserted : s.sessions.Inserted (.lookup k) := by
        intro w worker _ _ hcreated
        rw [acceptor_of_rest hrest] at hcreated
        cases hcreated
      apply not_server hrest hinserted (by simp) (by simp)
      rw [Sessions.step, Sessions.lookup, getWorker_eq_ok.mpr hw, ok_bind, require_bind_of hphase]
      split
      · exact ⟨_, rfl⟩
      · exact ⟨_, rfl⟩
  | obtained socket =>
      exfalso
      obtain rfl := hfits.socket socket (by rw [hphase]; rfl)
      have hfound : s.linkOf k = some k := linkOf_eq_some.mpr ⟨_, hw, hphase⟩
      obtain ⟨-, -, sessions, hserve, -⟩ := h.inv.linkOf_eq hfound
      -- the worker could answer the request of its client
      obtain ⟨mInfo, hmInfo, x, reqMsg, b, outLen, hrequests, rfl⟩ :=
        h.inv.requests k link c request hlink howner hrequest
      let memory : ServerMemory := ⟨.zero 160, .zero 96, .zero 96⟩
      obtain ⟨worker, hworking, -⟩ := working_answered hmInfo hrequests link memory id
      apply not_works hrest (e := .serve k memory id)
        ⟨trivial, undisturbed_serve hfound hlink howner _ _⟩
      simp only [Service.step, Service.serve, hserve, hfound, hlink, hrequest, hworking, ok_bind]
      exact ⟨_, rfl⟩
  | _ => rfl

theorem idle_of_rest (hc : s.clients[c]? = some client) : client.stage = .idle := by
  have hat := h.inv.stage c client hc
  cases hstage : client.stage with
  | idle => rfl
  | connected k x reqMsg b outLen =>
      exfalso
      rw [hstage] at hat
      cases hat with
      | connected _ _ _ _ _ link hholds hrequests hrequest hworker =>
          obtain ⟨socket, hsend, -, -⟩ := sendMsg_requests hrequests
          apply not_works hrest (e := .send c) ⟨trivial, by simp, by simp⟩
          simp only [Service.step, Service.send, getClient_eq_ok.mpr hc, hstage, hholds.found, hsend,
            ok_bind]
          exact ⟨_, rfl⟩
  | waiting k x reqMsg outLen socket =>
      exfalso
      rw [hstage] at hat
      cases hat with
      | waiting _ _ _ b _ _ link hholds hrequests hrequest hreadable hworker =>
          have hserved := served_of_rest h hrest hholds.found hholds.owner hrequest
          obtain ⟨link', worker, hlink', hend⟩ := h.answered k hserved
          cases hholds.found.symm.trans hlink'
          obtain ⟨table, hshm, htable⟩ := h.inv.table client (List.mem_of_getElem? hc)
          obtain ⟨operation, table', agreement, info, htake, -⟩ := takeResponse_answered
            (h.inv.ids hc) htable hshm hrequests hreadable (hworker worker hend)
          apply not_works hrest (e := .receive c) ⟨trivial, by simp, by simp⟩
          simp only [Service.step, Service.receive, getClient_eq_ok.mpr hc, hstage, hholds.found,
            Option.bind_some, hend, htake, ok_bind]
          exact ⟨_, rfl⟩

theorem complete_of_rest : s.Complete where
  idle := by
    intro client hmem
    obtain ⟨c, hc⟩ := List.getElem?_of_mem hmem
    exact idle_of_rest h hrest hc
  returned := by
    intro k link c hlink howner
    rcases h.held k link c hlink howner with hfinished | ⟨client, hc, hholds⟩
    · exact hfinished
    · rw [idle_of_rest h hrest hc] at hholds
      cases hholds

end AtRest

/-! ## Runs -/

/-- After any run, the calls that have begun and the threads of the server come to rest after a
bounded number of steps, in whatever order they take them, and then all calls have returned
with a success. -/
theorem answered {es : List Event} (hes : EachStep (step D) (Undisturbed D) es (init D))
    (hrun : run (step D) es (init D) = ok s) :
    (∀ es' s', WorksTo (step D) (Works D) es' s s' → es'.length ≤ s.potential) ∧
      (∃ es' s', WorksTo (step D) (Works D) es' s s' ∧ AtRest (step D) (Works D) s') ∧
      ∀ es' s', WorksTo (step D) (Works D) es' s s' → AtRest (step D) (Works D) s' →
        s'.Complete := by
  have hlive : Live D s :=
    inv_of_eachStep (Live D) (fun s e s' h he hstep => h.step he hstep) live_init hes hrun
  have hkeep : ∀ s e s', Live D s → Works D s e → s.step D e = ok s' → Live D s' :=
    fun s e s' h he hstep => h.step he.2 hstep
  have hdecrease : ∀ s e s', Live D s → Works D s e → s.step D e = ok s' →
      s'.potential < s.potential := fun s e s' _ he hstep => potential_lt he.1 hstep
  refine ⟨?_, exists_rest hkeep hdecrease hlive, ?_⟩
  · intro es' s' hwork
    have hle := length_le_of_decreases potential hkeep hdecrease hlive hwork
    omega
  · intro es' s' hwork hrest
    exact complete_of_rest (hwork.keeps _ hkeep hlive) hrest

theorem Inv.exists_connect (h : Inv D s) (hc : s.clients[c]? = some client)
    (hidle : client.stage = .idle) (x : Call) : ∃ s', s.step D (.connect c x) = ok s' := by
  obtain ⟨reqMsg, b, outLen, hencode, -⟩ :=
    encodeRequest_requests (D := D) (h.ids hc).toIdsTerminated x []
  simp only [Service.step, Service.connect, getClient_eq_ok.mpr hc, hidle, hencode, ok_bind]
  exact ⟨_, rfl⟩

/-- One of two clients has connected. -/
theorem answered_twoClients : ∃ s,
    run (step twoClients) [.connect 0 ⟨Session.oneTwo.clientMemory, id, .bytewise, .bytewise⟩]
      (init twoClients) = ok s ∧
    (∀ es' s', WorksTo (step twoClients) (Works twoClients) es' s s' → es'.length ≤ s.potential) ∧
      (∃ es' s', WorksTo (step twoClients) (Works twoClients) es' s s' ∧
        AtRest (step twoClients) (Works twoClients) s') ∧
      ∀ es' s', WorksTo (step twoClients) (Works twoClients) es' s s' →
        AtRest (step twoClients) (Works twoClients) s' → s'.Complete := by
  let x : Call := ⟨Session.oneTwo.clientMemory, id, .bytewise, .bytewise⟩
  obtain ⟨s, hconnect⟩ := inv_init.exists_connect (D := twoClients) (c := 0) rfl rfl x
  have hrun : run (step twoClients) [.connect 0 x] (init twoClients) = ok s := by
    rw [run, hconnect]
    rfl
  have hes : EachStep (step twoClients) (Undisturbed twoClients) [.connect 0 x] (init twoClients) :=
    ⟨⟨by simp, by simp⟩, fun _ _ => trivial⟩
  exact ⟨s, hrun, answered hes hrun⟩

end Service

end SafeTransmission
