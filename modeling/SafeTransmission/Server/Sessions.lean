import SafeTransmission.Library.Runs
import SafeTransmission.Library.Threads

/-!
# `ServerOperation`: the table of sessions

The thread that accepts connections creates a worker for each of them and then puts
the socket into `m_listSocket`, under the thread id of the worker.  The worker looks
its socket up there, serves the client, removes the entry and deletes the socket.

The worker may run before the entry is there.  `operator[]` then inserts a `NULL`
for it, which the later `insert` does not replace.  The worker sleeps for a
microsecond to leave time for the entry; nothing makes it wait for it.  Every session
gets its own socket exactly when no worker looks it up too early (`served_iff`).

Sockets and workers are numbered in the order in which they come up.  The operations
of the map are atomic.  The kernel gives a new thread any id that no thread has that
still runs.

## Strategy

* `Inv` says for each worker where its entry and its socket are (`Fits`).  An entry belongs to the
  worker that has its id and still runs, and there is one at most, so what a worker does to its own
  entry does not touch the others (`Fits.of_others`).
* `Inv.move` is the common part of all steps of a worker: it goes on, and its entry and its socket
  change as its new phase says.
* A worker that comes too early finds `NULL` and serves nobody (`Inv.not_served`).  So the condition
  is exact.
-/

namespace SafeTransmission

open Outcome

/-- What a worker does next. -/
inductive WorkerPhase where
  /-- It looks up its thread id. -/
  | created
  /-- It talks to the client through the pointer that it found. -/
  | obtained (socket : Option ℕ)
  /-- It searches its entry. -/
  | served (socket : ℕ)
  /-- It erases what it found, if it found an entry. -/
  | located (socket : ℕ) (found : Bool)
  /-- It deletes its socket. -/
  | erased (socket : ℕ)
  /-- It exits. -/
  | deleted
  | exited
deriving DecidableEq, Repr

/-- A run of `working`. -/
structure Worker where
  tid : ℕ
  /-- The socket for which the worker was created, which the worker itself does not know. -/
  own : ℕ
  phase : WorkerPhase
deriving DecidableEq, Repr

/-- What `startWork` does next. -/
inductive Acceptor where
  | accepting
  /-- It creates a worker for the socket. -/
  | accepted (socket : ℕ)
  /-- It inserts the socket under the id of the worker. -/
  | created (tid socket : ℕ)
deriving DecidableEq, Repr

/-- A server with its threads. -/
structure Sessions where
  acceptor : Acceptor
  /-- `m_listSocket`: there may be no entry, `NULL` or a socket. -/
  listSocket : ℕ → Option (Option ℕ)
  workers : List Worker
  /-- The number of sockets so far. -/
  accepted : ℕ
  deleted : List ℕ
  /-- Which worker talked to the client of which socket. -/
  served : List (ℕ × ℕ)

namespace Sessions

/-- The server before the first connection. -/
def init : Sessions :=
  ⟨.accepting, fun _ => none, [], 0, [], []⟩

/-- A step of the acceptor, or of the worker with a number. -/
inductive Event where
  | accept
  | create (tid : ℕ)
  | insert
  | lookup (w : ℕ)
  | serve (w : ℕ)
  | find (w : ℕ)
  | erase (w : ℕ)
  | delete (w : ℕ)
  | exit (w : ℕ)
deriving DecidableEq, Repr

/-! ## The steps -/

/-- The worker goes on. -/
def setPhase (s : Sessions) (w : ℕ) (worker : Worker) (phase : WorkerPhase) : Sessions :=
  { s with workers := s.workers.set w { worker with phase := phase } }

/-- Take the worker with number `w`. -/
def getWorker (s : Sessions) (w : ℕ) : Outcome Worker :=
  match s.workers[w]? with
  | none => disabled
  | some worker => ok worker

/-- `acceptConn`. -/
def accept (s : Sessions) : Outcome Sessions := do
  require (s.acceptor = .accepting)
  ok { s with acceptor := .accepted s.accepted, accepted := s.accepted + 1 }

/-- `pthread_create` and `pthread_detach`. -/
def create (s : Sessions) (tid : ℕ) : Outcome Sessions :=
  match s.acceptor with
  | .accepted socket => do
      require (∀ worker ∈ s.workers, worker.tid = tid → worker.phase = .exited)
      ok { s with acceptor := .created tid socket, workers := s.workers ++ [⟨tid, socket, .created⟩] }
  | _ => disabled

/-- `m_listSocket.insert`, which leaves an entry that is there. -/
def insert (s : Sessions) : Outcome Sessions :=
  match s.acceptor with
  | .created tid socket =>
      match s.listSocket tid with
      | none => ok { s with
          acceptor := .accepting, listSocket := Function.update s.listSocket tid (some (some socket)) }
      | some _ => ok { s with acceptor := .accepting }
  | _ => disabled

/-- `m_listSocket[threadID]`, which makes an entry if there is none. -/
def lookup (s : Sessions) (w : ℕ) : Outcome Sessions := do
  let worker ← s.getWorker w
  require (worker.phase = .created)
  match s.listSocket worker.tid with
  | some socket => ok (s.setPhase w worker (.obtained socket))
  | none => ok { s.setPhase w worker (.obtained none) with
      listSocket := Function.update s.listSocket worker.tid (some none) }

/-- `recvMsg`, the answer, `sendMsg` and `disConnect`. -/
def serve (s : Sessions) (w : ℕ) : Outcome Sessions := do
  let worker ← s.getWorker w
  match worker.phase with
  | .obtained none => fault .nullDeref
  | .obtained (some socket) =>
      if socket ∈ s.deleted then fault .useAfterFree
      else ok { s.setPhase w worker (.served socket) with served := s.served ++ [(w, socket)] }
  | _ => disabled

/-- `m_listSocket.find`. -/
def find (s : Sessions) (w : ℕ) : Outcome Sessions := do
  let worker ← s.getWorker w
  match worker.phase with
  | .served socket => ok (s.setPhase w worker (.located socket (s.listSocket worker.tid).isSome))
  | _ => disabled

/-- `m_listSocket.erase`, which needs an entry. -/
def erase (s : Sessions) (w : ℕ) : Outcome Sessions := do
  let worker ← s.getWorker w
  match worker.phase with
  | .located socket true => ok { s.setPhase w worker (.erased socket) with
      listSocket := Function.update s.listSocket worker.tid none }
  | .located _ false => fault .readOutOfBounds
  | _ => disabled

/-- `delete socket`. -/
def delete (s : Sessions) (w : ℕ) : Outcome Sessions := do
  let worker ← s.getWorker w
  match worker.phase with
  | .erased socket =>
      if socket ∈ s.deleted then fault .doubleFree
      else ok { s.setPhase w worker .deleted with deleted := s.deleted ++ [socket] }
  | _ => disabled

/-- The thread ends, and its id can be used again. -/
def exit (s : Sessions) (w : ℕ) : Outcome Sessions := do
  let worker ← s.getWorker w
  require (worker.phase = .deleted)
  ok (s.setPhase w worker .exited)

def step (s : Sessions) : Event → Outcome Sessions
  | .accept => s.accept
  | .create tid => s.create tid
  | .insert => s.insert
  | .lookup w => s.lookup w
  | .serve w => s.serve w
  | .find w => s.find w
  | .erase w => s.erase w
  | .delete w => s.delete w
  | .exit w => s.exit w

theorem exists_create {s : Sessions} {socket : ℕ} (h : s.acceptor = .accepted socket) :
    ∃ tid s', s.step (.create tid) = ok s' := by
  -- no thread has an id that is larger than all that there are
  let tid := (s.workers.map Worker.tid).sum + 1
  have hfree : ∀ worker ∈ s.workers, worker.tid = tid → worker.phase = .exited := by
    intro worker hworker htid
    have hle := List.le_sum_of_mem (List.mem_map_of_mem (f := Worker.tid) hworker)
    omega
  refine ⟨tid, ?_⟩
  rw [step, create, h]
  dsimp only
  rw [require_bind_of hfree]
  exact ⟨_, rfl⟩

theorem exists_insert {s : Sessions} {tid socket : ℕ} (h : s.acceptor = .created tid socket) :
    ∃ s', s.step .insert = ok s' := by
  rw [step, insert, h]
  dsimp only
  split
  · exact ⟨_, rfl⟩
  · exact ⟨_, rfl⟩

/-! ## What is to hold -/

end Sessions

namespace WorkerPhase

/-- The pointer that the worker found. -/
def socket : WorkerPhase → Option (Option ℕ)
  | .obtained socket => some socket
  | .served socket | .located socket _ | .erased socket => some (some socket)
  | _ => none

/-- The worker has talked to its client. -/
def isServed : WorkerPhase → Bool
  | .created | .obtained _ => false
  | _ => true

end WorkerPhase

namespace Sessions

/-- Every worker has its own socket, and no socket has two workers. -/
structure Separate (s : Sessions) : Prop where
  /-- There is a worker for each socket, except for one that was just accepted. -/
  own : s.workers.map Worker.own = List.range s.workers.length
  all : s.workers.length + (if s.acceptor = .accepted s.workers.length then 1 else 0) = s.accepted
  obtained : ∀ (w : ℕ) (worker : Worker), s.workers[w]? = some worker →
    ∀ socket, worker.phase.socket = some socket → socket = some worker.own
  /-- A session is served by the worker of its socket, once. -/
  served : ∀ w socket, (w, socket) ∈ s.served ↔
    ∃ worker, s.workers[w]? = some worker ∧ worker.own = socket ∧ worker.phase.isServed
  once : (s.served.map Prod.snd).Nodup

/-- The step is defined, and keeps the sessions apart. -/
def Served (s : Sessions) (e : Event) : Prop :=
  (∀ kind, s.step e ≠ fault kind) ∧ ∀ s', s.step e = ok s' → s'.Separate

/-- No worker looks up its thread id before the acceptor has inserted it. -/
def Inserted (s : Sessions) (e : Event) : Prop :=
  ∀ w worker, e = .lookup w → s.workers[w]? = some worker →
    s.acceptor ≠ .created worker.tid worker.own

end Sessions

/-! ## The invariant -/

namespace WorkerPhase

/-- The entry of the worker is to be in the table. -/
def hasEntry : WorkerPhase → Bool
  | .created | .obtained _ | .served _ | .located _ _ => true
  | _ => false

def isDeleted : WorkerPhase → Bool
  | .deleted | .exited => true
  | _ => false

end WorkerPhase

namespace Sessions

variable {s s' : Sessions} {w : ℕ} {worker : Worker}

/-- The worker with number `w`, between the table and the heap. -/
structure Fits (s : Sessions) (w : ℕ) (worker : Worker) : Prop where
  own : worker.own = w
  socket : ∀ socket, worker.phase.socket = some socket → socket = some w
  found : ∀ socket found, worker.phase = .located socket found → found = true
  entry : worker.phase ≠ .exited → s.listSocket worker.tid =
    if worker.phase.hasEntry ∧ s.acceptor ≠ .created worker.tid w then some (some w) else none
  deleted : w ∈ s.deleted ↔ worker.phase.isDeleted
  served : ∀ v, (v, w) ∈ s.served ↔ v = w ∧ worker.phase.isServed

structure Inv (s : Sessions) : Prop where
  acceptor : match s.acceptor with
    | .accepting => s.accepted = s.workers.length
    | .accepted socket => socket = s.workers.length ∧ s.accepted = s.workers.length + 1
    | .created tid socket => s.accepted = s.workers.length ∧
        s.workers[socket]? = some ⟨tid, socket, .created⟩
  fits : ∀ w worker, s.workers[w]? = some worker → s.Fits w worker
  tids : ∀ (v w : ℕ) (first second : Worker), s.workers[v]? = some first → s.workers[w]? = some second →
    first.phase ≠ .exited → second.phase ≠ .exited → first.tid = second.tid → v = w
  /-- An id without a thread has no entry. -/
  vacant : ∀ tid, (∀ worker ∈ s.workers, worker.tid = tid → worker.phase = .exited) →
    s.listSocket tid = none
  deleted_lt : ∀ socket ∈ s.deleted, socket < s.workers.length
  served_lt : ∀ session ∈ s.served, session.2 < s.workers.length
  nodup : s.served.Nodup

theorem Inv.separate (h : s.Inv) : s.Separate where
  own := by
    apply List.ext_getElem (by simp)
    intro w hw hw'
    rw [List.getElem_map, List.getElem_range]
    exact (h.fits w _ (List.getElem?_eq_getElem (by simpa using hw))).own
  all := by
    have hacceptor := h.acceptor
    cases hphase : s.acceptor with
    | accepting =>
        rw [hphase] at hacceptor
        simp [hacceptor]
    | accepted socket =>
        rw [hphase] at hacceptor
        simp [hacceptor]
    | created tid socket =>
        rw [hphase] at hacceptor
        simp [hacceptor.1]
  obtained := by
    intro w worker hw socket hsocket
    rw [(h.fits w worker hw).own]
    exact (h.fits w worker hw).socket socket hsocket
  served := by
    intro w socket
    constructor
    · intro hmem
      have hlt := h.served_lt _ hmem
      have hfits := h.fits socket _ (List.getElem?_eq_getElem hlt)
      obtain ⟨rfl, hserved⟩ := (hfits.served w).mp hmem
      exact ⟨_, List.getElem?_eq_getElem hlt, hfits.own, hserved⟩
    · rintro ⟨worker, hw, rfl, hserved⟩
      have hfits := h.fits w worker hw
      rw [hfits.own]
      exact (hfits.served w).mpr ⟨rfl, hserved⟩
  once := by
    apply List.Nodup.map_on _ h.nodup
    rintro ⟨v, socket⟩ hv ⟨w, socket'⟩ hw hsame
    obtain rfl : socket = socket' := hsame
    -- both are the worker of the socket
    have hfits := h.fits socket _ (List.getElem?_eq_getElem (h.served_lt _ hv))
    rw [((hfits.served v).mp hv).1, ((hfits.served w).mp hw).1]

theorem inv_init : init.Inv where
  acceptor := rfl
  fits := by simp [init]
  tids := by simp [init]
  vacant := fun _ _ => rfl
  deleted_lt := by simp [init]
  served_lt := by simp [init]
  nodup := List.nodup_nil

/-- What a worker does to its own entry does not touch the other workers. -/
theorem Fits.of_others {v : ℕ} {other : Worker} (h : s.Fits v other)
    (hacceptor : s'.acceptor = s.acceptor)
    (hentry : other.phase ≠ .exited → s'.listSocket other.tid = s.listSocket other.tid)
    (hdeleted : v ∈ s'.deleted ↔ v ∈ s.deleted)
    (hserved : ∀ u, (u, v) ∈ s'.served ↔ (u, v) ∈ s.served) : s'.Fits v other where
  own := h.own
  socket := h.socket
  found := h.found
  entry halive := by rw [hentry halive, hacceptor, h.entry halive]
  deleted := hdeleted.trans h.deleted
  served u := (hserved u).trans (h.served u)

theorem alive_of_set {workers : List Worker} (hw : workers[w]? = some worker)
    (halive : worker.phase ≠ .exited) {phase : WorkerPhase} {v : ℕ} {other : Worker}
    (hv : (workers.set w { worker with phase := phase })[v]? = some other)
    (hother : other.phase ≠ .exited) :
    ∃ old : Worker, workers[v]? = some old ∧ old.phase ≠ .exited ∧ old.tid = other.tid := by
  rw [getElem?_set_of_some hw] at hv
  split at hv
  · rename_i hsame
    cases hv
    exact ⟨worker, hsame ▸ hw, halive, rfl⟩
  · exact ⟨other, hv, hother, rfl⟩

/-- A worker with another id is not the one that took the step. -/
theorem mem_set_of_tid_ne {workers : List Worker} (hw : workers[w]? = some worker) {b other : Worker}
    (htid : other.tid ≠ worker.tid) (hother : other ∈ workers) : other ∈ workers.set w b := by
  obtain ⟨v, hv⟩ := List.getElem?_of_mem hother
  have hne : v ≠ w := by
    rintro rfl
    cases hw.symm.trans hv
    exact htid rfl
  refine List.mem_of_getElem? (i := v) ?_
  rw [getElem?_set_of_some hw, if_neg hne]
  exact hv

theorem Inv.move (h : s.Inv) (hw : s.workers[w]? = some worker) {phase : WorkerPhase}
    (halive : worker.phase ≠ .exited) (hinserted : s.acceptor ≠ .created worker.tid w)
    (hacceptor : s'.acceptor = s.acceptor) (haccepted : s'.accepted = s.accepted)
    (hworkers : s'.workers = s.workers.set w { worker with phase := phase })
    (hentries : ∀ tid, tid ≠ worker.tid → s'.listSocket tid = s.listSocket tid)
    (hdeleted : ∀ v, v ≠ w → (v ∈ s'.deleted ↔ v ∈ s.deleted))
    (hserved : ∀ u v, v ≠ w → ((u, v) ∈ s'.served ↔ (u, v) ∈ s.served))
    (hnodup : s'.served.Nodup) (hfits : s'.Fits w { worker with phase := phase })
    (hvacant : phase = .exited → s'.listSocket worker.tid = none) : s'.Inv := by
  have hlen : s'.workers.length = s.workers.length := by rw [hworkers, List.length_set]
  have hlt : w < s.workers.length := (List.getElem?_eq_some_iff.mp hw).1
  -- in turn: the acceptor, the workers, their ids, vacant ids, and the numbers in use
  refine ⟨?_, ?_, ?_, ?_, ?_, ?_, hnodup⟩
  · have hold := h.acceptor
    rw [hacceptor, haccepted, hlen]
    cases hphase : s.acceptor with
    | accepting =>
        rw [hphase] at hold
        exact hold
    | accepted socket =>
        rw [hphase] at hold
        exact hold
    | created tid socket =>
        rw [hphase] at hold
        refine ⟨hold.1, ?_⟩
        have hne : socket ≠ w := by
          rintro rfl
          cases hold.2.symm.trans hw
          exact hinserted hphase
        rw [hworkers, getElem?_set_of_some hw, if_neg hne]
        exact hold.2
  · rw [hworkers]
    apply forall_getElem?_set hw hfits
    intro v other hne hv
    -- another worker that still runs has another id
    apply (h.fits v other hv).of_others hacceptor _ (hdeleted v hne) (fun u => hserved u v hne)
    intro hother
    apply hentries
    intro htid
    exact hne (h.tids v w other worker hv hw hother halive htid)
  · rw [hworkers]
    intro v₁ v₂ first second hfirst hsecond halive₁ halive₂ htid
    obtain ⟨old₁, hv₁, hold₁, htid₁⟩ := alive_of_set hw halive hfirst halive₁
    obtain ⟨old₂, hv₂, hold₂, htid₂⟩ := alive_of_set hw halive hsecond halive₂
    exact h.tids v₁ v₂ old₁ old₂ hv₁ hv₂ hold₁ hold₂ (htid₁.trans (htid.trans htid₂.symm))
  · intro tid hgone
    rw [hworkers] at hgone
    by_cases htid : tid = worker.tid
    · subst htid
      exact hvacant (hgone _ (List.mem_set hlt _) rfl)
    · rw [hentries tid htid]
      apply h.vacant
      intro other hother hsame
      exact hgone other (mem_set_of_tid_ne hw (hsame ▸ htid) hother) hsame
  · intro socket hsocket
    rw [hlen]
    by_cases hsame : socket = w
    · exact hsame ▸ hlt
    · exact h.deleted_lt socket ((hdeleted socket hsame).mp hsocket)
  · rintro ⟨u, socket⟩ hsession
    rw [hlen]
    by_cases hsame : socket = w
    · exact hsame ▸ hlt
    · exact h.served_lt _ ((hserved u socket hsame).mp hsession)

/-! ## One step -/

/-- The call is defined, and keeps the invariant. -/
def Kept (x : Outcome Sessions) : Prop :=
  (∀ kind, x ≠ fault kind) ∧ ∀ s', x = ok s' → s'.Inv

theorem kept_disabled : Kept disabled :=
  ⟨by simp, by simp⟩

theorem kept_ok (h : s.Inv) : Kept (ok s) :=
  ⟨by simp, by rintro s' ⟨⟩; exact h⟩

theorem kept_require {p : Prop} [Decidable p] {next : Unit → Outcome Sessions}
    (h : p → Kept (next ())) : Kept (require p >>= next) := by
  by_cases hp : p
  · rw [require_bind_of hp]
    exact h hp
  · rw [require, if_neg hp]
    exact kept_disabled

theorem kept_getWorker {next : Worker → Outcome Sessions}
    (h : ∀ worker, s.workers[w]? = some worker → Kept (next worker)) :
    Kept (s.getWorker w >>= next) := by
  unfold getWorker
  cases hw : s.workers[w]? with
  | none => exact kept_disabled
  | some worker => exact h worker hw

theorem Inv.inserted (h : s.Inv) (hw : s.workers[w]? = some worker) (hphase : worker.phase ≠ .created) :
    s.acceptor ≠ .created worker.tid w := by
  intro hcreated
  have hacceptor := h.acceptor
  rw [hcreated] at hacceptor
  have hnew : worker = ⟨worker.tid, w, .created⟩ := Option.some.inj (hw.symm.trans hacceptor.2)
  exact hphase (congrArg Worker.phase hnew)

theorem Inv.accept (h : s.Inv) : Kept s.accept := by
  refine kept_require fun hphase => kept_ok ?_
  have hacceptor := h.acceptor
  rw [hphase] at hacceptor
  refine { h with acceptor := ⟨hacceptor, congrArg (· + 1) hacceptor⟩, fits := ?_ }
  intro w worker hw
  have hfits := h.fits w worker hw
  refine { hfits with entry := fun halive => ?_ }
  have hentry := hfits.entry halive
  rw [hphase] at hentry
  simpa using hentry

theorem Inv.create (h : s.Inv) (tid : ℕ) : Kept (s.create tid) := by
  unfold Sessions.create
  cases hphase : s.acceptor with
  | accepting => exact kept_disabled
  | created tid socket => exact kept_disabled
  | accepted socket =>
      refine kept_require fun hfree => kept_ok ?_
      have hacceptor := h.acceptor
      rw [hphase] at hacceptor
      obtain ⟨rfl, haccepted⟩ := hacceptor
      have hvacant : s.listSocket tid = none := h.vacant tid hfree
      refine ⟨⟨?_, ?_⟩, ?_, ?_, ?_, ?_, ?_, h.nodup⟩
      · simpa using haccepted
      · simp
      · apply forall_getElem?_concat
        · -- the workers of before
          intro w worker hw
          have hfits := h.fits w worker hw
          have hlt : w < s.workers.length := (List.getElem?_eq_some_iff.mp hw).1
          refine { hfits with entry := fun halive => ?_ }
          have hentry := hfits.entry halive
          rw [hphase] at hentry
          have hne : s.workers.length ≠ w := hlt.ne'
          simpa [hne] using hentry
        · -- the new worker, whose entry is still to come
          refine ⟨rfl, by simp [WorkerPhase.socket], by simp, fun _ => ?_, ?_, ?_⟩
          · simpa using hvacant
          · have hnot : s.workers.length ∉ s.deleted := fun hmem => (h.deleted_lt _ hmem).false
            simpa [WorkerPhase.isDeleted] using hnot
          · intro v
            have hnot : (v, s.workers.length) ∉ s.served := fun hmem => (h.served_lt _ hmem).false
            simpa [WorkerPhase.isServed] using hnot
      · intro v w first second hfirst hsecond hlive₁ hlive₂ htid
        rcases getElem?_concat hfirst with hv | ⟨rfl, rfl⟩ <;>
          rcases getElem?_concat hsecond with hw | ⟨rfl, rfl⟩
        · exact h.tids v w first second hv hw hlive₁ hlive₂ htid
        · exact absurd (hfree first (List.mem_of_getElem? hv) htid) hlive₁
        · exact absurd (hfree second (List.mem_of_getElem? hw) htid.symm) hlive₂
        · rfl
      · intro other hgone
        apply h.vacant
        intro worker hworker
        exact hgone worker (List.mem_append_left _ hworker)
      · intro socket hsocket
        rw [List.length_append]
        exact Nat.lt_add_right 1 (h.deleted_lt socket hsocket)
      · intro session hsession
        rw [List.length_append]
        exact Nat.lt_add_right 1 (h.served_lt session hsession)

theorem Inv.insert (h : s.Inv) : Kept s.insert := by
  unfold Sessions.insert
  cases hphase : s.acceptor with
  | accepting => exact kept_disabled
  | accepted socket => exact kept_disabled
  | created tid socket =>
      have hacceptor := h.acceptor
      rw [hphase] at hacceptor
      obtain ⟨haccepted, hnew⟩ := hacceptor
      have hnone : s.listSocket tid = none := by
        have hentry := (h.fits socket _ hnew).entry (by simp)
        simpa [hphase] using hentry
      simp only [hnone]
      refine kept_ok { h with acceptor := haccepted, fits := ?_, vacant := ?_ }
      · intro w worker hw
        have hfits := h.fits w worker hw
        refine { hfits with entry := fun halive => ?_ }
        by_cases hsame : w = socket
        · subst hsame
          cases hw.symm.trans hnew
          simp [WorkerPhase.hasEntry]
        · have htid : worker.tid ≠ tid := by
            intro htid
            exact hsame (h.tids w socket worker _ hw hnew halive (by simp) htid)
          have hentry := hfits.entry halive
          rw [hphase] at hentry
          have hne : socket ≠ w := Ne.symm hsame
          simpa [Function.update_of_ne htid, hne] using hentry
      · intro other hgone
        have hne : other ≠ tid := by
          rintro rfl
          simpa using hgone _ (List.mem_of_getElem? hnew) rfl
        simpa [Function.update_of_ne hne] using h.vacant other hgone

/-- The worker with an inserted entry finds its own socket there. -/
theorem Inv.entry (h : s.Inv) (hw : s.workers[w]? = some worker) (hentry : worker.phase.hasEntry)
    (hinserted : s.acceptor ≠ .created worker.tid w) : s.listSocket worker.tid = some (some w) := by
  have halive : worker.phase ≠ .exited := by
    intro hphase
    rw [hphase] at hentry
    cases hentry
  rw [(h.fits w worker hw).entry halive, if_pos ⟨hentry, hinserted⟩]

theorem Inv.lookup (h : s.Inv) (hcondition : s.Inserted (.lookup w)) : Kept (s.lookup w) := by
  refine kept_getWorker fun worker hw => kept_require fun hphase => ?_
  have hfits := h.fits w worker hw
  have hinserted : s.acceptor ≠ .created worker.tid w := by
    have hnot := hcondition w worker rfl hw
    rwa [hfits.own] at hnot
  have hentry := h.entry hw (by rw [hphase]; rfl) hinserted
  simp only [hentry]
  refine kept_ok (h.move hw (by rw [hphase]; simp) hinserted rfl rfl rfl (fun _ _ => rfl)
    (fun _ _ => Iff.rfl) (fun _ _ _ => Iff.rfl) h.nodup ?_ (by simp))
  refine ⟨hfits.own, ?_, by simp, fun _ => ?_, ?_, fun v => ?_⟩
  · rintro socket ⟨⟩
    rfl
  · exact hentry.trans (if_pos ⟨rfl, hinserted⟩).symm
  · exact hfits.deleted.trans (by rw [hphase]; rfl)
  · exact (hfits.served v).trans (by rw [hphase]; rfl)

theorem Inv.serve (h : s.Inv) : Kept (s.serve w) := by
  refine kept_getWorker fun worker hw => ?_
  have hfits := h.fits w worker hw
  cases hphase : worker.phase with
  | obtained socket =>
      have halive : worker.phase ≠ .exited := by simp [hphase]
      have hinserted := h.inserted hw (by simp [hphase])
      have hentry := h.entry hw (by rw [hphase]; rfl) hinserted
      obtain rfl := hfits.socket socket (by rw [hphase]; rfl)
      have hheap : w ∉ s.deleted := fun hmem => by
        simpa [hphase, WorkerPhase.isDeleted] using hfits.deleted.mp hmem
      have hnew : (w, w) ∉ s.served := fun hmem => by
        simpa [hphase, WorkerPhase.isServed] using (hfits.served w).mp hmem
      simp only [if_neg hheap]
      refine kept_ok (h.move hw halive hinserted rfl rfl rfl (fun _ _ => rfl) (fun _ _ => Iff.rfl)
        (fun u v hne => by simp [hne]) ?_ ?_ (by simp))
      · rw [List.nodup_append]
        simpa using ⟨h.nodup, fun a b hab => by rintro rfl rfl; exact hnew hab⟩
      · refine ⟨hfits.own, ?_, by simp, fun _ => ?_, ?_, fun v => ?_⟩
        · rintro socket ⟨⟩
          rfl
        · exact hentry.trans (if_pos ⟨rfl, hinserted⟩).symm
        · exact hfits.deleted.trans (by rw [hphase]; rfl)
        · have hold : (v, w) ∉ s.served := fun hmem => by
            simpa [hphase, WorkerPhase.isServed] using (hfits.served v).mp hmem
          simp [hold, WorkerPhase.isServed]
  | _ => exact kept_disabled

theorem Inv.find (h : s.Inv) : Kept (s.find w) := by
  refine kept_getWorker fun worker hw => ?_
  have hfits := h.fits w worker hw
  cases hphase : worker.phase with
  | served socket =>
      have hinserted := h.inserted hw (by simp [hphase])
      have hentry := h.entry hw (by rw [hphase]; rfl) hinserted
      refine kept_ok (h.move hw (by simp [hphase]) hinserted rfl rfl rfl (fun _ _ => rfl)
        (fun _ _ => Iff.rfl) (fun _ _ _ => Iff.rfl) h.nodup ?_ (by simp))
      refine ⟨hfits.own, ?_, ?_, fun _ => ?_, ?_, fun v => ?_⟩
      · exact fun found hfound => hfits.socket found (by rw [hphase]; exact hfound)
      · rintro _ _ ⟨⟩
        rw [hentry]
        rfl
      · exact hentry.trans (if_pos ⟨rfl, hinserted⟩).symm
      · exact hfits.deleted.trans (by rw [hphase]; rfl)
      · exact (hfits.served v).trans (by rw [hphase]; rfl)
  | _ => exact kept_disabled

theorem Inv.erase (h : s.Inv) : Kept (s.erase w) := by
  refine kept_getWorker fun worker hw => ?_
  have hfits := h.fits w worker hw
  cases hphase : worker.phase with
  | located socket found =>
      obtain rfl := hfits.found socket found hphase
      have hinserted := h.inserted hw (by simp [hphase])
      refine kept_ok (h.move hw (by simp [hphase]) hinserted rfl rfl rfl
        (fun tid hne => Function.update_of_ne hne _ _) (fun _ _ => Iff.rfl) (fun _ _ _ => Iff.rfl)
        h.nodup ?_ (by simp))
      refine ⟨hfits.own, ?_, by simp, fun _ => ?_, ?_, fun v => ?_⟩
      · exact fun found hfound => hfits.socket found (by rw [hphase]; exact hfound)
      · simp [WorkerPhase.hasEntry]
      · exact hfits.deleted.trans (by rw [hphase]; rfl)
      · exact (hfits.served v).trans (by rw [hphase]; rfl)
  | _ => exact kept_disabled

theorem Inv.delete (h : s.Inv) : Kept (s.delete w) := by
  refine kept_getWorker fun worker hw => ?_
  have hfits := h.fits w worker hw
  cases hphase : worker.phase with
  | erased socket =>
      have hinserted := h.inserted hw (by simp [hphase])
      obtain rfl : socket = w := Option.some.inj (hfits.socket (some socket) (by rw [hphase]; rfl))
      have hheap : socket ∉ s.deleted := fun hmem => by
        simpa [hphase, WorkerPhase.isDeleted] using hfits.deleted.mp hmem
      have hnone : s.listSocket worker.tid = none := by
        rw [hfits.entry (by simp [hphase]), hphase]
        rfl
      simp only [if_neg hheap]
      refine kept_ok (h.move hw (by simp [hphase]) hinserted rfl rfl rfl (fun _ _ => rfl)
        (fun v hne => by simp [hne]) (fun _ _ _ => Iff.rfl) h.nodup ?_ (by simp))
      refine ⟨hfits.own, by simp [WorkerPhase.socket], by simp, fun _ => ?_, ?_, fun v => ?_⟩
      · exact hnone
      · simp [WorkerPhase.isDeleted]
      · exact (hfits.served v).trans (by rw [hphase]; rfl)
  | _ => exact kept_disabled

theorem Inv.exit (h : s.Inv) : Kept (s.exit w) := by
  refine kept_getWorker fun worker hw => kept_require fun hphase => ?_
  have hfits := h.fits w worker hw
  have hinserted := h.inserted hw (by simp [hphase])
  have hnone : s.listSocket worker.tid = none := by
    rw [hfits.entry (by simp [hphase]), hphase]
    rfl
  refine kept_ok (h.move hw (by simp [hphase]) hinserted rfl rfl rfl (fun _ _ => rfl)
    (fun _ _ => Iff.rfl) (fun _ _ _ => Iff.rfl) h.nodup ?_ fun _ => hnone)
  refine ⟨hfits.own, by simp [WorkerPhase.socket], by simp, by simp, ?_, fun v => ?_⟩
  · exact hfits.deleted.trans (by rw [hphase]; rfl)
  · exact (hfits.served v).trans (by rw [hphase]; rfl)

theorem Inv.step (h : s.Inv) {e : Event} (hcondition : s.Inserted e) : Kept (s.step e) := by
  cases e with
  | accept => exact h.accept
  | create tid => exact h.create tid
  | insert => exact h.insert
  | lookup w => exact h.lookup hcondition
  | serve w => exact h.serve
  | find w => exact h.find
  | erase w => exact h.erase
  | delete w => exact h.delete
  | exit w => exact h.exit

/-! ## Runs -/

/-- A worker that comes too early finds `NULL`. -/
theorem Inv.not_served (h : s.Inv) (hw : s.workers[w]? = some worker)
    (hcreated : s.acceptor = .created worker.tid worker.own) : ¬s.Served (.lookup w) := by
  have hfits := h.fits w worker hw
  have hacceptor := h.acceptor
  rw [hcreated, hfits.own] at hacceptor
  have hnew : worker = ⟨worker.tid, w, .created⟩ := Option.some.inj (hw.symm.trans hacceptor.2)
  have hphase : worker.phase = .created := congrArg Worker.phase hnew
  have hnone : s.listSocket worker.tid = none := by
    rw [hfits.entry (by simp [hphase]), hcreated, hfits.own]
    simp
  intro hserved
  have hlookup : s.step (.lookup w) = ok { s.setPhase w worker (.obtained none) with
      listSocket := Function.update s.listSocket worker.tid (some none) } := by
    rw [Sessions.step, Sessions.lookup, getWorker, hw]
    simp only [ok_bind, require_bind_of hphase, hnone]
  have hfound := (hserved.2 _ hlookup).obtained w { worker with phase := .obtained none }
    (by simp [setPhase, getElem?_set_of_some hw]) none rfl
  cases hfound

/-- In a run of any length, with the steps of the threads in any order, every session is
served with its own socket exactly if no worker comes before its entry. -/
theorem served_iff (es : List Event) : EachStep step Served es init ↔ EachStep step Inserted es init := by
  have hiff : ∀ s e, Inv s → True → (s.Served e ↔ s.Inserted e) := by
    intro s e h _
    constructor
    · rintro hserved w worker rfl hw hcreated
      exact h.not_served hw hcreated hserved
    · intro hcondition
      obtain ⟨hdefined, hkept⟩ := h.step hcondition
      exact ⟨hdefined, fun s' hs' => (hkept s' hs').separate⟩
  have hkeep : ∀ s e s', Inv s → True → s.Inserted e → s.step e = ok s' → Inv s' :=
    fun s e s' h _ hcondition hs' => (h.step hcondition).2 s' hs'
  exact eachStep_iff Inv hiff hkeep (fun _ _ => trivial) inv_init

/-- The worker runs before `startWork` goes on, and talks to a client through `NULL`. -/
theorem not_served_lookup_first :
    ¬EachStep step Served [.accept, .create 7, .lookup 0, .insert, .serve 0] init := by
  intro hserved
  have hlast := ((((hserved.2 _ rfl).2 _ rfl).2 _ rfl).2 _ rfl).1
  exact hlast.1 .nullDeref rfl

end Sessions

end SafeTransmission
