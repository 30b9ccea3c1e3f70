import SafeTransmission.Server.Sessions

/-!
# Stopping the server

`SIGUSR1` sets `m_stop`, which `startWork` tests before each connection.  Once it has left its loop,
`main` returns.  The workers are detached: nobody waits for them, and they end with the process.

Behind the signal the loop takes five steps at most, whatever the workers do and in whatever order,
and it is never blocked.  But connections are lost in some of these orders, unless all of them were
served before the signal and the loop was not in `acceptConn`, which a signal does not interrupt
(`stops_iff`).

As in `Sessions`, the operations of the map are atomic.

## Strategy

* `toEnd` counts the steps of the thread of `main` behind the signal.  Its own steps make it
  smaller, those of the workers leave it alone (`toEnd_of_step`), and one of its own can always be
  taken (`exists_mainStep`).
* If everybody was served and the loop does not accept, this stays so (`settled_of_step`).
* If somebody was not served, `main` may come to its end first (`exists_end`).  If the loop is in
  `acceptConn`, it may accept one more connection before it sees the flag
  (`not_losesNothing_of_waits`).
-/

namespace SafeTransmission

open Outcome

/-- Where the thread of `main` is. -/
inductive StartPhase where
  /-- It tests `m_stop`. -/
  | testing
  /-- It accepts a connection, from `acceptConn` to `insert`. -/
  | accepting
  /-- It has left the loop. -/
  | left
  /-- The process has ended. -/
  | ended
deriving DecidableEq, Repr

/-- A server that can be stopped. -/
structure Stopping where
  sessions : Sessions
  mStop : Bool
  main : StartPhase

/-- The steps of the thread that accepts. -/
def Sessions.Event.ofAcceptor : Sessions.Event → Bool
  | .accept | .create _ | .insert => true
  | _ => false

namespace Stopping

/-- `startWork` has begun. -/
def init : Stopping :=
  ⟨.init, false, .testing⟩

inductive Event where
  /-- `catchSignal`. -/
  | signal
  | test
  /-- `acceptConn` returns `NULL`. -/
  | timeout
  /-- `main` returns. -/
  | exit
  | session (e : Sessions.Event)
deriving DecidableEq, Repr

/-- The steps of the thread of `main`. -/
def Event.ofMain : Event → Bool
  | .signal => false
  | .test | .timeout | .exit => true
  | .session e => e.ofAcceptor

/-! ## The steps -/

def signal (s : Stopping) : Outcome Stopping := do
  require (s.main ≠ .ended)
  ok { s with mStop := true }

def test (s : Stopping) : Outcome Stopping := do
  require (s.main = .testing)
  ok { s with main := if s.mStop then .left else .accepting }

def timeout (s : Stopping) : Outcome Stopping := do
  require (s.main = .accepting ∧ s.sessions.acceptor = .accepting)
  ok { s with main := .testing }

def exit (s : Stopping) : Outcome Stopping := do
  require (s.main = .left)
  ok { s with main := .ended }

/-- A step of a thread on the sessions.  Behind `insert` the loop begins again. -/
def session (s : Stopping) (e : Sessions.Event) : Outcome Stopping := do
  require (s.main ≠ .ended ∧ (e.ofAcceptor = true → s.main = .accepting))
  let sessions ← s.sessions.step e
  ok { s with sessions, main := if e = .insert then .testing else s.main }

def step (s : Stopping) : Event → Outcome Stopping
  | .signal => s.signal
  | .test => s.test
  | .timeout => s.timeout
  | .exit => s.exit
  | .session e => s.session e

end Stopping

/-! ## What a step on the sessions does -/

namespace Sessions

variable {s s' : Sessions} {e : Event}

theorem acceptor_of_step (h : s.step e = ok s') :
    (e = .accept ∧ s.acceptor = .accepting ∧ s'.acceptor = .accepted s.accepted ∧
        s'.accepted = s.accepted + 1 ∧ s'.served = s.served) ∨
      (∃ tid socket, e = .create tid ∧ s.acceptor = .accepted socket ∧
        s'.acceptor = .created tid socket ∧ s'.accepted = s.accepted ∧ s'.served = s.served) ∨
      (∃ tid socket, e = .insert ∧ s.acceptor = .created tid socket ∧ s'.acceptor = .accepting ∧
        s'.accepted = s.accepted ∧ s'.served = s.served) ∨
      (e.ofAcceptor = false ∧ s'.acceptor = s.acceptor ∧ s'.accepted = s.accepted ∧
        ∀ session ∈ s.served, session ∈ s'.served) := by
  cases e with
  | accept =>
      obtain ⟨haccepting, hok⟩ := require_bind_eq_ok.mp h
      cases hok
      exact Or.inl ⟨rfl, haccepting, rfl, rfl, rfl⟩
  | create tid =>
      simp only [step, create] at h
      split at h
      · rename_i socket haccepted
        obtain ⟨-, hok⟩ := require_bind_eq_ok.mp h
        cases hok
        exact Or.inr (Or.inl ⟨tid, socket, rfl, haccepted, rfl, rfl, rfl⟩)
      · cases h
  | insert =>
      simp only [step, insert] at h
      split at h
      · rename_i tid socket hcreated
        split at h
        · cases h
          exact Or.inr (Or.inr (Or.inl ⟨tid, socket, rfl, hcreated, rfl, rfl, rfl⟩))
        · cases h
          exact Or.inr (Or.inr (Or.inl ⟨tid, socket, rfl, hcreated, rfl, rfl, rfl⟩))
      · cases h
  | lookup w =>
      -- from here on the steps are those of workers
      obtain ⟨worker, -, h⟩ := bind_eq_ok.mp h
      obtain ⟨-, h⟩ := require_bind_eq_ok.mp h
      split at h
      · cases h
        exact Or.inr (Or.inr (Or.inr ⟨rfl, rfl, rfl, fun session hserved => hserved⟩))
      · cases h
        exact Or.inr (Or.inr (Or.inr ⟨rfl, rfl, rfl, fun session hserved => hserved⟩))
  | serve w =>
      -- the only step that adds to what was served
      obtain ⟨worker, -, h⟩ := bind_eq_ok.mp h
      split at h
      · cases h
      · split at h
        · cases h
        · cases h
          exact Or.inr (Or.inr (Or.inr ⟨rfl, rfl, rfl,
            fun session hserved => List.mem_append_left _ hserved⟩))
      · cases h
  | find w =>
      obtain ⟨worker, -, h⟩ := bind_eq_ok.mp h
      split at h
      · cases h
        exact Or.inr (Or.inr (Or.inr ⟨rfl, rfl, rfl, fun session hserved => hserved⟩))
      · cases h
  | erase w =>
      obtain ⟨worker, -, h⟩ := bind_eq_ok.mp h
      split at h
      · cases h
        exact Or.inr (Or.inr (Or.inr ⟨rfl, rfl, rfl, fun session hserved => hserved⟩))
      · cases h
      · cases h
  | delete w =>
      obtain ⟨worker, -, h⟩ := bind_eq_ok.mp h
      split at h
      · split at h
        · cases h
        · cases h
          exact Or.inr (Or.inr (Or.inr ⟨rfl, rfl, rfl, fun session hserved => hserved⟩))
      · cases h
  | exit w =>
      obtain ⟨worker, -, h⟩ := bind_eq_ok.mp h
      obtain ⟨-, h⟩ := require_bind_eq_ok.mp h
      cases h
      exact Or.inr (Or.inr (Or.inr ⟨rfl, rfl, rfl, fun session hserved => hserved⟩))

theorem served_of_step (h : s.step e = ok s') (he : e.ofAcceptor = true) (hne : e ≠ .accept) :
    s'.accepted = s.accepted ∧ s'.served = s.served := by
  rcases acceptor_of_step h with ⟨haccept, -⟩ | ⟨tid, socket, -, -, -, hsame⟩ |
    ⟨tid, socket, -, -, -, hsame⟩ | ⟨hworker, -⟩
  · exact absurd haccept hne
  · exact hsame
  · exact hsame
  · rw [he] at hworker
    cases hworker

/-- Every socket that occurs somewhere was accepted. -/
structure Numbered (s : Sessions) : Prop where
  accepted : ∀ socket, s.acceptor = .accepted socket → socket < s.accepted
  created : ∀ tid socket, s.acceptor = .created tid socket → socket < s.accepted
  listed : ∀ tid socket, s.listSocket tid = some (some socket) → socket < s.accepted
  obtained : ∀ worker ∈ s.workers, ∀ socket, worker.phase.socket = some (some socket) →
    socket < s.accepted
  served : ∀ session ∈ s.served, session.2 < s.accepted

theorem numbered_init : init.Numbered :=
  ⟨nofun, nofun, nofun, by simp [init], by simp [init]⟩

theorem Numbered.setPhase (h : s.Numbered) (w : ℕ) (worker : Worker) (phase : WorkerPhase)
    (hphase : ∀ socket, phase.socket = some (some socket) → socket < s.accepted) :
    (s.setPhase w worker phase).Numbered :=
  { h with obtained := forall_mem_set h.obtained hphase w }

theorem Numbered.update (h : s.Numbered) (tid : ℕ) (entry : Option (Option ℕ))
    (hentry : ∀ socket, entry = some (some socket) → socket < s.accepted) :
    Numbered { s with listSocket := Function.update s.listSocket tid entry } := by
  refine { h with listed := fun tid' socket hlisted => ?_ }
  dsimp only at hlisted ⊢
  by_cases htid : tid' = tid
  · rw [htid, Function.update_self] at hlisted
    exact hentry socket hlisted
  · rw [Function.update_of_ne htid] at hlisted
    exact h.listed tid' socket hlisted

theorem mem_of_getWorker {w : ℕ} {worker : Worker} (h : s.getWorker w = ok worker) :
    worker ∈ s.workers := by
  unfold getWorker at h
  split at h
  · cases h
  · rename_i hw
    cases h
    exact List.mem_of_getElem? hw

theorem Numbered.step (h : s.Numbered) (hstep : s.step e = ok s') : s'.Numbered := by
  cases e with
  | accept =>
      -- one more socket is counted
      obtain ⟨-, hok⟩ := require_bind_eq_ok.mp hstep
      cases hok
      have hlt := Nat.lt_succ_self s.accepted
      refine ⟨?_, fun _ _ hcreated => (by cases hcreated),
        fun tid socket hlisted => (h.listed tid socket hlisted).trans hlt,
        fun worker hmem socket hsocket => (h.obtained worker hmem socket hsocket).trans hlt,
        fun session hmem => (h.served session hmem).trans hlt⟩
      intro socket hsocket
      cases hsocket
      exact hlt
  | create tid =>
      simp only [Sessions.step, create] at hstep
      split at hstep
      · rename_i socket haccepted
        obtain ⟨-, hok⟩ := require_bind_eq_ok.mp hstep
        cases hok
        refine { h with
          accepted := fun _ haccepted => by cases haccepted
          created := ?_
          obtained := forall_mem_concat h.obtained fun _ hsocket => by cases hsocket }
        intro tid' socket' hcreated
        cases hcreated
        exact h.accepted socket haccepted
      · cases hstep
  | insert =>
      -- an entry that is there stays
      simp only [Sessions.step, insert] at hstep
      split at hstep
      · rename_i tid socket hcreated
        split at hstep
        · cases hstep
          have hlisted := h.update tid (some (some socket)) fun socket' hentry => by
            cases hentry
            exact h.created tid socket hcreated
          exact { hlisted with
            accepted := fun _ haccepted => by cases haccepted
            created := fun _ _ hcreated => by cases hcreated }
        · cases hstep
          exact { h with
            accepted := fun _ haccepted => by cases haccepted
            created := fun _ _ hcreated => by cases hcreated }
      · cases hstep
  | lookup w =>
      -- the socket comes from the entry; without one it is `NULL`
      obtain ⟨worker, -, hstep⟩ := bind_eq_ok.mp hstep
      obtain ⟨-, hstep⟩ := require_bind_eq_ok.mp hstep
      split at hstep
      · rename_i entry hlisted
        cases hstep
        refine h.setPhase w worker _ fun socket hsocket => ?_
        cases hsocket
        exact h.listed worker.tid socket hlisted
      · cases hstep
        have hobtained := h.setPhase w worker (.obtained none) fun _ hsocket => by cases hsocket
        exact hobtained.update worker.tid (some none) fun _ hentry => by cases hentry
  | serve w =>
      obtain ⟨worker, hworker, hstep⟩ := bind_eq_ok.mp hstep
      split at hstep
      · cases hstep
      · rename_i socket hphase
        split at hstep
        · cases hstep
        · cases hstep
          have hlt := h.obtained worker (mem_of_getWorker hworker) socket (by rw [hphase]; rfl)
          have hnext := h.setPhase w worker (.served socket) fun socket' hsocket => by
            cases hsocket
            exact hlt
          exact { hnext with served := forall_mem_concat h.served hlt }
      · cases hstep
  | find w =>
      obtain ⟨worker, hworker, hstep⟩ := bind_eq_ok.mp hstep
      split at hstep
      · rename_i socket hphase
        cases hstep
        refine h.setPhase w worker _ fun socket' hsocket => ?_
        cases hsocket
        exact h.obtained worker (mem_of_getWorker hworker) socket (by rw [hphase]; rfl)
      · cases hstep
  | erase w =>
      obtain ⟨worker, hworker, hstep⟩ := bind_eq_ok.mp hstep
      split at hstep
      · rename_i socket hphase
        cases hstep
        have herased := h.setPhase w worker (.erased socket) fun socket' hsocket => by
          cases hsocket
          exact h.obtained worker (mem_of_getWorker hworker) socket (by rw [hphase]; rfl)
        exact herased.update worker.tid none fun _ hentry => by cases hentry
      · cases hstep
      · cases hstep
  | delete w =>
      obtain ⟨worker, -, hstep⟩ := bind_eq_ok.mp hstep
      split at hstep
      · split at hstep
        · cases hstep
        · cases hstep
          have hdeleted := h.setPhase w worker .deleted fun _ hsocket => by cases hsocket
          exact { hdeleted with }
      · cases hstep
  | exit w =>
      obtain ⟨worker, -, hstep⟩ := bind_eq_ok.mp hstep
      obtain ⟨-, hstep⟩ := require_bind_eq_ok.mp hstep
      cases hstep
      exact h.setPhase w worker .exited fun _ hsocket => by cases hsocket

end Sessions

namespace Stopping

variable {s s' : Stopping} {e : Event}

theorem session_eq_ok {e : Sessions.Event} : s.step (.session e) = ok s' ↔
    (s.main ≠ .ended ∧ (e.ofAcceptor = true → s.main = .accepting)) ∧
      ∃ sessions, s.sessions.step e = ok sessions ∧
        s' = { s with sessions, main := if e = .insert then .testing else s.main } := by
  rw [step, session, require_bind_eq_ok]
  refine and_congr_right fun _ => ?_
  rw [bind_eq_ok]
  simp only [ok.injEq, eq_comm]

/-- The loop waits for a connection. -/
def Waits (s : Stopping) : Prop :=
  s.main = .accepting ∧ s.sessions.acceptor = .accepting

theorem step_cases (h : s.step e = ok s') :
    (e = .signal ∧ s' = { s with mStop := true }) ∨
      (e = .test ∧ s.main = .testing ∧
        s' = { s with main := if s.mStop then .left else .accepting }) ∨
      (e = .timeout ∧ s.Waits ∧ s' = { s with main := .testing }) ∨
      (e = .exit ∧ s.main = .left ∧ s' = { s with main := .ended }) ∨
      ∃ event sessions, e = .session event ∧ (event.ofAcceptor = true → s.main = .accepting) ∧
        s.sessions.step event = ok sessions ∧
        s' = { s with sessions, main := if event = .insert then .testing else s.main } := by
  cases e with
  | signal =>
      obtain ⟨-, hok⟩ := require_bind_eq_ok.mp h
      exact Or.inl ⟨rfl, (ok.inj hok).symm⟩
  | test =>
      obtain ⟨htesting, hok⟩ := require_bind_eq_ok.mp h
      exact Or.inr (Or.inl ⟨rfl, htesting, (ok.inj hok).symm⟩)
  | timeout =>
      obtain ⟨hwaits, hok⟩ := require_bind_eq_ok.mp h
      exact Or.inr (Or.inr (Or.inl ⟨rfl, hwaits, (ok.inj hok).symm⟩))
  | exit =>
      obtain ⟨hleft, hok⟩ := require_bind_eq_ok.mp h
      exact Or.inr (Or.inr (Or.inr (Or.inl ⟨rfl, hleft, (ok.inj hok).symm⟩)))
  | session event =>
      obtain ⟨⟨-, hmain⟩, sessions, hstep, rfl⟩ := session_eq_ok.mp h
      exact Or.inr (Or.inr (Or.inr (Or.inr ⟨event, sessions, rfl, hmain, hstep, rfl⟩)))

theorem mStop_of_step (hstop : s.mStop = true) (h : s.step e = ok s') : s'.mStop = true := by
  rcases step_cases h with ⟨-, rfl⟩ | ⟨-, -, rfl⟩ | ⟨-, -, rfl⟩ | ⟨-, -, rfl⟩ | ⟨-, -, -, -, -, rfl⟩
  · rfl
  · exact hstop
  · exact hstop
  · exact hstop
  · exact hstop

/-! ## How many steps are left -/

/-- The steps that the thread of `main` takes behind the signal, at most. -/
def toEnd (s : Stopping) : ℕ :=
  match s.main with
  | .accepting =>
      match s.sessions.acceptor with
      | .accepting => 5
      | .accepted _ => 4
      | .created _ _ => 3
  | .testing => 2
  | .left => 1
  | .ended => 0

theorem toEnd_le (s : Stopping) : s.toEnd ≤ 5 := by
  unfold toEnd
  split
  · split
    · exact le_rfl
    · omega
    · omega
  · omega
  · omega
  · omega

/-- Each of its steps is one less, and no other thread adds one. -/
theorem toEnd_of_step (hstop : s.mStop = true) (h : s.step e = ok s') :
    (if e.ofMain then 1 else 0) + s'.toEnd ≤ s.toEnd := by
  rcases step_cases h with ⟨rfl, rfl⟩ | ⟨rfl, htesting, rfl⟩ | ⟨rfl, ⟨haccepting, hacceptor⟩, rfl⟩ |
    ⟨rfl, hleft, rfl⟩ | ⟨event, sessions, rfl, hmain, hstep, rfl⟩
  · exact (Nat.zero_add _).le
  · simp only [toEnd, htesting, hstop, reduceIte, Event.ofMain, le_refl]
  · simp only [toEnd, haccepting, hacceptor, Event.ofMain, reduceIte]
    omega
  · simp only [toEnd, hleft, Event.ofMain, reduceIte, le_refl]
  · rcases Sessions.acceptor_of_step hstep with ⟨rfl, hold, hnew, -⟩ | ⟨tid, socket, rfl, hold, hnew, -⟩ |
      ⟨tid, socket, rfl, hold, hnew, -⟩ | ⟨hworker, hsame, -⟩
    · simp [toEnd, hmain rfl, hold, hnew, Event.ofMain, Sessions.Event.ofAcceptor]
    · simp [toEnd, hmain rfl, hold, hnew, Event.ofMain, Sessions.Event.ofAcceptor]
    · simp [toEnd, hmain rfl, hold, Event.ofMain, Sessions.Event.ofAcceptor]
    · have hne : event ≠ .insert := by
        rintro rfl
        cases hworker
      simp [toEnd, hsame, hne, Event.ofMain, hworker]

/-- Whatever the workers do, the thread of `main` takes few steps. -/
theorem countP_le {es : List Event} (hstop : s.mStop = true) (hrun : run step es s = ok s') :
    es.countP Event.ofMain + s'.toEnd ≤ s.toEnd := by
  induction es generalizing s with
  | nil =>
      cases hrun
      exact (Nat.zero_add _).le
  | cons e es ih =>
      rw [run] at hrun
      obtain ⟨s₁, hnext, hrest⟩ := bind_eq_ok.mp hrun
      have hstep := toEnd_of_step hstop hnext
      have hle := ih (mStop_of_step hstop hnext) hrest
      rw [List.countP_cons]
      omega

theorem exists_mainStep (hstop : s.mStop = true) (hmain : s.main ≠ .ended) :
    ∃ e s', e.ofMain = true ∧ step s e = ok s' ∧ s'.toEnd < s.toEnd ∧
      s'.sessions.accepted = s.sessions.accepted ∧ s'.sessions.served = s.sessions.served := by
  have hless : ∀ {e s'}, e.ofMain = true → step s e = ok s' → s'.toEnd < s.toEnd := by
    intro e s' he hstep
    have hle := toEnd_of_step hstop hstep
    rw [if_pos he] at hle
    omega
  cases hphase : s.main with
  | testing =>
      have hstep : step s .test = ok { s with main := if s.mStop then .left else .accepting } :=
        require_bind_of hphase _
      exact ⟨.test, _, rfl, hstep, hless rfl hstep, rfl, rfl⟩
  | left =>
      have hstep : step s .exit = ok { s with main := .ended } := require_bind_of hphase _
      exact ⟨.exit, _, rfl, hstep, hless rfl hstep, rfl, rfl⟩
  | ended => exact absurd hphase hmain
  | accepting =>
      -- a step of the loop that accepts no new connection
      have hgoes : ∀ (e : Sessions.Event) (sessions : Sessions), e.ofAcceptor = true → e ≠ .accept →
          s.sessions.step e = ok sessions → ∃ s', step s (.session e) = ok s' ∧
            s'.toEnd < s.toEnd ∧ s'.sessions.accepted = s.sessions.accepted ∧
            s'.sessions.served = s.sessions.served := by
        intro e sessions he hne hstep
        have hsession := session_eq_ok.mpr ⟨⟨hmain, fun _ => hphase⟩, sessions, hstep, rfl⟩
        have hmainEvent : (Event.session e).ofMain = true := he
        exact ⟨_, hsession, hless hmainEvent hsession, Sessions.served_of_step hstep he hne⟩
      cases hacceptor : s.sessions.acceptor with
      | accepting =>
          -- `acceptConn` comes back without a connection
          have hstep : step s .timeout = ok { s with main := .testing } :=
            require_bind_of ⟨hphase, hacceptor⟩ _
          exact ⟨.timeout, _, rfl, hstep, hless rfl hstep, rfl, rfl⟩
      | accepted socket =>
          obtain ⟨tid, sessions, hcreate⟩ := Sessions.exists_create hacceptor
          obtain ⟨s', hstep⟩ := hgoes (.create tid) sessions rfl nofun hcreate
          exact ⟨.session (.create tid), s', rfl, hstep⟩
      | created tid socket =>
          obtain ⟨sessions, hinsert⟩ := Sessions.exists_insert hacceptor
          obtain ⟨s', hstep⟩ := hgoes .insert sessions rfl nofun hinsert
          exact ⟨.session .insert, s', rfl, hstep⟩

/-- The process can end before any worker takes another step. -/
theorem exists_end (hstop : s.mStop = true) : ∃ es s', run step es s = ok s' ∧ s'.main = .ended ∧
    s'.sessions.accepted = s.sessions.accepted ∧ s'.sessions.served = s.sessions.served := by
  induction hn : s.toEnd using Nat.strong_induction_on generalizing s with
  | _ n ih =>
      by_cases hmain : s.main = .ended
      · exact ⟨[], s, rfl, hmain, rfl, rfl⟩
      · obtain ⟨e, s₁, -, hstep, hlt, haccepted, hserved⟩ := exists_mainStep hstop hmain
        obtain ⟨es, s', hrun, hend, haccepted', hserved'⟩ :=
          ih s₁.toEnd (hn ▸ hlt) (mStop_of_step hstop hstep) rfl
        exact ⟨e :: es, s', by rw [run, hstep, ok_bind, hrun], hend, haccepted'.trans haccepted,
          hserved'.trans hserved⟩

/-! ## Which connections are lost -/

/-- Every connection that was accepted has been served. -/
def AllServed (s : Stopping) : Prop :=
  ∀ socket < s.sessions.accepted, ∃ w, (w, socket) ∈ s.sessions.served

/-- In whatever order the threads go on, all connections have been served when the process ends. -/
def LosesNothing (s : Stopping) : Prop :=
  ∀ es s', run step es s = ok s' → s'.main = .ended → s'.AllServed

/-- Once everybody was served and no new connection comes, this stays so. -/
theorem settled_of_step (hstop : s.mStop = true) (hserved : s.AllServed) (hwaits : ¬s.Waits)
    (h : s.step e = ok s') : s'.AllServed ∧ ¬s'.Waits := by
  rcases step_cases h with ⟨-, rfl⟩ | ⟨-, -, rfl⟩ | ⟨-, hold, -⟩ | ⟨-, -, rfl⟩ |
    ⟨event, sessions, -, hmain, hstep, rfl⟩
  · exact ⟨hserved, hwaits⟩
  · refine ⟨hserved, fun hnew => ?_⟩
    have hphase := hnew.1
    rw [hstop] at hphase
    cases hphase
  · exact absurd hold hwaits
  · exact ⟨hserved, fun hnew => by cases hnew.1⟩
  · rcases Sessions.acceptor_of_step hstep with ⟨rfl, hold, -⟩ |
      ⟨tid, socket, rfl, -, hnew, haccepted, hsame⟩ | ⟨tid, socket, rfl, -, -, haccepted, hsame⟩ |
      ⟨hworker, hsame, haccepted, hmore⟩
    · exact absurd ⟨hmain rfl, hold⟩ hwaits
    · refine ⟨?_, fun hwaits' => ?_⟩
      · unfold AllServed
        rw [haccepted, hsame]
        exact hserved
      · cases hnew.symm.trans hwaits'.2
    · refine ⟨?_, fun hwaits' => by cases hwaits'.1⟩
      unfold AllServed
      rw [haccepted, hsame]
      exact hserved
    · refine ⟨fun socket hlt => ?_, fun hwaits' => ?_⟩
      · rw [haccepted] at hlt
        obtain ⟨w, hw⟩ := hserved socket hlt
        exact ⟨w, hmore _ hw⟩
      · have hne : event ≠ .insert := by
          rintro rfl
          cases hworker
        have hphase := hwaits'.1
        rw [if_neg hne] at hphase
        exact hwaits ⟨hphase, hsame ▸ hwaits'.2⟩

theorem numbered_of_run {es : List Event} (hrun : run step es init = ok s) : s.sessions.Numbered := by
  refine inv_of_run (fun s : Stopping => s.sessions.Numbered) (fun s e s' h hstep => ?_)
    Sessions.numbered_init hrun
  rcases step_cases hstep with ⟨-, rfl⟩ | ⟨-, -, rfl⟩ | ⟨-, -, rfl⟩ | ⟨-, -, rfl⟩ |
    ⟨event, sessions, -, -, hsessions, rfl⟩
  · exact h
  · exact h
  · exact h
  · exact h
  · exact h.step hsessions

/-- A connection that is accepted behind the signal can be lost. -/
theorem not_losesNothing_of_waits (hnumbered : s.sessions.Numbered) (hstop : s.mStop = true)
    (hwaits : s.Waits) : ¬s.LosesNothing := by
  intro hall
  have haccept : s.sessions.step .accept = ok { s.sessions with
      acceptor := .accepted s.sessions.accepted, accepted := s.sessions.accepted + 1 } :=
    require_bind_of hwaits.2 _
  have hmain : s.main ≠ .ended := by
    rw [hwaits.1]
    nofun
  have hstep := session_eq_ok.mpr ⟨⟨hmain, fun _ => hwaits.1⟩, _, haccept, rfl⟩
  obtain ⟨es, s', hrun, hend, haccepted, hserved⟩ := exists_end (mStop_of_step hstop hstep)
  obtain ⟨w, hw⟩ := hall (.session .accept :: es) s' (by rw [run, hstep, ok_bind, hrun]) hend
    s.sessions.accepted (by rw [haccepted]; exact Nat.lt_succ_self _)
  rw [hserved] at hw
  exact absurd (hnumbered.served _ hw) (lt_irrefl _)

/-- Behind the signal the thread of `main` takes five steps at most and is never blocked.  No order of
steps loses a connection exactly if all were served, and the loop did not wait for one. -/
theorem stops_iff {es₀ : List Event} (hrun₀ : run step es₀ init = ok s) (hstop : s.mStop = true) :
    (∀ es s', run step es s = ok s' → es.countP Event.ofMain ≤ 5 ∧
      (s'.main ≠ .ended → ∃ e s'', e.ofMain = true ∧ step s' e = ok s'')) ∧
      (s.LosesNothing ↔ s.AllServed ∧ ¬s.Waits) := by
  constructor
  · intro es s' hrun
    have hcount := countP_le hstop hrun
    have hstop' : s'.mStop = true :=
      inv_of_run (fun s : Stopping => s.mStop = true) (fun _ _ _ => mStop_of_step) hstop hrun
    have hle := toEnd_le s
    refine ⟨by omega, fun hmain => ?_⟩
    obtain ⟨e, s'', he, hstep, -⟩ := exists_mainStep hstop' hmain
    exact ⟨e, s'', he, hstep⟩
  · constructor
    · intro hall
      constructor
      · obtain ⟨es, s', hrun, hend, haccepted, hserved⟩ := exists_end hstop
        intro socket hlt
        rw [← hserved]
        exact hall es s' hrun hend socket (haccepted ▸ hlt)
      · intro hwaits
        exact not_losesNothing_of_waits (numbered_of_run hrun₀) hstop hwaits hall
    · intro hsettled es s' hrun hend
      refine (inv_of_run (fun s : Stopping => s.mStop = true ∧ s.AllServed ∧ ¬s.Waits)
        (fun s e s' h hstep => ?_) ⟨hstop, hsettled⟩ hrun).2.1
      exact ⟨mStop_of_step h.1 hstep, settled_of_step h.1 h.2.1 h.2.2 hstep⟩

/-- One connection is accepted and served, and then the signal comes. -/
def servedAndStopped : List Event :=
  [.test, .session .accept, .session (.create 5), .session .insert, .session (.lookup 0),
    .session (.serve 0), .signal]

theorem stops_iff_servedAndStopped :
    ∃ s, run step servedAndStopped init = ok s ∧ s.LosesNothing := by
  have hreached : reaches step servedAndStopped init (fun s => s.mStop = true ∧ s.main = .testing ∧
      s.sessions.accepted = 1 ∧ s.sessions.served = [(0, 0)]) = true := by
    decide +kernel
  obtain ⟨s, hrun, hs⟩ := exists_of_reaches hreached
  obtain ⟨hstop, hmain, haccepted, hserved⟩ := of_decide_eq_true hs
  refine ⟨s, hrun, (stops_iff hrun hstop).2.mpr ⟨fun socket hlt => ⟨0, ?_⟩, fun hwaits => ?_⟩⟩
  · rw [haccepted] at hlt
    obtain rfl : socket = 0 := by omega
    rw [hserved]
    exact List.mem_singleton_self _
  · cases hmain.symm.trans hwaits.1

end Stopping

end SafeTransmission
